import SCLOrkTools.Confab.RoundTrip

/- The two passes of postFileAsset over a file: what the first one hashes and what the second one
   posts. -/
namespace Confab
open ByteStrings

def chunkCount (fileSize : Nat) : Nat := (fileSize + (kDataChunkSize - 1)) / kDataChunkSize

def Hashing.start (fileSize : Nat) (content : List Byte) : Hashing :=
  let (buffer, inFile) := (IfStream.open content).read kDataChunkSize
  ⟨[], buffer, sizeSub fileSize buffer.length, inFile⟩

def Hashing.running (h : Hashing) : Prop := h.inFile.good ∧ h.bytesRemaining > 0

/-- The chunks that the second loop posts if all of them are answered Ok, with their numbers, and
    what it ends with. None if a chunk cannot be read again or the fuel does not suffice. -/
def uploadTurns (XXH64 : List Byte → UInt64) :
    Nat → Sending → Option (List (Nat × FlatAssetData) × Sending)
  | 0, _ => none
  | fuel + 1, s =>
    match s.turn XXH64 with
    | .ends => some ([], s)
    | .short => none
    | .posts record next =>
      (uploadTurns XXH64 fuel next).map fun (posts, last) => ((s.chunk, record) :: posts, last)

def pieces (XXH64 : List Byte → UInt64) (bytes : List Byte) : List (Nat × FlatAssetData) :=
  (List.range (chunkCount bytes.length)).map fun i => (i, piece XXH64 bytes i)

theorem lt_chunkCount {j n : Nat} : j < chunkCount n ↔ j * kDataChunkSize < n := by
  have unit : kDataChunkSize = 2877 := by decide
  rw [chunkCount, unit]
  omega

section Loops
variable {XXH64 : List Byte → UInt64} {bytes : List Byte}

theorem uploadTurns_pieces {fuel j : Nat} (front : j ≤ chunkCount bytes.length)
    (enough : chunkCount bytes.length - j < fuel) :
    uploadTurns XXH64 fuel (Sending.upTo XXH64 bytes j) =
      some ((List.range' j (chunkCount bytes.length - j)).map fun i => (i, piece XXH64 bytes i),
        Sending.upTo XXH64 bytes (chunkCount bytes.length)) := by
  induction fuel generalizing j with
  | zero => omega
  | succ fuel ih =>
    rw [uploadTurns]
    by_cases more : j < chunkCount bytes.length
    · have left : chunkCount bytes.length - j = chunkCount bytes.length - (j + 1) + 1 := by omega
      rw [turn_piece (lt_chunkCount.mp more)]
      simp only [ih more (by omega), Option.map_some]
      rw [left, List.range'_succ, List.map_cons]
      rfl
    · have all : chunkCount bytes.length = j := by omega
      rw [turn_ends (not_lt.mp fun before => more (lt_chunkCount.mpr before)), all, Nat.sub_self]
      rfl

theorem sendTurns_pieces {fuel j : Nat} (front : j ≤ chunkCount bytes.length)
    (enough : chunkCount bytes.length - j ≤ fuel) (key : UInt64) (server : AssetServer) :
    sendTurns XXH64 key (fun _ => true) fuel (Sending.upTo XXH64 bytes j) server =
      ((Sending.upTo XXH64 bytes (chunkCount bytes.length)).result key,
        ((List.range' j (chunkCount bytes.length - j)).map fun i => (i, piece XXH64 bytes i)).foldl
          (fun server post => server.store key (UInt64.ofNat post.1) post.2) server) := by
  induction fuel generalizing j server with
  | zero =>
    have all : chunkCount bytes.length = j := by omega
    rw [sendTurns, all, Nat.sub_self]
    rfl
  | succ fuel ih =>
    rw [sendTurns]
    by_cases more : j < chunkCount bytes.length
    · have left : chunkCount bytes.length - j = chunkCount bytes.length - (j + 1) + 1 := by omega
      rw [turn_piece (lt_chunkCount.mp more)]
      simp only [if_true]
      rw [ih more (by omega), left, List.range'_succ, List.map_cons, List.foldl_cons]
      rfl
    · have all : chunkCount bytes.length = j := by omega
      rw [turn_ends (not_lt.mp fun before => more (lt_chunkCount.mpr before)), all, Nat.sub_self]
      rfl

theorem hashTurns_left (fuel : Nat) {h : Hashing} (left : h.bytesRemaining = h.inFile.rest.length)
    (small : h.bytesRemaining < 2 ^ 64) :
    (hashTurns fuel h).bytesRemaining = (hashTurns fuel h).inFile.rest.length := by
  induction fuel generalizing h with
  | zero => exact left
  | succ fuel ih =>
    rw [hashTurns]
    split
    · rename_i running
      obtain ⟨hashed, buffer, bytesRemaining, ⟨rest, good⟩⟩ := h
      change bytesRemaining = rest.length at left
      obtain rfl : good = true := running.1
      subst left
      obtain ⟨next, after, read, split, remains, -⟩ := read_split small
      rw [read]
      have shorter : after.rest.length ≤ rest.length := by
        rw [← split, List.length_append]
        omega
      exact ih remains (by rw [remains]; exact shorter.trans_lt small)
    · exact left

end Loops

/-- What the two passes over a file do. Both loops end, and no subtraction of what has been read
    from what remains goes below zero. -/
structure Chunked (XXH64 : List Byte → UInt64) (bytes : List Byte) : Prop where
  hashEnds : ∀ fuel, bytes.length < fuel →
    ¬ (hashTurns fuel (Hashing.start bytes.length bytes)).running
  firstRead : ((IfStream.open bytes).read kDataChunkSize).1.length ≤ bytes.length
  hashReads : ∀ turns, (hashTurns turns (Hashing.start bytes.length bytes)).running →
    ((hashTurns turns (Hashing.start bytes.length bytes)).inFile.read kDataChunkSize).1.length ≤
      (hashTurns turns (Hashing.start bytes.length bytes)).bytesRemaining
  hashed : hashFile XXH64 bytes.length (some bytes) = some (XXH64 bytes)
  uploadEnds : ∀ fuel, chunkCount bytes.length < fuel → ∃ last,
    uploadTurns XXH64 fuel (Sending.start bytes.length bytes) = some (pieces XXH64 bytes, last) ∧
      last.result (XXH64 bytes) = XXH64 bytes
  uploadReads : ∀ s : Sending,
    (s.inFile.read (min kDataChunkSize s.bytesRemaining)).1.length ≤ s.bytesRemaining
  count : (pieces XXH64 bytes).length = chunkCount bytes.length
  data : ∀ i, (piece XXH64 bytes i).data =
    (bytes.take (min ((i + 1) * kDataChunkSize) bytes.length)).drop (i * kDataChunkSize)
  hash : ∀ i, (piece XXH64 bytes i).hash =
    XXH64 (bytes.take (min ((i + 1) * kDataChunkSize) bytes.length))
  lastHash : (pieces XXH64 bytes).getLast?.map (·.2.hash) = some (XXH64 bytes)

section Files
variable {XXH64 : List Byte → UInt64} {file : File}

theorem start_small (file : File) :
    (Hashing.start file.bytes.length file.bytes).bytesRemaining =
        (Hashing.start file.bytes.length file.bytes).inFile.rest.length ∧
      (Hashing.start file.bytes.length file.bytes).inFile.rest.length ≤ file.bytes.length ∧
      ((Hashing.start file.bytes.length file.bytes).inFile.rest ≠ [] →
        (Hashing.start file.bytes.length file.bytes).inFile.good) := by
  obtain ⟨buffer, inFile, read, split, remains, going, -⟩ := read_split file.small
  have shorter : inFile.rest.length ≤ file.bytes.length := by
    rw [← split, List.length_append]
    omega
  simp only [Hashing.start, IfStream.open, read]
  exact ⟨remains, shorter, going⟩

theorem read_length (f : IfStream) (n : Nat) : (f.read n).1.length ≤ f.rest.length := by
  unfold IfStream.read
  split
  · exact List.length_take_le' n f.rest
  · exact Nat.zero_le _

theorem read_within (f : IfStream) (n : Nat) : (f.read n).1.length ≤ n := by
  unfold IfStream.read
  split
  · exact List.length_take_le n f.rest
  · exact Nat.zero_le _

theorem hash_ends (file : File) (fuel : Nat) (enough : file.bytes.length < fuel) :
    ¬ (hashTurns fuel (Hashing.start file.bytes.length file.bytes)).running := by
  have small := file.small
  obtain ⟨remains, shorter, going⟩ := start_small file
  obtain ⟨h, ends, -, done⟩ := hashTurns_whole fuel
    (Hashing.start file.bytes.length file.bytes).hashed
    (Hashing.start file.bytes.length file.bytes).buffer (by omega) (by omega) going
  rw [← remains] at ends
  rintro ⟨-, more⟩
  change hashTurns fuel (Hashing.start file.bytes.length file.bytes) = h at ends
  rw [ends, done] at more
  exact absurd more (lt_irrefl 0)

theorem lastChunk (nonempty : file.bytes ≠ []) :
    file.bytes.take (chunkCount file.bytes.length * kDataChunkSize) = file.bytes ∧
      chunkCount file.bytes.length ≠ 0 := by
  have some_byte := List.length_pos_iff.mpr nonempty
  constructor
  · apply List.take_of_length_le
    exact not_lt.mp fun before => absurd (lt_chunkCount.mpr before) (lt_irrefl _)
  · exact Nat.pos_iff_ne_zero.mp (lt_chunkCount.mpr (by omega))

theorem upTo_result (nonempty : file.bytes ≠ []) :
    (Sending.upTo XXH64 file.bytes (chunkCount file.bytes.length)).result (XXH64 file.bytes) =
      XXH64 file.bytes := by
  obtain ⟨whole, some_chunk⟩ := lastChunk nonempty
  have hash : (Sending.upTo XXH64 file.bytes (chunkCount file.bytes.length)).chunkHash =
      XXH64 file.bytes := by
    simp only [Sending.upTo, digestOf, if_neg some_chunk, whole]
  have done :
      (Sending.upTo XXH64 file.bytes (chunkCount file.bytes.length)).bytesRemaining = 0 := by
    have all : ¬ chunkCount file.bytes.length * kDataChunkSize < file.bytes.length :=
      fun before => absurd (lt_chunkCount.mpr before) (lt_irrefl _)
    change file.bytes.length - chunkCount file.bytes.length * kDataChunkSize = 0
    omega
  unfold Sending.result
  rw [hash, done, if_neg (by simp)]

theorem sending_start (file : File) :
    Sending.start file.bytes.length file.bytes = Sending.upTo XXH64 file.bytes 0 := by
  simp [Sending.start, Sending.upTo, IfStream.open, digestOf]

theorem upload_ends (nonempty : file.bytes ≠ []) {fuel : Nat}
    (enough : chunkCount file.bytes.length < fuel) :
    ∃ last, uploadTurns XXH64 fuel (Sending.start file.bytes.length file.bytes) =
        some (pieces XXH64 file.bytes, last) ∧
      last.result (XXH64 file.bytes) = XXH64 file.bytes := by
  refine ⟨_, ?_, upTo_result nonempty⟩
  rw [sending_start, uploadTurns_pieces (Nat.zero_le _) (by simpa using enough), Nat.sub_zero,
    pieces, List.range_eq_range']

theorem take_min (bytes : List Byte) (m : Nat) :
    bytes.take (min m bytes.length) = bytes.take m := by
  rw [List.take_eq_take_iff]
  omega

theorem upload_chunked (file : File) (nonempty : file.bytes ≠ []) :
    Chunked XXH64 file.bytes ∧ ∀ server : AssetServer,
      postFileAsset XXH64 file true (fun _ => true) server = (XXH64 file.bytes,
        (pieces XXH64 file.bytes).foldl
          (fun server post => server.store (XXH64 file.bytes) (UInt64.ofNat post.1) post.2)
          server) := by
  obtain ⟨whole, some_chunk⟩ := lastChunk nonempty
  obtain ⟨remains, shorter, -⟩ := start_small file
  have small := file.small
  constructor
  · constructor
    · exact hash_ends file
    · exact read_length _ _
    · intro turns _
      rw [hashTurns_left turns remains (by omega)]
      exact read_length _ _
    · exact hashFile_whole file nonempty
    · exact fun fuel => upload_ends nonempty
    · exact fun s => (read_within _ _).trans (min_le_right _ _)
    · simp [pieces]
    · intro i
      rw [take_min, List.drop_take, Nat.succ_mul, Nat.add_sub_cancel_left]
      rfl
    · intro i
      rw [take_min]
      rfl
    · obtain ⟨n, count⟩ := Nat.exists_eq_succ_of_ne_zero some_chunk
      rw [count] at whole
      simp [pieces, count, List.range_succ, piece, whole]
  · intro server
    have enough : chunkCount file.bytes.length - 0 ≤ file.bytes.length := by
      have unit : kDataChunkSize = 2877 := by decide
      rw [chunkCount, unit]
      omega
    simp only [postFileAsset, hashFile_whole file nonempty, if_true]
    rw [sending_start, sendTurns_pieces (Nat.zero_le _) enough, upTo_result nonempty, Nat.sub_zero,
      pieces, List.range_eq_range']

theorem chunks_stored {host : ByteOrder} {getFlatAssetData : List Byte → FlatAssetData}
    {serialize : FlatAssetData → List Byte} (reads : ∀ r, getFlatAssetData (serialize r) = r)
    (key : UInt64) (posts : List (Nat × FlatAssetData)) (db : Database) :
    (posts.foldl (fun db post =>
        db.storeAssetDataChunk host key (UInt64.ofNat post.1) (serialize post.2)) db).chunks
          host getFlatAssetData =
      posts.foldl (fun server post => server.store key (UInt64.ofNat post.1) post.2)
        (db.chunks host getFlatAssetData) := by
  induction posts generalizing db with
  | nil => rfl
  | cons post posts ih => rw [List.foldl_cons, List.foldl_cons, ih, chunks_store, reads]

theorem stored_numbers (server : AssetServer) (key : UInt64) (records : Nat → FlatAssetData)
    {n i : Nat} (small : n < 2 ^ 64) (inside : i < n) :
    ((List.range n).map fun j => (j, records j)).foldl
      (fun server post => server.store key (UInt64.ofNat post.1) post.2) server key
        (UInt64.ofNat i) = some (records i) := by
  induction n with
  | zero => omega
  | succ n ih =>
    rw [List.range_succ, List.map_append, List.foldl_append]
    rcases Nat.lt_succ_iff_lt_or_eq.mp inside with before | rfl
    · have other : UInt64.ofNat i ≠ UInt64.ofNat n := fun same =>
        before.ne (number_inj (by omega) (by omega) same)
      exact (store_other _ key (records n) other).trans (ih (by omega) before)
    · exact store_same _ key _ (records i)

/-- The server's database hands out what has been posted, chunk by chunk. -/
theorem posted_loads {host : ByteOrder} {getFlatAssetData : List Byte → FlatAssetData}
    {serialize : FlatAssetData → List Byte} (reads : ∀ r, getFlatAssetData (serialize r) = r)
    (db : Database) (key : UInt64) {i : Nat} (inside : i * kDataChunkSize < file.bytes.length) :
    let after := (pieces XXH64 file.bytes).foldl (fun db post =>
      db.storeAssetDataChunk host key (UInt64.ofNat post.1) (serialize post.2)) db
    (after.loadAssetDataChunk host key (UInt64.ofNat i)).data.map getFlatAssetData =
      some (piece XXH64 file.bytes i) := by
  have few : chunkCount file.bytes.length < 2 ^ 64 := by
    have small := file.small
    have unit : kDataChunkSize = 2877 := by decide
    rw [chunkCount, unit]
    omega
  apply chunks_load
  rw [chunks_stored reads]
  exact stored_numbers _ key (piece XXH64 file.bytes) few (lt_chunkCount.mpr inside)

end Files

def moreZeros : File where
  bytes := List.replicate (kDataChunkSize + 1) 0
  small := by
    rw [List.length_replicate]
    decide

/-- XXH64 of the first chunk and of the whole file. -/
def zerosHash (content : List Byte) : UInt64 :=
  if content = moreZeros.bytes then 0x092e13862a887c8b
  else hashOf zeros 0x7d52e144436783c6 content

theorem upload_chunked_zeros : chunkCount moreZeros.bytes.length = 2 ∧
    Chunked zerosHash moreZeros.bytes ∧ ∀ server : AssetServer,
      postFileAsset zerosHash moreZeros true (fun _ => true) server = (zerosHash moreZeros.bytes,
        (pieces zerosHash moreZeros.bytes).foldl (fun server post =>
          server.store (zerosHash moreZeros.bytes) (UInt64.ofNat post.1) post.2) server) := by
  have length : moreZeros.bytes.length = kDataChunkSize + 1 := List.length_replicate
  refine ⟨?_, upload_chunked moreZeros (List.ne_nil_of_length_pos ?_)⟩
  · rw [length]
    decide
  · rw [length]
    exact Nat.succ_pos _

end Confab
