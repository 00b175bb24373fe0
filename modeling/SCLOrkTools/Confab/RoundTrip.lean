import SCLOrkTools.Confab.CacheManager
import SCLOrkTools.Confab.Lookups

/- A file that is posted, and then downloaded from the server that has kept what was posted. -/
namespace Confab
open OrderedStores ByteStrings

structure File where
  bytes : List Byte
  small : bytes.length < 2 ^ 64

abbrev AssetServer := UInt64 → UInt64 → Option FlatAssetData

def AssetServer.store (server : AssetServer) (key chunk : UInt64) (record : FlatAssetData) :
    AssetServer :=
  Function.update server key (Function.update (server key) chunk (some record))

section Database
variable {host : ByteOrder} {getFlatAssetData : List Byte → FlatAssetData} {db : Database}

/-- The chunk records that are stored, as the accessors read them. -/
def Database.chunks (host : ByteOrder) (getFlatAssetData : List Byte → FlatAssetData)
    (db : Database) : AssetServer :=
  fun key chunk => (db.get (makeAssetDataKey host key chunk)).map getFlatAssetData

/-- The database is such a server. What is posted is stored as it is. -/
theorem chunks_store {key chunk : UInt64} {data : List Byte} :
    (db.storeAssetDataChunk host key chunk data).chunks host getFlatAssetData =
      (db.chunks host getFlatAssetData).store key chunk (getFlatAssetData data) := by
  funext k c
  have read : (db.put (Item.key host (.chunk key chunk)) data).get (Item.key host (.chunk k c)) =
    _ := get_put_item db (.chunk key chunk) (.chunk k c) data
  change ((db.put (Item.key host (.chunk key chunk)) data).get
    (Item.key host (.chunk k c))).map getFlatAssetData = _
  rw [read]
  by_cases same : k = key
  · subst same
    by_cases number : c = chunk
    · simp [AssetServer.store, number]
    · simp [AssetServer.store, number, Database.chunks, Item.key]
  · simp [AssetServer.store, same, Database.chunks, Item.key]

theorem chunks_load {key chunk : UInt64} {record : FlatAssetData}
    (stored : db.chunks host getFlatAssetData key chunk = some record) :
    (db.loadAssetDataChunk host key chunk).data.map getFlatAssetData = some record := by
  obtain ⟨data, here, read⟩ := Option.map_eq_some_iff.mp stored
  have found : (db.loadAssetDataChunk host key chunk).data = some data := at_data (seek_at here)
  rw [found, ← read]
  rfl

end Database
section Posting
variable (XXH64 : List Byte → UInt64)

/-- The second loop, with one unit of fuel for each byte that is to be posted. `answers` tells
    whether the POST of a chunk is answered Ok; it is stored if so. -/
def sendTurns (key : UInt64) (answers : Nat → Bool) :
    Nat → Sending → AssetServer → UInt64 × AssetServer
  | 0, s, server => (s.result key, server)
  | fuel + 1, s, server =>
    match s.turn XXH64 with
    | .ends => (s.result key, server)
    | .short => (0, server)
    | .posts record next =>
      if answers s.chunk then
        sendTurns key answers fuel next (server.store key (UInt64.ofNat s.chunk) record)
      else (0, server)

/-- The key that is returned, and what the server has then. `recordOk` is the answer to the POST
    of the record `args.asset key file.bytes.length`. -/
def postFileAsset (file : File) (recordOk : Bool) (answers : Nat → Bool) (server : AssetServer) :
    UInt64 × AssetServer :=
  match hashFile XXH64 file.bytes.length (some file.bytes) with
  | none => (0, server)
  | some key =>
    if recordOk then
      sendTurns XXH64 key answers file.bytes.length
        (Sending.start file.bytes.length file.bytes) server
    else (0, server)

end Posting

section Hashing
variable {XXH64 : List Byte → UInt64}

theorem read_split {content : List Byte} (small : content.length < 2 ^ 64) :
    ∃ buffer inFile, (IfStream.mk content true).read kDataChunkSize = (buffer, inFile) ∧
      buffer ++ inFile.rest = content ∧
      sizeSub content.length buffer.length = inFile.rest.length ∧
      (inFile.rest ≠ [] → inFile.good) ∧ (content ≠ [] → inFile.rest.length < content.length) := by
  refine ⟨content.take kDataChunkSize,
    ⟨content.drop kDataChunkSize, decide (kDataChunkSize ≤ content.length)⟩, rfl,
    List.take_append_drop _ _, ?_, ?_, ?_⟩
  · have taken : (content.take kDataChunkSize).length ≤ content.length :=
      List.length_take_le' _ _
    rw [sizeSub_of_le taken small, List.length_take, List.length_drop]
    omega
  · intro more
    have left := List.length_pos_iff.mpr more
    rw [List.length_drop] at left
    exact decide_eq_true (by omega)
  · intro more
    have long := List.length_pos_iff.mpr more
    have chunk : 0 < kDataChunkSize := by decide
    rw [List.length_drop]
    omega

theorem hashTurns_whole (fuel : Nat) (hashed buffer : List Byte) {inFile : IfStream}
    (enough : inFile.rest.length < fuel) (small : inFile.rest.length < 2 ^ 64)
    (ready : inFile.rest ≠ [] → inFile.good) :
    ∃ h, hashTurns fuel ⟨hashed, buffer, inFile.rest.length, inFile⟩ = h ∧
      h.hashed ++ h.buffer = hashed ++ (buffer ++ inFile.rest) ∧ h.bytesRemaining = 0 := by
  induction fuel generalizing hashed buffer inFile with
  | zero => omega
  | succ fuel ih =>
    obtain ⟨rest, good⟩ := inFile
    cases rest with
    | nil => exact ⟨_, rfl, by simp [hashTurns], by simp [hashTurns]⟩
    | cons b rest =>
      have good : good = true := ready (List.cons_ne_nil b rest)
      subst good
      obtain ⟨next, left, read, split, remains, going, shorter⟩ := read_split small
      have fewer := shorter (List.cons_ne_nil b rest)
      change left.rest.length < (b :: rest).length at fewer
      change (b :: rest).length < fuel + 1 at enough
      change (b :: rest).length < 2 ^ 64 at small
      obtain ⟨h, ends, whole, done⟩ :=
        ih (hashed ++ buffer) next (by omega) (by omega) going
      refine ⟨h, ?_, ?_, done⟩
      · rw [hashTurns, if_pos ⟨rfl, Nat.succ_pos _⟩, read]
        change hashTurns fuel ⟨hashed ++ buffer, next,
          sizeSub (b :: rest).length next.length, left⟩ = h
        rw [remains, ends]
      · rw [whole, split, List.append_assoc]

theorem hashFile_whole (file : File) (nonempty : file.bytes ≠ []) :
    hashFile XXH64 file.bytes.length (some file.bytes) = some (XXH64 file.bytes) := by
  obtain ⟨bytes, small⟩ := file
  change bytes ≠ [] at nonempty
  have long : bytes.length ≠ 0 := fun none => nonempty (List.length_eq_zero_iff.mp none)
  obtain ⟨buffer, inFile, read, split, remains, going, shorter⟩ := read_split small
  have fewer := shorter nonempty
  obtain ⟨h, ends, whole, done⟩ :=
    hashTurns_whole (bytes.length + 1) [] buffer (by omega) (by omega) going
  unfold hashFile
  simp only [if_neg long, IfStream.open, read, remains, ends]
  rw [if_neg (by omega), whole, List.nil_append, split]

end Hashing
section Pieces
variable (XXH64 : List Byte → UInt64) (bytes : List Byte)

def piece (j : Nat) : FlatAssetData :=
  ⟨(bytes.drop (j * kDataChunkSize)).take kDataChunkSize,
    XXH64 (bytes.take ((j + 1) * kDataChunkSize))⟩

def digestOf (j : Nat) : UInt64 := if j = 0 then 0 else XXH64 (bytes.take (j * kDataChunkSize))

def Sending.upTo (j : Nat) : Sending where
  inFile := ⟨bytes.drop (j * kDataChunkSize), true⟩
  bytesRemaining := bytes.length - j * kDataChunkSize
  chunk := j
  hashed := bytes.take (j * kDataChunkSize)
  chunkHash := digestOf XXH64 bytes j

def Download.upTo (j : Nat) : Download where
  outFile := bytes.take (j * kDataChunkSize)
  downloadedSize := (bytes.take (j * kDataChunkSize)).length
  digest := digestOf XXH64 bytes j
  hashed := bytes.take (j * kDataChunkSize)
  ok := true

variable {XXH64 bytes}

theorem take_piece (XXH64 : List Byte → UInt64) (bytes : List Byte) (j : Nat) :
    bytes.take (j * kDataChunkSize) ++ (piece XXH64 bytes j).data =
      bytes.take ((j + 1) * kDataChunkSize) := by
  rw [Nat.succ_mul, List.take_add]
  rfl

theorem turn_piece {j : Nat} (more : j * kDataChunkSize < bytes.length) :
    (Sending.upTo XXH64 bytes j).turn XXH64 =
      .posts (piece XXH64 bytes j) (Sending.upTo XXH64 bytes (j + 1)) := by
  have left : 0 < bytes.length - j * kDataChunkSize := by omega
  refine (turn_reads rfl List.length_drop left).trans ?_
  have grown := take_piece XXH64 bytes j
  change bytes.take (j * kDataChunkSize) ++
    (bytes.drop (j * kDataChunkSize)).take kDataChunkSize = _ at grown
  have shrunk : bytes.length - j * kDataChunkSize -
      ((bytes.drop (j * kDataChunkSize)).take kDataChunkSize).length =
        bytes.length - (j + 1) * kDataChunkSize := by
    rw [List.length_take, List.length_drop, Nat.succ_mul]
    omega
  have behind : (bytes.drop (j * kDataChunkSize)).drop kDataChunkSize =
      bytes.drop ((j + 1) * kDataChunkSize) := by
    rw [List.drop_drop, Nat.succ_mul]
  simp only [Sending.upTo, grown, shrunk, behind, piece, digestOf, Nat.succ_ne_zero, if_false]

theorem turn_ends {j : Nat} (all : bytes.length ≤ j * kDataChunkSize) :
    (Sending.upTo XXH64 bytes j).turn XXH64 = .ends := by
  have none : bytes.length - j * kDataChunkSize = 0 := by omega
  unfold Sending.turn
  rw [if_neg]
  rintro ⟨-, more⟩
  change 0 < bytes.length - j * kDataChunkSize at more
  omega

theorem result_key {j : Nat} {key : UInt64}
    (nonzero : (Sending.upTo XXH64 bytes j).result key ≠ 0) :
    (Sending.upTo XXH64 bytes j).result key = key := by
  unfold Sending.result at nonzero ⊢
  split at nonzero
  · exact absurd rfl nonzero
  · rename_i whole
    exact if_neg whole

theorem number_inj {i j : Nat} (left : i < 2 ^ 64) (right : j < 2 ^ 64)
    (same : UInt64.ofNat i = UInt64.ofNat j) : i = j := by
  have numbers := congrArg UInt64.toNat same
  rwa [UInt64.toNat_ofNat_of_lt' left, UInt64.toNat_ofNat_of_lt' right] at numbers

theorem store_same (server : AssetServer) (key chunk : UInt64) (record : FlatAssetData) :
    server.store key chunk record key chunk = some record := by
  simp [AssetServer.store]

theorem store_other (server : AssetServer) (key : UInt64) {chunk other : UInt64}
    (record : FlatAssetData) (different : other ≠ chunk) :
    server.store key chunk record key other = server key other := by
  simp [AssetServer.store, different]

theorem no_piece {i j : Nat} (all : bytes.length ≤ j * kDataChunkSize) :
    ¬ (j ≤ i ∧ i * kDataChunkSize < bytes.length) := by
  rintro ⟨later, more⟩
  have := Nat.mul_le_mul_right kDataChunkSize later
  omega

/-- What an upload that returns a key has left on the server: all pieces of the file, and what
    was there before under the other numbers. -/
theorem sendTurns_stores {key r : UInt64} {answers : Nat → Bool} (small : bytes.length < 2 ^ 64)
    {fuel j : Nat} {server after : AssetServer}
    (enough : bytes.length - j * kDataChunkSize ≤ fuel)
    (returned : sendTurns XXH64 key answers fuel (Sending.upTo XXH64 bytes j) server = (r, after))
    (nonzero : r ≠ 0) :
    r = key ∧ ∀ i < 2 ^ 64, after key (UInt64.ofNat i) =
      if j ≤ i ∧ i * kDataChunkSize < bytes.length then some (piece XXH64 bytes i)
      else server key (UInt64.ofNat i) := by
  have unit : 0 < kDataChunkSize := by decide
  induction fuel generalizing j server with
  | zero =>
    have all : bytes.length ≤ j * kDataChunkSize := by omega
    rw [sendTurns] at returned
    cases returned
    exact ⟨result_key nonzero, fun i _ => (if_neg (no_piece all)).symm⟩
  | succ fuel ih =>
    by_cases more : j * kDataChunkSize < bytes.length
    · rw [sendTurns, turn_piece more] at returned
      simp only at returned
      split at returned
      · obtain ⟨same, stored⟩ := ih (by rw [Nat.succ_mul]; omega) returned
        refine ⟨same, ?_⟩
        intro i bound
        rw [stored i bound]
        change (if j + 1 ≤ i ∧ i * kDataChunkSize < bytes.length then _ else
          server.store key (UInt64.ofNat j) (piece XXH64 bytes j) key (UInt64.ofNat i)) = _
        have number : j < 2 ^ 64 :=
          (Nat.le_mul_of_pos_right j unit).trans_lt (more.trans small)
        by_cases here : i = j
        · subst here
          rw [if_neg (by omega), if_pos ⟨le_rfl, more⟩, store_same]
        · have different : UInt64.ofNat i ≠ UInt64.ofNat j :=
            fun same => here (number_inj bound number same)
          rw [store_other _ _ _ different]
          exact if_congr ⟨fun within => ⟨by omega, within.2⟩, fun within => ⟨by omega, within.2⟩⟩
            rfl rfl
      · cases returned
        exact absurd rfl nonzero
    · have all : bytes.length ≤ j * kDataChunkSize := not_lt.mp more
      rw [sendTurns, turn_ends all] at returned
      cases returned
      exact ⟨result_key nonzero, fun i _ => (if_neg (no_piece all)).symm⟩

theorem receive_piece (j : Nat) :
    (Download.upTo XXH64 bytes j).receive XXH64 (some (piece XXH64 bytes j)) =
      Download.upTo XXH64 bytes (j + 1) := by
  have grown := take_piece XXH64 bytes j
  have size : (bytes.take (j * kDataChunkSize)).length + (piece XXH64 bytes j).data.length =
      (bytes.take ((j + 1) * kDataChunkSize)).length := by
    rw [← grown, List.length_append]
  simp only [Download.receive, Download.upTo, grown, size, digestOf, Nat.succ_ne_zero, if_false]
  exact if_neg (not_not.mpr rfl)

theorem downloadTurns_pieces {get : UInt64 → Option FlatAssetData} {n : Nat} (left : Nat) {i : Nat}
    (pieces : ∀ j < n, get (UInt64.ofNat j) = some (piece XXH64 bytes j)) (within : i + left ≤ n)
    (counts : i < 2 ^ 31) :
    downloadTurns XXH64 get left i (Download.upTo XXH64 bytes i) =
      if i + left < 2 ^ 31 then some (Download.upTo XXH64 bytes (i + left)) else none := by
  induction left generalizing i with
  | zero =>
    rw [Nat.add_zero, if_pos counts]
    rfl
  | succ left ih =>
    rw [downloadTurns, pieces i (by omega), receive_piece]
    have ok : (Download.upTo XXH64 bytes (i + 1)).ok = true := rfl
    simp only [ok, if_true]
    by_cases more : i + 1 < 2 ^ 31
    · rw [if_pos more, ih (by omega) more, Nat.add_right_comm]
      rfl
    · rw [if_neg more, if_neg (by omega)]

end Pieces
section Transfer
variable {XXH64 : List Byte → UInt64} {file : File} {recordOk : Bool} {answers : Nat → Bool}
  {server after : AssetServer} {key : UInt64}

theorem posted (returned : postFileAsset XXH64 file recordOk answers server = (key, after))
    (nonzero : key ≠ 0) :
    file.bytes ≠ [] ∧ key = XXH64 file.bytes ∧ ∀ i < 2 ^ 64, after key (UInt64.ofNat i) =
      if i * kDataChunkSize < file.bytes.length then some (piece XXH64 file.bytes i)
      else server key (UInt64.ofNat i) := by
  by_cases empty : file.bytes = []
  · simp only [postFileAsset, hashFile, empty, List.length_nil, if_true] at returned
    exact absurd (Prod.mk.inj returned).1.symm nonzero
  · simp only [postFileAsset, hashFile_whole file empty] at returned
    split at returned
    · have start : Sending.start file.bytes.length file.bytes =
          Sending.upTo XXH64 file.bytes 0 := by
        simp [Sending.start, Sending.upTo, IfStream.open, digestOf]
      rw [start] at returned
      obtain ⟨same, stored⟩ := sendTurns_stores file.small (by omega) returned nonzero
      rw [← same] at stored
      refine ⟨empty, same, ?_⟩
      intro i bound
      rw [stored i bound]
      simp
    · exact absurd (Prod.mk.inj returned).1.symm nonzero

theorem upTo_whole {j : Nat} (all : file.bytes.length ≤ j * kDataChunkSize) (some_piece : j ≠ 0) :
    (Download.upTo XXH64 file.bytes j).digest = XXH64 file.bytes ∧
      (Download.upTo XXH64 file.bytes j).downloadedSize = file.bytes.length ∧
      (Download.upTo XXH64 file.bytes j).outFile = file.bytes := by
  have whole : file.bytes.take (j * kDataChunkSize) = file.bytes := List.take_of_length_le all
  simp [Download.upTo, digestOf, some_piece, whole]

theorem receive_last {n : Nat} {record : Option FlatAssetData} (some_piece : n ≠ 0)
    (all : file.bytes.length ≤ n * kDataChunkSize) :
    (∃ d, (Download.upTo XXH64 file.bytes n).receive XXH64 record = d ∧ d.ok ∧
      XXH64 file.bytes = d.digest ∧ file.bytes.length = d.downloadedSize ∧
        d.outFile = file.bytes) ↔ record = some ⟨[], XXH64 file.bytes⟩ := by
  have whole := @upTo_whole XXH64 file n all some_piece
  obtain ⟨digest, size, out⟩ := whole
  have hashed : (Download.upTo XXH64 file.bytes n).hashed = file.bytes := out
  cases record with
  | none => simp [Download.receive]
  | some record =>
    obtain ⟨data, hash⟩ := record
    simp only [Download.receive, hashed]
    constructor
    · rintro ⟨d, rfl, ok, same, long, -⟩
      split at ok
      · cases ok
      · rename_i valid
        rw [if_neg valid] at same long
        change file.bytes.length = _ + data.length at long
        rw [size] at long
        have none : data = [] := List.eq_nil_of_length_eq_zero (by omega)
        subst none
        rw [List.append_nil] at valid
        rw [not_not.mp valid]
    · intro last
      cases last
      rw [List.append_nil, if_neg (not_not.mpr rfl)]
      refine ⟨_, rfl, rfl, rfl, ?_, ?_⟩
      · exact size.symm
      · exact (List.append_nil _).trans out

theorem download_whole {get : UInt64 → Option FlatAssetData} {n : Nat} (some_piece : n ≠ 0)
    (all : file.bytes.length ≤ n * kDataChunkSize)
    (pieces : ∀ j < n, get (UInt64.ofNat j) = some (piece XXH64 file.bytes j)) :
    (∃ d, downloadTurns XXH64 get n 0 (Download.upTo XXH64 file.bytes 0) = some d ∧ d.ok ∧
      XXH64 file.bytes = d.digest ∧ file.bytes.length = d.downloadedSize ∧
        d.outFile = file.bytes) ↔ n < 2 ^ 31 := by
  have turns := downloadTurns_pieces n pieces (Nat.zero_add n).le (by norm_num)
  rw [Nat.zero_add] at turns
  rw [turns]
  have whole := @upTo_whole XXH64 file n all some_piece
  constructor
  · rintro ⟨d, ends, -⟩
    by_contra overflows
    rw [if_neg overflows] at ends
    cases ends
  · intro counts
    refine ⟨_, if_pos counts, rfl, ?_, ?_, ?_⟩
    · exact whole.1.symm
    · exact whole.2.1.symm
    · exact whole.2.2

theorem download_beyond {get : UInt64 → Option FlatAssetData} {n : Nat} (some_piece : n ≠ 0)
    (all : file.bytes.length ≤ n * kDataChunkSize)
    (pieces : ∀ j < n, get (UInt64.ofNat j) = some (piece XXH64 file.bytes j)) :
    (∃ d, downloadTurns XXH64 get (n + 1) 0 (Download.upTo XXH64 file.bytes 0) = some d ∧ d.ok ∧
      XXH64 file.bytes = d.digest ∧ file.bytes.length = d.downloadedSize ∧
        d.outFile = file.bytes) ↔
      n + 1 < 2 ^ 31 ∧ get (UInt64.ofNat n) = some ⟨[], XXH64 file.bytes⟩ := by
  have turns := downloadTurns_pieces n pieces (Nat.zero_add n).le (by norm_num)
  have ok (i : Nat) : (Download.upTo XXH64 file.bytes i).ok := rfl
  have last := @receive_last XXH64 file n (get (UInt64.ofNat n)) some_piece all
  rw [Nat.zero_add] at turns
  rw [downloadTurns_add n 1 0 (ok 0), turns, Nat.zero_add]
  by_cases counts : n < 2 ^ 31
  · rw [if_pos counts, Option.bind_some, if_pos (ok n)]
    simp only [downloadTurns]
    generalize (Download.upTo XXH64 file.bytes n).receive XXH64 (get (UInt64.ofNat n)) = e at last
    rw [← last]
    constructor
    · rintro ⟨d, ends, good⟩
      split at ends
      · split at ends
        · rename_i counts
          cases ends
          exact ⟨counts, e, rfl, good⟩
        · cases ends
      · rename_i failed
        cases ends
        exact absurd good.1 failed
    · rintro ⟨counts, d, rfl, good⟩
      refine ⟨e, ?_, good⟩
      rw [if_pos good.1, if_pos counts]
  · rw [if_neg counts]
    constructor
    · rintro ⟨d, ends, -⟩
      cases ends
    · rintro ⟨less, -⟩
      omega

theorem round_trip {args : FileArgs} {m : CacheManager} {writeTime : Int}
    (returned : postFileAsset XXH64 file recordOk answers server = (key, after))
    (nonzero : key ≠ 0) :
    (∃ path later, m.download XXH64 after key (args.asset key file.bytes.length).size.toNat
        (args.asset key file.bytes.length).chunks args.extension writeTime =
          some (some path, later) ∧ later.files path = some (file.bytes, writeTime)) ↔
      file.bytes.length / kDataChunkSize + 1 < 2 ^ 31 ∧
        (file.bytes.length % kDataChunkSize ≠ 0 ∨
          server key (UInt64.ofNat (file.bytes.length / kDataChunkSize)) = some ⟨[], key⟩) := by
  obtain ⟨nonempty, rfl, stored⟩ := posted returned nonzero
  have unit : kDataChunkSize = 2877 := by decide
  have long : 0 < file.bytes.length := List.length_pos_iff.mpr nonempty
  have small := file.small
  have size : (args.asset (XXH64 file.bytes) file.bytes.length).size.toNat = file.bytes.length :=
    UInt64.toNat_ofNat_of_lt' file.small
  have counted := Nat.div_add_mod file.bytes.length kDataChunkSize
  have part := Nat.mod_lt file.bytes.length (show 0 < kDataChunkSize by decide)
  rw [download_succeeds, size]
  generalize pieces : file.bytes.length / kDataChunkSize = n at counted
  rw [Nat.mul_comm] at counted
  have few : n + 1 < 2 ^ 64 := by
    rw [unit] at counted
    omega
  have chunks : (args.asset (XXH64 file.bytes) file.bytes.length).chunks.toNat = n + 1 := by
    change (UInt64.ofNat (file.bytes.length / kDataChunkSize + 1)).toNat = n + 1
    rw [pieces, UInt64.toNat_ofNat_of_lt' few]
  have start : Download.mk [] 0 0 [] true = Download.upTo XXH64 file.bytes 0 := by
    simp [Download.upTo, digestOf]
  rw [chunks, start]
  have get_piece (i : Nat) (inside : i * kDataChunkSize < file.bytes.length) :
      after (XXH64 file.bytes) (UInt64.ofNat i) = some (piece XXH64 file.bytes i) := by
    have bound : i < 2 ^ 64 := by
      rw [unit] at inside
      omega
    rw [stored i bound, if_pos inside]
  by_cases whole : file.bytes.length % kDataChunkSize = 0
  · have some_piece : n ≠ 0 := by
      rintro rfl
      omega
    have all : file.bytes.length ≤ n * kDataChunkSize := by omega
    have before (j : Nat) (earlier : j < n) : j * kDataChunkSize < file.bytes.length := by
      have := Nat.mul_lt_mul_of_pos_right earlier (show 0 < kDataChunkSize by decide)
      omega
    rw [download_beyond some_piece all fun j earlier => get_piece j (before j earlier),
      stored n (by omega), if_neg (by omega)]
    constructor
    · rintro ⟨counts, last⟩
      exact ⟨counts, .inr last⟩
    · rintro ⟨counts, rest | last⟩
      · exact absurd whole rest
      · exact ⟨counts, last⟩
  · have all : file.bytes.length ≤ (n + 1) * kDataChunkSize := by
      rw [Nat.succ_mul]
      omega
    have before (j : Nat) (earlier : j < n + 1) : j * kDataChunkSize < file.bytes.length := by
      have := Nat.mul_le_mul_right kDataChunkSize (Nat.le_of_lt_succ earlier)
      omega
    rw [download_whole n.succ_ne_zero all fun j earlier => get_piece j (before j earlier)]
    constructor
    · intro counts
      exact ⟨counts, .inl whole⟩
    · rintro ⟨counts, -⟩
      exact counts

end Transfer

def letter : File := ⟨[97], by decide⟩

def hashOf (file : File) (hash : UInt64) (content : List Byte) : UInt64 :=
  if content = file.bytes then hash else 0

def noChunks : AssetServer := fun _ _ => none

def emptyCache : CacheManager := ⟨[46], 1000000, 0, [], [], fun _ => none⟩

def image : FileArgs := ⟨.kImage, [], 0, 0, [7], [46, 112]⟩

theorem round_trip_one_byte :
    let hash := hashOf letter 0xd24ec4f1a98c6e5b
    let posted := postFileAsset hash letter true (fun _ => true) noChunks
    posted.1 = 0xd24ec4f1a98c6e5b ∧
      ∃ path later, emptyCache.download hash posted.2 posted.1
        (image.asset posted.1 1).size.toNat (image.asset posted.1 1).chunks image.extension 5 =
          some (some path, later) ∧ later.files path = some ([97], 5) := by
  intro hash posted
  have key : posted.1 = 0xd24ec4f1a98c6e5b := by decide +kernel
  have returned : postFileAsset hash letter true (fun _ => true) noChunks =
    (posted.1, posted.2) := rfl
  have nonzero : posted.1 ≠ 0 := by
    rw [key]
    decide
  refine ⟨key, (round_trip returned nonzero).mpr ⟨?_, .inl ?_⟩⟩
  · decide
  · decide

def zeros : File where
  bytes := List.replicate kDataChunkSize 0
  small := by
    rw [List.length_replicate]
    decide

/-- The chunk is posted, and the download asks for a second one. -/
theorem exact_multiple_fails :
    let hash := hashOf zeros 0x7d52e144436783c6
    let posted := postFileAsset hash zeros true (fun _ => true) noChunks
    let asset := image.asset posted.1 zeros.bytes.length
    posted.1 = 0x7d52e144436783c6 ∧ asset.chunks = 2 ∧
      (emptyCache.download hash posted.2 posted.1 asset.size.toNat asset.chunks image.extension
        5).map Prod.fst = some none := by
  decide +kernel

end Confab
