import SCLOrkTools.Confab.AssetDatabase

/- HttpClient::postFileAsset. The file is read twice: once to hash it, and once more to post it
   chunk by chunk after the record that describes it. A hash state is the bytes it was updated
   with, and `XXH64` is the digest of a state. -/
namespace Confab
open ByteStrings

def kPageSize : Nat := 4096
def kDataChunkSize : Nat := 3 * (((kPageSize - 256) / 4) - 1)

def sizeSub (a b : Nat) : Nat := (a + 2 ^ 64 - b) % 2 ^ 64

theorem sizeSub_of_le {a b : Nat} (below : b ≤ a) (small : a < 2 ^ 64) : sizeSub a b = a - b := by
  unfold sizeSub
  omega

/-- What an ifstream has yet to deliver, and whether it is good. -/
structure IfStream where
  rest : List Byte
  good : Bool

def IfStream.open (content : List Byte) : IfStream := ⟨content, true⟩

/-- What read puts into the buffer. A stream that ends before the buffer is full fails. -/
def IfStream.read (f : IfStream) (n : Nat) : List Byte × IfStream :=
  if f.good then (f.rest.take n, ⟨f.rest.drop n, decide (n ≤ f.rest.length)⟩) else ([], f)

structure Hashing where
  hashed : List Byte
  buffer : List Byte
  bytesRemaining : Nat
  inFile : IfStream

/-- The loop, which takes at most one turn for each byte of the file and one more. -/
def hashTurns : Nat → Hashing → Hashing
  | 0, h => h
  | fuel + 1, h =>
    if h.inFile.good ∧ h.bytesRemaining > 0 then
      let (buffer, inFile) := h.inFile.read kDataChunkSize
      hashTurns fuel
        { hashed := h.hashed ++ h.buffer
          buffer := buffer
          bytesRemaining := sizeSub h.bytesRemaining buffer.length
          inFile := inFile }
    else h

/-- The first pass over a file of the given size. None where postFileAsset returns 0 before it
    has posted anything: the file is empty, does not open or cannot be read to its end. -/
def hashFile (XXH64 : List Byte → UInt64) (fileSize : Nat) (content : Option (List Byte)) :
    Option UInt64 :=
  if fileSize = 0 then none
  else
    match content with
    | none => none
    | some content =>
      let (buffer, inFile) := (IfStream.open content).read kDataChunkSize
      let h := hashTurns (content.length + 1)
        { hashed := []
          buffer := buffer
          bytesRemaining := sizeSub fileSize buffer.length
          inFile := inFile }
      if h.bytesRemaining > 0 then none else some (XXH64 (h.hashed ++ h.buffer))

structure FileArgs where
  type : AssetType
  name : List Byte
  author : UInt64
  deprecates : UInt64
  listIds : List UInt64
  extension : List Byte

def field {α : Type} (l : List α) : Option (List α) := if l = [] then none else some l

def FileArgs.asset (args : FileArgs) (key : UInt64) (fileSize : Nat) : FlatAsset where
  type := args.type
  key := key
  name := field args.name
  fileExtension := field args.extension
  author := args.author
  deprecatedBy := 0
  deprecates := args.deprecates
  size := UInt64.ofNat fileSize
  chunks := UInt64.ofNat (fileSize / kDataChunkSize + 1)
  lists := field args.listIds
  salt := 0
  inlineData := none

structure FlatAssetData where
  data : List Byte
  hash : UInt64
  deriving DecidableEq

structure Sending where
  inFile : IfStream
  bytesRemaining : Nat
  chunk : Nat
  hashed : List Byte
  chunkHash : UInt64

def Sending.start (fileSize : Nat) (content : List Byte) : Sending where
  inFile := IfStream.open content
  bytesRemaining := fileSize
  chunk := 0
  hashed := []
  chunkHash := 0

/-- A turn of the loop up to its POST: the loop ends, or the chunk cannot be read again, or the
    chunk is posted, and goes on if the answer is Ok. -/
inductive Turn where
  | ends
  | short
  | posts (record : FlatAssetData) (next : Sending)

def Sending.turn (XXH64 : List Byte → UInt64) (s : Sending) : Turn :=
  if s.inFile.good ∧ s.bytesRemaining > 0 then
    let flatDataSize := min kDataChunkSize s.bytesRemaining
    let (flatData, inFile) := s.inFile.read flatDataSize
    if flatData.length ≠ flatDataSize then .short
    else
      let hashed := s.hashed ++ flatData
      .posts ⟨flatData, XXH64 hashed⟩
        { inFile := inFile
          bytesRemaining := s.bytesRemaining - flatData.length
          chunk := s.chunk + 1
          hashed := hashed
          chunkHash := XXH64 hashed }
  else .ends

def Sending.result (s : Sending) (key : UInt64) : UInt64 :=
  if s.bytesRemaining > 0 ∨ s.chunkHash ≠ key then 0 else key

theorem read_open {content : List Byte} {n : Nat} (enough : n ≤ content.length) :
    (IfStream.mk content true).read n = (content.take n, ⟨content.drop n, true⟩) := by
  simp [IfStream.read, enough]

theorem turn_posts {XXH64 : List Byte → UInt64} {s next : Sending} {record : FlatAssetData}
    (turn : s.turn XXH64 = .posts record next) :
    0 < s.bytesRemaining ∧ record.data.length = min kDataChunkSize s.bytesRemaining ∧
      record.hash = XXH64 (s.hashed ++ record.data) ∧ next.hashed = s.hashed ++ record.data ∧
      next.bytesRemaining = s.bytesRemaining - record.data.length ∧ next.chunk = s.chunk + 1 ∧
      next.chunkHash = record.hash := by
  unfold Sending.turn at turn
  split at turn
  · rename_i running
    simp only at turn
    split at turn
    · cases turn
    · rename_i whole
      cases turn
      exact ⟨running.2, not_not.mp whole, rfl, rfl, rfl, rfl, rfl⟩
  · cases turn

theorem turn_reads {XXH64 : List Byte → UInt64} {s : Sending} (good : s.inFile.good)
    (exact_rest : s.inFile.rest.length = s.bytesRemaining) (more : 0 < s.bytesRemaining) :
    s.turn XXH64 = .posts
      ⟨s.inFile.rest.take kDataChunkSize, XXH64 (s.hashed ++ s.inFile.rest.take kDataChunkSize)⟩
      { inFile := ⟨s.inFile.rest.drop kDataChunkSize, true⟩
        bytesRemaining := s.bytesRemaining - (s.inFile.rest.take kDataChunkSize).length
        chunk := s.chunk + 1
        hashed := s.hashed ++ s.inFile.rest.take kDataChunkSize
        chunkHash := XXH64 (s.hashed ++ s.inFile.rest.take kDataChunkSize) } := by
  obtain ⟨⟨rest, ready⟩, remaining, chunk, hashed, hash⟩ := s
  change rest.length = remaining at exact_rest
  change ready = true at good
  subst good exact_rest
  have taken : rest.take (min kDataChunkSize rest.length) = rest.take kDataChunkSize := by
    rw [List.take_eq_take_iff]
    omega
  have dropped : rest.drop (min kDataChunkSize rest.length) = rest.drop kDataChunkSize := by
    rcases le_total kDataChunkSize rest.length with short | long
    · rw [min_eq_left short]
    · rw [min_eq_right long, List.drop_length, List.drop_eq_nil_of_le long]
  have whole : (rest.take kDataChunkSize).length = min kDataChunkSize rest.length :=
    List.length_take
  unfold Sending.turn
  rw [if_pos ⟨rfl, more⟩]
  simp only [read_open (min_le_right _ _), taken, dropped, whole, ne_eq, not_true_eq_false,
    if_false]

end Confab
