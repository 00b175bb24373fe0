import Mathlib.Logic.Function.Basic
import SCLOrkTools.Confab.HttpClient
import SCLOrkTools.Confab.Keys

/- The file cache of a client. Opening, reading, writing and removing a file succeed. -/
namespace Confab
open ByteStrings

/-- `files` are the regular files there are, with the times they were last written. The order in
    timeQueue is not that in which it is popped. -/
structure CacheManager where
  cachePath : Path
  maxSize : Nat
  currentSize : Nat
  timeQueue : List (Int × Path)
  extensionMap : List (UInt64 × List Byte)
  files : Path → Option (List Byte × Int)

structure Download where
  outFile : List Byte
  downloadedSize : Nat
  digest : UInt64
  hashed : List Byte
  ok : Bool

def Download.receive (XXH64 : List Byte → UInt64) (d : Download) :
    Option FlatAssetData → Download
  | none => { d with ok := false }
  | some record =>
    let hashed := d.hashed ++ record.data
    let digest := XXH64 hashed
    if digest ≠ record.hash then { d with hashed := hashed, digest := digest, ok := false }
    else
      { outFile := d.outFile ++ record.data
        downloadedSize := d.downloadedSize + record.data.length
        digest := digest
        hashed := hashed
        ok := d.ok }

/-- The loop over the chunks, `left` of which are left from `i` on. The counter is an int: none
    where it overflows. -/
def downloadTurns (XXH64 : List Byte → UInt64) (get : UInt64 → Option FlatAssetData) :
    Nat → Nat → Download → Option Download
  | 0, _, d => some d
  | left + 1, i, d =>
    let next := d.receive XXH64 (get (UInt64.ofNat i))
    if next.ok then
      if i + 1 < 2 ^ 31 then downloadTurns XXH64 get left (i + 1) next else none
    else some next

def collapse : Path → Path
  | [] => []
  | b :: rest => if b = 47 ∧ rest.head? = some 47 then collapse rest else b :: collapse rest

def CacheManager.filePath (m : CacheManager) (key : UInt64) (fileExtension : List Byte) : Path :=
  collapse (m.cachePath ++ (47 :: (keyToString key ++ fileExtension)))

def CacheManager.hitPath (m : CacheManager) (key : UInt64) (fileExtension : List Byte) : Path :=
  collapse (m.cachePath ++ (keyToString key ++ fileExtension))

def CacheManager.track (m : CacheManager) (key : UInt64) (fileSize : Nat)
    (fileExtension bytes : List Byte) (writeTime : Int) : CacheManager :=
  let path := m.filePath key fileExtension
  { m with
    currentSize := (m.currentSize + fileSize) % 2 ^ 64
    timeQueue := (writeTime, path) :: m.timeQueue
    extensionMap := if key ∈ m.extensionMap.map Prod.fst then m.extensionMap
      else (key, fileExtension) :: m.extensionMap
    files := Function.update m.files path (some (bytes, writeTime)) }

/-- `get` is what the server answers for a chunk of the asset, and `writeTime` the time the file
    is written. The path that is returned is none if the download has failed. -/
def CacheManager.download (XXH64 : List Byte → UInt64) (m : CacheManager)
    (get : UInt64 → UInt64 → Option FlatAssetData) (key : UInt64) (fileSize : Nat)
    (chunks : UInt64) (fileExtension : List Byte) (writeTime : Int) :
    Option (Option Path × CacheManager) :=
  let path := m.filePath key fileExtension
  (downloadTurns XXH64 (get key) chunks.toNat 0 ⟨[], 0, 0, [], true⟩).map fun d =>
    if d.ok ∧ ¬ (key ≠ d.digest ∨ fileSize ≠ d.downloadedSize) then
      (some path, m.track key fileSize fileExtension d.outFile writeTime)
    else (none, { m with files := Function.update m.files path none })

def CacheManager.new (cachePath : Path) (maxSize : Nat) (files : Path → Option (List Byte × Int)) :
    CacheManager where
  cachePath := cachePath
  maxSize := maxSize
  currentSize := 0
  timeQueue := []
  extensionMap := []
  files := files

/-- The path that is returned, empty on a miss. None if last_write_time throws, where there is no
    file. -/
def CacheManager.checkCache (m : CacheManager) (key : UInt64) (now : Int) :
    Option (Path × CacheManager) :=
  match m.extensionMap.lookup key with
  | none => some ([], m)
  | some fileExtension =>
    let cachePath := m.hitPath key fileExtension
    (m.files cachePath).map fun file =>
      (cachePath, { m with files := Function.update m.files cachePath (some (file.1, now)) })

def filename (path : Path) : List Byte := (path.reverse.takeWhile (·.val ≠ 47)).reverse

def stemExtension (path : Path) : List Byte × List Byte :=
  let name := filename path
  if name.map Fin.val = [46] ∨ name.map Fin.val = [46, 46] ∨ name.all (·.val ≠ 46) then (name, [])
  else
    let afterDot := (name.reverse.takeWhile (·.val ≠ 46)).length
    (name.take (name.length - (afterDot + 1)), name.drop (name.length - (afterDot + 1)))

structure Validating where
  hashed : List Byte
  bytesRemaining : Nat
  inFile : IfStream

/-- The loop, which takes at most one turn for each byte of the file and one more. -/
def validateTurns : Nat → Validating → Validating
  | 0, v => v
  | fuel + 1, v =>
    if v.inFile.good ∧ v.bytesRemaining > 0 then
      let (chunk, inFile) := v.inFile.read kDataChunkSize
      validateTurns fuel ⟨v.hashed ++ chunk, sizeSub v.bytesRemaining chunk.length, inFile⟩
    else v

def validFile (XXH64 : List Byte → UInt64) (key : UInt64) (content : List Byte) : Bool :=
  let v := validateTurns (content.length + 1) ⟨[], content.length, IfStream.open content⟩
  ¬ (XXH64 v.hashed ≠ key ∨ v.bytesRemaining > 0)

def CacheManager.checkEntry (XXH64 : List Byte → UInt64) (validate : Bool) (m : CacheManager)
    (path : Path) : CacheManager :=
  match m.files path with
  | none => m
  | some (content, writeTime) =>
    let key := stringToKey (stemExtension path).1
    if validate ∧ ¬ validFile XXH64 key content then
      { m with files := Function.update m.files path none }
    else
      { m with
        currentSize := (m.currentSize + content.length) % 2 ^ 64
        timeQueue := (writeTime, path) :: m.timeQueue
        extensionMap := if key ∈ m.extensionMap.map Prod.fst then m.extensionMap
          else (key, (stemExtension path).2) :: m.extensionMap }

def pathBefore : Path → Path → Bool
  | _, [] => false
  | [], _ :: _ => true
  | a :: as, b :: bs => a.val < b.val || (a.val = b.val && pathBefore as bs)

def timePathBefore (a b : Int × Path) : Bool :=
  a.1 < b.1 || (a.1 = b.1 && pathBefore a.2 b.2)

def timeQueueTop : List (Int × Path) → Option (Int × Path)
  | [] => none
  | e :: rest => some (rest.foldl (fun top f => if timePathBefore top f then f else top) e)

/-- The loop of makeRoomFor. None where it takes the top of an empty queue, where the file is
    gone that last_write_time is asked for, or where the fuel does not suffice. -/
def CacheManager.makeRoomTurns (addedBytes : Nat) : Nat → CacheManager → Option CacheManager
  | 0, _ => none
  | fuel + 1, m =>
    if (m.currentSize + addedBytes) % 2 ^ 64 > m.maxSize then
      match timeQueueTop m.timeQueue with
      | none => none
      | some oldest =>
        match m.files oldest.2 with
        | none => none
        | some (content, realWriteTime) =>
          let rest := m.timeQueue.erase oldest
          if realWriteTime = oldest.1 then
            makeRoomTurns addedBytes fuel { m with
              currentSize := sizeSub m.currentSize content.length
              timeQueue := rest
              extensionMap := m.extensionMap.filter
                (·.1 ≠ stringToKey (stemExtension oldest.2).1)
              files := Function.update m.files oldest.2 none }
          else makeRoomTurns addedBytes fuel
            { m with timeQueue := (realWriteTime, oldest.2) :: rest }
    else some m

/-- An entry is put back with its new time once at most, and then evicted. -/
def CacheManager.makeRoomFor (m : CacheManager) (addedBytes : Nat) : Option CacheManager :=
  m.makeRoomTurns addedBytes (2 * m.timeQueue.length + 1)

def CacheManager.checkExistingEntries (XXH64 : List Byte → UInt64) (m : CacheManager)
    (validate : Bool) (entries : List Path) : Option CacheManager :=
  (entries.foldl (CacheManager.checkEntry XXH64 validate)
    { m with currentSize := 0, timeQueue := [], extensionMap := [] }).makeRoomFor 0

theorem downloadTurns_add {XXH64 : List Byte → UInt64} {get : UInt64 → Option FlatAssetData}
    (a b i : Nat) {d : Download} (ok : d.ok) :
    downloadTurns XXH64 get (a + b) i d = (downloadTurns XXH64 get a i d).bind fun e =>
      if e.ok then downloadTurns XXH64 get b (i + a) e else some e := by
  induction a generalizing i d with
  | zero => simp [downloadTurns, ok]
  | succ a ih =>
    rw [Nat.succ_add, downloadTurns, downloadTurns]
    by_cases received : (d.receive XXH64 (get (UInt64.ofNat i))).ok
    · simp only [received, if_true]
      by_cases counts : i + 1 < 2 ^ 31
      · rw [if_pos counts, if_pos counts, ih (i + 1) received, Nat.add_right_comm]
        rfl
      · rw [if_neg counts, if_neg counts]
        rfl
    · simp [received]

/-- A download succeeds with a file exactly if the loop ends well, with the key for the digest of
    what it has taken in and the size that was asked for. -/
theorem download_succeeds {XXH64 : List Byte → UInt64} {m : CacheManager}
    {get : UInt64 → UInt64 → Option FlatAssetData} {key chunks : UInt64} {fileSize : Nat}
    {fileExtension bytes : List Byte} {writeTime : Int} :
    (∃ path after, m.download XXH64 get key fileSize chunks fileExtension writeTime =
        some (some path, after) ∧ after.files path = some (bytes, writeTime)) ↔
      ∃ d, downloadTurns XXH64 (get key) chunks.toNat 0 ⟨[], 0, 0, [], true⟩ = some d ∧ d.ok ∧
        key = d.digest ∧ fileSize = d.downloadedSize ∧ d.outFile = bytes := by
  constructor
  · rintro ⟨path, after, downloaded, written⟩
    obtain ⟨d, turns, ends⟩ := Option.map_eq_some_iff.mp downloaded
    refine ⟨d, turns, ?_⟩
    split at ends
    · rename_i good
      cases ends
      simp only [CacheManager.track, Function.update_self, Option.some.injEq, Prod.mk.injEq,
        and_true] at written
      have matching := not_or.mp good.2
      exact ⟨good.1, not_not.mp matching.1, not_not.mp matching.2, written⟩
    · cases ends
  · rintro ⟨d, turns, ok, digest, size, written⟩
    refine ⟨m.filePath key fileExtension,
      m.track key fileSize fileExtension d.outFile writeTime, ?_, ?_⟩
    · exact Option.map_eq_some_iff.mpr ⟨d, turns,
        if_pos ⟨ok, not_or.mpr ⟨not_not.mpr digest, not_not.mpr size⟩⟩⟩
    · simp [CacheManager.track, written]

/-- XXH64 of some short contents, and 0 for all others. -/
def shortHash (bytes : List Byte) : UInt64 :=
  ([([1], 0x8a4127811b21e730), ([2], 0x4b79b8c95732b0e7), ([1, 2], 0x7a813dfd3986be46),
    ([1, 2, 3], 0x743e13ee0c4ee5a5)].lookup bytes).getD 0

end Confab
