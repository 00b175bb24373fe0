import SCLOrkTools.Confab.CacheManager

/- What a download that succeeds has written, and what one that fails leaves. The server may
   answer each request with any record. -/
namespace Confab
open ByteStrings

def contents (records : List FlatAssetData) : List Byte := records.flatMap FlatAssetData.data

section Records
variable (XXH64 : List Byte → UInt64) (get : UInt64 → Option FlatAssetData)

structure Validated (records : List FlatAssetData) : Prop where
  answered : ∀ i record, records[i]? = some record → get (UInt64.ofNat i) = some record
  hashes : ∀ i record, records[i]? = some record →
    record.hash = XXH64 (contents (records.take (i + 1)))

def Download.having (records : List FlatAssetData) : Download where
  outFile := contents records
  downloadedSize := (contents records).length
  digest := if records = [] then 0 else XXH64 (contents records)
  hashed := contents records
  ok := true

variable {XXH64 get}

theorem contents_snoc (records : List FlatAssetData) (record : FlatAssetData) :
    contents (records ++ [record]) = contents records ++ record.data := by
  simp [contents]

theorem validated_nil : Validated XXH64 get [] := ⟨nofun, nofun⟩

theorem validated_snoc {records : List FlatAssetData} {record : FlatAssetData}
    (before : Validated XXH64 get records)
    (answer : get (UInt64.ofNat records.length) = some record)
    (hash : record.hash = XXH64 (contents records ++ record.data)) :
    Validated XXH64 get (records ++ [record]) := by
  constructor
  · intro i found given
    rw [List.getElem?_append] at given
    split at given
    · exact before.answered i found given
    · obtain ⟨last, rfl⟩ := List.getElem?_eq_some_iff.mp given
      have here : i = records.length := by
        rw [List.length_singleton] at last
        omega
      simpa [here] using answer
  · intro i found given
    rw [List.getElem?_append] at given
    split at given
    · rename_i inside
      rw [List.take_append_of_le_length inside]
      exact before.hashes i found given
    · obtain ⟨last, rfl⟩ := List.getElem?_eq_some_iff.mp given
      have here : i = records.length := by
        rw [List.length_singleton] at last
        omega
      have whole : (records ++ [record]).take (i + 1) = records ++ [record] := by
        rw [here]
        exact List.take_of_length_le (by simp)
      rw [whole, contents_snoc]
      simpa [here] using hash

theorem receive_having (records : List FlatAssetData) (answer : Option FlatAssetData) :
    (((Download.having XXH64 records).receive XXH64 answer).ok = false) ∨
      ∃ record, answer = some record ∧ record.hash = XXH64 (contents records ++ record.data) ∧
        (Download.having XXH64 records).receive XXH64 answer =
          Download.having XXH64 (records ++ [record]) := by
  cases answer with
  | none => exact .inl rfl
  | some record =>
    by_cases valid : XXH64 (contents records ++ record.data) = record.hash
    · refine .inr ⟨record, rfl, valid.symm, ?_⟩
      simp [Download.receive, Download.having, contents_snoc, valid]
    · refine .inl ?_
      simp [Download.receive, Download.having, valid]

/-- The loop ends, with ok only if it has received a valid record for each chunk. -/
theorem downloadTurns_validated (left : Nat) {records : List FlatAssetData}
    (valid : Validated XXH64 get records) (few : records.length + left < 2 ^ 31) :
    ∃ d, downloadTurns XXH64 get left records.length (Download.having XXH64 records) = some d ∧
      (d.ok = true → ∃ all, Validated XXH64 get all ∧ all.length = records.length + left ∧
        d = Download.having XXH64 all) := by
  induction left generalizing records with
  | zero => exact ⟨_, rfl, fun _ => ⟨records, valid, rfl, rfl⟩⟩
  | succ left ih =>
    rw [downloadTurns]
    rcases @receive_having XXH64 records (get (UInt64.ofNat records.length)) with
      failed | ⟨record, answer, hash, next⟩
    · refine ⟨_, if_neg (by simp [failed]), fun ok => ?_⟩
      rw [failed] at ok
      cases ok
    · have ok : (Download.having XXH64 (records ++ [record])).ok = true := rfl
      have length : (records ++ [record]).length = records.length + 1 := by simp
      obtain ⟨d, ends, validates⟩ := ih (validated_snoc valid answer hash) (by omega)
      refine ⟨d, ?_, ?_⟩
      · simp only [next, ok, if_true]
        rw [if_pos (by omega), ← length, ends]
      · intro good
        obtain ⟨all, these, number, same⟩ := validates good
        exact ⟨all, these, by omega, same⟩

theorem downloadTurns_having {left i : Nat} {records : List FlatAssetData} {d : Download}
    (ends : downloadTurns XXH64 get left i (Download.having XXH64 records) = some d)
    (ok : d.ok = true) : ∃ all, d = Download.having XXH64 all := by
  induction left generalizing i records with
  | zero =>
    cases ends
    exact ⟨records, rfl⟩
  | succ left ih =>
    rw [downloadTurns] at ends
    rcases @receive_having XXH64 records (get (UInt64.ofNat i)) with failed | ⟨record, -, -, next⟩
    · simp only [failed, Bool.false_eq_true, if_false, Option.some.injEq] at ends
      rw [← ends, failed] at ok
      cases ok
    · have good : (Download.having XXH64 (records ++ [record])).ok = true := rfl
      simp only [next, good, if_true] at ends
      split at ends
      · exact ih ends
      · cases ends

end Records

section Outcomes
variable (XXH64 : List Byte → UInt64) (get : UInt64 → UInt64 → Option FlatAssetData)

/-- The file holds the data of all chunks in turn, which has the size and the hash that were
    asked for. -/
def Written (after : CacheManager) (path : Path) (key : UInt64) (fileSize : Nat)
    (chunks : UInt64) (writeTime : Int) : Prop :=
  ∃ records, Validated XXH64 (get key) records ∧ records.length = chunks.toNat ∧
    after.files path = some (contents records, writeTime) ∧
    (contents records).length = fileSize ∧ XXH64 (contents records) = key

structure Abandoned (m after : CacheManager) (path : Path) : Prop where
  file : after.files path = none
  currentSize : after.currentSize = m.currentSize
  timeQueue : after.timeQueue = m.timeQueue
  extensionMap : after.extensionMap = m.extensionMap

end Outcomes

/-- Whatever the server answers, a download that returns a path has written there what it was
    asked for, and one that returns none leaves nothing behind. -/
theorem download_integrity {XXH64 : List Byte → UInt64}
    {get : UInt64 → UInt64 → Option FlatAssetData} {key chunks : UInt64} {fileSize : Nat}
    (m : CacheManager) (fileExtension : List Byte) (writeTime : Int) (nonzero : key ≠ 0)
    (few : chunks.toNat < 2 ^ 31) :
    ∃ path after,
      m.download XXH64 get key fileSize chunks fileExtension writeTime = some (path, after) ∧
      (path = some (m.filePath key fileExtension) ∧
          Written XXH64 get after (m.filePath key fileExtension) key fileSize chunks writeTime ∨
        path = none ∧ Abandoned m after (m.filePath key fileExtension)) := by
  obtain ⟨d, ends, validates⟩ := downloadTurns_validated chunks.toNat
    (@validated_nil XXH64 (get key)) (by simpa using few)
  have start : Download.having XXH64 [] = ⟨[], 0, 0, [], true⟩ := rfl
  rw [start, List.length_nil] at ends
  simp only [CacheManager.download, ends, Option.map_some]
  by_cases good : d.ok ∧ ¬ (key ≠ d.digest ∨ fileSize ≠ d.downloadedSize)
  · rw [if_pos good]
    refine ⟨_, _, rfl, .inl ⟨rfl, ?_⟩⟩
    obtain ⟨records, valid, number, rfl⟩ := validates good.1
    have matching := not_or.mp good.2
    have digest := not_not.mp matching.1
    have size := not_not.mp matching.2
    have some_record : records ≠ [] := by
      rintro rfl
      exact nonzero digest
    rw [Download.having, if_neg some_record] at digest
    refine ⟨records, valid, by simpa using number, ?_, size.symm, digest.symm⟩
    exact Function.update_self _ _ _
  · rw [if_neg good]
    refine ⟨_, _, rfl, .inr ⟨rfl, ?_, rfl, rfl, rfl⟩⟩
    exact Function.update_self _ _ _

/-- A file of two chunks, downloaded into an empty cache. -/
theorem download_integrity_two_chunks :
    let get : UInt64 → UInt64 → Option FlatAssetData := fun _ i =>
      if i = 0 then some ⟨[1, 2], shortHash [1, 2]⟩ else some ⟨[3], shortHash [1, 2, 3]⟩
    let key := shortHash [1, 2, 3]
    let m := CacheManager.new [99] 10 fun _ => none
    ∃ path after, m.download shortHash get key 3 2 [46, 112] 5 = some (path, after) ∧
      (path = some (m.filePath key [46, 112]) ∧
          Written shortHash get after (m.filePath key [46, 112]) key 3 2 5 ∨
        path = none ∧ Abandoned m after (m.filePath key [46, 112])) :=
  download_integrity _ _ _ (by decide) (by decide)

end Confab
