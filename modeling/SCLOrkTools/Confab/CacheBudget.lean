import Mathlib.Algebra.Order.BigOperators.Group.Finset
import SCLOrkTools.Confab.MakeRoom
import SCLOrkTools.Library.GuardedRun

/- The budget of the file cache. Only checkExistingEntries evicts: a download adds its file
   whatever there is room for, and its budget is kept as long as everything fits anyway. -/
namespace Confab
open ByteStrings GuardedRun

namespace CacheManager

def tracked (m : CacheManager) : Finset Path := (m.timeQueue.map Prod.snd).toFinset

def WithinBudget (m : CacheManager) : Prop := m.tracked.sum m.sizeOf ≤ m.maxSize

/-- A directory_iterator yields an entry once, and a disk holds less than 2^64 bytes. -/
def Listing (m : CacheManager) (entries : List Path) : Prop :=
  entries.Nodup ∧ (entries.map m.sizeOf).sum < 2 ^ 64

instance (m : CacheManager) (entries : List Path) : Decidable (m.Listing entries) :=
  inferInstanceAs (Decidable (_ ∧ _))

def reset (m : CacheManager) : CacheManager :=
  { m with currentSize := 0, timeQueue := [], extensionMap := [] }

def enumerated (XXH64 : List Byte → UInt64) (m : CacheManager) (validate : Bool)
    (entries : List Path) : CacheManager :=
  entries.foldl (checkEntry XXH64 validate) m.reset

end CacheManager

inductive CacheCall where
  | checkExistingEntries (validate : Bool) (entries : List Path)
  | checkCache (key : UInt64) (now : Int)
  | download (get : UInt64 → UInt64 → Option FlatAssetData) (key : UInt64) (fileSize : Nat)
      (chunks : UInt64) (fileExtension : List Byte) (writeTime : Int)

section Calls
variable (XXH64 : List Byte → UInt64)

/-- A call and what it leaves. A checkCache that throws leaves everything as it was. -/
def CacheManager.step (m : CacheManager) : CacheCall → Option CacheManager
  | .checkExistingEntries validate entries =>
    if m.Listing entries then m.checkExistingEntries XXH64 validate entries else none
  | .checkCache key now =>
    match m.checkCache key now with
    | none => some m
    | some (_, next) => some next
  | .download get key fileSize chunks fileExtension writeTime =>
    (m.download XXH64 get key fileSize chunks fileExtension writeTime).map Prod.snd

/-- The server answers with all chunks of a file that has the key for its hash and that size. -/
def Delivers (get : UInt64 → UInt64 → Option FlatAssetData) (key : UInt64) (fileSize : Nat)
    (chunks : UInt64) : Prop :=
  ∃ d, downloadTurns XXH64 (get key) chunks.toNat 0 ⟨[], 0, 0, [], true⟩ = some d ∧ d.ok ∧
    key = d.digest ∧ fileSize = d.downloadedSize

def FindsRoom (m : CacheManager) : CacheCall → Prop
  | .download get key fileSize chunks fileExtension _ => Delivers XXH64 get key fileSize chunks →
    (m.tracked.erase (m.filePath key fileExtension)).sum m.sizeOf + fileSize ≤ m.maxSize
  | _ => True

/-- checkExistingEntries returns, and a call that returns leaves the cache within its budget. -/
def KeepsBudget (m : CacheManager) : CacheCall → Prop
  | .checkExistingEntries validate entries => m.Listing entries →
    ∃ next, m.checkExistingEntries XXH64 validate entries = some next ∧ next.WithinBudget
  | c => ∀ next, m.step XXH64 c = some next → next.WithinBudget

end Calls
section Eviction
variable {XXH64 : List Byte → UInt64}

/-- currentSize is the size of all files in the queue, each of which is there once, and with
    the time at which it was last written. -/
structure CacheManager.Accounts (m : CacheManager) : Prop where
  nodup : (m.timeQueue.map Prod.snd).Nodup
  present : ∀ e ∈ m.timeQueue, ∃ content, m.files e.2 = some (content, e.1)
  total : m.currentSize = (m.timeQueue.map fun e => m.sizeOf e.2).sum
  small : m.currentSize < 2 ^ 64

theorem tracked_size {m : CacheManager} (accounts : m.Accounts) :
    m.tracked.sum m.sizeOf = m.currentSize := by
  rw [accounts.total, CacheManager.tracked, List.sum_toFinset _ accounts.nodup, List.map_map]
  rfl

theorem tracks_of_accounts {m : CacheManager} (accounts : m.Accounts) : m.Tracks :=
  ⟨accounts.nodup, fun e mem => (accounts.present e mem).imp fun _ found => ⟨e.1, found⟩,
    accounts.total, accounts.small⟩

theorem accounts_of_tracks {m : CacheManager} (tracks : m.Tracks)
    (present : ∀ e ∈ m.timeQueue, ∃ content, m.files e.2 = some (content, e.1)) : m.Accounts :=
  ⟨tracks.nodup, present, tracks.total, tracks.small⟩

theorem accounts_files {m : CacheManager} {path : Path} (accounts : m.Accounts)
    (untracked : path ∉ m.timeQueue.map Prod.snd) (file : Option (List Byte × Int)) :
    (m.withFile path file).Accounts := by
  apply accounts_of_tracks (tracks_withFile (tracks_of_accounts accounts) untracked)
  intro e mem
  have other : e.2 ≠ path := fun same => untracked (same ▸ List.mem_map_of_mem mem)
  obtain ⟨content, found⟩ := accounts.present e mem
  exact ⟨content, (Function.update_of_ne other _ _).trans found⟩

variable (XXH64) in
theorem checkEntry_accounts {m : CacheManager} (validate : Bool) {path : Path}
    (accounts : m.Accounts) (untracked : path ∉ m.timeQueue.map Prod.snd)
    (small : m.currentSize + m.sizeOf path < 2 ^ 64) :
    (m.checkEntry XXH64 validate path).Accounts := by
  unfold CacheManager.checkEntry
  cases found : m.files path with
  | none => exact accounts
  | some file =>
    obtain ⟨content, writeTime⟩ := file
    have size : m.sizeOf path = content.length := by simp [CacheManager.sizeOf, found]
    rw [size] at small
    dsimp only
    split
    · exact accounts_files accounts untracked none
    · refine ⟨List.nodup_cons.mpr ⟨untracked, accounts.nodup⟩, ?_, ?_, Nat.mod_lt _ (by decide)⟩
      · intro e mem
        rcases List.mem_cons.mp mem with rfl | old
        · exact ⟨content, found⟩
        · exact accounts.present e old
      · change (m.currentSize + content.length) % 2 ^ 64 =
          m.sizeOf path + (m.timeQueue.map fun e => m.sizeOf e.2).sum
        rw [Nat.mod_eq_of_lt small, size, ← accounts.total, Nat.add_comm]

variable (XXH64) in
theorem checkEntry_frame (m : CacheManager) (validate : Bool) (path : Path) :
    (m.checkEntry XXH64 validate path).timeQueue.map Prod.snd ⊆
      path :: m.timeQueue.map Prod.snd ∧
    (m.checkEntry XXH64 validate path).currentSize ≤ m.currentSize + m.sizeOf path ∧
    ∀ p, p ≠ path → (m.checkEntry XXH64 validate path).sizeOf p = m.sizeOf p := by
  unfold CacheManager.checkEntry
  cases found : m.files path with
  | none => exact ⟨List.subset_cons_self _ _, Nat.le_add_right _ _, fun _ _ => rfl⟩
  | some file =>
    obtain ⟨content, writeTime⟩ := file
    dsimp only
    split
    · exact ⟨List.subset_cons_self _ _, Nat.le_add_right _ _, fun _ => sizeOf_update⟩
    · refine ⟨List.Subset.refl _, ?_, fun _ _ => rfl⟩
      simp only [CacheManager.sizeOf, found]
      exact Nat.mod_le _ _

variable (XXH64) in
theorem enumeration_accounts {entries : List Path} (validate : Bool) {m : CacheManager}
    (accounts : m.Accounts) (nodup : entries.Nodup)
    (untracked : ∀ p ∈ entries, p ∉ m.timeQueue.map Prod.snd)
    (small : m.currentSize + (entries.map m.sizeOf).sum < 2 ^ 64) :
    (entries.foldl (CacheManager.checkEntry XXH64 validate) m).Accounts := by
  induction entries generalizing m with
  | nil => exact accounts
  | cons path entries ih =>
    obtain ⟨paths, grown, sizes⟩ := checkEntry_frame XXH64 m validate path
    obtain ⟨fresh, distinct⟩ := List.nodup_cons.mp nodup
    rw [List.map_cons, List.sum_cons] at small
    have same : entries.map (m.checkEntry XXH64 validate path).sizeOf = entries.map m.sizeOf :=
      List.map_congr_left fun p mem => sizes p (fun eq => fresh (eq ▸ mem))
    have here := checkEntry_accounts XXH64 validate accounts
      (untracked path List.mem_cons_self) (by omega)
    refine ih here distinct (fun p mem inside => ?_) (by rw [same]; omega)
    rcases List.mem_cons.mp (paths inside) with rfl | old
    · exact fresh mem
    · exact untracked p (List.mem_cons_of_mem path mem) old

theorem accounts_evicted {m : CacheManager} {oldest : Int × Path} {content : List Byte}
    (accounts : m.Accounts) (mem : oldest ∈ m.timeQueue)
    (file : m.files oldest.2 = some (content, oldest.1)) :
    (m.evicted oldest content).Accounts := by
  have tracks := tracks_of_accounts accounts
  apply accounts_of_tracks (tracks_evicted tracks mem file)
  intro e inside
  have other := evicted_untracked tracks mem e inside
  obtain ⟨content, found⟩ := accounts.present e (List.mem_of_mem_erase inside)
  exact ⟨content, (Function.update_of_ne other _ _).trans found⟩

theorem makeRoomTurns_accounts (fuel : Nat) {m : CacheManager} (accounts : m.Accounts)
    (enough : m.timeQueue.length < fuel) :
    ∃ next, m.makeRoomTurns 0 fuel = some next ∧ next.Accounts ∧
      next.currentSize ≤ next.maxSize := by
  induction fuel generalizing m with
  | zero => omega
  | succ fuel ih =>
    by_cases exceeds : (m.currentSize + 0) % 2 ^ 64 > m.maxSize
    · obtain ⟨oldest, _, _, top, -⟩ :=
        top_of_exceeds (tracks_of_accounts accounts) (Nat.zero_le _) exceeds
      have mem := timeQueueTop_mem top
      obtain ⟨content, file⟩ := accounts.present oldest mem
      rw [makeRoomTurns_top exceeds top file, if_pos rfl]
      apply ih (accounts_evicted accounts mem file)
      have shorter := List.length_erase_of_mem mem
      have some_left := List.length_pos_of_mem mem
      change (m.timeQueue.erase oldest).length < fuel
      omega
    · refine ⟨m, makeRoomTurns_done exceeds, accounts, ?_⟩
      rw [Nat.add_zero, Nat.mod_eq_of_lt accounts.small] at exceeds
      exact Nat.le_of_not_lt exceeds

theorem checkExistingEntries_eq {m : CacheManager} (validate : Bool) (entries : List Path) :
    m.checkExistingEntries XXH64 validate entries =
      (m.enumerated XXH64 validate entries).makeRoomFor 0 := rfl

variable (XXH64) in
theorem enumerated_accounts {m : CacheManager} {entries : List Path} (listing : m.Listing entries)
    (validate : Bool) : (m.enumerated XXH64 validate entries).Accounts := by
  have reset : m.reset.Accounts :=
    ⟨List.nodup_nil, (fun e mem => by cases mem), rfl, Nat.two_pow_pos 64⟩
  have small : m.reset.currentSize + (entries.map m.reset.sizeOf).sum < 2 ^ 64 := by
    change 0 + (entries.map m.sizeOf).sum < 2 ^ 64
    rw [Nat.zero_add]
    exact listing.2
  exact enumeration_accounts XXH64 validate reset listing.1 (fun p _ mem => by cases mem) small

theorem check_within {m : CacheManager} {entries : List Path} (listing : m.Listing entries)
    (validate : Bool) :
    ∃ next, m.checkExistingEntries XXH64 validate entries = some next ∧ next.WithinBudget := by
  obtain ⟨next, ends, accounts, within⟩ := makeRoomTurns_accounts
    (2 * (m.enumerated XXH64 validate entries).timeQueue.length + 1)
    (enumerated_accounts XXH64 listing validate) (by omega)
  refine ⟨next, ends, ?_⟩
  rw [CacheManager.WithinBudget, tracked_size accounts]
  exact within

end Eviction
section Downloads
variable {XXH64 : List Byte → UInt64}

variable (XXH64) in
theorem receive_size {d : Download} (counted : d.outFile.length = d.downloadedSize)
    (answer : Option FlatAssetData) :
    (d.receive XXH64 answer).outFile.length = (d.receive XXH64 answer).downloadedSize := by
  unfold Download.receive
  split
  · exact counted
  · dsimp only
    split
    · exact counted
    · rw [List.length_append, counted]

theorem downloadTurns_size {get : UInt64 → Option FlatAssetData} {left i : Nat} {d e : Download}
    (counted : d.outFile.length = d.downloadedSize)
    (ends : downloadTurns XXH64 get left i d = some e) : e.outFile.length = e.downloadedSize := by
  induction left generalizing i d with
  | zero =>
    cases ends
    exact counted
  | succ left ih =>
    have next := receive_size XXH64 counted (get (UInt64.ofNat i))
    rw [downloadTurns] at ends
    split at ends
    · split at ends
      · exact ih next ends
      · cases ends
    · cases ends
      exact next

theorem download_cases {m next : CacheManager} {get : UInt64 → UInt64 → Option FlatAssetData}
    {key chunks : UInt64} {fileSize : Nat} {fileExtension : List Byte} {writeTime : Int}
    (step : m.step XXH64 (.download get key fileSize chunks fileExtension writeTime) =
      some next) :
    (Delivers XXH64 get key fileSize chunks ∧ ∃ bytes : List Byte, bytes.length = fileSize ∧
      next = m.track key fileSize fileExtension bytes writeTime) ∨
    (¬ Delivers XXH64 get key fileSize chunks ∧
      next = m.withFile (m.filePath key fileExtension) none) := by
  obtain ⟨⟨path, after⟩, downloaded, rfl⟩ := Option.map_eq_some_iff.mp step
  obtain ⟨d, turns, ends⟩ := Option.map_eq_some_iff.mp downloaded
  by_cases good : d.ok ∧ ¬ (key ≠ d.digest ∨ fileSize ≠ d.downloadedSize)
  · rw [if_pos good] at ends
    cases ends
    obtain ⟨ok, matching⟩ := good
    have same := not_or.mp matching
    have size := not_not.mp same.2
    refine Or.inl ⟨⟨d, turns, ok, not_not.mp same.1, size⟩, d.outFile, ?_, rfl⟩
    rw [size]
    exact downloadTurns_size rfl turns
  · rw [if_neg good] at ends
    cases ends
    refine Or.inr ⟨?_, rfl⟩
    rintro ⟨e, turns', ok, digest, size⟩
    cases turns.symm.trans turns'
    exact good ⟨ok, not_or.mpr ⟨not_not.mpr digest, not_not.mpr size⟩⟩

theorem sum_others {m : CacheManager} (path : Path) (file : Option (List Byte × Int)) :
    (m.tracked.erase path).sum (m.withFile path file).sizeOf =
      (m.tracked.erase path).sum m.sizeOf :=
  Finset.sum_congr rfl fun _ mem => sizeOf_update (Finset.ne_of_mem_erase mem)

theorem remove_size (m : CacheManager) (path : Path) :
    m.tracked.sum (m.withFile path none).sizeOf ≤ m.tracked.sum m.sizeOf := by
  apply Finset.sum_le_sum
  intro p _
  by_cases same : p = path
  · simp [CacheManager.sizeOf, CacheManager.withFile, same]
  · rw [sizeOf_update same]

theorem track_size (m : CacheManager) {key : UInt64} {fileExtension bytes : List Byte}
    {writeTime : Int} :
    (m.track key bytes.length fileExtension bytes writeTime).tracked.sum
        (m.track key bytes.length fileExtension bytes writeTime).sizeOf =
      (m.tracked.erase (m.filePath key fileExtension)).sum m.sizeOf + bytes.length := by
  have tracked : (m.track key bytes.length fileExtension bytes writeTime).tracked =
      insert (m.filePath key fileExtension) m.tracked := by
    simp [CacheManager.tracked, CacheManager.track]
  have size : (m.track key bytes.length fileExtension bytes writeTime).sizeOf =
      (m.withFile (m.filePath key fileExtension) (some (bytes, writeTime))).sizeOf := rfl
  rw [tracked, size, ← Finset.sum_erase_add _ _ (Finset.mem_insert_self _ _),
    Finset.erase_insert_eq_erase, sum_others]
  simp [CacheManager.sizeOf, CacheManager.withFile]

theorem checkCache_cases {m next : CacheManager} {key : UInt64} {now : Int}
    (step : m.step XXH64 (.checkCache key now) = some next) :
    next = m ∨ ∃ fileExtension content writeTime,
      m.extensionMap.lookup key = some fileExtension ∧
      m.files (m.hitPath key fileExtension) = some (content, writeTime) ∧
      next = m.withFile (m.hitPath key fileExtension) (some (content, now)) := by
  simp only [CacheManager.step, CacheManager.checkCache] at step
  split at step
  · exact .inl (Option.some.inj step).symm
  · rename_i found
    split at found
    · cases found
      exact .inl (Option.some.inj step).symm
    · rename_i fileExtension hit
      obtain ⟨⟨content, writeTime⟩, there, ends⟩ := Option.map_eq_some_iff.mp found
      cases ends
      exact .inr ⟨fileExtension, content, writeTime, hit, there, (Option.some.inj step).symm⟩

theorem touched_sizeOf {m : CacheManager} {path : Path} {content : List Byte} {writeTime : Int}
    (there : m.files path = some (content, writeTime)) (now : Int) (p : Path) :
    (m.withFile path (some (content, now))).sizeOf p = m.sizeOf p := by
  by_cases same : p = path
  · simp [CacheManager.sizeOf, CacheManager.withFile, same, there]
  · exact sizeOf_update same

theorem checkCache_within {m next : CacheManager} {key : UInt64} {now : Int}
    (within : m.WithinBudget) (step : m.step XXH64 (.checkCache key now) = some next) :
    next.WithinBudget := by
  rcases checkCache_cases step with rfl | ⟨_, _, _, -, there, rfl⟩
  · exact within
  · have same := m.tracked.sum_congr rfl fun p _ => touched_sizeOf there now p
    exact same.trans_le within

theorem keepsBudget_iff {m : CacheManager} (within : m.WithinBudget) (c : CacheCall) :
    KeepsBudget XXH64 m c ↔ FindsRoom XXH64 m c := by
  cases c with
  | checkExistingEntries validate entries =>
    exact iff_of_true (fun listing => check_within listing validate) trivial
  | checkCache key now =>
    exact iff_of_true (fun _ step => checkCache_within within step) trivial
  | download get key fileSize chunks fileExtension writeTime =>
    constructor
    · intro keeps delivers
      obtain ⟨d, turns, ok, digest, size⟩ := delivers
      have written : d.outFile.length = fileSize :=
        (downloadTurns_size rfl turns).trans size.symm
      have step : m.step XXH64 (.download get key fileSize chunks fileExtension writeTime) =
          some (m.track key fileSize fileExtension d.outFile writeTime) := by
        simp only [CacheManager.step, CacheManager.download, turns, Option.map_some]
        rw [if_pos ⟨ok, not_or.mpr ⟨not_not.mpr digest, not_not.mpr size⟩⟩]
      have after := keeps _ step
      rw [CacheManager.WithinBudget, ← written, track_size, written] at after
      exact after
    · intro room next step
      rcases download_cases step with ⟨delivers, bytes, rfl, rfl⟩ | ⟨-, rfl⟩
      · rw [CacheManager.WithinBudget, track_size]
        exact room delivers
      · exact Nat.le_trans (remove_size m _) within

theorem step_within {m next : CacheManager} {c : CacheCall} (within : m.WithinBudget)
    (room : FindsRoom XXH64 m c) (step : m.step XXH64 c = some next) : next.WithinBudget := by
  have keeps := (keepsBudget_iff within c).mpr room
  cases c with
  | checkExistingEntries validate entries =>
    simp only [CacheManager.step] at step
    split at step
    · rename_i listing
      obtain ⟨after, ends, inside⟩ := keeps listing
      cases ends.symm.trans step
      exact inside
    · cases step
  | checkCache key now => exact keeps next step
  | download get key fileSize chunks fileExtension writeTime => exact keeps next step

end Downloads

/-- Over every run of calls on a new manager, whatever the directory holds at its start. -/
theorem cache_budget_iff (XXH64 : List Byte → UInt64) (cachePath : Path) (maxSize : Nat)
    (files : Path → Option (List Byte × Int)) (calls : List CacheCall) :
    Along (CacheManager.step XXH64) (KeepsBudget XXH64) (.new cachePath maxSize files) calls ↔
      Along (CacheManager.step XXH64) (FindsRoom XXH64) (.new cachePath maxSize files) calls := by
  refine along_iff_along (g := fun _ _ => True) CacheManager.WithinBudget
    (fun m c within _ => keepsBudget_iff within c)
    (fun _ _ _ within _ room step => step_within within room step) ?_
    (along_of_all (p := fun _ => True) fun _ _ => trivial)
  exact Nat.zero_le maxSize

/-- Two files of one byte, downloaded into a cache for one byte. -/
theorem download_overruns :
    ¬ Along (CacheManager.step shortHash) (KeepsBudget shortHash) (.new [99] 1 fun _ => none)
      [.download (fun _ _ => some ⟨[1], shortHash [1]⟩) (shortHash [1]) 1 1 [] 0,
        .download (fun _ _ => some ⟨[2], shortHash [2]⟩) (shortHash [2]) 1 1 [] 1] := by
  intro keeps
  have within := ((keeps.2 _ rfl).1 _ rfl)
  revert within
  unfold CacheManager.WithinBudget
  decide +kernel

end Confab
