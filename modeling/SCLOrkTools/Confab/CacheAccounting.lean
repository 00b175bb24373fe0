import SCLOrkTools.Confab.CacheNames
import SCLOrkTools.Confab.Eviction

/- The accounts of the file cache, which are kept in three places beside the directory itself. A
   download writes to all of them as if its file were a new one. -/
namespace Confab
open ByteStrings GuardedRun

inductive AccountCall where
  | call (c : CacheCall)
  | makeRoomFor (addedBytes : UInt64)

namespace CacheManager

def queued (m : CacheManager) : List Path := m.timeQueue.map Prod.snd

/-- The queue has an entry for each file that is there, and for no other, currentSize is the size
    of all of them, and extensionMap has their keys. -/
structure Accounted (m : CacheManager) : Prop where
  nodup : m.queued.Nodup
  present : ∀ path, path ∈ m.queued ↔ m.files path ≠ none
  total : m.currentSize = (m.queued.map m.sizeOf).sum
  keys : ∀ key, key ∈ m.extensionMap.map Prod.fst ↔
    ∃ path, m.files path ≠ none ∧ fileKey path = key

/-- The files of the cache directory are named for different keys, and have less than 2^64 bytes
    together. -/
structure Directory (m : CacheManager) : Prop where
  named : ∀ path, m.files path ≠ none →
    ∃ key fileExtension, IsExtension fileExtension ∧ path = m.filePath key fileExtension
  distinct : ∀ path other, m.files path ≠ none → m.files other ≠ none →
    fileKey path = fileKey other → path = other
  finite : ∃ entries : List Path, entries.Nodup ∧ (∀ path, path ∈ entries ↔ m.files path ≠ none) ∧
    (entries.map m.sizeOf).sum < 2 ^ 64

def Covers (m : CacheManager) : Prop := ∀ path, m.files path ≠ none → path ∈ m.queued

end CacheManager

section Calls
variable (XXH64 : List Byte → UInt64)

def CacheManager.accountStep (m : CacheManager) : AccountCall → Option CacheManager
  | .call c => m.step XXH64 c
  | .makeRoomFor addedBytes => m.makeRoomFor addedBytes.toNat

/-- The directory stays one of cache files, and what it is enumerated with is all of it. -/
def InDirectory (m : CacheManager) (c : AccountCall) : Prop :=
  m.Directory ∧ (∀ validate entries, c = .call (.checkExistingEntries validate entries) →
    m.Listing entries ∧ ∀ path, m.files path ≠ none → path ∈ entries) ∧
  ∀ next, m.accountStep XXH64 c = some next → next.Directory

/-- A call that returns leaves the accounts right. checkExistingEntries returns, and so does
    makeRoomFor unless it is asked for more than there is. -/
def KeepsAccounts (m : CacheManager) (c : AccountCall) : Prop :=
  (match c with
    | .call (.checkExistingEntries _ _) => ∃ next, m.accountStep XXH64 c = some next
    | .makeRoomFor addedBytes => addedBytes.toNat ≤ m.maxSize →
      ∃ next, m.accountStep XXH64 c = some next
    | _ => True) ∧
  ∀ next, m.accountStep XXH64 c = some next → next.Accounted

/-- A download, unless its counter overflows, finds no entry for the file that it writes, and one
    for each other file. The other calls find an entry for each file. -/
def FindsAccounts (m : CacheManager) : AccountCall → Prop
  | .call (.checkExistingEntries _ _) => True
  | .call (.checkCache _ _) => m.Covers
  | .call (.download get key _ chunks fileExtension _) =>
    (downloadTurns XXH64 (get key) chunks.toNat 0 ⟨[], 0, 0, [], true⟩).isSome →
      m.filePath key fileExtension ∉ m.queued ∧
      ∀ path, path ≠ m.filePath key fileExtension → m.files path ≠ none → path ∈ m.queued
  | .makeRoomFor addedBytes => addedBytes.toNat ≤ m.maxSize → m.Covers

end Calls

namespace CacheManager

structure Tallied (m : CacheManager) : Prop where
  tracks : m.Tracks
  keys : ∀ key, key ∈ m.extensionMap.map Prod.fst ↔ ∃ path ∈ m.queued, fileKey path = key

def Apart (m : CacheManager) : Prop :=
  ∀ path ∈ m.queued, ∀ other ∈ m.queued, fileKey path = fileKey other → path = other

end CacheManager

section Accounts
variable {m : CacheManager}

theorem queued_sizes (m : CacheManager) :
    (m.timeQueue.map fun e => m.sizeOf e.2).sum = (m.queued.map m.sizeOf).sum := by
  rw [CacheManager.queued, List.map_map]
  rfl

theorem tracks_present (tracks : m.Tracks) {path : Path} (mem : path ∈ m.queued) :
    m.files path ≠ none := by
  obtain ⟨e, inside, rfl⟩ := List.mem_map.mp mem
  obtain ⟨content, writeTime, found⟩ := tracks.present e inside
  simp [found]

theorem accounted_of_tallied (tallied : m.Tallied) (covers : m.Covers) : m.Accounted := by
  have present (path : Path) : path ∈ m.queued ↔ m.files path ≠ none :=
    ⟨tracks_present tallied.tracks, covers path⟩
  refine ⟨tallied.tracks.nodup, present, tallied.tracks.total.trans (queued_sizes m), ?_⟩
  intro key
  rw [tallied.keys]
  exact exists_congr fun path => and_congr_left' (present path)

theorem covers_of_accounted (accounted : m.Accounted) : m.Covers :=
  fun path there => (accounted.present path).mpr there

theorem apart_of_directory (directory : m.Directory) (tallied : m.Tallied) : m.Apart :=
  fun path mem other inside => directory.distinct path other (tracks_present tallied.tracks mem)
    (tracks_present tallied.tracks inside)

theorem tallied_of_accounted (directory : m.Directory) (accounted : m.Accounted) : m.Tallied := by
  obtain ⟨entries, distinct, listed, small⟩ := directory.finite
  have perm : m.queued.Perm entries := (List.perm_ext_iff_of_nodup accounted.nodup distinct).mpr
    fun path => (accounted.present path).trans (listed path).symm
  refine ⟨⟨accounted.nodup, ?_, accounted.total.trans (queued_sizes m).symm, ?_⟩, ?_⟩
  · intro e mem
    have there := (accounted.present e.2).mp (List.mem_map_of_mem mem)
    obtain ⟨⟨content, writeTime⟩, found⟩ := Option.ne_none_iff_exists'.mp there
    exact ⟨content, writeTime, found⟩
  · rw [accounted.total, (perm.map m.sizeOf).sum_eq]
    exact small
  · intro key
    rw [accounted.keys]
    exact exists_congr fun path => and_congr_left' (accounted.present path).symm

end Accounts
section Rooms
variable {m next : CacheManager} {oldest : Int × Path} {content : List Byte} {realWriteTime : Int}

theorem requeued_queued (mem : oldest ∈ m.timeQueue) (path : Path) :
    path ∈ (m.requeued oldest realWriteTime).queued ↔ path ∈ m.queued :=
  (requeued_perm mem realWriteTime).mem_iff

theorem evicted_queued (tracks : m.Tracks) (mem : oldest ∈ m.timeQueue) (path : Path) :
    path ∈ (m.evicted oldest content).queued ↔ path ∈ m.queued ∧ path ≠ oldest.2 := by
  constructor
  · intro inside
    obtain ⟨e, left, rfl⟩ := List.mem_map.mp inside
    exact ⟨List.mem_map_of_mem (List.mem_of_mem_erase left), evicted_untracked tracks mem e left⟩
  · rintro ⟨inside, other⟩
    obtain ⟨e, there, rfl⟩ := List.mem_map.mp inside
    apply List.mem_map_of_mem
    exact (List.mem_erase_of_ne fun same => other (congrArg Prod.snd same)).mpr there

structure Balanced (m : CacheManager) : Prop where
  tallied : m.Tallied
  apart : m.Apart
  covers : m.Covers

theorem balanced_requeued (balanced : Balanced m) (mem : oldest ∈ m.timeQueue) :
    Balanced (m.requeued oldest realWriteTime) := by
  have same : ∀ path, path ∈ (m.requeued oldest realWriteTime).queued ↔ path ∈ m.queued :=
    requeued_queued mem
  refine ⟨⟨tracks_requeued balanced.tallied.tracks mem realWriteTime, ?_⟩, ?_, ?_⟩
  · intro key
    simp only [same]
    exact balanced.tallied.keys key
  · intro path inside other beneath
    exact balanced.apart path ((same path).mp inside) other ((same other).mp beneath)
  · intro path there
    exact (same path).mpr (balanced.covers path there)

theorem balanced_evicted (balanced : Balanced m) (mem : oldest ∈ m.timeQueue)
    (file : m.files oldest.2 = some (content, realWriteTime)) :
    Balanced (m.evicted oldest content) := by
  have tracks := balanced.tallied.tracks
  have left : ∀ path,
      path ∈ (m.evicted oldest content).queued ↔ path ∈ m.queued ∧ path ≠ oldest.2 :=
    evicted_queued tracks mem
  refine ⟨⟨tracks_evicted tracks mem file, ?_⟩, ?_, ?_⟩
  · intro key
    have kept : key ∈ (m.evicted oldest content).extensionMap.map Prod.fst ↔
        key ∈ m.extensionMap.map Prod.fst ∧ key ≠ fileKey oldest.2 := by
      simp [CacheManager.evicted, fileKey]
    rw [kept, balanced.tallied.keys]
    constructor
    · rintro ⟨⟨path, inside, rfl⟩, other⟩
      exact ⟨path, (left path).mpr ⟨inside, fun same => other (congrArg fileKey same)⟩, rfl⟩
    · rintro ⟨path, inside, rfl⟩
      obtain ⟨before, other⟩ := (left path).mp inside
      refine ⟨⟨path, before, rfl⟩, fun same => other ?_⟩
      exact balanced.apart path before oldest.2 (List.mem_map_of_mem mem) same
  · intro path inside other beneath
    exact balanced.apart path ((left path).mp inside).1 other ((left other).mp beneath).1
  · intro path there
    have other : path ≠ oldest.2 := by
      rintro rfl
      exact there (Function.update_self _ _ _)
    have before : (m.evicted oldest content).files path = m.files path :=
      Function.update_of_ne other _ _
    rw [before] at there
    exact (left path).mpr ⟨balanced.covers path there, other⟩

theorem balanced_makeRoomFor {addedBytes : Nat} (balanced : Balanced m)
    (ends : m.makeRoomFor addedBytes = some next) : Balanced next := by
  apply makeRoomTurns_keeps Balanced _ _ balanced ends
  · intro m oldest content realWriteTime before mem _
    exact balanced_requeued before mem
  · intro m oldest content realWriteTime before mem file
    exact balanced_evicted before mem file

/-- The turns that are left at most: an entry that is out of date is put back first. -/
def CacheManager.turnsLeft (m : CacheManager) : Nat :=
  m.timeQueue.length + m.timeQueue.countP fun e => m.writeTime e.2 ≠ e.1

theorem turnsLeft_requeued (mem : oldest ∈ m.timeQueue)
    (file : m.files oldest.2 = some (content, realWriteTime)) (stale : realWriteTime ≠ oldest.1) :
    (m.requeued oldest realWriteTime).turnsLeft < m.turnsLeft := by
  have written : m.writeTime oldest.2 = realWriteTime := by simp [CacheManager.writeTime, file]
  have perm := List.perm_cons_erase mem
  have before : m.timeQueue.countP (fun e => m.writeTime e.2 ≠ e.1) =
      (m.timeQueue.erase oldest).countP (fun e => m.writeTime e.2 ≠ e.1) + 1 := by
    rw [perm.countP_eq, List.countP_cons_of_pos (by simpa [written] using stale)]
  have after : (m.requeued oldest realWriteTime).timeQueue.countP
      (fun e => m.writeTime e.2 ≠ e.1) =
      (m.timeQueue.erase oldest).countP fun e => m.writeTime e.2 ≠ e.1 := by
    rw [CacheManager.requeued, List.countP_cons_of_neg (by simp [written])]
  have length : (m.requeued oldest realWriteTime).timeQueue.length = m.timeQueue.length := by
    rw [perm.length_eq]
    rfl
  change (m.requeued oldest realWriteTime).timeQueue.length +
    (m.requeued oldest realWriteTime).timeQueue.countP (fun e => m.writeTime e.2 ≠ e.1) <
      m.timeQueue.length + m.timeQueue.countP fun e => m.writeTime e.2 ≠ e.1
  omega

theorem turnsLeft_evicted (tracks : m.Tracks) (mem : oldest ∈ m.timeQueue) :
    (m.evicted oldest content).turnsLeft < m.turnsLeft := by
  have perm := List.perm_cons_erase mem
  have same : (m.timeQueue.erase oldest).countP
      (fun e => (m.evicted oldest content).writeTime e.2 ≠ e.1) =
      (m.timeQueue.erase oldest).countP fun e => m.writeTime e.2 ≠ e.1 := by
    apply List.countP_congr
    intro e inside
    rw [evicted_writeTime (evicted_untracked tracks mem e inside)]
  have fewer : (m.timeQueue.erase oldest).countP (fun e => m.writeTime e.2 ≠ e.1) ≤
      m.timeQueue.countP fun e => m.writeTime e.2 ≠ e.1 :=
    List.erase_sublist.countP_le
  have length := perm.length_eq
  rw [List.length_cons] at length
  change (m.timeQueue.erase oldest).length + (m.timeQueue.erase oldest).countP
      (fun e => (m.evicted oldest content).writeTime e.2 ≠ e.1) <
    m.timeQueue.length + m.timeQueue.countP fun e => m.writeTime e.2 ≠ e.1
  omega

/-- With the tracked files accounted for, the loop ends before the queue is empty. -/
theorem makeRoomTurns_returns {addedBytes fuel : Nat} (tracks : m.Tracks)
    (asked : addedBytes ≤ m.maxSize) (enough : m.turnsLeft < fuel) :
    ∃ next, m.makeRoomTurns addedBytes fuel = some next := by
  induction fuel generalizing m with
  | zero => omega
  | succ fuel ih =>
    by_cases exceeds : (m.currentSize + addedBytes) % 2 ^ 64 > m.maxSize
    · obtain ⟨oldest, content, realWriteTime, top, file⟩ := top_of_exceeds tracks asked exceeds
      have mem := timeQueueTop_mem top
      rw [makeRoomTurns_top exceeds top file]
      by_cases fresh : realWriteTime = oldest.1
      · have less : (m.evicted oldest content).turnsLeft < m.turnsLeft :=
          turnsLeft_evicted tracks mem
        rw [if_pos fresh]
        apply ih (tracks_evicted tracks mem file) _ (by omega)
        rw [evicted_maxSize]
        exact asked
      · have less := turnsLeft_requeued mem file fresh
        rw [if_neg fresh]
        exact ih (tracks_requeued tracks mem realWriteTime) asked (by omega)
    · exact ⟨m, makeRoomTurns_done exceeds⟩

theorem makeRoomFor_returns {addedBytes : Nat} (tracks : m.Tracks)
    (asked : addedBytes ≤ m.maxSize) : ∃ next, m.makeRoomFor addedBytes = some next := by
  apply makeRoomTurns_returns tracks asked
  have stale := @List.countP_le_length _ (fun e => decide (m.writeTime e.2 ≠ e.1)) m.timeQueue
  unfold CacheManager.turnsLeft
  omega

end Rooms
section Enumeration
variable {XXH64 : List Byte → UInt64} {m : CacheManager} {validate : Bool} {path : Path}

theorem checkEntry_cases (XXH64 : List Byte → UInt64) (m : CacheManager) (validate : Bool)
    (path : Path) :
    (m.files path = none ∧ m.checkEntry XXH64 validate path = m) ∨
    (m.checkEntry XXH64 validate path = m.withFile path none) ∨
    ∃ content writeTime, m.files path = some (content, writeTime) ∧
      (validate → validFile XXH64 (fileKey path) content) ∧
      m.checkEntry XXH64 validate path = { m with
        currentSize := (m.currentSize + content.length) % 2 ^ 64
        timeQueue := (writeTime, path) :: m.timeQueue
        extensionMap := if fileKey path ∈ m.extensionMap.map Prod.fst then m.extensionMap
          else (fileKey path, (stemExtension path).2) :: m.extensionMap } := by
  unfold CacheManager.checkEntry
  cases found : m.files path with
  | none => exact .inl ⟨rfl, rfl⟩
  | some file =>
    obtain ⟨content, writeTime⟩ := file
    dsimp only
    split
    · exact .inr (.inl rfl)
    · rename_i accepted
      refine .inr (.inr ⟨content, writeTime, rfl, fun checked => ?_, rfl⟩)
      by_contra invalid
      exact accepted ⟨checked, invalid⟩

theorem insert_keys {extensionMap : List (UInt64 × List Byte)} {key : UInt64}
    {fileExtension : List Byte} (other : UInt64) :
    other ∈ (if key ∈ extensionMap.map Prod.fst then extensionMap
      else (key, fileExtension) :: extensionMap).map Prod.fst ↔
      other = key ∨ other ∈ extensionMap.map Prod.fst := by
  split
  · rename_i there
    constructor
    · exact .inr
    · rintro (rfl | mem)
      · exact there
      · exact mem
  · rw [List.map_cons, List.mem_cons]

theorem checkEntry_keys (keys : ∀ key, key ∈ m.extensionMap.map Prod.fst ↔
    ∃ path ∈ m.queued, fileKey path = key) (key : UInt64) :
    key ∈ (m.checkEntry XXH64 validate path).extensionMap.map Prod.fst ↔
      ∃ other ∈ (m.checkEntry XXH64 validate path).queued, fileKey other = key := by
  rcases checkEntry_cases XXH64 m validate path with ⟨-, same⟩ | removed | ⟨_, _, -, -, added⟩
  · rw [same]
    exact keys key
  · rw [removed]
    exact keys key
  · rw [added, insert_keys, keys]
    constructor
    · rintro (rfl | ⟨other, mem, rfl⟩)
      · exact ⟨path, List.mem_cons_self, rfl⟩
      · exact ⟨other, List.mem_cons_of_mem _ mem, rfl⟩
    · rintro ⟨other, mem, rfl⟩
      rcases List.mem_cons.mp mem with rfl | before
      · exact .inl rfl
      · exact .inr ⟨other, before, rfl⟩

theorem checkEntry_covers {entries : List Path}
    (seen : ∀ other, m.files other ≠ none → other ∈ path :: entries ∨ other ∈ m.queued)
    {other : Path} (there : (m.checkEntry XXH64 validate path).files other ≠ none) :
    m.files other ≠ none ∧
      (other ∈ entries ∨ other ∈ (m.checkEntry XXH64 validate path).queued) := by
  rcases checkEntry_cases XXH64 m validate path with ⟨none, same⟩ | removed | ⟨_, _, -, -, added⟩
  · rw [same] at there ⊢
    refine ⟨there, (seen other there).imp_left fun mem => ?_⟩
    exact (List.mem_cons.mp mem).resolve_left fun here => there (here ▸ none)
  · rw [removed] at there ⊢
    have different : other ≠ path := by
      rintro rfl
      exact there (Function.update_self _ _ _)
    have before : (m.withFile path none).files other = m.files other :=
      Function.update_of_ne different _ _
    rw [before] at there
    exact ⟨there, (seen other there).imp_left fun mem =>
      (List.mem_cons.mp mem).resolve_left different⟩
  · rw [added] at there ⊢
    refine ⟨there, ?_⟩
    rcases seen other there with mem | tracked
    · rcases List.mem_cons.mp mem with rfl | later
      · exact .inr List.mem_cons_self
      · exact .inl later
    · exact .inr (List.mem_cons_of_mem _ tracked)

variable (XXH64) in
/-- The enumeration gives every key of the map a file in the queue, and leaves no file that it
    has not put there. -/
theorem enumeration_covers (validate : Bool) {entries : List Path}
    (keys : ∀ key, key ∈ m.extensionMap.map Prod.fst ↔ ∃ path ∈ m.queued, fileKey path = key)
    (seen : ∀ other, m.files other ≠ none → other ∈ entries ∨ other ∈ m.queued) :
    (∀ key, key ∈ (entries.foldl (CacheManager.checkEntry XXH64 validate) m).extensionMap.map
        Prod.fst ↔ ∃ path ∈ (entries.foldl (CacheManager.checkEntry XXH64 validate) m).queued,
          fileKey path = key) ∧
      ∀ other, (entries.foldl (CacheManager.checkEntry XXH64 validate) m).files other ≠ none →
        m.files other ≠ none ∧
          other ∈ (entries.foldl (CacheManager.checkEntry XXH64 validate) m).queued := by
  induction entries generalizing m with
  | nil => exact ⟨keys, fun other there => ⟨there, (seen other there).resolve_left nofun⟩⟩
  | cons path entries ih =>
    rw [List.foldl_cons]
    obtain ⟨keyed, covered⟩ := ih (checkEntry_keys keys) fun other there =>
      (checkEntry_covers seen there).2
    exact ⟨keyed, fun other there => ⟨(checkEntry_covers seen (covered other there).1).1,
      (covered other there).2⟩⟩

variable (XXH64) in
theorem enumeration_tallied {entries : List Path} (listing : m.Listing entries)
    (all : ∀ path, m.files path ≠ none → path ∈ entries) (validate : Bool) :
    (m.enumerated XXH64 validate entries).Tallied ∧
      ∀ path, (m.enumerated XXH64 validate entries).files path ≠ none →
        m.files path ≠ none ∧ path ∈ (m.enumerated XXH64 validate entries).queued := by
  have accounts := enumerated_accounts XXH64 listing validate
  obtain ⟨keys, covers⟩ := @enumeration_covers XXH64 m.reset validate entries
    (fun key => by simp [CacheManager.queued, CacheManager.reset])
    (fun path there => .inl (all path there))
  exact ⟨⟨tracks_of_accounts accounts, keys⟩, covers⟩

theorem check_accounted {entries : List Path} (directory : m.Directory)
    (listing : m.Listing entries) (all : ∀ path, m.files path ≠ none → path ∈ entries)
    (validate : Bool) :
    ∃ next, m.checkExistingEntries XXH64 validate entries = some next ∧ next.Accounted := by
  obtain ⟨tallied, covers⟩ := enumeration_tallied XXH64 listing all validate
  have present {path : Path} (mem : path ∈ (m.enumerated XXH64 validate entries).queued) :
      m.files path ≠ none := (covers path (tracks_present tallied.tracks mem)).1
  obtain ⟨next, ends⟩ := makeRoomFor_returns tallied.tracks (Nat.zero_le _)
  have after := balanced_makeRoomFor ⟨tallied, fun path mem other inside =>
    directory.distinct path other (present mem) (present inside),
    fun path there => (covers path there).2⟩ ends
  exact ⟨next, ends, accounted_of_tallied after.tallied after.covers⟩

end Enumeration

section Files
variable {m next : CacheManager} {path : Path} {content bytes : List Byte} {now : Int}

theorem tallied_withFile (tallied : m.Tallied) (untracked : path ∉ m.queued)
    (file : Option (List Byte × Int)) : (m.withFile path file).Tallied :=
  ⟨tracks_withFile tallied.tracks untracked, tallied.keys⟩

theorem tallied_touched (tallied : m.Tallied) {writeTime : Int}
    (there : m.files path = some (content, writeTime)) :
    (m.withFile path (some (content, now))).Tallied := by
  have tracks := tallied.tracks
  refine ⟨⟨tracks.nodup, ?_, ?_, tracks.small⟩, tallied.keys⟩
  · intro e mem
    by_cases same : e.2 = path
    · refine ⟨content, now, ?_⟩
      rw [same]
      exact Function.update_self _ _ _
    · obtain ⟨content, writeTime, found⟩ := tracks.present e mem
      exact ⟨content, writeTime, (Function.update_of_ne same _ _).trans found⟩
  · refine tracks.total.trans (congrArg List.sum (List.map_congr_left ?_))
    intro e _
    exact (touched_sizeOf there now e.2).symm

theorem touched_covers {writeTime : Int} (there : m.files path = some (content, writeTime)) :
    (m.withFile path (some (content, now))).Covers ↔ m.Covers := by
  apply forall_congr'
  intro other
  by_cases same : other = path
  · subst same
    have after : (m.withFile other (some (content, now))).files other = some (content, now) :=
      Function.update_self _ _ _
    rw [after, there]
    simp [CacheManager.queued, CacheManager.withFile]
  · have before : (m.withFile path (some (content, now))).files other = m.files other :=
      Function.update_of_ne same _ _
    rw [before]
    rfl

theorem removed_accounted_iff (tallied : m.Tallied) :
    (m.withFile path none).Accounted ↔
      path ∉ m.queued ∧ ∀ other, other ≠ path → m.files other ≠ none → other ∈ m.queued := by
  constructor
  · intro accounted
    constructor
    · intro mem
      exact (accounted.present path).mp mem (Function.update_self _ _ _)
    · intro other different there
      refine (accounted.present other).mpr ?_
      have before : (m.withFile path none).files other = m.files other :=
        Function.update_of_ne different _ _
      rwa [before]
  · rintro ⟨untracked, covered⟩
    apply accounted_of_tallied (tallied_withFile tallied untracked none)
    intro other there
    have different : other ≠ path := by
      rintro rfl
      exact there (Function.update_self _ _ _)
    have before : (m.withFile path none).files other = m.files other :=
      Function.update_of_ne different _ _
    rw [before] at there
    exact covered other different there

variable {key : UInt64} {fileExtension : List Byte} {writeTime : Int}

theorem track_key (directory : (m.track key bytes.length fileExtension bytes writeTime).Directory) :
    fileKey (m.filePath key fileExtension) = key := by
  obtain ⟨other, otherExtension, extension, same⟩ := directory.named (m.filePath key fileExtension)
    (by simp [CacheManager.track])
  have keys : key = other := (@filePath_key m _ _ _ _ same).1
  rw [same, fileKey_filePath extension, keys]

theorem track_tallied (tallied : m.Tallied) (untracked : m.filePath key fileExtension ∉ m.queued)
    (small : m.currentSize + bytes.length < 2 ^ 64)
    (named : fileKey (m.filePath key fileExtension) = key) :
    (m.track key bytes.length fileExtension bytes writeTime).Tallied := by
  have written := tallied_withFile tallied untracked (some (bytes, writeTime))
  have size : (m.withFile (m.filePath key fileExtension) (some (bytes, writeTime))).sizeOf
      (m.filePath key fileExtension) = bytes.length := by
    simp [CacheManager.sizeOf, CacheManager.withFile]
  refine ⟨⟨List.nodup_cons.mpr ⟨untracked, tallied.tracks.nodup⟩, ?_, ?_, ?_⟩, ?_⟩
  · intro e mem
    rcases List.mem_cons.mp mem with rfl | old
    · exact ⟨bytes, writeTime, Function.update_self _ _ _⟩
    · exact written.tracks.present e old
  · have total := written.tracks.total
    change (m.currentSize + bytes.length) % 2 ^ 64 =
      (m.withFile (m.filePath key fileExtension) (some (bytes, writeTime))).sizeOf
        (m.filePath key fileExtension) + (m.timeQueue.map fun e =>
          (m.withFile (m.filePath key fileExtension) (some (bytes, writeTime))).sizeOf e.2).sum
    rw [Nat.mod_eq_of_lt small, size, Nat.add_comm]
    exact congrArg _ total
  · exact Nat.mod_lt _ (Nat.two_pow_pos 64)
  · intro other
    change other ∈ (if key ∈ m.extensionMap.map Prod.fst then m.extensionMap
      else (key, fileExtension) :: m.extensionMap).map Prod.fst ↔
        ∃ path ∈ m.filePath key fileExtension :: m.queued, fileKey path = other
    rw [insert_keys, tallied.keys]
    constructor
    · rintro (rfl | ⟨path, mem, rfl⟩)
      · exact ⟨_, List.mem_cons_self, named⟩
      · exact ⟨path, List.mem_cons_of_mem _ mem, rfl⟩
    · rintro ⟨path, mem, rfl⟩
      rcases List.mem_cons.mp mem with rfl | before
      · exact .inl named
      · exact .inr ⟨path, before, rfl⟩

theorem track_accounted_iff (tallied : m.Tallied)
    (directory : (m.track key bytes.length fileExtension bytes writeTime).Directory) :
    (m.track key bytes.length fileExtension bytes writeTime).Accounted ↔
      m.filePath key fileExtension ∉ m.queued ∧
        ∀ path, path ≠ m.filePath key fileExtension → m.files path ≠ none → path ∈ m.queued := by
  have others {path : Path} (different : path ≠ m.filePath key fileExtension) :
      (m.track key bytes.length fileExtension bytes writeTime).files path = m.files path :=
    Function.update_of_ne different _ _
  constructor
  · intro accounted
    have distinct : (m.filePath key fileExtension :: m.queued).Nodup := accounted.nodup
    refine ⟨(List.nodup_cons.mp distinct).1, ?_⟩
    intro path different there
    rw [← others different] at there
    exact (List.mem_cons.mp ((accounted.present path).mpr there)).resolve_left different
  · rintro ⟨untracked, covered⟩
    have covers : (m.track key bytes.length fileExtension bytes writeTime).Covers := by
      intro path there
      by_cases same : path = m.filePath key fileExtension
      · rw [same]
        exact List.mem_cons_self
      · rw [others same] at there
        exact List.mem_cons_of_mem _ (covered path same there)
    have written := tallied_withFile tallied untracked (some (bytes, writeTime))
    -- What is tracked is what there is, and has less than 2^64 bytes.
    obtain ⟨entries, distinct, listed, small⟩ := directory.finite
    have present (path : Path) : path ∈ m.filePath key fileExtension :: m.queued ↔
        path ∈ entries := by
      rw [listed]
      constructor
      · intro mem
        by_cases same : path = m.filePath key fileExtension
        · simp [CacheManager.track, same]
        · rw [others same]
          exact tracks_present tallied.tracks ((List.mem_cons.mp mem).resolve_left same)
      · exact covers path
    have perm := (List.perm_ext_iff_of_nodup
      (List.nodup_cons.mpr ⟨untracked, tallied.tracks.nodup⟩) distinct).mpr present
    rw [← (perm.map _).sum_eq, List.map_cons, List.sum_cons] at small
    have size : (m.track key bytes.length fileExtension bytes writeTime).sizeOf
        (m.filePath key fileExtension) = bytes.length := by
      simp [CacheManager.sizeOf, CacheManager.track]
    have total : m.currentSize = (m.queued.map
        (m.track key bytes.length fileExtension bytes writeTime).sizeOf).sum :=
      written.tracks.total.trans (queued_sizes _)
    rw [size, ← total, Nat.add_comm] at small
    exact accounted_of_tallied (track_tallied tallied untracked small (track_key directory)) covers

end Files

section Runs
variable {XXH64 : List Byte → UInt64} {m next : CacheManager}

/-- checkExistingEntries has everything covered, and before it nothing is tracked. -/
def CacheManager.Begun (m : CacheManager) : Prop :=
  m.Tallied ∧ (m.Covers ∨ m.timeQueue = [])

theorem checkEntries_keeps {validate : Bool} {entries : List Path} (directory : m.Directory)
    (listing : m.Listing entries) (all : ∀ path, m.files path ≠ none → path ∈ entries) :
    KeepsAccounts XXH64 m (.call (.checkExistingEntries validate entries)) := by
  obtain ⟨next, ends, accounted⟩ := check_accounted directory listing all validate
  have step : m.accountStep XXH64 (.call (.checkExistingEntries validate entries)) =
      some next := (if_pos listing).trans ends
  refine ⟨⟨next, step⟩, ?_⟩
  intro after found
  cases step.symm.trans found
  exact accounted

theorem checkCache_keeps_iff {key : UInt64} {now : Int} (tallied : m.Tallied) :
    KeepsAccounts XXH64 m (.call (.checkCache key now)) ↔ m.Covers := by
  constructor
  · rintro ⟨-, keeps⟩
    have returns : ∃ next, m.step XXH64 (.checkCache key now) = some next := by
      simp only [CacheManager.step]
      split
      · exact ⟨_, rfl⟩
      · exact ⟨_, rfl⟩
    obtain ⟨next, step⟩ := returns
    have covers := covers_of_accounted (keeps next step)
    rcases checkCache_cases step with rfl | ⟨_, _, _, -, there, rfl⟩
    · exact covers
    · exact (touched_covers there).mp covers
  · intro covers
    refine ⟨trivial, ?_⟩
    intro next (step : m.step XXH64 (.checkCache key now) = some next)
    rcases checkCache_cases step with rfl | ⟨_, _, _, -, there, rfl⟩
    · exact accounted_of_tallied tallied covers
    · exact accounted_of_tallied (tallied_touched tallied there) ((touched_covers there).mpr covers)

theorem download_keeps_iff {get : UInt64 → UInt64 → Option FlatAssetData} {key chunks : UInt64}
    {fileSize : Nat} {fileExtension : List Byte} {writeTime : Int} (tallied : m.Tallied)
    (stays : ∀ next, m.accountStep XXH64
      (.call (.download get key fileSize chunks fileExtension writeTime)) = some next →
        next.Directory) :
    KeepsAccounts XXH64 m (.call (.download get key fileSize chunks fileExtension writeTime)) ↔
      FindsAccounts XXH64 m
        (.call (.download get key fileSize chunks fileExtension writeTime)) := by
  have cases_accounted {next : CacheManager} (step : m.step XXH64
      (.download get key fileSize chunks fileExtension writeTime) = some next) :
      next.Accounted ↔ m.filePath key fileExtension ∉ m.queued ∧
        ∀ path, path ≠ m.filePath key fileExtension → m.files path ≠ none → path ∈ m.queued := by
    have stayed := stays next step
    rcases download_cases step with ⟨-, bytes, rfl, rfl⟩ | ⟨-, rfl⟩
    · exact track_accounted_iff tallied stayed
    · exact removed_accounted_iff tallied
  constructor
  · rintro ⟨-, keeps⟩ counted
    obtain ⟨d, turns⟩ := Option.isSome_iff_exists.mp counted
    obtain ⟨next, step⟩ : ∃ next, m.step XXH64
        (.download get key fileSize chunks fileExtension writeTime) = some next := by
      simp [CacheManager.step, CacheManager.download, turns]
    exact (cases_accounted step).mp (keeps next step)
  · intro finds
    refine ⟨trivial, ?_⟩
    intro next step
    have counted : (downloadTurns XXH64 (get key) chunks.toNat 0 ⟨[], 0, 0, [], true⟩).isSome := by
      obtain ⟨_, downloaded, -⟩ := Option.map_eq_some_iff.mp step
      obtain ⟨d, turns, -⟩ := Option.map_eq_some_iff.mp downloaded
      exact Option.isSome_iff_exists.mpr ⟨d, turns⟩
    exact (cases_accounted step).mpr (finds counted)

theorem makeRoomFor_untracked (tallied : m.Tallied) (untracked : m.timeQueue = [])
    (addedBytes : UInt64) :
    m.makeRoomFor addedBytes.toNat = if addedBytes.toNat ≤ m.maxSize then some m else none := by
  have total := tallied.tracks.total
  rw [untracked, List.map_nil, List.sum_nil] at total
  have size : (m.currentSize + addedBytes.toNat) % 2 ^ 64 = addedBytes.toNat := by
    rw [total, Nat.zero_add, Nat.mod_eq_of_lt addedBytes.toNat_lt]
  rw [CacheManager.makeRoomFor, CacheManager.makeRoomTurns, size, untracked]
  by_cases asked : addedBytes.toNat ≤ m.maxSize
  · rw [if_pos asked, if_neg (Nat.not_lt_of_ge asked)]
  · rw [if_neg asked, if_pos (Nat.lt_of_not_ge asked)]
    rfl

theorem makeRoomFor_keeps_iff {addedBytes : UInt64} (begun : m.Begun) (apart : m.Apart) :
    KeepsAccounts XXH64 m (.makeRoomFor addedBytes) ↔
      (addedBytes.toNat ≤ m.maxSize → m.Covers) := by
  obtain ⟨tallied, covers | untracked⟩ := begun
  · refine iff_of_true ⟨fun asked => makeRoomFor_returns tallied.tracks asked, ?_⟩ fun _ => covers
    intro next ends
    have after := balanced_makeRoomFor ⟨tallied, apart, covers⟩ ends
    exact accounted_of_tallied after.tallied after.covers
  · have returns := makeRoomFor_untracked tallied untracked addedBytes
    constructor
    · rintro ⟨-, keeps⟩ asked
      rw [if_pos asked] at returns
      exact covers_of_accounted (keeps m returns)
    · intro finds
      refine ⟨fun asked => makeRoomFor_returns tallied.tracks asked, ?_⟩
      intro next ends
      by_cases asked : addedBytes.toNat ≤ m.maxSize
      · rw [if_pos asked] at returns
        cases returns.symm.trans ends
        exact accounted_of_tallied tallied (finds asked)
      · rw [if_neg asked] at returns
        cases returns.symm.trans ends

theorem keepsAccounts_iff (begun : m.Begun) (c : AccountCall)
    (inDirectory : InDirectory XXH64 m c) : KeepsAccounts XXH64 m c ↔ FindsAccounts XXH64 m c := by
  obtain ⟨directory, enumerated, stays⟩ := inDirectory
  cases c with
  | call c =>
    cases c with
    | checkExistingEntries validate entries =>
      obtain ⟨listing, all⟩ := enumerated validate entries rfl
      exact iff_of_true (checkEntries_keeps directory listing all) trivial
    | checkCache key now => exact checkCache_keeps_iff begun.1
    | download => exact download_keeps_iff begun.1 stays
  | makeRoomFor => exact makeRoomFor_keeps_iff begun (apart_of_directory directory begun.1)

/-- Over every run of calls on a new manager, whatever the directory holds at its start. -/
theorem cache_accounts_iff (XXH64 : List Byte → UInt64) (cachePath : Path) (maxSize : Nat)
    (files : Path → Option (List Byte × Int)) (calls : List AccountCall)
    (inDirectory : Along (CacheManager.accountStep XXH64) (InDirectory XXH64)
      (.new cachePath maxSize files) calls) :
    Along (CacheManager.accountStep XXH64) (KeepsAccounts XXH64)
        (.new cachePath maxSize files) calls ↔
      Along (CacheManager.accountStep XXH64) (FindsAccounts XXH64)
        (.new cachePath maxSize files) calls := by
  refine along_iff_along CacheManager.Begun
    (fun m c begun guard => keepsAccounts_iff begun c guard) ?_ ?_ inDirectory
  · intro m c next begun guard finds step
    have accounted := ((keepsAccounts_iff begun c guard).mpr finds).2 next step
    refine ⟨tallied_of_accounted (guard.2.2 next step) accounted, .inl ?_⟩
    exact covers_of_accounted accounted
  · refine ⟨⟨⟨List.nodup_nil, fun e mem => ?_, rfl, Nat.two_pow_pos 64⟩, ?_⟩, .inr rfl⟩
    · cases mem
    · intro key
      simp [CacheManager.queued, CacheManager.new]

end Runs
section Examples

theorem directory_one {m : CacheManager} (key : UInt64)
    (alone : ∀ path, path ≠ m.filePath key [] → m.files path = none)
    (small : m.sizeOf (m.filePath key []) < 2 ^ 64) : m.Directory := by
  have only {path : Path} (there : m.files path ≠ none) : path = m.filePath key [] := by
    by_contra other
    exact there (alone path other)
  refine ⟨fun path there => ⟨key, [], .inl rfl, only there⟩, ?_, ?_⟩
  · intro path other there beneath _
    rw [only there, only beneath]
  · by_cases found : m.files (m.filePath key []) = none
    · refine ⟨[], List.nodup_nil, fun path => iff_of_false List.not_mem_nil ?_, Nat.two_pow_pos 64⟩
      intro there
      exact there (only there ▸ found)
    · refine ⟨[m.filePath key []], List.nodup_singleton _, ?_, ?_⟩
      · intro path
        rw [List.mem_singleton]
        constructor
        · rintro rfl
          exact found
        · exact only
      · rwa [List.map_singleton, List.sum_singleton]

def byteKey : UInt64 := shortHash [1]

def oneByte (writeTime : Int) : AccountCall :=
  .call (.download (fun _ _ => some ⟨[1], byteKey⟩) byteKey 1 1 [] writeTime)

def bareCache : CacheManager := .new [99] 8 fun _ => none

theorem bareCache_directory : bareCache.Directory :=
  directory_one byteKey (fun _ _ => rfl) (by decide)

theorem oneByte_step (m : CacheManager) (writeTime : Int) :
    m.accountStep shortHash (oneByte writeTime) = some (m.track byteKey 1 [] [1] writeTime) := by
  rfl

theorem oneByte_directory {m : CacheManager} (writeTime : Int) (directory : m.Directory)
    (alone : ∀ path, path ≠ m.filePath byteKey [] → m.files path = none) :
    InDirectory shortHash m (oneByte writeTime) := by
  refine ⟨directory, ?_, ?_⟩
  · rintro validate entries found
    cases found
  · intro next step
    rw [oneByte_step] at step
    cases step
    apply directory_one byteKey
    · intro path other
      exact (Function.update_of_ne other _ _).trans (alone path other)
    · have size : (m.track byteKey 1 [] [1] writeTime).sizeOf (m.filePath byteKey []) = 1 := by
        simp [CacheManager.sizeOf, CacheManager.track]
      change (m.track byteKey 1 [] [1] writeTime).sizeOf (m.filePath byteKey []) < 2 ^ 64
      omega

/-- The file is downloaded, and evicted again. -/
theorem cache_accounts_iff_one :
    Along (CacheManager.accountStep shortHash) (KeepsAccounts shortHash) bareCache
      [oneByte 0, .makeRoomFor 8] := by
  have downloads := oneByte_directory 0 bareCache_directory fun _ _ => rfl
  have evicts : (bareCache.track byteKey 1 [] [1] 0).makeRoomFor (8 : UInt64).toNat =
      some ((bareCache.track byteKey 1 [] [1] 0).evicted
        (0, bareCache.filePath byteKey []) [1]) := by
    have exceeds : ((bareCache.track byteKey 1 [] [1] 0).currentSize + 8) % 2 ^ 64 >
        (bareCache.track byteKey 1 [] [1] 0).maxSize := by decide +kernel
    have top : timeQueueTop (bareCache.track byteKey 1 [] [1] 0).timeQueue =
        some (0, bareCache.filePath byteKey []) := rfl
    have file : (bareCache.track byteKey 1 [] [1] 0).files (bareCache.filePath byteKey []) =
        some ([1], 0) := by simp [CacheManager.track]
    refine (makeRoomTurns_top exceeds top file).trans ?_
    rw [if_pos rfl]
    exact makeRoomTurns_done (by decide +kernel)
  apply (cache_accounts_iff shortHash [99] 8 (fun _ => none) [oneByte 0, .makeRoomFor 8] _).mpr
  · refine ⟨fun _ => ⟨List.not_mem_nil, fun _ _ there => absurd rfl there⟩, ?_⟩
    intro next step
    cases step
    refine ⟨fun _ path there => ?_, fun _ _ => trivial⟩
    by_contra other
    apply there
    apply Function.update_of_ne
    rintro rfl
    exact other List.mem_cons_self
  · refine ⟨downloads, ?_⟩
    intro next step
    cases step
    refine ⟨⟨downloads.2.2 _ rfl, nofun, ?_⟩, fun _ _ => trivial⟩
    intro next ends
    cases evicts.symm.trans ends
    apply directory_one byteKey
    · intro path other
      exact (Function.update_of_ne other _ _).trans (Function.update_of_ne other _ _)
    · have size : ((bareCache.track byteKey 1 [] [1] 0).evicted
          (0, bareCache.filePath byteKey []) [1]).sizeOf (bareCache.filePath byteKey []) = 0 := by
        simp [CacheManager.sizeOf, CacheManager.evicted]
      exact size.trans_lt (Nat.two_pow_pos 64)

/-- A file that is downloaded a second time counts twice, though there is only one. -/
theorem download_doubles :
    Along (CacheManager.accountStep shortHash) (InDirectory shortHash) bareCache
      [oneByte 0, oneByte 1] ∧
    ¬ Along (CacheManager.accountStep shortHash) (KeepsAccounts shortHash) bareCache
      [oneByte 0, oneByte 1] := by
  constructor
  · refine ⟨oneByte_directory 0 bareCache_directory fun _ _ => rfl, ?_⟩
    intro next step
    cases step
    refine ⟨oneByte_directory 1 ?_ ?_, fun _ _ => trivial⟩
    · exact (oneByte_directory 0 bareCache_directory fun _ _ => rfl).2.2 _ rfl
    · intro path other
      exact Function.update_of_ne other _ _
  · intro keeps
    have accounted := ((keeps.2 _ (oneByte_step _ _)).1.2 _ (oneByte_step _ _))
    have distinct := accounted.nodup
    revert distinct
    decide +kernel

end Examples

end Confab
