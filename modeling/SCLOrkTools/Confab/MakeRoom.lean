import Mathlib.Algebra.BigOperators.Group.List.Basic
import Mathlib.Data.List.Nodup
import SCLOrkTools.Confab.CacheManager

/- The turns of makeRoomFor, and what they keep of a cache whose tracked files are accounted for. -/
namespace Confab
open ByteStrings

namespace CacheManager

def sizeOf (m : CacheManager) (path : Path) : Nat :=
  match m.files path with
  | none => 0
  | some (content, _) => content.length

def withFile (m : CacheManager) (path : Path) (file : Option (List Byte × Int)) : CacheManager :=
  { m with files := Function.update m.files path file }

def requeued (m : CacheManager) (oldest : Int × Path) (realWriteTime : Int) : CacheManager :=
  { m with timeQueue := (realWriteTime, oldest.2) :: m.timeQueue.erase oldest }

def evicted (m : CacheManager) (oldest : Int × Path) (content : List Byte) : CacheManager :=
  { m with
    currentSize := sizeSub m.currentSize content.length
    timeQueue := m.timeQueue.erase oldest
    extensionMap := m.extensionMap.filter (·.1 ≠ stringToKey (stemExtension oldest.2).1)
    files := Function.update m.files oldest.2 none }

/-- Each file of the queue is there, and is in the queue once. currentSize is the size of them
    all. -/
structure Tracks (m : CacheManager) : Prop where
  nodup : (m.timeQueue.map Prod.snd).Nodup
  present : ∀ e ∈ m.timeQueue, ∃ content writeTime, m.files e.2 = some (content, writeTime)
  total : m.currentSize = (m.timeQueue.map fun e => m.sizeOf e.2).sum
  small : m.currentSize < 2 ^ 64

end CacheManager

section Files
variable {m : CacheManager} {path : Path} {file : Option (List Byte × Int)}

theorem sizeOf_file {content : List Byte} {writeTime : Int}
    (found : m.files path = some (content, writeTime)) : m.sizeOf path = content.length := by
  simp [CacheManager.sizeOf, found]

theorem sizeOf_update {p : Path} (other : p ≠ path) :
    (m.withFile path file).sizeOf p = m.sizeOf p := by
  simp [CacheManager.sizeOf, CacheManager.withFile, other]

theorem tracks_withFile (tracks : m.Tracks) (untracked : path ∉ m.timeQueue.map Prod.snd) :
    (m.withFile path file).Tracks := by
  have other : ∀ e ∈ m.timeQueue, e.2 ≠ path := fun e mem same =>
    untracked (same ▸ List.mem_map_of_mem mem)
  refine ⟨tracks.nodup, ?_, ?_, tracks.small⟩
  · intro e mem
    obtain ⟨content, writeTime, found⟩ := tracks.present e mem
    exact ⟨content, writeTime, (Function.update_of_ne (other e mem) _ _).trans found⟩
  · refine tracks.total.trans (congrArg List.sum (List.map_congr_left ?_))
    intro e mem
    exact (sizeOf_update (other e mem)).symm

end Files
section Queue
variable {queue : List (Int × Path)}

theorem timeQueueTop_mem {top : Int × Path} (found : timeQueueTop queue = some top) :
    top ∈ queue := by
  cases queue with
  | nil => cases found
  | cons e rest =>
    cases found
    suffices kept : ∀ best, best ∈ e :: rest →
        rest.foldl (fun top f => if timePathBefore top f then f else top) best ∈ e :: rest from
      kept e List.mem_cons_self
    intro best mem
    apply List.foldlRecOn (motive := fun best => best ∈ e :: rest) rest _ mem
    intro best mem f inside
    split
    · exact List.mem_cons_of_mem e inside
    · exact mem

theorem timeQueueTop_some (nonempty : queue ≠ []) : ∃ top, timeQueueTop queue = some top := by
  cases queue with
  | nil => exact absurd rfl nonempty
  | cons e rest => exact ⟨_, rfl⟩

end Queue
section Turns
variable {addedBytes fuel : Nat} {m next : CacheManager}

theorem makeRoomTurns_done (fits : ¬ (m.currentSize + addedBytes) % 2 ^ 64 > m.maxSize) :
    m.makeRoomTurns addedBytes (fuel + 1) = some m := by
  rw [CacheManager.makeRoomTurns, if_neg fits]

theorem makeRoomTurns_top {oldest : Int × Path} {content : List Byte} {realWriteTime : Int}
    (exceeds : (m.currentSize + addedBytes) % 2 ^ 64 > m.maxSize)
    (top : timeQueueTop m.timeQueue = some oldest)
    (file : m.files oldest.2 = some (content, realWriteTime)) :
    m.makeRoomTurns addedBytes (fuel + 1) =
      if realWriteTime = oldest.1 then (m.evicted oldest content).makeRoomTurns addedBytes fuel
      else (m.requeued oldest realWriteTime).makeRoomTurns addedBytes fuel := by
  rw [CacheManager.makeRoomTurns, if_pos exceeds]
  simp only [top, file]
  rfl

theorem top_of_exceeds (tracks : m.Tracks) (asked : addedBytes ≤ m.maxSize)
    (exceeds : (m.currentSize + addedBytes) % 2 ^ 64 > m.maxSize) :
    ∃ oldest content realWriteTime, timeQueueTop m.timeQueue = some oldest ∧
      m.files oldest.2 = some (content, realWriteTime) := by
  have some_file : m.timeQueue ≠ [] := by
    intro empty
    have total := tracks.total
    rw [empty, List.map_nil, List.sum_nil] at total
    rw [total, Nat.zero_add] at exceeds
    exact absurd ((Nat.mod_le _ _).trans asked) (Nat.not_le_of_gt exceeds)
  obtain ⟨oldest, top⟩ := timeQueueTop_some some_file
  obtain ⟨content, realWriteTime, file⟩ := tracks.present oldest (timeQueueTop_mem top)
  exact ⟨oldest, content, realWriteTime, top, file⟩

theorem makeRoomTurns_keeps (p : CacheManager → Prop)
    (requeues : ∀ m oldest content realWriteTime, p m → oldest ∈ m.timeQueue →
      m.files oldest.2 = some (content, realWriteTime) → p (m.requeued oldest realWriteTime))
    (evicts : ∀ m oldest content realWriteTime, p m → oldest ∈ m.timeQueue →
      m.files oldest.2 = some (content, realWriteTime) → p (m.evicted oldest content))
    (start : p m) (ends : m.makeRoomTurns addedBytes fuel = some next) : p next := by
  induction fuel generalizing m with
  | zero => cases ends
  | succ fuel ih =>
    by_cases exceeds : (m.currentSize + addedBytes) % 2 ^ 64 > m.maxSize
    · rw [CacheManager.makeRoomTurns, if_pos exceeds] at ends
      cases top : timeQueueTop m.timeQueue with
      | none => simp [top] at ends
      | some oldest =>
        cases file : m.files oldest.2 with
        | none => simp [top, file] at ends
        | some found =>
          obtain ⟨content, realWriteTime⟩ := found
          simp only [top, file] at ends
          have mem := timeQueueTop_mem top
          split at ends
          · exact ih (evicts m oldest content realWriteTime start mem file) ends
          · exact ih (requeues m oldest content realWriteTime start mem file) ends
    · rw [makeRoomTurns_done exceeds] at ends
      cases ends
      exact start

theorem requeued_perm {oldest : Int × Path} (mem : oldest ∈ m.timeQueue) (realWriteTime : Int) :
    ((m.requeued oldest realWriteTime).timeQueue.map Prod.snd).Perm
      (m.timeQueue.map Prod.snd) :=
  ((List.perm_cons_erase mem).map Prod.snd).symm

theorem tracks_requeued {oldest : Int × Path} (tracks : m.Tracks) (mem : oldest ∈ m.timeQueue)
    (realWriteTime : Int) : (m.requeued oldest realWriteTime).Tracks := by
  have perm := requeued_perm mem realWriteTime
  refine ⟨perm.nodup_iff.mpr tracks.nodup, ?_, ?_, tracks.small⟩
  · intro e inside
    obtain ⟨f, there, same⟩ := List.mem_map.mp (perm.subset (List.mem_map_of_mem inside))
    rw [← same]
    exact tracks.present f there
  · have sizes := (perm.map m.sizeOf).sum_eq
    rw [List.map_map, List.map_map] at sizes
    exact tracks.total.trans sizes.symm

theorem evicted_untracked {oldest : Int × Path} (tracks : m.Tracks)
    (mem : oldest ∈ m.timeQueue) : ∀ e ∈ m.timeQueue.erase oldest, e.2 ≠ oldest.2 := by
  intro e inside same
  have distinct := List.Nodup.of_map _ tracks.nodup
  have one := List.inj_on_of_nodup_map tracks.nodup (List.mem_of_mem_erase inside) mem same
  rw [one] at inside
  exact distinct.not_mem_erase inside

theorem evicted_maxSize (oldest : Int × Path) (content : List Byte) :
    (m.evicted oldest content).maxSize = m.maxSize := by
  rw [CacheManager.evicted]

theorem evicted_cachePath (oldest : Int × Path) (content : List Byte) :
    (m.evicted oldest content).cachePath = m.cachePath := by
  rw [CacheManager.evicted]

theorem evicted_sizeOf {oldest : Int × Path} {content : List Byte} {path : Path}
    (other : path ≠ oldest.2) : (m.evicted oldest content).sizeOf path = m.sizeOf path := by
  simp [CacheManager.sizeOf, CacheManager.evicted, other]

theorem evicted_size {oldest : Int × Path} {content : List Byte} {realWriteTime : Int}
    (tracks : m.Tracks) (mem : oldest ∈ m.timeQueue)
    (file : m.files oldest.2 = some (content, realWriteTime)) :
    m.currentSize = content.length + (m.evicted oldest content).currentSize ∧
      (m.evicted oldest content).currentSize =
        ((m.timeQueue.erase oldest).map fun e => m.sizeOf e.2).sum := by
  have size : m.sizeOf oldest.2 = content.length := sizeOf_file file
  have split : m.currentSize =
      m.sizeOf oldest.2 + ((m.timeQueue.erase oldest).map fun e => m.sizeOf e.2).sum := by
    rw [tracks.total, ((List.perm_cons_erase mem).map _).sum_eq, List.map_cons, List.sum_cons]
  have left : (m.evicted oldest content).currentSize = m.currentSize - content.length :=
    sizeSub_of_le (by omega) tracks.small
  omega

theorem tracks_evicted {oldest : Int × Path} {content : List Byte} {realWriteTime : Int}
    (tracks : m.Tracks) (mem : oldest ∈ m.timeQueue)
    (file : m.files oldest.2 = some (content, realWriteTime)) :
    (m.evicted oldest content).Tracks := by
  have others := evicted_untracked tracks mem
  obtain ⟨freed, left⟩ := evicted_size tracks mem file
  have small := tracks.small
  refine ⟨tracks.nodup.sublist (List.erase_sublist.map _), ?_, ?_, by omega⟩
  · intro e inside
    obtain ⟨content, writeTime, found⟩ := tracks.present e (List.mem_of_mem_erase inside)
    exact ⟨content, writeTime, (Function.update_of_ne (others e inside) _ _).trans found⟩
  · rw [left]
    exact congrArg List.sum (List.map_congr_left fun e inside =>
      (evicted_sizeOf (others e inside)).symm)

end Turns

end Confab
