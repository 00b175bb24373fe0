import Mathlib.Data.Prod.Lex
import SCLOrkTools.Confab.CacheBudget

/- Which files makeRoomFor removes. -/
namespace Confab
open ByteStrings

section Order

theorem pathBefore_iff {a b : Path} : pathBefore a b = true ↔ a < b := by
  induction a generalizing b with
  | nil => cases b <;> simp [pathBefore]
  | cons c a ih =>
    cases b with
    | nil => simp [pathBefore]
    | cons d b =>
      rw [pathBefore, List.cons_lt_cons_iff, Bool.or_eq_true, Bool.and_eq_true, ih,
        decide_eq_true_iff, decide_eq_true_iff, Fin.val_inj]
      rfl

theorem timePathBefore_iff {a b : Int × Path} :
    timePathBefore a b = true ↔ toLex a < toLex b := by
  rw [timePathBefore, Prod.Lex.toLex_lt_toLex, Bool.or_eq_true, Bool.and_eq_true,
    pathBefore_iff, decide_eq_true_iff, decide_eq_true_iff]

theorem timeQueueTop_le {queue : List (Int × Path)} {top : Int × Path}
    (found : timeQueueTop queue = some top) : ∀ f ∈ queue, toLex f ≤ toLex top := by
  cases queue with
  | nil => cases found
  | cons e rest =>
    cases found
    generalize e = best
    induction rest generalizing best with
    | nil =>
      intro f mem
      rw [List.mem_singleton.mp mem]
      exact le_rfl
    | cons g rest ih =>
      rw [List.foldl_cons]
      have later : toLex best ≤ toLex (if timePathBefore best g then g else best) ∧
          toLex g ≤ toLex (if timePathBefore best g then g else best) := by
        split
        · rename_i before
          exact ⟨(timePathBefore_iff.mp before).le, le_rfl⟩
        · rename_i behind
          exact ⟨le_rfl, not_lt.mp (behind ∘ timePathBefore_iff.mpr)⟩
      have above := ih (if timePathBefore best g then g else best)
      intro f mem
      rcases List.mem_cons.mp mem with rfl | mem
      · exact later.1.trans (above _ List.mem_cons_self)
      · rcases List.mem_cons.mp mem with rfl | mem
        · exact later.2.trans (above _ List.mem_cons_self)
        · exact above f (List.mem_cons_of_mem _ mem)

theorem timeQueueTop_eq {queue : List (Int × Path)} {top : Int × Path} (mem : top ∈ queue)
    (last : ∀ f ∈ queue, toLex f ≤ toLex top) : timeQueueTop queue = some top := by
  obtain ⟨other, found⟩ := timeQueueTop_some (List.ne_nil_of_mem mem)
  rw [found]
  have same := (last other (timeQueueTop_mem found)).antisymm (timeQueueTop_le found top mem)
  exact congrArg some (toLex.injective same)

end Order
namespace CacheManager

def writeTime (m : CacheManager) (path : Path) : Int :=
  match m.files path with
  | none => 0
  | some (_, writeTime) => writeTime

/-- The files may have been written later than their entries say. -/
def Behind (m : CacheManager) : Prop := ∀ e ∈ m.timeQueue, e.1 ≤ m.writeTime e.2

def upTo (m : CacheManager) (e : Int × Path) : Nat :=
  ((m.timeQueue.filter fun f => !timePathBefore e f).map fun f => m.sizeOf f.2).sum

/-- No file that was removed had been written later than one that was kept. -/
def LeastRecentlyUsed (m next : CacheManager) : Prop :=
  ∀ removed ∈ m.timeQueue, ∀ kept ∈ m.timeQueue, next.files removed.2 = none →
    next.files kept.2 ≠ none → m.writeTime removed.2 ≤ m.writeTime kept.2

/-- Where the budget runs out between two entries of the queue, the file of the one above, which
    has to go, was not written later than the file of the one below. -/
def OldestOnTop (m : CacheManager) (addedBytes : Nat) : Prop :=
  ∀ above ∈ m.timeQueue, ∀ below ∈ m.timeQueue, m.upTo below + addedBytes ≤ m.maxSize →
    m.maxSize < m.upTo above + addedBytes → m.writeTime above.2 ≤ m.writeTime below.2

end CacheManager

section Removal
variable {addedBytes fuel : Nat} {m : CacheManager} {oldest : Int × Path} {content : List Byte}
  {realWriteTime : Int}

theorem evicted_requeued :
    (m.requeued oldest realWriteTime).evicted (realWriteTime, oldest.2) content =
      m.evicted oldest content := by
  simp [CacheManager.requeued, CacheManager.evicted]

/-- A file that was written later than its entry says is on top again when it has been put back,
    so that it goes all the same. -/
theorem makeRoomTurns_evicts (behind : m.Behind)
    (exceeds : (m.currentSize + addedBytes) % 2 ^ 64 > m.maxSize)
    (top : timeQueueTop m.timeQueue = some oldest)
    (file : m.files oldest.2 = some (content, realWriteTime)) :
    ∃ left, fuel ≤ left ∧ m.makeRoomTurns addedBytes (fuel + 2) =
      (m.evicted oldest content).makeRoomTurns addedBytes left := by
  rw [makeRoomTurns_top exceeds top file]
  by_cases fresh : realWriteTime = oldest.1
  · exact ⟨fuel + 1, Nat.le_succ fuel, if_pos fresh⟩
  · refine ⟨fuel, le_rfl, ?_⟩
    have written := behind oldest (timeQueueTop_mem top)
    simp only [CacheManager.writeTime, file] at written
    have later : toLex oldest ≤ toLex (realWriteTime, oldest.2) := by
      rw [Prod.Lex.toLex_le_toLex]
      exact Or.inl (lt_of_le_of_ne written (Ne.symm fresh))
    have again : timeQueueTop (m.requeued oldest realWriteTime).timeQueue =
        some (realWriteTime, oldest.2) := by
      apply timeQueueTop_eq List.mem_cons_self
      intro f mem
      rcases List.mem_cons.mp mem with rfl | mem
      · exact le_rfl
      · exact (timeQueueTop_le top f (List.mem_of_mem_erase mem)).trans later
    have second : (m.requeued oldest realWriteTime).makeRoomTurns addedBytes (fuel + 1) = _ :=
      makeRoomTurns_top exceeds again file
    rw [if_neg fresh, second, if_pos rfl, evicted_requeued]

theorem evicted_writeTime {path : Path} (other : path ≠ oldest.2) :
    (m.evicted oldest content).writeTime path = m.writeTime path := by
  simp [CacheManager.writeTime, CacheManager.evicted, other]

theorem behind_evicted (tracks : m.Tracks) (behind : m.Behind) (mem : oldest ∈ m.timeQueue) :
    (m.evicted oldest content).Behind := by
  intro e inside
  have other := evicted_untracked tracks mem e inside
  rw [evicted_writeTime other]
  exact behind e (List.mem_of_mem_erase inside)

theorem upTo_top (tracks : m.Tracks) (top : timeQueueTop m.timeQueue = some oldest) :
    m.upTo oldest = m.currentSize := by
  have all : (m.timeQueue.filter fun f => !timePathBefore oldest f) = m.timeQueue := by
    apply List.filter_eq_self.mpr
    intro f mem
    rw [Bool.not_eq_true', ← Bool.not_eq_true, timePathBefore_iff, not_lt]
    exact timeQueueTop_le top f mem
  rw [CacheManager.upTo, all, tracks.total]

theorem upTo_le (tracks : m.Tracks) (e : Int × Path) : m.upTo e ≤ m.currentSize := by
  rw [tracks.total]
  exact (List.filter_sublist.map _).sum_le_sum fun _ _ => Nat.zero_le _

theorem upTo_evicted (tracks : m.Tracks) (top : timeQueueTop m.timeQueue = some oldest)
    {e : Int × Path} (mem : e ∈ m.timeQueue) (other : e ≠ oldest) :
    (m.evicted oldest content).upTo e = m.upTo e := by
  have inside := timeQueueTop_mem top
  have above : timePathBefore e oldest = true :=
    timePathBefore_iff.mpr (lt_of_le_of_ne (timeQueueTop_le top e mem) (toLex.injective.ne other))
  have below : (m.timeQueue.filter fun f => !timePathBefore e f).Perm
      ((m.timeQueue.erase oldest).filter fun f => !timePathBefore e f) := by
    have perm := (List.perm_cons_erase inside).filter fun f => !timePathBefore e f
    rwa [List.filter_cons_of_neg (by simp [above])] at perm
  unfold CacheManager.upTo
  rw [(below.map _).sum_eq]
  refine congrArg List.sum (List.map_congr_left fun f mem => ?_)
  exact evicted_sizeOf (evicted_untracked tracks inside f (List.mem_filter.mp mem).1)

/-- The files for whose entries, and those below, there is no room are gone, and no others. -/
structure CacheManager.MadeRoom (m next : CacheManager) (addedBytes : Nat) : Prop where
  room : next.currentSize + addedBytes ≤ m.maxSize
  tracked : ∀ e ∈ m.timeQueue, next.files e.2 =
    if m.maxSize < m.upTo e + addedBytes then none else m.files e.2
  untracked : ∀ path, path ∉ m.timeQueue.map Prod.snd → next.files path = m.files path

theorem madeRoom_self (tracks : m.Tracks) (room : m.currentSize + addedBytes ≤ m.maxSize) :
    m.MadeRoom m addedBytes := by
  refine ⟨room, fun e _ => ?_, fun _ _ => rfl⟩
  have below := upTo_le tracks e
  rw [if_neg (by omega)]

theorem madeRoom_evicted {next : CacheManager} (tracks : m.Tracks)
    (exceeds : m.maxSize < m.currentSize + addedBytes)
    (top : timeQueueTop m.timeQueue = some oldest)
    (rest : (m.evicted oldest content).MadeRoom next addedBytes) :
    m.MadeRoom next addedBytes := by
  obtain ⟨room, kept, untouched⟩ := rest
  rw [evicted_maxSize] at room kept
  have mem := timeQueueTop_mem top
  have gone : oldest.2 ∉ (m.evicted oldest content).timeQueue.map Prod.snd := by
    intro inside
    obtain ⟨e, there, same⟩ := List.mem_map.mp inside
    exact evicted_untracked tracks mem e there same
  refine ⟨room, ?_, ?_⟩
  · intro e inside
    by_cases here : e = oldest
    · rw [here, upTo_top tracks top, untouched _ gone, if_pos exceeds]
      exact Function.update_self _ _ _
    · have remains : e ∈ m.timeQueue.erase oldest := (List.mem_erase_of_ne here).mpr inside
      have other := evicted_untracked tracks mem e remains
      have file : (m.evicted oldest content).files e.2 = m.files e.2 :=
        Function.update_of_ne other _ _
      rw [kept e remains, upTo_evicted tracks top inside here, file]
  · intro path outside
    have other : path ≠ oldest.2 := fun same => outside (same ▸ List.mem_map_of_mem mem)
    rw [untouched path fun inside => outside ((List.erase_sublist.map _).subset inside)]
    exact Function.update_of_ne other _ _

/-- The loop takes two turns at most to remove a file. -/
theorem makeRoomTurns_removes (tracks : m.Tracks) (behind : m.Behind)
    (fits : m.currentSize + addedBytes < 2 ^ 64) (asked : addedBytes ≤ m.maxSize)
    (enough : 2 * m.timeQueue.length < fuel) :
    ∃ next, m.makeRoomTurns addedBytes fuel = some next ∧ m.MadeRoom next addedBytes := by
  have whole := Nat.mod_eq_of_lt fits
  induction count : m.timeQueue.length generalizing m fuel with
  | zero =>
    have empty : m.timeQueue = [] := List.eq_nil_of_length_eq_zero count
    have total := tracks.total
    rw [empty, List.map_nil, List.sum_nil] at total
    obtain ⟨less, rfl⟩ := Nat.exists_eq_succ_of_ne_zero (by omega : fuel ≠ 0)
    exact ⟨m, makeRoomTurns_done (by omega), madeRoom_self tracks (by omega)⟩
  | succ n ih =>
    by_cases exceeds : (m.currentSize + addedBytes) % 2 ^ 64 > m.maxSize
    · obtain ⟨oldest, content, realWriteTime, top, file⟩ := top_of_exceeds tracks asked exceeds
      have mem := timeQueueTop_mem top
      obtain ⟨less, rfl⟩ := Nat.exists_eq_add_of_le' (by omega : 2 ≤ fuel)
      obtain ⟨left, spare, turns⟩ := @makeRoomTurns_evicts _ less _ _ _ _ behind exceeds top file
      have shorter : (m.evicted oldest content).timeQueue.length = n := by
        have length := List.length_erase_of_mem mem
        change (m.timeQueue.erase oldest).length = n
        omega
      have smaller := evicted_size tracks mem file
      have maxSize := evicted_maxSize (m := m) oldest content
      have below : (m.evicted oldest content).currentSize + addedBytes < 2 ^ 64 := by omega
      have enough : 2 * (m.evicted oldest content).timeQueue.length < left := by omega
      obtain ⟨next, ends, rest⟩ := ih (tracks_evicted tracks mem file)
        (behind_evicted tracks behind mem) below (by omega) enough (Nat.mod_eq_of_lt below)
        shorter
      rw [whole] at exceeds
      exact ⟨next, turns.trans ends, madeRoom_evicted tracks exceeds top rest⟩
    · obtain ⟨less, rfl⟩ := Nat.exists_eq_succ_of_ne_zero (by omega : fuel ≠ 0)
      exact ⟨m, makeRoomTurns_done exceeds, madeRoom_self tracks (by omega)⟩

/-- makeRoomFor makes the room and removes the files that were used longest ago exactly when the
    sizes do not overflow and the files for which the budget runs out are not the newer ones. -/
theorem makeRoomFor_lru_iff (tracks : m.Tracks) (behind : m.Behind) (range : m.maxSize < 2 ^ 64)
    (asked : addedBytes ≤ m.maxSize) :
    (∃ next, m.makeRoomFor addedBytes = some next ∧
        next.currentSize + addedBytes ≤ m.maxSize ∧ m.LeastRecentlyUsed next) ↔
      m.currentSize + addedBytes < 2 ^ 64 ∧ m.OldestOnTop addedBytes := by
  by_cases fits : m.currentSize + addedBytes < 2 ^ 64
  · obtain ⟨next, ends, room, kept, -⟩ :=
      makeRoomTurns_removes tracks behind fits asked (Nat.lt_succ_self (2 * m.timeQueue.length))
    have removed_iff (e : Int × Path) (mem : e ∈ m.timeQueue) :
        next.files e.2 = none ↔ m.maxSize < m.upTo e + addedBytes := by
      obtain ⟨content, writeTime, there⟩ := tracks.present e mem
      rw [kept e mem, there]
      simp
    constructor
    · rintro ⟨other, ends', -, oldest⟩
      obtain rfl := Option.some.inj (ends.symm.trans ends')
      refine ⟨fits, fun above inside below beneath low high => ?_⟩
      apply oldest above inside below beneath ((removed_iff above inside).mpr high)
      rw [ne_eq, removed_iff below beneath]
      omega
    · rintro ⟨-, order⟩
      refine ⟨next, ends, room, fun removed inside kept beneath gone stays => ?_⟩
      apply order removed inside kept beneath
      · rw [ne_eq, removed_iff kept beneath] at stays
        omega
      · exact (removed_iff removed inside).mp gone
  · have small := tracks.small
    have wrapped : (m.currentSize + addedBytes) % 2 ^ 64 = m.currentSize + addedBytes - 2 ^ 64 := by
      omega
    have ends : m.makeRoomFor addedBytes = some m := by
      apply makeRoomTurns_done
      omega
    constructor
    · rintro ⟨next, ends', room, -⟩
      obtain rfl := Option.some.inj (ends.symm.trans ends')
      omega
    · rintro ⟨less, -⟩
      exact absurd less fits

end Removal

def touched : CacheManager where
  cachePath := [99]
  maxSize := 1
  currentSize := 2
  timeQueue := [(1, [99, 47, 97]), (2, [99, 47, 98])]
  extensionMap := []
  files := fun path => if path = [99, 47, 97] then some ([0], 7)
    else if path = [99, 47, 98] then some ([0], 2) else none

theorem makeRoomFor_lru_iff_touched :
    (∃ next, touched.makeRoomFor 0 = some next ∧ next.currentSize + 0 ≤ touched.maxSize ∧
        touched.LeastRecentlyUsed next) ↔
      touched.currentSize + 0 < 2 ^ 64 ∧ touched.OldestOnTop 0 := by
  apply makeRoomFor_lru_iff
  · refine ⟨by decide, ?_, by decide, by decide⟩
    intro e mem
    rcases List.mem_pair.mp mem with rfl | rfl
    · exact ⟨[0], 7, rfl⟩
    · exact ⟨[0], 2, rfl⟩
  · intro e mem
    rcases List.mem_pair.mp mem with rfl | rfl
    · decide
    · decide
  · decide
  · decide

def untouched : CacheManager where
  cachePath := [99]
  maxSize := 1
  currentSize := 2
  timeQueue := [(1, [99, 47, 97]), (2, [99, 47, 98])]
  extensionMap := []
  files := fun path => if path = [99, 47, 97] then some ([0], 1)
    else if path = [99, 47, 98] then some ([0], 2) else none

theorem untouched_tracks : untouched.Tracks := by
  refine ⟨by decide, ?_, by decide, by decide⟩
  intro e mem
  rcases List.mem_pair.mp mem with rfl | rfl
  · exact ⟨[0], 1, rfl⟩
  · exact ⟨[0], 2, rfl⟩

theorem untouched_behind : untouched.Behind := by
  intro e mem
  rcases List.mem_pair.mp mem with rfl | rfl
  · decide
  · decide

/-- The file that was written last is the one that goes. -/
theorem newest_evicted : untouched.Tracks ∧ untouched.Behind ∧
    ∃ next, untouched.makeRoomFor 0 = some next ∧ ¬ untouched.LeastRecentlyUsed next := by
  have ends : (untouched.makeRoomFor 0).isSome := by decide +kernel
  obtain ⟨next, ran⟩ := Option.isSome_iff_exists.mp ends
  refine ⟨untouched_tracks, untouched_behind, next, ran, fun oldest => ?_⟩
  have gone : next.files [99, 47, 98] = none := by
    have files : (untouched.makeRoomFor 0).bind (fun next => next.files [99, 47, 98]) = none := by
      decide +kernel
    rwa [ran, Option.bind_some] at files
  have stays : next.files [99, 47, 97] ≠ none := by
    have files : (untouched.makeRoomFor 0).bind (fun next => next.files [99, 47, 97]) ≠ none := by
      decide +kernel
    rwa [ran, Option.bind_some] at files
  have order := oldest (2, [99, 47, 98]) (by decide) (1, [99, 47, 97]) (by decide) gone stays
  exact absurd order (by decide)

end Confab
