import Mathlib.Algebra.Order.Field.Basic
import Mathlib.Algebra.Order.Field.Rat
import Mathlib.Tactic.Linarith
import Mathlib.Tactic.FieldSimp
import Mathlib.Tactic.Ring
import SCLOrkTools.Library.GuardedRun
import SCLOrkTools.Library.Ring

/- The time difference that a client keeps from the replies to /clockSyncGet. Two rings with
   one index hold the newest samples, and the means over them come from two running sums. -/
namespace SCLOrkClock
open RingBuffer GuardedRun

def historySize : ℕ := 60

structure Sync where
  timeDiffs : WrapArray ℚ
  timeDiffSum : ℚ
  roundTripTimes : WrapArray ℚ
  roundTripTimeSum : ℚ
  sumIndex : ℕ
  timeDiff : ℚ
  requestLastSent : ℚ
  deriving DecidableEq

namespace Sync

/-- `elapsed` is Main.elapsedTime as the first request goes out. -/
def startSync (elapsed : ℚ) : Sync where
  timeDiffs := WrapArray.clear historySize
  timeDiffSum := 0
  roundTripTimes := WrapArray.clear historySize
  roundTripTimeSum := 0
  sumIndex := 0
  timeDiff := 0
  requestLastSent := elapsed

/-- Stores a sample. The sums are without the one it replaces, and `n` samples count. -/
def record (s : Sync) (diff roundTripTime timeDiffSum roundTripTimeSum n : ℚ) : Sync where
  timeDiffs := s.timeDiffs.setSlot s.sumIndex (some diff)
  timeDiffSum := timeDiffSum + diff
  roundTripTimes := s.roundTripTimes.setSlot s.sumIndex (some roundTripTime)
  roundTripTimeSum := roundTripTimeSum + roundTripTime
  sumIndex := (s.sumIndex + 1) % historySize
  timeDiff := (timeDiffSum + diff) / n - (roundTripTimeSum + roundTripTime) / (2 * n)
  requestLastSent := s.requestLastSent

/-- The handler of /clockSyncSet. It fails if it has to subtract a slot that is nil. -/
def clockSyncSet (s : Sync) (serverTime currentTime : ℚ) : Option Sync :=
  let diff := currentTime - serverTime
  let roundTripTime := currentTime - s.requestLastSent
  match s.timeDiffs.slot s.sumIndex with
  | some oldDiff =>
    match s.roundTripTimes.slot s.sumIndex with
    | none => none
    | some oldRoundTrip =>
      some (s.record diff roundTripTime (s.timeDiffSum - oldDiff)
        (s.roundTripTimeSum - oldRoundTrip) historySize)
  | none =>
    some (s.record diff roundTripTime s.timeDiffSum s.roundTripTimeSum (s.sumIndex + 1 : ℕ))

end Sync

inductive SyncEvent where
  | clockSyncGet (elapsed : ℚ)
  | clockSyncSet (serverTime elapsed : ℚ)

def Sync.step (s : Sync) : SyncEvent → Option Sync
  | .clockSyncGet elapsed => some { s with requestLastSent := elapsed }
  | .clockSyncSet serverTime elapsed => s.clockSyncSet serverTime elapsed

structure Sample where
  diff : ℚ
  roundTripTime : ℚ
  deriving DecidableEq

/-- What the replies say, given when the last request before them was sent. -/
def samples (requestLastSent : ℚ) : List SyncEvent → List Sample
  | [] => []
  | .clockSyncGet elapsed :: es => samples elapsed es
  | .clockSyncSet serverTime elapsed :: es =>
    ⟨elapsed - serverTime, elapsed - requestLastSent⟩ :: samples requestLastSent es

def mean (l : List ℚ) : ℚ := l.sum / l.length

/-- The difference is `trueDiff`, and the two ways of the message differ by `skew` at most. -/
def Sample.Within (trueDiff skew : ℚ) (p : Sample) : Prop :=
  ∃ up down, p.diff = trueDiff + down ∧ p.roundTripTime = up + down ∧ |down - up| ≤ skew

/-- A value of timeDiff that estimates the difference from the newest samples. -/
structure Estimates (timeDiff : ℚ) (taken : List Sample) : Prop where
  means : timeDiff = mean ((taken.rtake historySize).map Sample.diff) -
    mean ((taken.rtake historySize).map Sample.roundTripTime) / 2
  bound : ∀ trueDiff skew, (∀ p ∈ taken, p.Within trueDiff skew) →
    |timeDiff - trueDiff| ≤ skew / 2

section Means

def Sample.estimate (p : Sample) : ℚ := p.diff - p.roundTripTime / 2

theorem estimate_within {trueDiff skew : ℚ} {p : Sample} (within : p.Within trueDiff skew) :
    |p.estimate - trueDiff| ≤ skew / 2 := by
  obtain ⟨up, down, diff, roundTripTime, close⟩ := within
  have half : p.estimate - trueDiff = (down - up) / 2 := by
    rw [Sample.estimate, diff, roundTripTime]
    ring
  rw [half, abs_div, abs_of_pos (zero_lt_two : (0 : ℚ) < 2)]
  linarith

theorem mean_estimate (l : List Sample) :
    mean (l.map Sample.diff) - mean (l.map Sample.roundTripTime) / 2 =
      mean (l.map Sample.estimate) := by
  have sums : (l.map Sample.estimate).sum =
      (l.map Sample.diff).sum - (l.map Sample.roundTripTime).sum / 2 := by
    induction l with
    | nil => simp
    | cons p l ih =>
      simp only [List.map_cons, List.sum_cons, ih, Sample.estimate]
      ring
  simp only [mean, List.length_map, sums]
  ring

theorem mean_near {l : List ℚ} {point distance : ℚ} (filled : l ≠ [])
    (near : ∀ x ∈ l, |x - point| ≤ distance) : |mean l - point| ≤ distance := by
  have total : ∀ k : List ℚ, (∀ x ∈ k, |x - point| ≤ distance) →
      |k.sum - k.length * point| ≤ k.length * distance := by
    intro k close
    induction k with
    | nil => simp
    | cons x k ih =>
      have first := abs_le.mp (close x List.mem_cons_self)
      have rest := abs_le.mp (ih fun y mem => close y (List.mem_cons_of_mem x mem))
      apply abs_le.mpr
      simp only [List.sum_cons, List.length_cons, Nat.cast_add, Nat.cast_one]
      constructor
      · linarith
      · linarith
  have count : (0 : ℚ) < l.length := by
    exact_mod_cast List.length_pos_of_ne_nil filled
  have split : mean l - point = (l.sum - l.length * point) / l.length := by
    unfold mean
    field_simp
  rw [split, abs_div, abs_of_pos count, div_le_iff₀ count, mul_comm distance]
  exact total l near

theorem estimates {timeDiff : ℚ} {taken : List Sample} (replied : taken ≠ [])
    (means : timeDiff = mean ((taken.rtake historySize).map Sample.diff) -
      mean ((taken.rtake historySize).map Sample.roundTripTime) / 2) :
    Estimates timeDiff taken where
  means := means
  bound := by
    intro trueDiff skew within
    rw [means, mean_estimate]
    apply mean_near
    · have longer : 0 < taken.length := List.length_pos_of_ne_nil replied
      intro none
      have : (taken.rtake historySize).length = 0 := by simpa using none
      rw [List.rtake, List.length_drop] at this
      have : 0 < historySize := by decide
      omega
    · intro x mem
      obtain ⟨p, newest, rfl⟩ := List.mem_map.mp mem
      exact estimate_within (within p (List.mem_of_mem_drop newest))

end Means

/-- The rings hold the newest samples that have come in, and the sums are theirs. -/
structure Sync.Keeps (s : Sync) (taken : List Sample) : Prop where
  size : s.timeDiffs.size = historySize
  size' : s.roundTripTimes.size = historySize
  diffs : Newest (taken.map Sample.diff) s.sumIndex s.timeDiffs
  roundTripTimes : Newest (taken.map Sample.roundTripTime) s.sumIndex s.roundTripTimes
  diffSum : s.timeDiffSum = ((taken.map Sample.diff).rtake historySize).sum
  roundTripTimeSum :
    s.roundTripTimeSum = ((taken.map Sample.roundTripTime).rtake historySize).sum

theorem startSync_keeps (elapsed : ℚ) : (Sync.startSync elapsed).Keeps [] where
  size := size_clear historySize
  size' := size_clear historySize
  diffs := newest_clear (by decide)
  roundTripTimes := newest_clear (by decide)
  diffSum := rfl
  roundTripTimeSum := rfl

theorem Sync.Keeps.get {s : Sync} {taken : List Sample} (keeps : s.Keeps taken) (elapsed : ℚ) :
    Sync.Keeps { s with requestLastSent := elapsed } taken where
  size := keeps.size
  size' := keeps.size'
  diffs := keeps.diffs
  roundTripTimes := keeps.roundTripTimes
  diffSum := keeps.diffSum
  roundTripTimeSum := keeps.roundTripTimeSum

theorem rtake_map (f : Sample → ℚ) (taken : List Sample) (n : ℕ) :
    ((taken.map f).rtake n) = (taken.rtake n).map f := by
  simp [List.rtake, List.map_drop]

theorem record_keeps {s : Sync} {taken : List Sample} (keeps : s.Keeps taken) (p : Sample)
    {diffSum roundTripSum n : ℚ}
    (diffs : diffSum + p.diff = (((taken ++ [p]).map Sample.diff).rtake historySize).sum)
    (roundTrips : roundTripSum + p.roundTripTime =
      (((taken ++ [p]).map Sample.roundTripTime).rtake historySize).sum) :
    (s.record p.diff p.roundTripTime diffSum roundTripSum n).Keeps (taken ++ [p]) where
  size := by simpa [Sync.record, WrapArray.setSlot, WrapArray.size] using keeps.size
  size' := by simpa [Sync.record, WrapArray.setSlot, WrapArray.size] using keeps.size'
  diffs := by
    have pushed := keeps.diffs.push p.diff
    rw [keeps.size] at pushed
    simpa [Sync.record] using pushed
  roundTripTimes := by
    have pushed := keeps.roundTripTimes.push p.roundTripTime
    rw [keeps.size'] at pushed
    simpa [Sync.record] using pushed
  diffSum := diffs
  roundTripTimeSum := roundTrips

theorem record_estimates {s : Sync} {taken : List Sample} (p : Sample)
    {diffSum roundTripSum n : ℚ}
    (diffs : diffSum + p.diff = (((taken ++ [p]).map Sample.diff).rtake historySize).sum)
    (roundTrips : roundTripSum + p.roundTripTime =
      (((taken ++ [p]).map Sample.roundTripTime).rtake historySize).sum)
    (count : n = ((taken ++ [p]).rtake historySize).length) :
    Estimates (s.record p.diff p.roundTripTime diffSum roundTripSum n).timeDiff
      (taken ++ [p]) := by
  apply estimates (by simp)
  change (diffSum + p.diff) / n - (roundTripSum + p.roundTripTime) / (2 * n) = _
  rw [diffs, roundTrips, count, rtake_map, rtake_map, mean, mean, List.length_map, List.length_map]
  ring

theorem clockSyncSet_estimates {s : Sync} {taken : List Sample} (keeps : s.Keeps taken)
    (serverTime elapsed : ℚ) : ∃ next, s.clockSyncSet serverTime elapsed = some next ∧
      next.requestLastSent = s.requestLastSent ∧
      next.Keeps (taken ++ [⟨elapsed - serverTime, elapsed - s.requestLastSent⟩]) ∧
      Estimates next.timeDiff
        (taken ++ [⟨elapsed - serverTime, elapsed - s.requestLastSent⟩]) := by
  generalize sample : (⟨elapsed - serverTime, elapsed - s.requestLastSent⟩ : Sample) = p
  have diff : elapsed - serverTime = p.diff := by rw [← sample]
  have roundTrip : elapsed - s.requestLastSent = p.roundTripTime := by rw [← sample]
  have wide : 0 < historySize := by decide
  unfold Sync.clockSyncSet
  simp only [diff, roundTrip]
  by_cases short : taken.length < historySize
  · have fresh := keeps.diffs.slot_fresh (by simpa [keeps.size] using short)
    have index : s.sumIndex = taken.length := by
      simpa [keeps.size, Nat.mod_eq_of_lt short] using keeps.diffs.next
    have diffs : s.timeDiffSum + p.diff =
        (((taken ++ [p]).map Sample.diff).rtake historySize).sum := by
      rw [List.map_append, List.map_singleton, sum_rtake_short _ (by simpa using short),
        keeps.diffSum]
    have roundTrips : s.roundTripTimeSum + p.roundTripTime =
        (((taken ++ [p]).map Sample.roundTripTime).rtake historySize).sum := by
      rw [List.map_append, List.map_singleton, sum_rtake_short _ (by simpa using short),
        keeps.roundTripTimeSum]
    rw [fresh]
    refine ⟨_, rfl, rfl, record_keeps keeps p diffs roundTrips,
      record_estimates p diffs roundTrips ?_⟩
    rw [index, List.rtake, List.length_drop, List.length_append, List.length_singleton]
    congr 1
    omega
  · have full : historySize ≤ taken.length := not_lt.mp short
    have inside : taken.length - historySize < taken.length := by omega
    have oldest : taken[taken.length - historySize]? = some _ := List.getElem?_eq_getElem inside
    generalize taken[taken.length - historySize] = q at oldest
    have oldDiff : (taken.map Sample.diff)[(taken.map Sample.diff).length - historySize]? =
        some q.diff := by simp [oldest]
    have oldRoundTrip : (taken.map Sample.roundTripTime)[
        (taken.map Sample.roundTripTime).length - historySize]? = some q.roundTripTime := by
      simp [oldest]
    have diffSlot : s.timeDiffs.slot s.sumIndex = some q.diff := by
      rw [keeps.diffs.slot_oldest (by simpa [keeps.size] using full), keeps.size, oldDiff]
    have roundTripSlot : s.roundTripTimes.slot s.sumIndex = some q.roundTripTime := by
      rw [keeps.roundTripTimes.slot_oldest (by simpa [keeps.size'] using full), keeps.size',
        oldRoundTrip]
    have diffs : s.timeDiffSum - q.diff + p.diff =
        (((taken ++ [p]).map Sample.diff).rtake historySize).sum := by
      rw [List.map_append, List.map_singleton,
        sum_rtake_full _ wide (by simpa using full) oldDiff, keeps.diffSum]
    have roundTrips : s.roundTripTimeSum - q.roundTripTime + p.roundTripTime =
        (((taken ++ [p]).map Sample.roundTripTime).rtake historySize).sum := by
      rw [List.map_append, List.map_singleton,
        sum_rtake_full _ wide (by simpa using full) oldRoundTrip, keeps.roundTripTimeSum]
    rw [diffSlot, roundTripSlot]
    refine ⟨_, rfl, rfl, record_keeps keeps p diffs roundTrips,
      record_estimates p diffs roundTrips ?_⟩
    rw [List.rtake, List.length_drop, List.length_append, List.length_singleton]
    congr 1
    omega

structure Sync.Follows (s : Sync) (taken : List Sample) : Prop where
  keeps : s.Keeps taken
  estimates : taken ≠ [] → Estimates s.timeDiff taken

theorem sync_run (es : List SyncEvent) {s : Sync} {taken : List Sample}
    (follows : s.Follows taken) : ∃ t, run Sync.step s es = some t ∧
      t.Follows (taken ++ samples s.requestLastSent es) := by
  induction es generalizing s taken with
  | nil => exact ⟨s, rfl, by simpa [samples] using follows⟩
  | cons e es ih =>
    cases e with
    | clockSyncGet elapsed =>
      have sent : Sync.Follows { s with requestLastSent := elapsed } taken :=
        ⟨follows.keeps.get elapsed, follows.estimates⟩
      obtain ⟨t, ran, after⟩ := ih sent
      exact ⟨t, run_cons.mpr ⟨_, rfl, ran⟩, after⟩
    | clockSyncSet serverTime elapsed =>
      obtain ⟨next, step, unsent, keeps, estimates⟩ :=
        clockSyncSet_estimates follows.keeps serverTime elapsed
      obtain ⟨t, ran, after⟩ := ih ⟨keeps, fun _ => estimates⟩
      rw [List.append_assoc, unsent] at after
      exact ⟨t, run_cons.mpr ⟨next, step, ran⟩, after⟩

/-- Whatever replies come in, timeDiff is the estimate from the newest of them. -/
theorem timeDiff_estimates (sent : ℚ) (es : List SyncEvent) (replied : samples sent es ≠ []) :
    ∃ s, run Sync.step (Sync.startSync sent) es = some s ∧
      Estimates s.timeDiff (samples sent es) := by
  have start : (Sync.startSync sent).Follows [] :=
    ⟨startSync_keeps sent, fun none => (none rfl).elim⟩
  obtain ⟨s, ran, follows⟩ := sync_run es start
  exact ⟨s, ran, follows.estimates replied⟩

def fiveAhead : List SyncEvent := [.clockSyncSet 30 360, .clockSyncGet 365, .clockSyncSet 95 425]

theorem timeDiff_estimates_ahead :
    ∃ s, run Sync.step (Sync.startSync 300) fiveAhead = some s ∧
      Estimates s.timeDiff (samples 300 fiveAhead) :=
  timeDiff_estimates 300 fiveAhead (by decide +kernel)

end SCLOrkClock
