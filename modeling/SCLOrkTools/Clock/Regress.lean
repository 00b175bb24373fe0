import SCLOrkTools.Library.GuardedRun
import SCLOrkTools.Clock.Order

/- Updates and timers of one member's clock in any order. A change that is due takes over from
   the current state at once, also while earlier changes wait for a timer that is late. -/
namespace SCLOrkClock
open Schedules GuardedRun

/-- An update or a timer, with what this.beats reads meanwhile. -/
inductive Turn where
  | update (newState : SCLOrkClockState) (beats : SCLOrkClockState → ℚ)
  | advance (beats : SCLOrkClockState → ℚ)

namespace Clock

def turn (c : Clock) : Turn → Option Clock
  | .update newState beats => some (c.prUpdate newState beats)
  | .advance beats => some (c.prAdvanceState beats)

/-- The loop of prAdvanceState reads before each pop, and once more if a state is left. -/
def readings (c : Clock) : Turn → List ℚ
  | .update newState beats =>
    if newState.applyAtBeat ≥ c.current.applyAtBeat then [beats c.current] else []
  | .advance beats => ((c.current :: c.taken beats).map beats).take c.queue.items.length

def allReadings (c : Clock) : List Turn → List ℚ
  | [] => []
  | t :: ts =>
    c.readings t ++
      match c.turn t with
      | none => []
      | some next => allReadings next ts

/-- The turn goes back to no earlier state, and leaves none waiting. -/
def Onward (c : Clock) (t : Turn) : Prop :=
  ∀ next, c.turn t = some next → c.current.applyAtBeat ≤ next.current.applyAtBeat ∧
    ∀ s ∈ next.queue.items, next.current.applyAtBeat ≤ s.applyAtBeat

/-- An update that takes over at once leaves no earlier change waiting. -/
def InTurn (c : Clock) : Turn → Prop
  | .update newState beats =>
    c.current.applyAtBeat ≤ newState.applyAtBeat → newState.applyAtBeat ≤ beats c.current →
      ∀ s ∈ c.queue.items, newState.applyAtBeat ≤ s.applyAtBeat
  | .advance _ => True

theorem ordered_iff {c : Clock} :
    c.Ordered ↔ ∀ s ∈ c.queue.items, c.current.applyAtBeat ≤ s.applyAtBeat := by
  constructor
  · intro ordered
    exact (List.pairwise_cons.mp ordered).1
  · intro least
    exact List.pairwise_cons.mpr ⟨least, c.queue.sorted⟩

theorem prUpdate_due {c : Clock} {newState : SCLOrkClockState} {beats : SCLOrkClockState → ℚ}
    (kept : c.current.applyAtBeat ≤ newState.applyAtBeat)
    (due : newState.applyAtBeat ≤ beats c.current) :
    c.prUpdate newState beats = { c with current := newState } := by
  rw [Clock.prUpdate, if_pos kept, if_pos due]

theorem prUpdate_waits {c : Clock} {newState : SCLOrkClockState} {beats : SCLOrkClockState → ℚ}
    (kept : c.current.applyAtBeat ≤ newState.applyAtBeat)
    (waits : beats c.current < newState.applyAtBeat) :
    c.prUpdate newState beats = c.put newState := by
  rw [Clock.prUpdate, if_pos kept, if_neg (not_le.mpr waits)]

/-- Of all turns, only an update out of turn goes wrong. -/
theorem onward_iff {c : Clock} {t : Turn} (ordered : c.Ordered) : c.Onward t ↔ c.InTurn t := by
  cases t with
  | advance beats =>
    constructor
    · intro _
      trivial
    · intro _ next turned
      cases turned
      exact ⟨Schedule.current_le_promote beats ordered,
        ordered_iff.mp (Schedule.promote_ordered beats ordered)⟩
  | update newState beats =>
    constructor
    · intro onward kept due
      have after := (onward _ rfl).2
      rw [prUpdate_due kept due] at after
      exact after
    · intro inTurn next turned
      cases turned
      by_cases kept : c.current.applyAtBeat ≤ newState.applyAtBeat
      · by_cases due : newState.applyAtBeat ≤ beats c.current
        · rw [prUpdate_due kept due]
          exact ⟨kept, inTurn kept due⟩
        · rw [prUpdate_waits kept (not_le.mp due)]
          exact ⟨le_refl _, ordered_iff.mp (Schedule.put_ordered ordered kept)⟩
      · rw [prUpdate_dropped (not_le.mp kept)]
        exact ⟨le_refl _, ordered_iff.mp ordered⟩

theorem prInit_ordered (state : SCLOrkClockState) : (Clock.prInit state).Ordered :=
  List.pairwise_singleton _ _

/-- A clock never goes back exactly when every update comes in turn. -/
theorem never_regresses_iff (state : SCLOrkClockState) (ts : List Turn) :
    Along turn Onward (Clock.prInit state) ts ↔ Along turn InTurn (Clock.prInit state) ts := by
  apply along_iff_along (g := fun _ _ => True) Schedule.Ordered
  · intro c t ordered _
    exact onward_iff ordered
  · intro c t next ordered _ inTurn turned
    exact ordered_iff.mpr ((onward_iff ordered).mpr inTurn next turned).2
  · exact prInit_ordered state
  · exact along_of_all (p := fun _ => True) fun _ _ => trivial

def lateTimer : List Turn :=
  [.update (fasterAt 5) fun _ => 3, .update (fasterAt 7) fun _ => 10, .advance fun _ => 10]

theorem late_timer_regresses :
    ¬ ∀ (state : SCLOrkClockState) (ts : List Turn),
      ((Clock.prInit state).allReadings ts).Pairwise (· ≤ ·) →
        Along turn Onward (Clock.prInit state) ts := by
  intro always
  have steady : (metronome.allReadings lateTimer).Pairwise (· ≤ ·) := by decide +kernel
  have along := always metronome.current lateTimer steady
  have last := ((along.2 _ rfl).2 _ rfl).1 _ rfl
  exact absurd last.1 (by decide +kernel)

end Clock

end SCLOrkClock
