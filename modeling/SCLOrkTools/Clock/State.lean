import Mathlib.Algebra.Order.Field.Rat
import Mathlib.Tactic.Linarith
import Mathlib.Tactic.FieldSimp
import Mathlib.Tactic.Ring
import SCLOrkTools.Library.Schedule

/- The state of a clock: from a beat and a time on, beats pass at a tempo. Beats, times and
   tempos are exact rationals, and a message carries a state as it is. -/
namespace SCLOrkClock
open Schedules

structure SCLOrkClockState where
  cohortName : String
  applyAtBeat : ℚ
  applyAtTime : ℚ
  tempo : ℚ
  beatsPerBar : ℚ
  baseBar : ℚ
  baseBarBeat : ℚ
  deriving DecidableEq

namespace SCLOrkClockState

/-- The arguments that the callers leave out have their defaults. -/
def new (cohortName : String) (applyAtTime tempo beatsPerBar : ℚ) : SCLOrkClockState where
  cohortName := cohortName
  applyAtBeat := 0
  applyAtTime := applyAtTime
  tempo := tempo
  beatsPerBar := beatsPerBar
  baseBar := 0
  baseBarBeat := 0

def beats2secs (s : SCLOrkClockState) (beats timeDiff : ℚ) : ℚ :=
  s.applyAtTime + (beats - s.applyAtBeat) / s.tempo + timeDiff

def secs2beats (s : SCLOrkClockState) (secs timeDiff : ℚ) : ℚ :=
  s.applyAtBeat + s.tempo * (secs - timeDiff - s.applyAtTime)

def setTempoAtBeat (s : SCLOrkClockState) (newTempo beats : ℚ) : SCLOrkClockState where
  cohortName := s.cohortName
  applyAtBeat := beats
  applyAtTime := s.beats2secs beats 0
  tempo := newTempo
  beatsPerBar := s.beatsPerBar
  baseBar := s.baseBar
  baseBarBeat := s.baseBarBeat

theorem secs2beats_mono {s : SCLOrkClockState} (positive : 0 < s.tempo) {secs later timeDiff : ℚ}
    (order : secs ≤ later) : s.secs2beats secs timeDiff ≤ s.secs2beats later timeDiff := by
  unfold secs2beats
  have := mul_le_mul_of_nonneg_left (sub_le_sub_right order (timeDiff + s.applyAtTime)) positive.le
  linarith

theorem secs2beats_beats2secs {s : SCLOrkClockState} (running : s.tempo ≠ 0)
    (beats timeDiff : ℚ) : s.secs2beats (s.beats2secs beats timeDiff) timeDiff = beats := by
  unfold secs2beats beats2secs
  field_simp
  ring

theorem secs2beats_local (s : SCLOrkClockState) (secs timeDiff : ℚ) :
    s.secs2beats (secs + timeDiff) timeDiff = s.secs2beats secs 0 := by
  simp [secs2beats]

end SCLOrkClockState

abbrev Cohort := Schedule SCLOrkClockState.applyAtBeat

/-- Every state in it has a positive tempo. -/
def Running (c : Cohort) : Prop := ∀ s ∈ c.line, 0 < s.tempo

theorem put_running {c : Cohort} {q : SCLOrkClockState} (running : Running c)
    (positive : 0 < q.tempo) : Running (c.put q) := by
  intro s member
  rcases List.mem_cons.mp member with rfl | waits
  · exact running _ List.mem_cons_self
  · rcases PriorityQueue.mem_insert.mp waits with rfl | before
    · exact positive
    · exact running s (List.mem_cons_of_mem _ before)

theorem promote_running {c : Cohort} (running : Running c) (read : SCLOrkClockState → ℚ) :
    Running (c.promote read) :=
  fun s member => running s ((Schedule.promote_suffix read c).subset member)

theorem replace_running {c : Cohort} {s : SCLOrkClockState} (running : Running c)
    (positive : 0 < s.tempo) : Running { c with current := s } := by
  intro r member
  rcases List.mem_cons.mp member with rfl | waits
  · exact positive
  · exact running r (List.mem_cons_of_mem _ waits)

def beatAt (time : ℚ) (s : SCLOrkClockState) : ℚ := s.secs2beats time 0

theorem beatAt_mono {c : Cohort} (running : Running c) {time later : ℚ} (order : time ≤ later) :
    ∀ s ∈ c.line, beatAt time s ≤ beatAt later s :=
  fun s member => SCLOrkClockState.secs2beats_mono (running s member) order

end SCLOrkClock
