import SCLOrkTools.Clock.Server

/- A member's clock of one cohort: the entry of clockMap under its name. TempoClock is outside
   the sources: it counts by a line of its own, which beatSyncTask sets from time to time. What
   this.beats reads from it is an argument, one reading for each state that may be current when
   it is read. -/
namespace SCLOrkClock
open Schedules

abbrev Clock := Schedule SCLOrkClockState.applyAtBeat

def serverToLocalTime (timeDiff serverTime : ℚ) : ℚ := serverTime + timeDiff

def localToServerTime (timeDiff localTime : ℚ) : ℚ := localTime - timeDiff

def Clock.prInit (state : SCLOrkClockState) : Clock := ⟨state, PriorityQueue.empty⟩

def Clock.prUpdate (c : Clock) (newState : SCLOrkClockState)
    (beats : SCLOrkClockState → ℚ) : Clock :=
  if newState.applyAtBeat ≥ c.current.applyAtBeat then
    if newState.applyAtBeat ≤ beats c.current then { c with current := newState }
    else c.put newState
  else c

/-- Scheduled by prScheduleStateChange for the time the first waiting state is due. -/
def Clock.prAdvanceState (c : Clock) (beats : SCLOrkClockState → ℚ) : Clock := c.promote beats

def Clock.setTempoAtBeat (c : Clock) (newTempo beats : ℚ) : Request :=
  .change (c.current.setTempoAtBeat newTempo beats)

def clockUpdate (clock : Option Clock) (state : SCLOrkClockState)
    (beats : SCLOrkClockState → ℚ) : Option Clock :=
  match clock with
  | none => some (Clock.prInit state)
  | some c => some (c.prUpdate state beats)

def newClock (clock : Option Clock) (cohortName : String) (tempo beatsPerBar timeDiff elapsed : ℚ) :
    Option Clock × List Request :=
  match clock with
  | none =>
    let state := SCLOrkClockState.new cohortName (localToServerTime timeDiff elapsed) tempo
      beatsPerBar
    (some (Clock.prInit state), [.create state])
  | some c => (some c, [])

/-- What the timer makes current, when this.beats reads `beats`, has come due by the time of the
    server. -/
def Clock.Punctual (c : Clock) (beats time : ℚ) : Prop :=
  c.taken (fun _ => beats) <+: c.taken (beatAt time)

instance (c : Clock) (beats time : ℚ) : Decidable (c.Punctual beats time) :=
  inferInstanceAs (Decidable (_ <+: _))

theorem prUpdate_dropped {c : Clock} {newState : SCLOrkClockState}
    {beats : SCLOrkClockState → ℚ} (earlier : newState.applyAtBeat < c.current.applyAtBeat) :
    c.prUpdate newState beats = c := if_neg (not_le.mpr earlier)

/-- A clock with nothing due takes a state in as if it were queued and then promoted. -/
theorem prUpdate_taken {c : Clock} {newState : SCLOrkClockState} {beats : SCLOrkClockState → ℚ}
    (settled : c.Settled beats) (kept : c.current.applyAtBeat ≤ newState.applyAtBeat) :
    (c.prUpdate newState beats).prAdvanceState beats = (c.put newState).promote beats := by
  unfold Clock.prUpdate
  rw [if_pos kept]
  split
  · rename_i due
    exact (Schedule.promote_put_due settled due).symm
  · rfl

end SCLOrkClock
