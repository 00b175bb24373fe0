import SCLOrkTools.Library.GuardedRun
import SCLOrkTools.Clock.Client

/- One cohort on the server and on a member that has every change relayed to it in order and
   reads the same beat. The two decide alike about a change that is not for an earlier beat than
   the current state began at. -/
namespace SCLOrkClock
open Schedules GuardedRun

/-- What a member that reads the same beat as the server reads, whatever state is current. -/
def synced (timeDiff elapsed : ℚ) (s : SCLOrkClockState) : ℚ := s.secs2beats elapsed timeDiff

theorem synced_server (timeDiff time : ℚ) :
    synced timeDiff (serverToLocalTime timeDiff time) = beatAt time :=
  funext fun s => s.secs2beats_local time timeDiff

structure Ensemble where
  server : Cohort
  client : Clock
  deriving DecidableEq

structure Tick where
  change : SCLOrkClockState
  time : ℚ
  deriving DecidableEq

def Ensemble.promoted (e : Ensemble) (timeDiff time : ℚ) : Ensemble where
  server := e.server.prGroomState time
  client := e.client.prAdvanceState (synced timeDiff (serverToLocalTime timeDiff time))

/-- The handler of /clockChange grooms by itself; the member's timer runs after prUpdate. -/
def Ensemble.relay (e : Ensemble) (timeDiff : ℚ) (t : Tick) : Ensemble where
  server := e.server.clockChange t.change t.time
  client :=
    let beats := synced timeDiff (serverToLocalTime timeDiff t.time)
    (e.client.prUpdate t.change beats).prAdvanceState beats

def Ensemble.step (timeDiff : ℚ) (e : Ensemble) (t : Tick) : Option Ensemble :=
  some ((e.promoted timeDiff t.time).relay timeDiff t)

def Ensemble.OnTime (e : Ensemble) (t : Tick) : Prop :=
  (e.server.prGroomState t.time).Forward t.change t.time

section Step
variable {timeDiff : ℚ} {e f : Ensemble} {t : Tick}

theorem step_agrees (agree : e.client = e.server) (onTime : e.OnTime t)
    (step : e.step timeDiff t = some f) : f.client = f.server := by
  cases step
  have settled := Schedule.promote_settled (beatAt t.time) e.server
  have kept : (e.server.prGroomState t.time).current.applyAtBeat ≤ t.change.applyAtBeat := by
    rcases onTime with later | ⟨same, -⟩
    · exact later.le
    · exact same.le
  simp only [Ensemble.promoted, Ensemble.relay, synced_server, agree]
  exact (prUpdate_taken settled kept).trans (clockChange_forward settled onTime).symm

/-- The server makes the change current. The member drops it, or queues it when it is for the
    beat of a current state that has not begun. -/
theorem step_disagrees (agree : e.client = e.server) (late : ¬ e.OnTime t)
    (step : e.step timeDiff t = some f) : f.client ≠ f.server := by
  cases step
  simp only [Ensemble.promoted, Ensemble.relay, synced_server, agree]
  change Clock.prAdvanceState (Clock.prUpdate (e.server.promote (beatAt t.time)) _ _) _ ≠
    Cohort.clockChange (e.server.promote (beatAt t.time)) _ _
  have settled := Schedule.promote_settled (beatAt t.time) e.server
  unfold Ensemble.OnTime Cohort.Forward Cohort.prGroomState at late
  obtain ⟨notLater, notStarted⟩ := not_or.mp late
  have replaced : t.change.applyAtBeat ≤ (e.server.promote (beatAt t.time)).current.applyAtBeat :=
    not_lt.mp notLater
  rw [Cohort.clockChange, Cohort.accept, if_pos replaced]
  generalize e.server.promote (beatAt t.time) = c at settled notStarted replaced ⊢
  rcases replaced.lt_or_eq with earlier | same
  · rw [prUpdate_dropped earlier]
    change c.promote (beatAt t.time) ≠ _
    rw [Schedule.promote_of_settled settled]
    exact Schedule.ne_replace earlier
  · have waits : beatAt t.time c.current < t.change.applyAtBeat :=
      not_le.mp fun started => notStarted ⟨same.symm, started⟩
    rw [prUpdate_taken settled same.ge,
      Schedule.promote_of_settled (Schedule.put_settled settled waits)]
    exact Schedule.put_ne_replace

end Step

/-- From a state in which the two agree, they agree after every change exactly when no change
    is for an earlier beat than the current state's. -/
theorem cohort_agrees_iff {timeDiff : ℚ} {e : Ensemble} {ts : List Tick}
    (known : e.client = e.server) :
    (∀ pre post f, ts = pre ++ post → run (Ensemble.step timeDiff) e pre = some f →
      f.client.current = f.server.current ∧ f.client.queue = f.server.queue) ↔
      Along (Ensemble.step timeDiff) Ensemble.OnTime e ts := by
  constructor
  · intro agrees
    rw [along_iff_prefixes]
    intro pre t post shape f front
    by_contra late
    obtain ⟨current, queue⟩ := agrees pre (t :: post) f shape front
    have agree : f.client = f.server := Schedule.ext current (congrArg _ queue)
    have whole : ts = (pre ++ [t]) ++ post := by simp [shape]
    have next := agrees (pre ++ [t]) post _ whole (run_snoc.mpr ⟨f, front, rfl⟩)
    exact step_disagrees agree late rfl (Schedule.ext next.1 (congrArg _ next.2))
  · intro onTime pre post f shape front
    subst shape
    have agree : f.client = f.server :=
      run_invariant (fun e => e.client = e.server)
        (fun _ _ _ agree onTime step => step_agrees agree onTime step) known
        (along_append.mp onTime).1 front
    exact ⟨congrArg Schedule.current agree, congrArg Schedule.queue agree⟩

/-- A state that starts at its beat when a clock at one beat a second reads it. -/
def atBeat (beat tempo : ℚ) : SCLOrkClockState :=
  { SCLOrkClockState.new "default" beat tempo 4 with applyAtBeat := beat }

def created : Ensemble where
  server := Cohort.new (atBeat 0 1)
  client := Clock.prInit (atBeat 0 1)

theorem cohort_agrees_iff_created :
    (∀ pre post f, [⟨atBeat 10 2, 1⟩, ⟨atBeat 12 3, 2⟩] = pre ++ post →
      run (Ensemble.step 5) created pre = some f →
      f.client.current = f.server.current ∧ f.client.queue = f.server.queue) ↔
      Along (Ensemble.step 5) Ensemble.OnTime created [⟨atBeat 10 2, 1⟩, ⟨atBeat 12 3, 2⟩] :=
  cohort_agrees_iff rfl

/-- At twelve seconds the change for beat ten is in force on both sides. One for beat five
    takes its place on the server alone. -/
theorem past_change_splits : ∃ f,
    run (Ensemble.step 5) created [⟨atBeat 10 2, 1⟩, ⟨atBeat 5 3, 12⟩] = some f ∧
      f.client.current ≠ f.server.current :=
  ⟨_, rfl, by decide +kernel⟩

end SCLOrkClock
