import SCLOrkTools.Clock.State

/- The server's side of one cohort: the entry of cohortStateMap under its name, which is all
   that a request about the cohort reads or writes. -/
namespace SCLOrkClock
open Schedules

inductive Request where
  | getAll
  | create (state : SCLOrkClockState)
  | change (state : SCLOrkClockState)
  deriving DecidableEq

/-- All three are a /clockUpdate. The tag says who sent it, and no handler reads it. -/
inductive Update where
  | relayed (state : SCLOrkClockState)
  | current (state : SCLOrkClockState)
  | queued (state : SCLOrkClockState)
  deriving DecidableEq

def Update.state : Update → SCLOrkClockState
  | relayed state | current state | queued state => state

def Cohort.prGroomState (c : Cohort) (elapsed : ℚ) : Cohort := c.promote (beatAt elapsed)

/-- Where /clockChange puts a new state before it grooms. -/
def Cohort.accept (c : Cohort) (newState : SCLOrkClockState) : Cohort :=
  if newState.applyAtBeat ≤ c.current.applyAtBeat then { c with current := newState }
  else c.put newState

def Cohort.clockChange (c : Cohort) (newState : SCLOrkClockState) (elapsed : ℚ) : Cohort :=
  (c.accept newState).prGroomState elapsed

def Cohort.new (state : SCLOrkClockState) : Cohort := ⟨state, PriorityQueue.empty⟩

theorem new_ordered (state : SCLOrkClockState) : (Cohort.new state).Ordered :=
  List.pairwise_singleton _ _

theorem new_running {state : SCLOrkClockState} (positive : 0 < state.tempo) :
    Running (Cohort.new state) := by
  intro s member
  rw [List.mem_singleton.mp member]
  exact positive

theorem accept_running {c : Cohort} {s : SCLOrkClockState} (running : Running c)
    (positive : 0 < s.tempo) : Running (c.accept s) := by
  unfold Cohort.accept
  split
  · exact replace_running running positive
  · exact put_running running positive

theorem accept_ordered {c : Cohort} (s : SCLOrkClockState) (ordered : c.Ordered) :
    (c.accept s).Ordered := by
  unfold Cohort.accept
  split
  · rename_i replaced
    exact Schedule.replace_ordered ordered replaced
  · rename_i later
    exact Schedule.put_ordered ordered (not_le.mp later).le

/-- What the server keeps for the cohort once it has handled a request. -/
def handle (cohort : Option Cohort) (r : Request) (elapsed : ℚ) : Option Cohort :=
  match r, cohort with
  | .getAll, none => none
  | .getAll, some c => some (c.prGroomState elapsed)
  | .create state, none => some (Cohort.new state)
  | .create _, some c => some (c.prGroomState elapsed)
  | .change _, none => none
  | .change state, some c => some (c.clockChange state elapsed)

def Cohort.prSendState (c : Cohort) (order : List SCLOrkClockState) : List Update :=
  .current c.current :: order.map .queued

def reply (cohort : Option Cohort) (r : Request) (elapsed : ℚ)
    (order : List SCLOrkClockState) : List Update :=
  match r, cohort with
  | .getAll, some c | .create _, some c => (c.prGroomState elapsed).prSendState order
  | _, _ => []

def prSendAll (cohort : Option Cohort) (r : Request) : List Update :=
  match r, cohort with
  | .create state, none => [.relayed state]
  | .change state, some _ => [.relayed state]
  | _, _ => []

/-- The change is for a later beat than the current state, or for the very beat that the
    current state, already running, began at. -/
def Cohort.Forward (c : Cohort) (newState : SCLOrkClockState) (elapsed : ℚ) : Prop :=
  c.current.applyAtBeat < newState.applyAtBeat ∨
    c.current.applyAtBeat = newState.applyAtBeat ∧
      newState.applyAtBeat ≤ c.current.secs2beats elapsed 0

instance (c : Cohort) (newState : SCLOrkClockState) (elapsed : ℚ) :
    Decidable (c.Forward newState elapsed) :=
  inferInstanceAs (Decidable (_ ∨ _))

theorem clockChange_forward {c : Cohort} {newState : SCLOrkClockState} {elapsed : ℚ}
    (settled : c.Settled (beatAt elapsed)) (forward : c.Forward newState elapsed) :
    c.clockChange newState elapsed = (c.put newState).promote (beatAt elapsed) := by
  unfold Cohort.clockChange Cohort.accept
  rcases forward with later | ⟨same, started⟩
  · rw [if_neg (not_le.mpr later)]
    rfl
  · rw [if_pos same.ge]
    exact (Schedule.promote_put_due settled started).symm

end SCLOrkClock
