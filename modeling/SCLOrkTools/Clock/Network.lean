import Mathlib.Logic.Function.Basic
import SCLOrkTools.Library.GuardedRun
import SCLOrkTools.Clock.Client

/- The server and the members of one cohort. A wire keeps the order of what is sent on it.
   Every event happens at a time of the server, and a member's local time differs from that
   by its timeDiff. -/
namespace SCLOrkClock
open Schedules GuardedRun

/-- `connected` says that the member's wire is in wireMap. -/
structure Member where
  timeDiff : ℚ
  connected : Bool
  clock : Option Clock
  inbox : List Update
  outbox : List Request

structure Network (ι : Type) where
  now : ℚ
  cohort : Option Cohort
  member : ι → Member

/-- What can happen: the server hears that a wire is connected, a member does, a member calls
    SCLOrkClock.new or setTempoAtBeat, the server handles the next request of a member, a
    member handles its next update, the timer of a member's clock fires. In the last two
    `beats` is what this.beats reads on the clock meanwhile, whatever that is. -/
inductive Act (ι : Type) where
  | connect (i : ι)
  | getAll (i : ι)
  | new (i : ι) (cohortName : String) (tempo beatsPerBar : ℚ)
  | setTempoAtBeat (i : ι) (newTempo beats : ℚ)
  | serve (i : ι) (order : List SCLOrkClockState)
  | deliver (i : ι) (beats : ℚ)
  | advance (i : ι) (beats : ℚ)

structure Event (ι : Type) where
  act : Act ι
  time : ℚ

def waiting (cohort : Option Cohort) (r : Request) (time : ℚ) : List SCLOrkClockState :=
  match r, cohort with
  | .getAll, some c | .create _, some c => (c.prGroomState time).queue.items
  | _, _ => []

variable {ι : Type} [DecidableEq ι]

def Network.set (s : Network ι) (i : ι) (m : Member) : Network ι :=
  { s with member := Function.update s.member i m }

def Network.broadcast (s : Network ι) (updates : List Update) : Network ι :=
  { s with member := fun i =>
      if (s.member i).connected then
        { s.member i with inbox := (s.member i).inbox ++ updates }
      else s.member i }

def Network.serve (s : Network ι) (i : ι) (r : Request) (rest : List Request)
    (order : List SCLOrkClockState) : Network ι :=
  let m := s.member i
  let answered := { m with outbox := rest, inbox := m.inbox ++ reply s.cohort r s.now order }
  { (s.set i answered).broadcast (prSendAll s.cohort r) with
    cohort := handle s.cohort r s.now }

def Network.act (s : Network ι) : Act ι → Option (Network ι)
  | .connect i => some (s.set i { s.member i with connected := true })
  | .getAll i => some (s.set i { s.member i with outbox := (s.member i).outbox ++ [.getAll] })
  | .new i cohortName tempo beatsPerBar =>
    let m := s.member i
    let made := newClock m.clock cohortName tempo beatsPerBar m.timeDiff
      (serverToLocalTime m.timeDiff s.now)
    some (s.set i { m with clock := made.1, outbox := m.outbox ++ made.2 })
  | .setTempoAtBeat i newTempo beats =>
    (s.member i).clock.map fun c =>
      s.set i { s.member i with
        outbox := (s.member i).outbox ++ [c.setTempoAtBeat newTempo beats] }
  | .serve i order =>
    match (s.member i).outbox with
    | [] => none
    | r :: rest =>
      if order.Perm (waiting s.cohort r s.now) then some (s.serve i r rest order) else none
  | .deliver i beats =>
    match (s.member i).inbox with
    | [] => none
    | u :: rest =>
      some (s.set i { s.member i with
        clock := clockUpdate (s.member i).clock u.state fun _ => beats
        inbox := rest })
  | .advance i beats =>
    (s.member i).clock.map fun c =>
      s.set i { s.member i with clock := some (c.prAdvanceState fun _ => beats) }

def Network.step (s : Network ι) (e : Event ι) : Option (Network ι) :=
  if s.now ≤ e.time then Network.act { s with now := e.time } e.act else none

@[simp] theorem set_now (s : Network ι) (i : ι) (m : Member) : (s.set i m).now = s.now := rfl
@[simp] theorem set_cohort (s : Network ι) (i : ι) (m : Member) :
    (s.set i m).cohort = s.cohort := rfl

@[simp] theorem set_member (s : Network ι) (i : ι) (m : Member) : (s.set i m).member i = m := by
  simp [Network.set]

theorem set_other (s : Network ι) {i j : ι} (m : Member) (other : j ≠ i) :
    (s.set i m).member j = s.member j := by
  simp [Network.set, other]

end SCLOrkClock
