import Mathlib.Data.List.AList
import SCLOrkTools.Clock.Network

/- The server and its clients with all their cohorts. The server keeps them in cohortStateMap and
   a client in clockMap, and one wire carries what is said about any of them. To each cohort this is
   a network of its own. -/
namespace SCLOrkClock
open Schedules GuardedRun

abbrev CohortStateMap := AList fun _ : String => Cohort

structure Peer where
  timeDiff : ℚ
  connected : Bool
  clockMap : AList fun _ : String => Clock
  inbox : List Update
  outbox : List Request

structure Orchestra (ι : Type) where
  now : ℚ
  cohortStateMap : CohortStateMap
  peer : ι → Peer

/-- The events of a network, each about the clock with the name. `orders` gives the cohorts in the
    order in which the loop over cohortStateMap meets them, each with the order in which the loop
    over its queue meets its states. -/
inductive OrchestraAct (ι : Type) where
  | connect (i : ι)
  | getAll (i : ι)
  | new (i : ι) (name : String) (tempo beatsPerBar : ℚ)
  | setTempoAtBeat (i : ι) (name : String) (newTempo beats : ℚ)
  | serve (i : ι) (orders : List (String × List SCLOrkClockState))
  | deliver (i : ι) (beats : ℚ)
  | advance (i : ι) (name : String) (beats : ℚ)

structure OrchestraEvent (ι : Type) where
  act : OrchestraAct ι
  time : ℚ

section Server

def answeredCohorts (cohorts : CohortStateMap) : Request → List String
  | .getAll => cohorts.keys
  | .create state => if (cohorts.lookup state.cohortName).isSome then [state.cohortName] else []
  | .change _ => []

/-- The loop over the cohorts that are sent back: each is groomed, and then its states are sent. -/
def sendStates (elapsed : ℚ) : List (String × List SCLOrkClockState) → CohortStateMap →
    CohortStateMap × List Update
  | [], cohorts => (cohorts, [])
  | (name, order) :: orders, cohorts =>
    match cohorts.lookup name with
    | none => sendStates elapsed orders cohorts
    | some c =>
      let groomed := c.prGroomState elapsed
      let rest := sendStates elapsed orders (cohorts.insert name groomed)
      (rest.1, groomed.prSendState order ++ rest.2)

/-- The cohorts after a request, what goes back and what goes to every wire. -/
def handleRequest (cohorts : CohortStateMap) (r : Request) (elapsed : ℚ)
    (orders : List (String × List SCLOrkClockState)) :
    CohortStateMap × List Update × List Update :=
  match r with
  | .getAll =>
    let sent := sendStates elapsed orders cohorts
    (sent.1, sent.2, [])
  | .create state =>
    match cohorts.lookup state.cohortName with
    | none => (cohorts.insert state.cohortName (Cohort.new state), [], [.relayed state])
    | some _ =>
      let sent := sendStates elapsed orders cohorts
      (sent.1, sent.2, [])
  | .change state =>
    match cohorts.lookup state.cohortName with
    | none => (cohorts, [], [])
    | some c =>
      (cohorts.insert state.cohortName (c.clockChange state elapsed), [], [.relayed state])

def OrdersMeet (cohorts : CohortStateMap) (r : Request) (elapsed : ℚ)
    (orders : List (String × List SCLOrkClockState)) : Prop :=
  (orders.map Prod.fst).Perm (answeredCohorts cohorts r) ∧
    ∀ p ∈ orders, ∀ c ∈ cohorts.lookup p.1, p.2.Perm (c.prGroomState elapsed).queue.items

instance (cohorts : CohortStateMap) (r : Request) (elapsed : ℚ)
    (orders : List (String × List SCLOrkClockState)) :
    Decidable (OrdersMeet cohorts r elapsed orders) :=
  inferInstanceAs (Decidable (_ ∧ _))

end Server

section Steps
variable {ι : Type} [DecidableEq ι]

def Orchestra.set (o : Orchestra ι) (i : ι) (p : Peer) : Orchestra ι :=
  { o with peer := Function.update o.peer i p }

def Orchestra.broadcast (o : Orchestra ι) (updates : List Update) : Orchestra ι :=
  { o with peer := fun i =>
      if (o.peer i).connected then { o.peer i with inbox := (o.peer i).inbox ++ updates }
      else o.peer i }

def Orchestra.serve (o : Orchestra ι) (i : ι) (r : Request) (rest : List Request)
    (orders : List (String × List SCLOrkClockState)) : Orchestra ι :=
  let handled := handleRequest o.cohortStateMap r o.now orders
  let p := o.peer i
  { (o.set i { p with outbox := rest, inbox := p.inbox ++ handled.2.1 }).broadcast handled.2.2 with
    cohortStateMap := handled.1 }

def Peer.clockUpdate (p : Peer) (state : SCLOrkClockState) (beats : ℚ) : Peer :=
  match p.clockMap.lookup state.cohortName with
  | none => { p with clockMap := p.clockMap.insert state.cohortName (Clock.prInit state) }
  | some clock =>
    { p with
      clockMap := p.clockMap.insert state.cohortName
        (clock.prUpdate state fun _ => beats) }

def Peer.new (p : Peer) (name : String) (tempo beatsPerBar now : ℚ) : Peer :=
  match p.clockMap.lookup name with
  | none =>
    let state := SCLOrkClockState.new name
      (localToServerTime p.timeDiff (serverToLocalTime p.timeDiff now)) tempo beatsPerBar
    { p with
      clockMap := p.clockMap.insert name (Clock.prInit state)
      outbox := p.outbox ++ [.create state] }
  | some _ => p

def Orchestra.act (o : Orchestra ι) : OrchestraAct ι → Option (Orchestra ι)
  | .connect i => some (o.set i { o.peer i with connected := true })
  | .getAll i => some (o.set i { o.peer i with outbox := (o.peer i).outbox ++ [.getAll] })
  | .new i name tempo beatsPerBar => some (o.set i ((o.peer i).new name tempo beatsPerBar o.now))
  | .setTempoAtBeat i name newTempo beats =>
    ((o.peer i).clockMap.lookup name).map fun clock =>
      o.set i { o.peer i with
        outbox := (o.peer i).outbox ++ [clock.setTempoAtBeat newTempo beats] }
  | .serve i orders =>
    match (o.peer i).outbox with
    | [] => none
    | r :: rest =>
      if OrdersMeet o.cohortStateMap r o.now orders then some (o.serve i r rest orders) else none
  | .deliver i beats =>
    match (o.peer i).inbox with
    | [] => none
    | u :: rest => some (o.set i ({ o.peer i with inbox := rest }.clockUpdate u.state beats))
  | .advance i name beats =>
    ((o.peer i).clockMap.lookup name).map fun clock =>
      o.set i { o.peer i with
        clockMap := (o.peer i).clockMap.insert name (clock.prAdvanceState fun _ => beats) }

def Orchestra.step (o : Orchestra ι) (e : OrchestraEvent ι) : Option (Orchestra ι) :=
  if o.now ≤ e.time then Orchestra.act { o with now := e.time } e.act else none

end Steps

section Views
variable {ι : Type}

def Request.concerns (name : String) : Request → Bool
  | .getAll => true
  | .create state | .change state => decide (state.cohortName = name)

def Update.concerns (name : String) (u : Update) : Bool := decide (u.state.cohortName = name)

def Peer.about (name : String) (p : Peer) : Member where
  timeDiff := p.timeDiff
  connected := p.connected
  clock := p.clockMap.lookup name
  inbox := p.inbox.filter (·.concerns name)
  outbox := p.outbox.filter (·.concerns name)

def Orchestra.about (name : String) (o : Orchestra ι) : Network ι where
  now := o.now
  cohort := o.cohortStateMap.lookup name
  member := fun i => (o.peer i).about name

/-- The part that the states of a cohort have in the order of a loop. -/
def orderOf (name : String) (orders : List (String × List SCLOrkClockState)) :
    List SCLOrkClockState := (orders.lookup name).getD []

/-- What an event is to a cohort. None if it is about another one. -/
def Orchestra.shows (name : String) (o : Orchestra ι) (e : OrchestraEvent ι) : Option (Event ι) :=
  match e.act with
  | .connect i => some ⟨.connect i, e.time⟩
  | .getAll i => some ⟨.getAll i, e.time⟩
  | .new i other tempo beatsPerBar =>
    if other = name then some ⟨.new i other tempo beatsPerBar, e.time⟩ else none
  | .setTempoAtBeat i other newTempo beats =>
    if other = name then some ⟨.setTempoAtBeat i newTempo beats, e.time⟩ else none
  | .serve i orders => ((o.peer i).outbox.head?.filter (·.concerns name)).map fun _ =>
    ⟨.serve i (orderOf name orders), e.time⟩
  | .deliver i beats => ((o.peer i).inbox.head?.filter (·.concerns name)).map fun _ =>
    ⟨.deliver i beats, e.time⟩
  | .advance i other beats => if other = name then some ⟨.advance i beats, e.time⟩ else none

/-- Each state is kept under the name of its cohort. -/
def Titled (kept : AList fun _ : String => Schedule SCLOrkClockState.applyAtBeat) : Prop :=
  ∀ name c, kept.lookup name = some c → ∀ s ∈ c.line, s.cohortName = name

structure Orchestra.Named (o : Orchestra ι) : Prop where
  cohorts : Titled o.cohortStateMap
  clocks : ∀ i, Titled (o.peer i).clockMap

end Views

section Titles

theorem titled_insert {kept : AList fun _ : String => Schedule SCLOrkClockState.applyAtBeat}
    {name : String} {c : Schedule SCLOrkClockState.applyAtBeat} (titled : Titled kept)
    (own : ∀ s ∈ c.line, s.cohortName = name) : Titled (kept.insert name c) := by
  intro other d found
  by_cases same : other = name
  · subst same
    rw [AList.lookup_insert, Option.some.injEq] at found
    exact found ▸ own
  · rw [AList.lookup_insert_ne same] at found
    exact titled other d found

theorem promote_titled {c : Cohort} {name : String} (own : ∀ s ∈ c.line, s.cohortName = name)
    (read : SCLOrkClockState → ℚ) : ∀ s ∈ (c.promote read).line, s.cohortName = name :=
  fun s member => own s ((Schedule.promote_suffix read c).subset member)

theorem put_titled {c : Cohort} {name : String} {q : SCLOrkClockState}
    (own : ∀ s ∈ c.line, s.cohortName = name) (to_come : q.cohortName = name) :
    ∀ s ∈ (c.put q).line, s.cohortName = name := by
  intro s member
  rcases List.mem_cons.mp member with rfl | waits
  · exact own _ List.mem_cons_self
  · rcases PriorityQueue.mem_insert.mp waits with rfl | before
    · exact to_come
    · exact own s (List.mem_cons_of_mem _ before)

theorem replace_titled {c : Cohort} {name : String} {q : SCLOrkClockState}
    (own : ∀ s ∈ c.line, s.cohortName = name) (to_come : q.cohortName = name) :
    ∀ s ∈ Schedule.line { c with current := q }, s.cohortName = name := by
  intro s member
  rcases List.mem_cons.mp member with rfl | waits
  · exact to_come
  · exact own s (List.mem_cons_of_mem _ waits)

theorem accept_titled {c : Cohort} {name : String} {q : SCLOrkClockState}
    (own : ∀ s ∈ c.line, s.cohortName = name) (to_come : q.cohortName = name) :
    ∀ s ∈ (c.accept q).line, s.cohortName = name := by
  unfold Cohort.accept
  split
  · exact replace_titled own to_come
  · exact put_titled own to_come

theorem prUpdate_titled {c : Clock} {name : String} {q : SCLOrkClockState}
    {beats : SCLOrkClockState → ℚ} (own : ∀ s ∈ c.line, s.cohortName = name)
    (to_come : q.cohortName = name) : ∀ s ∈ (c.prUpdate q beats).line, s.cohortName = name := by
  unfold Clock.prUpdate
  split
  · split
    · exact replace_titled own to_come
    · exact put_titled own to_come
  · exact own

theorem prInit_titled (q : SCLOrkClockState) :
    ∀ s ∈ (Clock.prInit q).line, s.cohortName = q.cohortName :=
  fun _ member => congrArg _ (List.mem_singleton.mp member)

end Titles

section Orders
variable {name other : String} {order : List SCLOrkClockState}
  {orders : List (String × List SCLOrkClockState)}

theorem orderOf_head : orderOf name ((name, order) :: orders) = order := by
  simp [orderOf]

theorem orderOf_tail (differs : name ≠ other) :
    orderOf name ((other, order) :: orders) = orderOf name orders := by
  simp [orderOf, List.lookup_cons, beq_eq_false_iff_ne.mpr differs]

theorem orderOf_passed (passed : name ∉ orders.map Prod.fst) : orderOf name orders = [] := by
  suffices unlisted : orders.lookup name = none by rw [orderOf, unlisted]; rfl
  refine List.lookup_eq_none_iff.mpr fun p member => ?_
  exact bne_iff_ne.mpr fun same => passed (same ▸ List.mem_map_of_mem member)

theorem orderOf_met (met : name ∈ orders.map Prod.fst) : (name, orderOf name orders) ∈ orders := by
  induction orders with
  | nil => cases met
  | cons p orders ih =>
    obtain ⟨other, order⟩ := p
    by_cases same : name = other
    · rw [← same, orderOf_head]
      exact List.mem_cons_self
    · rw [orderOf_tail same]
      exact List.mem_cons_of_mem _ (ih ((List.mem_cons.mp met).resolve_left same))

end Orders

section Answers
variable {cohorts : CohortStateMap} {elapsed : ℚ}

theorem sendStates_titled (orders : List (String × List SCLOrkClockState))
    (titled : Titled cohorts) : Titled (sendStates elapsed orders cohorts).1 := by
  induction orders generalizing cohorts with
  | nil => exact titled
  | cons p orders ih =>
    unfold sendStates
    split
    · exact ih titled
    · rename_i c found
      exact ih (titled_insert titled (promote_titled (titled _ c found) _))

theorem sendStates_other {name : String} (orders : List (String × List SCLOrkClockState))
    (passed : name ∉ orders.map Prod.fst) :
    (sendStates elapsed orders cohorts).1.lookup name = cohorts.lookup name := by
  induction orders generalizing cohorts with
  | nil => rfl
  | cons p orders ih =>
    obtain ⟨other, later⟩ := not_or.mp (mt List.mem_cons.mpr passed)
    unfold sendStates
    split
    · exact ih later
    · exact (ih later).trans (AList.lookup_insert_ne other)

theorem prSendState_own {c : Cohort} {name : String} {order : List SCLOrkClockState}
    (own : c.current.cohortName = name) (listed : ∀ s ∈ order, s.cohortName = name) :
    (c.prSendState order).filter (·.concerns name) = c.prSendState order := by
  refine List.filter_eq_self.mpr fun u sent => ?_
  rcases List.mem_cons.mp sent with rfl | waits
  · exact decide_eq_true own
  · obtain ⟨s, member, rfl⟩ := List.mem_map.mp waits
    exact decide_eq_true (listed s member)

theorem prSendState_other {c : Cohort} {name other : String} {order : List SCLOrkClockState}
    (own : c.current.cohortName = other) (listed : ∀ s ∈ order, s.cohortName = other)
    (differs : other ≠ name) : (c.prSendState order).filter (·.concerns name) = [] := by
  refine List.filter_eq_nil_iff.mpr fun u sent => ?_
  rcases List.mem_cons.mp sent with rfl | waits
  · simpa [Update.concerns, Update.state, own] using differs
  · obtain ⟨s, member, rfl⟩ := List.mem_map.mp waits
    simpa [Update.concerns, Update.state, listed s member] using differs

def Listed (orders : List (String × List SCLOrkClockState)) : Prop :=
  ∀ p ∈ orders, ∀ s ∈ p.2, s.cohortName = p.1

theorem current_titled {name : String} {c : Cohort} (titled : Titled cohorts)
    (found : cohorts.lookup name = some c) :
    (c.prGroomState elapsed).current.cohortName = name :=
  promote_titled (titled name c found) _ _ List.mem_cons_self

theorem groomed_titled {name : String} {c : Cohort} (titled : Titled cohorts)
    (found : cohorts.lookup name = some c) :
    Titled (cohorts.insert name (c.prGroomState elapsed)) :=
  titled_insert titled (promote_titled (titled name c found) (beatAt elapsed))

theorem sendStates_silent {name : String} {orders : List (String × List SCLOrkClockState)}
    (titled : Titled cohorts) (listed : Listed orders) (passed : name ∉ orders.map Prod.fst) :
    (sendStates elapsed orders cohorts).2.filter (·.concerns name) = [] := by
  induction orders generalizing cohorts with
  | nil => rfl
  | cons p orders ih =>
    obtain ⟨other, later⟩ := not_or.mp (mt List.mem_cons.mpr passed)
    have rest : Listed orders := fun q member => listed q (List.mem_cons_of_mem _ member)
    unfold sendStates
    split
    · exact ih titled rest later
    · rename_i c found
      rw [List.filter_append, prSendState_other (current_titled titled found)
        (listed p List.mem_cons_self) (Ne.symm other), List.nil_append]
      exact ih (groomed_titled titled found) rest later

theorem sendStates_met {name : String} {orders : List (String × List SCLOrkClockState)} {c : Cohort}
    (titled : Titled cohorts) (listed : Listed orders) (once : (orders.map Prod.fst).Nodup)
    (met : name ∈ orders.map Prod.fst) (found : cohorts.lookup name = some c) :
    (sendStates elapsed orders cohorts).1.lookup name = some (c.prGroomState elapsed) ∧
      (sendStates elapsed orders cohorts).2.filter (·.concerns name) =
        (c.prGroomState elapsed).prSendState (orderOf name orders) := by
  induction orders generalizing cohorts with
  | nil => cases met
  | cons p orders ih =>
    obtain ⟨other, order⟩ := p
    obtain ⟨apart, distinct⟩ := List.nodup_cons.mp once
    have rest : Listed orders := fun q member => listed q (List.mem_cons_of_mem _ member)
    have own : ∀ s ∈ order, s.cohortName = other := listed (other, order) List.mem_cons_self
    unfold sendStates
    by_cases same : other = name
    · subst same
      simp only [found, List.filter_append, orderOf_head]
      rw [prSendState_own (current_titled titled found) own,
        sendStates_silent (groomed_titled titled found) rest apart, List.append_nil]
      exact ⟨(sendStates_other orders apart).trans (AList.lookup_insert _), rfl⟩
    · have later : name ∈ orders.map Prod.fst :=
        (List.mem_cons.mp met).resolve_left (Ne.symm same)
      rw [orderOf_tail (Ne.symm same)]
      cases looked : cohorts.lookup other with
      | none => exact ih titled rest distinct later found
      | some d =>
        have still : (cohorts.insert other (d.prGroomState elapsed)).lookup name = some c :=
          (AList.lookup_insert_ne (Ne.symm same)).trans found
        simp only [List.filter_append]
        rw [prSendState_other (current_titled titled looked) own same, List.nil_append]
        exact ih (groomed_titled titled looked) rest distinct later still

end Answers

section Requests
variable {cohorts : CohortStateMap} {r : Request} {elapsed : ℚ}
  {orders : List (String × List SCLOrkClockState)} {name : String}

theorem handle_created {state : SCLOrkClockState}
    (unknown : cohorts.lookup state.cohortName = none) :
    handleRequest cohorts (.create state) elapsed orders =
      (cohorts.insert state.cohortName (Cohort.new state), [], [.relayed state]) := by
  simp only [handleRequest, unknown]

theorem handle_existing {state : SCLOrkClockState} {c : Cohort}
    (found : cohorts.lookup state.cohortName = some c) :
    handleRequest cohorts (.create state) elapsed orders =
      ((sendStates elapsed orders cohorts).1, (sendStates elapsed orders cohorts).2, []) := by
  simp only [handleRequest, found]

theorem handle_unknown {state : SCLOrkClockState}
    (unknown : cohorts.lookup state.cohortName = none) :
    handleRequest cohorts (.change state) elapsed orders = (cohorts, [], []) := by
  simp only [handleRequest, unknown]

theorem handle_changed {state : SCLOrkClockState} {c : Cohort}
    (found : cohorts.lookup state.cohortName = some c) :
    handleRequest cohorts (.change state) elapsed orders =
      (cohorts.insert state.cohortName (c.clockChange state elapsed), [], [.relayed state]) := by
  simp only [handleRequest, found]

theorem handleRequest_titled (titled : Titled cohorts) (r : Request) (elapsed : ℚ)
    (orders : List (String × List SCLOrkClockState)) :
    Titled (handleRequest cohorts r elapsed orders).1 := by
  cases r with
  | getAll => exact sendStates_titled orders titled
  | create state =>
    cases found : cohorts.lookup state.cohortName with
    | none =>
      rw [handle_created found]
      exact titled_insert titled (prInit_titled state)
    | some c =>
      rw [handle_existing found]
      exact sendStates_titled orders titled
  | change state =>
    cases found : cohorts.lookup state.cohortName with
    | none =>
      rw [handle_unknown found]
      exact titled
    | some c =>
      rw [handle_changed found]
      exact titled_insert titled (promote_titled (accept_titled (titled _ c found) rfl) _)

theorem answered_create {state : SCLOrkClockState} :
    name ∈ answeredCohorts cohorts (.create state) ↔
      name = state.cohortName ∧ (cohorts.lookup state.cohortName).isSome := by
  by_cases found : (cohorts.lookup state.cohortName).isSome
  · simp [answeredCohorts, found]
  · simp [answeredCohorts, found]

theorem answered_nodup (cohorts : CohortStateMap) (r : Request) :
    (answeredCohorts cohorts r).Nodup := by
  cases r with
  | getAll => exact cohorts.keys_nodup
  | create state =>
    simp only [answeredCohorts]
    split
    · exact List.nodup_singleton _
    · exact List.nodup_nil
  | change state => exact List.nodup_nil

theorem answered_found (answered : name ∈ answeredCohorts cohorts r) :
    ∃ c, cohorts.lookup name = some c := by
  refine Option.isSome_iff_exists.mp ?_
  cases r with
  | getAll => exact AList.lookup_isSome.mpr answered
  | create state =>
    obtain ⟨same, found⟩ := answered_create.mp answered
    exact same ▸ found
  | change state => cases answered

theorem answered_concerns (answered : name ∈ answeredCohorts cohorts r) :
    r.concerns name = true := by
  cases r with
  | getAll => rfl
  | create state => exact decide_eq_true (answered_create.mp answered).1.symm
  | change state => cases answered

theorem orders_listed (titled : Titled cohorts) (meets : OrdersMeet cohorts r elapsed orders) :
    Listed orders := by
  intro p member s waits
  obtain ⟨c, found⟩ : ∃ c, cohorts.lookup p.1 = some c :=
    answered_found (meets.1.subset (List.mem_map_of_mem member))
  have queued : s ∈ (c.prGroomState elapsed).queue.items := (meets.2 p member c found).subset waits
  exact promote_titled (titled p.1 c found) _ s (List.mem_cons_of_mem _ queued)

theorem orders_once (meets : OrdersMeet cohorts r elapsed orders) :
    (orders.map Prod.fst).Nodup :=
  meets.1.nodup_iff.mpr (answered_nodup cohorts r)

/-- The request is about the cohort: all that is kept and sent of it is what the cohort alone
    would make of the request. -/
theorem handleRequest_concerned (titled : Titled cohorts)
    (meets : OrdersMeet cohorts r elapsed orders) (concerned : r.concerns name = true) :
    (handleRequest cohorts r elapsed orders).1.lookup name =
        handle (cohorts.lookup name) r elapsed ∧
      (handleRequest cohorts r elapsed orders).2.1.filter (·.concerns name) =
        reply (cohorts.lookup name) r elapsed (orderOf name orders) ∧
      (handleRequest cohorts r elapsed orders).2.2.filter (·.concerns name) =
        prSendAll (cohorts.lookup name) r := by
  have listed := orders_listed titled meets
  have once := orders_once meets
  have asked := meets.1
  cases r with
  | getAll =>
    cases found : cohorts.lookup name with
    | none =>
      have passed : name ∉ orders.map Prod.fst := fun met =>
        absurd (asked.subset met) (AList.lookup_eq_none.mp found)
      exact ⟨(sendStates_other orders passed).trans found, sendStates_silent titled listed passed,
        rfl⟩
    | some c =>
      have met : name ∈ orders.map Prod.fst :=
        asked.symm.subset (AList.lookup_isSome.mp (Option.isSome_of_eq_some found))
      obtain ⟨groomed, sent⟩ := sendStates_met titled listed once met found
      exact ⟨groomed, sent, rfl⟩
  | create state =>
    have same : state.cohortName = name := of_decide_eq_true concerned
    subst same
    cases found : cohorts.lookup state.cohortName with
    | none =>
      rw [handle_created found]
      refine ⟨AList.lookup_insert _, rfl, ?_⟩
      simp [prSendAll, Update.concerns, Update.state]
    | some c =>
      have met : state.cohortName ∈ orders.map Prod.fst :=
        asked.symm.subset
        (answered_create.mpr ⟨rfl, Option.isSome_of_eq_some found⟩)
      obtain ⟨groomed, sent⟩ := sendStates_met titled listed once met found
      rw [handle_existing found]
      exact ⟨groomed, sent, rfl⟩
  | change state =>
    have same : state.cohortName = name := of_decide_eq_true concerned
    subst same
    cases found : cohorts.lookup state.cohortName with
    | none =>
      rw [handle_unknown found]
      exact ⟨found, rfl, rfl⟩
    | some c =>
      rw [handle_changed found]
      refine ⟨AList.lookup_insert _, rfl, ?_⟩
      simp [prSendAll, Update.concerns, Update.state]

theorem handleRequest_unconcerned (titled : Titled cohorts)
    (meets : OrdersMeet cohorts r elapsed orders) (other : r.concerns name = false) :
    (handleRequest cohorts r elapsed orders).1.lookup name = cohorts.lookup name ∧
      (handleRequest cohorts r elapsed orders).2.1.filter (·.concerns name) = [] ∧
      (handleRequest cohorts r elapsed orders).2.2.filter (·.concerns name) = [] := by
  have passed : name ∉ orders.map Prod.fst := fun met =>
    Bool.false_ne_true (other.symm.trans (answered_concerns (meets.1.subset met)))
  have silent : (sendStates elapsed orders cohorts).2.filter (·.concerns name) = [] :=
    sendStates_silent titled (orders_listed titled meets) passed
  have untouched : (sendStates elapsed orders cohorts).1.lookup name = cohorts.lookup name :=
    sendStates_other orders passed
  cases r with
  | getAll => cases other
  | create state =>
    have differs : state.cohortName ≠ name := of_decide_eq_false other
    cases found : cohorts.lookup state.cohortName with
    | none =>
      rw [handle_created found]
      refine ⟨AList.lookup_insert_ne differs.symm, rfl, ?_⟩
      simp [Update.concerns, Update.state, differs]
    | some c =>
      rw [handle_existing found]
      exact ⟨untouched, silent, rfl⟩
  | change state =>
    have differs : state.cohortName ≠ name := of_decide_eq_false other
    cases found : cohorts.lookup state.cohortName with
    | none =>
      rw [handle_unknown found]
      exact ⟨rfl, rfl, rfl⟩
    | some c =>
      rw [handle_changed found]
      refine ⟨AList.lookup_insert_ne differs.symm, rfl, ?_⟩
      simp [Update.concerns, Update.state, differs]

theorem orderOf_waiting (meets : OrdersMeet cohorts r elapsed orders)
    (concerned : r.concerns name = true) :
    (orderOf name orders).Perm (waiting (cohorts.lookup name) r elapsed) := by
  by_cases met : name ∈ orders.map Prod.fst
  · obtain ⟨c, found⟩ : ∃ c, cohorts.lookup name = some c := answered_found (meets.1.subset met)
    have queued := meets.2 _ (orderOf_met met) c found
    cases r with
    | getAll => simpa [waiting, found] using queued
    | create state => simpa [waiting, found] using queued
    | change state => exact absurd (meets.1.subset met) List.not_mem_nil
  · rw [orderOf_passed met]
    have unasked : name ∉ answeredCohorts cohorts r := fun asked => met (meets.1.symm.subset asked)
    cases found : cohorts.lookup name with
    | none => cases r <;> exact .refl _
    | some c =>
      cases r with
      | getAll =>
        exact absurd (AList.lookup_isSome.mp (Option.isSome_of_eq_some found)) unasked
      | create state =>
        have same : state.cohortName = name := of_decide_eq_true concerned
        subst same
        exact absurd (answered_create.mpr ⟨rfl, Option.isSome_of_eq_some found⟩) unasked
      | change state => exact .refl _

end Requests

section Projection
variable {ι : Type} [DecidableEq ι] {o next : Orchestra ι} {name : String} {i : ι}

@[simp] theorem about_set (o : Orchestra ι) (i : ι) (p : Peer) (name : String) :
    (o.set i p).about name = (o.about name).set i (p.about name) := by
  refine congrArg (Network.mk _ _) (funext fun j => ?_)
  by_cases own : j = i
  · subst own
    simp [Orchestra.set]
  · simp [Orchestra.set, Orchestra.about, own]

omit [DecidableEq ι] in
theorem about_broadcast (o : Orchestra ι) (updates : List Update) (name : String) :
    (o.broadcast updates).about name =
      (o.about name).broadcast (updates.filter (·.concerns name)) := by
  refine congrArg (Network.mk _ _) (funext fun j => ?_)
  change Peer.about name (ite ((o.peer j).connected = true) _ _) =
    ite ((o.peer j).connected = true) _ _
  split
  · simp [Peer.about, Orchestra.about]
  · rfl

theorem serve_about (o : Orchestra ι) (i : ι) (r : Request) (rest : List Request)
    (orders : List (String × List SCLOrkClockState)) (name : String) :
    (o.serve i r rest orders).about name =
      { ((o.about name).set i { (o.about name).member i with
          outbox := rest.filter (·.concerns name)
          inbox := ((o.about name).member i).inbox ++
            (handleRequest o.cohortStateMap r o.now orders).2.1.filter
              (·.concerns name) }).broadcast
          ((handleRequest o.cohortStateMap r o.now orders).2.2.filter (·.concerns name)) with
        cohort := (handleRequest o.cohortStateMap r o.now orders).1.lookup name } := by
  let handled := handleRequest o.cohortStateMap r o.now orders
  let p : Peer := { o.peer i with outbox := rest, inbox := (o.peer i).inbox ++ handled.2.1 }
  change { ((o.set i p).broadcast handled.2.2).about name with
    cohort := handled.1.lookup name } = _
  rw [about_broadcast, about_set]
  simp [Peer.about, Orchestra.about, p, handled]

theorem serve_concerned {r : Request} {orders : List (String × List SCLOrkClockState)}
    (rest : List Request) (named : o.Named) (meets : OrdersMeet o.cohortStateMap r o.now orders)
    (concerned : r.concerns name = true) :
    (o.serve i r rest orders).about name =
      (o.about name).serve i r (rest.filter (·.concerns name)) (orderOf name orders) := by
  obtain ⟨kept, answered, told⟩ := handleRequest_concerned named.cohorts meets concerned
  rw [serve_about, kept, answered, told]
  rfl

theorem serve_unconcerned {r : Request} {rest : List Request}
    {orders : List (String × List SCLOrkClockState)} (named : o.Named)
    (first : (o.peer i).outbox = r :: rest) (meets : OrdersMeet o.cohortStateMap r o.now orders)
    (other : r.concerns name = false) : (o.serve i r rest orders).about name = o.about name := by
  obtain ⟨kept, answered, told⟩ := handleRequest_unconcerned named.cohorts meets other
  have passed : ((o.about name).member i).outbox = rest.filter (·.concerns name) := by
    simp [Orchestra.about, Peer.about, first, other]
  rw [serve_about, kept, answered, told, List.append_nil, ← passed]
  simp [Network.set, Network.broadcast, Orchestra.about]

theorem about_same {p : Peer} (same : p.about name = (o.peer i).about name) :
    (o.set i p).about name = o.about name := by
  rw [about_set, same]
  simp [Network.set, Orchestra.about]

theorem new_concerned (p : Peer) (name : String) (tempo beatsPerBar now : ℚ) :
    (p.new name tempo beatsPerBar now).about name =
      { p.about name with
        clock := (newClock (p.about name).clock name tempo beatsPerBar p.timeDiff
          (serverToLocalTime p.timeDiff now)).1
        outbox := (p.about name).outbox ++ (newClock (p.about name).clock name tempo beatsPerBar
          p.timeDiff (serverToLocalTime p.timeDiff now)).2 } := by
  unfold Peer.new
  cases found : p.clockMap.lookup name with
  | none => simp [Peer.about, found, newClock, Request.concerns, SCLOrkClockState.new]
  | some clock => simp [Peer.about, found, newClock]

theorem new_unconcerned {p : Peer} {other name : String} (differs : other ≠ name)
    (tempo beatsPerBar now : ℚ) :
    (p.new other tempo beatsPerBar now).about name = p.about name := by
  unfold Peer.new
  cases p.clockMap.lookup other with
  | none =>
    simp [Peer.about, Request.concerns, SCLOrkClockState.new, differs,
      AList.lookup_insert_ne differs.symm]
  | some clock => rfl

theorem clockUpdate_concerned {p : Peer} {u : Update} (concerned : u.concerns name = true)
    (beats : ℚ) :
    (p.clockUpdate u.state beats).about name =
      { p.about name with
        clock := SCLOrkClock.clockUpdate (p.about name).clock u.state fun _ => beats } := by
  have same : u.state.cohortName = name := of_decide_eq_true concerned
  subst same
  unfold Peer.clockUpdate
  cases found : p.clockMap.lookup u.state.cohortName with
  | none => simp [Peer.about, found, SCLOrkClock.clockUpdate]
  | some clock => simp [Peer.about, found, SCLOrkClock.clockUpdate]

theorem clockUpdate_unconcerned {p : Peer} {u : Update} (other : u.concerns name = false)
    (beats : ℚ) : (p.clockUpdate u.state beats).about name = p.about name := by
  have differs : u.state.cohortName ≠ name := of_decide_eq_false other
  unfold Peer.clockUpdate
  cases p.clockMap.lookup u.state.cohortName with
  | none => simp [Peer.about, AList.lookup_insert_ne differs.symm]
  | some clock => simp [Peer.about, AList.lookup_insert_ne differs.symm]

theorem act_serve {orders : List (String × List SCLOrkClockState)}
    (ran : o.act (.serve i orders) = some next) :
    ∃ r rest, (o.peer i).outbox = r :: rest ∧ OrdersMeet o.cohortStateMap r o.now orders ∧
      next = o.serve i r rest orders := by
  simp only [Orchestra.act] at ran
  split at ran
  · cases ran
  · rename_i r rest first
    obtain ⟨meets, made⟩ := Option.ite_none_right_eq_some.mp ran
    exact ⟨r, rest, first, meets, (Option.some.inj made).symm⟩

theorem act_deliver {beats : ℚ} (ran : o.act (.deliver i beats) = some next) :
    ∃ u rest, (o.peer i).inbox = u :: rest ∧
      next = o.set i ({ o.peer i with inbox := rest }.clockUpdate u.state beats) := by
  simp only [Orchestra.act] at ran
  split at ran
  · cases ran
  · rename_i u rest first
    exact ⟨u, rest, first, (Option.some.inj ran).symm⟩

/-- An event about a cohort is the same event of the cohort's network. -/
theorem act_shown {a : OrchestraAct ι} {f : Event ι} (time : ℚ) (named : o.Named)
    (ran : o.act a = some next) (shown : o.shows name ⟨a, time⟩ = some f) :
    (o.about name).act f.act = some (next.about name) ∧ f.time = time := by
  cases a with
  | connect i =>
    cases ran
    cases shown
    refine ⟨congrArg some ?_, rfl⟩
    rw [about_set]
    rfl
  | getAll i =>
    cases ran
    cases shown
    refine ⟨congrArg some ?_, rfl⟩
    rw [about_set]
    simp [Peer.about, Orchestra.about, Request.concerns]
  | new i other tempo beatsPerBar =>
    obtain ⟨rfl, made⟩ := Option.ite_none_right_eq_some.mp shown
    cases ran
    cases made
    refine ⟨congrArg some ?_, rfl⟩
    rw [about_set, new_concerned]
    rfl
  | setTempoAtBeat i other newTempo beats =>
    obtain ⟨rfl, made⟩ := Option.ite_none_right_eq_some.mp shown
    obtain ⟨clock, found, rfl⟩ := Option.map_eq_some_iff.mp ran
    cases made
    have own : clock.current.cohortName = other :=
      named.clocks i other clock found _ List.mem_cons_self
    refine ⟨Option.map_eq_some_iff.mpr ⟨clock, found, ?_⟩, rfl⟩
    rw [about_set]
    simp [Peer.about, Orchestra.about, Request.concerns, Clock.setTempoAtBeat,
      SCLOrkClockState.setTempoAtBeat, own]
  | serve i orders =>
    obtain ⟨r, rest, first, meets, rfl⟩ := act_serve ran
    simp only [Orchestra.shows, first, List.head?_cons, Option.filter_some] at shown
    split at shown
    · rename_i concerned
      cases shown
      have asked : ((o.about name).member i).outbox = r :: rest.filter (·.concerns name) := by
        simp [Orchestra.about, Peer.about, first, concerned]
      have met : (orderOf name orders).Perm (waiting (o.about name).cohort r (o.about name).now) :=
        orderOf_waiting meets concerned
      simp only [Network.act, asked, if_pos met, and_true]
      exact congrArg some (serve_concerned rest named meets concerned).symm
    · cases shown
  | deliver i beats =>
    obtain ⟨u, rest, first, rfl⟩ := act_deliver ran
    simp only [Orchestra.shows, first, List.head?_cons, Option.filter_some] at shown
    split at shown
    · rename_i concerned
      cases shown
      have told : ((o.about name).member i).inbox = u :: rest.filter (·.concerns name) := by
        simp [Orchestra.about, Peer.about, first, concerned]
      simp only [Network.act, told, and_true, about_set, clockUpdate_concerned concerned]
      rfl
    · cases shown
  | advance i other beats =>
    obtain ⟨rfl, made⟩ := Option.ite_none_right_eq_some.mp shown
    obtain ⟨clock, found, rfl⟩ := Option.map_eq_some_iff.mp ran
    cases made
    refine ⟨Option.map_eq_some_iff.mpr ⟨clock, found, ?_⟩, rfl⟩
    rw [about_set]
    simp [Peer.about, Orchestra.about]

/-- An event about another cohort leaves the cohort's network as it is. -/
theorem act_hidden {a : OrchestraAct ι} (time : ℚ) (named : o.Named) (ran : o.act a = some next)
    (hidden : o.shows name ⟨a, time⟩ = none) : next.about name = o.about name := by
  cases a with
  | connect i => cases hidden
  | getAll i => cases hidden
  | new i other tempo beatsPerBar =>
    have differs : other ≠ name := fun same => by simp [Orchestra.shows, same] at hidden
    cases ran
    exact about_same (new_unconcerned differs tempo beatsPerBar o.now)
  | setTempoAtBeat i other newTempo beats =>
    have differs : other ≠ name := fun same => by simp [Orchestra.shows, same] at hidden
    obtain ⟨clock, found, rfl⟩ := Option.map_eq_some_iff.mp ran
    have own : clock.current.cohortName = other :=
      named.clocks i other clock found _ List.mem_cons_self
    refine about_same ?_
    simp [Peer.about, Request.concerns, Clock.setTempoAtBeat, SCLOrkClockState.setTempoAtBeat,
      own, differs]
  | serve i orders =>
    obtain ⟨r, rest, first, meets, rfl⟩ := act_serve ran
    simp only [Orchestra.shows, first, List.head?_cons, Option.filter_some] at hidden
    split at hidden
    · cases hidden
    · rename_i other
      exact serve_unconcerned named first meets (Bool.not_eq_true _ ▸ other)
  | deliver i beats =>
    obtain ⟨u, rest, first, rfl⟩ := act_deliver ran
    simp only [Orchestra.shows, first, List.head?_cons, Option.filter_some] at hidden
    split at hidden
    · cases hidden
    · rename_i other
      refine about_same ?_
      rw [clockUpdate_unconcerned (Bool.not_eq_true _ ▸ other)]
      simp [Peer.about, first, other]
  | advance i other beats =>
    have differs : other ≠ name := fun same => by simp [Orchestra.shows, same] at hidden
    obtain ⟨clock, found, rfl⟩ := Option.map_eq_some_iff.mp ran
    refine about_same ?_
    simp [Peer.about, AList.lookup_insert_ne differs.symm]

theorem set_named {p : Peer} (named : o.Named) (titled : Titled p.clockMap) :
    (o.set i p).Named where
  cohorts := named.cohorts
  clocks := fun j => by
    by_cases own : j = i
    · subst own
      simpa [Orchestra.set] using titled
    · simpa [Orchestra.set, own] using named.clocks j

theorem serve_named {r : Request} {rest : List Request}
    {orders : List (String × List SCLOrkClockState)} (named : o.Named) :
    (o.serve i r rest orders).Named where
  cohorts := handleRequest_titled named.cohorts r o.now orders
  clocks := fun j => by
    have kept : ((o.serve i r rest orders).peer j).clockMap = (o.peer j).clockMap := by
      by_cases own : j = i
      · subst own
        simp only [Orchestra.serve, Orchestra.broadcast, Orchestra.set, Function.update_self]
        split <;> rfl
      · simp only [Orchestra.serve, Orchestra.broadcast, Orchestra.set,
          Function.update_of_ne own]
        split <;> rfl
    exact kept ▸ named.clocks j

theorem act_named {a : OrchestraAct ι} (named : o.Named) (ran : o.act a = some next) :
    next.Named := by
  cases a with
  | connect i =>
    cases ran
    exact set_named named (named.clocks i)
  | getAll i =>
    cases ran
    exact set_named named (named.clocks i)
  | new i name tempo beatsPerBar =>
    cases ran
    refine set_named named ?_
    unfold Peer.new
    split
    · exact titled_insert (named.clocks i) (prInit_titled _)
    · exact named.clocks i
  | setTempoAtBeat i name newTempo beats =>
    obtain ⟨clock, found, rfl⟩ := Option.map_eq_some_iff.mp ran
    exact set_named named (named.clocks i)
  | serve i orders =>
    obtain ⟨r, rest, first, meets, rfl⟩ := act_serve ran
    exact serve_named named
  | deliver i beats =>
    obtain ⟨u, rest, first, rfl⟩ := act_deliver ran
    refine set_named named ?_
    unfold Peer.clockUpdate
    split
    · exact titled_insert (named.clocks i) (prInit_titled u.state)
    · rename_i clock found
      exact titled_insert (named.clocks i) (prUpdate_titled (named.clocks i _ clock found) rfl)
  | advance i name beats =>
    obtain ⟨clock, found, rfl⟩ := Option.map_eq_some_iff.mp ran
    exact set_named named
      (titled_insert (named.clocks i) (promote_titled (named.clocks i name clock found) _))

theorem act_now {a : OrchestraAct ι} (ran : o.act a = some next) : next.now = o.now := by
  cases a with
  | connect i => cases ran; rfl
  | getAll i => cases ran; rfl
  | new i name tempo beatsPerBar => cases ran; rfl
  | setTempoAtBeat i name newTempo beats =>
    obtain ⟨clock, found, rfl⟩ := Option.map_eq_some_iff.mp ran
    rfl
  | serve i orders =>
    obtain ⟨r, rest, first, meets, rfl⟩ := act_serve ran
    rfl
  | deliver i beats =>
    obtain ⟨u, rest, first, rfl⟩ := act_deliver ran
    rfl
  | advance i name beats =>
    obtain ⟨clock, found, rfl⟩ := Option.map_eq_some_iff.mp ran
    rfl

/-- The network that has taken a cohort's events so far. Its time is that of the last one. -/
structure Alone (name : String) (o : Orchestra ι) (net : Network ι) : Prop where
  named : o.Named
  same : { net with now := o.now } = o.about name
  now : net.now ≤ o.now

theorem alone_unseen {net : Network ι} {e : OrchestraEvent ι} (alone : Alone name o net)
    (ran : o.step e = some next) (hidden : o.shows name e = none) : Alone name next net := by
  obtain ⟨forward, acted⟩ := Option.ite_none_right_eq_some.mp ran
  have named : Orchestra.Named { o with now := e.time } :=
    ⟨alone.named.cohorts, alone.named.clocks⟩
  have time : next.now = e.time := act_now acted
  have as_before : next.about name = ({ o with now := e.time } : Orchestra ι).about name :=
    act_hidden e.time named acted hidden
  refine ⟨act_named named acted, ?_, time ▸ alone.now.trans forward⟩
  rw [as_before, time]
  exact congrArg (fun n : Network ι => { n with now := e.time }) alone.same

theorem alone_simulated {net : Network ι} {e : OrchestraEvent ι} {f : Event ι}
    (alone : Alone name o net) (ran : o.step e = some next) (shown : o.shows name e = some f) :
    ∃ after, net.step f = some after ∧ Alone name next after := by
  obtain ⟨forward, acted⟩ := Option.ite_none_right_eq_some.mp ran
  have named : Orchestra.Named { o with now := e.time } :=
    ⟨alone.named.cohorts, alone.named.clocks⟩
  obtain ⟨taken, time⟩ := act_shown e.time named acted shown
  have same : { net with now := e.time } = ({ o with now := e.time } : Orchestra ι).about name :=
    congrArg (fun n : Network ι => { n with now := e.time }) alone.same
  refine ⟨next.about name, ?_, act_named named acted, rfl, le_refl next.now⟩
  rw [Network.step, time, if_pos (alone.now.trans forward), same]
  exact taken

/-- To each cohort, what is about it of a run of the server and all clocks is a run of its own
    network, and leaves it where the run leaves the cohort. -/
theorem cohorts_apart {es : List (OrchestraEvent ι)} (named : o.Named)
    (ran : run Orchestra.step o es = some next) (name : String) :
    ∃ net, run Network.step (o.about name) (seen Orchestra.step (Orchestra.shows name) o es) =
        some net ∧
      net.cohort = next.cohortStateMap.lookup name ∧
      net.member = fun i => (next.peer i).about name := by
  have start : Alone name o (o.about name) := ⟨named, rfl, le_refl o.now⟩
  obtain ⟨net, taken, alone⟩ := run_simulates (Alone name)
    (fun _ _ _ _ => alone_unseen) (fun _ _ _ _ _ => alone_simulated) start ran
  exact ⟨net, taken, congrArg Network.cohort alone.same, congrArg Network.member alone.same⟩

end Projection

def tuning : Orchestra Bool where
  now := 0
  cohortStateMap := ∅
  peer := fun _ => ⟨0, true, ∅, [], []⟩

def twoClocks : List (OrchestraEvent Bool) :=
  [⟨.new false "melody" 1 4, 1⟩, ⟨.new true "rhythm" 2 4, 1⟩, ⟨.serve true [], 2⟩,
    ⟨.serve false [], 3⟩, ⟨.deliver false 4, 3⟩, ⟨.deliver false 3, 4⟩, ⟨.getAll true, 4⟩,
    ⟨.setTempoAtBeat false "rhythm" 3 20, 5⟩, ⟨.serve false [], 6⟩,
    ⟨.serve true [("rhythm", [SCLOrkClockState.setTempoAtBeat (.new "rhythm" 1 2 4) 3 20]),
      ("melody", [])], 7⟩]

def tuned : Orchestra Bool := (run Orchestra.step tuning twoClocks).get (by decide +kernel)

theorem cohorts_apart_tuned :
    ∃ net, run Network.step (tuning.about "rhythm")
        (seen Orchestra.step (Orchestra.shows "rhythm") tuning twoClocks) = some net ∧
      net.cohort = tuned.cohortStateMap.lookup "rhythm" ∧
      net.member = fun i => (tuned.peer i).about "rhythm" :=
  cohorts_apart ⟨fun _ _ found => by simp [tuning] at found,
    fun _ _ _ found => by simp [tuning] at found⟩ (Option.some_get _).symm "rhythm"

end SCLOrkClock
