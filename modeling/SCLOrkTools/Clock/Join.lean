import SCLOrkTools.Clock.Network
import SCLOrkTools.Clock.Queries

/- A member that asks for a cohort the server already keeps. The answer is the state of the
   cohort, one message for the current state and one for each that waits, and what the member
   makes of it depends on the clock it may hold by then. -/
namespace SCLOrkClock
open Schedules GuardedRun

def built (s : SCLOrkClockState) (order : List SCLOrkClockState) : Cohort :=
  order.foldl Schedule.put (Cohort.new s)

theorem built_snoc (s : SCLOrkClockState) (l : List SCLOrkClockState) (q : SCLOrkClockState) :
    built s (l ++ [q]) = (built s l).put q := by
  simp [built]

theorem built_running {s : SCLOrkClockState} {l : List SCLOrkClockState} (first : 0 < s.tempo)
    (rest : ∀ q ∈ l, 0 < q.tempo) : Running (built s l) := by
  suffices general : ∀ c, Running c → Running (l.foldl Schedule.put c) from
    general _ (new_running first)
  induction l with
  | nil => exact fun c running => running
  | cons q l ih =>
    intro c running
    obtain ⟨positive, others⟩ := List.forall_mem_cons.mp rest
    exact ih others (c.put q) (put_running running positive)

/-- The clock is what the first states of an answer make of it, once some of those that are
    due are promoted. -/
def Caught (s : SCLOrkClockState) (l : List SCLOrkClockState) (time : ℚ) (clock : Option Clock) :
    Prop :=
  ∃ c, clock = some c ∧ (built s l).PartWay (beatAt time) c

/-- A member that is about to handle a part of an answer can take it in. The current state
    finds no clock, or one with nothing waiting that began no later and reads as far. A waiting
    state finds nothing later current; if this.beats has reached it, so has the cohort, and
    all that waits is for later beats. -/
def TakesPart (time beats : ℚ) : List Update → Option Clock → Prop
  | .current s :: _, some c => c.queue = PriorityQueue.empty ∧
      c.current.applyAtBeat ≤ s.applyAtBeat ∧ s.applyAtBeat ≤ beats
  | .queued q :: _, some c => c.current.applyAtBeat ≤ q.applyAtBeat ∧
      (q.applyAtBeat ≤ beats → q.applyAtBeat ≤ c.current.secs2beats time 0 ∧
        ∀ r ∈ c.queue.items, q.applyAtBeat < r.applyAtBeat)
  | _, _ => True

instance (time beats : ℚ) : ∀ inbox clock, Decidable (TakesPart time beats inbox clock)
  | .current _ :: _, some _ => inferInstanceAs (Decidable (_ ∧ _ ∧ _))
  | .queued _ :: _, some _ => inferInstanceAs (Decidable (_ ∧ (_ → _ ∧ _)))
  | [], _ | .relayed _ :: _, _ | .current _ :: _, none | .queued _ :: _, none => isTrue trivial

def Member.Takes (m : Member) (time beats : ℚ) : Prop := TakesPart time beats m.inbox m.clock

instance (m : Member) (time beats : ℚ) : Decidable (m.Takes time beats) :=
  inferInstanceAs (Decidable (TakesPart _ _ _ _))

section Caught
variable {s : SCLOrkClockState} {l : List SCLOrkClockState} {time beats : ℚ}
  {clock : Option Clock}

theorem caught_later {later : ℚ} (order : time ≤ later) (running : Running (built s l))
    (caught : Caught s l time clock) : Caught s l later clock := by
  obtain ⟨c, held, way⟩ := caught
  exact ⟨c, held, Schedule.partWay_mono (beatAt_mono running order) way⟩

theorem caught_promote (caught : Caught s l time clock) : ∃ c, clock = some c ∧
    c.promote (beatAt time) = (built s l).promote (beatAt time) := by
  obtain ⟨c, held, way⟩ := caught
  exact ⟨c, held, Schedule.partWay_promote way⟩

theorem caught_advance {c : Clock} (punctual : c.Punctual beats time)
    (caught : Caught s l time (some c)) :
    Caught s l time (some (c.prAdvanceState fun _ => beats)) := by
  obtain ⟨_, ⟨⟩, way⟩ := caught
  exact ⟨_, rfl, Schedule.partWay_trans way (Schedule.partWay_taken punctual)⟩

theorem caught_queued {c : Clock} {q : SCLOrkClockState}
    (kept : c.current.applyAtBeat ≤ q.applyAtBeat)
    (read : q.applyAtBeat ≤ beats → q.applyAtBeat ≤ beatAt time c.current ∧
      ∀ r ∈ c.queue.items, q.applyAtBeat < r.applyAtBeat) (caught : Caught s l time (some c)) :
    Caught s (l ++ [q]) time (some (c.prUpdate q fun _ => beats)) := by
  obtain ⟨_, ⟨⟩, way⟩ := caught
  have put := Schedule.partWay_put way kept
  refine ⟨_, rfl, ?_⟩
  rw [built_snoc, Clock.prUpdate, if_pos kept]
  split
  · rename_i reached
    obtain ⟨due, first⟩ := read reached
    exact Schedule.partWay_trans put (Schedule.partWay_replace due first)
  · exact put

theorem caught_current {m : Member} {rest : List Update} (head : m.inbox = .current s :: rest)
    (takes : m.Takes time beats) : Caught s [] time (clockUpdate m.clock s fun _ => beats) := by
  cases held : m.clock with
  | none => exact ⟨_, rfl, Schedule.partWay_refl _ _⟩
  | some c =>
    simp only [Member.Takes, TakesPart, head, held] at takes
    obtain ⟨empty, began, reached⟩ := takes
    refine ⟨_, rfl, ?_⟩
    have updated : c.prUpdate s (fun _ => beats) = built s [] := by
      rw [Clock.prUpdate, if_pos began, if_pos reached, empty]
      rfl
    rw [updated]
    exact Schedule.partWay_refl _ _

end Caught

theorem broadcast_member {ι : Type} (s : Network ι) (updates : List Update) (j : ι) :
    ∃ more, ((s.broadcast updates).member j).inbox = (s.member j).inbox ++ more ∧
      ((s.broadcast updates).member j).clock = (s.member j).clock := by
  simp only [Network.broadcast]
  split
  · exact ⟨updates, rfl, rfl⟩
  · exact ⟨[], (List.append_nil _).symm, rfl⟩

def answer (s : SCLOrkClockState) (order : List SCLOrkClockState) : List Update :=
  .current s :: order.map .queued

/-- Of the messages that wait for the member, with the answer last, n are handled. -/
structure Answered {ι : Type} (j : ι) (ahead : List Update) (s : SCLOrkClockState)
    (order : List SCLOrkClockState) (n : Nat) (t : Network ι) : Prop where
  inbox : ∃ more, (t.member j).inbox = (ahead ++ answer s order).drop n ++ more
  caught : ahead.length < n → Caught s (order.take (n - ahead.length - 1)) t.now (t.member j).clock

theorem answered_later {ι : Type} {j : ι} {ahead : List Update} {s : SCLOrkClockState}
    {order : List SCLOrkClockState} {n : Nat} {t : Network ι} {time : ℚ}
    (first : 0 < s.tempo) (rest : ∀ q ∈ order, 0 < q.tempo)
    (passes : t.now ≤ time) (answered : Answered j ahead s order n t) :
    Answered j ahead s order n { t with now := time } := by
  refine ⟨answered.inbox, ?_⟩
  intro reached
  refine caught_later passes (built_running first ?_) (answered.caught reached)
  intro q member
  exact rest q (List.mem_of_mem_take member)

theorem answered_next {ι : Type} {j : ι} {ahead : List Update} {s : SCLOrkClockState}
    {order : List SCLOrkClockState} {n : Nat} {t : Network ι}
    (answered : Answered j ahead s order n t) {beats : ℚ} (takes : (t.member j).Takes t.now beats)
    (within : n < (ahead ++ answer s order).length) {v : Update}
    {left : List Update} (head : (t.member j).inbox = v :: left)
    (reached : ahead.length ≤ n) :
    Caught s (order.take (n + 1 - ahead.length - 1)) t.now
      (clockUpdate (t.member j).clock v.state fun _ => beats) := by
  obtain ⟨more, inbox⟩ := answered.inbox
  rw [List.drop_eq_getElem_cons within, List.getElem_append_right reached, head] at inbox
  obtain ⟨part, -⟩ := List.cons.inj inbox
  unfold answer at part within
  rcases reached.lt_or_eq with past | here
  · obtain ⟨k, rfl⟩ : ∃ k, n = ahead.length + 1 + k := ⟨n - ahead.length - 1, by omega⟩
    have at_k : k < order.length := by
      simp only [List.length_append, List.length_cons, List.length_map] at within
      omega
    have queued : v = .queued order[k] := by
      rw [part]
      simp [show ahead.length + 1 + k - ahead.length = k + 1 by omega]
    have before := answered.caught past
    rw [show ahead.length + 1 + k - ahead.length - 1 = k by omega] at before
    have ⟨c, held, _⟩ := before
    rw [held] at before ⊢
    simp only [Member.Takes, TakesPart, head, queued, held] at takes
    rw [show ahead.length + 1 + k + 1 - ahead.length - 1 = k + 1 by omega,
      List.take_succ_eq_append_getElem at_k, queued]
    exact caught_queued takes.1 takes.2 before
  · subst here
    have current : v = .current s := by simpa using part
    rw [show ahead.length + 1 - ahead.length - 1 = 0 by omega, List.take_zero, current]
    rw [current] at head
    exact caught_current head takes

variable {ι : Type} [DecidableEq ι]

def delivers (j : ι) (e : Event ι) : Bool :=
  match e.act with
  | .deliver i _ => i = j
  | _ => false

/-- What the member handles it can take in, and its timer is not early. -/
def Network.Joins (j : ι) (s : Network ι) (e : Event ι) : Prop :=
  match e.act with
  | .deliver i beats => i = j → (s.member j).Takes e.time beats
  | .advance i beats => i = j → ∀ c ∈ (s.member j).clock, Clock.Punctual c beats e.time
  | _ => True

instance (j : ι) (s : Network ι) : ∀ e, Decidable (s.Joins j e)
  | ⟨.deliver i beats, time⟩ =>
    inferInstanceAs (Decidable (i = j → (s.member j).Takes time beats))
  | ⟨.advance i beats, time⟩ => inferInstanceAs (Decidable (i = j →
      ∀ c ∈ (s.member j).clock, Clock.Punctual c beats time))
  | ⟨.connect _, _⟩ | ⟨.getAll _, _⟩ | ⟨.new _ _ _ _, _⟩ | ⟨.setTempoAtBeat _ _ _, _⟩
  | ⟨.serve _ _, _⟩ => isTrue trivial

inductive Touches (j : ι) (s t : Network ι) : Act ι → Prop
  | delivered {u : Update} {rest : List Update} {beats : ℚ}
      (head : (s.member j).inbox = u :: rest) (inbox : (t.member j).inbox = rest)
      (clock : (t.member j).clock = clockUpdate (s.member j).clock u.state fun _ => beats) :
      Touches j s t (.deliver j beats)
  | advanced {c : Clock} {beats : ℚ} (more : List Update)
      (inbox : (t.member j).inbox = (s.member j).inbox ++ more)
      (held : (s.member j).clock = some c)
      (clock : (t.member j).clock = some (c.prAdvanceState fun _ => beats)) :
      Touches j s t (.advance j beats)
  | made {a : Act ι} {c : Clock} (other : delivers j ⟨a, s.now⟩ = false) (more : List Update)
      (inbox : (t.member j).inbox = (s.member j).inbox ++ more)
      (none_held : (s.member j).clock = none) (clock : (t.member j).clock = some c) :
      Touches j s t a
  | left {a : Act ι} (other : delivers j ⟨a, s.now⟩ = false) (more : List Update)
      (inbox : (t.member j).inbox = (s.member j).inbox ++ more)
      (clock : (t.member j).clock = (s.member j).clock) : Touches j s t a

section Touches
variable {j i : ι} {s t : Network ι} {a : Act ι}

theorem touches_set {m : Member} (other : delivers j ⟨a, s.now⟩ = false)
    (inbox : m.inbox = (s.member i).inbox) (clock : m.clock = (s.member i).clock) :
    Touches j s (s.set i m) a := by
  by_cases same : j = i
  · subst same
    exact .left other [] (by simp [inbox]) (by simp [clock])
  · exact .left other [] (by simp [set_other s m same]) (by rw [set_other s m same])

theorem touches_other {m : Member} (other : delivers j ⟨a, s.now⟩ = false) (apart : j ≠ i) :
    Touches j s (s.set i m) a :=
  .left other [] (by simp [set_other s m apart]) (by rw [set_other s m apart])

theorem serve_touches (s : Network ι) (i : ι) (r : Request) (rest : List Request)
    (order : List SCLOrkClockState) (j : ι) :
    Touches j s (s.serve i r rest order) (.serve i order) := by
  simp only [Network.serve]
  generalize hm : ({ s.member i with
    outbox := rest
    inbox := (s.member i).inbox ++ reply s.cohort r s.now order } : Member) = m
  obtain ⟨more, inbox, clock⟩ := broadcast_member (s.set i m) (prSendAll s.cohort r) j
  by_cases same : j = i
  · subst same
    subst hm
    exact .left rfl (reply s.cohort r s.now order ++ more) (inbox.trans (by simp))
      (clock.trans (by simp))
  · rw [set_other s m same] at inbox clock
    exact .left rfl more inbox clock

theorem act_touches (ran : s.act a = some t) (j : ι) : Touches j s t a ∧ t.now = s.now := by
  cases a with
  | connect i | getAll i =>
    cases ran
    exact ⟨touches_set rfl rfl rfl, rfl⟩
  | new i cohortName tempo beatsPerBar =>
    cases ran
    refine ⟨?_, rfl⟩
    by_cases same : j = i
    · subst same
      cases held : (s.member j).clock with
      | none => exact .made rfl [] (by simp) held (by rw [set_member]; rfl)
      | some c => exact .left rfl [] (by simp) (by simp [held, newClock])
    · exact touches_other rfl same
  | setTempoAtBeat i newTempo beats =>
    obtain ⟨c, held, rfl⟩ := Option.map_eq_some_iff.mp ran
    exact ⟨touches_set rfl rfl rfl, rfl⟩
  | serve i order =>
    simp only [Network.act] at ran
    split at ran
    · cases ran
    · rename_i r rest asked
      split at ran
      · cases ran
        exact ⟨serve_touches s i r rest order j, rfl⟩
      · cases ran
  | deliver i beats =>
    simp only [Network.act] at ran
    split at ran
    · cases ran
    · rename_i u rest head
      cases ran
      refine ⟨?_, rfl⟩
      by_cases same : j = i
      · subst same
        exact .delivered head (by simp) (by simp)
      · exact touches_other (by simp [delivers, Ne.symm same]) same
  | advance i beats =>
    obtain ⟨c, held, rfl⟩ := Option.map_eq_some_iff.mp ran
    refine ⟨?_, rfl⟩
    by_cases same : j = i
    · subst same
      exact .advanced [] (by simp) held (by simp)
    · exact touches_other rfl same

end Touches

section Answered
variable {j : ι} {ahead : List Update} {s : SCLOrkClockState} {order : List SCLOrkClockState}
  {n : Nat} {t u : Network ι}

theorem answered_act {a : Act ι} (answered : Answered j ahead s order n t)
    (joins : t.Joins j ⟨a, t.now⟩) (ran : t.act a = some u)
    (within : (if delivers j ⟨a, t.now⟩ then n + 1 else n) ≤
      (ahead ++ answer s order).length) :
    Answered j ahead s order (if delivers j ⟨a, t.now⟩ then n + 1 else n) u := by
  obtain ⟨touches, now⟩ := act_touches ran j
  obtain ⟨more, inbox⟩ := answered.inbox
  cases touches with
  | delivered head inbox' clock =>
    rename_i v left beats
    have here : delivers j ⟨.deliver j beats, t.now⟩ = true := by simp [delivers]
    rw [if_pos here] at within ⊢
    rw [List.drop_eq_getElem_cons within, head] at inbox
    constructor
    · exact ⟨more, inbox'.trans (List.cons.inj inbox).2⟩
    · intro reached
      rw [clock, now]
      exact answered_next answered (joins rfl) within head (by omega)
  | advanced further inbox' held clock =>
    constructor
    · exact ⟨more ++ further, by rw [inbox', inbox, List.append_assoc]; rfl⟩
    · intro reached
      rw [clock, now]
      exact caught_advance (joins rfl _ held) (held ▸ answered.caught reached)
  | made other further inbox' held clock =>
    rw [if_neg (by simp [other])]
    constructor
    · exact ⟨more ++ further, by rw [inbox', inbox, List.append_assoc]⟩
    · intro reached
      obtain ⟨c, holds, -⟩ := answered.caught reached
      rw [held] at holds
      cases holds
  | left other further inbox' clock =>
    rw [if_neg (by simp [other])]
    constructor
    · exact ⟨more ++ further, by rw [inbox', inbox, List.append_assoc]⟩
    · intro reached
      rw [clock, now]
      exact answered.caught reached

theorem answered_run {es : List (Event ι)} (first : 0 < s.tempo)
    (rest : ∀ q ∈ order, 0 < q.tempo) (answered : Answered j ahead s order 0 t)
    (joins : Along Network.step (Network.Joins j) t es) (ran : run Network.step t es = some u)
    (within : es.countP (delivers j) ≤ (ahead ++ answer s order).length) :
    Answered j ahead s order (es.countP (delivers j)) u := by
  have steps := run_history (fun past t => past.countP (delivers j) ≤
      (ahead ++ answer s order).length →
        Answered j ahead s order (past.countP (delivers j)) t) ?_ [] (fun _ => answered) joins ran
  · exact steps (by simpa using within)
  · intro past t e v before joins step within
    unfold Network.step at step
    split at step
    · rename_i passes
      have count : (past ++ [e]).countP (delivers j) =
          if delivers j e then past.countP (delivers j) + 1 else past.countP (delivers j) := by
        rw [List.countP_append, List.countP_singleton]
        split <;> rfl
      rw [count] at within ⊢
      have fewer : past.countP (delivers j) ≤
          (ahead ++ answer s order).length := by
        split at within <;> omega
      have later := answered_later first rest passes (before fewer)
      exact answered_act later (by cases e; exact joins) step within
    · cases step

end Answered

theorem serve_answers {t : Network ι} {j : ι} {r : Request} {rest : List Request}
    {c : Cohort} {order : List SCLOrkClockState} (asked : r.isChange = false)
    (keeps : t.cohort = some c) :
    ((t.serve j r rest order).member j).inbox =
      (t.member j).inbox ++ answer (c.prGroomState t.now).current order := by
  cases r with
  | change state => cases asked
  | getAll | create =>
    simp only [Network.serve, Network.broadcast, keeps, prSendAll, reply]
    split <;> simp [Cohort.prSendState, answer]

/-- A request that asks for a cohort the server keeps is answered with what stands there, and
    a member that takes in every part of the answer keeps what the server kept, once both have
    promoted what is due. -/
theorem join_agrees {t answered later : Network ι} {j : ι} {r : Request} {rest : List Request}
    {c : Cohort} {time : ℚ} {order : List SCLOrkClockState} {es : List (Event ι)}
    (asks : (t.member j).outbox = r :: rest) (asked : r.isChange = false)
    (keeps : t.cohort = some c) (running : Running c)
    (serve : t.step ⟨.serve j order, time⟩ = some answered)
    (inOrder : built (c.prGroomState time).current order = c.prGroomState time)
    (joins : Along Network.step (Network.Joins j) answered es)
    (ran : run Network.step answered es = some later)
    (handled : es.countP (delivers j) = (answered.member j).inbox.length) :
    ∃ clock, (later.member j).clock = some clock ∧
      (clock.prAdvanceState (beatAt later.now)).current =
        ((c.prGroomState time).prGroomState later.now).current ∧
      (clock.prAdvanceState (beatAt later.now)).queue =
        ((c.prGroomState time).prGroomState later.now).queue ∧
      ∀ after ≥ later.now,
        (clock.prAdvanceState (beatAt after)).current.secs2beats
            (serverToLocalTime (later.member j).timeDiff after) (later.member j).timeDiff =
          ((c.prGroomState time).prGroomState after).current.secs2beats after 0 := by
  have groomed : Running (c.prGroomState time) := promote_running running _
  have first : 0 < (c.prGroomState time).current.tempo := groomed _ List.mem_cons_self
  unfold Network.step at serve
  split at serve
  · simp only [Network.act, asks] at serve
    split at serve
    · rename_i permuted
      cases serve
      have inbox : ((Network.serve { t with now := time } j r rest order).member j).inbox =
          (t.member j).inbox ++ answer (c.prGroomState time).current order :=
        serve_answers asked keeps
      have waits : waiting t.cohort r time = (c.prGroomState time).queue.items := by
        cases r with
        | change state => cases asked
        | getAll | create => rw [keeps]; rfl
      have others : ∀ q ∈ order, 0 < q.tempo := fun q member =>
        groomed q (List.mem_cons_of_mem _ (waits ▸ permuted.mem_iff.mp member))
      have start : Answered j (t.member j).inbox (c.prGroomState time).current order 0
          (Network.serve { t with now := time } j r rest order) :=
        ⟨⟨[], by simpa using inbox⟩, fun reached => absurd reached (Nat.not_lt_zero _)⟩
      have done := answered_run first others start joins ran (by rw [handled, inbox])
      rw [handled, inbox] at done
      have caught := done.caught (by simp [answer])
      simp only [List.length_append, answer, List.length_cons, List.length_map] at caught
      rw [show (t.member j).inbox.length + (order.length + 1) - (t.member j).inbox.length - 1 =
        order.length by omega, List.take_length] at caught
      obtain ⟨clock, held, same⟩ := caught_promote caught
      rw [inOrder] at same
      refine ⟨clock, held, congrArg Schedule.current same, congrArg Schedule.queue same, ?_⟩
      intro after passes
      obtain ⟨_, again, equal⟩ :=
        caught_promote (caught_later passes (built_running first others) caught)
      cases held.symm.trans again
      rw [Clock.prAdvanceState, equal, inOrder, serverToLocalTime,
        SCLOrkClockState.secs2beats_local]
      rfl
    · cases serve
  · cases serve

def joining (beat now : ℚ) : Network Bool where
  now := now
  cohort := some (Cohort.new (atBeat beat 1))
  member
    | true => ⟨0, true, some (Clock.prInit (atBeat beat 1)), [], []⟩
    | false => ⟨3, true, none, [], []⟩

def kept : Cohort := (Cohort.new (atBeat 0 1)).put (atBeat 10 2)

/-- With a change for beat ten waiting, member false asks at one second and hears at two. -/
def asking : Network Bool :=
  { joining 0 1 with
    cohort := some kept
    member
      | true => ⟨0, true, some kept, [], []⟩
      | false => ⟨3, true, none, [], [.getAll]⟩ }

def told : Network Bool := (asking.step ⟨.serve false [atBeat 10 2], 1⟩).get (by decide +kernel)

def hearing : List (Event Bool) := [⟨.deliver false 2, 2⟩, ⟨.deliver false 2, 2⟩]

def joined : Network Bool := (run Network.step told hearing).get (by decide +kernel)

theorem join_agrees_asking : ∃ clock, (joined.member false).clock = some clock ∧
    (clock.prAdvanceState (beatAt joined.now)).current =
      ((kept.prGroomState 1).prGroomState joined.now).current ∧
    (clock.prAdvanceState (beatAt joined.now)).queue =
      ((kept.prGroomState 1).prGroomState joined.now).queue ∧
    ∀ after ≥ joined.now,
      (clock.prAdvanceState (beatAt after)).current.secs2beats
          (serverToLocalTime (joined.member false).timeDiff after) (joined.member false).timeDiff =
        ((kept.prGroomState 1).prGroomState after).current.secs2beats after 0 :=
  join_agrees (t := asking) (j := false) (r := .getAll) (c := kept) rfl rfl rfl
    (put_running (new_running (by decide)) (by decide)) (Option.some_get _).symm
    (by decide +kernel) (by decide +kernel : Along Network.step (Network.Joins false) told hearing)
    (Option.some_get _).symm (by decide +kernel)

/-- A clock made at beat 105 of the cohort counts from zero. -/
def inventing : List (Event Bool) :=
  [⟨.new false "default" 1 4, 105⟩, ⟨.serve false [], 105⟩, ⟨.deliver false 0, 105⟩]

/-- A change is relayed to a member that is about to ask. The clock it makes of the change
    reads six beats before zero. -/
def overtaken : List (Event Bool) :=
  [⟨.setTempoAtBeat true 2 10, 1⟩, ⟨.serve true [], 1⟩, ⟨.getAll false, 1⟩,
    ⟨.serve false [atBeat 10 2], 1⟩, ⟨.deliver false (-6), 2⟩, ⟨.deliver false (-6), 2⟩,
    ⟨.deliver false (-6), 2⟩]

def invented : Network Bool :=
  (run Network.step (joining 100 105) inventing).get (by decide +kernel)

def misled : Network Bool := (run Network.step (joining 0 1) overtaken).get (by decide +kernel)

/-- The first queues the current state of the cohort, as it is for a beat it has not reached.
    The second takes the change for the current state and drops the current state. -/
theorem join_disagrees :
    (run Network.step (joining 100 105) inventing = some invented ∧
      (invented.member false).inbox = [] ∧ ∃ clock, (invented.member false).clock = some clock ∧
        (clock.prAdvanceState (beatAt 105)).current ≠
          ((Cohort.new (atBeat 100 1)).prGroomState 105).current) ∧
      run Network.step (joining 0 1) overtaken = some misled ∧
        (misled.member false).inbox = [] ∧ ∃ clock, (misled.member false).clock = some clock ∧
          (clock.prAdvanceState (beatAt 2)).current ≠ (kept.prGroomState 2).current := by
  constructor
  · refine ⟨(Option.some_get _).symm, by decide +kernel, ?_⟩
    exact ⟨(invented.member false).clock.get (by decide +kernel), (Option.some_get _).symm,
      by decide +kernel⟩
  · refine ⟨(Option.some_get _).symm, by decide +kernel, ?_⟩
    exact ⟨(misled.member false).clock.get (by decide +kernel), (Option.some_get _).symm,
      by decide +kernel⟩

end SCLOrkClock
