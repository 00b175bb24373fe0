import SCLOrkTools.Library.GuardedRun
import SCLOrkTools.Wire.StateMachine

/- One SCLOrkWireSendRetry from its first message to its end. The firing that finds no retries
   left reports a failure without asking keepGoing, and stop does not take the function off
   the clock. -/
namespace SCLOrkWire
open GuardedRun RingBuffer WrapInteger
variable {Args T : Type}

inductive Outcome where
  | sends | finishes | fails
  deriving DecidableEq, Repr

/-- retryFunction, given what keepGoing.value would answer. -/
def SendRetry.retryFunction (r : SendRetry Args) (keepGoing : Bool) : SendRetry Args × Outcome :=
  if r.retries < r.maxRetries then
    if keepGoing then ({ r with retries := r.retries + 1, nextTime := true }, .sends)
    else ({ r with nextTime := false, scheduled := false }, .finishes)
  else ({ r with nextTime := false, scheduled := false }, .fails)

/-- A firing of the timer: when it was, what it did, and whether stop had been called. -/
structure Deed (T : Type) where
  time : T
  outcome : Outcome
  stopped : Bool

/-- `stopped` and `deeds` are history. init sends the first message. -/
structure Job (Args T : Type) where
  retry : SendRetry Args
  stopped : Bool
  deeds : List (Deed T)

inductive JobEvent (T : Type) where
  | fire (time : T)
  | stop
  deriving DecidableEq

def Job.new (netAddr : NetAddr) (request : Request Args) (maxRetries : Nat) : Job Args T :=
  ⟨SendRetry.new netAddr request maxRetries, false, []⟩

def Job.step (keepGoing : T → Bool) (j : Job Args T) : JobEvent T → Option (Job Args T)
  | .fire time =>
    if j.retry.scheduled then some { j with
      retry := (j.retry.retryFunction (keepGoing time)).1
      deeds := j.deeds ++ [⟨time, (j.retry.retryFunction (keepGoing time)).2, j.stopped⟩] }
    else none
  | .stop => some { j with retry := j.retry.stop, stopped := true }

def Job.run (keepGoing : T → Bool) (j : Job Args T) (es : List (JobEvent T)) :
    Option (Job Args T) := GuardedRun.run (Job.step keepGoing) j es

def Job.count (j : Job Args T) (outcome : Outcome) : Nat := j.deeds.countP (·.outcome = outcome)

/-- At most maxRetries + 1 messages and one call of onFail, this only while keepGoing holds,
    and neither of them after stop. -/
structure Job.Proper (keepGoing : T → Bool) (j : Job Args T) : Prop where
  sends : j.count .sends + 1 ≤ j.retry.maxRetries + 1
  fails : j.count .fails ≤ 1
  wanted : ∀ d ∈ j.deeds, d.outcome = .fails → keepGoing d.time = true
  silent : ∀ d ∈ j.deeds, d.stopped = true → d.outcome = .finishes

def firings (es : List (JobEvent T)) : Nat := es.countP fun
  | .fire _ => true
  | .stop => false

/-- A firing that finds keepGoing true comes before any stop, and one that finds it false is
    one of the first maxRetries. -/
def OnTime (keepGoing : T → Bool) (maxRetries : Nat) (es : List (JobEvent T)) : Prop :=
  ∀ pre time post, es = pre ++ .fire time :: post →
    if keepGoing time then JobEvent.stop ∉ pre else firings pre < maxRetries

theorem firings_snoc_fire (es : List (JobEvent T)) (time : T) :
    firings (es ++ [.fire time]) = firings es + 1 := by
  simp [firings]

theorem firings_snoc_stop (es : List (JobEvent T)) : firings (es ++ [.stop]) = firings es := by
  simp [firings]

structure Job.Kept (m : Nat) (past : List (JobEvent T)) (j : Job Args T) : Prop where
  limit : j.retry.maxRetries = m
  fired : j.retry.scheduled = true → j.retry.retries = firings past
  within : j.retry.retries ≤ m
  sends : j.count .sends = j.retry.retries
  fails : j.count .fails + j.retry.scheduled.toNat ≤ 1
  stopped : j.stopped = true ↔ JobEvent.stop ∈ past

theorem count_snoc (j : Job Args T) (r : SendRetry Args) (stopped : Bool) (d : Deed T)
    (outcome : Outcome) : Job.count ⟨r, stopped, j.deeds ++ [d]⟩ outcome =
      j.count outcome + if d.outcome = outcome then 1 else 0 := by
  simp [Job.count, List.countP_append, List.countP_cons]

theorem kept_new (a : NetAddr) (q : Request Args) (m : Nat) :
    Job.Kept m [] (Job.new a q m : Job Args T) where
  limit := rfl
  fired := fun _ => rfl
  within := Nat.zero_le m
  sends := rfl
  fails := Nat.le_refl 1
  stopped := by simp [Job.new]

theorem kept_step {keepGoing : T → Bool} {m : Nat} {past : List (JobEvent T)} {j next : Job Args T}
    {e : JobEvent T} (kept : j.Kept m past) (step : j.step keepGoing e = some next) :
    next.Kept m (past ++ [e]) := by
  obtain ⟨limit, fired, within, sends, fails, stopped⟩ := kept
  cases e with
  | stop =>
    cases step
    refine ⟨limit, ?_, within, sends, fails, ?_⟩
    · rw [firings_snoc_stop]
      exact fired
    · exact iff_of_true rfl (List.mem_append_right _ List.mem_cons_self)
  | fire time =>
    simp only [Job.step] at step
    split at step
    · rename_i scheduled
      cases step
      have again := fired scheduled
      have stays : j.stopped = true ↔ JobEvent.stop ∈ past ++ [.fire time] := by
        rw [stopped]
        simp
      rw [scheduled] at fails
      unfold SendRetry.retryFunction
      by_cases left : j.retry.retries < j.retry.maxRetries
      · cases going : keepGoing time with
        | true =>
          simp only [left, if_true]
          refine ⟨limit, ?_, ?_, ?_, ?_, stays⟩
          · intro _
            rw [firings_snoc_fire, ← again]
          · change j.retry.retries + 1 ≤ m
            omega
          · rw [count_snoc, sends]
            rfl
          · rw [count_snoc]
            simpa [scheduled] using fails
        | false =>
          simp only [left, if_true]
          refine ⟨limit, (fun on => by cases on), within, ?_, ?_, stays⟩
          · rw [count_snoc, sends]
            rfl
          · rw [count_snoc]
            simp only [Bool.toNat_true] at fails
            simpa using (by omega : j.count .fails ≤ 1)
      · simp only [left, if_false]
        refine ⟨limit, (fun on => by cases on), within, ?_, ?_, stays⟩
        · rw [count_snoc, sends]
          rfl
        · rw [count_snoc]
          simp only [Bool.toNat_true] at fails
          simpa using (by omega : j.count .fails = 0)
    · cases step

theorem run_kept {keepGoing : T → Bool} {a : NetAddr} {q : Request Args} {m : Nat}
    {es : List (JobEvent T)} {j : Job Args T} (ran : (Job.new a q m).run keepGoing es = some j) :
    j.Kept m es :=
  run_keeps_history (fun past j => j.Kept m past)
    (fun _ _ _ _ kept step => kept_step kept step) (kept_new a q m) ran

section Firing
variable {keepGoing : T → Bool} {m : Nat} {past : List (JobEvent T)} {j next : Job Args T}
  {time : T}

theorem fire_deed (step : j.step keepGoing (.fire time) = some next) :
    j.retry.scheduled = true ∧ next.deeds =
      j.deeds ++ [⟨time, (j.retry.retryFunction (keepGoing time)).2, j.stopped⟩] := by
  simp only [Job.step] at step
  split at step
  · rename_i scheduled
    cases step
    exact ⟨scheduled, rfl⟩
  · cases step

/-- A firing does right exactly when it is on time. -/
theorem fire_right_iff (kept : j.Kept m past) (scheduled : j.retry.scheduled = true) :
    (((j.retry.retryFunction (keepGoing time)).2 = .fails → keepGoing time = true) ∧
      (j.stopped = true → (j.retry.retryFunction (keepGoing time)).2 = .finishes)) ↔
    if keepGoing time then JobEvent.stop ∉ past else firings past < m := by
  have again := kept.fired scheduled
  rw [← kept.stopped, ← kept.limit, ← again]
  unfold SendRetry.retryFunction
  by_cases left : j.retry.retries < j.retry.maxRetries
  · cases going : keepGoing time <;> simp [left]
  · cases going : keepGoing time <;> simp [left]

end Firing

theorem deeds_extend {keepGoing : T → Bool} {es : List (JobEvent T)} {j k : Job Args T}
    (ran : j.run keepGoing es = some k) : j.deeds <+: k.deeds := by
  refine run_keeps (fun k => j.deeds <+: k.deeds) ?_ (List.prefix_refl _) ran
  intro k e next before step
  cases e with
  | stop =>
    cases step
    exact before
  | fire time =>
    rw [(fire_deed step).2]
    exact before.trans (List.prefix_append _ _)

theorem proper_iff {keepGoing : T → Bool} {a : NetAddr} {q : Request Args} {m : Nat}
    {es : List (JobEvent T)} {j : Job Args T}
    (ran : (Job.new a q m).run keepGoing es = some j) :
    j.Proper keepGoing ↔ OnTime keepGoing m es := by
  constructor
  · intro proper pre time post shape
    subst shape
    obtain ⟨before, front, back⟩ := run_append.mp ran
    obtain ⟨after, step, rest⟩ := run_cons.mp back
    obtain ⟨scheduled, deeds⟩ := fire_deed step
    have mem : ⟨time, (before.retry.retryFunction (keepGoing time)).2, before.stopped⟩ ∈
        j.deeds := (deeds_extend rest).subset (by rw [deeds]; simp)
    exact (fire_right_iff (run_kept front) scheduled).mp
      ⟨proper.wanted _ mem, proper.silent _ mem⟩
  · intro onTime
    have right := run_keeps_history (fun past (j : Job Args T) => j.Kept m past ∧
      (OnTime keepGoing m past → ∀ d ∈ j.deeds,
        (d.outcome = .fails → keepGoing d.time = true) ∧
          (d.stopped = true → d.outcome = .finishes))) ?_
      ⟨kept_new a q m, fun _ d mem => by cases mem⟩ ran
    · obtain ⟨kept, deeds⟩ := right
      have sends := kept.sends
      have within := kept.within
      have fails := kept.fails
      refine ⟨by rw [kept.limit]; omega, by omega, ?_, ?_⟩
      · exact fun d mem => (deeds onTime d mem).1
      · exact fun d mem => (deeds onTime d mem).2
    · rintro past j e next ⟨kept, before⟩ step
      refine ⟨kept_step kept step, ?_⟩
      intro onTime d mem
      have earlier : OnTime keepGoing m past := fun pre time post shape =>
        onTime pre time (post ++ [e]) (by simp [shape])
      cases e with
      | stop =>
        cases step
        exact before earlier d mem
      | fire time =>
        obtain ⟨scheduled, deeds⟩ := fire_deed step
        rw [deeds] at mem
        rcases List.mem_append.mp mem with old | new
        · exact before earlier d old
        · rw [List.mem_singleton.mp new]
          exact (fire_right_iff kept scheduled).mpr (onTime past time [] rfl)

/- The retries of a wire are such jobs. Their times are the wires that the timers find. -/

def Wire.stops (w : Wire Args) : Stimulus Args → Option Nat
  | .packet _ (.wireConnectAccept responderId _) =>
    if w.listening ∧ responderId = w.id then w.connectionRetry else none
  | .packet _ (.wireConnectConfirm initiatorId) =>
    if w.listening ∧ initiatorId = some w.id then w.connectionRetry else none
  | .packet _ (.wireAck senderId serial) =>
    if w.listening ∧ senderId = some w.id ∧ serial = following w.sendAckSerial then
      w.sendBuffer.wrapAtInt (signed serial)
    else none
  | .packet _ (.wireDisconnectConfirm senderId) =>
    if w.listening ∧ senderId = some w.id then w.connectionRetry else none
  | _ => none

def Wire.jobEvents (w : Wire Args) (ref : Nat) (s : Stimulus Args) : List (JobEvent (Wire Args)) :=
  match w.retries[ref]?, s with
  | none, _ => []
  | some r, .timer k => if k = ref ∧ r.scheduled then [.fire w] else []
  | some _, s => if w.stops s = some ref then [.stop] else []

def Wire.trace (ref : Nat) : Wire Args → List (Stimulus Args) → List (JobEvent (Wire Args))
  | _, [] => []
  | w, s :: es => w.jobEvents ref s ++ Wire.trace ref (w.react s).wire es

theorem trace_snoc (ref : Nat) (w : Wire Args) (es : List (Stimulus Args)) (s : Stimulus Args) :
    w.trace ref (es ++ [s]) = w.trace ref es ++ (w.after es).jobEvents ref s := by
  induction es generalizing w with
  | nil => simp [Wire.trace, Wire.after]
  | cons e es ih =>
    change w.jobEvents ref e ++ (w.react e).wire.trace ref (es ++ [s]) = _
    rw [ih, ← List.append_assoc]
    rfl

def Wire.retryAfter (w : Wire Args) (ref : Nat) (r : SendRetry Args) (s : Stimulus Args) :
    SendRetry Args :=
  match s with
  | .timer k =>
    if k = ref ∧ r.scheduled then (r.retryFunction (w.keepGoing r.request)).1 else r
  | s => if w.stops s = some ref then r.stop else r

theorem getElem?_modify_stop {l : List (SendRetry Args)} {ref k : Nat} {r : SendRetry Args}
    (found : l[ref]? = some r) :
    (l.modify k SendRetry.stop)[ref]? = some (if some k = some ref then r.stop else r) := by
  rw [List.getElem?_modify, found]
  by_cases same : k = ref <;> simp [same]

theorem getElem?_set_retry {l : List (SendRetry Args)} {ref : Nat} {r : SendRetry Args}
    (found : l[ref]? = some r) (q : SendRetry Args) : (l.set ref q)[ref]? = some q := by
  obtain ⟨inside, -⟩ := List.getElem?_eq_some_iff.mp found
  simp [inside]

section After
variable {w : Wire Args} {ref : Nat} {r : SendRetry Args}

theorem call_retryAfter (found : w.retries[ref]? = some r) (c : Call Args) :
    (w.call c).wire.retries[ref]? = some r := by
  have pushed (q : SendRetry Args) : (w.retries ++ [q])[ref]? = some r := by
    obtain ⟨inside, -⟩ := List.getElem?_eq_some_iff.mp found
    rw [List.getElem?_append_left inside, found]
  have reacts := call_reacts w c
  generalize w.call c = r' at reacts
  cases reacts with
  | idle refused => exact found
  | knock may | connect may | disconnect connected addr => simpa using pushed _
  | sendMsg connected addr => exact pushed _
  | sendMsgNil connected addr => exact found
  | disconnectNil connected addr => simpa using found
  | prDropLine => exact found

theorem timer_retryAfter (found : w.retries[ref]? = some r) (k : Nat) :
    (w.retryFunction k).wire.retries[ref]? = some (w.retryAfter ref r (.timer k)) := by
  unfold Wire.retryFunction Wire.retryAfter
  cases there : w.retries[k]? with
  | none =>
    have other : k ≠ ref := by
      rintro rfl
      rw [found] at there
      cases there
    simpa [other] using found
  | some q =>
    by_cases same : k = ref
    · subst same
      cases found.symm.trans there
      cases scheduled : r.scheduled with
      | false => simpa [scheduled] using found
      | true =>
        unfold SendRetry.retryFunction
        by_cases left : r.retries < r.maxRetries
        · cases going : w.keepGoing r.request <;>
            simp [scheduled, left, going, Wire.setRetry, getElem?_set_retry found]
        · simp [scheduled, left, Wire.setRetry, getElem?_set_retry found]
    · have stays (q' : SendRetry Args) : (w.retries.set k q')[ref]? = some r := by
        rw [List.getElem?_set_ne same, found]
      simp only [same, false_and, if_false]
      split
      · split
        · split
          · exact stays _
          · exact stays _
        · simpa [Wire.setRetry] using stays _
      · exact found

theorem packet_retryAfter (found : w.retries[ref]? = some r) (ip : Nat) (p : Packet Args) :
    (w.receive ip p).wire.retries[ref]? = some (w.retryAfter ref r (.packet ip p)) := by
  have pushed (q : SendRetry Args) : (w.retries ++ [q])[ref]? = some r := by
    obtain ⟨inside, -⟩ := List.getElem?_eq_some_iff.mp found
    rw [List.getElem?_append_left inside, found]
  have stopped (k : Nat) := getElem?_modify_stop (k := k) found
  unfold Wire.receive Wire.retryAfter
  by_cases listens : w.listening = true
  · cases p with
    | wireKnock => simpa [listens, Wire.stops] using found
    | wireConnectRequest returnPort responderId =>
      simp only [listens, if_true, Wire.stops, Wire.connectRequestOSCFunc]
      split
      · simpa using pushed _
      · simpa using found
    | wireConnectAccept responderId initiatorId =>
      simp only [listens, if_true, Wire.stops, Wire.connectAcceptOSCFunc, true_and]
      split
      · cases retry : w.connectionRetry with
        | none => simpa using found
        | some k => simpa [Wire.stopRetry] using stopped k
      · simpa using found
    | wireConnectConfirm initiatorId =>
      simp only [listens, if_true, Wire.stops, Wire.connectConfirmOSCFunc, true_and]
      split
      · cases retry : w.connectionRetry with
        | none => simpa using found
        | some k => simpa [Wire.stopRetry] using stopped k
      · simpa using found
    | wireSend senderId serial args =>
      have reacts := send_reacts w listens ip senderId serial args
      simp only [listens, if_true, Wire.stops]
      generalize w.sendOSCFunc senderId serial args = r' at reacts
      cases reacts <;> simpa using found
    | wireAck senderId serial =>
      simp only [listens, if_true, Wire.stops, Wire.ackOSCFunc, true_and]
      by_cases own : senderId = some w.id
      · by_cases next : serial = following w.sendAckSerial
        · simp only [own, next, if_true, true_and]
          cases slot : w.sendBuffer.wrapAtInt (signed (following w.sendAckSerial)) with
          | none => simpa using found
          | some k => simpa [Wire.stopRetry] using stopped k
        · simpa [own, next] using found
      · simpa [own] using found
    | wireDisconnect senderId =>
      simp only [listens, if_true, Wire.stops, Wire.disconnectOSCFunc]
      split
      · split <;> simpa using found
      · simpa using found
    | wireDisconnectConfirm senderId =>
      simp only [listens, if_true, Wire.stops, Wire.disconnectConfirmOSCFunc, true_and]
      split
      · cases retry : w.connectionRetry with
        | none => simpa using found
        | some k => simpa [Wire.stopRetry] using stopped k
      · simpa using found
  · have quiet : w.stops (.packet ip p) = none := by
      cases p <;> simp [Wire.stops, listens]
    simpa [listens, quiet] using found

theorem react_retryAfter (found : w.retries[ref]? = some r) (s : Stimulus Args) :
    (w.react s).wire.retries[ref]? = some (w.retryAfter ref r s) := by
  cases s with
  | call c => exact call_retryAfter found c
  | timer k => exact timer_retryAfter found k
  | packet ip p => exact packet_retryAfter found ip p

end After

theorem react_pushes {w : Wire Args} {ref : Nat} {r : SendRetry Args} {s : Stimulus Args}
    (absent : w.retries[ref]? = none) (found : (w.react s).wire.retries[ref]? = some r) :
    ∃ a q, r = SendRetry.new a q w.maxRetries := by
  have beyond := List.getElem?_eq_none_iff.mp absent
  have pushed {a : NetAddr} {q : Request Args}
      (found : (w.retries ++ [SendRetry.new a q w.maxRetries])[ref]? = some r) :
      ∃ a q, r = SendRetry.new a q w.maxRetries := by
    rw [List.getElem?_append_right beyond] at found
    exact ⟨a, q, List.mem_singleton.mp (List.mem_of_getElem? found)⟩
  have reacts := react_reacts w s
  generalize w.react s = r' at reacts found
  cases reacts with
  | knock may | connect may | disconnect connected addr | connectRequest listens may =>
    exact pushed (by simpa using found)
  | sendMsg connected addr => exact pushed found
  | connectAccept | connectConfirm | ackHeld | disconnectConfirm =>
    simp [Wire.stopRetry, List.getElem?_modify, absent] at found
  | retryAgain | retryDone | retryFailed =>
    obtain ⟨inside, -⟩ := List.getElem?_eq_some_iff.mp found
    have within : ref < w.retries.length := by simpa [Wire.setRetry] using inside
    omega
  | _ => simp [absent] at found

theorem retryFunction_constants (r : SendRetry Args) (keepGoing : Bool) :
    (r.retryFunction keepGoing).1.request = r.request := by
  unfold SendRetry.retryFunction
  split
  · split <;> rfl
  · rfl

theorem job_react {w : Wire Args} {ref : Nat} {s : Stimulus Args} {q : Request Args}
    {j : Job Args (Wire Args)} (found : w.retries[ref]? = some j.retry)
    (request : j.retry.request = q) :
    ∃ k, j.run (fun v => v.keepGoing q) (w.jobEvents ref s) = some k ∧
      (w.react s).wire.retries[ref]? = some k.retry ∧ k.retry.request = q := by
  rw [react_retryAfter found s]
  have stopped (t : Stimulus Args) : ∃ k,
      j.run (fun v => v.keepGoing q) (if w.stops t = some ref then [.stop] else []) = some k ∧
        some (if w.stops t = some ref then j.retry.stop else j.retry) = some k.retry ∧
          k.retry.request = q := by
    split
    · exact ⟨_, rfl, rfl, request⟩
    · exact ⟨j, rfl, rfl, request⟩
  unfold Wire.jobEvents Wire.retryAfter
  rw [found]
  cases s with
  | call c => exact stopped (.call c)
  | packet ip p => exact stopped (.packet ip p)
  | timer k =>
    by_cases fires : k = ref ∧ j.retry.scheduled = true
    · simp only [if_pos fires]
      refine ⟨_, run_cons.mpr ⟨_, if_pos fires.2, rfl⟩, ?_, ?_⟩
      · rw [request]
      · rw [retryFunction_constants, request]
    · simp only [if_neg fires]
      exact ⟨j, rfl, rfl, request⟩

section Runs
variable {start : Wire Args} {ref : Nat}

theorem after_maxRetries (start : Wire Args) (es : List (Stimulus Args)) :
    (start.after es).maxRetries = start.maxRetries := by
  induction es using List.reverseRecOn with
  | nil => rfl
  | append_singleton es s ih => rw [after_snoc, react_maxRetries, ih]

theorem trace_absent {es : List (Stimulus Args)}
    (absent : (start.after es).retries[ref]? = none) : start.trace ref es = [] := by
  induction es using List.reverseRecOn with
  | nil => rfl
  | append_singleton es s ih =>
    rw [after_snoc] at absent
    cases before : (start.after es).retries[ref]? with
    | none => simp [trace_snoc, ih before, Wire.jobEvents, before]
    | some r =>
      rw [react_retryAfter before] at absent
      cases absent

/-- Every retry that a run leaves is what its job has become. -/
theorem trace_job {es : List (Stimulus Args)} {r : SendRetry Args} (fresh : start.retries = [])
    (found : (start.after es).retries[ref]? = some r) :
    ∃ a j, (Job.new a r.request start.maxRetries).run (fun v => v.keepGoing r.request)
      (start.trace ref es) = some j ∧ j.retry = r := by
  induction es using List.reverseRecOn generalizing r with
  | nil => simp [Wire.after, fresh] at found
  | append_singleton es s ih =>
    rw [after_snoc] at found
    rw [trace_snoc]
    cases before : (start.after es).retries[ref]? with
    | none =>
      obtain ⟨a, q, rfl⟩ := react_pushes before found
      simp only [trace_absent before, Wire.jobEvents, before, List.append_nil]
      rw [after_maxRetries]
      exact ⟨a, Job.new a q start.maxRetries, rfl, rfl⟩
    | some old =>
      obtain ⟨a, j, ran, rfl⟩ := ih before
      obtain ⟨k, step, after, request⟩ := job_react (s := s) before rfl
      cases found.symm.trans after
      rw [request]
      exact ⟨a, k, run_append.mpr ⟨j, ran, step⟩, rfl⟩

end Runs

/-- The request at `ref` is answered: its keepGoing no longer holds, or stop has been called. -/
def Wire.Answered (start : Wire Args) (es : List (Stimulus Args)) (ref : Nat) : Prop :=
  ∃ r, (start.after es).retries[ref]? = some r ∧
    ((start.after es).keepGoing r.request = false ∨ JobEvent.stop ∈ start.trace ref es)

/-- No timer of an answered request makes the wire enter failureTimeout. -/
def AnswersHold (start : Wire Args) (es : List (Stimulus Args)) : Prop :=
  ∀ pre ref post, es = pre ++ .timer ref :: post → start.Answered pre ref →
    (start.after pre).connectionState ≠ .failureTimeout →
    (start.after (pre ++ [.timer ref])).connectionState ≠ .failureTimeout

/-- A timer that finds a request answered and still scheduled is one of its first maxRetries. -/
def AnswersInTime (start : Wire Args) (es : List (Stimulus Args)) : Prop :=
  ∀ pre ref post, es = pre ++ .timer ref :: post → start.Answered pre ref →
    (start.after pre).connectionState ≠ .failureTimeout →
    (∀ r ∈ (start.after pre).retries[ref]?, r.scheduled = true) →
    firings (start.trace ref pre) < start.maxRetries

theorem spent_iff {start : Wire Args} {es : List (Stimulus Args)} {ref : Nat} {r : SendRetry Args}
    (fresh : start.retries = []) (found : (start.after es).retries[ref]? = some r) :
    (start.after es).spent ref ↔
      r.scheduled = true ∧ start.maxRetries ≤ firings (start.trace ref es) := by
  obtain ⟨a, j, ran, rfl⟩ := trace_job fresh found
  have kept := run_kept ran
  unfold Wire.spent
  constructor
  · rintro ⟨r, here, scheduled, spent⟩
    cases found.symm.trans here
    rw [kept.limit, kept.fired scheduled] at spent
    exact ⟨scheduled, spent⟩
  · rintro ⟨scheduled, spent⟩
    refine ⟨j.retry, found, scheduled, ?_⟩
    rw [kept.limit, kept.fired scheduled]
    exact spent

theorem answersHold_iff {start : Wire Args} (fresh : start.retries = [])
    (es : List (Stimulus Args)) : AnswersHold start es ↔ AnswersInTime start es := by
  have enters (pre : List (Stimulus Args)) (ref : Nat)
      (open' : (start.after pre).connectionState ≠ .failureTimeout) :
      (start.after (pre ++ [.timer ref])).connectionState = .failureTimeout ↔
        (start.after pre).spent ref := by
    rw [after_snoc]
    rcases timer_state (start.after pre) ref with ⟨spent, state⟩ | ⟨unspent, state⟩
    · exact iff_of_true state spent
    · refine iff_of_false ?_ unspent
      change ((start.after pre).retryFunction ref).wire.connectionState ≠ _
      rw [state]
      exact open'
  constructor
  · intro hold pre ref post shape answered open' scheduled
    obtain ⟨r, found, -⟩ := id answered
    have quiet := hold pre ref post shape answered open'
    rw [ne_eq, enters pre ref open', spent_iff fresh found] at quiet
    exact Nat.lt_of_not_le fun spent => quiet ⟨scheduled r found, spent⟩
  · intro inTime pre ref post shape answered open'
    obtain ⟨r, found, -⟩ := id answered
    rw [ne_eq, enters pre ref open', spent_iff fresh found]
    rintro ⟨scheduled, spent⟩
    have early := inTime pre ref post shape answered open' (fun q there => by
      cases found.symm.trans there
      exact scheduled)
    omega

/-- Over every job, and over every run of a wire that starts without retries. -/
theorem send_retry_iff :
    (∀ (keepGoing : T → Bool) (a : NetAddr) (q : Request Args) (m : Nat) (es : List (JobEvent T))
      (j : Job Args T), (Job.new a q m).run keepGoing es = some j →
        (j.Proper keepGoing ↔ OnTime keepGoing m es)) ∧
    ∀ start : Wire Args, start.retries = [] → ∀ es,
      AnswersHold start es ↔ AnswersInTime start es :=
  ⟨fun _ _ _ _ _ _ ran => proper_iff ran, fun _ fresh es => answersHold_iff fresh es⟩

/-- One retry allowed, and an answer that comes between it and the next firing: the job fails.
    A connect whose accept comes after its fifth retry is connected, then times out. -/
theorem answered_request_fails :
    ¬ (∀ (keepGoing : Bool → Bool) (es : List (JobEvent Bool)) (j : Job Unit Bool),
      (Job.new ⟨1, 7667⟩ (.connect 7666 27) 1).run keepGoing es = some j → j.Proper keepGoing) ∧
    ¬ AnswersHold (Wire.new 7666 27 5 32 : Wire Unit)
      [.call (.connect ⟨1, 7667⟩), .timer 0, .timer 0, .timer 0, .timer 0, .timer 0,
        .packet 1 (.wireConnectAccept 27 26), .timer 0] := by
  constructor
  · intro always
    have proper := always id [.fire true, .fire false] _ rfl
    have wanted := proper.wanted ⟨false, .fails, false⟩ (by simp [Job.new]; decide) rfl
    cases wanted
  · intro hold
    let attempt : List (Stimulus Unit) :=
      [.call (.connect ⟨1, 7667⟩), .timer 0, .timer 0, .timer 0, .timer 0, .timer 0,
        .packet 1 (.wireConnectAccept 27 26)]
    have answered : ∃ r ∈ ((Wire.new 7666 27 5 32).after attempt).retries[0]?,
        ((Wire.new 7666 27 5 32).after attempt).keepGoing r.request = false := by decide
    have reached : ((Wire.new 7666 27 5 32).after attempt).connectionState = .connected := by
      decide
    obtain ⟨r, found, quiet⟩ := answered
    refine hold attempt 0 [] rfl ⟨r, found, Or.inl quiet⟩ (by rw [reached]; decide) ?_
    decide

/-- The job and the wire whose answers come in time. -/
theorem send_retry_connect :
    (Job.Proper id (⟨⟨⟨1, 7667⟩, .connect 7666 27, 1, 0, false, false⟩, true,
      [⟨false, .finishes, true⟩]⟩ : Job Unit Bool) ↔ OnTime id 1 [.stop, .fire false]) ∧
    (AnswersHold (Wire.new 7666 27 5 32 : Wire Unit)
        [.call (.connect ⟨1, 7667⟩), .packet 1 (.wireConnectAccept 27 26), .timer 0] ↔
      AnswersInTime (Wire.new 7666 27 5 32 : Wire Unit)
        [.call (.connect ⟨1, 7667⟩), .packet 1 (.wireConnectAccept 27 26), .timer 0]) :=
  ⟨send_retry_iff.1 id ⟨1, 7667⟩ (.connect 7666 27) 1 [.stop, .fire false] _ rfl,
    (send_retry_iff (T := Bool)).2 (Wire.new 7666 27 5 32) rfl _⟩

end SCLOrkWire
