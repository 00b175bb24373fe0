import SCLOrkTools.Wire.Channel

/- The end of a session. Neither wire opens a connection any more, so a wire that has left
   'connected' stays away from it; only a wire that has left sends /wireDisconnect or
   /wireDisconnectConfirm. -/
namespace SCLOrkWire
open GuardedRun
variable {Args : Type}

def Packet.opens : Packet Args → Bool
  | .wireConnectRequest _ _ | .wireConnectAccept _ _ | .wireConnectConfirm _ => true
  | _ => false

def Packet.closes : Packet Args → Bool
  | .wireDisconnect _ | .wireDisconnectConfirm _ => true
  | _ => false

def Parting : Event Side Args → Prop
  | .call _ (.connect _) | .call _ (.knock _) | .knocked _ _ => False
  | _ => True

theorem parting_between {w : World Side Args} {e : Event Side Args} (parting : Parting e) :
    Between w e := by
  unfold Between
  split <;> trivial

def ConnectionState.late (s : ConnectionState) : Prop :=
  s = .connected ∨ s = .disconnectRequested ∨ s = .disconnected ∨ s = .failureTimeout

def Opens : Stimulus Args → Prop
  | .call (.connect _) | .call (.knock _) => True
  | .packet _ p => p.opens = true
  | _ => False

section Reaction
variable {w : Wire Args} {s : Stimulus Args} {r : Reaction Args}

theorem parting_state (reacts : Reacts w s r) (opens : ¬ Opens s) :
    r.wire.connectionState = w.connectionState ∨
    (s = .call .disconnect ∧ w.connectionState = .connected ∧
      r.wire.connectionState = .disconnectRequested) ∨
    (∃ ip id, s = .packet ip (.wireDisconnect id) ∧ w.heeds (.wireDisconnect id) ∧
      r.wire.connectionState = .disconnected) ∨
    (∃ ip id, s = .packet ip (.wireDisconnectConfirm id) ∧
      r.wire.connectionState = .disconnected) ∨
    r.wire.connectionState = .failureTimeout := by
  cases reacts with
  | knock | connect | connectRequest | connectAccept | connectConfirm =>
    exact absurd (by simp [Opens, Packet.opens]) opens
  | disconnect connected | disconnectNil connected =>
    exact Or.inr (Or.inl ⟨rfl, connected, by simp⟩)
  | disconnectPacket listens addr =>
    exact Or.inr (Or.inr (Or.inl ⟨_, _, rfl, ⟨listens, rfl, by simp [addr]⟩, by simp⟩))
  | disconnectConfirm =>
    exact Or.inr (Or.inr (Or.inr (Or.inl ⟨_, _, rfl, by simp⟩)))
  | retryFailed => exact Or.inr (Or.inr (Or.inr (Or.inr (by simp [Wire.setRetry]))))
  | _ => exact Or.inl (by simp [Wire.idle, Wire.stopRetry, Wire.setRetry])

theorem parting_sends (reacts : Reacts w s r) (opens : ¬ Opens s)
    (late : w.connectionState.late) : ∀ out ∈ r.sends, out.2.opens = false ∧
      ((∃ id, out.2 = .wireDisconnect id) → r.wire.connectionState = .disconnectRequested) ∧
      ((∃ id, out.2 = .wireDisconnectConfirm id) →
        ∃ ip id, s = .packet ip (.wireDisconnect id) ∧ w.heeds (.wireDisconnect id) ∧
          r.wire.connectionState = .disconnected) := by
  intro out mem
  cases reacts with
  | idle | sendMsgNil | disconnectNil | prDropLine | ackBare => cases mem
  | connectConfirm | ackHeld | disconnectConfirm | retryDone | retryFailed => cases mem
  | knock | connect | connectRequest | connectAccept =>
    exact absurd (by simp [Opens, Packet.opens]) opens
  | sendMsg =>
    rw [List.mem_singleton.mp mem]
    simp [Packet.opens]
  | disconnect =>
    rw [List.mem_singleton.mp mem]
    simp [Packet.opens, Request.message]
  | sendOld | sendNext | sendAhead =>
    rw [(sendTo_mem mem).2]
    simp [Packet.opens]
  | disconnectPacket listens addr =>
    rw [List.mem_singleton.mp mem]
    simp [Packet.opens, Wire.heeds, listens, addr]
  | retryAgain found scheduled left going =>
    rw [List.mem_singleton.mp mem]
    rename_i ref q
    rcases late with state | state | state | state <;> cases request : q.request <;>
      simp_all [Wire.keepGoing, Request.message, Packet.opens, Wire.setRetry]

end Reaction

def Asks (i : Side) (w : World Side Args) (e : Event Side Args) : Prop :=
  e = .call i .disconnect ∧ (w.wires i).connectionState = .connected

def Told (i : Side) (w : World Side Args) (e : Event Side Args) : Prop :=
  ∃ n, e = .deliver i n ∧ ∃ d ∈ w.inFlight[n]?, d.dest = w.address i ∧
    ∃ id, d.packet = .wireDisconnect id ∧ (w.wires i).heeds (.wireDisconnect id)

theorem opens_of_cause {w : World Side Args} {e : Event Side Args} (parting : Parting e)
    (flights : ∀ d ∈ w.inFlight, d.packet.opens = false) {i : Side} {s : Stimulus Args}
    (cause : Cause w e i s) : ¬ Opens s := by
  cases cause with
  | call _ c => cases c <;> first | exact parting.elim | exact id
  | timer => exact id
  | deliver found => simp [Opens, flights _ (List.mem_of_getElem? found)]

theorem told_of_cause {w : World Side Args} {e : Event Side Args} {i : Side} {ip : Nat}
    {id : Option Nat} (paired : Paired w) (cause : Cause w e i (.packet ip (.wireDisconnect id)))
    (heeds : (w.wires i).heeds (.wireDisconnect id)) : Told i w e := by
  obtain ⟨n, rfl, d, found, -, dest, -, packet⟩ := packet_of_cause paired cause rfl
  exact ⟨n, rfl, d, found, dest, id, packet, heeds⟩

theorem parting_step {w next : World Side Args} {e : Event Side Args} (paired : Paired w)
    (flights : ∀ d ∈ w.inFlight, d.packet.opens = false) (parting : Parting e)
    (step : w.step e = some next) (i : Side) :
    (next.wires i).connectionState = (w.wires i).connectionState ∨
    (Asks i w e ∧ (next.wires i).connectionState = .disconnectRequested) ∨
    ((∃ d ∈ w.inFlight, d.source = i.other ∧ d.packet.closes = true) ∧
      (next.wires i).connectionState = .disconnected) ∨
    (next.wires i).connectionState = .failureTimeout := by
  rcases step_cases step (between_settled (w := w) (parting_between parting)) with
    thins | ⟨v, j, s, thins, cause, rfl⟩
  · exact Or.inl (by rw [thins.wires])
  by_cases here : i = j
  · subst here
    rw [act_wires_self, thins.wires]
    rcases parting_state (react_reacts (w.wires i) s) (opens_of_cause parting flights cause) with
      same | ⟨rfl, connected, now⟩ | ⟨ip, id, rfl, _, now⟩ | ⟨ip, id, rfl, now⟩ | failed
    · exact Or.inl same
    · refine Or.inr (Or.inl ⟨⟨?_, connected⟩, now⟩)
      cases cause
      rfl
    · obtain ⟨n, -, d, -, mem, -, source, packet⟩ := packet_of_cause paired cause rfl
      exact Or.inr (Or.inr (Or.inl ⟨⟨d, mem, source, by rw [packet]; rfl⟩, now⟩))
    · obtain ⟨n, -, d, -, mem, -, source, packet⟩ := packet_of_cause paired cause rfl
      exact Or.inr (Or.inr (Or.inl ⟨⟨d, mem, source, by rw [packet]; rfl⟩, now⟩))
    · exact Or.inr (Or.inr (Or.inr failed))
  · exact Or.inl (by rw [act_wires_ne _ _ _ here, thins.wires])

theorem parting_flights {w next : World Side Args} {e : Event Side Args} (paired : Paired w)
    (flights : ∀ d ∈ w.inFlight, d.packet.opens = false)
    (late : ∀ i, (w.wires i).connectionState.late) (parting : Parting e)
    (step : w.step e = some next) : ∀ d ∈ next.inFlight, d ∈ w.inFlight ∨
      (d.packet.opens = false ∧
        ((∃ id, d.packet = .wireDisconnect id) →
          (next.wires d.source).connectionState = .disconnectRequested) ∧
        ((∃ id, d.packet = .wireDisconnectConfirm id) →
          Told d.source w e ∧ (next.wires d.source).connectionState = .disconnected)) := by
  intro d mem
  rcases step_cases step (between_settled (w := w) (parting_between parting)) with
    thins | ⟨v, i, s, thins, cause, rfl⟩
  · exact Or.inl (thins.inFlight mem)
  rcases (mem_act_inFlight v i s).mp mem with old | ⟨out, sent, rfl⟩
  · exact Or.inl (thins.inFlight old)
  rw [thins.wires] at sent
  obtain ⟨opens, asks, confirms⟩ := parting_sends (react_reacts (w.wires i) s)
    (opens_of_cause parting flights cause) (late i) out sent
  rw [act_wires_self, thins.wires]
  refine Or.inr ⟨opens, asks, ?_⟩
  intro packet
  obtain ⟨ip, id, rfl, heeds, now⟩ := confirms packet
  exact ⟨told_of_cause paired cause heeds, now⟩

section Run
variable (start : World Side Args)

abbrev Asked (i : Side) (past : List (Event Side Args)) : Prop :=
  Happened World.step (Asks i) start past

abbrev WasTold (i : Side) (past : List (Event Side Args)) : Prop :=
  Happened World.step (Told i) start past

structure Agreed (es : List (Event Side Args)) : Prop where
  together : ∀ pre post w, es = pre ++ post → start.run pre = some w → ∀ i,
    (w.wires i).connectionState = .disconnected → (w.wires i.other).connectionState ≠ .connected
  answered : ∀ pre post w, es = pre ++ post → start.run pre = some w → ∀ i, Asked start i pre →
    (w.wires i).connectionState = .disconnected →
    WasTold start i.other pre ∨ Asked start i.other pre

/-- The invariant. A wire that has sent a closing packet has left 'connected' for a reason. -/
structure Leaving (past : List (Event Side Args)) (w : World Side Args) : Prop where
  ran : start.run past = some w
  honest : Honest w
  paired : Paired w
  late : ∀ i, (w.wires i).connectionState.late
  opens : ∀ d ∈ w.inFlight, d.packet.opens = false
  closes : ∀ d ∈ w.inFlight, d.packet.closes = true →
    (w.wires d.source).connectionState ≠ .connected ∧
      (WasTold start d.source past ∨ Asked start d.source past)
  requested : ∀ i, (w.wires i).connectionState = .disconnectRequested → Asked start i past
  done : ∀ i, (w.wires i).connectionState = .disconnected →
    (w.wires i.other).connectionState ≠ .connected ∧
      (WasTold start i.other past ∨ Asked start i.other past)

variable {start}

theorem leaving_step {past : List (Event Side Args)} {w next : World Side Args}
    {e : Event Side Args} (leaving : Leaving start past w) (parting : Parting e)
    (step : w.step e = some next) : Leaving start (past ++ [e]) next := by
  obtain ⟨ran, honest, paired, late, opens, closes, requested, done⟩ := leaving
  have states := parting_step paired opens parting step
  have flights := parting_flights paired opens late parting step
  -- a wire that has left does not come back
  have left {i : Side} (away : (w.wires i).connectionState ≠ .connected) :
      (next.wires i).connectionState ≠ .connected := by
    rcases states i with same | ⟨_, now⟩ | ⟨_, now⟩ | now
    · rw [same]; exact away
    all_goals rw [now]; simp
  have told {i : Side} (before : WasTold start i past ∨ Asked start i past) :
      WasTold start i (past ++ [e]) ∨ Asked start i (past ++ [e]) :=
    before.imp (happened_append [e]) (happened_append [e])
  have asked (i : Side) (now : (next.wires i).connectionState = .disconnectRequested) :
      Asked start i (past ++ [e]) := by
    rcases states i with same | ⟨asks, _⟩ | ⟨_, other⟩ | other
    · exact happened_append [e] (requested i (same ▸ now))
    · exact happened_snoc ran asks
    all_goals rw [other] at now; cases now
  refine ⟨run_snoc.mpr ⟨w, ran, step⟩, honest_step honest step, paired_step paired honest
    (parting_between parting) step, ?_, ?_, ?_, asked, ?_⟩
  · intro i
    rcases states i with same | ⟨_, now⟩ | ⟨_, now⟩ | now
    · rw [same]; exact late i
    all_goals rw [now]; simp [ConnectionState.late]
  · intro d mem
    rcases flights d mem with old | ⟨new, _⟩
    · exact opens d old
    · exact new
  · intro d mem closing
    rcases flights d mem with old | ⟨_, asks, confirms⟩
    · obtain ⟨away, reason⟩ := closes d old closing
      exact ⟨left away, told reason⟩
    · cases packet : d.packet with
      | wireDisconnect id =>
        have now := asks ⟨id, packet⟩
        exact ⟨by rw [now]; simp, Or.inr (asked _ now)⟩
      | wireDisconnectConfirm id =>
        obtain ⟨here, now⟩ := confirms ⟨id, packet⟩
        exact ⟨by rw [now]; simp, Or.inl (happened_snoc ran here)⟩
      | _ => simp [packet, Packet.closes] at closing
  · intro i now
    rcases states i with same | ⟨_, other⟩ | ⟨⟨d, mem, source, closing⟩, _⟩ | other
    · obtain ⟨away, reason⟩ := done i (same ▸ now)
      exact ⟨left away, told reason⟩
    · rw [other] at now; cases now
    · obtain ⟨away, reason⟩ := closes d mem closing
      rw [source] at away reason
      exact ⟨left away, told reason⟩
    · rw [other] at now; cases now

end Run

/-- Two wires connected to each other, with no packet in flight that opens a connection. -/
structure InSession (w : World Side Args) : Prop where
  honest : Honest w
  paired : Paired w
  connected : ∀ i, (w.wires i).connectionState = .connected
  netAddr : ∀ i, (w.wires i).netAddr = some (w.address i.other)
  selfId : ∀ i, (w.wires i).selfId = some (w.wires i.other).id
  opens : ∀ d ∈ w.inFlight, d.packet.opens = false

/-- Over every run of a session that starts with no closing packet in flight. -/
theorem disconnect_agreement {start : World Side Args} (session : InSession start)
    (quiet : ∀ d ∈ start.inFlight, d.packet.closes = false) {es : List (Event Side Args)}
    (parting : ∀ e ∈ es, Parting e) : Agreed start es := by
  have leaving : ∀ pre post w, es = pre ++ post → start.run pre = some w →
      Leaving start pre w := by
    intro pre post w shape ran
    have begins : Leaving start [] start := by
      refine ⟨rfl, session.honest, session.paired, fun i => Or.inl (session.connected i),
        session.opens, ?_, ?_, ?_⟩
      · intro d mem closing
        rw [quiet d mem] at closing; cases closing
      · intro i now
        rw [session.connected i] at now; cases now
      · intro i now
        rw [session.connected i] at now; cases now
    exact run_history (p := fun _ e => Parting e) (Leaving start)
      (fun _ _ _ _ leaving parting step => leaving_step leaving parting step) [] begins
      (along_of_all fun e mem => parting e (by simp [shape, mem])) ran
  exact ⟨fun pre post w shape ran i now => ((leaving pre post w shape ran).done i now).1,
    fun pre post w shape ran i _ now => ((leaving pre post w shape ran).done i now).2⟩

theorem disconnect_agreement_both : Agreed (World.linked duo : World Side Unit)
    [.call .a .disconnect, .call .b .disconnect, .deliver .b 0, .deliver .a 0, .deliver .a 0,
      .deliver .b 0] := by
  have ready : JustConnected (World.linked duo : World Side Unit) :=
    justConnected_linked duo fun i => by cases i <;> decide
  refine disconnect_agreement ⟨ready.honest, ready.paired, ready.connected, fun _ => rfl,
    fun _ => rfl, ?_⟩ ?_ ?_
  · simp [ready.quiet]
  · simp [ready.quiet]
  · simp [Parting]

/-- A copy of /wireDisconnect outlives its session and is delivered in the next one. -/
theorem stale_disconnect_splits : ∃ start : World Side Unit, (World.new duo).run
    [.call .a (.connect ⟨2, 7666⟩), .deliver .b 0, .deliver .a 0, .deliver .b 0,
      .call .a .disconnect, .duplicate 0, .deliver .b 0, .deliver .a 1,
      .call .a (.connect ⟨2, 7666⟩), .deliver .b 1, .deliver .a 1, .deliver .b 1] = some start ∧
    InSession start ∧ ¬ Agreed start [.deliver .b 0] := by
  let es : List (Event Side Unit) :=
    [.call .a (.connect ⟨2, 7666⟩), .deliver .b 0, .deliver .a 0, .deliver .b 0,
      .call .a .disconnect, .duplicate 0, .deliver .b 0, .deliver .a 1,
      .call .a (.connect ⟨2, 7666⟩), .deliver .b 1, .deliver .a 1, .deliver .b 1]
  have ends : ((World.new duo).run es).map (fun w =>
      ((w.wires .a).connectionState, (w.wires .b).connectionState,
        w.inFlight.map (·.packet.opens))) = some (.connected, .connected, [false]) := by decide
  have links : ((World.new duo).run es).map (fun w =>
      ((w.wires .a).netAddr, (w.wires .b).netAddr, (w.wires .a).selfId, (w.wires .b).selfId)) =
      some (some ⟨2, 7666⟩, some ⟨1, 7666⟩, some 27, some 26) := by decide
  have names : ((World.new duo).run es).map (fun w =>
      (w.address .a, w.address .b, (w.wires .a).id, (w.wires .b).id)) =
      some (⟨1, 7666⟩, ⟨2, 7666⟩, 26, 27) := by decide
  have splits : ((World.new duo).run (es ++ [.deliver .b 0])).map (fun w =>
      ((w.wires .b).connectionState, (w.wires .a).connectionState)) =
      some (.disconnected, .connected) := by decide
  obtain ⟨start, ran, shape⟩ := Option.map_eq_some_iff.mp ends
  rw [ran, Option.map_some, Option.some.injEq] at links names
  simp only [Prod.mk.injEq] at shape links names
  obtain ⟨stateA, stateB, packets⟩ := shape
  obtain ⟨addrA, addrB, selfA, selfB⟩ := links
  obtain ⟨atA, atB, idA, idB⟩ := names
  have between : Along World.step Between (World.new duo) es := by decide
  obtain ⟨honest, paired⟩ := paired_run duo between ran
  refine ⟨start, ran, ⟨honest, paired, ?_, ?_, ?_, ?_⟩, ?_⟩
  · intro i
    cases i
    · exact stateA
    · exact stateB
  · intro i
    cases i
    · rw [addrA, Side.other, atB]
    · rw [addrB, Side.other, atA]
  · intro i
    cases i
    · rw [selfA, Side.other, idB]
    · rw [selfB, Side.other, idA]
  · intro d mem
    have closed := List.mem_map_of_mem (f := fun d : Datagram Side Unit => d.packet.opens) mem
    rw [packets] at closed
    exact List.mem_singleton.mp closed
  · intro agreed
    obtain ⟨last, whole, states⟩ := Option.map_eq_some_iff.mp splits
    simp only [Prod.mk.injEq] at states
    obtain ⟨mid, front, back⟩ := run_append.mp whole
    cases Option.some.inj (ran.symm.trans front)
    exact agreed.together [.deliver .b 0] [] last rfl back .b states.1 states.2

end SCLOrkWire
