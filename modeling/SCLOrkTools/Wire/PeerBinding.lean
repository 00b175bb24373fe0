import SCLOrkTools.Wire.World

/- Whom a connected wire talks to: its netAddr comes from connect or from a request, its
   selfId from a request or from any accept that carries the wire's own id. -/
namespace SCLOrkWire
open GuardedRun
variable {ι Args : Type}

inductive Peering (w : Wire Args) : Stimulus Args → Wire Args → Prop where
  | kept {s : Stimulus Args} {v : Wire Args} (addr : v.netAddr = w.netAddr)
      (self : v.selfId = w.selfId)
      (state : v.connectionState = w.connectionState ∨
        (v.connectionState ≠ .connected ∧ v.connectionState ≠ .connectionAccepted)) :
      Peering w s v
  | requested {s : Stimulus Args} {v : Wire Args}
      (state : v.connectionState = .connectionRequested) : Peering w s v
  | accepted {ip returnPort responderId : Nat} {v : Wire Args}
      (addr : v.netAddr = some ⟨ip, returnPort⟩) (self : v.selfId = some responderId)
      (state : v.connectionState = .connectionAccepted) :
      Peering w (.packet ip (.wireConnectRequest returnPort responderId)) v
  | answered {ip initiatorId : Nat} {v : Wire Args}
      (heeded : w.heeds (.wireConnectAccept w.id initiatorId)) (addr : v.netAddr = w.netAddr)
      (self : v.selfId = some initiatorId) (state : v.connectionState = .connected) :
      Peering w (.packet ip (.wireConnectAccept w.id initiatorId)) v
  | confirmed {ip : Nat} {v : Wire Args} (heeded : w.heeds (.wireConnectConfirm (some w.id)))
      (addr : v.netAddr = w.netAddr) (self : v.selfId = w.selfId)
      (state : v.connectionState = .connected) :
      Peering w (.packet ip (.wireConnectConfirm (some w.id))) v

theorem reacts_peering {w : Wire Args} {s : Stimulus Args} {r : Reaction Args}
    (reacts : Reacts w s r) : Peering w s r.wire := by
  cases reacts with
  | connect => exact .requested (by simp)
  | connectRequest => exact .accepted (by simp) (by simp) (by simp)
  | connectAccept listens retry =>
    exact .answered ⟨listens, rfl, by simp [retry]⟩ (by simp [Wire.stopRetry]) (by simp) (by simp)
  | connectConfirm listens retry =>
    exact .confirmed ⟨listens, rfl, by simp [retry]⟩ (by simp [Wire.stopRetry])
      (by simp [Wire.stopRetry]) (by simp)
  | ackHeld | retryAgain | retryDone => exact .kept rfl rfl (Or.inl rfl)
  | knock | disconnect | disconnectNil | disconnectPacket =>
    exact .kept (by simp) (by simp) (Or.inr (by simp))
  | disconnectConfirm =>
    exact .kept (by simp [Wire.stopRetry]) (by simp [Wire.stopRetry]) (Or.inr (by simp))
  | retryFailed =>
    exact .kept (by simp [Wire.setRetry]) (by simp [Wire.setRetry])
      (Or.inr (by simp [Wire.setRetry]))
  | _ => exact .kept rfl rfl (Or.inl rfl)

def Bound (w : World ι Args) (i : ι) : Prop :=
  ∃ j, (w.wires i).netAddr = some (w.address j) ∧ (w.wires i).selfId = some (w.wires j).id

def PeerNamed (w : World ι Args) : Prop :=
  ∀ i, (w.wires i).connectionState = .connected → Bound w i

structure Distinct (w : World ι Args) : Prop where
  ids : ∀ i j, (w.wires i).id = (w.wires j).id → i = j
  addresses : ∀ i j, w.address i = w.address j → i = j

structure SameNames (v w : World ι Args) : Prop where
  ids : ∀ i, (v.wires i).id = (w.wires i).id
  addresses : ∀ i, v.address i = w.address i

theorem bound_congr {v w : World ι Args} (names : SameNames v w) {i : ι}
    (addr : (v.wires i).netAddr = (w.wires i).netAddr)
    (self : (v.wires i).selfId = (w.wires i).selfId) : Bound v i ↔ Bound w i := by
  simp [Bound, addr, self, names.ids, names.addresses]

theorem distinct_congr {v w : World ι Args} (names : SameNames v w) (distinct : Distinct w) :
    Distinct v := by
  constructor
  · intro i j same
    rw [names.ids, names.ids] at same; exact distinct.ids i j same
  · intro i j same
    rw [names.addresses, names.addresses] at same; exact distinct.addresses i j same

variable [DecidableEq ι]

theorem names_step {w next : World ι Args} {e : Event ι Args} (step : w.step e = some next) :
    SameNames next w := by
  by_cases settled : ∀ j n, e ≠ .knocked j n
  · rcases step_cases step settled with thins | ⟨v, i, s, thins, _, rfl⟩
    · exact ⟨fun i => by rw [thins.wires], thins_address thins⟩
    · exact ⟨fun j => by rw [act_id, thins.wires], fun j => by
        rw [act_address, thins_address thins]⟩
  · simp only [not_forall, not_not] at settled
    obtain ⟨j, n, rfl⟩ := settled
    obtain ⟨d, _, answered⟩ := Option.bind_eq_some_iff.mp step
    obtain ⟨_, _, _, _, _, _, rfl⟩ := answerKnock_cases answered
    refine ⟨fun i => ?_, fun i => ?_⟩ <;> by_cases here : i = j <;>
      simp [World.address, World.drop, Wire.new, here]

/-- The packets that open a connection come from the wire at netAddr, or find selfId
    already naming it. -/
def Genuine (w : World ι Args) (e : Event ι Args) : Prop :=
  ∀ i n d, e = .deliver i n → w.inFlight[n]? = some d → d.dest = w.address i →
    (w.wires i).heeds d.packet →
    match d.packet with
    | .wireConnectAccept _ _ => (w.wires i).netAddr = some (w.address d.source)
    | .wireConnectConfirm _ => (w.wires i).connectionState = .connectionAccepted ∨
        (w.wires i).connectionState = .connected ∨ Bound w i
    | _ => True

def AcceptedNamed (w : World ι Args) : Prop :=
  ∀ i, (w.wires i).connectionState = .connectionAccepted → Bound w i

theorem step_peering {w next : World ι Args} {e : Event ι Args} (step : w.step e = some next)
    (i : ι) : (next.wires i) = (w.wires i) ∨
      (next.wires i).connectionState = .connectionRequested ∨
      ∃ s, Cause w e i s ∧ Peering (w.wires i) s (next.wires i) := by
  by_cases settled : ∀ j n, e ≠ .knocked j n
  · rcases step_cases step settled with thins | ⟨v, k, s, thins, cause, rfl⟩
    · exact Or.inl (by rw [thins.wires])
    · by_cases here : i = k
      · subst here
        refine Or.inr (Or.inr ⟨s, cause, ?_⟩)
        rw [act_wires_self, thins.wires]
        exact reacts_peering (react_reacts _ s)
      · exact Or.inl (by rw [act_wires_ne _ _ _ here, thins.wires])
  · simp only [not_forall, not_not] at settled
    obtain ⟨j, n, rfl⟩ := settled
    obtain ⟨d, _, answered⟩ := Option.bind_eq_some_iff.mp step
    obtain ⟨_, _, _, _, _, _, rfl⟩ := answerKnock_cases answered
    by_cases here : i = j
    · subst here
      exact Or.inr (Or.inl (by
        simp [Wire.react, Wire.call, Wire.connect, Wire.new, ConnectionState.mayOpen]))
    · exact Or.inl (by rw [act_wires_ne _ _ _ here]; simp [World.drop, here])

theorem acceptedNamed_step {w next : World ι Args} {e : Event ι Args} (honest : Honest w)
    (accepted : AcceptedNamed w) (step : w.step e = some next) : AcceptedNamed next := by
  have names := names_step step
  intro i state
  rcases step_peering step i with same | asking | ⟨s, cause, peering⟩
  · rw [same] at state
    exact (bound_congr names (by rw [same]) (by rw [same])).mpr (accepted i state)
  · rw [asking] at state
    cases state
  · cases peering with
    | kept addr self kept =>
      rcases kept with same | ⟨_, notAccepted⟩
      · rw [same] at state
        exact (bound_congr names addr self).mpr (accepted i state)
      · exact absurd state notAccepted
    | requested asking => rw [asking] at state; cases state
    | accepted addr self _ =>
      obtain ⟨_, d, -, found, -, ip, packet⟩ := delivered_of_cause cause
      have named := honest.flights d (List.mem_of_getElem? found)
      rw [packet] at named
      refine ⟨d.source, ?_, ?_⟩
      · rw [addr, names.addresses, ip, named.1]; rfl
      · rw [self, names.ids, named.2]
    | answered _ _ _ now | confirmed _ _ _ now => rw [now] at state; cases state

theorem peerNamed_step {w next : World ι Args} {e : Event ι Args} (honest : Honest w)
    (accepted : AcceptedNamed w) (named : PeerNamed w) (genuine : Genuine w e)
    (step : w.step e = some next) : PeerNamed next := by
  have names := names_step step
  intro i state
  rcases step_peering step i with same | asking | ⟨s, cause, peering⟩
  · rw [same] at state
    exact (bound_congr names (by rw [same]) (by rw [same])).mpr (named i state)
  · rw [asking] at state
    cases state
  · cases peering with
    | kept addr self kept =>
      rcases kept with same | ⟨notConnected, _⟩
      · rw [same] at state
        exact (bound_congr names addr self).mpr (named i state)
      · exact absurd state notConnected
    | requested asking => rw [asking] at state; cases state
    | accepted _ _ now => rw [now] at state; cases state
    | answered heeded addr self _ =>
      obtain ⟨_, d, event, found, dest, -, packet⟩ := delivered_of_cause cause
      have from_peer := genuine i _ d event found dest (packet ▸ heeded)
      have own := honest.flights d (List.mem_of_getElem? found)
      rw [packet] at from_peer own
      exact ⟨d.source, by rw [addr, names.addresses]; exact from_peer, by
        rw [self, names.ids, own]⟩
    | confirmed heeded addr self _ =>
      obtain ⟨_, d, event, found, dest, -, packet⟩ := delivered_of_cause cause
      have ready := genuine i _ d event found dest (packet ▸ heeded)
      rw [packet] at ready
      refine (bound_congr names addr self).mpr ?_
      rcases ready with state | state | bound
      · exact accepted i state
      · exact named i state
      · exact bound

/-- Conversely, a step after which every connected wire names its peer was genuine. -/
theorem genuine_of_peerNamed {w next : World ι Args} {e : Event ι Args} (honest : Honest w)
    (distinct : Distinct w) (step : w.step e = some next) (named : PeerNamed next) :
    Genuine w e := by
  intro i n d event found dest heeded
  subst event
  have names := names_step step
  simp only [World.step, found, Option.bind_some, dest, ↓reduceIte, Option.some.injEq] at step
  subst step
  have thins := thins_joining (thins_drop w n) i d
  have wire : ((((w.drop n).joining i d).act i (.packet (w.ip d.source) d.packet)).wires i) =
      ((w.wires i).receive (w.ip d.source) d.packet).wire := by
    rw [act_wires_self, thins.wires]
    rfl
  have state := receive_heeded_state (w.ip d.source) heeded
  have own := honest.flights d (List.mem_of_getElem? found)
  split
  · rename_i responderId initiatorId packet
    rw [packet] at wire state own heeded
    obtain ⟨listens, rfl, retry⟩ := heeded
    obtain ⟨ref, retry⟩ := Option.ne_none_iff_exists'.mp retry
    obtain ⟨j, addr, self⟩ := named i (by rw [packet, wire, state]; rfl)
    rw [packet, wire] at addr self
    simp only [Wire.receive, listens, Wire.connectAcceptOSCFunc, retry, ↓reduceIte, change_netAddr,
      change_selfId, Wire.stopRetry, packet ▸ names.addresses j] at addr self
    have same : (w.wires j).id = (w.wires d.source).id := by
      have := packet ▸ names.ids j
      rw [this, Option.some.injEq] at self
      rw [← self, own]
    rw [addr, distinct.ids j d.source same]
  · rename_i initiatorId packet
    rw [packet] at wire state heeded
    obtain ⟨listens, rfl, retry⟩ := heeded
    obtain ⟨ref, retry⟩ := Option.ne_none_iff_exists'.mp retry
    have bound := named i (by rw [packet, wire, state]; rfl)
    refine Or.inr (Or.inr ((bound_congr names ?_ ?_).mp bound)) <;>
      · rw [packet, wire]
        simp [Wire.receive, listens, Wire.connectConfirmOSCFunc, retry, Wire.stopRetry]
  · trivial

theorem step_of_arrival {w : World ι Args} {i : ι} {n : Nat} {d : Datagram ι Args}
    (found : w.inFlight[n]? = some d) (dest : d.dest = w.address i) :
    ∃ next, w.step (.deliver i n) = some next := by
  simp [World.step, found, dest]

/-- Every state of a run names the peers of its connected wires exactly when every step
    of the run is genuine. -/
theorem peerNamed_iff_genuine (r : Roster ι) (es : List (Event ι Args)) :
    (∀ pre post w, es = pre ++ post → (World.new r).run pre = some w → PeerNamed w) ↔
      Along World.step Genuine (World.new r) es := by
  have base : ∀ pre w, (World.new r : World ι Args).run pre = some w →
      Honest w ∧ AcceptedNamed w ∧ Distinct w := by
    intro pre w ran
    refine run_keeps (fun w : World ι Args => Honest w ∧ AcceptedNamed w ∧ Distinct w) ?_
      ⟨honest_new r, ?_, ?_, ?_⟩ ran
    · rintro s e next ⟨honest, accepted, distinct⟩ step
      exact ⟨honest_step honest step, acceptedNamed_step honest accepted step,
        distinct_congr (names_step step) distinct⟩
    · intro i state
      cases state
    · exact fun i j same => r.ids same
    · exact fun i j same => r.addresses same
  constructor
  · intro named
    apply along_iff_prefixes.mpr
    intro pre e post shape w ran
    obtain ⟨honest, _, distinct⟩ := base pre w ran
    intro i n d event found dest heeded
    subst event
    obtain ⟨next, step⟩ := step_of_arrival found dest
    have after := named (pre ++ [.deliver i n]) post next (by simp [shape])
      (run_snoc.mpr ⟨w, ran, step⟩)
    exact genuine_of_peerNamed honest distinct step after i n d rfl found dest heeded
  · intro along pre post w shape ran
    rw [shape, along_append] at along
    refine (run_invariant (p := Genuine)
      (fun w : World ι Args => Honest w ∧ AcceptedNamed w ∧ PeerNamed w) ?_
      ⟨honest_new r, ?_, ?_⟩ along.1 ran).2.2
    · rintro s e next ⟨honest, accepted, named⟩ genuine step
      exact ⟨honest_step honest step, acceptedNamed_step honest accepted step,
        peerNamed_step honest accepted named genuine step⟩
    · intro i state
      cases state
    · intro i state
      cases state

def trio : Roster (Fin 3) where
  ip _ := 1
  receivePort i := 7666 + i
  id i := 20 + i
  maxRetries _ := 5
  bufferSize _ := 32
  listening _ := true
  addresses i j same := by
    simp only [NetAddr.mk.injEq] at same
    omega
  ids i j same := by
    dsimp only at same
    omega

/-- Wire 0 gives up on wire 1, connects to wire 2, and then wire 1's accept arrives. -/
theorem late_accept_misnames :
    ¬ ∀ w : World (Fin 3) Unit, (World.new trio).run
      [.call 0 (.connect ⟨1, 7667⟩), .deliver 1 0, .timer 0 0, .timer 0 0, .timer 0 0, .timer 0 0,
        .timer 0 0, .timer 0 0, .call 0 (.connect ⟨1, 7668⟩), .deliver 0 0] = some w →
      PeerNamed w := by
  intro named
  let es : List (Event (Fin 3) Unit) :=
    [.call 0 (.connect ⟨1, 7667⟩), .deliver 1 0, .timer 0 0, .timer 0 0, .timer 0 0, .timer 0 0,
      .timer 0 0, .timer 0 0, .call 0 (.connect ⟨1, 7668⟩), .deliver 0 0]
  have outcome : ((World.new trio).run es).map (fun w =>
      ((w.wires 0).connectionState, (w.wires 0).netAddr, (w.wires 0).selfId,
        w.address 1, (w.wires 0).id, (w.wires 2).id)) =
      some (.connected, some ⟨1, 7668⟩, some 21, ⟨1, 7667⟩, 20, 22) := by decide
  obtain ⟨w, ran, shape⟩ := Option.map_eq_some_iff.mp outcome
  simp only [Prod.mk.injEq] at shape
  obtain ⟨state, addr, self, second, firstId, thirdId⟩ := shape
  obtain ⟨j, toward, name⟩ := named w ran 0 state
  match j with
  | 0 => rw [self, firstId] at name; cases name
  | 1 => rw [addr, second] at toward; cases toward
  | 2 => rw [self, thirdId] at name; cases name

end SCLOrkWire
