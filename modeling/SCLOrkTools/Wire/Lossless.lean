import Mathlib.Data.List.Perm.Basic
import SCLOrkTools.Wire.Channel
import SCLOrkTools.Wire.PeerBinding
import SCLOrkTools.Wire.RetryBudget

/- Two wires on a network that loses nothing. Every packet arrives before the next timer
   fires, and yet a wire can run out of retries: when both ask for the connection at once,
   or when one timer fires ahead of its turn. -/
namespace SCLOrkWire
open GuardedRun WrapInteger
variable {Args : Type}

def Packet.carries : Packet Args → Bool
  | .wireSend _ _ _ | .wireAck _ _ => true
  | _ => false

/-- Calls to connect and sendMsg, deliveries in any order, and timers once nothing is in
    flight. -/
def Undisturbed (w : World Side Args) : Event Side Args → Prop
  | .call i (.connect a) => a = w.address i.other
  | .call _ (.sendMsg _) | .deliver _ _ => True
  | .timer _ _ => w.inFlight = []
  | _ => False

/-- Further, no wire asks while the other is asking, and the timers of a wire take turns. -/
def InOrder (w : World Side Args) : Event Side Args → Prop
  | .call i (.connect _) => (w.wires i.other).connectionState ≠ .connectionRequested
  | .timer i ref => (w.wires i).InTurn ref
  | _ => True

/-- Some packet in flight will bring wire `x` the ack of this serial. -/
def Underway (w : World Side Args) (x : Side) (serial : Nat) : Prop :=
  (∃ d ∈ w.inFlight, d.source = x ∧
    ∃ args, d.packet = .wireSend (some (w.wires x.other).id) serial args) ∨
  (∃ d ∈ w.inFlight, d.source = x.other ∧ d.packet = .wireAck (some (w.wires x).id) serial)

/-- The serials in flight, of messages and of acks, are ones that their sender has taken. -/
structure Counted (w : World Side Args) : Prop where
  data : ∀ d ∈ w.inFlight, ∀ id serial args, d.packet = .wireSend id serial args →
    serial ≤ (w.wires d.source).sendSerial
  acks : ∀ d ∈ w.inFlight, ∀ id serial, d.packet = .wireAck id serial →
    serial ≤ (w.wires d.source.other).sendSerial

structure Ready (w : World Side Args) (i : Side) : Prop where
  netAddr : (w.wires i).netAddr = some (w.address i.other)
  selfId : (w.wires i).selfId = some (w.wires i.other).id
  retry : (w.wires i).connectionRetry ≠ none

/-- Wire `i` asks; its request is the only packet. -/
structure Requested (w : World Side Args) (i : Side) : Prop where
  asks : (w.wires i).connectionState = .connectionRequested
  waits : (w.wires i.other).connectionState = .neverConnected
  netAddr : (w.wires i).netAddr = some (w.address i.other)
  retry : (w.wires i).connectionRetry ≠ none
  flight : ∃ d, w.inFlight = [d] ∧ d.source = i ∧
    d.packet = .wireConnectRequest (w.wires i).receivePort (w.wires i).id

/-- The other has answered; its accept is the only packet. -/
structure Accepted (w : World Side Args) (i : Side) : Prop where
  asks : (w.wires i).connectionState = .connectionRequested
  answers : (w.wires i.other).connectionState = .connectionAccepted
  netAddr : (w.wires i).netAddr = some (w.address i.other)
  retry : (w.wires i).connectionRetry ≠ none
  ready : Ready w i.other
  flight : ∃ d, w.inFlight = [d] ∧ d.source = i.other ∧
    d.packet = .wireConnectAccept (w.wires i).id (w.wires i.other).id

/-- Wire `i` is connected and may send; its confirm is still under way. -/
structure Confirming (w : World Side Args) (i : Side) : Prop where
  connected : (w.wires i).connectionState = .connected
  answers : (w.wires i.other).connectionState = .connectionAccepted
  ready : ∀ j, Ready w j
  one : w.inFlight.countP (fun d => !d.packet.carries) = 1
  flights : ∀ d ∈ w.inFlight, d.packet.carries = true ∨
    (d.source = i ∧ d.packet = .wireConnectConfirm (some (w.wires i.other).id))

structure Established (w : World Side Args) : Prop where
  connected : ∀ i, (w.wires i).connectionState = .connected
  ready : ∀ j, Ready w j
  flights : ∀ d ∈ w.inFlight, d.packet.carries = true

structure Unopened (w : World Side Args) : Prop where
  states : ∀ i, (w.wires i).connectionState = .neverConnected
  retries : ∀ i, (w.wires i).retries = []
  quiet : w.inFlight = []

inductive Phase (w : World Side Args) : Prop where
  | unopened (phase : Unopened w)
  | requested (i : Side) (phase : Requested w i)
  | accepted (i : Side) (phase : Accepted w i)
  | confirming (i : Side) (phase : Confirming w i)
  | established (phase : Established w)

structure Healthy (w : World Side Args) : Prop where
  honest : Honest w
  paired : Paired w
  listening : ∀ i, (w.wires i).listening = true
  enough : ∀ i, 2 ≤ (w.wires i).maxRetries
  phase : Phase w
  counted : Counted w
  budgets : ∀ i, Budgeted (w.wires i) (w.wires i.other).id
    (Underway w i ((w.wires i).sendAckSerial + 1))

theorem phase_sound {w : World Side Args} (phase : Phase w) (i : Side) :
    (w.wires i).connectionState ≠ .failureTimeout := by
  cases phase with
  | unopened phase => rw [phase.states i]; simp
  | requested j phase =>
    rcases side_cases j i with rfl | rfl
    · rw [phase.asks]; simp
    · rw [phase.waits]; simp
  | accepted j phase =>
    rcases side_cases j i with rfl | rfl
    · rw [phase.asks]; simp
    · rw [phase.answers]; simp
  | confirming j phase =>
    rcases side_cases j i with rfl | rfl
    · rw [phase.connected]; simp
    · rw [phase.answers]; simp
  | established phase => rw [phase.connected i]; simp

def Busy (w : World Side Args) : Prop := (∃ i, Confirming w i) ∨ Established w

theorem busy_phase {w : World Side Args} (busy : Busy w) : Phase w := by
  rcases busy with ⟨i, phase⟩ | phase
  · exact .confirming i phase
  · exact .established phase

theorem busy_ready {w : World Side Args} (busy : Busy w) : ∀ i, Ready w i := by
  rcases busy with ⟨i, phase⟩ | phase
  · exact phase.ready
  · exact phase.ready

theorem connected_busy {w : World Side Args} (phase : Phase w) {i : Side}
    (connected : (w.wires i).connectionState = .connected) : Busy w := by
  cases phase with
  | unopened phase => rw [phase.states i] at connected; cases connected
  | requested j phase =>
    rcases side_cases j i with rfl | rfl
    · rw [phase.asks] at connected; cases connected
    · rw [phase.waits] at connected; cases connected
  | accepted j phase =>
    rcases side_cases j i with rfl | rfl
    · rw [phase.asks] at connected; cases connected
    · rw [phase.answers] at connected; cases connected
  | confirming j phase => exact Or.inl ⟨j, phase⟩
  | established phase => exact Or.inr phase

theorem carrying_busy {w : World Side Args} (phase : Phase w) {d : Datagram Side Args}
    (mem : d ∈ w.inFlight) (carries : d.packet.carries = true) : Busy w := by
  cases phase with
  | unopened phase => rw [phase.quiet] at mem; cases mem
  | requested j phase =>
    obtain ⟨c, only, _, packet⟩ := phase.flight
    rw [only, List.mem_singleton] at mem
    rw [mem, packet] at carries
    cases carries
  | accepted j phase =>
    obtain ⟨c, only, _, packet⟩ := phase.flight
    rw [only, List.mem_singleton] at mem
    rw [mem, packet] at carries
    cases carries
  | confirming j phase => exact Or.inl ⟨j, phase⟩
  | established phase => exact Or.inr phase

structure SameLink (v w : Wire Args) : Prop where
  connectionState : v.connectionState = w.connectionState
  netAddr : v.netAddr = w.netAddr
  selfId : v.selfId = w.selfId
  connectionRetry : v.connectionRetry = w.connectionRetry

theorem carries_receive {w : Wire Args} {p : Packet Args} (ip : Nat) (carries : p.carries = true) :
    SameLink (w.receive ip p).wire w ∧
      ∀ out ∈ (w.receive ip p).sends, out.2.carries = true := by
  have reacts := packet_reacts w ip p
  generalize w.receive ip p = r at reacts
  cases reacts with
  | idle => exact ⟨⟨rfl, rfl, rfl, rfl⟩, by simp⟩
  | connectRequest | connectAccept | connectConfirm => cases carries
  | disconnectPacket | disconnectConfirm => cases carries
  | sendOld | sendNext | sendAhead =>
    refine ⟨⟨rfl, rfl, rfl, rfl⟩, ?_⟩
    intro out mem
    rw [(sendTo_mem mem).2]
    rfl
  | ackBare | ackHeld => exact ⟨⟨rfl, rfl, rfl, rfl⟩, by simp⟩

section Drop
variable {w : World Side Args} {n : Nat} {d : Datagram Side Args}

theorem perm_drop (found : w.inFlight[n]? = some d) :
    (d :: (w.drop n).inFlight).Perm w.inFlight := by
  obtain ⟨bound, here⟩ := List.getElem?_eq_some_iff.mp found
  rw [← here]
  exact List.getElem_cons_eraseIdx_perm bound

theorem mem_drop (found : w.inFlight[n]? = some d) {c : Datagram Side Args} (mem : c ∈ w.inFlight) :
    c = d ∨ c ∈ (w.drop n).inFlight :=
  List.mem_cons.mp ((perm_drop found).mem_iff.mpr mem)

end Drop

theorem busy_flow {w v : World Side Args} (busy : Busy w) (names : SameNames v w)
    (links : ∀ i, SameLink (v.wires i) (w.wires i))
    (count : v.inFlight.countP (fun d => !d.packet.carries) =
      w.inFlight.countP (fun d => !d.packet.carries))
    (flights : ∀ d ∈ v.inFlight, d ∈ w.inFlight ∨ d.packet.carries = true) : Busy v := by
  have ready (i : Side) : Ready v i := by
    obtain ⟨addr, self, retry⟩ := busy_ready busy i
    exact ⟨by rw [(links i).netAddr, names.addresses]; exact addr,
      by rw [(links i).selfId, names.ids]; exact self,
      by rw [(links i).connectionRetry]; exact retry⟩
  rcases busy with ⟨i, phase⟩ | phase
  · refine Or.inl ⟨i, by rw [(links i).connectionState]; exact phase.connected,
      by rw [(links i.other).connectionState]; exact phase.answers, ready,
      count.trans phase.one, fun d mem => ?_⟩
    rcases flights d mem with old | carries
    · rw [names.ids]
      exact phase.flights d old
    · exact Or.inl carries
  · refine Or.inr ⟨fun i => by rw [(links i).connectionState]; exact phase.connected i, ready,
      fun d mem => ?_⟩
    rcases flights d mem with old | carries
    · exact phase.flights d old
    · exact carries

theorem busy_act {w v : World Side Args} {i : Side} {s : Stimulus Args} (busy : Busy w)
    (wires : v.wires = w.wires) (ips : v.ip = w.ip) (kept : v.inFlight ⊆ w.inFlight)
    (count : v.inFlight.countP (fun d => !d.packet.carries) =
      w.inFlight.countP (fun d => !d.packet.carries))
    (link : SameLink ((w.wires i).react s).wire (w.wires i))
    (sends : ∀ out ∈ ((w.wires i).react s).sends, out.2.carries = true) : Busy (v.act i s) := by
  have out : ∀ c ∈ (((w.wires i).react s).sends.map fun out =>
      (⟨i, out.1, out.2, v.session i⟩ : Datagram Side Args)), c.packet.carries = true := by
    intro c mem
    obtain ⟨o, sent, rfl⟩ := List.mem_map.mp mem
    exact sends o sent
  have sent : (v.act i s).inFlight = v.inFlight ++ ((w.wires i).react s).sends.map fun out =>
      (⟨i, out.1, out.2, v.session i⟩ : Datagram Side Args) := by
    simp only [World.act, wires]
  refine busy_flow busy ⟨fun k => by rw [act_id, wires], fun k => ?_⟩ (fun k => ?_) ?_ ?_
  · rw [act_address]
    simp [World.address, wires, ips]
  · by_cases here : k = i
    · subst here
      rw [act_wires_self, wires]
      exact link
    · rw [act_wires_ne _ _ _ here, wires]
      exact ⟨rfl, rfl, rfl, rfl⟩
  · rw [sent, List.countP_append, count, Nat.add_eq_left]
    exact List.countP_eq_zero.mpr fun c mem => by simp [out c mem]
  · intro c mem
    rw [sent] at mem
    exact (List.mem_append.mp mem).imp (fun old => kept old) (out c)

theorem send_acks {w : Wire Args} (listens : w.listening = true) (ip serial : Nat) (args : Args) :
    (w.receive ip (.wireSend (some w.id) serial args)).sends =
      w.sendTo (.wireAck w.selfId serial) := by
  simp only [Wire.receive, listens, Wire.sendOSCFunc, ↓reduceIte]
  split
  · rfl
  · split <;> rfl

theorem ack_moves {w : Wire Args} (listens : w.listening = true) (early : w.sendAckSerial < 2 ^ 31)
    (ip : Nat) : (w.receive ip (.wireAck (some w.id) (w.sendAckSerial + 1))).wire.sendAckSerial =
      w.sendAckSerial + 1 := by
  simp only [Wire.receive, listens, Wire.ackOSCFunc, following_early early, ↓reduceIte]
  split <;> rfl

theorem underway_grow {w v : World Side Args} (ids : ∀ i, (v.wires i).id = (w.wires i).id)
    (grown : w.inFlight ⊆ v.inFlight) {x : Side} {serial : Nat} (underway : Underway w x serial) :
    Underway v x serial := by
  unfold Underway
  rw [ids, ids]
  exact underway.imp (fun ⟨d, mem, rest⟩ => ⟨d, grown mem, rest⟩)
    (fun ⟨d, mem, rest⟩ => ⟨d, grown mem, rest⟩)

theorem underway_busy {w : World Side Args} (phase : Phase w) {x : Side} {serial : Nat}
    (underway : Underway w x serial) : Busy w := by
  rcases underway with ⟨d, mem, _, args, packet⟩ | ⟨d, mem, _, packet⟩
  · exact carrying_busy phase mem (by rw [packet]; rfl)
  · exact carrying_busy phase mem (by rw [packet]; rfl)

section Deliver
variable {w v : World Side Args} {i : Side} {n : Nat} {d : Datagram Side Args}

theorem underway_deliver (paired : Paired w) (found : w.inFlight[n]? = some d)
    (dest : d.dest = w.address i) (listens : (w.wires i).listening = true)
    (wires : v.wires = w.wires) (flights : v.inFlight = (w.drop n).inFlight) {ip : Nat} {x : Side}
    (ready : Ready w i) (early : (w.wires x).sendAckSerial < 2 ^ 31)
    (same : x = i → ((w.wires i).receive ip d.packet).wire.sendAckSerial =
      (w.wires i).sendAckSerial)
    (underway : Underway w x ((w.wires x).sendAckSerial + 1)) :
    Underway (v.act i (.packet ip d.packet)) x ((w.wires x).sendAckSerial + 1) := by
  have mem := List.mem_of_getElem? found
  have stays {c : Datagram Side Args} (left : c ∈ (w.drop n).inFlight) :
      c ∈ (v.act i (.packet ip d.packet)).inFlight :=
    (mem_act_inFlight v i _).mpr (Or.inl (flights ▸ left))
  unfold Underway
  rw [act_id, act_id, wires]
  rcases underway with ⟨c, there, source, args, packet⟩ | ⟨c, there, source, packet⟩
  · rcases mem_drop found there with rfl | left
    · have other := source_other paired mem dest (by rw [packet]; rfl)
      have self : i = x.other := by rw [← source, other, other_other]
      subst self
      rw [packet]
      refine Or.inr ⟨⟨x.other, w.address x, .wireAck (some (w.wires x).id)
        ((w.wires x).sendAckSerial + 1), v.session x.other⟩, ?_, rfl, rfl⟩
      refine (mem_act_inFlight v x.other _).mpr (Or.inr ⟨(w.address x, _), ?_, rfl⟩)
      have addr := ready.netAddr
      have self := ready.selfId
      rw [other_other] at addr self
      rw [wires, Wire.react, send_acks listens, Wire.sendTo, addr, self]
      simp
    · exact Or.inl ⟨c, stays left, source, args, packet⟩
  · rcases mem_drop found there with rfl | left
    · have other := source_other paired mem dest (by rw [packet]; rfl)
      have self : x = i := by rw [← other_other x, ← source, other, other_other]
      subst self
      have moved := ack_moves listens early ip
      rw [← packet, same rfl] at moved
      omega
    · exact Or.inr ⟨c, stays left, source, packet⟩

theorem joining_inFlight (w : World Side Args) (i : Side) (d : Datagram Side Args) :
    (w.joining i d).inFlight = w.inFlight := by
  unfold World.joining
  split
  · split <;> rfl
  · rfl

theorem budgets_deliver (healthy : Healthy w) (found : w.inFlight[n]? = some d)
    (dest : d.dest = w.address i) (wires : v.wires = w.wires)
    (flights : v.inFlight = (w.drop n).inFlight) {ip : Nat}
    (shaking : Shaking (.packet ip d.packet))
    (resets : Resets (w.wires i) (.packet ip d.packet) →
      (w.wires i).connectionState ≠ .connected) (j : Side) :
    let next := v.act i (.packet ip d.packet)
    Budgeted (next.wires j) (next.wires j.other).id
      (Underway next j ((next.wires j).sendAckSerial + 1)) := by
  intro next
  have ready {x : Side} {serial : Nat} (underway : Underway w x serial) : Ready w i :=
    busy_ready (underway_busy healthy.phase underway) i
  have early (x : Side) : (w.wires x).sendAckSerial < 2 ^ 31 :=
    Nat.lt_of_le_of_lt (healthy.budgets x).acked (healthy.budgets x).short
  have arrive {x : Side} (ready : Ready w i)
      (same : x = i → ((w.wires i).receive ip d.packet).wire.sendAckSerial =
        (w.wires i).sendAckSerial) :
      Underway w x ((w.wires x).sendAckSerial + 1) →
        Underway (v.act i (.packet ip d.packet)) x ((w.wires x).sendAckSerial + 1) :=
    underway_deliver healthy.paired found dest (healthy.listening i) wires flights ready (early x)
      same
  rw [act_id, wires]
  by_cases here : j = i
  · subst here
    have reaction : next.wires j = ((w.wires j).react (.packet ip d.packet)).wire := by
      rw [act_wires_self, wires]
    rw [reaction]
    refine budgeted_react (healthy.budgets j) shaking ?_ resets (healthy.budgets j).short ?_ ?_
    · intro connected
      have linked := busy_ready (connected_busy healthy.phase connected) j
      exact ⟨by rw [linked.netAddr]; simp, linked.selfId⟩
    · intro ip id serial ack
      obtain ⟨-, packet⟩ := Stimulus.packet.inj ack
      have mem := List.mem_of_getElem? found
      have source := source_other healthy.paired mem dest (by rw [packet]; rfl)
      have taken := healthy.counted.acks d mem id serial packet
      rwa [source, other_other] at taken
    · intro same underway
      rw [same]
      exact arrive (ready underway) (fun _ => same) underway
  · rw [act_wires_ne _ _ _ here, wires]
    exact budgeted_same (healthy.budgets j) ⟨rfl, rfl, rfl⟩ (Or.inl (Nat.le_refl _))
      (healthy.budgets j).acked
      (fun _ underway => arrive (ready underway) (fun same => absurd same here) underway)
      (healthy.budgets j).unused

theorem flight_only {c : Datagram Side Args} (only : w.inFlight = [c])
    (found : w.inFlight[n]? = some d) : d = c ∧ (w.drop n).inFlight = [] := by
  have length : (w.drop n).inFlight.length = 0 := by
    have := (perm_drop found).length_eq
    rw [only] at this
    simpa using this
  have mem := List.mem_of_getElem? found
  rw [only, List.mem_singleton] at mem
  exact ⟨mem, List.eq_nil_of_length_eq_zero length⟩

theorem requested_deliver {j : Side} (healthy : Healthy w) (phase : Requested w j)
    (found : w.inFlight[n]? = some d) (dest : d.dest = w.address i) (wires : v.wires = w.wires)
    (ips : v.ip = w.ip) (flights : v.inFlight = (w.drop n).inFlight) :
    Accepted (v.act i (.packet (w.ip d.source) d.packet)) j ∧
      d.packet = .wireConnectRequest (w.wires j).receivePort (w.wires j).id := by
  obtain ⟨c, only, source, packet⟩ := phase.flight
  obtain ⟨rfl, left⟩ := flight_only only found
  have other := source_other healthy.paired (List.mem_of_getElem? found) dest (by rw [packet]; rfl)
  have self : i = j.other := by rw [← source, other, other_other]
  subst self
  have listens := healthy.listening j.other
  have waits := phase.waits
  have address (k : Side) : v.address k = w.address k := by simp [World.address, wires, ips]
  have reaction : (v.act j.other (.packet (w.ip d.source) d.packet)).wires j.other =
      ({ (w.wires j.other).prChangeConnectionState .connectionAccepted with
          netAddr := some (w.address j)
          selfId := some (w.wires j).id }.startRetry (w.address j)
        (.accept (w.wires j).id (w.wires j.other).id)).wire := by
    rw [act_wires_self, wires, packet, source]
    simp [Wire.react, Wire.receive, listens, Wire.connectRequestOSCFunc, waits,
      ConnectionState.mayAccept, World.address]
  have still : (v.act j.other (.packet (w.ip d.source) d.packet)).wires j = w.wires j := by
    rw [act_wires_ne _ _ _ (ne_other j), wires]
  refine ⟨⟨?_, ?_, ?_, ?_, ⟨?_, ?_, ?_⟩, ?_⟩, packet⟩
  · rw [still]; exact phase.asks
  · rw [reaction]; simp
  · rw [still, act_address, address]; exact phase.netAddr
  · rw [still]; exact phase.retry
  · rw [reaction, act_address, address, other_other]; simp
  · rw [reaction, act_id, wires, other_other]; simp
  · rw [reaction]; simp
  · refine ⟨⟨j.other, w.address j, .wireConnectAccept (w.wires j).id (w.wires j.other).id,
      v.session j.other⟩, ?_, rfl, by rw [act_id, act_id, wires]⟩
    simp only [World.act, flights, left, wires, packet, source, Wire.react, Wire.receive, listens,
      Wire.connectRequestOSCFunc, waits, ConnectionState.mayAccept]
    simp [Request.message, World.address]

theorem accepted_deliver {j : Side} (healthy : Healthy w) (phase : Accepted w j)
    (found : w.inFlight[n]? = some d) (dest : d.dest = w.address i) (wires : v.wires = w.wires)
    (ips : v.ip = w.ip) (flights : v.inFlight = (w.drop n).inFlight) {ip : Nat} :
    Confirming (v.act i (.packet ip d.packet)) j ∧ i = j ∧
      d.packet = .wireConnectAccept (w.wires j).id (w.wires j.other).id := by
  obtain ⟨c, only, source, packet⟩ := phase.flight
  obtain ⟨rfl, left⟩ := flight_only only found
  have other := source_other healthy.paired (List.mem_of_getElem? found) dest (by rw [packet]; rfl)
  have self : i = j := by rw [← other_other i, ← other, source, other_other]
  subst self
  have listens := healthy.listening i
  obtain ⟨ref, retry⟩ := Option.ne_none_iff_exists'.mp phase.retry
  have address (k : Side) : v.address k = w.address k := by simp [World.address, wires, ips]
  have reaction : (w.wires i).react (.packet ip d.packet) =
      ⟨{ (w.wires i).stopRetry ref with
          selfId := some (w.wires i.other).id }.prChangeConnectionState .connected,
        [(w.address i.other, .wireConnectConfirm (some (w.wires i.other).id))], []⟩ := by
    rw [packet]
    simp [Wire.react, Wire.receive, listens, Wire.connectAcceptOSCFunc, retry, Wire.sendTo,
      Wire.stopRetry, phase.netAddr]
  have still : (v.act i (.packet ip d.packet)).wires i.other = w.wires i.other := by
    rw [act_wires_ne _ _ _ (other_ne i), wires]
  have sent : (v.act i (.packet ip d.packet)).inFlight = [⟨i, w.address i.other,
      .wireConnectConfirm (some (w.wires i.other).id), v.session i⟩] := by
    simp [World.act, flights, left, wires, reaction]
  refine ⟨⟨?_, ?_, ?_, ?_, ?_⟩, rfl, packet⟩
  · rw [act_wires_self, wires, reaction]; simp
  · rw [still]; exact phase.answers
  · intro k
    rcases side_cases i k with rfl | rfl
    · refine ⟨?_, ?_, ?_⟩ <;> rw [act_wires_self, wires, reaction]
      · rw [act_address, address]
        simpa [Wire.stopRetry] using phase.netAddr
      · rw [act_id, wires]; simp
      · simp [Wire.stopRetry, retry]
    · refine ⟨?_, ?_, ?_⟩ <;> rw [still]
      · rw [act_address, address]; exact phase.ready.netAddr
      · rw [act_id, wires]; exact phase.ready.selfId
      · exact phase.ready.retry
  · rw [sent]; rfl
  · intro e mem
    rw [sent, List.mem_singleton] at mem
    rw [mem, act_id, wires]
    exact Or.inr ⟨rfl, rfl⟩

theorem confirming_deliver {j : Side} (healthy : Healthy w) (phase : Confirming w j)
    (found : w.inFlight[n]? = some d) (dest : d.dest = w.address i) (wires : v.wires = w.wires)
    (ips : v.ip = w.ip) (flights : v.inFlight = (w.drop n).inFlight) (ip : Nat)
    (confirm : d.packet.carries = false) :
    Established (v.act i (.packet ip d.packet)) ∧ i = j.other ∧
      d.packet = .wireConnectConfirm (some (w.wires i).id) := by
  have mem := List.mem_of_getElem? found
  obtain ⟨source, packet⟩ : d.source = j ∧
      d.packet = .wireConnectConfirm (some (w.wires j.other).id) := by
    rcases phase.flights d mem with carries | both
    · rw [confirm] at carries; cases carries
    · exact both
  have other := source_other healthy.paired mem dest (by rw [packet]; rfl)
  have self : i = j.other := by rw [← source, other, other_other]
  subst self
  have listens := healthy.listening j.other
  obtain ⟨ref, retry⟩ := Option.ne_none_iff_exists'.mp (phase.ready j.other).retry
  have address (k : Side) : v.address k = w.address k := by simp [World.address, wires, ips]
  have reaction : (w.wires j.other).react (.packet ip d.packet) =
      (((w.wires j.other).stopRetry ref).prChangeConnectionState .connected).idle := by
    rw [packet]
    simp [Wire.react, Wire.receive, listens, Wire.connectConfirmOSCFunc, retry]
  have still : (v.act j.other (.packet ip d.packet)).wires j = w.wires j := by
    rw [act_wires_ne _ _ _ (ne_other j), wires]
  have rest : ∀ c ∈ (w.drop n).inFlight, c.packet.carries = true := by
    have counts := (perm_drop found).countP_eq (fun d => !d.packet.carries)
    simp only [List.countP_cons, phase.one, confirm, Bool.not_false, ↓reduceIte,
      Nat.add_eq_right] at counts
    intro c left
    simpa using List.countP_eq_zero.mp counts c left
  refine ⟨⟨?_, ?_, ?_⟩, rfl, packet⟩
  · intro k
    rcases side_cases j k with rfl | rfl
    · rw [still]; exact phase.connected
    · rw [act_wires_self, wires, reaction]; simp
  · intro k
    obtain ⟨addr, selfId, _⟩ := phase.ready k
    rcases side_cases j k with rfl | rfl
    · refine ⟨?_, ?_, ?_⟩ <;> rw [still]
      · rw [act_address, address]; exact addr
      · rw [act_id, wires]; exact selfId
      · exact (phase.ready k).retry
    · refine ⟨?_, ?_, ?_⟩ <;> rw [act_wires_self, wires, reaction]
      · rw [act_address, address]; simpa [Wire.stopRetry] using addr
      · rw [act_id, wires]; simpa [Wire.stopRetry] using selfId
      · simp [Wire.stopRetry, retry]
  · intro c there
    have same : (v.act j.other (.packet ip d.packet)).inFlight = (w.drop n).inFlight := by
      simp [World.act, flights, wires, reaction]
    exact rest c (same ▸ there)

theorem carried_deliver (busy : Busy w) (found : w.inFlight[n]? = some d)
    (wires : v.wires = w.wires) (ips : v.ip = w.ip)
    (flights : v.inFlight = (w.drop n).inFlight) {ip : Nat}
    (carries : d.packet.carries = true) : Busy (v.act i (.packet ip d.packet)) := by
  obtain ⟨link, sends⟩ := carries_receive (w := w.wires i) ip carries
  refine busy_act busy wires ips ?_ ?_ link sends
  · rw [flights]
    exact (thins_drop w n).inFlight
  · have counts := (perm_drop found).countP_eq (fun d => !d.packet.carries)
    rw [flights, ← counts]
    simp [carries]

theorem phase_deliver (healthy : Healthy w) (found : w.inFlight[n]? = some d)
    (dest : d.dest = w.address i) (wires : v.wires = w.wires) (ips : v.ip = w.ip)
    (flights : v.inFlight = (w.drop n).inFlight) :
    let s := Stimulus.packet (w.ip d.source) d.packet
    Phase (v.act i s) ∧ Shaking s ∧
      (Resets (w.wires i) s → (w.wires i).connectionState ≠ .connected) := by
  intro s
  have mem := List.mem_of_getElem? found
  by_cases carries : d.packet.carries = true
  · have busy := carrying_busy healthy.phase mem carries
    refine ⟨busy_phase (carried_deliver busy found wires ips flights carries), ?_, ?_⟩
    · cases packet : d.packet <;> simp [packet, Packet.carries] at carries <;>
        simp [s, packet, Shaking]
    · intro resets
      cases packet : d.packet <;> simp [packet, Packet.carries] at carries <;>
        simp [s, packet, Resets] at resets
  · cases healthy.phase with
    | unopened phase => rw [phase.quiet] at mem; cases mem
    | requested j phase =>
      obtain ⟨next, packet⟩ := requested_deliver healthy phase found dest wires ips flights
      exact ⟨.accepted j next, by simp [s, packet, Shaking], fun resets => by
        simp [s, packet, Resets] at resets⟩
    | accepted j phase =>
      obtain ⟨next, rfl, packet⟩ := accepted_deliver healthy phase found dest wires ips flights
      exact ⟨.confirming i next, by simp [s, packet, Shaking], fun _ => by
        rw [phase.asks]; simp⟩
    | confirming j phase =>
      obtain ⟨next, rfl, packet⟩ := confirming_deliver healthy phase found dest wires ips flights
        (w.ip d.source) (by simpa using carries)
      exact ⟨.established next, by simp [s, packet, Shaking], fun _ => by
        rw [phase.answers]; simp⟩
    | established phase => exact absurd (phase.flights d mem) carries

theorem counted_act {s : Stimulus Args} (healthy : Healthy w) (wires : v.wires = w.wires)
    (flights : v.inFlight ⊆ w.inFlight)
    (unused : Resets (w.wires i) s → (w.wires i).sendSerial = 0)
    (short : (w.wires i).sendSerial + ((w.wires i).accepted s).length < 2 ^ 31)
    (data : ∀ ip id serial args, s = .packet ip (.wireSend id serial args) →
      serial ≤ (w.wires i.other).sendSerial) : Counted (v.act i s) := by
  have reacts := react_reacts (w.wires i) s
  have total := reacts_sendSerial reacts unused short
  have own : ((v.act i s).wires i).sendSerial =
      (w.wires i).sendSerial + ((w.wires i).accepted s).length := by
    rw [act_wires_self, wires]
    exact total
  have peer : ((v.act i s).wires i.other).sendSerial = (w.wires i.other).sendSerial := by
    rw [act_wires_ne _ _ _ (other_ne i), wires]
  have grows (k : Side) : (w.wires k).sendSerial ≤ ((v.act i s).wires k).sendSerial := by
    rcases side_cases i k with rfl | rfl <;> omega
  constructor
  · intro c mem id serial args packet
    rcases (mem_act_inFlight v i s).mp mem with old | ⟨⟨a, p⟩, sent, rfl⟩
    · exact Nat.le_trans (healthy.counted.data c (flights old) id serial args packet) (grows _)
    · rw [wires] at sent
      rcases reacts_sends reacts (a, p) sent with ⟨q, there, _, same⟩ | ⟨q, makes, message⟩ |
        replies
      · obtain ⟨k, bound, at_k⟩ := List.getElem_of_mem there
        have sends : (w.wires i).SendsAt k serial q :=
          ⟨(List.getElem?_eq_getElem bound).trans (congrArg some at_k), id, args,
            request_of_message ((Prod.mk.inj same).2.symm.trans packet)⟩
        exact Nat.le_trans ((healthy.budgets i).within k serial q sends).2 (grows i)
      · have request := request_of_message (message.symm.trans packet)
        cases makes with
        | send connected =>
          simp only [Request.send.injEq] at request
          simp only [Wire.accepted, connected, ↓reduceIte, List.length_singleton] at own short
          rw [← request.2.1, following_early (by omega)]
          exact Nat.le_of_eq own.symm
        | _ => cases request
      · dsimp only at packet
        rw [packet] at replies
        cases replies
  · intro c mem id serial packet
    rcases (mem_act_inFlight v i s).mp mem with old | ⟨out, sent, rfl⟩
    · exact Nat.le_trans (healthy.counted.acks c (flights old) id serial packet) (grows _)
    · rw [wires] at sent
      rcases reacts_sends reacts out sent with ⟨q, _, _, rfl⟩ | ⟨q, _, message⟩ | replies
      · cases same : q.request <;> simp [same, Request.message] at packet
      · cases q <;> simp [message, Request.message] at packet
      · dsimp only at packet
        rw [packet] at replies
        cases replies with
        | ack listens =>
          dsimp only
          rw [peer]
          exact data _ _ _ _ rfl

end Deliver

theorem healthy_deliver {w : World Side Args} {i : Side} {n : Nat} {d : Datagram Side Args}
    (healthy : Healthy w) (found : w.inFlight[n]? = some d) (dest : d.dest = w.address i) :
    let next := ((w.drop n).joining i d).act i (.packet (w.ip d.source) d.packet)
    Phase next ∧ Counted next ∧ ∀ j, Budgeted (next.wires j) (next.wires j.other).id
      (Underway next j ((next.wires j).sendAckSerial + 1)) := by
  have thins := thins_joining (thins_drop w n) i d
  have flights := joining_inFlight (w.drop n) i d
  obtain ⟨phase, shaking, resets⟩ :=
    phase_deliver healthy found dest thins.wires thins.ip flights
  refine ⟨phase, ?_, budgets_deliver healthy found dest thins.wires flights shaking resets⟩
  apply counted_act healthy thins.wires thins.inFlight
    (fun reset => (healthy.budgets i).unused (resets reset)) (healthy.budgets i).short
  intro ip id serial args arrives
  obtain ⟨-, packet⟩ := Stimulus.packet.inj arrives
  have mem := List.mem_of_getElem? found
  have source := source_other healthy.paired mem dest (by rw [packet]; rfl)
  have taken := healthy.counted.data d mem id serial args packet
  rwa [source] at taken

section Quiet
variable {w : World Side Args} {i : Side}

theorem act_idle {s : Stimulus Args} (idle : (w.wires i).react s = (w.wires i).idle)
    (refused : (w.wires i).accepted s = []) : w.act i s = w := by
  simp [World.act, idle, refused]

theorem budgets_grow {v : World Side Args} {s : Stimulus Args} (healthy : Healthy w)
    (wires : v.wires = w.wires) (flights : v.inFlight = w.inFlight)
    (self : ∀ later : Prop, (((w.wires i).react s).wire.sendAckSerial = (w.wires i).sendAckSerial →
        Underway w i ((w.wires i).sendAckSerial + 1) → later) →
      ((∀ a args, (a, Packet.wireSend (some (w.wires i.other).id)
        ((w.wires i).sendAckSerial + 1) args) ∈ ((w.wires i).react s).sends →
        ((w.wires i).react s).wire.sendAckSerial = (w.wires i).sendAckSerial → later)) →
      Budgeted ((w.wires i).react s).wire (w.wires i.other).id later) (j : Side) :
    let next := v.act i s
    Budgeted (next.wires j) (next.wires j.other).id
      (Underway next j ((next.wires j).sendAckSerial + 1)) := by
  intro next
  have ids (k : Side) : (next.wires k).id = (w.wires k).id := by rw [act_id, wires]
  have grown : w.inFlight ⊆ next.inFlight := by
    intro c mem
    exact (mem_act_inFlight v i s).mpr (Or.inl (flights ▸ mem))
  rw [ids]
  by_cases here : j = i
  · subst here
    have reaction : next.wires j = ((w.wires j).react s).wire := by rw [act_wires_self, wires]
    rw [reaction]
    refine self _ ?_ ?_
    · intro same underway
      rw [same]
      exact underway_grow ids grown underway
    · intro a args sent same
      rw [same]
      refine Or.inl ⟨⟨j, a, _, v.session j⟩, ?_, rfl, args, by rw [ids]⟩
      exact (mem_act_inFlight v j s).mpr (Or.inr ⟨(a, _), wires ▸ sent, rfl⟩)
  · rw [act_wires_ne _ _ _ here, wires]
    exact budgeted_same (healthy.budgets j) ⟨rfl, rfl, rfl⟩ (Or.inl (Nat.le_refl _))
      (healthy.budgets j).acked (fun _ underway => underway_grow ids grown underway)
      (healthy.budgets j).unused

theorem budgets_call {v : World Side Args} {c : Call Args} (healthy : Healthy w)
    (wires : v.wires = w.wires) (flights : v.inFlight = w.inFlight) (shaking : Shaking (.call c))
    (short : (w.wires i).sendSerial + ((w.wires i).accepted (.call c)).length < 2 ^ 31) (j : Side) :
    let next := v.act i (.call c)
    Budgeted (next.wires j) (next.wires j.other).id
      (Underway next j ((next.wires j).sendAckSerial + 1)) := by
  refine budgets_grow healthy wires flights ?_ j
  intro later keep _
  refine budgeted_react (healthy.budgets i) shaking ?_ (fun reset => reset.elim) short
    (fun ip id serial packet => by cases packet) keep
  intro connected
  have linked := busy_ready (connected_busy healthy.phase connected) i
  exact ⟨by rw [linked.netAddr]; simp, linked.selfId⟩

theorem phase_send (healthy : Healthy w) (args : Args) :
    Phase (w.act i (.call (.sendMsg args))) := by
  by_cases connected : (w.wires i).connectionState = .connected
  · have busy := connected_busy healthy.phase connected
    have addr := (busy_ready busy i).netAddr
    refine busy_phase (busy_act busy rfl rfl (List.Subset.refl _) rfl ?_ ?_) <;>
      simp only [Wire.react, Wire.call, Wire.sendMsg, connected, ↓reduceIte]
    · rw [addr]
      exact ⟨connected.symm ▸ rfl, rfl, rfl, rfl⟩
    · rw [addr]
      simp [Request.message, Packet.carries]
  · rw [act_idle]
    · exact healthy.phase
    · simp [Wire.react, Wire.call, Wire.sendMsg, connected]
    · simp [Wire.accepted, connected]

theorem phase_connect (healthy : Healthy w)
    (polite : (w.wires i.other).connectionState ≠ .connectionRequested) :
    Phase ((w.opening i (.connect (w.address i.other))).act i
      (.call (.connect (w.address i.other)))) := by
  by_cases may : (w.wires i).connectionState.mayOpen = true
  · have unopened : Unopened w := by
      cases healthy.phase with
      | unopened phase => exact phase
      | requested j phase =>
        rcases side_cases j i with rfl | rfl
        · rw [phase.asks] at may; cases may
        · rw [other_other] at polite
          exact absurd phase.asks polite
      | accepted j phase =>
        rcases side_cases j i with rfl | rfl
        · rw [phase.asks] at may; cases may
        · rw [phase.answers] at may; cases may
      | confirming j phase =>
        rcases side_cases j i with rfl | rfl
        · rw [phase.connected] at may; cases may
        · rw [phase.answers] at may; cases may
      | established phase => rw [phase.connected i] at may; cases may
    have thins := thins_opening w i (.connect (w.address i.other))
    have flights : (w.opening i (.connect (w.address i.other))).inFlight = w.inFlight := by
      simp only [World.opening]
      split <;> rfl
    generalize w.opening i (.connect (w.address i.other)) = v at thins flights
    have reaction : (w.wires i).react (.call (.connect (w.address i.other))) =
        ({ w.wires i with netAddr := some (w.address i.other) }.prChangeConnectionState
          .connectionRequested).startRetry (w.address i.other)
          (.connect (w.wires i).receivePort (w.wires i).id) := by
      simp [Wire.react, Wire.call, Wire.connect, may]
    refine .requested i ⟨?_, ?_, ?_, ?_, ?_⟩
    · rw [act_wires_self, thins.wires, reaction]; simp
    · rw [act_wires_ne _ _ _ (other_ne i), thins.wires]; exact unopened.states _
    · rw [act_wires_self, thins.wires, reaction, act_address, thins_address thins]; simp
    · rw [act_wires_self, thins.wires, reaction]; simp
    · refine ⟨⟨i, w.address i.other, _, v.session i⟩, ?_, rfl, rfl⟩
      simp [World.act, flights, unopened.quiet, thins.wires, reaction, Request.message]
  · have same : w.opening i (.connect (w.address i.other)) = w := by
      simp [World.opening, may]
    rw [same, act_idle]
    · exact healthy.phase
    · simp [Wire.react, Wire.call, Wire.connect, may]
    · rfl

theorem timer_keeps (w : Wire Args) (ref : Nat) : (w.retryFunction ref).wire.netAddr = w.netAddr ∧
    (w.retryFunction ref).wire.selfId = w.selfId ∧
    (w.retryFunction ref).wire.connectionRetry = w.connectionRetry ∧
    (w.retryFunction ref).wire.sendAckSerial = w.sendAckSerial := by
  have reacts := timer_reacts w ref
  generalize w.retryFunction ref = r at reacts
  cases reacts <;> simp [Wire.idle, Wire.setRetry]

theorem healthy_timer {ref : Nat} (healthy : Healthy w) (quiet : w.inFlight = [])
    (turn : (w.wires i).InTurn ref) :
    let next := w.act i (.timer ref)
    Phase next ∧ Counted next ∧ ∀ j, Budgeted (next.wires j) (next.wires j.other).id
      (Underway next j ((next.wires j).sendAckSerial + 1)) := by
  intro next
  have counted : Counted next := counted_act healthy rfl (List.Subset.refl _)
    (fun reset => reset.elim) (healthy.budgets i).short
    (fun ip id serial args packet => by cases packet)
  have still {x : Side} {serial : Nat} : ¬ Underway w x serial := by
    simp [Underway, quiet]
  cases healthy.phase with
  | unopened phase =>
    have same : next = w := act_idle
      (by simp [Wire.react, Wire.retryFunction, phase.retries i]) rfl
    rw [same]
    exact ⟨healthy.phase, healthy.counted, healthy.budgets⟩
  | requested j phase =>
    obtain ⟨d, only, _⟩ := phase.flight
    rw [quiet] at only
    cases only
  | accepted j phase =>
    obtain ⟨d, only, _⟩ := phase.flight
    rw [quiet] at only
    cases only
  | confirming j phase =>
    have one := phase.one
    rw [quiet] at one
    cases one
  | established phase =>
    have connected := phase.connected i
    obtain ⟨addr, self, retry, acks⟩ := timer_keeps (w.wires i) ref
    refine ⟨busy_phase (busy_act (Or.inr phase) rfl rfl (List.Subset.refl _) rfl ?_ ?_), counted,
      budgets_grow healthy rfl rfl ?_⟩
    · have fires := budgeted_timer (healthy.budgets i) (healthy.enough i) turn still connected
        (fun _ _ _ => True.intro)
      exact ⟨fires.1.trans connected.symm, addr, self, retry⟩
    · have fires := budgeted_timer (healthy.budgets i) (healthy.enough i) turn still connected
        (fun _ _ _ => True.intro)
      intro out mem
      obtain ⟨id, serial, args, packet⟩ := fires.2.1 out mem
      rw [packet]
      rfl
    · intro later keep resent
      exact (budgeted_timer (healthy.budgets i) (healthy.enough i) turn still connected
        fun a args sent => resent a args sent acks).2.2

end Quiet

theorem reacts_listening {w : Wire Args} {s : Stimulus Args} {r : Reaction Args}
    (reacts : Reacts w s r) (drop : s ≠ .call .prDropLine) : r.wire.listening = w.listening := by
  cases reacts with
  | prDropLine => exact absurd rfl drop
  | _ => simp [Wire.idle, Wire.stopRetry, Wire.setRetry]

theorem constants_step {w next : World Side Args} {e : Event Side Args} (between : Between w e)
    (drop : ∀ i, e ≠ .call i .prDropLine) (step : w.step e = some next) (k : Side) :
    (next.wires k).listening = (w.wires k).listening ∧
      (next.wires k).maxRetries = (w.wires k).maxRetries := by
  rcases step_cases step (between_settled between) with thins | ⟨v, i, s, thins, cause, rfl⟩
  · rw [thins.wires]
    exact ⟨rfl, rfl⟩
  · have other : s ≠ .call .prDropLine := by
      rintro rfl
      cases cause
      exact drop i rfl
    rw [act_maxRetries, thins.wires]
    by_cases here : k = i
    · subst here
      rw [act_wires_self, thins.wires]
      exact ⟨reacts_listening (react_reacts _ s) other, rfl⟩
    · rw [act_wires_ne _ _ _ here, thins.wires]
      exact ⟨rfl, rfl⟩

theorem short_send {w : World Side Args} {i : Side} {args : Args} (healthy : Healthy w)
    (unwrapped : Unwrapped i w (.call i (.sendMsg args))) :
    (w.wires i).sendSerial + ((w.wires i).accepted (.call (.sendMsg args))).length < 2 ^ 31 := by
  have short := (healthy.budgets i).short
  by_cases connected : (w.wires i).connectionState = .connected
  · have below := unwrapped rfl connected
    rw [signed_early short] at below
    simp only [Wire.accepted, connected, ↓reduceIte, List.length_singleton]
    omega
  · simpa [Wire.accepted, connected] using short

theorem healthy_step {w next : World Side Args} {e : Event Side Args} (healthy : Healthy w)
    (undisturbed : Undisturbed w e) (inOrder : InOrder w e) (unwrapped : ∀ i, Unwrapped i w e)
    (step : w.step e = some next) : Healthy next := by
  have between : Between w e := by
    unfold Between
    unfold Undisturbed at undisturbed
    split <;> trivial
  have constants := constants_step between (by rintro i rfl; exact undisturbed) step
  suffices kept : Phase next ∧ Counted next ∧ ∀ j, Budgeted (next.wires j) (next.wires j.other).id
      (Underway next j ((next.wires j).sendAckSerial + 1)) from
    ⟨honest_step healthy.honest step, paired_step healthy.paired healthy.honest between step,
      fun i => (constants i).1.trans (healthy.listening i),
      fun i => (constants i).2 ▸ healthy.enough i, kept.1, kept.2.1, kept.2.2⟩
  cases e with
  | call i c =>
    simp only [World.step, Option.some.injEq] at step
    subst step
    cases c with
    | connect a =>
      have toward : a = w.address i.other := undisturbed
      subst toward
      have flights : (w.opening i (.connect (w.address i.other))).inFlight = w.inFlight := by
        simp only [World.opening]
        split <;> rfl
      have thins := thins_opening w i (.connect (w.address i.other))
      have short := (healthy.budgets i).short
      exact ⟨phase_connect healthy inOrder, counted_act healthy thins.wires thins.inFlight
          (fun reset => reset.elim) short (fun ip id serial args packet => by cases packet),
        budgets_call healthy thins.wires flights trivial short⟩
    | sendMsg args =>
      have short := short_send healthy (unwrapped i)
      exact ⟨phase_send healthy args, counted_act healthy rfl (List.Subset.refl _)
          (fun reset => reset.elim) short (fun ip id serial args packet => by cases packet),
        budgets_call healthy rfl rfl trivial short⟩
    | knock | disconnect | prDropLine => exact undisturbed.elim
  | timer i ref =>
    simp only [World.step, Option.some.injEq] at step
    subst step
    exact healthy_timer healthy undisturbed inOrder
  | deliver i n =>
    obtain ⟨d, found, step⟩ := Option.bind_eq_some_iff.mp step
    split at step
    · rename_i dest
      exact Option.some.inj step ▸ healthy_deliver healthy found dest
    · cases step
  | lose | duplicate | bind | unbind | knocked => exact undisturbed.elim

theorem healthy_new (r : Roster Side) (enough : ∀ i, 2 ≤ r.maxRetries i)
    (listening : ∀ i, r.listening i = true) : Healthy (World.new r : World Side Args) := by
  refine ⟨honest_new r, paired_new r, listening, enough,
    .unopened ⟨fun _ => rfl, fun _ => rfl, rfl⟩, ⟨fun d mem => ?_, fun d mem => ?_⟩,
    fun i => budgeted_new rfl rfl rfl⟩ <;> cases mem

def NeverFails (start : World Side Args) (es : List (Event Side Args)) : Prop :=
  ∀ w, start.run es = some w → ∀ i, (w.wires i).connectionState ≠ .failureTimeout

/-- Over every run from two new wires that loses nothing, in order. -/
theorem failure_needs_loss (r : Roster Side) (enough : ∀ i, 2 ≤ r.maxRetries i)
    (listening : ∀ i, r.listening i = true) {es : List (Event Side Args)}
    (undisturbed : Along World.step Undisturbed (World.new r) es)
    (inOrder : Along World.step InOrder (World.new r) es)
    (unwrapped : Along World.step (fun w e => ∀ i, Unwrapped i w e) (World.new r) es) :
    NeverFails (World.new r) es := by
  intro w ran
  have healthy := run_invariant Healthy
    (fun _ _ _ healthy each step => healthy_step healthy each.1 each.2.1 each.2.2 step)
    (healthy_new r enough listening) (along_and undisturbed (along_and inOrder unwrapped)) ran
  exact phase_sound healthy.phase

section Decide

instance (w : World Side Args) : ∀ e, Decidable (Undisturbed w e)
  | .call i (.connect a) => inferInstanceAs (Decidable (a = w.address i.other))
  | .call _ (.sendMsg _) | .deliver _ _ => isTrue trivial
  | .timer _ _ => inferInstanceAs (Decidable (w.inFlight = []))
  | .call _ (.knock _) | .call _ .disconnect | .call _ .prDropLine | .lose _ | .duplicate _
  | .bind _ | .unbind _ | .knocked _ _ => isFalse id

instance (w : Wire Args) (ref : Nat) : Decidable (w.InTurn ref) :=
  inferInstanceAs (Decidable (∀ r ∈ w.retries[ref]?, ∀ k, k < ref → ∀ q ∈ w.retries[k]?,
    q.scheduled = true → r.retries < q.retries))

instance (w : World Side Args) : ∀ e, Decidable (InOrder w e)
  | .call i (.connect _) =>
    inferInstanceAs (Decidable ((w.wires i.other).connectionState ≠ .connectionRequested))
  | .timer i ref => inferInstanceAs (Decidable ((w.wires i).InTurn ref))
  | .call _ (.knock _) | .call _ (.sendMsg _) | .call _ .disconnect | .call _ .prDropLine
  | .deliver _ _ | .lose _ | .duplicate _ | .bind _ | .unbind _ | .knocked _ _ => isTrue trivial

end Decide

def brief (maxRetries : Nat) : Roster Side :=
  { duo with maxRetries := fun _ => maxRetries }

def reversed : List (Event Side Nat) :=
  [.call .a (.connect ⟨2, 7666⟩), .deliver .b 0, .deliver .a 0, .deliver .b 0,
    .call .a (.sendMsg 10), .call .a (.sendMsg 20), .call .a (.sendMsg 30),
    .deliver .b 0, .deliver .b 0, .deliver .b 0, .deliver .a 2, .deliver .a 1, .deliver .a 0]

theorem failure_needs_loss_reversed : NeverFails (World.new (brief 2))
    (reversed ++ [.timer .a 0, .timer .a 1, .timer .a 2, .deliver .b 0, .deliver .a 0,
      .timer .a 3, .deliver .b 0, .deliver .a 0, .timer .a 2, .timer .a 3]) :=
  failure_needs_loss (brief 2) (fun _ => Nat.le_refl 2) (fun _ => rfl) (by decide +kernel)
    (by decide +kernel) (by decide +kernel)

end SCLOrkWire
