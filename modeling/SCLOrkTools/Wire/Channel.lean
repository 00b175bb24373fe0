import SCLOrkTools.Wire.Pair

/- The data plane of a session: what one wire sends and the other hears. -/
namespace SCLOrkWire
open GuardedRun RingBuffer WrapInteger
variable {Args : Type}

/-- The direction from wire `x` to the other. The log is what the client of `x` passed to
    sendMsg, fewer messages than there are serials; data in flight or up for retransmission
    is from the log, and every ack in flight is for a serial that has arrived. -/
structure Channel (w : World Side Args) (x : Side) : Prop where
  wide : 0 < (w.wires x.other).bufferSize
  sized : (w.wires x.other).Sized
  short : (w.passed x).length < 2 ^ 31
  count : (w.passed x).length = (w.wires x).sendSerial
  retries : ∀ r ∈ (w.wires x).retries, ∀ id serial args, r.request = .send id serial args →
    Logged (w.passed x) serial args
  data : ∀ d ∈ w.inFlight, d.source = x → ∀ id serial args, d.packet = .wireSend id serial args →
    Logged (w.passed x) serial args
  acks : ∀ d ∈ w.inFlight, d.source = x.other → ∀ id serial, d.packet = .wireAck id serial →
    Arrived serial (w.wires x.other).receiveSerial (w.wires x.other).receiveBuffer
  acked : (w.wires x).sendAckSerial ≤ (w.wires x.other).receiveSerial
  follows : Follows (w.passed x) ((w.wires x.other).receiveSerial + 2) (w.heard x.other)
    (w.wires x.other).receiveSerial (w.wires x.other).receiveBuffer

theorem channel_thins {v w : World Side Args} {x : Side} (channel : Channel w x)
    (thins : Thins v w) : Channel v x := by
  obtain ⟨wide, sized, short, count, retries, data, acks, acked, follows⟩ := channel
  rw [← thins.wires] at wide sized count acks acked follows
  rw [← thins.passed] at short count data follows
  rw [← thins.heard] at follows
  refine ⟨wide, sized, short, count, ?_, fun d mem => data d (thins.inFlight mem),
    fun d mem => acks d (thins.inFlight mem), acked, follows⟩
  intro r mem
  rw [thins.wires] at mem
  rw [thins.passed]
  exact retries r mem

theorem request_of_message {q : Request Args} {id : Option Nat} {serial : Nat} {args : Args}
    (message : q.message = .wireSend id serial args) : q = .send id serial args := by
  cases q <;> simp_all [Request.message]

theorem channel_sender {w : World Side Args} {x : Side} {s : Stimulus Args}
    (channel : Channel w x) (steady : Resets (w.wires x) s → (w.wires x).Fresh)
    (room : (w.passed x).length + ((w.wires x).accepted s).length < 2 ^ 31)
    (ack : ∀ ip id serial, s = .packet ip (.wireAck id serial) →
      Arrived serial (w.wires x.other).receiveSerial (w.wires x.other).receiveBuffer) :
    Channel (w.act x s) x := by
  have reacts := react_reacts (w.wires x) s
  have other : (w.act x s).wires x.other = w.wires x.other := act_wires_ne w x s (other_ne x)
  have made {a : NetAddr} {q : Request Args} {id : Option Nat} {serial : Nat} {args : Args}
      (makes : Makes (w.wires x) s a q) (request : q = .send id serial args) :
      Logged ((w.act x s).passed x) serial args := by
    cases makes with
    | send connected =>
      simp only [Request.send.injEq] at request
      obtain ⟨-, rfl, rfl⟩ := request
      rw [act_passed_self, ← channel.count, following_early (by omega)]
      simp [Logged, Wire.accepted, connected]
    | _ => cases request
  refine ⟨?_, ?_, ?_, ?_, ?_, ?_, ?_, ?_, ?_⟩
  · rw [other]; exact channel.wide
  · rw [other]; exact channel.sized
  · rw [act_passed_self, List.length_append]; exact room
  · rw [act_passed_self, act_wires_self, List.length_append, channel.count]
    exact (reacts_sendSerial reacts (fun resets => (steady resets).sendSerial)
      (channel.count ▸ room)).symm
  · intro r mem id serial args request
    rw [act_wires_self] at mem
    rcases reacts_retries reacts r mem with ⟨old, there, same, _⟩ | makes
    · rw [act_passed_self]
      exact logged_append _ (channel.retries old there id serial args (same ▸ request))
    · exact made makes request
  · intro d mem source id serial args packet
    rcases (mem_act_inFlight w x s).mp mem with old | ⟨out, sent, rfl⟩
    · rw [act_passed_self]
      exact logged_append _ (channel.data d old source id serial args packet)
    · rcases reacts_sends reacts out sent with ⟨old, there, _, rfl⟩ | ⟨q, makes, message⟩ | replies
      · rw [act_passed_self]
        exact logged_append _ (channel.retries old there id serial args (request_of_message packet))
      · exact made makes (request_of_message (message.symm.trans packet))
      · dsimp only at packet
        rw [packet] at replies
        cases replies
  · intro d mem source id serial packet
    rw [other]
    rcases (mem_act_inFlight w x s).mp mem with old | ⟨out, sent, rfl⟩
    · exact channel.acks d old source id serial packet
    · exact absurd source (ne_other x)
  · rw [other, act_wires_self]
    rcases reacts_sendAckSerial reacts steady with same | ⟨next, ip, arrives⟩
    · rw [same]; exact channel.acked
    · have below := channel.acked
      have short := channel.short
      have bound := channel.follows.bound
      have arrived := ack ip _ _ arrives
      rw [following_early (by omega)] at next arrived
      rw [next]
      rcases arrived with done | ⟨above, _⟩ <;> omega
  · rw [other, act_passed_self, act_heard_ne w x s (other_ne x)]
    exact follows_append _ channel.follows

theorem channel_receiver {w : World Side Args} {x : Side} {s : Stimulus Args}
    (channel : Channel w x) (steady : Resets (w.wires x.other) s → (w.wires x.other).Fresh)
    (data : ∀ ip id serial args, s = .packet ip (.wireSend id serial args) →
      Logged (w.passed x) serial args ∧
      serial ≤ (w.wires x.other).receiveSerial + 1 + (w.wires x.other).bufferSize) :
    Channel (w.act x.other s) x := by
  obtain ⟨wide, sized, short, count, retries, flights, acks, acked, follows⟩ := channel
  have reacts := react_reacts (w.wires x.other) s
  have logged : ∀ ip id serial args, s = .packet ip (.wireSend id serial args) →
      Logged (w.passed x) serial args :=
    fun ip id serial args arrives => (data ip id serial args arrives).1
  have self : (w.act x.other s).wires x = w.wires x := act_wires_ne w x.other s (ne_other x)
  have log : (w.act x.other s).passed x = w.passed x := act_passed_ne w x.other s (ne_other x)
  refine ⟨by rw [act_bufferSize]; exact wide, ?_, ?_, ?_, ?_, ?_, ?_, ?_, ?_⟩
  · rw [act_wires_self]; exact sized_reacts reacts sized
  · rw [log]; exact short
  · rw [log, self]; exact count
  · rw [log, self]; exact retries
  · intro d mem source
    rw [log]
    rcases (mem_act_inFlight w x.other s).mp mem with old | ⟨out, sent, rfl⟩
    · exact flights d old source
    · exact absurd source (other_ne x)
  · intro d mem source id serial packet
    rw [act_wires_self]
    rcases (mem_act_inFlight w x.other s).mp mem with old | ⟨out, sent, rfl⟩
    · exact arrived_reacts reacts steady short sized wide follows logged
        (acks d old source id serial packet)
    · dsimp only at packet
      rcases reacts_sends reacts out sent with ⟨old, _, _, rfl⟩ | ⟨q, _, message⟩ | replies
      · cases same : old.request <;> simp [same, Request.message] at packet
      · cases q <;> simp [message, Request.message] at packet
      · rw [packet] at replies
        cases replies with
        | ack listens =>
          rename_i ip args _
          obtain ⟨entry, window⟩ := data ip _ _ args rfl
          exact send_arrived listens short sized wide follows ip entry window
  · rw [self, act_wires_self]
    rcases reacts_follows reacts steady short follows logged with ⟨same, _⟩ |
      ⟨args, entry, later, _⟩ | ⟨_, _, _, _, _, _, same, _⟩
    · rw [same]; exact acked
    · rw [later]
      exact Nat.le_trans acked (Nat.le_of_lt (follows_accepting short sized wide follows entry).1)
    · rw [same]; exact acked
  · rw [log, act_wires_self, act_heard_self]
    rcases reacts_follows reacts steady short follows logged with ⟨same, ring, quiet⟩ |
      ⟨args, entry, later, ring, handed⟩ |
      ⟨ip, serial, args, arrives, entry, ahead, same, ring, quiet⟩
    · rw [same, ring, quiet, List.append_nil]
      exact follows
    · rw [later, ring, handed]
      exact (follows_accepting short sized wide follows entry).2
    · have window := (data ip _ serial args arrives).2
      rw [Wire.Sized] at sized
      rw [same, ring, quiet, List.append_nil]
      refine ⟨follows.heard, follows.bound, holds_put follows.ring (by omega) (by omega) ?_⟩
      intro m put
      exact Option.some.inj put ▸ entry

/-- Data that arrives is at most one ring ahead of what the wire waits for. -/
def Wire.HasRoom (w : Wire Args) : Packet Args → Prop
  | .wireSend _ serial _ => signed serial ≤ signed w.receiveSerial + 1 + w.bufferSize
  | _ => True

def InWindow (i : Side) (w : World Side Args) : Event Side Args → Prop
  | .deliver j n => ∀ d ∈ w.inFlight[n]?, j = i → d.dest = w.address i →
    (w.wires i).HasRoom d.packet
  | _ => True

instance (w : Wire Args) : ∀ p, Decidable (w.HasRoom p)
  | .wireSend _ serial _ => inferInstanceAs (Decidable (signed serial ≤ _))
  | .wireKnock _ _ | .wireConnectRequest _ _ | .wireConnectAccept _ _ | .wireConnectConfirm _
  | .wireAck _ _ | .wireDisconnect _ | .wireDisconnectConfirm _ => isTrue trivial

instance (i : Side) (w : World Side Args) : ∀ e, Decidable (InWindow i w e)
  | .deliver j n => inferInstanceAs (Decidable (∀ d ∈ w.inFlight[n]?, j = i →
      d.dest = w.address i → (w.wires i).HasRoom d.packet))
  | .call _ _ | .timer _ _ | .lose _ | .duplicate _ | .bind _ | .unbind _ | .knocked _ _ =>
    isTrue trivial

/-- The last serial before sendSerial wraps round is not taken yet. -/
def Unwrapped (x : Side) (w : World Side Args) : Event Side Args → Prop
  | .call i (.sendMsg _) => i = x → (w.wires x).connectionState = .connected →
    signed (w.wires x).sendSerial < 2 ^ 31 - 1
  | _ => True

instance (x : Side) (w : World Side Args) : ∀ e, Decidable (Unwrapped x w e)
  | .call i (.sendMsg _) => inferInstanceAs (Decidable (i = x →
      (w.wires x).connectionState = .connected → signed (w.wires x).sendSerial < 2 ^ 31 - 1))
  | .call _ (.knock _) | .call _ (.connect _) | .call _ .disconnect | .call _ .prDropLine
  | .timer _ _ | .deliver _ _ | .lose _ | .duplicate _ | .bind _ | .unbind _ | .knocked _ _ =>
    isTrue trivial

/-- A packet that resets a wire finds nothing to reset. -/
def ResetsFresh (w : World Side Args) : Event Side Args → Prop
  | .deliver i n => ∀ d ∈ w.inFlight[n]?, d.dest = w.address i →
    Resets (w.wires i) (.packet (w.ip d.source) d.packet) → (w.wires i).Fresh
  | _ => True

theorem fresh_of_cause {w : World Side Args} {e : Event Side Args} (fresh : ResetsFresh w e)
    {i : Side} {s : Stimulus Args} (cause : Cause w e i s) (resets : Resets (w.wires i) s) :
    (w.wires i).Fresh := by
  cases cause with
  | call | timer => exact resets.elim
  | deliver found dest => exact fresh _ (Option.mem_def.mpr found) dest resets

theorem packet_of_cause {w : World Side Args} (paired : Paired w) {e : Event Side Args} {i : Side}
    {ip : Nat} {p : Packet Args} (cause : Cause w e i (.packet ip p)) (knock : p.isKnock = false) :
    ∃ n, e = .deliver i n ∧ ∃ d ∈ w.inFlight[n]?, d ∈ w.inFlight ∧ d.dest = w.address i ∧
      d.source = i.other ∧ d.packet = p := by
  obtain ⟨n, d, event, found, dest, -, rfl⟩ := delivered_of_cause cause
  have mem := List.mem_of_getElem? found
  exact ⟨n, event, d, Option.mem_def.mpr found, mem, dest, source_other paired mem dest knock, rfl⟩

theorem room_of_cause {w : World Side Args} {e : Event Side Args} {x : Side} {s : Stimulus Args}
    (channel : Channel w x) (unwrapped : Unwrapped x w e) (cause : Cause w e x s) :
    (w.passed x).length + ((w.wires x).accepted s).length < 2 ^ 31 := by
  have short := channel.short
  have count := channel.count
  cases cause with
  | call _ c =>
    cases c with
    | sendMsg args =>
      by_cases connected : (w.wires x).connectionState = .connected
      · have below := unwrapped rfl connected
        rw [signed_early (by omega)] at below
        simp only [Wire.accepted, connected, ↓reduceIte, List.length_singleton]
        omega
      · simpa [Wire.accepted, connected] using short
    | _ => exact short
  | timer | deliver => exact short

theorem channel_step {w next : World Side Args} {e : Event Side Args} {x : Side}
    (channel : Channel w x) (paired : Paired w) (between : Between w e)
    (fresh : ResetsFresh w e) (window : InWindow x.other w e) (unwrapped : Unwrapped x w e)
    (step : w.step e = some next) : Channel next x := by
  have short := channel.short
  rcases step_cases step (between_settled between) with thins | ⟨v, i, s, thins, cause, rfl⟩
  · exact channel_thins channel thins
  · have steady : Resets (v.wires i) s → (v.wires i).Fresh := by
      rw [thins.wires]
      exact fresh_of_cause fresh cause
    rcases side_cases x i with rfl | rfl
    · have room : (v.passed i).length + ((v.wires i).accepted s).length < 2 ^ 31 := by
        rw [thins.passed, thins.wires]
        exact room_of_cause channel unwrapped cause
      apply channel_sender (channel_thins channel thins) steady room
      rintro ip id serial rfl
      obtain ⟨n, -, d, -, mem, -, source, packet⟩ := packet_of_cause paired cause rfl
      rw [thins.wires]
      exact channel.acks d mem source id serial packet
    · apply channel_receiver (channel_thins channel thins) steady
      rintro ip id serial args rfl
      obtain ⟨n, rfl, d, found, mem, dest, source, packet⟩ := packet_of_cause paired cause rfl
      rw [other_other] at source
      have room := window d found rfl dest
      have logged := channel.data d mem source id serial args packet
      have last := logged_le logged
      have bound := channel.follows.bound
      rw [packet, Wire.HasRoom, signed_early (by omega), signed_early (by omega)] at room
      rw [thins.wires, thins.passed]
      exact ⟨logged, by omega⟩

/-- What a direction that keeps to the log guarantees. -/
theorem channel_delivers {w : World Side Args} {x : Side} (channel : Channel w x) :
    w.heard x.other = (w.passed x).take (w.wires x.other).receiveSerial ∧
    (w.heard x.other).length = (w.wires x.other).receiveSerial ∧
    (w.wires x).sendAckSerial ≤ (w.wires x.other).receiveSerial ∧
    (w.wires x.other).receiveSerial ≤ (w.wires x).sendSerial := by
  have bound := channel.follows.bound
  refine ⟨channel.follows.heard, ?_, channel.acked, channel.count ▸ bound⟩
  rw [channel.follows.heard, List.length_take]
  omega

theorem channel_sent {w : World Side Args} {x : Side} (channel : Channel w x) :
    signed (w.wires x).sendSerial = (w.passed x).length := by
  rw [← channel.count]
  exact signed_early channel.short

/-- What wire `x` sent, up to what the other has received: handed over in order, each
    message once, before its ack is believed. -/
structure Delivered (w : World Side Args) (x : Side) : Prop where
  heard : w.heard x.other = (w.passed x).take (signed (w.wires x.other).receiveSerial).toNat
  count : (w.heard x.other).length = signed (w.wires x.other).receiveSerial
  acked : signed (w.wires x).sendAckSerial ≤ signed (w.wires x.other).receiveSerial
  sent : signed (w.wires x.other).receiveSerial ≤ signed (w.wires x).sendSerial

theorem channel_delivered {w : World Side Args} {x : Side} (channel : Channel w x) :
    Delivered w x := by
  obtain ⟨heard, count, acked, sent⟩ := channel_delivers channel
  have short := channel.count ▸ channel.short
  have received : signed (w.wires x.other).receiveSerial = (w.wires x.other).receiveSerial :=
    signed_early (by omega)
  refine ⟨?_, ?_, (signed_le (by omega) (by omega)).mpr acked,
    (signed_le (by omega) (by omega)).mpr sent⟩
  · rw [received, Int.toNat_natCast]
    exact heard
  · rw [received]
    exact congrArg Nat.cast count

/-- A session under way: no handshake, no disconnect. -/
structure Settled (w : World Side Args) : Prop where
  states : ∀ i, (w.wires i).connectionState = .connected ∨
    (w.wires i).connectionState = .failureTimeout
  flights : ∀ d ∈ w.inFlight, (∃ id serial args, d.packet = .wireSend id serial args) ∨
    ∃ id serial, d.packet = .wireAck id serial

def Traffic : Event Side Args → Prop
  | .call _ (.sendMsg _) | .timer _ _ | .deliver _ _ | .lose _ | .duplicate _ => True
  | _ => False

theorem traffic_between {w : World Side Args} {e : Event Side Args} (traffic : Traffic e) :
    Between w e := by
  unfold Traffic at traffic
  split at traffic <;> trivial

def Calm : Stimulus Args → Prop
  | .call (.sendMsg _) | .timer _ | .packet _ (.wireSend _ _ _) | .packet _ (.wireAck _ _) => True
  | _ => False

theorem calm_state {w : Wire Args} {s : Stimulus Args} {r : Reaction Args} (reacts : Reacts w s r)
    (calm : Calm s) : r.wire.connectionState = w.connectionState ∨
      r.wire.connectionState = .failureTimeout := by
  cases reacts with
  | retryFailed => exact Or.inr (by simp [Wire.idle, Wire.setRetry])
  | knock | connect | disconnect | disconnectNil | connectRequest => exact calm.elim
  | connectAccept | connectConfirm | disconnectPacket | disconnectConfirm => exact calm.elim
  | _ => exact Or.inl (by simp [Wire.idle, Wire.stopRetry, Wire.setRetry])

theorem calm_sends {w : Wire Args} {s : Stimulus Args} {r : Reaction Args} (reacts : Reacts w s r)
    (calm : Calm s)
    (settled : w.connectionState = .connected ∨ w.connectionState = .failureTimeout) :
    ∀ out ∈ r.sends, (∃ id serial args, out.2 = .wireSend id serial args) ∨
      ∃ id serial, out.2 = .wireAck id serial := by
  rintro ⟨a, p⟩ mem
  rcases reacts_sends reacts _ mem with ⟨old, _, ⟨-, going⟩, same⟩ | ⟨q, makes, message⟩ | replies
  · rw [same]
    cases request : old.request with
    | send id serial args => exact Or.inl ⟨id, serial, args, by rw [Request.message]⟩
    | _ => rcases settled with state | state <;> simp [request, Wire.keepGoing, state] at going
  · cases makes with
    | send => exact Or.inl ⟨_, _, _, message⟩
    | knock | connect | disconnect | accept => exact calm.elim
  · cases replies with
    | ack => exact Or.inr ⟨_, _, rfl⟩
    | confirm | disconnectConfirm => exact calm.elim

theorem settled_act {w : World Side Args} (settled : Settled w) {i : Side} {s : Stimulus Args}
    (calm : Calm s) : Settled (w.act i s) := by
  have reacts := react_reacts (w.wires i) s
  constructor
  · intro j
    by_cases here : j = i
    · subst here
      rw [act_wires_self]
      rcases calm_state reacts calm with same | failed
      · rw [same]; exact settled.states j
      · exact Or.inr failed
    · rw [act_wires_ne _ _ _ here]; exact settled.states j
  · intro d mem
    rcases (mem_act_inFlight w i s).mp mem with old | ⟨out, sent, rfl⟩
    · exact settled.flights d old
    · exact calm_sends reacts calm (settled.states i) out sent

theorem calm_of_cause {w : World Side Args} {e : Event Side Args} {i : Side} {s : Stimulus Args}
    (settled : Settled w) (traffic : Traffic e) (cause : Cause w e i s) : Calm s := by
  cases cause with
  | call _ c => cases c <;> trivial
  | timer => trivial
  | deliver found =>
    rcases settled.flights _ (List.mem_of_getElem? found) with ⟨_, _, _, packet⟩ | ⟨_, _, packet⟩
      <;> · rw [packet]; trivial

theorem settled_step {w next : World Side Args} {e : Event Side Args} (settled : Settled w)
    (traffic : Traffic e) (step : w.step e = some next) : Settled next := by
  rcases step_cases step (between_settled (w := w) (traffic_between traffic)) with
    thins | ⟨v, i, s, thins, cause, rfl⟩
  · exact ⟨fun i => by rw [thins.wires]; exact settled.states i,
      fun d mem => settled.flights d (thins.inFlight mem)⟩
  · exact settled_act ⟨fun i => by rw [thins.wires]; exact settled.states i,
      fun d mem => settled.flights d (thins.inFlight mem)⟩ (calm_of_cause settled traffic cause)

theorem settled_keeps {w next : World Side Args} {e : Event Side Args} (settled : Settled w)
    (traffic : Traffic e) (step : w.step e = some next) {i : Side}
    (connected : (next.wires i).connectionState = .connected) :
    (w.wires i).connectionState = .connected := by
  rcases step_cases step (between_settled (w := w) (traffic_between traffic)) with
    thins | ⟨v, j, s, thins, cause, rfl⟩
  · rw [← thins.wires]; exact connected
  · rw [← thins.wires]
    by_cases here : i = j
    · subst here
      rw [act_wires_self] at connected
      rcases calm_state (react_reacts _ s) (calm_of_cause settled traffic cause) with same | failed
      · rw [← same]; exact connected
      · rw [failed] at connected; cases connected
    · rw [act_wires_ne _ _ _ here] at connected
      exact connected

theorem settled_fresh {w : World Side Args} (settled : Settled w) (e : Event Side Args) :
    ResetsFresh w e := by
  unfold ResetsFresh
  split
  · intro d found _ resets
    rcases settled.flights d (List.mem_of_getElem? (Option.mem_def.mp found)) with
      ⟨_, _, _, packet⟩ | ⟨_, _, packet⟩ <;> (rw [packet] at resets; exact resets.elim)
  · trivial

def sendCalls (i : Side) (es : List (Event Side Args)) : List Args :=
  es.filterMap fun
    | .call j (.sendMsg args) => if j = i then some args else none
    | _ => none

def World.taken (w : World Side Args) (i : Side) : Event Side Args → List Args
  | .call j (.sendMsg args) =>
    if j = i ∧ (w.wires i).connectionState = .connected then [args] else []
  | _ => []

theorem step_passed {w next : World Side Args} {e : Event Side Args} (between : Between w e)
    (step : w.step e = some next) (i : Side) : next.passed i = w.passed i ++ w.taken i e := by
  have acted (v : World Side Args) (thins : Thins v w) (j : Side) (s : Stimulus Args) :
      (v.act j s).passed i = w.passed i ++ if j = i then (w.wires i).accepted s else [] := by
    by_cases here : j = i
    · subst here
      rw [act_passed_self, thins.passed, thins.wires, if_pos rfl]
    · rw [act_passed_ne _ _ _ (Ne.symm here), thins.passed, if_neg here, List.append_nil]
  cases e with
  | call j c =>
    simp only [World.step, Option.some.injEq] at step
    rw [← step, acted _ (thins_opening w j c)]
    cases c <;> by_cases here : j = i <;> simp [World.taken, Wire.accepted, here]
  | timer j ref =>
    simp only [World.step, Option.some.injEq] at step
    rw [← step, acted _ (thins_refl w)]
    simp [World.taken, Wire.accepted]
  | deliver j n =>
    obtain ⟨d, found, step⟩ := Option.bind_eq_some_iff.mp step
    split at step
    · rw [← Option.some.inj step, acted _ (thins_joining (thins_drop w n) j d)]
      simp [World.taken, Wire.accepted]
    · cases step
  | lose n =>
    simp only [World.step] at step
    split at step
    · rw [← Option.some.inj step]; simp [World.drop, World.taken]
    · cases step
  | duplicate n =>
    obtain ⟨d, _, rfl⟩ := Option.map_eq_some_iff.mp step
    simp [World.taken]
  | bind a | unbind a => rw [← Option.some.inj step]; simp [World.taken]
  | knocked => exact between.elim

/-- Two wires that have just become connected to each other: nothing sent or received since,
    nothing in flight. Their retries are left over from the handshake. -/
structure JustConnected (w : World Side Args) : Prop where
  honest : Honest w
  paired : Paired w
  connected : ∀ i, (w.wires i).connectionState = .connected
  fresh : ∀ i, (w.wires i).Fresh
  wide : ∀ i, 0 < (w.wires i).bufferSize
  retries : ∀ i, ∀ r ∈ (w.wires i).retries, ∀ id serial args, r.request ≠ .send id serial args
  quiet : w.inFlight = []
  passed : ∀ i, w.passed i = []
  heard : ∀ i, w.heard i = []

theorem channel_of_fresh {w : World Side Args} {x : Side} (fresh : ∀ i, (w.wires i).Fresh)
    (wide : ∀ i, 0 < (w.wires i).bufferSize)
    (retries : ∀ r ∈ (w.wires x).retries, ∀ id serial args, r.request ≠ .send id serial args)
    (quiet : w.inFlight = []) (passed : w.passed x = []) (heard : w.heard x.other = []) :
    Channel w x := by
  have sender := fresh x
  have receiver := fresh x.other
  refine ⟨wide _, by simp [Wire.Sized, receiver.receiveBuffer], by simp [passed],
    by simp [passed, sender.sendSerial],
    fun r mem id serial args request => absurd request (retries r mem id serial args),
    fun d mem => by simp [quiet] at mem, fun d mem => by simp [quiet] at mem,
    by simp [sender.sendAckSerial], ⟨?_, ?_, ?_⟩⟩
  · simp [heard, passed]
  · simp [receiver.receiveSerial]
  · rw [receiver.receiveBuffer]
    exact holds_clear _ _ _

/-- The calls taken are the first ones made, all of them while the wire is connected. -/
structure Taken (i : Side) (past : List (Event Side Args)) (w : World Side Args) : Prop where
  first : w.passed i <+: sendCalls i past
  all : (w.wires i).connectionState = .connected → w.passed i = sendCalls i past

theorem sendCalls_snoc (i : Side) (past : List (Event Side Args)) (e : Event Side Args) :
    sendCalls i (past ++ [e]) = sendCalls i past ++ sendCalls i [e] := by
  simp [sendCalls]

theorem taken_step {i : Side} {past : List (Event Side Args)} {w next : World Side Args}
    {e : Event Side Args} (taken : Taken i past w) (settled : Settled w) (traffic : Traffic e)
    (step : w.step e = some next) : Taken i (past ++ [e]) next := by
  have grown := step_passed (traffic_between traffic) step i
  by_cases connected : (w.wires i).connectionState = .connected
  · have exact_calls : next.passed i = sendCalls i past ++ sendCalls i [e] := by
      rw [grown, taken.all connected]
      cases e with
      | call j c => cases c <;> by_cases here : j = i <;>
          simp [World.taken, sendCalls, connected, here]
      | _ => simp [World.taken, sendCalls]
    rw [← sendCalls_snoc] at exact_calls
    exact ⟨exact_calls ▸ List.prefix_rfl, fun _ => exact_calls⟩
  · have nothing : w.taken i e = [] := by
      cases e with
      | call j c => cases c <;> simp [World.taken, connected]
      | _ => rfl
    refine ⟨?_, fun now => absurd (settled_keeps settled traffic step now) connected⟩
    rw [grown, nothing, List.append_nil, sendCalls_snoc]
    exact taken.first.trans (List.prefix_append _ _)

structure DataPlane (past : List (Event Side Args)) (w : World Side Args) : Prop where
  honest : Honest w
  paired : Paired w
  settled : Settled w
  channel : Channel w .a
  taken : Taken .a past w

/-- What wire `b` owes to the client of `a` after the events `es`. -/
structure Delivery (es : List (Event Side Args)) (w : World Side Args) : Prop where
  heard : w.heard .b = (sendCalls .a es).take (signed (w.wires .b).receiveSerial).toNat
  count : (w.heard .b).length = signed (w.wires .b).receiveSerial
  acked : signed (w.wires .a).sendAckSerial ≤ signed (w.wires .b).receiveSerial
  sent : signed (w.wires .b).receiveSerial ≤ signed (w.wires .a).sendSerial
  idle : (w.wires .a).isIdle = true → (w.wires .b).isIdle = true → w.heard .b = sendCalls .a es
  drained : ∀ serial args, ((w.wires .b).accepting serial args).pending = false

theorem dataPlane_delivery {es : List (Event Side Args)} {w : World Side Args}
    (plane : DataPlane es w) : Delivery es w := by
  have channel := plane.channel
  obtain ⟨heard, count, acked, sent⟩ := channel_delivered channel
  refine ⟨?_, count, acked, sent, ?_, accepting_pending channel.sized⟩
  · have within : (signed (w.wires .b).receiveSerial).toNat ≤ (w.passed .a).length := by
      rw [channel_sent channel] at sent
      exact Int.toNat_le.mpr sent
    obtain ⟨rest, calls⟩ := plane.taken.first
    rw [← calls]
    exact heard.trans (List.take_append_of_le_length within).symm
  · intro idle _
    simp only [Wire.isIdle, Bool.and_eq_true, Bool.or_eq_true, decide_eq_true_eq] at idle
    obtain ⟨⟨state, all_acked⟩, _⟩ := idle
    have connected : (w.wires .a).connectionState = .connected := by
      rcases plane.settled.states .a with yes | failed
      · exact yes
      · rcases state with yes | no
        · exact yes
        · rw [failed] at no; cases no
    have whole : (w.passed .a).length ≤ (w.wires .b).receiveSerial := by
      rw [channel.count, all_acked]
      exact channel.acked
    rw [← plane.taken.all connected, ← List.take_of_length_le whole]
    exact channel.follows.heard

theorem dataPlane_unwrapped {past : List (Event Side Args)} {w : World Side Args}
    {e : Event Side Args} (plane : DataPlane past w)
    (few : (sendCalls .a (past ++ [e])).length < 2 ^ 31) : Unwrapped .a w e := by
  unfold Unwrapped
  split
  · rintro rfl connected
    have count := plane.channel.count
    rw [plane.taken.all connected] at count
    rw [sendCalls_snoc, List.length_append] at few
    simp only [sendCalls, List.filterMap_cons, List.filterMap_nil, ↓reduceIte,
      List.length_singleton] at few count
    rw [← count, signed_early (by omega)]
    omega
  · trivial

/-- Over every run of sendMsg calls, timers, deliveries, losses and duplications. -/
theorem data_plane {start w : World Side Args} (ready : JustConnected start)
    {es : List (Event Side Args)} (traffic : ∀ e ∈ es, Traffic e)
    (window : Along World.step (InWindow .b) start es)
    (few : (sendCalls .a es).length < 2 ^ 31) (ran : start.run es = some w) : Delivery es w := by
  suffices reached : (sendCalls .a es).length < 2 ^ 31 → DataPlane es w from
    dataPlane_delivery (reached few)
  refine run_history (p := fun w e => Traffic e ∧ InWindow .b w e)
    (fun past w => (sendCalls .a past).length < 2 ^ 31 → DataPlane past w) ?_ [] ?_
    (along_and (along_of_all traffic) window) ran
  · rintro past v e next before ⟨traffic, window⟩ step few
    have plane := before (by rw [sendCalls_snoc, List.length_append] at few; omega)
    have unwrapped := dataPlane_unwrapped plane few
    obtain ⟨honest, paired, settled, channel, taken⟩ := plane
    have between : Between v e := traffic_between traffic
    exact ⟨honest_step honest step, paired_step paired honest between step,
      settled_step settled traffic step,
      channel_step channel paired between (settled_fresh settled e) window unwrapped step,
      taken_step taken settled traffic step⟩
  · intro _
    refine ⟨ready.honest, ready.paired, ⟨fun i => Or.inl (ready.connected i), ?_⟩,
      channel_of_fresh ready.fresh ready.wide (ready.retries .a) ready.quiet (ready.passed .a)
      (ready.heard .b), ?_, fun _ => ready.passed .a⟩
    · intro d mem
      simp [ready.quiet] at mem
    · rw [ready.passed .a]
      exact List.nil_prefix

def World.linked (r : Roster Side) : World Side Args :=
  let address (i : Side) : NetAddr := ⟨r.ip i, r.receivePort i⟩
  let request : Side → Request Args
    | .a => .connect (r.receivePort .a) (r.id .a)
    | .b => .accept (r.id .a) (r.id .b)
  { World.new r with
    wires := fun i =>
      { r.wire i with
        selfId := some (r.id i.other)
        netAddr := some (address i.other)
        connectionState := .connected
        connectionRetry := some 0
        retries := [(SendRetry.new (address i.other) (request i) (r.maxRetries i)).stop] } }

theorem justConnected_linked (r : Roster Side) (wide : ∀ i, 0 < r.bufferSize i) :
    JustConnected (World.linked r : World Side Args) where
  honest := by
    refine ⟨fun i q mem => ?_, fun d mem => by cases mem⟩
    rw [List.mem_singleton.mp mem]
    cases i <;> simp [SendRetry.stop, SendRetry.new, Request.message, NamesItself, World.linked,
      Roster.wire, Wire.new]
  paired := by
    refine ⟨fun same => ?_, fun i a addr => ?_, fun i q mem _ => ?_, fun d mem => by cases mem⟩
    · cases r.addresses same
    · exact (Option.some.inj addr).symm
    · rw [List.mem_singleton.mp mem]
      rfl
  connected _ := rfl
  fresh _ := ⟨rfl, rfl, rfl, rfl⟩
  wide := wide
  retries i q mem id serial args := by
    rw [List.mem_singleton.mp mem]
    cases i <;> simp [SendRetry.stop, SendRetry.new]
  quiet := rfl
  passed _ := rfl
  heard _ := rfl

def duo : Roster Side where
  ip | .a => 1 | .b => 2
  receivePort _ := 7666
  id | .a => 26 | .b => 27
  maxRetries _ := 5
  bufferSize _ := 2
  listening _ := true
  addresses i j same := by cases i <;> cases j <;> simp_all
  ids i j same := by cases i <;> cases j <;> simp_all

/-- Three messages; the first one is lost and sent again by its timer after the others. -/
theorem data_plane_reordered : ∃ w, (World.linked duo).run
    [.call .a (.sendMsg 10), .call .a (.sendMsg 20), .call .a (.sendMsg 30), .lose 0,
      .deliver .b 1, .deliver .b 0, .timer .a 1, .deliver .b 2] = some w ∧
    w.heard .b = [10, 20, 30] := by
  let es : List (Event Side Nat) :=
    [.call .a (.sendMsg 10), .call .a (.sendMsg 20), .call .a (.sendMsg 30), .lose 0,
      .deliver .b 1, .deliver .b 0, .timer .a 1, .deliver .b 2]
  have ends : ((World.linked duo).run es).map (fun w => (w.wires .b).receiveSerial) = some 3 := by
    decide
  obtain ⟨w, ran, serial⟩ := Option.map_eq_some_iff.mp ends
  have traffic : ∀ e ∈ es, Traffic e := by simp [es, Traffic]
  have window : Along World.step (InWindow .b) (World.linked duo) es := by decide
  have ready : JustConnected (World.linked duo : World Side Nat) :=
    justConnected_linked duo fun i => by cases i <;> decide
  have plane := data_plane ready traffic window (by decide) ran
  refine ⟨w, ran, ?_⟩
  rw [plane.heard, serial]
  rfl

end SCLOrkWire
