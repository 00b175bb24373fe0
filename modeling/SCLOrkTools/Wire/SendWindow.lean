import SCLOrkTools.Wire.Channel
import SCLOrkTools.Wire.SendRetry

/- The sending side of a session. Nothing in sendMsg compares sendSerial with sendAckSerial:
   both rings are in order only while the client keeps to a window of its own. -/
namespace SCLOrkWire
open GuardedRun RingBuffer WrapInteger
variable {Args : Type}

/-- The slot of `serial` holds the retry of its message. -/
def Wire.Carries (w : Wire Args) (serial : Nat) : Prop :=
  ∃ ref r id args, w.sendBuffer.wrapAt serial = some ref ∧ w.retries[ref]? = some r ∧
    r.request = .send id serial args

/-- The slot of `serial` holds no retry of a message that is not acknowledged. -/
def Wire.SlotFree (w : Wire Args) (serial : Nat) : Prop :=
  ∀ ref r id n args, w.sendBuffer.wrapAtInt (signed serial) = some ref →
    w.retries[ref]? = some r → r.request = .send id n args → signed n ≤ signed w.sendAckSerial

/-- What is in flight from `x` could arrive at any time, so its serial is judged now. -/
def InReach (x : Side) (w : World Side Args) : Prop :=
  ∀ d ∈ w.inFlight, d.source = x → (w.wires x.other).HasRoom d.packet

def KeepsSlots (x : Side) (w : World Side Args) : Event Side Args → Prop
  | .call i (.sendMsg _) => i = x → (w.wires x).connectionState = .connected →
    (w.wires x).SlotFree (following (w.wires x).sendSerial)
  | _ => True

/-- The event overwrites no retry that is still needed, and after it everything in flight
    is at most bufferSize + 1 ahead of the peer's receiveSerial. -/
def KeepsWindow (x : Side) (w : World Side Args) (e : Event Side Args) : Prop :=
  KeepsSlots x w e ∧ ∀ next, w.step e = some next → InReach x next

/-- sendMsg is called with fewer than bufferSize messages unacknowledged. A peer with the
    smaller buffer must have received all but as many as fit in its own. -/
def Outstanding (x : Side) (w : World Side Args) : Event Side Args → Prop
  | .call i (.sendMsg _) => i = x → (w.wires x).connectionState = .connected →
    signed (w.wires x).sendSerial <
        signed (w.wires x).sendAckSerial + (w.wires x).bufferSize ∧
      ((w.wires x).bufferSize ≤ (w.wires x.other).bufferSize ∨
        signed (w.wires x).sendSerial ≤
          signed (w.wires x.other).receiveSerial + (w.wires x.other).bufferSize)
  | _ => True

/-- The slots of the window that starts at the next ack: up to sendSerial each one holds the
    retry of its message, and the others are empty. -/
structure Wire.Outbox (w : Wire Args) : Prop where
  sized : w.sendBuffer.size = w.bufferSize
  wide : 0 < w.bufferSize
  addressed : w.netAddr ≠ none
  short : w.sendSerial < 2 ^ 31
  acked : w.sendAckSerial ≤ w.sendSerial
  room : w.sendSerial ≤ w.sendAckSerial + w.bufferSize
  held : ∀ serial, w.sendAckSerial < serial → serial ≤ w.sendSerial → w.Carries serial
  empty : ∀ serial, w.sendSerial < serial → serial ≤ w.sendAckSerial + w.bufferSize →
    w.sendBuffer.wrapAt serial = none

theorem retryAfter_request (w : Wire Args) (ref : Nat) (r : SendRetry Args) (s : Stimulus Args) :
    (w.retryAfter ref r s).request = r.request := by
  unfold Wire.retryAfter
  split
  · split
    · exact retryFunction_constants r _
    · rfl
  · split <;> rfl

theorem carries_react (w : Wire Args) (s : Stimulus Args) (serial : Nat)
    (carries : w.Carries serial)
    (kept : (w.react s).wire.sendBuffer.wrapAt serial = w.sendBuffer.wrapAt serial) :
    (w.react s).wire.Carries serial := by
  obtain ⟨ref, r, id, args, slot, found, request⟩ := carries
  refine ⟨ref, w.retryAfter ref r s, id, args, kept.trans slot, react_retryAfter found s, ?_⟩
  rw [retryAfter_request, request]

/-- The window decides whether the next message finds its slot free. -/
theorem slotFree_iff {w : Wire Args} (outbox : w.Outbox) (short : w.sendSerial + 1 < 2 ^ 31) :
    w.SlotFree (following w.sendSerial) ↔ w.sendSerial < w.sendAckSerial + w.bufferSize := by
  have room := outbox.room
  have wide := outbox.wide
  have acked := outbox.acked
  rw [following_early (by omega), Wire.SlotFree, wrapAtInt_signed _ short]
  constructor
  · intro free
    by_contra full
    obtain ⟨ref, r, id, args, slot, found, request⟩ :=
      outbox.held (w.sendAckSerial + 1) (by omega) (by omega)
    have shared : w.sendBuffer.wrapAt (w.sendSerial + 1) = some ref := by
      have apart : w.sendSerial + 1 = w.sendAckSerial + 1 + w.sendBuffer.size := by
        rw [outbox.sized]
        omega
      rw [apart, wrapAt_add_size, slot]
    have old := (signed_le (by omega) (by omega)).mp (free ref r id _ args shared found request)
    omega
  · intro window ref r id n args slot
    rw [outbox.empty (w.sendSerial + 1) (by omega) (by omega)] at slot
    cases slot

theorem outbox_same {w v : Wire Args} (outbox : w.Outbox)
    (carried : ∀ serial, w.Carries serial →
      v.sendBuffer.wrapAt serial = w.sendBuffer.wrapAt serial → v.Carries serial)
    (bufferSize : v.bufferSize = w.bufferSize) (netAddr : v.netAddr = w.netAddr)
    (sendSerial : v.sendSerial = w.sendSerial) (sendAckSerial : v.sendAckSerial = w.sendAckSerial)
    (sendBuffer : v.sendBuffer = w.sendBuffer) : v.Outbox := by
  obtain ⟨sized, wide, addressed, short, acked, room, held, empty⟩ := outbox
  rw [← sendBuffer, ← bufferSize] at sized
  rw [← bufferSize] at wide
  rw [← netAddr] at addressed
  rw [← sendSerial] at short
  rw [← sendSerial, ← sendAckSerial] at acked
  rw [← sendSerial, ← sendAckSerial, ← bufferSize] at room
  refine ⟨sized, wide, addressed, short, acked, room, ?_, ?_⟩
  · intro serial above below
    rw [sendAckSerial] at above
    rw [sendSerial] at below
    exact carried serial (held serial above below) (by rw [sendBuffer])
  · intro serial above below
    rw [sendSerial] at above
    rw [sendAckSerial, bufferSize] at below
    rw [sendBuffer]
    exact empty serial above below

theorem outbox_sendMsg {w : Wire Args} {args : Args} {a : NetAddr} (outbox : w.Outbox)
    (connected : w.connectionState = .connected) (addr : w.netAddr = some a)
    (short : w.sendSerial + 1 < 2 ^ 31)
    (window : w.sendSerial < w.sendAckSerial + w.bufferSize) :
    (w.react (.call (.sendMsg args))).wire.Outbox := by
  have later : following w.sendSerial = w.sendSerial + 1 := following_early (by omega)
  have kept := carries_react w (.call (.sendMsg args))
  have shape : (w.react (.call (.sendMsg args))).wire = { w.pushRetry a
      (.send w.selfId (w.sendSerial + 1) args) with
        sendSerial := w.sendSerial + 1
        sendBuffer := w.sendBuffer.wrapPut (w.sendSerial + 1) (some w.retries.length) } := by
    simp [Wire.react, Wire.call, Wire.sendMsg, connected, addr, later,
      wrapPutInt_signed _ _ short]
  rw [shape] at kept ⊢
  obtain ⟨sized, wide, addressed, -, acked, room, held, empty⟩ := outbox
  have next : w.sendAckSerial + 1 ≤ w.sendSerial + 1 ∧
      w.sendSerial + 1 < w.sendAckSerial + 1 + w.sendBuffer.size := by omega
  have slot (serial : Nat) (above : w.sendAckSerial < serial)
      (below : serial ≤ w.sendAckSerial + w.bufferSize) :=
    wrapAt_wrapPut_window w.sendBuffer (some w.retries.length) next
      (show w.sendAckSerial + 1 ≤ serial ∧ serial < _ by omega)
  refine ⟨(size_wrapPut _ _ _).trans sized, wide, addressed, short, Nat.le_succ_of_le acked,
    window, ?_, ?_⟩
  · intro serial above below
    dsimp only at above below
    by_cases newest : serial = w.sendSerial + 1
    · refine ⟨w.retries.length, SendRetry.new a (.send w.selfId (w.sendSerial + 1) args)
        w.maxRetries, w.selfId, args, ?_, by simp [Wire.pushRetry], by rw [newest]; rfl⟩
      rw [newest]
      exact wrapAt_wrapPut_self _ _ _ (by omega)
    · apply kept serial (held serial above (by omega))
      rw [slot serial above (by omega), if_neg newest]
  · intro serial above below
    dsimp only [Wire.pushRetry] at above below
    rw [slot serial (by omega) below, if_neg (by omega)]
    exact empty serial (by omega) below

theorem outbox_ack {w : Wire Args} {ip : Nat} (outbox : w.Outbox) (listens : w.listening = true)
    (sent : w.sendAckSerial + 1 ≤ w.sendSerial) :
    (w.react (.packet ip (.wireAck (some w.id) (w.sendAckSerial + 1)))).wire.Outbox := by
  have kept := carries_react w (.packet ip (.wireAck (some w.id) (w.sendAckSerial + 1)))
  obtain ⟨sized, wide, addressed, short, acked, room, held, empty⟩ := outbox
  have later : following w.sendAckSerial = w.sendAckSerial + 1 := following_early (by omega)
  have early : w.sendAckSerial + 1 < 2 ^ 31 := by omega
  obtain ⟨ref, r, id, args, first, found, request⟩ := held _ (Nat.lt_succ_self _) sent
  have shape : (w.react (.packet ip (.wireAck (some w.id) (w.sendAckSerial + 1)))).wire =
      { w.stopRetry ref with
        sendAckSerial := w.sendAckSerial + 1
        sendBuffer := w.sendBuffer.wrapPut (w.sendAckSerial + 1) none } := by
    simp [Wire.react, Wire.receive, Wire.ackOSCFunc, listens, later,
      wrapAtInt_signed _ early, wrapPutInt_signed _ _ early, first, Wire.idle]
  rw [shape] at kept ⊢
  have slot (serial : Nat) (above : w.sendAckSerial + 1 < serial)
      (below : serial ≤ w.sendAckSerial + w.bufferSize) :
      (w.sendBuffer.wrapPut (w.sendAckSerial + 1) none).wrapAt serial =
        w.sendBuffer.wrapAt serial := by
    have first_slot : w.sendAckSerial + 1 ≤ w.sendAckSerial + 1 ∧
        w.sendAckSerial + 1 < w.sendAckSerial + 1 + w.sendBuffer.size := by omega
    rw [wrapAt_wrapPut_window w.sendBuffer none first_slot (by omega), if_neg (by omega)]
  refine ⟨(size_wrapPut _ _ _).trans sized, wide, addressed, short, sent, ?_, ?_, ?_⟩
  · change w.sendSerial ≤ w.sendAckSerial + 1 + w.bufferSize
    omega
  · intro serial above below
    dsimp only at above
    change serial ≤ w.sendSerial at below
    exact kept serial (held serial (by omega) below) (slot serial above (by omega))
  · intro serial above below
    dsimp only [Wire.stopRetry] at above below
    -- The position that enters the window shares the slot that was emptied.
    by_cases enters : serial = w.sendAckSerial + 1 + (w.sendBuffer.wrapPut (w.sendAckSerial + 1)
      none).size
    · rw [enters, wrapAt_add_size]
      exact wrapAt_wrapPut_self _ _ _ (by omega)
    · rw [size_wrapPut] at enters
      rw [slot serial (by omega) (by omega)]
      exact empty serial above (by omega)

theorem outbox_react {w : Wire Args} {s : Stimulus Args} (outbox : w.Outbox) (calm : Calm s)
    (window : ∀ args, s = .call (.sendMsg args) → w.connectionState = .connected →
      w.sendSerial + 1 < 2 ^ 31 ∧ w.sendSerial < w.sendAckSerial + w.bufferSize)
    (genuine : (w.react s).wire.sendAckSerial ≤ (w.react s).wire.sendSerial) :
    (w.react s).wire.Outbox := by
  have reacts := react_reacts w s
  have kept := carries_react w s
  generalize reaction : w.react s = r at reacts genuine kept
  have same := outbox_same (v := r.wire) outbox kept
  have later : following w.sendAckSerial = w.sendAckSerial + 1 :=
    following_early (Nat.lt_of_le_of_lt outbox.acked outbox.short)
  cases reacts with
  | knock | connect | disconnect | disconnectNil | connectRequest => exact calm.elim
  | connectAccept | connectConfirm | disconnectPacket | disconnectConfirm => exact calm.elim
  | prDropLine => exact calm.elim
  | sendMsg connected addr =>
    rw [← reaction]
    obtain ⟨short, room⟩ := window _ rfl connected
    exact outbox_sendMsg outbox connected addr short room
  | sendMsgNil connected addr => exact absurd addr outbox.addressed
  | ackBare listens slot =>
    rw [later] at genuine slot
    have early : w.sendAckSerial + 1 < 2 ^ 31 := Nat.lt_of_le_of_lt genuine outbox.short
    obtain ⟨ref, r, id, args, first, -⟩ := outbox.held _ (Nat.lt_succ_self _) genuine
    rw [wrapAtInt_signed _ early, first] at slot
    cases slot
  | ackHeld listens slot =>
    rw [← reaction, later]
    rw [later] at genuine
    exact outbox_ack outbox listens genuine
  | _ =>
    exact same (by simp [Wire.idle, Wire.setRetry]) (by simp [Wire.idle, Wire.setRetry])
      (by simp [Wire.idle, Wire.setRetry]) (by simp [Wire.idle, Wire.setRetry])
      (by simp [Wire.idle, Wire.setRetry])

theorem receiveSerial_grows {w : World Side Args} {x : Side} {s : Stimulus Args}
    (channel : Channel w x) (after : Channel (w.act x.other s) x) :
    signed (w.wires x.other).receiveSerial ≤
      signed ((w.act x.other s).wires x.other).receiveSerial := by
  have count := (channel_delivered channel).count
  have count' := (channel_delivered after).count
  rw [act_heard_self, List.length_append] at count'
  omega

theorem hasRoom_mono {w v : Wire Args} {p : Packet Args}
    (grows : signed w.receiveSerial ≤ signed v.receiveSerial) (same : v.bufferSize = w.bufferSize)
    (room : w.HasRoom p) : v.HasRoom p := by
  cases p with
  | wireSend id serial args =>
    simp only [Wire.HasRoom] at room ⊢
    omega
  | _ => trivial

structure Windowed (x : Side) (w : World Side Args) : Prop where
  honest : Honest w
  paired : Paired w
  settled : Settled w
  channel : Channel w x
  outbox : (w.wires x).Outbox
  reach : ∀ r ∈ (w.wires x).retries, (w.wires x.other).HasRoom r.request.message
  flights : InReach x w

/-- Whatever is delivered fits, since everything in flight does. -/
theorem windowed_inWindow {x : Side} {w : World Side Args} (windowed : Windowed x w)
    (e : Event Side Args) : InWindow x.other w e := by
  unfold InWindow
  split
  · intro d found same dest
    have mem := List.mem_of_getElem? (Option.mem_def.mp found)
    cases knock : d.packet.isKnock with
    | true =>
      cases packet : d.packet with
      | wireKnock => trivial
      | _ => simp [packet, Packet.isKnock] at knock
    | false =>
      have source := source_other windowed.paired mem dest knock
      rw [other_other] at source
      exact windowed.flights d mem source
  · trivial

theorem windowed_sender {x : Side} {w : World Side Args} {s : Stimulus Args}
    (windowed : Windowed x w) (calm : Calm s) (channel : Channel (w.act x s) x)
    (window : ∀ args, s = .call (.sendMsg args) → (w.wires x).connectionState = .connected →
      ((w.wires x).sendSerial + 1 < 2 ^ 31 ∧
        (w.wires x).sendSerial < (w.wires x).sendAckSerial + (w.wires x).bufferSize) ∧
        signed (w.wires x).sendSerial ≤
          signed (w.wires x.other).receiveSerial + (w.wires x.other).bufferSize) :
    ((w.act x s).wires x).Outbox ∧
    (∀ r ∈ ((w.act x s).wires x).retries,
      ((w.act x s).wires x.other).HasRoom r.request.message) ∧ InReach x (w.act x s) := by
  have reacts := react_reacts (w.wires x) s
  have other : (w.act x s).wires x.other = w.wires x.other := act_wires_ne w x s (other_ne x)
  have made {a : NetAddr} {q : Request Args} (makes : Makes (w.wires x) s a q) :
      (w.wires x.other).HasRoom q.message := by
    cases makes with
    | send connected =>
      obtain ⟨⟨short, -⟩, room⟩ := window _ rfl connected
      rw [signed_early (by omega)] at room
      rw [Request.message, Wire.HasRoom, following_early (by omega), signed_early short]
      omega
    | _ => trivial
  refine ⟨?_, ?_, ?_⟩
  · rw [act_wires_self]
    refine outbox_react windowed.outbox calm (fun args call connected =>
      (window args call connected).1) ?_
    have genuine := channel_delivers channel
    rw [act_wires_self] at genuine
    exact Nat.le_trans genuine.2.2.1 genuine.2.2.2
  · intro r mem
    rw [act_wires_self] at mem
    rw [other]
    rcases reacts_retries reacts r mem with ⟨old, there, same, _⟩ | makes
    · rw [same]
      exact windowed.reach old there
    · exact made makes
  · intro d mem source
    rw [other]
    rcases (mem_act_inFlight w x s).mp mem with old | ⟨out, sent, rfl⟩
    · exact windowed.flights d old source
    · rcases reacts_sends reacts out sent with ⟨old, there, _, rfl⟩ | ⟨q, makes, message⟩ | replies
      · exact windowed.reach old there
      · dsimp only
        rw [message]
        exact made makes
      · dsimp only
        generalize out.2 = p at replies
        cases replies <;> trivial

theorem windowed_receiver {x : Side} {w : World Side Args} {s : Stimulus Args}
    (windowed : Windowed x w) (channel : Channel (w.act x.other s) x) :
    ((w.act x.other s).wires x).Outbox ∧
    (∀ r ∈ ((w.act x.other s).wires x).retries,
      ((w.act x.other s).wires x.other).HasRoom r.request.message) ∧
    InReach x (w.act x.other s) := by
  have self : (w.act x.other s).wires x = w.wires x := act_wires_ne w x.other s (ne_other x)
  have grows := receiveSerial_grows windowed.channel channel
  rw [self]
  refine ⟨windowed.outbox, ?_, ?_⟩
  · intro r mem
    exact hasRoom_mono grows (act_bufferSize w x.other s x.other) (windowed.reach r mem)
  · intro d mem source
    rcases (mem_act_inFlight w x.other s).mp mem with old | ⟨out, sent, rfl⟩
    · exact hasRoom_mono grows (act_bufferSize w x.other s x.other) (windowed.flights d old source)
    · exact absurd source (other_ne x)

theorem windowed_thins {x : Side} {v w : World Side Args} (windowed : Windowed x w)
    (thins : Thins v w) : Windowed x v := by
  obtain ⟨honest, paired, settled, channel, outbox, reach, flights⟩ := windowed
  refine ⟨honest_thins honest thins, paired_thins paired thins, ⟨?_, ?_⟩, channel_thins channel
    thins, ?_, ?_, ?_⟩
  · intro i
    rw [thins.wires]
    exact settled.states i
  · intro d mem
    exact settled.flights d (thins.inFlight mem)
  · rw [thins.wires]
    exact outbox
  · rw [thins.wires]
    exact reach
  · intro d mem source
    rw [thins.wires]
    exact flights d (thins.inFlight mem) source

theorem peer_has_room {x : Side} {w : World Side Args} (channel : Channel w x)
    (window : signed (w.wires x).sendSerial <
        signed (w.wires x).sendAckSerial + (w.wires x).bufferSize ∧
      ((w.wires x).bufferSize ≤ (w.wires x.other).bufferSize ∨
        signed (w.wires x).sendSerial ≤
          signed (w.wires x.other).receiveSerial + (w.wires x.other).bufferSize)) :
    signed (w.wires x).sendSerial ≤
      signed (w.wires x.other).receiveSerial + (w.wires x.other).bufferSize := by
  have acked := (channel_delivered channel).acked
  obtain ⟨unacked, narrow | room⟩ := window
  · omega
  · exact room

theorem outstanding_early {x : Side} {w : World Side Args} {args : Args}
    (windowed : Windowed x w) (unwrapped : Unwrapped x w (.call x (.sendMsg args)))
    (connected : (w.wires x).connectionState = .connected) :
    (w.wires x).sendSerial + 1 < 2 ^ 31 ∧
      (signed (w.wires x).sendSerial < signed (w.wires x).sendAckSerial + (w.wires x).bufferSize ↔
        (w.wires x).sendSerial < (w.wires x).sendAckSerial + (w.wires x).bufferSize) := by
  have short := windowed.outbox.short
  have acked := windowed.outbox.acked
  have below := unwrapped rfl connected
  rw [signed_early short] at below
  rw [signed_early short, signed_early (by omega)]
  omega

theorem windowed_step {x : Side} {w next : World Side Args} {e : Event Side Args}
    (windowed : Windowed x w) (traffic : Traffic e) (unwrapped : Unwrapped x w e)
    (outstanding : Outstanding x w e) (step : w.step e = some next) : Windowed x next := by
  have between : Between w e := traffic_between traffic
  have honest := honest_step windowed.honest step
  have paired := paired_step windowed.paired windowed.honest between step
  have settled := settled_step windowed.settled traffic step
  have channel := channel_step windowed.channel windowed.paired between
    (settled_fresh windowed.settled e) (windowed_inWindow windowed e) unwrapped step
  suffices kept : (next.wires x).Outbox ∧ (∀ r ∈ (next.wires x).retries,
      (next.wires x.other).HasRoom r.request.message) ∧ InReach x next from
    ⟨honest, paired, settled, channel, kept.1, kept.2.1, kept.2.2⟩
  rcases step_cases step (between_settled between) with thins | ⟨v, i, s, thins, cause, rfl⟩
  · have same := windowed_thins windowed thins
    exact ⟨same.outbox, same.reach, same.flights⟩
  · have calm := calm_of_cause windowed.settled traffic cause
    have before := windowed_thins windowed thins
    rcases side_cases x i with rfl | rfl
    · apply windowed_sender before calm channel
      rintro args rfl connected
      rw [thins.wires] at connected ⊢
      cases cause
      have window := outstanding rfl connected
      obtain ⟨short, same⟩ := outstanding_early windowed unwrapped connected
      exact ⟨⟨short, same.mp window.1⟩, peer_has_room windowed.channel window⟩
    · exact windowed_receiver before channel

theorem emits {x : Side} {w next : World Side Args} {args : Args} {a : NetAddr}
    (connected : (w.wires x).connectionState = .connected) (addr : (w.wires x).netAddr = some a)
    (step : w.step (.call x (.sendMsg args)) = some next) :
    ∃ d ∈ next.inFlight, d.source = x ∧
      d.packet = .wireSend (w.wires x).selfId (following (w.wires x).sendSerial) args := by
  simp only [World.step, Option.some.injEq] at step
  rw [← step]
  refine ⟨_, (mem_act_inFlight _ x _).mpr (Or.inr ⟨(a, _), ?_, rfl⟩), rfl, rfl⟩
  simp [World.opening, Wire.react, Wire.call, Wire.sendMsg, connected, addr, Request.message]

theorem keepsWindow_iff {x : Side} {w : World Side Args} {e : Event Side Args}
    (windowed : Windowed x w) (traffic : Traffic e) (unwrapped : Unwrapped x w e) :
    KeepsWindow x w e ↔ Outstanding x w e := by
  constructor
  · rintro ⟨slots, reach⟩
    unfold Outstanding
    split
    · rename_i i args
      rintro rfl connected
      obtain ⟨a, addr⟩ := Option.ne_none_iff_exists'.mp windowed.outbox.addressed
      obtain ⟨short, same⟩ := outstanding_early windowed unwrapped connected
      refine ⟨same.mpr ((slotFree_iff windowed.outbox short).mp (slots rfl connected)), Or.inr ?_⟩
      obtain ⟨next, step⟩ : ∃ next, w.step (.call i (.sendMsg args)) = some next := ⟨_, rfl⟩
      obtain ⟨d, mem, source, packet⟩ := emits connected addr step
      have room := reach next step d mem source
      have still : next.wires i.other = w.wires i.other := by
        simp only [World.step, Option.some.injEq] at step
        rw [← step]
        exact act_wires_ne _ i _ (other_ne i)
      rw [packet, still, Wire.HasRoom, following_early (by omega), signed_early short] at room
      rw [signed_early (by omega)]
      omega
    · trivial
  · intro outstanding
    refine ⟨?_, fun next step =>
      (windowed_step windowed traffic unwrapped outstanding step).flights⟩
    unfold KeepsSlots
    split
    · rintro rfl connected
      obtain ⟨short, same⟩ := outstanding_early windowed unwrapped connected
      exact (slotFree_iff windowed.outbox short).mpr (same.mp (outstanding rfl connected).1)
    · trivial

/-- Two wires that have just become connected, as prChangeConnectionState leaves them. -/
structure JustReset (w : World Side Args) : Prop extends JustConnected w where
  addressed : ∀ i, (w.wires i).netAddr ≠ none
  sendBuffer : ∀ i, (w.wires i).sendBuffer = WrapArray.clear (w.wires i).bufferSize

theorem windowed_of_reset {w : World Side Args} (ready : JustReset w) (x : Side) :
    Windowed x w where
  honest := ready.honest
  paired := ready.paired
  settled := ⟨fun i => Or.inl (ready.connected i), fun d mem => by simp [ready.quiet] at mem⟩
  channel := channel_of_fresh ready.fresh ready.wide (ready.retries x) ready.quiet (ready.passed x)
    (ready.heard x.other)
  outbox := by
    have none_sent := (ready.fresh x).sendSerial
    have none_acked := (ready.fresh x).sendAckSerial
    refine ⟨?_, ready.wide x, ready.addressed x, by omega, by omega, by omega, by omega, ?_⟩
    · rw [ready.sendBuffer, size_clear]
    · intro serial _ _
      rw [ready.sendBuffer, wrapAt_clear]
  reach r mem := by
    cases request : r.request with
    | send id serial args => exact absurd request (ready.retries x r mem id serial args)
    | _ => trivial
  flights d mem := by simp [ready.quiet] at mem

/-- Over every run of sendMsg calls, timers, deliveries, losses and duplications in which no
    serial wraps round. -/
theorem send_window_iff {start : World Side Args} (ready : JustReset start) (x : Side)
    {es : List (Event Side Args)} (traffic : ∀ e ∈ es, Traffic e)
    (unwrapped : Along World.step (Unwrapped x) start es) :
    Along World.step (KeepsWindow x) start es ↔ Along World.step (Outstanding x) start es :=
  along_iff_along (g := fun w e => Traffic e ∧ Unwrapped x w e) (Windowed x)
    (fun _ _ windowed both => keepsWindow_iff windowed both.1 both.2)
    (fun _ _ _ windowed both outstanding step =>
      windowed_step windowed both.1 both.2 outstanding step)
    (windowed_of_reset ready x) (along_and (along_of_all traffic) unwrapped)

theorem justReset_linked (r : Roster Side) (wide : ∀ i, 0 < r.bufferSize i) :
    JustReset (World.linked r : World Side Args) where
  toJustConnected := justConnected_linked r wide
  addressed _ := nofun
  sendBuffer _ := rfl

/-- Three messages on rings of two slots, one of them acknowledged before the last. -/
theorem send_window_pair :
    Along World.step (KeepsWindow .a) (World.linked duo : World Side Nat)
        [.call .a (.sendMsg 10), .call .a (.sendMsg 20), .deliver .b 0, .deliver .a 1,
          .call .a (.sendMsg 30)] ↔
      Along World.step (Outstanding .a) (World.linked duo : World Side Nat)
        [.call .a (.sendMsg 10), .call .a (.sendMsg 20), .deliver .b 0, .deliver .a 1,
          .call .a (.sendMsg 30)] :=
  send_window_iff (justReset_linked duo fun i => by cases i <;> decide) .a (by simp [Traffic])
    (by decide)

/-- Nothing arrives: the third message takes the slot of the first, and the fourth is four
    ahead of a peer whose ring has two slots. -/
theorem send_window_overrun :
    ¬ Along World.step (KeepsSlots .a) (World.linked duo : World Side Nat)
        [.call .a (.sendMsg 10), .call .a (.sendMsg 20), .call .a (.sendMsg 30)] ∧
    ∃ w, (World.linked duo : World Side Nat).run [.call .a (.sendMsg 10), .call .a (.sendMsg 20),
        .call .a (.sendMsg 30), .call .a (.sendMsg 40)] = some w ∧ ¬ InReach .a w := by
  constructor
  · intro keeps
    have free := (keeps.2 _ rfl).2 _ rfl
    have acked := free.1 rfl rfl 1 _ (some 27) 1 10 rfl rfl rfl
    revert acked
    decide
  · refine ⟨_, rfl, ?_⟩
    intro reach
    have room := reach ⟨.a, ⟨2, 7666⟩, .wireSend (some 27) 4 40, none⟩
      (List.mem_of_getElem? (i := 3) rfl) rfl
    revert room
    decide

end SCLOrkWire
