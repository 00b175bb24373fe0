import SCLOrkTools.Wire.Lossless

/- Serials wrap round after the largest Integer. A run of two wires in which every message is
   delivered and acknowledged at once leads up to it; the message that follows is taken for a
   duplicate, and the retry of the one before it goes on until it fails. -/
namespace SCLOrkWire
open GuardedRun RingBuffer WrapInteger

section Reaction
variable {w : Wire Nat} {a : NetAddr} {id me serial : Nat}

theorem sendMsg_reaction (connected : w.connectionState = .connected) (addr : w.netAddr = some a)
    (self : w.selfId = some id) (early : w.sendSerial < 2 ^ 31) (args : Nat) :
    w.react (.call (.sendMsg args)) =
      ⟨{ w with
          retries := w.retries ++
            [SendRetry.new a (.send (some id) (w.sendSerial + 1) args) w.maxRetries]
          sendSerial := w.sendSerial + 1
          sendBuffer := w.sendBuffer.wrapPutInt (signed (w.sendSerial + 1))
            (some w.retries.length) },
        [(a, .wireSend (some id) (w.sendSerial + 1) args)], []⟩ := by
  simp [Wire.react, Wire.call, Wire.sendMsg, connected, addr, self, following_early early,
    Wire.pushRetry, Request.message]

theorem waiting_empty {b : Inbox Nat} (empty : b.receiveBuffer.isEmpty = true) :
    b.waiting = none := by
  cases waits : b.waiting with
  | none => rfl
  | some args => exact (every_empty (P := fun _ => False) empty _ args waits).elim

theorem drain_empty {b : Inbox Nat} (empty : b.receiveBuffer.isEmpty = true) (fuel : Nat) :
    b.drain fuel = b := by
  cases fuel with
  | zero => rfl
  | succ fuel => simp [Inbox.drain, waiting_empty empty]

theorem next_reaction (listens : w.listening = true) (own : w.id = me) (addr : w.netAddr = some a)
    (self : w.selfId = some id) (empty : w.receiveBuffer.isEmpty = true)
    (early : w.receiveSerial + 1 < 2 ^ 31) (ip args : Nat) :
    w.react (.packet ip (.wireSend (some me) (w.receiveSerial + 1) args)) =
      ⟨{ w with receiveSerial := w.receiveSerial + 1 },
        [(a, .wireAck (some id) (w.receiveSerial + 1))], [args]⟩ := by
  have next := following_early (n := w.receiveSerial) (by omega)
  have later : ¬ signed (w.receiveSerial + 1) ≤ signed w.receiveSerial := by
    rw [signed_le early (by omega)]
    omega
  have whole : w.accepting (w.receiveSerial + 1) args =
      ⟨w.receiveSerial + 1, w.receiveBuffer, [args]⟩ := drain_empty empty _
  simp [Wire.react, Wire.receive, listens, Wire.sendOSCFunc, own, later, next, whole, Wire.sendTo,
    addr, self]

theorem old_reaction (listens : w.listening = true) (own : w.id = me) (addr : w.netAddr = some a)
    (self : w.selfId = some id) (old : signed serial ≤ signed w.receiveSerial) (ip args : Nat) :
    w.react (.packet ip (.wireSend (some me) serial args)) =
      ⟨w, [(a, .wireAck (some id) serial)], []⟩ := by
  simp [Wire.react, Wire.receive, listens, Wire.sendOSCFunc, own, old, Wire.sendTo, addr, self]

theorem late_reaction (late : serial ≠ following w.sendAckSerial) (ip : Nat) :
    w.react (.packet ip (.wireAck (some me) serial)) = w.idle := by
  simp [Wire.react, Wire.receive, Wire.ackOSCFunc, late]

theorem next_ack_reaction (listens : w.listening = true) (own : w.id = me)
    (next : serial = following w.sendAckSerial) (ip : Nat) : ∃ buffer retries,
      w.react (.packet ip (.wireAck (some me) serial)) =
        ⟨{ w with sendAckSerial := serial, sendBuffer := buffer, retries := retries }, [], []⟩ ∧
      retries.map SendRetry.stop = w.retries.map SendRetry.stop := by
  cases held : w.sendBuffer.wrapAtInt (signed serial) with
  | none =>
    refine ⟨w.sendBuffer, w.retries, ?_, rfl⟩
    simp [Wire.react, Wire.receive, listens, Wire.ackOSCFunc, own, ← next, held, Wire.idle]
  | some ref =>
    refine ⟨w.sendBuffer.wrapPutInt (signed serial) none, w.retries.modify ref SendRetry.stop,
      ?_, ?_⟩
    · simp [Wire.react, Wire.receive, listens, Wire.ackOSCFunc, own, ← next, held, Wire.idle,
        Wire.stopRetry]
    · apply List.ext_getElem?
      intro k
      rw [List.getElem?_map, List.getElem?_map, List.getElem?_modify]
      split <;> (cases w.retries[k]? <;> rfl)

section Timer
variable {past rest : List (SendRetry Nat)} {q : SendRetry Nat}

theorem retry_at (retries : w.retries.map SendRetry.stop = past ++ q :: rest) :
    ∃ r, w.retries[past.length]? = some r ∧ r.stop = q ∧
      ∀ r' : SendRetry Nat, (w.retries.set past.length r').map SendRetry.stop =
        past ++ r'.stop :: rest := by
  have found := congrArg (·[past.length]?) retries
  simp only [List.getElem?_map, List.getElem?_append_right (Nat.le_refl _), Nat.sub_self,
    List.getElem?_cons_zero, Option.map_eq_some_iff] at found
  obtain ⟨r, here, stopped⟩ := found
  refine ⟨r, here, stopped, fun r' => ?_⟩
  rw [List.map_set, retries, List.set_append_right _ _ (Nat.le_refl _), Nat.sub_self,
    List.set_cons_zero]

theorem spent_reaction (retries : w.retries.map SendRetry.stop = past ++ q :: rest)
    (scheduled : q.scheduled = true) (left : q.retries < q.maxRetries)
    (done : w.keepGoing q.request = false) : ∃ retries,
      w.react (.timer past.length) = ⟨{ w with retries := retries }, [], []⟩ ∧
      retries.map SendRetry.stop = past ++ { q.stop with scheduled := false } :: rest := by
  obtain ⟨r, here, rfl, set⟩ := retry_at retries
  refine ⟨_, ?_, set { r with nextTime := false, scheduled := false }⟩
  simp_all [Wire.react, Wire.retryFunction, SendRetry.stop, Wire.idle, Wire.setRetry]

theorem again_reaction (retries : w.retries.map SendRetry.stop = past ++ q :: rest)
    (scheduled : q.scheduled = true) (left : q.retries < q.maxRetries)
    (going : w.keepGoing q.request = true) : ∃ retries,
      w.react (.timer past.length) =
        ⟨{ w with retries := retries }, [(q.netAddr, q.request.message)], []⟩ ∧
      retries.map SendRetry.stop = past ++ { q.stop with retries := q.retries + 1 } :: rest := by
  obtain ⟨r, here, rfl, set⟩ := retry_at retries
  refine ⟨_, ?_, set { r with retries := r.retries + 1, nextTime := true }⟩
  simp_all [Wire.react, Wire.retryFunction, SendRetry.stop, Wire.setRetry]

theorem failed_reaction (retries : w.retries.map SendRetry.stop = past ++ q :: rest)
    (scheduled : q.scheduled = true) (used : q.retries = q.maxRetries) :
    (w.react (.timer past.length)).wire.connectionState = .failureTimeout := by
  obtain ⟨r, here, rfl, -⟩ := retry_at retries
  simp_all [Wire.react, Wire.retryFunction, SendRetry.stop, Wire.idle, Wire.setRetry]

theorem first_in_turn (retries : w.retries.map SendRetry.stop = past ++ q :: rest)
    (spent : ∀ r ∈ past, r.scheduled = false) : w.InTurn past.length := by
  intro r _ k before older there scheduled
  have stopped := congrArg (·[k]?) retries
  rw [List.getElem?_map, Option.mem_def.mp there, List.getElem?_append_left before] at stopped
  have unscheduled := spent _ (List.mem_of_getElem? stopped.symm)
  simp [SendRetry.stop, scheduled] at unscheduled

end Timer

end Reaction

def Roster.address (r : Roster Side) (i : Side) : NetAddr := ⟨r.ip i, r.receivePort i⟩

/-- Both wires are connected to each other, and no message waits in a ring. -/
structure Steady (r : Roster Side) (w : World Side Nat) : Prop where
  connected : ∀ i, (w.wires i).connectionState = .connected
  listening : ∀ i, (w.wires i).listening = true
  ids : ∀ i, (w.wires i).id = r.id i
  addresses : ∀ i, w.address i = r.address i
  maxRetries : ∀ i, (w.wires i).maxRetries = r.maxRetries i
  netAddr : ∀ i, (w.wires i).netAddr = some (r.address i.other)
  selfId : ∀ i, (w.wires i).selfId = some (r.id i.other)
  rings : ∀ i, (w.wires i).receiveBuffer.isEmpty = true

structure Untouched (v w : Wire Nat) : Prop where
  link : SameLink v w
  listening : v.listening = w.listening
  ring : v.receiveBuffer = w.receiveBuffer

def Alone (r : Roster Side) (w : World Side Nat) (x : Side) (p : Packet Nat) : Prop :=
  ∃ session, w.inFlight = [⟨x, r.address x.other, p, session⟩]

/-- Wire `b` has sent nothing. `past` are the retries of wire `a`, but for the variable that
    stop clears. -/
structure Lull (r : Roster Side) (w : World Side Nat) (sent acked got : Nat)
    (past : List (SendRetry Nat)) : Prop where
  steady : Steady r w
  sendSerial : (w.wires .a).sendSerial = sent
  sendAckSerial : (w.wires .a).sendAckSerial = acked
  receiveSerial : (w.wires .b).receiveSerial = got
  silent : (w.wires .b).sendSerial = (w.wires .b).sendAckSerial
  retries : (w.wires .a).retries.map SendRetry.stop = past
  heard : w.heard .b = List.range got

section Step
variable {r : Roster Side} {w v : World Side Nat} {sent acked got serial args : Nat}
  {past rest : List (SendRetry Nat)} {q : SendRetry Nat}

theorem steady_act {i : Side} {s : Stimulus Nat} (steady : Steady r w) (thins : Thins v w)
    (untouched : Untouched ((w.wires i).react s).wire (w.wires i)) : Steady r (v.act i s) := by
  have self : (v.act i s).wires i = ((w.wires i).react s).wire := by
    rw [act_wires_self, thins.wires]
  have other {j : Side} (there : j ≠ i) : (v.act i s).wires j = w.wires j := by
    rw [act_wires_ne _ _ _ there, thins.wires]
  have same (j : Side) : Untouched ((v.act i s).wires j) (w.wires j) := by
    by_cases here : j = i
    · subst here
      rw [self]
      exact untouched
    · rw [other here]
      exact ⟨⟨rfl, rfl, rfl, rfl⟩, rfl, rfl⟩
  refine ⟨fun j => ?_, fun j => ?_, fun j => ?_, fun j => ?_, fun j => ?_, fun j => ?_, fun j => ?_,
    fun j => ?_⟩
  · rw [(same j).link.connectionState]; exact steady.connected j
  · rw [(same j).listening]; exact steady.listening j
  · rw [act_id, thins.wires]; exact steady.ids j
  · rw [act_address, thins_address thins]; exact steady.addresses j
  · rw [act_maxRetries, thins.wires]; exact steady.maxRetries j
  · rw [(same j).link.netAddr]; exact steady.netAddr j
  · rw [(same j).link.selfId]; exact steady.selfId j
  · rw [(same j).ring]; exact steady.rings j

section Act
variable {s : Stimulus Nat} {wire : Wire Nat} {sends : List (NetAddr × Packet Nat)}
  {received : List Nat} {acked' got' : Nat} {past' : List (SendRetry Nat)}

theorem lull_act_a (lull : Lull r w sent acked got past) (thins : Thins v w)
    (reaction : (w.wires .a).react s = ⟨wire, sends, received⟩)
    (untouched : Untouched wire (w.wires .a)) (sends' : wire.sendSerial = serial)
    (acks' : wire.sendAckSerial = acked') (retries' : wire.retries.map SendRetry.stop = past') :
    Lull r (v.act .a s) serial acked' got past' := by
  have self := act_wires_self v .a s
  rw [thins.wires, reaction] at self
  have other : (v.act .a s).wires .b = w.wires .b := by
    rw [act_wires_ne _ _ _ (by decide), thins.wires]
  refine ⟨?_, ?_, ?_, ?_, ?_, ?_, ?_⟩
  · apply steady_act lull.steady thins
    rw [reaction]
    exact untouched
  · rw [self]; exact sends'
  · rw [self]; exact acks'
  · rw [other]; exact lull.receiveSerial
  · rw [other]; exact lull.silent
  · rw [self]; exact retries'
  · rw [act_heard_ne _ _ _ (by decide), thins.heard]; exact lull.heard

theorem lull_act_b (lull : Lull r w sent acked got past) (thins : Thins v w)
    (reaction : (w.wires .b).react s = ⟨wire, sends, received⟩)
    (untouched : Untouched wire (w.wires .b)) (receives' : wire.receiveSerial = got')
    (silent' : wire.sendSerial = wire.sendAckSerial)
    (heard' : List.range got ++ received = List.range got') :
    Lull r (v.act .b s) sent acked got' past := by
  have self := act_wires_self v .b s
  rw [thins.wires, reaction] at self
  have other : (v.act .b s).wires .a = w.wires .a := by
    rw [act_wires_ne _ _ _ (by decide), thins.wires]
  refine ⟨?_, ?_, ?_, ?_, ?_, ?_, ?_⟩
  · apply steady_act lull.steady thins
    rw [reaction]
    exact untouched
  · rw [other]; exact lull.sendSerial
  · rw [other]; exact lull.sendAckSerial
  · rw [self]; exact receives'
  · rw [self]; exact silent'
  · rw [other]; exact lull.retries
  · rw [act_heard_self, thins.wires, reaction, thins.heard, lull.heard]; exact heard'

theorem quiet_act {i : Side} (thins : Thins v w) (gone : v.inFlight = [])
    (reaction : (w.wires i).react s = ⟨wire, [], received⟩) : (v.act i s).inFlight = [] := by
  simp [World.act, thins.wires, gone, reaction]

theorem alone_act {i : Side} {p : Packet Nat} (thins : Thins v w) (gone : v.inFlight = [])
    (reaction : (w.wires i).react s = ⟨wire, [(r.address i.other, p)], received⟩) :
    Alone r (v.act i s) i p :=
  ⟨v.session i, by simp [World.act, thins.wires, gone, reaction]⟩

theorem step_alone {x i : Side} {p : Packet Nat} (steady : Steady r w) (alone : Alone r w x p)
    (carries : p.carries = true) (other : x.other = i) : (w.drop 0).inFlight = [] ∧
      w.step (.deliver i 0) = some ((w.drop 0).act i (.packet (w.ip x) p)) := by
  obtain ⟨session, flight⟩ := alone
  refine ⟨by simp [World.drop, flight], ?_⟩
  have stays (d : Datagram Side Nat) (same : d.packet = p) :
      (w.drop 0).joining i d = w.drop 0 := by
    rw [← same] at carries
    unfold World.joining
    split
    · split
      · rename_i packet
        rw [packet] at carries
        cases carries
      · rename_i packet
        rw [packet] at carries
        cases carries
      · rfl
    · rfl
  simp [World.step, flight, other, steady.addresses, stays]

end Act

def retryOf (r : Roster Side) (serial args retries : Nat) : SendRetry Nat :=
  ⟨r.address .b, .send (some (r.id .b)) serial args, r.maxRetries .a, retries, false, true⟩

def dataOf (r : Roster Side) (serial args : Nat) : Packet Nat :=
  .wireSend (some (r.id .b)) serial args

def ackOf (r : Roster Side) (serial : Nat) : Packet Nat := .wireAck (some (r.id .a)) serial

theorem lull_send (lull : Lull r w sent acked got past) (quiet : w.inFlight = [])
    (early : sent < 2 ^ 31) (args : Nat) : ∃ v, w.step (.call .a (.sendMsg args)) = some v ∧
      Lull r v (sent + 1) acked got (past ++ [retryOf r (sent + 1) args 0]) ∧
      Alone r v .a (dataOf r (sent + 1) args) := by
  obtain ⟨connected, -, -, -, maxRetries, netAddr, selfId, -⟩ := lull.steady
  have reaction := sendMsg_reaction (connected .a) (netAddr .a) (selfId .a)
    (lull.sendSerial ▸ early) args
  rw [lull.sendSerial] at reaction
  refine ⟨w.act .a (.call (.sendMsg args)), rfl,
    lull_act_a lull (thins_refl w) reaction ⟨⟨rfl, rfl, rfl, rfl⟩, rfl, rfl⟩ rfl
      lull.sendAckSerial ?_, alone_act (thins_refl w) quiet reaction⟩
  rw [List.map_append, lull.retries, maxRetries]
  rfl

theorem lull_next (lull : Lull r w sent acked got past)
    (alone : Alone r w .a (dataOf r (got + 1) got)) (early : got + 1 < 2 ^ 31) :
    ∃ v, w.step (.deliver .b 0) = some v ∧ Lull r v sent acked (got + 1) past ∧
      Alone r v .b (ackOf r (got + 1)) := by
  obtain ⟨-, listening, ids, -, -, netAddr, selfId, rings⟩ := lull.steady
  obtain ⟨gone, step⟩ := step_alone lull.steady alone rfl rfl
  have reaction := next_reaction (listening .b) (ids .b) (netAddr .b) (selfId .b) (rings .b)
    (lull.receiveSerial ▸ early) (w.ip .a) got
  rw [lull.receiveSerial] at reaction
  have thins := thins_drop w 0
  exact ⟨_, step, lull_act_b lull thins reaction ⟨⟨rfl, rfl, rfl, rfl⟩, rfl, rfl⟩ rfl lull.silent
    List.range_succ.symm, alone_act thins gone reaction⟩

theorem lull_old (lull : Lull r w sent acked got past)
    (alone : Alone r w .a (dataOf r serial args)) (old : signed serial ≤ signed got) :
    ∃ v, w.step (.deliver .b 0) = some v ∧ Lull r v sent acked got past ∧
      Alone r v .b (ackOf r serial) := by
  obtain ⟨-, listening, ids, -, -, netAddr, selfId, -⟩ := lull.steady
  obtain ⟨gone, step⟩ := step_alone lull.steady alone rfl rfl
  have reaction := old_reaction (listening .b) (ids .b) (netAddr .b) (selfId .b)
    (lull.receiveSerial ▸ old) (w.ip .a) args
  have thins := thins_drop w 0
  exact ⟨_, step, lull_act_b lull thins reaction ⟨⟨rfl, rfl, rfl, rfl⟩, rfl, rfl⟩
    lull.receiveSerial lull.silent (List.append_nil _), alone_act thins gone reaction⟩

theorem lull_ack (lull : Lull r w sent acked got past) (alone : Alone r w .b (ackOf r (acked + 1)))
    (early : acked < 2 ^ 31) : ∃ v, w.step (.deliver .a 0) = some v ∧
      Lull r v sent (acked + 1) got past ∧ v.inFlight = [] := by
  obtain ⟨gone, step⟩ := step_alone lull.steady alone rfl rfl
  have next : acked + 1 = following (w.wires .a).sendAckSerial := by
    rw [lull.sendAckSerial, following_early early]
  obtain ⟨buffer, retries, reaction, kept⟩ := next_ack_reaction (lull.steady.listening .a)
    (lull.steady.ids .a) next (w.ip .b)
  have thins := thins_drop w 0
  exact ⟨_, step, lull_act_a lull thins reaction ⟨⟨rfl, rfl, rfl, rfl⟩, rfl, rfl⟩ lull.sendSerial
    rfl (kept.trans lull.retries), quiet_act thins gone reaction⟩

theorem lull_late (lull : Lull r w sent acked got past) (alone : Alone r w .b (ackOf r serial))
    (late : serial ≠ following acked) : ∃ v, w.step (.deliver .a 0) = some v ∧
      Lull r v sent acked got past ∧ v.inFlight = [] := by
  obtain ⟨gone, step⟩ := step_alone lull.steady alone rfl rfl
  have reaction : (w.wires .a).react (.packet (w.ip .b) (.wireAck (some (r.id .a)) serial)) =
      (w.wires .a).idle := late_reaction (lull.sendAckSerial ▸ late) (w.ip .b)
  have thins := thins_drop w 0
  exact ⟨_, step, lull_act_a lull thins reaction ⟨⟨rfl, rfl, rfl, rfl⟩, rfl, rfl⟩ lull.sendSerial
    lull.sendAckSerial lull.retries, quiet_act thins gone reaction⟩

theorem lull_spent {n : Nat}
    (lull : Lull r w sent acked got (past ++ retryOf r serial args n :: rest))
    (quiet : w.inFlight = []) (left : n < r.maxRetries .a)
    (done : ¬ signed acked < signed serial) : ∃ v, w.step (.timer .a past.length) = some v ∧
      Lull r v sent acked got
        (past ++ { retryOf r serial args n with scheduled := false } :: rest) ∧
      v.inFlight = [] := by
  obtain ⟨retries, reaction, kept⟩ := spent_reaction lull.retries rfl left
    (by simpa [Wire.keepGoing, retryOf, lull.sendAckSerial] using done)
  exact ⟨_, rfl, lull_act_a lull (thins_refl w) reaction ⟨⟨rfl, rfl, rfl, rfl⟩, rfl, rfl⟩
    lull.sendSerial lull.sendAckSerial kept, quiet_act (thins_refl w) quiet reaction⟩

theorem lull_again {n : Nat}
    (lull : Lull r w sent acked got (past ++ retryOf r serial args n :: rest))
    (quiet : w.inFlight = []) (left : n < r.maxRetries .a)
    (going : signed acked < signed serial) : ∃ v, w.step (.timer .a past.length) = some v ∧
      Lull r v sent acked got (past ++ retryOf r serial args (n + 1) :: rest) ∧
      Alone r v .a (dataOf r serial args) := by
  obtain ⟨retries, reaction, kept⟩ := again_reaction lull.retries rfl left
    (by simpa [Wire.keepGoing, retryOf, lull.sendAckSerial] using going)
  exact ⟨_, rfl, lull_act_a lull (thins_refl w) reaction ⟨⟨rfl, rfl, rfl, rfl⟩, rfl, rfl⟩
    lull.sendSerial lull.sendAckSerial kept, alone_act (thins_refl w) quiet reaction⟩

/-- What the steps below find: nothing lost or in haste, and all data within the window. -/
def Tame (w : World Side Nat) (e : Event Side Nat) : Prop :=
  Undisturbed w e ∧ InOrder w e ∧ InWindow .b w e

theorem tame_data (alone : Alone r w .a (dataOf r serial args)) (receives :
    (w.wires .b).receiveSerial = got) (room : signed serial ≤ signed got + 1) :
    Tame w (.deliver .b 0) := by
  refine ⟨trivial, trivial, ?_⟩
  obtain ⟨session, flight⟩ := alone
  intro d found _ _
  rw [flight, List.getElem?_cons_zero, Option.mem_some_iff] at found
  rw [← found]
  simp only [Wire.HasRoom, dataOf, receives]
  omega

theorem tame_ack : Tame w (.deliver .a 0) := by
  refine ⟨trivial, trivial, ?_⟩
  intro _ _ other
  cases other

theorem tame_timer (quiet : w.inFlight = []) (turn : (w.wires .a).InTurn n) :
    Tame w (.timer .a n) := ⟨quiet, turn, trivial⟩

def exchange (n : Nat) : List (Event Side Nat) :=
  [.call .a (.sendMsg n), .deliver .b 0, .deliver .a 0]

theorem exchange_arrives {n : Nat} (lull : Lull r w n n n past) (quiet : w.inFlight = [])
    (early : n + 1 < 2 ^ 31) : ∃ v, Leads World.step Tame w (exchange n) v ∧
      Lull r v (n + 1) (n + 1) (n + 1) (past ++ [retryOf r (n + 1) n 0]) ∧ v.inFlight = [] := by
  obtain ⟨one, call, lull, alone⟩ := lull_send lull quiet (by omega) n
  obtain ⟨two, data, after, answer⟩ := lull_next lull alone early
  obtain ⟨three, ack, last, quiet⟩ := lull_ack after answer (by omega)
  have room : signed (n + 1) ≤ signed n + 1 := by
    rw [signed_early early, signed_early (by omega)]
    rfl
  exact ⟨three, leads_cons call ⟨trivial, trivial, trivial⟩
    (leads_cons data (tame_data alone lull.receiveSerial room)
      (leads_cons ack tame_ack (leads_nil three))), last, quiet⟩

/-- The serial after the largest one is the smallest: the message is taken for a duplicate. -/
theorem exchange_wraps {n : Nat} (lull : Lull r w n n n past) (quiet : w.inFlight = [])
    (largest : n + 1 = 2 ^ 31) : ∃ v, Leads World.step Tame w (exchange n) v ∧
      Lull r v (n + 1) (n + 1) n (past ++ [retryOf r (n + 1) n 0]) ∧ v.inFlight = [] := by
  have wrapped : signed (n + 1) ≤ signed n := by
    unfold signed
    split <;> split <;> omega
  obtain ⟨one, call, lull, alone⟩ := lull_send lull quiet (by omega) n
  obtain ⟨two, data, after, answer⟩ := lull_old lull alone wrapped
  obtain ⟨three, ack, last, quiet⟩ := lull_ack after answer (by omega)
  exact ⟨three, leads_cons call ⟨trivial, trivial, trivial⟩
    (leads_cons data (tame_data alone lull.receiveSerial (by omega))
      (leads_cons ack tame_ack (leads_nil three))), last, quiet⟩

/-- `n` messages have been sent and acknowledged, and no retry is scheduled any more. -/
structure Even (r : Roster Side) (w : World Side Nat) (n : Nat) (past : List (SendRetry Nat)) :
    Prop where
  lull : Lull r w n n n past
  quiet : w.inFlight = []
  count : past.length = n + 1
  spent : ∀ q ∈ past, q.scheduled = false

def rounds : Nat → List (Event Side Nat)
  | 0 => []
  | n + 1 => rounds n ++ (exchange n ++ [.timer .a (n + 1)])

theorem even_round {n : Nat} (even : Even r w n past) (enough : 0 < r.maxRetries .a)
    (early : n + 1 < 2 ^ 31) : ∃ v past',
      Leads World.step Tame w (exchange n ++ [.timer .a (n + 1)]) v ∧ Even r v (n + 1) past' := by
  obtain ⟨lull, quiet, count, spent⟩ := even
  obtain ⟨u, exchanged, lull, quiet⟩ := exchange_arrives lull quiet early
  obtain ⟨v, timer, last, still⟩ := lull_spent lull quiet enough (by omega)
  rw [count] at timer
  have turn := first_in_turn lull.retries spent
  rw [count] at turn
  refine ⟨v, _, leads_append exchanged (leads_cons timer (tame_timer quiet turn) (leads_nil v)),
    last, still, by simp [count], ?_⟩
  intro q mem
  rcases List.mem_append.mp mem with old | new
  · exact spent q old
  · rw [List.mem_singleton.mp new]

theorem even_rounds (even : Even r w 0 past) (enough : 0 < r.maxRetries .a) (n : Nat)
    (early : n < 2 ^ 31) : ∃ v past', Leads World.step Tame w (rounds n) v ∧ Even r v n past' := by
  induction n with
  | zero => exact ⟨w, past, leads_nil w, even⟩
  | succ n ih =>
    obtain ⟨u, before, front, even⟩ := ih (by omega)
    obtain ⟨v, after, back, last⟩ := even_round even enough early
    exact ⟨v, after, leads_append front back, last⟩

theorem sendCalls_rounds (n : Nat) : sendCalls .a (rounds n) = List.range n := by
  induction n with
  | zero => rfl
  | succ n ih =>
    rw [rounds, List.range_succ, ← ih]
    simp [sendCalls, exchange]

theorem traffic_rounds (n : Nat) : ∀ e ∈ rounds n, Traffic e := by
  induction n with
  | zero =>
    intro e mem
    cases mem
  | succ n ih =>
    intro e mem
    rcases List.mem_append.mp mem with old | new
    · exact ih e old
    · simp only [exchange, List.cons_append, List.nil_append, List.mem_cons, List.not_mem_nil,
        or_false] at new
      rcases new with rfl | rfl | rfl | rfl <;> trivial

theorem lull_idle {n : Nat} (lull : Lull r w n n got past) (i : Side) :
    (w.wires i).isIdle = true := by
  have acks : (w.wires i).sendSerial = (w.wires i).sendAckSerial := by
    cases i with
    | a => rw [lull.sendSerial, lull.sendAckSerial]
    | b => exact lull.silent
  simp [Wire.isIdle, lull.steady.connected, lull.steady.rings, acks]

end Step

theorem even_linked : ∃ v past, Leads World.step Tame (World.linked duo) [.timer .a 0] v ∧
    Even duo v 0 past := by
  refine ⟨_, _, leads_cons rfl (tame_timer rfl (by decide)) (leads_nil _),
    ⟨⟨?_, ?_, ?_, ?_, ?_, ?_, ?_, ?_⟩, rfl, rfl, rfl, rfl, rfl, rfl⟩, rfl, rfl, by decide⟩ <;>
    (intro i; cases i <;> rfl)

def overlong (n : Nat) : List (Event Side Nat) := [.timer .a 0] ++ (rounds n ++ exchange n)

theorem sendCalls_overlong (n : Nat) : sendCalls .a (overlong n) = List.range (n + 1) := by
  rw [List.range_succ, ← sendCalls_rounds]
  simp [overlong, sendCalls, exchange]

theorem traffic_overlong (n : Nat) : ∀ e ∈ overlong n, Traffic e := by
  intro e mem
  rcases List.mem_append.mp mem with first | mem
  · rw [List.mem_singleton.mp first]
    trivial
  · rcases List.mem_append.mp mem with old | new
    · exact traffic_rounds n e old
    · simp only [exchange, List.mem_cons, List.not_mem_nil, or_false] at new
      rcases new with rfl | rfl | rfl <;> trivial

/-- Both wires are idle, and the last message has not been handed over. -/
theorem overlong_loses {n : Nat} (largest : n + 1 = 2 ^ 31) :
    ∃ w, Leads World.step Tame (World.linked duo) (overlong n) w ∧
      ¬ Delivery (overlong n) w := by
  obtain ⟨start, past, first, even⟩ := even_linked
  obtain ⟨full, past, middle, even⟩ := even_rounds even (by decide) n (by omega)
  obtain ⟨w, last, lull, -⟩ := exchange_wraps even.lull even.quiet largest
  refine ⟨w, leads_append first (leads_append middle last), fun delivery => ?_⟩
  have whole := congrArg List.length (delivery.idle (lull_idle lull .a) (lull_idle lull .b))
  rw [sendCalls_overlong, lull.heard, List.length_range, List.length_range] at whole
  omega

/-- The message whose serial wraps round is acknowledged and never delivered. -/
theorem wrapped_message_lost : JustConnected (World.linked duo : World Side Nat) ∧
    (∀ e ∈ overlong (2 ^ 31 - 1), Traffic e) ∧
    Along World.step (InWindow .b) (World.linked duo) (overlong (2 ^ 31 - 1)) ∧
    ∃ w, (World.linked duo).run (overlong (2 ^ 31 - 1)) = some w ∧
      ¬ Delivery (overlong (2 ^ 31 - 1)) w := by
  obtain ⟨w, leads, fails⟩ := overlong_loses (n := 2 ^ 31 - 1) (by omega)
  exact ⟨justConnected_linked duo fun i => by cases i <;> decide, traffic_overlong _,
    along_imp (fun _ _ tame => tame.2.2) leads.along, w, leads.ran, fails⟩

instance (w : World Side Nat) (e : Event Side Nat) : Decidable (Tame w e) :=
  inferInstanceAs (Decidable (_ ∧ _ ∧ _))

def opened : List (Event Side Nat) :=
  [.call .a (.connect ⟨2, 7666⟩), .deliver .b 0, .deliver .a 0, .deliver .b 0, .timer .a 0]

theorem even_opened : ∃ v past, Leads World.step Tame (World.new (brief 2)) opened v ∧
    Even (brief 2) v 0 past := by
  refine ⟨_, _, ⟨rfl, by decide +kernel⟩,
    ⟨⟨?_, ?_, ?_, ?_, ?_, ?_, ?_, ?_⟩, rfl, rfl, rfl, rfl, rfl, rfl⟩, rfl, rfl,
    by decide +kernel⟩ <;> (intro i; cases i <;> rfl)

def resend (n : Nat) : List (Event Side Nat) := [.timer .a n, .deliver .b 0, .deliver .a 0]

section Undone
variable {r : Roster Side} {w : World Side Nat} {past rest : List (SendRetry Nat)}

/-- Once sendAckSerial has wrapped round it lies below the largest serial, and the retry of
    that message goes on. -/
theorem lull_resend {n k : Nat} (lull : Lull r w (n + 1) (n + 1) n
      (past ++ retryOf r n (n - 1) k :: rest)) (quiet : w.inFlight = [])
    (count : past.length = n) (spent : ∀ q ∈ past, q.scheduled = false)
    (left : k < r.maxRetries .a) (largest : n + 1 = 2 ^ 31) :
    ∃ v, Leads World.step Tame w (resend n) v ∧
      Lull r v (n + 1) (n + 1) n (past ++ retryOf r n (n - 1) (k + 1) :: rest) ∧
      v.inFlight = [] := by
  have turn := first_in_turn lull.retries spent
  have wrapped : signed (n + 1) < signed n := by
    unfold signed
    split <;> split <;> omega
  have late : n ≠ following (n + 1) := by
    unfold following
    omega
  obtain ⟨one, timer, lull, alone⟩ := lull_again lull quiet left wrapped
  obtain ⟨two, data, after, answer⟩ := lull_old lull alone (Int.le_refl _)
  obtain ⟨three, ack, last, still⟩ := lull_late after answer late
  rw [count] at turn timer
  exact ⟨three, leads_cons timer (tame_timer quiet turn)
    (leads_cons data (tame_data alone lull.receiveSerial (by omega))
      (leads_cons ack tame_ack (leads_nil three))), last, still⟩

end Undone

/-- The last message that goes well is answered, and so is the one after it. -/
def undone (n : Nat) : List (Event Side Nat) :=
  opened ++ (rounds n ++ (exchange n ++ (exchange (n + 1) ++ (resend (n + 1) ++
    (resend (n + 1) ++ [.timer .a (n + 1)])))))

theorem undone_fails {n : Nat} (largest : n + 2 = 2 ^ 31) :
    ∃ w, Leads World.step Tame (World.new (brief 2)) (undone n) w ∧
      (w.wires .a).connectionState = .failureTimeout := by
  obtain ⟨u, past, first, even⟩ := even_opened
  obtain ⟨u, past, middle, lull, quiet, count, spent⟩ :=
    even_rounds even (by decide) n (by omega)
  obtain ⟨u, arrives, lull, quiet⟩ := exchange_arrives lull quiet (by omega)
  obtain ⟨u, wraps, lull, quiet⟩ := exchange_wraps lull quiet (by omega)
  rw [List.append_assoc] at lull
  obtain ⟨u, again, lull, quiet⟩ := lull_resend lull quiet count spent (by decide) (by omega)
  obtain ⟨u, last, lull, quiet⟩ := lull_resend lull quiet count spent (by decide) (by omega)
  have fails := failed_reaction lull.retries rfl rfl
  have turn := first_in_turn lull.retries spent
  rw [count] at fails turn
  refine ⟨u.act .a (.timer (n + 1)), leads_append first (leads_append middle
    (leads_append arrives (leads_append wraps (leads_append again (leads_append last
      (leads_cons rfl (tame_timer quiet turn) (leads_nil _))))))), ?_⟩
  rw [act_wires_self]
  exact fails

/-- Each side asks at once, and neither answers. -/
def crossed : List (Event Side Nat) :=
  [.call .a (.connect ⟨2, 7666⟩), .call .b (.connect ⟨1, 7666⟩), .deliver .b 0, .deliver .a 0] ++
    (List.replicate 5 [.timer .a 0, .deliver .b 0]).flatten ++ [.timer .a 0]

/-- One timer fires three times before its elders fire once. -/
def hasty : List (Event Side Nat) :=
  reversed ++ (List.replicate 2 [.timer .a 3, .deliver .b 0, .deliver .a 0]).flatten ++
    [.timer .a 3]

def single : List (Event Side Nat) :=
  [.call .a (.connect ⟨2, 7666⟩), .deliver .b 0, .deliver .a 0, .deliver .b 0,
    .call .a (.sendMsg 10), .call .a (.sendMsg 20), .deliver .b 0, .deliver .b 0,
    .deliver .a 1, .deliver .a 0, .timer .a 0, .timer .a 1, .timer .a 2, .deliver .b 0,
    .deliver .a 0, .timer .a 2]

theorem failure_without_loss :
    (Along World.step Undisturbed (World.new duo) crossed ∧ ¬ NeverFails (World.new duo) crossed) ∧
    (Along World.step Undisturbed (World.new (brief 2)) hasty ∧
      ¬ NeverFails (World.new (brief 2)) hasty) ∧
    (Along World.step Undisturbed (World.new (brief 1)) single ∧
      ¬ NeverFails (World.new (brief 1)) single) ∧
    Along World.step Undisturbed (World.new (brief 2)) (undone (2 ^ 31 - 2)) ∧
      Along World.step InOrder (World.new (brief 2)) (undone (2 ^ 31 - 2)) ∧
      ¬ NeverFails (World.new (brief 2)) (undone (2 ^ 31 - 2)) := by
  have fails (r : Roster Side) (es : List (Event Side Nat))
      (ends : ∃ i, ∃ w ∈ (World.new r).run es, (w.wires i).connectionState = .failureTimeout) :
      ¬ NeverFails (World.new r) es :=
    fun never => ends.elim fun i ⟨w, ran, failed⟩ => never w ran i failed
  obtain ⟨w, leads, failed⟩ := undone_fails (n := 2 ^ 31 - 2) (by omega)
  refine ⟨⟨by decide +kernel, fails _ _ ⟨.a, ?_⟩⟩, ⟨by decide +kernel, fails _ _ ⟨.a, ?_⟩⟩,
    ⟨by decide +kernel, fails _ _ ⟨.a, ?_⟩⟩, along_imp (fun _ _ tame => tame.1) leads.along,
    along_imp (fun _ _ tame => tame.2.1) leads.along, fun never => never w leads.ran .a failed⟩
  all_goals decide +kernel

end SCLOrkWire
