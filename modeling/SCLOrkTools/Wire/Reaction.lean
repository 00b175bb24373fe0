import SCLOrkTools.Wire.Endpoint

/- What one endpoint can do in reaction to a call, a timer or a packet, said once. -/
namespace SCLOrkWire
open RingBuffer WrapInteger
variable {Args : Type}

section Fields
variable (w : Wire Args) (s : ConnectionState) (a : NetAddr) (q : Request Args) (ref : Nat)
  (r : SendRetry Args)

@[simp] theorem idle_wire : w.idle.wire = w := rfl
@[simp] theorem idle_sends : w.idle.sends = [] := rfl
@[simp] theorem idle_received : w.idle.received = [] := rfl

@[simp] theorem change_connectionState : (w.prChangeConnectionState s).connectionState = s := by
  unfold Wire.prChangeConnectionState; split <;> rfl
@[simp] theorem change_id : (w.prChangeConnectionState s).id = w.id := by
  unfold Wire.prChangeConnectionState; split <;> rfl
@[simp] theorem change_receivePort : (w.prChangeConnectionState s).receivePort = w.receivePort := by
  unfold Wire.prChangeConnectionState; split <;> rfl
@[simp] theorem change_maxRetries : (w.prChangeConnectionState s).maxRetries = w.maxRetries := by
  unfold Wire.prChangeConnectionState; split <;> rfl
@[simp] theorem change_bufferSize : (w.prChangeConnectionState s).bufferSize = w.bufferSize := by
  unfold Wire.prChangeConnectionState; split <;> rfl
@[simp] theorem change_selfId : (w.prChangeConnectionState s).selfId = w.selfId := by
  unfold Wire.prChangeConnectionState; split <;> rfl
@[simp] theorem change_netAddr : (w.prChangeConnectionState s).netAddr = w.netAddr := by
  unfold Wire.prChangeConnectionState; split <;> rfl
@[simp] theorem change_retries : (w.prChangeConnectionState s).retries = w.retries := by
  unfold Wire.prChangeConnectionState; split <;> rfl
@[simp] theorem change_listening : (w.prChangeConnectionState s).listening = w.listening := by
  unfold Wire.prChangeConnectionState; split <;> rfl
@[simp] theorem change_connectionRetry :
    (w.prChangeConnectionState s).connectionRetry = w.connectionRetry := by
  unfold Wire.prChangeConnectionState; split <;> rfl
@[simp] theorem change_sendSerial : (w.prChangeConnectionState s).sendSerial =
    if s = .connected then 0 else w.sendSerial := by
  unfold Wire.prChangeConnectionState; split <;> rfl
@[simp] theorem change_sendAckSerial : (w.prChangeConnectionState s).sendAckSerial =
    if s = .connected then 0 else w.sendAckSerial := by
  unfold Wire.prChangeConnectionState; split <;> rfl
@[simp] theorem change_receiveSerial : (w.prChangeConnectionState s).receiveSerial =
    if s = .connected then 0 else w.receiveSerial := by
  unfold Wire.prChangeConnectionState; split <;> rfl
@[simp] theorem change_sendBuffer : (w.prChangeConnectionState s).sendBuffer =
    if s = .connected then WrapArray.clear w.bufferSize else w.sendBuffer := by
  unfold Wire.prChangeConnectionState; split <;> rfl
@[simp] theorem change_receiveBuffer : (w.prChangeConnectionState s).receiveBuffer =
    if s = .connected then WrapArray.clear w.bufferSize else w.receiveBuffer := by
  unfold Wire.prChangeConnectionState; split <;> rfl

@[simp] theorem startRetry_wire : (w.startRetry a q).wire =
    { w with retries := w.retries ++ [SendRetry.new a q w.maxRetries],
             connectionRetry := some w.retries.length } := rfl
@[simp] theorem startRetry_sends : (w.startRetry a q).sends = [(a, q.message)] := rfl
@[simp] theorem startRetry_received : (w.startRetry a q).received = [] := rfl

end Fields

theorem sendTo_mem {w : Wire Args} {packet : Packet Args} {out : NetAddr × Packet Args}
    (sent : out ∈ w.sendTo packet) : w.netAddr = some out.1 ∧ out.2 = packet := by
  obtain ⟨a, found, rfl⟩ := List.mem_map.mp sent
  exact ⟨Option.mem_toList.mp found, rfl⟩

theorem mem_modify_stop {l : List (SendRetry Args)} {ref : Nat} {r : SendRetry Args}
    (mem : r ∈ l.modify ref SendRetry.stop) : ∃ r' ∈ l, r = r' ∨ r = r'.stop := by
  obtain ⟨i, bound, at_i⟩ := List.getElem_of_mem mem
  rw [List.getElem_modify] at at_i
  have inside : i < l.length := by simpa using bound
  refine ⟨l[i], List.getElem_mem inside, ?_⟩
  by_cases same : ref = i
  · rw [if_pos same] at at_i; exact Or.inr at_i.symm
  · rw [if_neg same] at at_i; exact Or.inl at_i.symm

/-- The messages a wire takes from its client, under serials of their own. -/
def Wire.accepted (w : Wire Args) : Stimulus Args → List Args
  | .call (.sendMsg args) => if w.connectionState = .connected then [args] else []
  | _ => []

/-- Every outcome of `Wire.react`, one constructor for each branch that does something. -/
inductive Reacts (w : Wire Args) : Stimulus Args → Reaction Args → Prop where
  | idle {s : Stimulus Args} (refused : w.accepted s = []) : Reacts w s w.idle
  | knock {a : NetAddr} (may : w.connectionState.mayOpen = true) :
      Reacts w (.call (.knock a))
        ((w.prChangeConnectionState .knocking).startRetry a (.knock w.receivePort w.id))
  | connect {a : NetAddr} (may : w.connectionState.mayOpen = true) :
      Reacts w (.call (.connect a))
        (({ w with netAddr := some a }.prChangeConnectionState .connectionRequested).startRetry a
          (.connect w.receivePort w.id))
  | sendMsg {args : Args} {a : NetAddr} (connected : w.connectionState = .connected)
      (addr : w.netAddr = some a) :
      Reacts w (.call (.sendMsg args))
        ⟨{ w with
            retries := w.retries ++ [SendRetry.new a
              (.send w.selfId (following w.sendSerial) args) w.maxRetries]
            sendSerial := following w.sendSerial
            sendBuffer := w.sendBuffer.wrapPutInt (signed (following w.sendSerial))
              (some w.retries.length) },
          [(a, .wireSend w.selfId (following w.sendSerial) args)], []⟩
  | sendMsgNil {args : Args} (connected : w.connectionState = .connected)
      (addr : w.netAddr = none) :
      Reacts w (.call (.sendMsg args)) { w with sendSerial := following w.sendSerial }.idle
  | disconnect {a : NetAddr} (connected : w.connectionState = .connected)
      (addr : w.netAddr = some a) :
      Reacts w (.call .disconnect)
        ((w.prChangeConnectionState .disconnectRequested).startRetry a (.disconnect w.selfId))
  | disconnectNil (connected : w.connectionState = .connected) (addr : w.netAddr = none) :
      Reacts w (.call .disconnect) (w.prChangeConnectionState .disconnectRequested).idle
  | prDropLine : Reacts w (.call .prDropLine) { w with listening := false }.idle
  | connectRequest {ip returnPort responderId : Nat} (listens : w.listening = true)
      (may : w.connectionState.mayAccept = true) :
      Reacts w (.packet ip (.wireConnectRequest returnPort responderId))
        ({ w.prChangeConnectionState .connectionAccepted with
            netAddr := some ⟨ip, returnPort⟩
            selfId := some responderId }.startRetry ⟨ip, returnPort⟩ (.accept responderId w.id))
  | connectAccept {ip initiatorId ref : Nat} (listens : w.listening = true)
      (retry : w.connectionRetry = some ref) :
      Reacts w (.packet ip (.wireConnectAccept w.id initiatorId))
        ⟨{ w.stopRetry ref with selfId := some initiatorId }.prChangeConnectionState .connected,
          w.sendTo (.wireConnectConfirm (some initiatorId)), []⟩
  | connectConfirm {ip ref : Nat} (listens : w.listening = true)
      (retry : w.connectionRetry = some ref) :
      Reacts w (.packet ip (.wireConnectConfirm (some w.id)))
        ((w.stopRetry ref).prChangeConnectionState .connected).idle
  | sendOld {ip serial : Nat} {args : Args} (listens : w.listening = true)
      (old : signed serial ≤ signed w.receiveSerial) :
      Reacts w (.packet ip (.wireSend (some w.id) serial args))
        ⟨w, w.sendTo (.wireAck w.selfId serial), []⟩
  | sendNext {ip : Nat} {args : Args} (listens : w.listening = true)
      (later : signed w.receiveSerial < signed (following w.receiveSerial)) :
      Reacts w (.packet ip (.wireSend (some w.id) (following w.receiveSerial) args))
        ⟨{ w with
            receiveSerial := (w.accepting (following w.receiveSerial) args).receiveSerial
            receiveBuffer := (w.accepting (following w.receiveSerial) args).receiveBuffer },
          w.sendTo (.wireAck w.selfId (following w.receiveSerial)),
          (w.accepting (following w.receiveSerial) args).received⟩
  | sendAhead {ip serial : Nat} {args : Args} (listens : w.listening = true)
      (later : signed w.receiveSerial < signed serial)
      (ahead : serial ≠ following w.receiveSerial) :
      Reacts w (.packet ip (.wireSend (some w.id) serial args))
        ⟨{ w with receiveBuffer := w.receiveBuffer.wrapPutInt (signed serial) (some args) },
          w.sendTo (.wireAck w.selfId serial), []⟩
  | ackBare {ip : Nat} (listens : w.listening = true)
      (slot : w.sendBuffer.wrapAtInt (signed (following w.sendAckSerial)) = none) :
      Reacts w (.packet ip (.wireAck (some w.id) (following w.sendAckSerial)))
        { w with sendAckSerial := following w.sendAckSerial }.idle
  | ackHeld {ip ref : Nat} (listens : w.listening = true)
      (slot : w.sendBuffer.wrapAtInt (signed (following w.sendAckSerial)) = some ref) :
      Reacts w (.packet ip (.wireAck (some w.id) (following w.sendAckSerial)))
        { w.stopRetry ref with
          sendAckSerial := following w.sendAckSerial
          sendBuffer := w.sendBuffer.wrapPutInt (signed (following w.sendAckSerial)) none }.idle
  | disconnectPacket {ip : Nat} {a : NetAddr} (listens : w.listening = true)
      (addr : w.netAddr = some a) :
      Reacts w (.packet ip (.wireDisconnect (some w.id)))
        ⟨w.prChangeConnectionState .disconnected, [(a, .wireDisconnectConfirm w.selfId)], []⟩
  | disconnectConfirm {ip ref : Nat} (listens : w.listening = true)
      (retry : w.connectionRetry = some ref) :
      Reacts w (.packet ip (.wireDisconnectConfirm (some w.id)))
        ((w.stopRetry ref).prChangeConnectionState .disconnected).idle
  | retryAgain {ref : Nat} {r : SendRetry Args} (found : w.retries[ref]? = some r)
      (scheduled : r.scheduled = true) (left : r.retries < r.maxRetries)
      (going : w.keepGoing r.request = true) :
      Reacts w (.timer ref)
        ⟨w.setRetry ref { r with retries := r.retries + 1, nextTime := true },
          [(r.netAddr, r.request.message)], []⟩
  | retryDone {ref : Nat} {r : SendRetry Args} (found : w.retries[ref]? = some r)
      (scheduled : r.scheduled = true) (left : r.retries < r.maxRetries)
      (answered : w.keepGoing r.request = false) :
      Reacts w (.timer ref) (w.setRetry ref { r with nextTime := false, scheduled := false }).idle
  | retryFailed {ref : Nat} {r : SendRetry Args} (found : w.retries[ref]? = some r)
      (scheduled : r.scheduled = true) (spent : r.maxRetries ≤ r.retries) :
      Reacts w (.timer ref)
        ((w.prChangeConnectionState .failureTimeout).setRetry ref
          { r with nextTime := false, scheduled := false }).idle

theorem call_reacts (w : Wire Args) (c : Call Args) : Reacts w (.call c) (w.call c) := by
  cases c with
  | knock a =>
    simp only [Wire.call, Wire.knock]
    split
    · rename_i may; exact .knock may
    · exact .idle rfl
  | connect a =>
    simp only [Wire.call, Wire.connect]
    split
    · rename_i may; exact .connect may
    · exact .idle rfl
  | sendMsg args =>
    simp only [Wire.call, Wire.sendMsg]
    split
    · rename_i connected
      split
      · rename_i addr; exact .sendMsgNil connected addr
      · rename_i addr; exact .sendMsg connected addr
    · rename_i refused; exact .idle (if_neg refused)
  | disconnect =>
    simp only [Wire.call, Wire.disconnect]
    split
    · rename_i connected
      cases addr : w.netAddr with
      | none => exact .disconnectNil connected addr
      | some a => exact .disconnect connected addr
    · exact .idle rfl
  | prDropLine => exact .prDropLine

theorem timer_reacts (w : Wire Args) (ref : Nat) : Reacts w (.timer ref) (w.retryFunction ref) := by
  unfold Wire.retryFunction
  cases found : w.retries[ref]? with
  | none => exact .idle rfl
  | some r =>
    dsimp only
    by_cases scheduled : r.scheduled = true
    · rw [if_pos scheduled]
      by_cases left : r.retries < r.maxRetries
      · rw [if_pos left]
        cases going : w.keepGoing r.request with
        | true => exact .retryAgain found scheduled left going
        | false => exact .retryDone found scheduled left going
      · rw [if_neg left]
        exact .retryFailed found scheduled (by omega)
    · rw [if_neg scheduled]
      exact .idle rfl

theorem connectAccept_reacts (w : Wire Args) (listens : w.listening = true)
    (ip responderId initiatorId : Nat) :
    Reacts w (.packet ip (.wireConnectAccept responderId initiatorId))
      (w.connectAcceptOSCFunc responderId initiatorId) := by
  unfold Wire.connectAcceptOSCFunc
  by_cases same : responderId = w.id
  · subst same
    rw [if_pos rfl]
    cases retry : w.connectionRetry with
    | none => exact .idle rfl
    | some ref =>
      have step : Reacts w (.packet ip (.wireConnectAccept w.id initiatorId)) _ :=
        .connectAccept listens retry
      simpa [Wire.sendTo, Wire.stopRetry] using step
  · rw [if_neg same]
    exact .idle rfl

theorem send_reacts (w : Wire Args) (listens : w.listening = true) (ip : Nat)
    (senderId : Option Nat) (serial : Nat) (args : Args) :
    Reacts w (.packet ip (.wireSend senderId serial args))
      (w.sendOSCFunc senderId serial args) := by
  unfold Wire.sendOSCFunc
  by_cases same : senderId = some w.id
  · subst same
    rw [if_pos rfl]
    by_cases old : signed serial ≤ signed w.receiveSerial
    · simp only [if_pos old]
      exact .sendOld listens old
    · by_cases next : serial = following w.receiveSerial
      · subst next
        simp only [if_neg old]
        exact .sendNext listens (by omega)
      · simp only [if_neg old, if_neg next]
        exact .sendAhead listens (by omega) next
  · rw [if_neg same]
    exact .idle rfl

theorem ack_reacts (w : Wire Args) (listens : w.listening = true) (ip : Nat)
    (senderId : Option Nat) (serial : Nat) :
    Reacts w (.packet ip (.wireAck senderId serial)) (w.ackOSCFunc senderId serial) := by
  unfold Wire.ackOSCFunc
  by_cases same : senderId = some w.id
  · by_cases next : serial = following w.sendAckSerial
    · subst same next
      simp only [↓reduceIte]
      cases slot : w.sendBuffer.wrapAtInt (signed (following w.sendAckSerial)) with
      | none => exact .ackBare listens slot
      | some ref => exact .ackHeld listens slot
    · simp only [if_neg next, ite_self]
      exact .idle rfl
  · rw [if_neg same]
    exact .idle rfl

theorem packet_reacts (w : Wire Args) (ip : Nat) (p : Packet Args) :
    Reacts w (.packet ip p) (w.receive ip p) := by
  unfold Wire.receive
  by_cases listens : w.listening = true
  · rw [if_pos listens]
    cases p with
    | wireKnock => exact .idle rfl
    | wireConnectRequest returnPort responderId =>
      simp only [Wire.connectRequestOSCFunc]
      split
      · rename_i may; exact .connectRequest listens may
      · exact .idle rfl
    | wireConnectAccept responderId initiatorId => exact connectAccept_reacts w listens ip _ _
    | wireConnectConfirm initiatorId =>
      simp only [Wire.connectConfirmOSCFunc]
      split
      · rename_i same
        subst same
        cases retry : w.connectionRetry with
        | none => exact .idle rfl
        | some ref => exact .connectConfirm listens retry
      · exact .idle rfl
    | wireSend senderId serial args => exact send_reacts w listens ip _ _ _
    | wireAck senderId serial => exact ack_reacts w listens ip _ _
    | wireDisconnect senderId =>
      simp only [Wire.disconnectOSCFunc]
      split
      · rename_i same
        subst same
        cases addr : w.netAddr with
        | none => exact .idle rfl
        | some a => exact .disconnectPacket listens addr
      · exact .idle rfl
    | wireDisconnectConfirm senderId =>
      simp only [Wire.disconnectConfirmOSCFunc]
      split
      · rename_i same
        subst same
        cases retry : w.connectionRetry with
        | none => exact .idle rfl
        | some ref => exact .disconnectConfirm listens retry
      · exact .idle rfl
  · rw [if_neg listens]
    exact .idle rfl

theorem react_reacts (w : Wire Args) (s : Stimulus Args) : Reacts w s (w.react s) := by
  cases s with
  | call c => exact call_reacts w c
  | timer ref => exact timer_reacts w ref
  | packet ip p => exact packet_reacts w ip p

theorem reacts_constants {w : Wire Args} {s : Stimulus Args} {r : Reaction Args}
    (reacts : Reacts w s r) : r.wire.id = w.id ∧ r.wire.receivePort = w.receivePort ∧
      r.wire.maxRetries = w.maxRetries ∧ r.wire.bufferSize = w.bufferSize := by
  cases reacts <;> simp [Wire.stopRetry, Wire.setRetry]

inductive Makes (w : Wire Args) : Stimulus Args → NetAddr → Request Args → Prop where
  | knock {a : NetAddr} (may : w.connectionState.mayOpen = true) :
      Makes w (.call (.knock a)) a (.knock w.receivePort w.id)
  | connect {a : NetAddr} (may : w.connectionState.mayOpen = true) :
      Makes w (.call (.connect a)) a (.connect w.receivePort w.id)
  | send {args : Args} {a : NetAddr} (connected : w.connectionState = .connected)
      (addr : w.netAddr = some a) :
      Makes w (.call (.sendMsg args)) a (.send w.selfId (following w.sendSerial) args)
  | disconnect {a : NetAddr} (connected : w.connectionState = .connected)
      (addr : w.netAddr = some a) : Makes w (.call .disconnect) a (.disconnect w.selfId)
  | accept {ip returnPort responderId : Nat} (listens : w.listening = true)
      (may : w.connectionState.mayAccept = true) :
      Makes w (.packet ip (.wireConnectRequest returnPort responderId)) ⟨ip, returnPort⟩
        (.accept responderId w.id)

inductive Replies (w : Wire Args) : Stimulus Args → NetAddr → Packet Args → Prop where
  | confirm {ip initiatorId : Nat} {a : NetAddr} (listens : w.listening = true)
      (retry : w.connectionRetry ≠ none) (addr : w.netAddr = some a) :
      Replies w (.packet ip (.wireConnectAccept w.id initiatorId)) a
        (.wireConnectConfirm (some initiatorId))
  | ack {ip serial : Nat} {args : Args} {a : NetAddr} (listens : w.listening = true)
      (addr : w.netAddr = some a) :
      Replies w (.packet ip (.wireSend (some w.id) serial args)) a (.wireAck w.selfId serial)
  | disconnectConfirm {ip : Nat} {a : NetAddr} (listens : w.listening = true)
      (addr : w.netAddr = some a) :
      Replies w (.packet ip (.wireDisconnect (some w.id))) a (.wireDisconnectConfirm w.selfId)

/-- A retry that the wire has kept: it may have stopped or finished since. -/
def SendRetry.Keeps (q old : SendRetry Args) : Prop :=
  q.request = old.request ∧ q.netAddr = old.netAddr ∧ (q.scheduled = true → old.scheduled = true)

theorem mem_set_keeps {l : List (SendRetry Args)} {ref : Nat} {r q q' : SendRetry Args}
    (found : l[ref]? = some r) (keeps : q'.Keeps r) (mem : q ∈ l.set ref q') :
    ∃ old ∈ l, q.Keeps old := by
  rcases List.mem_or_eq_of_mem_set mem with old | rfl
  · exact ⟨q, old, rfl, rfl, id⟩
  · exact ⟨r, List.mem_of_getElem? found, keeps⟩

theorem mem_stop_keeps {l : List (SendRetry Args)} {ref : Nat} {q : SendRetry Args}
    (mem : q ∈ l.modify ref SendRetry.stop) : ∃ old ∈ l, q.Keeps old := by
  obtain ⟨old, here, rfl | rfl⟩ := mem_modify_stop mem
  · exact ⟨q, here, rfl, rfl, id⟩
  · exact ⟨old, here, rfl, rfl, id⟩

theorem reacts_retries {w : Wire Args} {s : Stimulus Args} {r : Reaction Args}
    (reacts : Reacts w s r) : ∀ q ∈ r.wire.retries,
      (∃ old ∈ w.retries, q.Keeps old) ∨ Makes w s q.netAddr q.request := by
  intro q mem
  have pushed {a : NetAddr} {new : Request Args}
      (mem : q ∈ w.retries ++ [SendRetry.new a new w.maxRetries]) (makes : Makes w s a new) :
      (∃ old ∈ w.retries, q.Keeps old) ∨ Makes w s q.netAddr q.request := by
    rcases List.mem_append.mp mem with old | last
    · exact Or.inl ⟨q, old, rfl, rfl, id⟩
    · rw [List.mem_singleton.mp last]
      exact Or.inr makes
  cases reacts with
  | knock may => exact pushed (by simpa using mem) (.knock may)
  | connect may => exact pushed (by simpa using mem) (.connect may)
  | sendMsg connected addr => exact pushed mem (.send connected addr)
  | disconnect connected addr => exact pushed (by simpa using mem) (.disconnect connected addr)
  | connectRequest listens may => exact pushed (by simpa using mem) (.accept listens may)
  | connectAccept | connectConfirm | ackHeld | disconnectConfirm =>
    exact Or.inl (mem_stop_keeps (by simpa [Wire.stopRetry] using mem))
  | retryAgain found scheduled | retryDone found scheduled | retryFailed found scheduled =>
    simp only [Wire.setRetry, Wire.idle, change_retries] at mem
    exact Or.inl (mem_set_keeps found ⟨by rfl, by rfl, fun _ => scheduled⟩ mem)
  | _ => exact Or.inl ⟨q, by simpa using mem, rfl, rfl, id⟩

theorem reacts_sends {w : Wire Args} {s : Stimulus Args} {r : Reaction Args}
    (reacts : Reacts w s r) : ∀ out ∈ r.sends,
      (∃ old ∈ w.retries, (old.scheduled = true ∧ w.keepGoing old.request = true) ∧
        out = (old.netAddr, old.request.message)) ∨
      (∃ new, Makes w s out.1 new ∧ out.2 = new.message) ∨ Replies w s out.1 out.2 := by
  intro out mem
  cases reacts with
  | idle | sendMsgNil | disconnectNil | prDropLine | ackBare => cases mem
  | connectConfirm | ackHeld | disconnectConfirm | retryDone | retryFailed => cases mem
  | knock may =>
    rw [List.mem_singleton.mp mem]
    exact Or.inr (Or.inl ⟨_, .knock may, rfl⟩)
  | connect may =>
    rw [List.mem_singleton.mp mem]
    exact Or.inr (Or.inl ⟨_, .connect may, rfl⟩)
  | sendMsg connected addr =>
    rw [List.mem_singleton.mp mem]
    exact Or.inr (Or.inl ⟨_, .send connected addr, rfl⟩)
  | disconnect connected addr =>
    rw [List.mem_singleton.mp mem]
    exact Or.inr (Or.inl ⟨_, .disconnect connected addr, rfl⟩)
  | connectRequest listens may =>
    rw [List.mem_singleton.mp mem]
    exact Or.inr (Or.inl ⟨_, .accept listens may, rfl⟩)
  | connectAccept listens retry =>
    obtain ⟨addr, packet⟩ := sendTo_mem mem
    rw [packet]
    exact Or.inr (Or.inr (.confirm listens (by simp [retry]) addr))
  | sendOld listens | sendNext listens | sendAhead listens =>
    obtain ⟨addr, packet⟩ := sendTo_mem mem
    rw [packet]
    exact Or.inr (Or.inr (.ack listens addr))
  | disconnectPacket listens addr =>
    rw [List.mem_singleton.mp mem]
    exact Or.inr (Or.inr (.disconnectConfirm listens addr))
  | retryAgain found scheduled left going =>
    rw [List.mem_singleton.mp mem]
    exact Or.inl ⟨_, List.mem_of_getElem? found, ⟨scheduled, going⟩, rfl⟩

/-- The tests a handler makes before it does anything with a packet. -/
def Wire.heeds (w : Wire Args) : Packet Args → Prop
  | .wireKnock _ _ => False
  | .wireConnectRequest _ _ => w.listening = true ∧ w.connectionState.mayAccept = true
  | .wireConnectAccept responderId _ =>
    w.listening = true ∧ responderId = w.id ∧ w.connectionRetry ≠ none
  | .wireConnectConfirm initiatorId =>
    w.listening = true ∧ initiatorId = some w.id ∧ w.connectionRetry ≠ none
  | .wireSend senderId _ _ => w.listening = true ∧ senderId = some w.id
  | .wireAck senderId _ => w.listening = true ∧ senderId = some w.id
  | .wireDisconnect senderId => w.listening = true ∧ senderId = some w.id ∧ w.netAddr ≠ none
  | .wireDisconnectConfirm senderId =>
    w.listening = true ∧ senderId = some w.id ∧ w.connectionRetry ≠ none

theorem receive_unheeded {w : Wire Args} {p : Packet Args} (ip : Nat) (unheeded : ¬ w.heeds p) :
    w.receive ip p = w.idle := by
  have reacts := packet_reacts w ip p
  generalize w.receive ip p = r at reacts
  cases reacts with
  | idle => rfl
  | connectRequest listens may => exact absurd ⟨listens, may⟩ unheeded
  | connectAccept listens retry => exact absurd ⟨listens, rfl, by simp [retry]⟩ unheeded
  | connectConfirm listens retry => exact absurd ⟨listens, rfl, by simp [retry]⟩ unheeded
  | sendOld listens | sendNext listens | sendAhead listens | ackBare listens | ackHeld listens =>
    exact absurd ⟨listens, rfl⟩ unheeded
  | disconnectPacket listens addr => exact absurd ⟨listens, rfl, by simp [addr]⟩ unheeded
  | disconnectConfirm listens retry => exact absurd ⟨listens, rfl, by simp [retry]⟩ unheeded

def Packet.outcome (old : ConnectionState) : Packet Args → ConnectionState
  | .wireConnectRequest _ _ => .connectionAccepted
  | .wireConnectAccept _ _ | .wireConnectConfirm _ => .connected
  | .wireDisconnect _ | .wireDisconnectConfirm _ => .disconnected
  | .wireKnock _ _ | .wireSend _ _ _ | .wireAck _ _ => old

theorem receive_heeded_state {w : Wire Args} {p : Packet Args} (ip : Nat) (heeded : w.heeds p) :
    (w.receive ip p).wire.connectionState = p.outcome w.connectionState := by
  cases p with
  | wireKnock => exact heeded.elim
  | wireConnectRequest =>
    simp [Wire.receive, Wire.connectRequestOSCFunc, heeded.1, heeded.2, Packet.outcome]
  | wireConnectAccept responderId initiatorId =>
    obtain ⟨listens, rfl, retry⟩ := heeded
    obtain ⟨ref, retry⟩ := Option.ne_none_iff_exists'.mp retry
    simp [Wire.receive, Wire.connectAcceptOSCFunc, listens, retry, Packet.outcome]
  | wireConnectConfirm initiatorId =>
    obtain ⟨listens, rfl, retry⟩ := heeded
    obtain ⟨ref, retry⟩ := Option.ne_none_iff_exists'.mp retry
    simp [Wire.receive, Wire.connectConfirmOSCFunc, listens, retry, Packet.outcome]
  | wireSend senderId serial args =>
    have reacts := send_reacts w heeded.1 ip senderId serial args
    simp only [Wire.receive, heeded.1, ↓reduceIte, Packet.outcome]
    generalize w.sendOSCFunc senderId serial args = r at reacts
    cases reacts <;> rfl
  | wireAck senderId serial =>
    have reacts := ack_reacts w heeded.1 ip senderId serial
    simp only [Wire.receive, heeded.1, ↓reduceIte, Packet.outcome]
    generalize w.ackOSCFunc senderId serial = r at reacts
    cases reacts <;> rfl
  | wireDisconnect senderId =>
    obtain ⟨listens, rfl, addr⟩ := heeded
    obtain ⟨a, addr⟩ := Option.ne_none_iff_exists'.mp addr
    simp only [Wire.receive, listens, ↓reduceIte, Wire.disconnectOSCFunc, Packet.outcome]
    split
    · rename_i absent; simp [addr] at absent
    · simp
  | wireDisconnectConfirm senderId =>
    obtain ⟨listens, rfl, retry⟩ := heeded
    obtain ⟨ref, retry⟩ := Option.ne_none_iff_exists'.mp retry
    simp [Wire.receive, Wire.disconnectConfirmOSCFunc, listens, retry, Packet.outcome]

section Constants
variable (w : Wire Args) (s : Stimulus Args)

@[simp] theorem react_id : (w.react s).wire.id = w.id := (reacts_constants (react_reacts w s)).1
@[simp] theorem react_receivePort : (w.react s).wire.receivePort = w.receivePort :=
  (reacts_constants (react_reacts w s)).2.1
@[simp] theorem react_maxRetries : (w.react s).wire.maxRetries = w.maxRetries :=
  (reacts_constants (react_reacts w s)).2.2.1
@[simp] theorem react_bufferSize : (w.react s).wire.bufferSize = w.bufferSize :=
  (reacts_constants (react_reacts w s)).2.2.2

end Constants

end SCLOrkWire
