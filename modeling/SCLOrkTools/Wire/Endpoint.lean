import SCLOrkTools.Library.Ring
import SCLOrkTools.Library.WrapInteger

/- One SCLOrkWire endpoint. Message arguments stay opaque (`Args`), a serial is an Integer of
   32 bits, kept as its bits, and `nil` instance variables are `none`. The interpreter runs one
   handler at a time, so the semaphores never block and a handler is one function; the
   onConnected callback is client code and appears as the later calls it makes. -/
namespace SCLOrkWire
open RingBuffer WrapInteger
variable {Args : Type}

structure NetAddr where
  addr : Nat
  port : Nat
  deriving DecidableEq, Repr

inductive ConnectionState where
  | neverConnected | knocking | connectionRequested | connectionAccepted
  | connected | disconnectRequested | disconnected | failureTimeout
  deriving DecidableEq, Repr

inductive Packet (Args : Type) where
  | wireKnock (returnPort id : Nat)
  | wireConnectRequest (returnPort responderId : Nat)
  | wireConnectAccept (responderId initiatorId : Nat)
  | wireConnectConfirm (initiatorId : Option Nat)
  | wireSend (senderId : Option Nat) (serial : Nat) (messageArray : Args)
  | wireAck (senderId : Option Nat) (serial : Nat)
  | wireDisconnect (senderId : Option Nat)
  | wireDisconnectConfirm (senderId : Option Nat)
  deriving DecidableEq, Repr

/-- The five places that create a SCLOrkWireSendRetry, each with its message and its
    keepGoing closure. -/
inductive Request (Args : Type) where
  | knock (receivePort id : Nat)
  | connect (receivePort id : Nat)
  | accept (selfId id : Nat)
  | send (selfId : Option Nat) (serial : Nat) (args : Args)
  | disconnect (selfId : Option Nat)
  deriving DecidableEq, Repr

def Request.message : Request Args → Packet Args
  | .knock receivePort id => .wireKnock receivePort id
  | .connect receivePort id => .wireConnectRequest receivePort id
  | .accept selfId id => .wireConnectAccept selfId id
  | .send selfId serial args => .wireSend selfId serial args
  | .disconnect selfId => .wireDisconnect selfId

/-- `nextTime` records only whether the variable is set; `scheduled`, whether SystemClock
    still holds retryFunction. stop clears the former and leaves the latter. -/
structure SendRetry (Args : Type) where
  netAddr : NetAddr
  request : Request Args
  maxRetries : Nat
  retries : Nat
  nextTime : Bool
  scheduled : Bool
  deriving DecidableEq, Repr

def SendRetry.new (netAddr : NetAddr) (request : Request Args) (maxRetries : Nat) :
    SendRetry Args :=
  ⟨netAddr, request, maxRetries, 0, true, true⟩

def SendRetry.stop (r : SendRetry Args) : SendRetry Args := { r with nextTime := false }

/-- `retries` lists the SCLOrkWireSendRetry objects in the order of their creation; other
    fields refer to one by its position. `listening` is false before `new` and after
    prDropLine has freed the OSCFuncs. -/
structure Wire (Args : Type) where
  receivePort : Nat
  id : Nat
  maxRetries : Nat
  bufferSize : Nat
  selfId : Option Nat
  connectionRetry : Option Nat
  sendSerial : Nat
  sendBuffer : WrapArray Nat
  sendAckSerial : Nat
  receiveSerial : Nat
  receiveBuffer : WrapArray Args
  connectionState : ConnectionState
  netAddr : Option NetAddr
  retries : List (SendRetry Args)
  listening : Bool

def Wire.new (receivePort id maxRetries bufferSize : Nat) : Wire Args where
  receivePort := receivePort
  id := id
  maxRetries := maxRetries
  bufferSize := bufferSize
  selfId := none
  connectionRetry := none
  sendSerial := 0
  sendBuffer := WrapArray.clear bufferSize
  sendAckSerial := 0
  receiveSerial := 0
  receiveBuffer := WrapArray.clear bufferSize
  connectionState := .neverConnected
  netAddr := none
  retries := []
  listening := true

/-- What a handler does: the wire it leaves, the packets it sends, and the message
    arrays it hands to onMessageReceived. -/
structure Reaction (Args : Type) where
  wire : Wire Args
  sends : List (NetAddr × Packet Args)
  received : List Args

def Wire.idle (w : Wire Args) : Reaction Args := ⟨w, [], []⟩

def Wire.prChangeConnectionState (w : Wire Args) (newState : ConnectionState) : Wire Args :=
  if newState = .connected then
    { w with
      sendBuffer := WrapArray.clear w.bufferSize
      sendSerial := 0
      sendAckSerial := 0
      receiveSerial := 0
      receiveBuffer := WrapArray.clear w.bufferSize
      connectionState := newState }
  else { w with connectionState := newState }

/-- netAddr.sendMsg on nil raises, so nothing is sent. -/
def Wire.sendTo (w : Wire Args) (packet : Packet Args) : List (NetAddr × Packet Args) :=
  w.netAddr.toList.map (·, packet)

def Wire.pushRetry (w : Wire Args) (netAddr : NetAddr) (request : Request Args) : Wire Args :=
  { w with retries := w.retries ++ [SendRetry.new netAddr request w.maxRetries] }

/-- connectionRetry = SCLOrkWireSendRetry.new(...): the first send happens at once. -/
def Wire.startRetry (w : Wire Args) (netAddr : NetAddr) (request : Request Args) : Reaction Args :=
  ⟨{ w.pushRetry netAddr request with connectionRetry := some w.retries.length },
    [(netAddr, request.message)], []⟩

def Wire.setRetry (w : Wire Args) (ref : Nat) (r : SendRetry Args) : Wire Args :=
  { w with retries := w.retries.set ref r }

def Wire.stopRetry (w : Wire Args) (ref : Nat) : Wire Args :=
  { w with retries := w.retries.modify ref SendRetry.stop }

def ConnectionState.mayOpen (s : ConnectionState) : Bool :=
  s = .neverConnected || s = .disconnected || s = .failureTimeout

def ConnectionState.mayAccept (s : ConnectionState) : Bool :=
  s = .neverConnected || s = .knocking || s = .disconnected

def Wire.knock (w : Wire Args) (knockAddr : NetAddr) : Reaction Args :=
  if w.connectionState.mayOpen then
    (w.prChangeConnectionState .knocking).startRetry knockAddr (.knock w.receivePort w.id)
  else w.idle

def Wire.connect (w : Wire Args) (requestAddr : NetAddr) : Reaction Args :=
  if w.connectionState.mayOpen then
    ({ w with netAddr := some requestAddr }.prChangeConnectionState
      .connectionRequested).startRetry requestAddr (.connect w.receivePort w.id)
  else w.idle

/-- With netAddr nil the serial is taken before the retry's first send raises. -/
def Wire.sendMsg (w : Wire Args) (args : Args) : Reaction Args :=
  if w.connectionState = .connected then
    let serial := following w.sendSerial
    match w.netAddr with
    | none => { w with sendSerial := serial }.idle
    | some netAddr =>
      let request := Request.send w.selfId serial args
      ⟨{ w.pushRetry netAddr request with
          sendSerial := serial
          sendBuffer := w.sendBuffer.wrapPutInt (signed serial) (some w.retries.length) },
        [(netAddr, request.message)], []⟩
  else w.idle

def Wire.isIdle (w : Wire Args) : Bool :=
  (w.connectionState = .connected || w.connectionState = .disconnected) &&
    w.sendSerial = w.sendAckSerial && w.receiveBuffer.isEmpty

/-- With netAddr nil the state has changed when the retry's first send raises. -/
def Wire.disconnect (w : Wire Args) : Reaction Args :=
  if w.connectionState = .connected then
    match w.netAddr with
    | none => (w.prChangeConnectionState .disconnectRequested).idle
    | some netAddr =>
      (w.prChangeConnectionState .disconnectRequested).startRetry netAddr (.disconnect w.selfId)
  else w.idle

def Wire.prDropLine (w : Wire Args) : Reaction Args := { w with listening := false }.idle

def Wire.connectRequestOSCFunc (w : Wire Args) (ip returnPort responderId : Nat) : Reaction Args :=
  if w.connectionState.mayAccept then
    let returnAddr : NetAddr := ⟨ip, returnPort⟩
    { w.prChangeConnectionState .connectionAccepted with
      netAddr := some returnAddr
      selfId := some responderId }.startRetry returnAddr (.accept responderId w.id)
  else w.idle

/-- connectionRetry.stop on nil raises before anything is assigned. -/
def Wire.connectAcceptOSCFunc (w : Wire Args) (responderId initiatorId : Nat) : Reaction Args :=
  if responderId = w.id then
    match w.connectionRetry with
    | none => w.idle
    | some ref =>
      let wire := { w.stopRetry ref with selfId := some initiatorId }.prChangeConnectionState
        .connected
      ⟨wire, wire.sendTo (.wireConnectConfirm wire.selfId), []⟩
  else w.idle

def Wire.connectConfirmOSCFunc (w : Wire Args) (initiatorId : Option Nat) : Reaction Args :=
  if initiatorId = some w.id then
    match w.connectionRetry with
    | none => w.idle
    | some ref => ((w.stopRetry ref).prChangeConnectionState .connected).idle
  else w.idle

structure Inbox (Args : Type) where
  receiveSerial : Nat
  receiveBuffer : WrapArray Args
  received : List Args

def Inbox.waiting (b : Inbox Args) : Option Args :=
  b.receiveBuffer.wrapAtInt (signed (following b.receiveSerial))

def Inbox.pending (b : Inbox Args) : Bool := b.waiting.isSome

/-- At most `fuel` rounds of the while loop that drains buffered messages. -/
def Inbox.drain : Nat → Inbox Args → Inbox Args
  | 0, b => b
  | fuel + 1, b =>
    match b.waiting with
    | none => b
    | some messageArray =>
      let serial := following b.receiveSerial
      Inbox.drain fuel ⟨serial, b.receiveBuffer.wrapPutInt (signed serial) none,
        b.received ++ [messageArray]⟩

def Wire.accepting (w : Wire Args) (serial : Nat) (messageArray : Args) : Inbox Args :=
  Inbox.drain w.bufferSize ⟨serial, w.receiveBuffer, [messageArray]⟩

def Wire.sendOSCFunc (w : Wire Args) (senderId : Option Nat) (serial : Nat)
    (messageArray : Args) : Reaction Args :=
  if senderId = some w.id then
    let ack := w.sendTo (.wireAck w.selfId serial)
    if signed serial ≤ signed w.receiveSerial then ⟨w, ack, []⟩
    else if serial = following w.receiveSerial then
      let inbox := w.accepting serial messageArray
      ⟨{ w with receiveSerial := inbox.receiveSerial, receiveBuffer := inbox.receiveBuffer },
        ack, inbox.received⟩
    else
      ⟨{ w with receiveBuffer := w.receiveBuffer.wrapPutInt (signed serial) (some messageArray) },
        ack, []⟩
  else w.idle

def Wire.ackOSCFunc (w : Wire Args) (senderId : Option Nat) (serial : Nat) : Reaction Args :=
  if senderId = some w.id then
    if serial = following w.sendAckSerial then
      match w.sendBuffer.wrapAtInt (signed serial) with
      | none => { w with sendAckSerial := serial }.idle
      | some ref =>
        { w.stopRetry ref with
          sendAckSerial := serial
          sendBuffer := w.sendBuffer.wrapPutInt (signed serial) none }.idle
    else w.idle
  else w.idle

/-- The confirm is sent first: with netAddr nil it raises and the state stays. -/
def Wire.disconnectOSCFunc (w : Wire Args) (senderId : Option Nat) : Reaction Args :=
  if senderId = some w.id then
    match w.netAddr with
    | none => w.idle
    | some netAddr =>
      ⟨w.prChangeConnectionState .disconnected,
        [(netAddr, .wireDisconnectConfirm w.selfId)], []⟩
  else w.idle

def Wire.disconnectConfirmOSCFunc (w : Wire Args) (senderId : Option Nat) : Reaction Args :=
  if senderId = some w.id then
    match w.connectionRetry with
    | none => w.idle
    | some ref => ((w.stopRetry ref).prChangeConnectionState .disconnected).idle
  else w.idle

def Wire.keepGoing (w : Wire Args) : Request Args → Bool
  | .knock _ _ => w.connectionState = .knocking
  | .connect _ _ => w.connectionState = .connectionRequested
  | .accept _ _ => w.connectionState = .connectionAccepted
  | .send _ serial _ => signed w.sendAckSerial < signed serial
  | .disconnect _ => w.connectionState = .disconnectRequested

def Wire.retryFunction (w : Wire Args) (ref : Nat) : Reaction Args :=
  match w.retries[ref]? with
  | none => w.idle
  | some r =>
    if r.scheduled then
      if r.retries < r.maxRetries then
        if w.keepGoing r.request then
          ⟨w.setRetry ref { r with retries := r.retries + 1, nextTime := true },
            [(r.netAddr, r.request.message)], []⟩
        else (w.setRetry ref { r with nextTime := false, scheduled := false }).idle
      else
        ((w.prChangeConnectionState .failureTimeout).setRetry ref
          { r with nextTime := false, scheduled := false }).idle
    else w.idle

def Wire.receive (w : Wire Args) (ip : Nat) (packet : Packet Args) : Reaction Args :=
  if w.listening then
    match packet with
    | .wireKnock _ _ => w.idle
    | .wireConnectRequest returnPort responderId =>
      w.connectRequestOSCFunc ip returnPort responderId
    | .wireConnectAccept responderId initiatorId => w.connectAcceptOSCFunc responderId initiatorId
    | .wireConnectConfirm initiatorId => w.connectConfirmOSCFunc initiatorId
    | .wireSend senderId serial messageArray => w.sendOSCFunc senderId serial messageArray
    | .wireAck senderId serial => w.ackOSCFunc senderId serial
    | .wireDisconnect senderId => w.disconnectOSCFunc senderId
    | .wireDisconnectConfirm senderId => w.disconnectConfirmOSCFunc senderId
  else w.idle

/-- Calls from client code. `free` is disconnect followed by prDropLine. -/
inductive Call (Args : Type) where
  | knock (knockAddr : NetAddr)
  | connect (requestAddr : NetAddr)
  | sendMsg (args : Args)
  | disconnect
  | prDropLine

def Wire.call (w : Wire Args) : Call Args → Reaction Args
  | .knock knockAddr => w.knock knockAddr
  | .connect requestAddr => w.connect requestAddr
  | .sendMsg args => w.sendMsg args
  | .disconnect => w.disconnect
  | .prDropLine => w.prDropLine

inductive Stimulus (Args : Type) where
  | call (c : Call Args)
  | timer (ref : Nat)
  | packet (ip : Nat) (p : Packet Args)

def Wire.react (w : Wire Args) : Stimulus Args → Reaction Args
  | .call c => w.call c
  | .timer ref => w.retryFunction ref
  | .packet ip p => w.receive ip p

end SCLOrkWire
