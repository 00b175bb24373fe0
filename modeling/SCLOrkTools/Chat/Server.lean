import Mathlib.Data.List.AList
import SCLOrkTools.Library.GuardedRun
import SCLOrkTools.Library.Ring

/- The chat server of confab, one OSC command at a time. `int` arithmetic is exact and a
   result outside the 32 bits is a fault, as are an index outside an array and a read of a
   slot nothing was written to. -/
namespace SCLOrkChat
open RingBuffer

/-- An OSC argument. Only the type of those the server has no use for is kept. -/
inductive Arg where
  | int (value : Int)
  | string (value : String)
  | other (type : Char)
  deriving DecidableEq, Repr

structure Packet where
  path : String
  args : List Arg
  deriving DecidableEq, Repr

inductive ChatCommands where
  | kSignIn | kGetAllClients | kGetMessages | kSendMessage | kChangeName | kSignOut | kNotFound
  deriving DecidableEq, Repr

def getCommandNamed (name : String) : ChatCommands :=
  match name with
  | "/chatSignIn" => .kSignIn
  | "/chatGetAllClients" => .kGetAllClients
  | "/chatGetMessages" => .kGetMessages
  | "/chatSendMessage" => .kSendMessage
  | "/chatChangeName" => .kChangeName
  | "/chatSignOut" => .kSignOut
  | _ => .kNotFound

/-- An lo_message. The handle tells apart what different calls of lo_message_new return. -/
structure Message where
  handle : Nat
  args : List Arg
  deriving DecidableEq, Repr

structure Entry where
  path : String
  message : Message
  deriving DecidableEq, Repr

def Entry.packet (e : Entry) : Packet := ⟨e.path, e.message.args⟩

abbrev Names := AList fun _ : Int => String
abbrev Pings := AList fun _ : Int => Int

inductive Fault where
  | overflow | badIndex | uninitialised
  deriving DecidableEq, Repr

def int32Max : Int := 2147483647
def int32Min : Int := -2147483648

def int32 (i : Int) : Except Fault Int :=
  if int32Min ≤ i ∧ i ≤ int32Max then .ok i else .error .overflow

def kMessageArraySize : Nat := 128

/-- m_paths and m_messages are written together, at one index, and stand here as one array.
    `allocated` counts the calls of lo_message_new and `freed` lists those of
    lo_message_free. `log` is history: every call of queueMessage, which no handler reads. -/
structure Server where
  timeout : Int
  maxMessagesPerRequest : Int
  userSerial : Int
  nameMap : Names
  clientPings : Pings
  messageSerial : Int
  slots : WrapArray Entry
  allocated : Nat
  freed : List Nat
  log : List Entry

def Server.new (timeout maxMessagesPerRequest : Int) : Server where
  timeout := timeout
  maxMessagesPerRequest := maxMessagesPerRequest
  userSerial := 0
  nameMap := ∅
  clientPings := ∅
  messageSerial := 0
  slots := WrapArray.clear kMessageArraySize
  allocated := 0
  freed := []
  log := []

def Server.messageNew (s : Server) : Server := { s with allocated := s.allocated + 1 }
def Server.messageFree (s : Server) (m : Message) : Server :=
  { s with freed := s.freed ++ [m.handle] }

/-- `%` truncates, so a negative serial has a negative remainder. -/
def slotOf (serial : Int) : Except Fault Nat :=
  let index := serial.tmod kMessageArraySize
  if 0 ≤ index ∧ index < kMessageArraySize then .ok index.toNat else .error .badIndex

def Server.slotAt (s : Server) (index : Nat) : Except Fault Entry :=
  match s.slots.wrapAt index with
  | some entry => .ok entry
  | none => .error .uninitialised

def Server.freeSlot (s : Server) (index : Nat) : Except Fault Server :=
  if s.messageSerial > kMessageArraySize then do
    let old ← s.slotAt index
    return s.messageFree old.message
  else return s

def Server.queueMessage (s : Server) (path : String) (message : Message) : Except Fault Server := do
  let index ← slotOf s.messageSerial
  let s ← s.freeSlot index
  let serial ← int32 (s.messageSerial + 1)
  return { s with
    slots := s.slots.wrapPut index (some ⟨path, message⟩)
    messageSerial := serial
    log := s.log ++ [⟨path, message⟩] }

def changeClient (serial : Int) (type : String) (userID : Int) (name : String) : List Arg :=
  [.int serial, .string type, .int userID, .string name]

def Server.queueChange (s : Server) (type : String) (userID : Int) (name : String) :
    Except Fault Server :=
  s.messageNew.queueMessage "/chatChangeClient"
    ⟨s.allocated, changeClient s.messageSerial type userID name⟩

/-- A handler returns the server it leaves and the packets it sends to the address the
    command came from. -/
def Server.signIn (s : Server) : List Arg → Except Fault (Server × List Packet)
  | [.string name] => do
    let userID ← int32 (s.userSerial + 1)
    let s := { s with userSerial := userID, nameMap := s.nameMap.insert userID name }
    let s ← s.queueChange "add" userID name
    return (s, [⟨"/chatSignInComplete", [.int userID]⟩])
  | _ => return (s, [])

/-- `order` is the order in which the loop over m_nameMap meets its keys. -/
def Server.clientNames (s : Server) (order : List Int) : List Arg :=
  order.flatMap fun userID =>
    match s.nameMap.lookup userID with
    | some name => [.int userID, .string name]
    | none => []

def Server.getAllClients (s : Server) (order : List Int) : Except Fault (Server × List Packet) :=
  .ok (s.messageNew.messageFree ⟨s.allocated, s.clientNames order⟩,
    [⟨"/chatSetAllClients", s.clientNames order⟩])

/-- The messageID a request is answered from, once it is truncated. -/
def Server.truncate (s : Server) (messageID : Int) : Except Fault Int := do
  let behind ← int32 (s.messageSerial - messageID)
  if behind > s.maxMessagesPerRequest then
    let kept ← int32 (s.messageSerial - s.maxMessagesPerRequest)
    let last ← int32 (kept - 1)
    return max 0 last
  else return messageID

def Server.messageAt (s : Server) (i : Int) : Except Fault Packet := do
  let index ← slotOf i
  let entry ← s.slotAt index
  return entry.packet

def Server.messagesAfter (s : Server) (messageID : Int) : Except Fault (List Packet) := do
  let first ← int32 (messageID + 1)
  (List.range (s.messageSerial - first).toNat).mapM fun (k : Nat) => s.messageAt (first + k)

/-- One turn of the sweep. Erasing keeps the order of the elements it leaves. -/
def Server.sweepOne (s : Server) (cutTime userID : Int) : Except Fault Server :=
  match s.clientPings.lookup userID with
  | none => .ok s
  | some ping =>
    if ping ≤ cutTime then do
      let s ← match s.nameMap.lookup userID with
        | some name => do
          let s ← s.queueChange "timeout" userID name
          pure { s with nameMap := s.nameMap.erase userID }
        | none => pure s
      return { s with clientPings := s.clientPings.erase userID }
    else .ok s

def Server.sweep (s : Server) (cutTime : Int) (order : List Int) : Except Fault Server :=
  order.foldlM (fun s userID => s.sweepOne cutTime userID) s

def Server.ping (s : Server) (userID now : Int) : Server :=
  { s with clientPings := s.clientPings.insert userID now }

/-- `order` is the order in which the loop over m_clientPings meets its keys. -/
def Server.getMessages (s : Server) (now : Int) (order : List Int) :
    List Arg → Except Fault (Server × List Packet)
  | [.int userID, .int messageID] => do
    let messageID ← s.truncate messageID
    let sent ← s.messagesAfter messageID
    let s ← (s.ping userID now).sweep (now - s.timeout) order
    return (s, sent)
  | _ => return (s, [])

def Arg.supported : Arg → Bool
  | .int _ | .string _ => true
  | .other _ => false

/-- An argument of another type abandons the message that was being built. -/
def Server.sendMessage (s : Server) (args : List Arg) : Except Fault (Server × List Packet) := do
  if args.all Arg.supported then
    let s ← s.messageNew.queueMessage "/chatReceive" ⟨s.allocated, .int s.messageSerial :: args⟩
    return (s, [])
  else return (s.messageNew, [])

def Server.changeName (s : Server) : List Arg → Except Fault (Server × List Packet)
  | [.int userID, .string name] => do
    let s := { s with nameMap := s.nameMap.insert userID name }
    let s ← s.queueChange "rename" userID name
    return (s, [])
  | _ => return (s, [])

def Server.signOut (s : Server) : List Arg → Except Fault (Server × List Packet)
  | [.int userID] =>
    match s.nameMap.lookup userID with
    | none => .ok (s, [])
    | some name => do
      let s ← s.queueChange "remove" userID name
      return ({ s with nameMap := s.nameMap.erase userID }, [])
  | _ => return (s, [])

/-- What a command finds besides the server: the time, and the order in which the hash map
    that it walks happens to keep its keys. -/
structure Moment where
  now : Int
  order : List Int
  deriving DecidableEq, Repr

def Server.handleMessage (s : Server) (p : Packet) (m : Moment) :
    Except Fault (Server × List Packet) :=
  match getCommandNamed p.path with
  | .kSignIn => s.signIn p.args
  | .kGetAllClients => s.getAllClients m.order
  | .kGetMessages => s.getMessages m.now m.order p.args
  | .kSendMessage => s.sendMessage p.args
  | .kChangeName => s.changeName p.args
  | .kSignOut => s.signOut p.args
  | .kNotFound => .ok (s, [])

def Server.walked (s : Server) (p : Packet) (m : Moment) : List Int :=
  match getCommandNamed p.path, p.args with
  | .kGetAllClients, _ => s.nameMap.keys
  | .kGetMessages, [.int userID, .int _] => (s.ping userID m.now).clientPings.keys
  | _, _ => []

/-- A command that faults has no successor. -/
def Server.step (s : Server) (c : Packet × Moment) : Option Server :=
  if c.2.order.Perm (s.walked c.1 c.2) then
    match s.handleMessage c.1 c.2 with
    | .ok (next, _) => some next
    | .error _ => none
  else none

def Server.run (s : Server) (cs : List (Packet × Moment)) : Option Server :=
  GuardedRun.run Server.step s cs

end SCLOrkChat
