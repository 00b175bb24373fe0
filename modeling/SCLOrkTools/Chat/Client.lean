import SCLOrkTools.Chat.Server

/- SCLOrkChatClient, and one client connected to the server over TCP while any number of
   other users send it commands. The callbacks are code of the client's user and are left
   out; a chat message therefore only moves the cursor. -/
namespace SCLOrkChat

/-- An instance variable is nil until it is set. `connected` is netAddr.isConnected and
    `polling` whether pollTask runs. -/
structure Client where
  connected : Bool
  polling : Bool
  userId : Option Arg
  messageSerial : Int
  nameMap : Names

def Client.new : Client where
  connected := false
  polling := false
  userId := none
  messageSerial := 0
  nameMap := ∅

/-- nil goes over OSC as an argument of type N. -/
def Client.userIdArg (c : Client) : Arg := c.userId.getD (.other 'N')

def Client.signInComplete (c : Client) (args : List Arg) : Client :=
  { c with userId := args.head? }

def putPairs (names : Names) : List Arg → Names
  | .int userId :: .string name :: rest => putPairs (names.insert userId name) rest
  | _ => names

def Client.setAllClients (c : Client) (args : List Arg) : Client :=
  { c with nameMap := putPairs ∅ args, polling := true }

def Client.applyChange (c : Client) (changeType : String) (id : Int) (userName : String) : Client :=
  match changeType with
  | "add" => { c with nameMap := c.nameMap.insert id userName }
  | "remove" =>
    if (c.nameMap.lookup id).isSome then { c with nameMap := c.nameMap.erase id } else c
  | "rename" => { c with nameMap := c.nameMap.insert id userName }
  | "timeout" => { c with nameMap := c.nameMap.erase id }
  | _ => c

def Client.changeClient (c : Client) : List Arg → Client
  | [.int serial, .string changeType, .int id, .string userName] =>
    if serial > c.messageSerial then
      { c with messageSerial := serial }.applyChange changeType id userName
    else c
  | _ => c

def Client.chatReceive (c : Client) : List Arg → Client
  | .int serial :: _ => if serial > c.messageSerial then { c with messageSerial := serial } else c
  | _ => c

def Client.receive (c : Client) (p : Packet) : Client × List Packet :=
  match p.path with
  | "/chatSignInComplete" => (c.signInComplete p.args, [⟨"/chatGetAllClients", []⟩])
  | "/chatSetAllClients" => (c.setAllClients p.args, [])
  | "/chatChangeClient" => (c.changeClient p.args, [])
  | "/chatReceive" => (c.chatReceive p.args, [])
  | _ => (c, [])

/-- What the server has sent the client. `complete` is no packet: it marks the end of the
    reply to a poll and carries m_nameMap as it stood when that reply was built. -/
inductive Delivery where
  | packet (p : Packet)
  | complete (nameMap : Names)

/-- `seen` is history: the users and the number of messages logged when the server last
    built a reply to this client's /chatGetAllClients or to one of its polls since. -/
structure Chat where
  server : Server
  client : Client
  requests : List Packet
  replies : List Delivery
  seen : Option (Names × Nat)

def Chat.new (timeout maxMessagesPerRequest : Int) : Chat where
  server := Server.new timeout maxMessagesPerRequest
  client := Client.new
  requests := []
  replies := []
  seen := none

/-- `command` is any command of any other user and `poll` a tick of pollTask. A connection
    that closes takes its replies with it; what it still carries to the server, the
    /chatSignOut of disconnect included, counts among the commands of other users. -/
inductive Event where
  | command (p : Packet) (m : Moment)
  | connect (clientName : String)
  | disconnect
  | lose
  | poll
  | rename (newName : String)
  | sendMessage (type contents : String) (recipientIds : List Int)
  | serve (m : Moment)
  | hear

def Chat.send (w : Chat) (p : Packet) : Chat :=
  if w.client.connected then { w with requests := w.requests ++ [p] } else w

def Chat.close (w : Chat) (client : Client) : Chat :=
  { w with
    client := { client with connected := false }
    requests := []
    replies := []
    seen := none }

def Packet.isGetAllClients (p : Packet) : Bool := getCommandNamed p.path = .kGetAllClients

def Packet.polled (p : Packet) : Option Int :=
  match getCommandNamed p.path, p.args with
  | .kGetMessages, [.int _, .int messageID] => some messageID
  | _, _ => none

def Chat.answered (w : Chat) (p : Packet) (server : Server) (sent : List Packet) : Chat :=
  let counted := p.polled.isSome && w.seen.isSome
  { w with
    server := server
    requests := w.requests.tail
    replies := w.replies ++ sent.map .packet ++
      if counted then [.complete w.server.nameMap] else []
    seen := if p.isGetAllClients || counted then some (w.server.nameMap, w.server.log.length)
      else w.seen }

def Chat.step (w : Chat) : Event → Option Chat
  | .command p m => (w.server.step (p, m)).map fun server => { w with server := server }
  | .connect clientName =>
    if w.client.connected then none
    else some { w.close w.client with
      client := { w.client with connected := true }
      requests := [⟨"/chatSignIn", [.string clientName]⟩] }
  | .disconnect => some (w.close { w.client with polling := false })
  | .lose => some (w.close w.client)
  | .poll =>
    if w.client.polling then
      some (w.send ⟨"/chatGetMessages", [w.client.userIdArg, .int w.client.messageSerial]⟩)
    else none
  | .rename newName => some (w.send ⟨"/chatChangeName", [w.client.userIdArg, .string newName]⟩)
  | .sendMessage type contents recipientIds =>
    some (w.send ⟨"/chatSendMessage", [w.client.userIdArg, .string type, .string contents] ++
      recipientIds.map .int⟩)
  | .serve m =>
    w.requests.head?.bind fun p =>
      if m.order.Perm (w.server.walked p m) then
        match w.server.handleMessage p m with
        | .ok (server, sent) => some (w.answered p server sent)
        | .error _ => none
      else none
  | .hear =>
    match w.replies with
    | [] => none
    | .complete _ :: rest => some { w with replies := rest }
    | .packet p :: rest =>
      some { w with
        client := (w.client.receive p).1
        replies := rest
        requests := w.requests ++ (w.client.receive p).2 }

def Chat.run (w : Chat) (es : List Event) : Option Chat := GuardedRun.run Chat.step w es

end SCLOrkChat
