import SCLOrkTools.Chat.Delivery

/- SCLOrkChat, the window over a client: the list of the users, what of it is selected, and what
   becomes of a text that is entered. The views are outside the sources. Of the list view there are
   the items and the selected rows, and of the field for a text what is entered in it. -/
namespace SCLOrkChat

inductive Shown where
  | system (contents : String)
  | received (message : ChatMessage)
  deriving DecidableEq

/-- `rebuilds` are the functions that prRebuildClientListView has left on AppClock, each with its
    clearFirst. `shown` is everything that has been put on chatMessageQueue. `listed` is history:
    the nameMap of the client when the list was last built, which no function reads. -/
structure Window where
  name : String
  asDirector : Bool
  chatClientConnected : Bool
  wedged : Bool
  items : List String
  selection : List Nat
  clientIdList : List Int
  rebuilds : List Bool
  sendType : String
  shown : List Shown
  listed : Names

def stripped (newName : String) : String :=
  .ofList (newName.toList.filter fun c => c ≠ ' ' ∧ c ≠ ',')

def Window.new (name : String) (asDirector : Bool) : Window where
  name := stripped name
  asDirector := asDirector
  chatClientConnected := false
  wedged := false
  items := []
  selection := []
  clientIdList := []
  rebuilds := []
  sendType := "plain"
  shown := []
  listed := ∅

def Window.enqueue (w : Window) (contents : String) : Window :=
  { w with shown := w.shown ++ [.system contents] }

section Lists

/-- `order` is the order into which the pairs are sorted by their names. -/
def Window.rebuild (w : Window) (nameMap : Names) (clearFirst : Bool) (order : List Int) :
    Window :=
  let selection := if clearFirst then [] else w.selection
  let selectedUserIds := selection.filterMap (w.clientIdList[·]?)
  { w with
    items := order.filterMap nameMap.lookup
    clientIdList := order
    selection := (List.range order.length).filter fun row =>
      order[row]?.any (· ∈ selectedUserIds)
    listed := nameMap }

/-- Users with one name may stand in either order. -/
def Sorts (nameMap : Names) (order : List Int) : Prop :=
  order.Perm nameMap.keys ∧ (order.filterMap nameMap.lookup).Pairwise (· ≤ ·)

instance (nameMap : Names) (order : List Int) : Decidable (Sorts nameMap order) :=
  inferInstanceAs (Decidable (_ ∧ _))

/-- What the list view can tell to be selected: rows that it has, each once. It is assumed to
    tell them from the top down. -/
def Window.Selects (w : Window) (rows : List Nat) : Prop :=
  rows.Pairwise (· < ·) ∧ ∀ row ∈ rows, row < w.items.length

instance (w : Window) (rows : List Nat) : Decidable (w.Selects rows) :=
  inferInstanceAs (Decidable (_ ∧ _))

/-- The recipients if none are named. A row beyond clientIdList would be nil. -/
def Window.recipientIds (w : Window) : List (Option Int) :=
  if w.selection.length = 0 then [some 0] else w.selection.map (w.clientIdList[·]?)

end Lists

section Callbacks

/-- The arguments of onUserChanged after the id, if the change is announced. -/
def Client.announces (c : Client) : List Arg → Option (String × String × Option String)
  | [.int serial, .string changeType, .int id, .string userName] =>
    if serial > c.messageSerial then
      match changeType with
      | "add" => if c.userId = some (.int id) then none else some (changeType, userName, none)
      | "remove" =>
        if (c.nameMap.lookup id).isSome then some (changeType, userName, none) else none
      | "rename" => some (changeType, userName, c.nameMap.lookup id)
      | "timeout" => some (changeType, userName, none)
      | _ => none
    else none
  | _ => none

def Window.onConnected (w : Window) (isConnected : Bool) : Window :=
  if isConnected then
    { { w with chatClientConnected := true }.enqueue "Connected to server." with
      rebuilds := w.rebuilds ++ [true] }
  else { w with chatClientConnected := false }.enqueue "Disconnected from server."

def Window.onUserChanged (w : Window) (changeType name : String) (oldName : Option String) :
    Window :=
  let w := { w with rebuilds := w.rebuilds ++ [false] }
  match changeType with
  | "add" => w.enqueue (name ++ " signed in.")
  | "remove" => w.enqueue (name ++ " signed out.")
  | "rename" => w.enqueue (oldName.getD "nil" ++ " now known as " ++ name)
  | "timeout" => w.enqueue (name ++ " timed out.")
  | _ => w

def Window.hear (w : Window) (c : Client) (p : Packet) : Window :=
  match p.path with
  | "/chatSetAllClients" => w.onConnected true
  | "/chatChangeClient" =>
    match c.announces p.args with
    | some (changeType, name, oldName) => w.onUserChanged changeType name oldName
    | none => w
  | "/chatReceive" =>
    { w with shown := w.shown ++ (c.onMessageReceived p.args).toList.map .received }
  | _ => w

end Callbacks

section Texts

/-- The characters of a string from `first` to `last`. `backwards` is what the language makes of
    them where they are not in this order or not all in the string. -/
def slice (backwards : String → Nat → Nat → String) (s : String) (first last : Nat) : String :=
  if first ≤ last ∧ last < s.length then
    .ofList ((s.toList.drop first).take (last + 1 - first))
  else backwards s first last

def firstSpace (s : String) : Nat := s.toList.findIdx (· = ' ')

structure Outgoing where
  recipientIds : List (Option Int)
  type : String
  contents : String
  deriving DecidableEq

/-- What a text asks for: a message, a new name, nothing further, or it raises an error in the
    middle of the action. -/
inductive Action where
  | send (recipientIds : Option (List Int)) (type contents : String)
  | rename (newName : String)
  | done
  | raises
  deriving DecidableEq

variable (backwards : String → Nat → Nat → String)

def afterSpace (s : String) : String := slice backwards s (firstSpace s + 1) (s.length - 1)

def atName (s : String) : String := slice backwards s 1 (firstSpace s - 1)

def commands : String :=
  "Supported commands:\n" ++
  "@<name> send a private message to <name>\n" ++
  "/code <code string>\n" ++
  "/name <new name>\n" ++
  "/plain <plain string>\n" ++
  "/quit"

/-- `order` is the order in which keysValuesDo meets the users. -/
def namedIds (nameMap : Names) (order : List Int) (name : String) : List Int :=
  order.filter fun id => nameMap.lookup id = some name

def Window.privately (w : Window) (nameMap : Names) (order : List Int) (s : String) :
    Window × Action :=
  match namedIds nameMap order (atName backwards s) with
  | [] => (w.enqueue ("User named '" ++ atName backwards s ++ "' not found."), .done)
  | atIds => (w, .send (some atIds) w.sendType (afterSpace backwards s))

/-- A text that begins with /. No class has the methods prForceTimeout and prUnwedge. -/
def Window.command (w : Window) (s : String) : Window × Action :=
  match slice backwards s 0 (firstSpace s - 1) with
  | "/code" => (w, .send none "code" (afterSpace backwards s))
  | "/wedge" => ({ w with wedged := true }, .raises)
  | "/unwedge" => (w, .raises)
  | "/name" =>
    let newName := afterSpace backwards s
    if newName.length > 0 then (w, .rename newName) else (w, .done)
  | "/plain" => (w, .send none "plain" (afterSpace backwards s))
  | "/quit" => (w, .done)
  | "/shout" =>
    (w, .send none (if w.asDirector then "shout" else w.sendType) (afterSpace backwards s))
  | _ => (w.enqueue commands, .done)

def Window.asks (w : Window) (nameMap : Names) (order : List Int) (s : String) :
    Window × Action :=
  match s.toList.head? with
  | some '@' => w.privately backwards nameMap order s
  | some '/' => w.command backwards s
  | _ => (w, .send none w.sendType s)

/-- The last part of the action, for what is no command. -/
def Window.sends (w : Window) (recipientIds : Option (List Int)) (type contents : String) :
    Window × Option Outgoing :=
  if w.chatClientConnected then
    ({ w with sendType := "plain" },
      some ⟨(recipientIds.map (·.map some)).getD w.recipientIds, type, contents⟩)
  else (w.enqueue "not connected.", none)

end Texts

section Desks

/-- A window, and its client among the other users. -/
structure Desk where
  chat : Chat
  window : Window

inductive DeskEvent where
  | world (e : Event)
  | connect
  | connectFails
  | rebuild (order : List Int)
  | select (rows : List Nat)
  | clearSelection
  | chooseType (type : String)
  | enter (s : String) (order : List Int)

def Event.ofOthers : Event → Bool
  | .command _ _ | .lose | .poll | .serve _ | .hear => true
  | .connect _ | .disconnect | .rename _ | .sendMessage _ _ _ => false

def Window.observes (w : Window) (chat : Chat) : Event → Window
  | .hear =>
    match chat.replies.head? with
    | some (.packet p) => w.hear chat.client p
    | _ => w
  | _ => w

def Window.types (w : Window) : List String :=
  if w.asDirector then ["plain", "code", "shout"] else ["plain", "code"]

def Window.prUpdateName (w : Window) (newName : String) : Window :=
  { w with name := stripped newName }

def idArg (id : Option Int) : Arg := id.elim (.other 'N') .int

def Outgoing.packet (o : Outgoing) (c : Client) : Packet :=
  ⟨"/chatSendMessage", [c.userIdArg, .string o.type, .string o.contents] ++
    o.recipientIds.map idArg⟩

/-- The action of reconnectButton. A window that is wedged raises an error instead. -/
def Desk.connect (d : Desk) : Option Desk :=
  if d.window.wedged then some { d with window := { d.window with wedged := false } }
  else if d.chat.client.connected then
    some { d with window := d.window.enqueue "You are already connected." }
  else (d.chat.step (.connect d.window.name)).map fun chat => { d with chat := chat }

def Desk.enter (backwards : String → Nat → Nat → String) (d : Desk) (s : String)
    (order : List Int) : Desk :=
  match d.window.asks backwards d.chat.client.nameMap order s with
  | (window, .send recipientIds type contents) =>
    match window.sends recipientIds type contents with
    | (window, some o) => ⟨d.chat.send (o.packet d.chat.client), window⟩
    | (window, none) => { d with window := window }
  | (window, .rename newName) =>
    let window := window.prUpdateName newName
    ⟨d.chat.send ⟨"/chatChangeName", [d.chat.client.userIdArg, .string window.name]⟩, window⟩
  | (window, .done) | (window, .raises) => { d with window := window }

def Desk.step (backwards : String → Nat → Nat → String) (d : Desk) : DeskEvent → Option Desk
  | .world e =>
    if e.ofOthers then (d.chat.step e).map fun chat => ⟨chat, d.window.observes d.chat e⟩
    else none
  | .connect => d.connect
  | .connectFails =>
    if d.chat.client.connected then none
    else some { d with window := d.window.onConnected false }
  | .rebuild order =>
    match d.window.rebuilds with
    | [] => none
    | clearFirst :: rest =>
      if Sorts d.chat.client.nameMap order then
        some { d with
          window := { d.window with rebuilds := rest }.rebuild d.chat.client.nameMap clearFirst
            order }
      else none
  | .select rows =>
    if d.window.Selects rows then
      some { d with window := { d.window with selection := rows } }
    else none
  | .clearSelection => some { d with window := { d.window with selection := [] } }
  | .chooseType type =>
    if type ∈ d.window.types then
      some { d with window := { d.window with sendType := type } }
    else none
  | .enter s order =>
    if order.Perm d.chat.client.nameMap.keys then some (d.enter backwards s order) else none

def Desk.new (timeout maxMessagesPerRequest : Int) (name : String) (asDirector : Bool) : Desk :=
  ⟨Chat.new timeout maxMessagesPerRequest, Window.new name asDirector⟩

end Desks

end SCLOrkChat
