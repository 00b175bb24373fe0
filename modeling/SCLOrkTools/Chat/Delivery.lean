import SCLOrkTools.Chat.Reconnect

/- The chat messages that the client hands to its user, against those that the server has
   queued. A session is what happens from one sign-in to the next. -/
namespace SCLOrkChat
open GuardedRun

structure Letter where
  senderId : Option Arg
  recipientIds : List Arg
  type : Option Arg
  contents : Option Arg
  isEcho : Bool
  deriving DecidableEq

/-- The names are those that the client knows when the message arrives. -/
structure ChatMessage extends Letter where
  senderName : Option String
  recipientNames : Option (List (Option String))
  deriving DecidableEq

def Client.nameAt (c : Client) : Option Arg → Option String
  | some (.int userId) => c.nameMap.lookup userId
  | _ => none

def Client.onMessageReceived (c : Client) : List Arg → Option ChatMessage
  | .int serial :: msg =>
    if serial > c.messageSerial then
      let senderId := msg[0]?
      let recipients := msg.drop 3
      let isEcho := decide (senderId = c.userId)
      let broadcast := decide (recipients.head? = some (.int 0))
      if broadcast ∨ isEcho ∨ c.userId ∈ recipients.map some then
        some {
          senderId := senderId
          recipientIds := recipients
          type := msg[1]?
          contents := msg[2]?
          isEcho := isEcho
          senderName := c.nameAt senderId
          recipientNames :=
            if broadcast then none else some (recipients.map fun id => c.nameAt (some id)) }
      else none
    else none
  | _ => none

def Client.hands (c : Client) (p : Packet) : List ChatMessage :=
  if p.path = "/chatReceive" then (c.onMessageReceived p.args).toList else []

/-- A mark between the packets hands over nothing. -/
def Client.handsOne (c : Client) : Delivery → List ChatMessage
  | .packet p => c.hands p
  | .complete _ => []

/-- What all that is on the way will make the client hand over. -/
def Client.handsAll : Client → List Delivery → List ChatMessage
  | _, [] => []
  | c, d :: q => c.handsOne d ++ handsAll (c.hear d) q

def Chat.hands (w : Chat) : Event → List ChatMessage
  | .hear => w.replies.head?.toList.flatMap w.client.handsOne
  | _ => []

def Chat.answers (w : Chat) : Event → Option Nat
  | .serve _ => (w.requests.head?.bind Packet.polled).map fun _ => w.server.log.length
  | _ => none

/-- A client with the messages that it has handed over, and the number of messages that had been
    queued at the last poll which the server answered. -/
structure Conversation where
  chat : Chat
  messages : List ChatMessage
  queued : Option Nat

def Conversation.start (w : Chat) : Conversation := ⟨w, [], none⟩

def Conversation.step (v : Conversation) (e : Event) : Option Conversation :=
  (v.chat.step e).map fun chat =>
    ⟨chat, v.messages ++ v.chat.hands e, (v.chat.answers e).or v.queued⟩

def Conversation.run (v : Conversation) (es : List Event) : Option Conversation :=
  GuardedRun.run Conversation.step v es

/-- What a queued message is to the user u, if it concerns u at all: it is sent to everyone, by u,
    or to u among others. -/
def Entry.letter (u : Int) (e : Entry) : Option Letter :=
  if e.path = "/chatReceive" then
    let msg := e.message.args.tail
    let recipients := msg.drop 3
    if recipients.head? = some (.int 0) ∨ msg[0]? = some (.int u) ∨ .int u ∈ recipients then
      some ⟨msg[0]?, recipients, msg[1]?, msg[2]?, msg[0]? = some (.int u)⟩
    else none
  else none

def letters (u : Int) (es : List Entry) : List Letter := es.filterMap (Entry.letter u)

def Server.window (s : Server) (a b : Nat) : List Entry := (s.log.take b).drop a

def Client.position (c : Client) : Nat := c.messageSerial.toNat + 1

/-- The client is signed in as u, and no answer to a sign-in is outstanding. -/
structure Chat.SignedIn (u : Int) (w : Chat) : Prop where
  connected : w.client.connected = true
  userId : w.client.userId = some (.int u)
  asked : ∀ p ∈ w.requests, getCommandNamed p.path ≠ .kSignIn
  welcomed : ∀ p, Delivery.packet p ∈ w.replies → p.path ≠ "/chatSignInComplete"

def Event.leaves : Event → Bool
  | .disconnect | .lose => true
  | _ => false

/-- The reply to a poll passes over no message that concerns u. -/
def Chat.Spares (u : Int) (w : Chat) : Event → Prop
  | .serve _ => ∀ p ∈ w.requests.head?, ∀ messageID ∈ p.polled,
      letters u (w.server.window w.caughtUp.position (w.server.replyStart messageID)) = []
  | _ => True

/-- What is told is part of what there is to tell, in its order, and in a fair run all of it. -/
def Carries (fair : Prop) (told all : List Letter) : Prop :=
  told.Sublist all ∧ (fair → told = all)

theorem carries_append {fair : Prop} {xs ys xs' ys' : List Letter} (front : Carries fair xs ys)
    (back : Carries fair xs' ys') : Carries fair (xs ++ xs') (ys ++ ys') :=
  ⟨front.1.append back.1, fun even => by rw [front.2 even, back.2 even]⟩

theorem carries_gap {fair : Prop} {xs ys zs : List Letter} (carries : Carries fair xs ys)
    (gap : fair → zs = []) : Carries fair xs (ys ++ zs) := by
  refine ⟨carries.1.trans (List.sublist_append_left ys zs), fun even => ?_⟩
  rw [gap even, List.append_nil]
  exact carries.2 even

theorem letters_append (u : Int) (xs ys : List Entry) :
    letters u (xs ++ ys) = letters u xs ++ letters u ys := List.filterMap_append

section Windows
variable {s : Server}

theorem window_empty {a b : Nat} (order : b ≤ a) : s.window a b = [] :=
  List.drop_eq_nil_of_le ((List.length_take_le b s.log).trans order)

theorem window_split {a b c : Nat} (front : a ≤ b) (back : b ≤ c) :
    s.window a c = s.window a b ++ s.window b c := by
  simp only [Server.window, List.drop_take]
  rw [show c - a = b - a + (c - b) by omega, List.take_add, List.drop_drop,
    show a + (b - a) = b by omega]

theorem window_one {n : Nat} (below : n < s.log.length) : s.window n (n + 1) = [s.log[n]] := by
  rw [Server.window, List.drop_take, Nat.add_sub_cancel_left, List.drop_eq_getElem_cons below]
  rfl

theorem window_extend {t : Server} (extended : s.log <+: t.log) {a b : Nat} (begun : 1 ≤ a)
    (inside : b ≤ max 1 s.log.length) : t.window a b = s.window a b := by
  obtain ⟨newer, same⟩ := extended
  by_cases within : b ≤ s.log.length
  · unfold Server.window
    rw [← same, List.take_append_of_le_length within]
  · rw [window_empty (show b ≤ a by omega), window_empty (show b ≤ a by omega)]

end Windows

/-- Wherever the client stands among the deliveries, it has been told what there was to tell from
    position a on. -/
def Telling (u : Int) (fair : Prop) (a : Nat) (s : Server) : List Letter → Client →
    List Delivery → Prop
  | told, c, [] => Carries fair told (letters u (s.window a c.position))
  | told, c, d :: q => Carries fair told (letters u (s.window a c.position)) ∧
      Telling u fair a s (told ++ (c.handsOne d).map ChatMessage.toLetter) (c.hear d) q

section Telling
variable {u : Int} {fair : Prop} {a : Nat} {s : Server} {told : List Letter} {c : Client}

theorem telling_now {q : List Delivery} (telling : Telling u fair a s told c q) :
    Carries fair told (letters u (s.window a c.position)) := by
  cases q with
  | nil => exact telling
  | cons d q => exact telling.1

theorem telling_append {xs ys : List Delivery} : Telling u fair a s told c (xs ++ ys) ↔
    Telling u fair a s told c xs ∧
      Telling u fair a s (told ++ (c.handsAll xs).map ChatMessage.toLetter) (c.hearAll xs) ys := by
  induction xs generalizing told c with
  | nil =>
    constructor
    · intro telling
      exact ⟨telling_now telling, by simpa [Client.handsAll, Client.hearAll] using telling⟩
    · rintro ⟨-, telling⟩
      simpa [Client.handsAll, Client.hearAll] using telling
  | cons d xs ih =>
    rw [Client.handsAll, List.map_append, ← List.append_assoc]
    exact (and_congr_right fun _ => ih).trans and_assoc.symm

end Telling

theorem applyChange_kept (c : Client) (changeType : String) (id : Int) (userName : String) :
    (c.applyChange changeType id userName).userId = c.userId ∧
      (c.applyChange changeType id userName).connected = c.connected := by
  unfold Client.applyChange
  split <;> try exact ⟨rfl, rfl⟩
  split <;> exact ⟨rfl, rfl⟩

theorem receive_kept (c : Client) {p : Packet} (path : p.path ≠ "/chatSignInComplete") :
    (c.receive p).1.userId = c.userId ∧ (c.receive p).1.connected = c.connected ∧
      (c.receive p).2 = [] := by
  unfold Client.receive
  split
  · rename_i welcome
    exact absurd welcome path
  · exact ⟨rfl, rfl, rfl⟩
  · unfold Client.changeClient
    split
    · rename_i serial changeType id userName _
      split
      · obtain ⟨user, open'⟩ := applyChange_kept { c with messageSerial := serial } changeType id
          userName
        exact ⟨user, open', rfl⟩
      · exact ⟨rfl, rfl, rfl⟩
    · exact ⟨rfl, rfl, rfl⟩
  · unfold Client.chatReceive
    split
    · split <;> exact ⟨rfl, rfl, rfl⟩
    · exact ⟨rfl, rfl, rfl⟩
  · exact ⟨rfl, rfl, rfl⟩

theorem hearAll_userId {q : List Delivery} (c : Client)
    (welcomed : ∀ p, Delivery.packet p ∈ q → p.path ≠ "/chatSignInComplete") :
    (c.hearAll q).userId = c.userId := by
  induction q generalizing c with
  | nil => rfl
  | cons d q ih =>
    have rest := ih (c.hear d) fun p mem => welcomed p (List.mem_cons_of_mem d mem)
    refine rest.trans ?_
    cases d with
    | packet p => exact (receive_kept c (welcomed p List.mem_cons_self)).1
    | complete names => rfl

theorem told_path {i : Int} {e : Entry} (told : Told i e) :
    e.packet.path ≠ "/chatSignInComplete" := by
  cases told <;> simp [Entry.packet]

theorem position_lt {c : Client} (start : 0 ≤ c.messageSerial) {n : Nat} :
    c.messageSerial < n ↔ c.position ≤ n := by
  simp only [Client.position]
  omega

theorem hands_stale {c : Client} {i : Int} {e : Entry} (told : Told i e)
    (stale : i ≤ c.messageSerial) : c.hands e.packet = [] := by
  cases told <;> simp [Client.hands, Entry.packet, Client.onMessageReceived, Int.not_lt.mpr stale]

theorem letter_chat (u i : Int) (handle : Nat) (args : List Arg) :
    (Entry.mk "/chatReceive" ⟨handle, .int i :: args⟩).letter u =
      if (args.drop 3).head? = some (.int 0) ∨ args[0]? = some (.int u) ∨ .int u ∈ args.drop 3 then
        some ⟨args[0]?, args.drop 3, args[1]?, args[2]?, args[0]? = some (.int u)⟩
      else none := if_pos rfl

theorem letters_cons (u : Int) (e : Entry) (es : List Entry) :
    letters u (e :: es) = (e.letter u).toList ++ letters u es := by
  unfold letters
  rw [List.filterMap_cons]
  cases e.letter u <;> rfl

theorem hands_fresh {u i : Int} {c : Client} {e : Entry} (told : Told i e)
    (fresh : c.messageSerial < i) (user : c.userId = some (.int u)) :
    (c.hands e.packet).map ChatMessage.toLetter = (e.letter u).toList := by
  cases told with
  | chat handle args =>
    have listed : some (Arg.int u) ∈ (args.drop 3).map some ↔ .int u ∈ args.drop 3 :=
      List.mem_map_of_injective (Option.some_injective Arg)
    rw [letter_chat]
    simp only [Client.hands, Entry.packet, Client.onMessageReceived, if_pos fresh, user, listed,
      decide_eq_true_eq, if_true]
    split <;> rfl
  | put | erase => simp [Client.hands, Entry.packet, Entry.letter]

section Told
variable {u : Int} {fair : Prop} {a : Nat} {s : Server} {told : List Letter} {c : Client}

/-- The induction is on what is left of the log. A message already heard tells nothing, and the
    first that is not brings the position behind it. -/
theorem telling_drop (mirrored : Mirrored s) (n : Nat) (user : c.userId = some (.int u))
    (start : 0 ≤ c.messageSerial) (begun : a ≤ c.position)
    (carries : Carries fair told (letters u (s.window a c.position)))
    (gap : fair → letters u (s.window c.position n) = []) :
    Telling u fair a s told c (deliveries (s.log.drop n)) := by
  induction left : s.log.length - n generalizing n told c with
  | zero =>
    rw [List.drop_eq_nil_of_le (by omega)]
    exact carries
  | succ k ih =>
    have below : n < s.log.length := by omega
    have heard := mirrored.told n _ (List.getElem?_eq_getElem below)
    rw [List.drop_eq_getElem_cons below]
    refine ⟨carries, ?_⟩
    change Telling u fair a s (told ++ (c.hands s.log[n].packet).map ChatMessage.toLetter)
      (c.receive s.log[n].packet).1 (deliveries (s.log.drop (n + 1)))
    by_cases fresh : c.messageSerial < n
    · have cursor := (receive_fresh heard fresh).1
      have behind : c.position ≤ n := (position_lt start).mp fresh
      have position : (c.receive s.log[n].packet).1.position = n + 1 := by
        simp only [Client.position]
        omega
      rw [hands_fresh heard fresh user]
      apply ih
      · rw [(receive_kept c (told_path heard)).1, user]
      · omega
      · omega
      · rw [position, window_split (by omega) (Nat.le_succ n), letters_append, window_one below,
          letters_cons, window_split begun behind, letters_append]
        have new : Carries fair (s.log[n].letter u).toList
            ((s.log[n].letter u).toList ++ letters u []) :=
          carries_gap ⟨List.Sublist.refl _, fun _ => rfl⟩ fun _ => rfl
        exact carries_append (carries_gap carries gap) new
      · intro _
        rw [position, window_empty (Nat.le_refl _)]
        rfl
      · omega
    · have stale : n < c.position := by
        simp only [Client.position]
        omega
      rw [receive_stale heard (by omega), hands_stale heard (by omega)]
      refine ih (n + 1) user start begun (by simpa using carries) ?_ (by omega)
      intro _
      rw [window_empty (by omega)]
      rfl

theorem telling_stale (mirrored : Mirrored s) (stale : (s.log.length : Int) ≤ c.messageSerial + 1)
    (carries : Carries fair told (letters u (s.window a c.position))) {ps : List Packet}
    (logged : ∀ p ∈ ps, ∃ e ∈ s.log, p = e.packet) :
    Telling u fair a s told c (ps.map .packet) := by
  induction ps with
  | nil => exact carries
  | cons p ps ih =>
    obtain ⟨e, mem, rfl⟩ := logged p List.mem_cons_self
    obtain ⟨i, bound, at_i⟩ := List.getElem_of_mem mem
    have heard := mirrored.told i e (at_i ▸ List.getElem?_eq_getElem bound)
    refine ⟨carries, ?_⟩
    change Telling u fair a s (told ++ (c.hands e.packet).map ChatMessage.toLetter)
      (c.receive e.packet).1 (ps.map .packet)
    rw [hands_stale heard (by omega), receive_stale heard (by omega), List.map_nil,
      List.append_nil]
    exact ih fun q mem => logged q (List.mem_cons_of_mem _ mem)

theorem telling_other {p : Packet} (path : p.path ≠ "/chatReceive")
    (cursor : (c.receive p).1.messageSerial = c.messageSerial)
    (carries : Carries fair told (letters u (s.window a c.position))) :
    Telling u fair a s told c [.packet p] := by
  have position : (c.receive p).1.position = c.position := by
    simp only [Client.position, cursor]
  have none : c.hands p = [] := if_neg path
  refine ⟨carries, ?_⟩
  change Carries fair (told ++ (c.hands p).map ChatMessage.toLetter)
    (letters u (s.window a (c.receive p).1.position))
  rw [none, position, List.map_nil, List.append_nil]
  exact carries

theorem telling_reply (mirrored : Mirrored s) {messageID : Int} {sent : List Packet}
    (reply : sent = s.replyFrom (s.firstSent messageID).toNat) (user : c.userId = some (.int u))
    (start : 0 ≤ c.messageSerial) (behind : c.messageSerial < s.log.length)
    (begun : a ≤ c.position) (carries : Carries fair told (letters u (s.window a c.position)))
    (gap : fair → letters u (s.window c.position (s.replyStart messageID)) = []) :
    Telling u fair a s told c (sent.map .packet) ∧
      (fair → letters u (s.window (c.hearAll (sent.map .packet)).position s.log.length) = []) := by
  subst reply
  unfold Server.replyStart at gap
  by_cases below : (s.firstSent messageID).toNat < s.log.length
  · rw [if_pos below] at gap
    obtain ⟨again, split, old⟩ := replyFrom_split below
    obtain ⟨last, -⟩ := hear_drop mirrored (s.held (s.firstSent messageID).toNat) c start behind
    have caught := last (held_bounds below).2.1
    have first := telling_drop mirrored _ user start begun carries gap
    have both : (s.replyFrom (s.firstSent messageID).toNat).map Delivery.packet =
        deliveries (s.log.drop (s.held (s.firstSent messageID).toNat)) ++ again.map .packet := by
      rw [split, List.map_append, List.map_map]
      rfl
    have halves := telling_append.mp (by rw [List.append_nil]; exact first)
    have second := telling_stale mirrored (Int.le_of_eq caught.symm) halves.2 old
    rw [both]
    refine ⟨telling_append.mpr ⟨first, second⟩, fun _ => ?_⟩
    rw [hearAll_append, hear_stale mirrored (Int.le_of_eq caught.symm) old, window_empty]
    · rfl
    · simp only [Client.position]
      omega
  · have none : s.replyFrom (s.firstSent messageID).toNat = [] :=
      List.eq_nil_of_length_eq_zero (by rw [replyFrom_length]; omega)
    rw [if_neg below] at gap
    rw [none]
    exact ⟨carries, gap⟩

theorem position_le {c : Client} {n : Nat} (behind : c.messageSerial < max 1 (n : Int)) :
    c.position ≤ max 1 n := by
  simp only [Client.position]
  omega

theorem position_mono {c : Client} (q : List Delivery) : c.position ≤ (c.hearAll q).position := by
  have passed := hearAll_mono c q
  simp only [Client.position]
  omega

theorem telling_extend {t : Server} {q : List Delivery} (extended : s.log <+: t.log)
    (begun : 1 ≤ a) (behind : (c.hearAll q).position ≤ max 1 s.log.length)
    (telling : Telling u fair a s told c q) : Telling u fair a t told c q := by
  induction q generalizing told c with
  | nil =>
    have same : t.window a c.position = s.window a c.position :=
      window_extend extended begun behind
    change Carries fair told (letters u (t.window a c.position))
    rw [same]
    exact telling
  | cons d q ih =>
    refine ⟨?_, ih behind telling.2⟩
    rw [window_extend extended begun ((position_mono (d :: q)).trans behind)]
    exact telling.1

end Told

theorem caughtUp_behind {s : Server} (mirrored : Mirrored s) {q : List Delivery} {c : Client}
    (replies : ∀ p, Delivery.packet p ∈ q → p.isReply s)
    (behind : c.messageSerial < max 1 (s.log.length : Int)) :
    (c.hearAll q).messageSerial < max 1 (s.log.length : Int) := by
  induction q generalizing c with
  | nil => exact behind
  | cons d q ih =>
    refine ih (c := c.hear d) (fun p mem => replies p (List.mem_cons_of_mem d mem)) ?_
    cases d with
    | packet p =>
      change (c.receive p).1.messageSerial < _
      have turn := receive_cursor mirrored (replies p List.mem_cons_self) c
      omega
    | complete names => exact behind

/-- What the server and the connection keep to, whatever the client is told. -/
abbrev Chat.Anchored (w : Chat) : Prop := SCLOrkChat.Anchored ⟨w, none⟩

/-- In a fair run nothing that was queued by the last answered poll is passed over. -/
structure Tells (u : Int) (fair : Prop) (a : Nat) (v : Conversation) : Prop where
  anchored : v.chat.Anchored
  signedIn : v.chat.SignedIn u
  begun : 1 ≤ a ∧ a ≤ v.chat.client.position
  telling : Telling u fair a v.chat.server (v.messages.map ChatMessage.toLetter) v.chat.client
    v.chat.replies
  queued : ∀ n ∈ v.queued, v.chat.caughtUp.position ≤ max 1 n ∧ n ≤ v.chat.server.log.length ∧
    (fair → letters u (v.chat.server.window v.chat.caughtUp.position n) = [])

section Steps
variable {u : Int} {fair : Prop} {a : Nat} {v : Conversation}

theorem tells_behind (tells : Tells u fair a v) :
    v.chat.caughtUp.messageSerial < max 1 (v.chat.server.log.length : Int) := by
  refine caughtUp_behind (s := v.chat.server) tells.anchored.mirrored tells.anchored.replies ?_
  rcases tells.anchored.cursor with start | behind
  · change v.chat.client.messageSerial = 0 at start
    omega
  · change v.chat.client.messageSerial < (v.chat.server.log.length : Int) at behind
    omega

theorem tells_position (tells : Tells u fair a v) :
    v.chat.caughtUp.position ≤ max 1 v.chat.server.log.length :=
  position_le (tells_behind tells)

theorem tells_moves (tells : Tells u fair a v) {t : Server} (moves : Moves v.chat.server t) :
    Tells u fair a { v with chat := { v.chat with server := t } } := by
  have extended := moves_extend moves
  have longer := moves_log moves
  have position := tells_position tells
  refine ⟨anchored_moves tells.anchored moves, { tells.signedIn with }, tells.begun,
    telling_extend extended tells.begun.1 position tells.telling, ?_⟩
  intro n mem
  obtain ⟨behind, inside, none⟩ := tells.queued n mem
  refine ⟨behind, inside.trans longer, fun even => ?_⟩
  have passed := position_mono (c := v.chat.client) v.chat.replies
  have same : t.window v.chat.caughtUp.position n =
      v.chat.server.window v.chat.caughtUp.position n :=
    window_extend extended (tells.begun.1.trans (tells.begun.2.trans passed)) (by omega)
  exact same ▸ none even

theorem tells_send (tells : Tells u fair a v) {p : Packet}
    (poll : ∀ messageID ∈ p.polled, messageID = v.chat.client.messageSerial)
    (command : getCommandNamed p.path ≠ .kSignIn) :
    Tells u fair a { v with chat := v.chat.send p } := by
  have raised := tells.anchored.nonneg.trans tells.anchored.raised
  have anchored : Chat.Anchored (v.chat.send p) := anchored_send tells.anchored (by
    intro messageID mem
    rw [poll messageID mem]
    exact raised)
  unfold Chat.send at anchored ⊢
  rw [if_pos tells.signedIn.connected] at anchored ⊢
  refine { tells with anchored := anchored, signedIn := { tells.signedIn with asked := ?_ } }
  intro q mem
  rcases List.mem_append.mp mem with old | new
  · exact tells.signedIn.asked q old
  · rw [List.mem_singleton.mp new]
    exact command

theorem tells_hear (tells : Tells u fair a v) {chat : Chat} (step : v.chat.step .hear = some chat) :
    Tells u fair a ⟨chat, v.messages ++ v.chat.hands .hear, v.queued⟩ := by
  have anchored : chat.Anchored := anchored_hear tells.anchored step
  obtain ⟨⟨server, client, requests, replies, seen⟩, messages, queued⟩ := v
  cases replies with
  | nil => cases step
  | cons d rest =>
    have telling := tells.telling.2
    rw [← List.map_append] at telling
    have signedIn := tells.signedIn
    have later : ∀ p, Delivery.packet p ∈ rest → p.path ≠ "/chatSignInComplete" := fun p mem =>
      signedIn.welcomed p (List.mem_cons_of_mem d mem)
    have hands : Chat.hands ⟨server, client, requests, d :: rest, seen⟩ .hear =
        client.handsOne d := List.append_nil _
    rw [hands]
    cases d with
    | complete names =>
      cases step
      exact { tells with
        anchored := anchored
        telling := telling
        signedIn := { signedIn with welcomed := later } }
    | packet p =>
      obtain ⟨user, connected, silent⟩ := receive_kept client
        (signedIn.welcomed p List.mem_cons_self)
      cases step
      refine { tells with
        anchored := anchored
        telling := telling
        begun := ⟨tells.begun.1, tells.begun.2.trans (position_mono [.packet p])⟩
        signedIn := ⟨connected.trans signedIn.connected, user.trans signedIn.userId, ?_, later⟩ }
      change ∀ q ∈ requests ++ (client.receive p).2, _
      rw [silent, List.append_nil]
      exact signedIn.asked

def Conversation.told (v : Conversation) : List Letter :=
  v.messages.map ChatMessage.toLetter ++
    (v.chat.client.handsAll v.chat.replies).map ChatMessage.toLetter

theorem tells_more {q : List Delivery} (tells : Tells u fair a v) :
    Telling u fair a v.chat.server (v.messages.map ChatMessage.toLetter) v.chat.client
        (v.chat.replies ++ q) ↔
      Telling u fair a v.chat.server v.told v.chat.caughtUp q :=
  telling_append.trans (and_iff_right tells.telling)

theorem tells_all (tells : Tells u fair a v) :
    Carries fair v.told (letters u (v.chat.server.window a v.chat.caughtUp.position)) := by
  have whole := tells.telling
  rw [← List.append_nil v.chat.replies] at whole
  exact (tells_more tells).mp whole

theorem messages_told {w : Chat} {told : List Letter} (anchored : w.Anchored)
    (user : w.caughtUp.userId = some (.int u))
    (behind : w.caughtUp.messageSerial < max 1 (w.server.log.length : Int))
    (begun : a ≤ w.caughtUp.position)
    (carries : Carries fair told (letters u (w.server.window a w.caughtUp.position)))
    {p : Packet} (head : w.requests.head? = some p) {messageID : Int}
    (poll : p.polled = some messageID) {sent : List Packet}
    (reply : w.server.reply messageID = .ok sent)
    (gap : fair → letters u
      (w.server.window w.caughtUp.position (w.server.replyStart messageID)) = []) :
    Telling u fair a w.server told w.caughtUp (sent.map .packet) ∧
      (w.caughtUp.hearAll (sent.map .packet)).position ≤ max 1 w.server.log.length ∧
      (fair → letters u (w.server.window (w.caughtUp.hearAll (sent.map .packet)).position
        w.server.log.length) = []) := by
  have raised := anchored.nonneg.trans anchored.raised
  have start : 0 ≤ w.caughtUp.messageSerial := raised.trans (hearAll_mono w.client w.replies)
  have low := anchored.polls p (List.mem_of_head? head) messageID poll
  have logged : Logged w.server := anchored.logged
  have whole := reply_sent logged low reply
  rcases Nat.eq_zero_or_pos w.server.log.length with empty | some
  · have none : sent = [] := by
      apply List.eq_nil_of_length_eq_zero
      rw [whole, replyFrom_length]
      omega
    subst none
    refine ⟨carries, (position_le behind), fun _ => ?_⟩
    rw [window_empty (by omega)]
    rfl
  · have mirrored : Mirrored w.server := anchored.mirrored
    have below : w.caughtUp.messageSerial < w.server.log.length := by omega
    have after := (hear_reply mirrored whole start below).1
    obtain ⟨telling, none⟩ := telling_reply mirrored whole user start below begun carries gap
    exact ⟨telling, position_le (by omega), none⟩

theorem answer_told {s t : Server} {c : Client} {told : List Letter} {p : Packet} {m : Moment}
    {sent : List Packet} (answer : Answer s t p m sent) (poll : p.polled = none)
    (carries : Carries fair told (letters u (s.window a c.position))) :
    Telling u fair a s told c (sent.map .packet) ∧
      (c.hearAll (sent.map .packet)).position = c.position := by
  cases answer with
  | silent => exact ⟨carries, rfl⟩
  | welcome => exact ⟨telling_other (by simp) rfl carries, rfl⟩
  | users => exact ⟨telling_other (by simp) rfl carries, rfl⟩
  | messages messageID asked =>
    rw [poll] at asked
    cases asked

theorem answer_unwelcome {s t : Server} {p q : Packet} {m : Moment} {sent : List Packet}
    (logged : Logged s) (mirrored : Mirrored s) (low : ∀ messageID ∈ p.polled, 0 ≤ messageID)
    (command : getCommandNamed p.path ≠ .kSignIn) (ran : s.handleMessage p m = .ok (t, sent))
    (mem : q ∈ sent) : q.path ≠ "/chatSignInComplete" := by
  cases handle_cases logged ran with
  | signIn asked => exact absurd asked command
  | getAllClients =>
    rw [List.mem_singleton.mp mem]
    simp
  | getMessages asked userID messageID args reply =>
    have poll : p.polled = some messageID := by
      rw [Packet.polled, asked, args]
    rw [reply_sent logged (low messageID poll) reply] at mem
    obtain ⟨e, logged', rfl⟩ := reply_logged mem
    obtain ⟨i, bound, at_i⟩ := List.getElem_of_mem logged'
    exact told_path (mirrored.told i e (at_i ▸ List.getElem?_eq_getElem bound))
  | sendMessage | abandoned | changeName | signOut | ignored => cases mem

theorem tells_serve (tells : Tells u fair a v) {p : Packet} {m : Moment} {t : Server}
    {sent : List Packet} (head : v.chat.requests.head? = some p)
    (all : m.order.Perm (v.chat.server.walked p m))
    (ran : v.chat.server.handleMessage p m = .ok (t, sent))
    (spares : fair → v.chat.Spares u (.serve m))
    (anchored : (v.chat.answered p t sent).Anchored) :
    Tells u fair a ⟨v.chat.answered p t sent, v.messages,
      (v.chat.answers (.serve m)).or v.queued⟩ := by
  have logged : Logged v.chat.server := tells.anchored.logged
  have mirrored : Mirrored v.chat.server := tells.anchored.mirrored
  have moves := handle_moves logged ran
  have extended := moves_extend moves
  have longer := moves_log moves
  have asked := tells.signedIn.asked p (List.mem_of_head? head)
  have passed := position_mono (c := v.chat.client) v.chat.replies
  have begun : a ≤ v.chat.caughtUp.position := tells.begun.2.trans passed
  have user : v.chat.caughtUp.userId = some (.int u) :=
    (hearAll_userId v.chat.client tells.signedIn.welcomed).trans tells.signedIn.userId
  have carries := tells_all tells
  have answer := handle_answer logged all ran
  -- What the reply says to a client that has heard all before it, and what is left after it.
  have key : Telling u fair a v.chat.server v.told v.chat.caughtUp (sent.map .packet) ∧
      (v.chat.caughtUp.hearAll (sent.map .packet)).position ≤ max 1 v.chat.server.log.length ∧
      ∀ n ∈ (v.chat.answers (.serve m)).or v.queued,
        (v.chat.caughtUp.hearAll (sent.map .packet)).position ≤ max 1 n ∧
        n ≤ v.chat.server.log.length ∧ (fair → letters u (v.chat.server.window
          (v.chat.caughtUp.hearAll (sent.map .packet)).position n) = []) := by
    cases poll : p.polled with
    | none =>
      have quiet : v.chat.answers (.serve m) = none := by simp [Chat.answers, head, poll]
      obtain ⟨telling, same⟩ := answer_told answer poll carries
      rw [same, quiet]
      exact ⟨telling, tells_position tells, tells.queued⟩
    | some messageID =>
      have now : v.chat.answers (.serve m) = some v.chat.server.log.length := by
        simp [Chat.answers, head, poll]
      have gap : fair → letters u (v.chat.server.window v.chat.caughtUp.position
          (v.chat.server.replyStart messageID)) = [] :=
        fun even => spares even p head messageID poll
      have reply : v.chat.server.reply messageID = .ok sent := by
        cases answer with
        | silent other | welcome other | users other => simp [poll] at other
        | messages asked same users _ reply =>
          rw [poll] at same
          cases same
          exact reply
      obtain ⟨telling, position, none⟩ := messages_told tells.anchored user (tells_behind tells)
        begun carries head poll reply gap
      rw [now]
      refine ⟨telling, position, ?_⟩
      intro n mem
      cases mem
      exact ⟨position, Nat.le_refl _, none⟩
  obtain ⟨telling, position, queued⟩ := key
  have heard : (v.chat.answered p t sent).caughtUp =
      v.chat.caughtUp.hearAll (sent.map .packet) := caughtUp_answered v.chat p t sent
  refine ⟨anchored, ⟨tells.signedIn.connected, tells.signedIn.userId, ?_, ?_⟩, tells.begun, ?_, ?_⟩
  · intro q mem
    exact tells.signedIn.asked q (List.mem_of_mem_tail mem)
  · intro q mem
    rcases List.mem_append.mp mem with mem | ended
    · rcases List.mem_append.mp mem with old | new
      · exact tells.signedIn.welcomed q old
      · obtain ⟨found, inside, same⟩ := List.mem_map.mp new
        cases same
        exact answer_unwelcome logged mirrored
          (tells.anchored.polls p (List.mem_of_head? head)) asked ran inside
    · split at ended <;> simp at ended
  · apply telling_extend extended tells.begun.1
    · change (v.chat.answered p t sent).caughtUp.position ≤ _
      rw [heard]
      exact position
    · simp only [Chat.answered, List.append_assoc]
      rw [tells_more tells, telling_append]
      refine ⟨telling, ?_⟩
      have after := telling
      rw [← List.append_nil (sent.map Delivery.packet), telling_append] at after
      split
      · exact ⟨after.2, by simpa [Client.handsOne, Client.hear] using after.2⟩
      · exact after.2
  · intro n mem
    obtain ⟨reached, inside, none⟩ := queued n mem
    change (v.chat.answered p t sent).caughtUp.position ≤ max 1 n ∧ n ≤ t.log.length ∧
      (fair → letters u (t.window (v.chat.answered p t sent).caughtUp.position n) = [])
    have later := position_mono (c := v.chat.caughtUp) (sent.map .packet)
    rw [heard, window_extend extended (tells.begun.1.trans (begun.trans later)) (by omega)]
    exact ⟨reached, inside.trans longer, none⟩

theorem tells_step {next : Conversation} {e : Event} (tells : Tells u fair a v)
    (stays : e.leaves = false) (spares : fair → v.chat.Spares u e) (step : v.step e = some next) :
    Tells u fair a next := by
  obtain ⟨chat, stepped, rfl⟩ := Option.map_eq_some_iff.mp step
  have silent (hands : v.chat.hands e = []) (answers : v.chat.answers e = none) :
      Conversation.mk chat (v.messages ++ v.chat.hands e) ((v.chat.answers e).or v.queued) =
        { v with chat := chat } := by
    rw [hands, answers, List.append_nil, Option.none_or]
  cases e with
  | command p m =>
    rw [silent rfl rfl]
    obtain ⟨t, taken, rfl⟩ := Option.map_eq_some_iff.mp stepped
    exact tells_moves tells (step_moves tells.anchored.logged taken)
  | connect clientName => simp [Chat.step, tells.signedIn.connected] at stepped
  | disconnect | lose => cases stays
  | poll =>
    rw [silent rfl rfl]
    simp only [Chat.step] at stepped
    split at stepped
    · cases stepped
      refine tells_send tells ?_ (by simp [getCommandNamed])
      intro messageID mem
      simp only [Packet.polled, Client.userIdArg, tells.signedIn.userId, getCommandNamed] at mem
      cases mem
      rfl
    · cases stepped
  | rename newName =>
    rw [silent rfl rfl]
    cases stepped
    exact tells_send tells (fun messageID mem => by cases mem) (by simp [getCommandNamed])
  | sendMessage type contents recipientIds =>
    rw [silent rfl rfl]
    cases stepped
    exact tells_send tells (fun messageID mem => by cases mem) (by simp [getCommandNamed])
  | serve m =>
    have anchored : chat.Anchored := anchored_chat tells.anchored stepped
    obtain ⟨p, head, taken⟩ := Option.bind_eq_some_iff.mp stepped
    split at taken
    · rename_i all
      split at taken
      · rename_i t sent ran
        cases taken
        have none : v.chat.hands (.serve m) = [] := rfl
        rw [none, List.append_nil]
        exact tells_serve tells head all ran spares anchored
      · cases taken
    · cases taken
  | hear => exact tells_hear tells stepped

end Steps

theorem tells_start {timeout M u : Int} {past : List Event} {start : Chat} (fair : Prop)
    (reached : (Chat.new timeout M).run past = some start) (signedIn : start.SignedIn u)
    (quiet : start.replies = []) :
    Tells u fair start.client.position (Conversation.start start) where
  anchored := run_keeps Chat.Anchored (fun _ _ _ anchored step => anchored_chat anchored step)
    (anchored_new timeout M) reached
  signedIn := signedIn
  begun := ⟨Nat.le_add_left 1 _, Nat.le_refl _⟩
  telling := by
    change Telling u fair start.client.position start.server [] start.client start.replies
    rw [quiet]
    refine ⟨List.nil_sublist _, fun _ => ?_⟩
    rw [window_empty (Nat.le_refl _)]
    rfl
  queued := fun n mem => by cases mem

theorem tells_run {u : Int} {fair : Prop} {a : Nat} {v w : Conversation} {es : List Event}
    (tells : Tells u fair a v) (stays : ∀ e ∈ es, e.leaves = false)
    (spares : fair → Along Conversation.step (fun v => v.chat.Spares u) v es)
    (ran : v.run es = some w) : Tells u fair a w := by
  induction es generalizing v with
  | nil =>
    cases ran
    exact tells
  | cons e es ih =>
    obtain ⟨next, first, rest⟩ := run_cons.mp ran
    refine ih (tells_step tells (stays e List.mem_cons_self) (fun even => (spares even).1) first) ?_
      (fun even => (spares even).2 next first) rest
    exact fun f mem => stays f (List.mem_cons_of_mem e mem)

/-- From a sign-in on, a client hands over the messages for its user in the order in which they
    were queued, none twice and none that is not for the user. If no reply passes over one, it
    hands over every one, up to its cursor and, once it has heard the answer to its last poll, up
    to that poll. -/
theorem messages_delivered {timeout M u : Int} {past es : List Event} {start : Chat}
    {v : Conversation} (reached : (Chat.new timeout M).run past = some start)
    (signedIn : start.SignedIn u) (quiet : start.replies = [])
    (stays : ∀ e ∈ es, e.leaves = false) (ran : (Conversation.start start).run es = some v) :
    (v.messages.map ChatMessage.toLetter).Sublist
      (letters u (v.chat.server.window start.client.position v.chat.client.position)) ∧
    (Along Conversation.step (fun v => v.chat.Spares u) (Conversation.start start) es →
      v.messages.map ChatMessage.toLetter =
        letters u (v.chat.server.window start.client.position v.chat.client.position) ∧
      (v.chat.replies = [] → ∀ n ∈ v.queued, v.messages.map ChatMessage.toLetter =
        letters u (v.chat.server.window start.client.position n))) := by
  constructor
  · have tells := tells_run (tells_start False reached signedIn quiet) stays False.elim ran
    exact (telling_now tells.telling).1
  · intro spares
    have tells := tells_run (tells_start True reached signedIn quiet) stays (fun _ => spares) ran
    have all := (telling_now tells.telling).2 trivial
    refine ⟨all, ?_⟩
    intro heard n mem
    obtain ⟨position, inside, none⟩ := tells.queued n mem
    have begun := tells.begun
    have same : v.chat.caughtUp = v.chat.client := by rw [Chat.caughtUp, heard]; rfl
    rw [same] at position none
    rw [all]
    by_cases further : v.chat.client.position ≤ n
    · rw [window_split begun.2 further, letters_append, none trivial, List.append_nil]
    · have low : 1 ≤ v.chat.client.position := Nat.le_add_left 1 _
      rw [window_empty (by omega), window_empty (by omega)]

instance (u : Int) (w : Chat) : ∀ e, Decidable (w.Spares u e)
  | .serve _ => inferInstanceAs (Decidable (∀ p ∈ w.requests.head?, ∀ messageID ∈ p.polled,
      letters u (w.server.window w.caughtUp.position (w.server.replyStart messageID)) = []))
  | .command _ _ | .connect _ | .disconnect | .lose | .poll | .rename _ | .sendMessage _ _ _
  | .hear => isTrue trivial

def greetings : List Event :=
  [signsIn "bob",
    .command ⟨"/chatSendMessage", [.int 2, .string "plain", .string "hi", .int 1]⟩ ⟨1, []⟩,
    .command ⟨"/chatSendMessage", [.int 2, .string "plain", .string "hm", .int 2]⟩ ⟨1, []⟩,
    .poll, .serve ⟨2, [1]⟩,
    .command ⟨"/chatSendMessage", [.int 2, .string "shout", .string "all", .int 0]⟩ ⟨2, []⟩,
    .hear, .hear, .hear, .hear]

def arrived : Chat := ((Chat.new 10 30).run joined).get (by decide +kernel)

def greeted : Conversation :=
  ((Conversation.start arrived).run greetings).get (by decide +kernel)

theorem messages_delivered_greetings : greeted.messages.map ChatMessage.toLetter = letters 1
    (greeted.chat.server.window arrived.client.position greeted.chat.client.position) := by
  have reached : (Chat.new 10 30).run joined = some arrived := (Option.some_get _).symm
  have ran : (Conversation.start arrived).run greetings = some greeted := (Option.some_get _).symm
  have quiet : arrived.replies = [] := by decide +kernel
  have signedIn : arrived.SignedIn 1 :=
    ⟨by decide +kernel, by decide +kernel, by decide +kernel, fun p mem => by simp [quiet] at mem⟩
  exact ((messages_delivered reached signedIn quiet (by decide) ran).2 (by decide +kernel)).1

example : greeted.messages.map (·.contents) = [some (.string "hi")] := by decide +kernel

end SCLOrkChat
