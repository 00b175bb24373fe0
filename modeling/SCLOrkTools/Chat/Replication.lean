import SCLOrkTools.Library.KeyedLog
import SCLOrkTools.Chat.Poll
import SCLOrkTools.Chat.Client

/- The users as the client knows them. The server's map is the replay of its log, the
   client's is its snapshot with a window of the log replayed over it, and the two agree on
   a user unless the cap keeps the user's changes out of every window. -/
namespace SCLOrkChat
open RingBuffer GuardedRun KeyedLog

def Entry.writes (e : Entry) (u : Int) : Option (Option String) :=
  match e.path, e.message.args with
  | "/chatChangeClient", [_, .string type, .int userID, .string name] =>
    if userID = u then
      if type = "add" ∨ type = "rename" then some (some name) else some none
    else none
  | _, _ => none

inductive Told (i : Int) : Entry → Prop
  | chat (handle : Nat) (args : List Arg) : Told i ⟨"/chatReceive", ⟨handle, .int i :: args⟩⟩
  | put (handle : Nat) (type : String) (kind : type = "add" ∨ type = "rename") (userID : Int)
      (name : String) : Told i ⟨"/chatChangeClient", ⟨handle, changeClient i type userID name⟩⟩
  | erase (handle : Nat) (type : String) (kind : type = "remove" ∨ type = "timeout")
      (userID : Int) (name : String) :
      Told i ⟨"/chatChangeClient", ⟨handle, changeClient i type userID name⟩⟩

theorem writes_chat (handle : Nat) (args : List Arg) (u : Int) :
    (Entry.mk "/chatReceive" ⟨handle, args⟩).writes u = none := by
  simp [Entry.writes]

theorem writes_put {type : String} (kind : type = "add" ∨ type = "rename") (handle : Nat)
    (i userID : Int) (name : String) (u : Int) :
    (Entry.mk "/chatChangeClient" ⟨handle, changeClient i type userID name⟩).writes u =
      if userID = u then some (some name) else none := by
  simp [Entry.writes, changeClient, kind]

theorem writes_erase {type : String} (kind : type = "remove" ∨ type = "timeout") (handle : Nat)
    (i userID : Int) (name : String) (u : Int) :
    (Entry.mk "/chatChangeClient" ⟨handle, changeClient i type userID name⟩).writes u =
      if userID = u then some none else none := by
  rcases kind with rfl | rfl <;> simp [Entry.writes, changeClient]

theorem lookup_insert_user (names : Names) (userID : Int) (name : String) (u : Int) :
    (names.insert userID name).lookup u =
      (if userID = u then some (some name) else none).getD (names.lookup u) := by
  by_cases same : userID = u
  · subst same
    simp [AList.lookup_insert]
  · rw [if_neg same]
    exact AList.lookup_insert_ne (Ne.symm same)

theorem lookup_erase_user (names : Names) (userID u : Int) :
    (names.erase userID).lookup u =
      (if userID = u then some none else none).getD (names.lookup u) := by
  by_cases same : userID = u
  · subst same
    simp [AList.lookup_erase]
  · rw [if_neg same]
    exact AList.lookup_erase_ne (Ne.symm same)

structure Mirrored (s : Server) : Prop where
  told : ∀ (i : Nat) e, s.log[i]? = some e → Told i e
  names : ∀ u, s.nameMap.lookup u = (latest Entry.writes u s.log).join

theorem mirrored_new (timeout M : Int) : Mirrored (Server.new timeout M) where
  told := fun i e found => by simp [Server.new] at found
  names := fun u => by simp [Server.new, latest]

theorem mirrored_move {s t : Server} (logged : Logged s) (mirrored : Mirrored s)
    (move : Move s t) : Mirrored t := by
  cases move with
  | idle cap names serial slots log =>
    constructor
    · rw [log]
      exact mirrored.told
    · intro u
      rw [names, log]
      exact mirrored.names u
  | chat args room =>
    refine ⟨each_snoc mirrored.told ?_, ?_⟩
    · change Told (s.log.length : Int) _
      rw [← logged.serial]
      exact .chat _ _
    · intro u
      refine (mirrored.names u).trans ?_
      simp only [Server.queued, Server.messageNew, latest_snoc, writes_chat, Option.none_or]
  | put type kind userID name room =>
    refine ⟨each_snoc mirrored.told ?_, ?_⟩
    · change Told (s.log.length : Int) _
      rw [← logged.serial]
      exact .put _ _ kind _ _
    · intro u
      simp only [Server.changed, Server.queued, Server.messageNew, latest_snoc, writes_put kind,
        lookup_insert_user, mirrored.names u]
      split <;> rfl
  | erase type kind userID name room =>
    refine ⟨each_snoc mirrored.told ?_, ?_⟩
    · change Told (s.log.length : Int) _
      rw [← logged.serial]
      exact .erase _ _ kind _ _
    · intro u
      simp only [Server.changed, Server.queued, Server.messageNew, latest_snoc, writes_erase kind,
        lookup_erase_user, mirrored.names u]
      split <;> rfl

theorem mirrored_moves {s t : Server} (logged : Logged s) (mirrored : Mirrored s)
    (moves : Moves s t) : Mirrored t := by
  induction moves with
  | refl => exact mirrored
  | tail front move ih => exact mirrored_move (logged_moves logged front) ih move

theorem moves_log {s t : Server} (moves : Moves s t) : s.log.length ≤ t.log.length := by
  induction moves with
  | refl => exact Nat.le_refl _
  | tail _ move ih =>
    apply ih.trans
    cases move with
    | idle cap names serial slots log => rw [log]
    | chat | put | erase => simp [Server.changed, Server.queued, Server.messageNew]

theorem receive_stale {c : Client} {i : Int} {e : Entry} (told : Told i e)
    (stale : i ≤ c.messageSerial) : (c.receive e.packet).1 = c := by
  cases told <;> simp [Client.receive, Entry.packet, Client.chatReceive, Client.changeClient,
    changeClient, Int.not_lt.mpr stale]

theorem applyChange_serial (c : Client) (changeType : String) (id : Int) (userName : String) :
    (c.applyChange changeType id userName).messageSerial = c.messageSerial := by
  unfold Client.applyChange
  split <;> try rfl
  split <;> rfl

theorem applyChange_put {type : String} (kind : type = "add" ∨ type = "rename") (c : Client)
    (id : Int) (name : String) :
    c.applyChange type id name = { c with nameMap := c.nameMap.insert id name } := by
  rcases kind with rfl | rfl <;> rfl

theorem applyChange_erase {type : String} (kind : type = "remove" ∨ type = "timeout") (c : Client)
    (id : Int) (name : String) (u : Int) :
    (c.applyChange type id name).nameMap.lookup u = (c.nameMap.erase id).lookup u := by
  rcases kind with rfl | rfl
  · change (if (c.nameMap.lookup id).isSome then
      { c with nameMap := c.nameMap.erase id } else c).nameMap.lookup u = _
    split
    · rfl
    · rename_i unknown
      have absent : c.nameMap.lookup id = none := by simpa using unknown
      rw [lookup_erase_user]
      by_cases same : id = u
      · subst same
        simp [absent]
      · simp [same]
  · rfl

theorem receive_fresh {c : Client} {i : Int} {e : Entry} (told : Told i e)
    (fresh : c.messageSerial < i) : (c.receive e.packet).1.messageSerial = i ∧
      ∀ u, (c.receive e.packet).1.nameMap.lookup u = (e.writes u).getD (c.nameMap.lookup u) := by
  have change (type : String) (userID : Int) (name : String) :
      (c.receive ⟨"/chatChangeClient", changeClient i type userID name⟩).1 =
        { c with messageSerial := i }.applyChange type userID name := by
    simp [Client.receive, Client.changeClient, changeClient, fresh]
  cases told with
  | chat handle args =>
    constructor
    · simp [Client.receive, Entry.packet, Client.chatReceive, fresh]
    · intro u
      simp [Client.receive, Entry.packet, Client.chatReceive, fresh, writes_chat]
  | put handle type kind userID name =>
    rw [Entry.packet, change]
    constructor
    · exact applyChange_serial _ type userID name
    · intro u
      rw [applyChange_put kind, writes_put kind]
      exact lookup_insert_user c.nameMap userID name u
  | erase handle type kind userID name =>
    rw [Entry.packet, change]
    constructor
    · exact applyChange_serial _ type userID name
    · intro u
      rw [applyChange_erase kind, writes_erase kind]
      exact lookup_erase_user c.nameMap userID u

def Client.hear (c : Client) : Delivery → Client
  | .packet p => (c.receive p).1
  | .complete _ => c

def Client.hearAll (c : Client) (q : List Delivery) : Client := q.foldl Client.hear c

theorem hearAll_append (c : Client) (xs ys : List Delivery) :
    c.hearAll (xs ++ ys) = (c.hearAll xs).hearAll ys := List.foldl_append

def deliveries (es : List Entry) : List Delivery := es.map fun e => .packet e.packet

theorem hear_stale {s : Server} (mirrored : Mirrored s) {c : Client}
    (stale : (s.log.length : Int) ≤ c.messageSerial + 1) {ps : List Packet}
    (logged : ∀ p ∈ ps, ∃ e ∈ s.log, p = e.packet) : c.hearAll (ps.map .packet) = c := by
  induction ps with
  | nil => rfl
  | cons p ps ih =>
    obtain ⟨e, mem, rfl⟩ := logged p List.mem_cons_self
    obtain ⟨i, bound, at_i⟩ := List.getElem_of_mem mem
    have told := mirrored.told i e (at_i ▸ List.getElem?_eq_getElem bound)
    have same : (c.receive e.packet).1 = c := receive_stale told (by omega)
    have rest := ih fun q mem => logged q (List.mem_cons_of_mem _ mem)
    rw [List.map_cons, Client.hearAll, List.foldl_cons]
    change Client.hearAll (c.receive e.packet).1 (ps.map .packet) = c
    rw [same, rest]

/-- The induction is on what is left of the log: a message already heard changes nothing,
    and the first that is not makes every later one new. -/
theorem hear_drop {s : Server} (mirrored : Mirrored s) (n : Nat) (c : Client)
    (start : 0 ≤ c.messageSerial) (behind : c.messageSerial < s.log.length) :
    (n < s.log.length →
      (c.hearAll (deliveries (s.log.drop n))).messageSerial + 1 = s.log.length) ∧
    ∀ u, (c.hearAll (deliveries (s.log.drop n))).nameMap.lookup u =
      (latest Entry.writes u (s.log.drop (max n (c.messageSerial.toNat + 1)))).getD
        (c.nameMap.lookup u) := by
  induction left : s.log.length - n generalizing n c with
  | zero =>
    rw [List.drop_eq_nil_of_le (by omega), List.drop_eq_nil_of_le (by omega)]
    exact ⟨fun below => by omega, fun u => rfl⟩
  | succ k ih =>
    have below : n < s.log.length := by omega
    have told := mirrored.told n _ (List.getElem?_eq_getElem below)
    have turn : c.hearAll (deliveries (s.log.drop n)) =
        (c.receive s.log[n].packet).1.hearAll (deliveries (s.log.drop (n + 1))) := by
      rw [List.drop_eq_getElem_cons below]
      rfl
    rw [turn]
    by_cases fresh : c.messageSerial < n
    · obtain ⟨cursor, names⟩ := receive_fresh told fresh
      obtain ⟨last, rest⟩ := ih (n + 1) (c.receive s.log[n].packet).1 (by omega) (by omega)
        (by omega)
      constructor
      · intro _
        by_cases more : n + 1 < s.log.length
        · exact last more
        · rw [List.drop_eq_nil_of_le (by omega)]
          change (c.receive s.log[n].packet).1.messageSerial + 1 = _
          omega
      · intro u
        rw [rest u, names u, cursor, Int.toNat_natCast, Nat.max_self,
          show max n (c.messageSerial.toNat + 1) = n by omega, List.drop_eq_getElem_cons below]
        simp only [latest]
        cases latest Entry.writes u (s.log.drop (n + 1)) <;> rfl
    · rw [receive_stale told (by omega)]
      obtain ⟨last, rest⟩ := ih (n + 1) c start behind (by omega)
      constructor
      · intro _
        by_cases more : n + 1 < s.log.length
        · exact last more
        · rw [List.drop_eq_nil_of_le (by omega)]
          change c.messageSerial + 1 = _
          omega
      · intro u
        rw [rest u, show max (n + 1) (c.messageSerial.toNat + 1) =
          max n (c.messageSerial.toNat + 1) by omega]

/-- The log position of the first message in the reply that starts from the cursor, or the
    end of the log when the reply is empty. -/
def Server.replyStart (s : Server) (messageID : Int) : Nat :=
  if (s.firstSent messageID).toNat < s.log.length then s.held (s.firstSent messageID).toNat
  else s.log.length

theorem hear_reply {s : Server} (mirrored : Mirrored s) {messageID : Int} {sent : List Packet}
    (reply : sent = s.replyFrom (s.firstSent messageID).toNat) {c : Client}
    (start : 0 ≤ c.messageSerial) (behind : c.messageSerial < s.log.length) :
    (c.hearAll (sent.map .packet)).messageSerial < s.log.length ∧
    ∀ u, (c.hearAll (sent.map .packet)).nameMap.lookup u =
      (latest Entry.writes u
        (s.log.drop (max (s.replyStart messageID) (c.messageSerial.toNat + 1)))).getD
        (c.nameMap.lookup u) := by
  subst reply
  unfold Server.replyStart
  by_cases below : (s.firstSent messageID).toNat < s.log.length
  · obtain ⟨again, split, old⟩ := replyFrom_split below
    obtain ⟨last, names⟩ := hear_drop mirrored (s.held (s.firstSent messageID).toNat) c start behind
    have caught := last (held_bounds below).2.1
    have once : c.hearAll ((s.replyFrom (s.firstSent messageID).toNat).map .packet) =
        c.hearAll (deliveries (s.log.drop (s.held (s.firstSent messageID).toNat))) := by
      rw [split, List.map_append, hearAll_append, List.map_map]
      exact hear_stale (c := c.hearAll (deliveries _)) mirrored (Int.le_of_eq caught.symm) old
    rw [once, if_pos below]
    exact ⟨by omega, names⟩
  · have none : s.replyFrom (s.firstSent messageID).toNat = [] :=
      List.eq_nil_of_length_eq_zero (by rw [replyFrom_length]; omega)
    rw [none, if_neg below, List.drop_eq_nil_of_le (by omega)]
    exact ⟨behind, fun u => rfl⟩

theorem truncate_ok {s : Server} {messageID last : Int} (ran : s.truncate messageID = .ok last) :
    last + 1 = s.firstSent messageID := by
  unfold Server.truncate at ran
  unfold Server.firstSent
  obtain ⟨behind, near, ran⟩ := bind_ok ran
  cases int32_exact near
  split at ran
  · rename_i far
    obtain ⟨kept, room, ran⟩ := bind_ok ran
    obtain ⟨first, down, ran⟩ := bind_ok ran
    cases int32_exact room
    cases int32_exact down
    rw [if_pos far, ← Except.ok.inj ran]
  · rename_i kept
    rw [if_neg kept, ← Except.ok.inj ran]

theorem reply_sent {s : Server} (logged : Logged s) {messageID : Int} (low : 0 ≤ messageID)
    {sent : List Packet} (ran : s.reply messageID = .ok sent) :
    sent = s.replyFrom (s.firstSent messageID).toNat := by
  obtain ⟨last, cut, ran⟩ := bind_ok ran
  have first := truncate_ok cut
  have positive : 0 < s.firstSent messageID := by
    unfold Server.firstSent
    split <;> omega
  by_cases room : last < int32Max
  · rw [messagesAfter_eq logged (n := (s.firstSent messageID).toNat) (by omega) room] at ran
    exact (Except.ok.inj ran).symm
  · rw [Server.messagesAfter, int32_overflow (by omega)] at ran
    cases ran

theorem putPairs_lookup (s : Server) (order : List Int) (names : Names) (u : Int) :
    (putPairs names (s.clientNames order)).lookup u =
      if u ∈ order then (s.nameMap.lookup u).or (names.lookup u) else names.lookup u := by
  induction order generalizing names with
  | nil => rfl
  | cons userID order ih =>
    cases known : s.nameMap.lookup userID with
    | none =>
      have same : s.clientNames (userID :: order) = s.clientNames order := by
        simp [Server.clientNames, known]
      rw [same, ih]
      by_cases this : u = userID
      · subst this
        simp [known]
      · simp [this]
    | some name =>
      have pair : s.clientNames (userID :: order) =
          .int userID :: .string name :: s.clientNames order := by
        simp [Server.clientNames, known]
      rw [pair, putPairs, ih]
      by_cases this : u = userID
      · subst this
        simp [known, AList.lookup_insert]
      · simp [this, AList.lookup_insert_ne this]

theorem snapshot_lookup {s : Server} {order : List Int} (all : order.Perm s.nameMap.keys)
    (u : Int) :
    (putPairs ∅ (s.clientNames order)).lookup u = s.nameMap.lookup u := by
  rw [putPairs_lookup]
  by_cases listed : u ∈ order
  · rw [if_pos listed, AList.lookup_empty, Option.or_none]
  · rw [if_neg listed, AList.lookup_empty]
    have absent : u ∉ s.nameMap := fun mem => listed (all.mem_iff.mpr (AList.mem_keys.mp mem))
    exact (AList.lookup_eq_none.mpr absent).symm

theorem receive_mono (c : Client) (p : Packet) :
    c.messageSerial ≤ (c.receive p).1.messageSerial := by
  unfold Client.receive
  split
  · exact Int.le_refl _
  · exact Int.le_refl _
  · unfold Client.changeClient
    split
    · split
      · rename_i newer
        rw [applyChange_serial]
        exact Int.le_of_lt newer
      · exact Int.le_refl _
    · exact Int.le_refl _
  · unfold Client.chatReceive
    split
    · split
      · rename_i newer
        exact Int.le_of_lt newer
      · exact Int.le_refl _
    · exact Int.le_refl _
  · exact Int.le_refl _

theorem hearAll_mono (c : Client) (q : List Delivery) :
    c.messageSerial ≤ (c.hearAll q).messageSerial := by
  induction q generalizing c with
  | nil => exact Int.le_refl _
  | cons d q ih =>
    cases d with
    | packet p => exact (receive_mono c p).trans (ih _)
    | complete names => exact ih c

/-- Wherever a reply ends among the deliveries, the client will by then agree on the user. -/
def Marked (u : Int) : Client → List Delivery → Prop
  | _, [] => True
  | c, .packet p :: q => Marked u (c.receive p).1 q
  | c, .complete names :: q => c.nameMap.lookup u = names.lookup u ∧ Marked u c q

theorem marked_append {u : Int} {c : Client} {xs ys : List Delivery} :
    Marked u c (xs ++ ys) ↔ Marked u c xs ∧ Marked u (c.hearAll xs) ys := by
  induction xs generalizing c with
  | nil => simp [Marked, Client.hearAll]
  | cons d xs ih =>
    cases d with
    | packet p => exact ih
    | complete names => exact (and_congr_right fun _ => ih).trans and_assoc.symm

theorem marked_packets (u : Int) (c : Client) (ps : List Packet) : Marked u c (ps.map .packet) := by
  induction ps generalizing c with
  | nil => trivial
  | cons p ps ih => exact ih _

inductive Answer (s t : Server) (p : Packet) (m : Moment) : List Packet → Prop
  | silent (poll : p.polled = none) (users : p.isGetAllClients = false) : Answer s t p m []
  | welcome (poll : p.polled = none) (users : p.isGetAllClients = false) (userID : Int)
      (told : 0 < t.log.length) : Answer s t p m [⟨"/chatSignInComplete", [.int userID]⟩]
  | users (poll : p.polled = none) (users : p.isGetAllClients = true)
      (all : m.order.Perm s.nameMap.keys) :
      Answer s t p m [⟨"/chatSetAllClients", s.clientNames m.order⟩]
  | messages (messageID : Int) (poll : p.polled = some messageID)
      (users : p.isGetAllClients = false) (sent : List Packet)
      (reply : s.reply messageID = .ok sent) : Answer s t p m sent

theorem handle_answer {s t : Server} {sent : List Packet} (logged : Logged s) {p : Packet}
    {m : Moment} (all : m.order.Perm (s.walked p m)) (ran : s.handleMessage p m = .ok (t, sent)) :
    Answer s t p m sent := by
  unfold Server.walked at all
  have poll (ne : getCommandNamed p.path ≠ .kGetMessages) : p.polled = none := by
    unfold Packet.polled
    split
    · rename_i found shape
      exact absurd found ne
    · rfl
  have users (ne : getCommandNamed p.path ≠ .kGetAllClients) : p.isGetAllClients = false :=
    decide_eq_false ne
  cases handle_cases logged ran with
  | signIn command name userID args room =>
    exact .welcome (poll (by simp [command])) (users (by simp [command])) userID
      (by simp [Server.changed, Server.queued])
  | getAllClients command =>
    rw [command] at all
    exact .users (poll (by simp [command])) (decide_eq_true command) all
  | getMessages command userID messageID args reply swept =>
    refine .messages messageID ?_ (users (by simp [command])) sent reply
    rw [Packet.polled, command, args]
  | sendMessage command | abandoned command | changeName command | signOut command =>
    exact .silent (poll (by simp [command])) (users (by simp [command]))
  | ignored unfit =>
    refine .silent ?_ (users fun command => by rw [command] at unfit; exact unfit)
    unfold Packet.polled
    split
    · rename_i userID messageID command args
      rw [command] at unfit
      exact absurd args (unfit userID messageID)
    · rfl

/-- All that an event can do. What the client sends does not ask for the users, and a poll
    carries its cursor. -/
inductive Turn (w : Chat) : Event → Chat → Prop
  | command {p : Packet} {m : Moment} {t : Server} (taken : w.server.step (p, m) = some t) :
      Turn w (.command p m) { w with server := t }
  | connect (clientName : String) : Turn w (.connect clientName) { w.close w.client with
      client := { w.client with connected := true }
      requests := [⟨"/chatSignIn", [.string clientName]⟩] }
  | close {e : Event} {client : Client}
      (cursor : client.messageSerial = w.client.messageSerial) : Turn w e (w.close client)
  | send {e : Event} {p : Packet}
      (poll : ∀ messageID ∈ p.polled, messageID = w.client.messageSerial)
      (users : p.isGetAllClients = false) : Turn w e (w.send p)
  | serve {m : Moment} {p : Packet} {t : Server} {sent : List Packet}
      (head : w.requests.head? = some p) (all : m.order.Perm (w.server.walked p m))
      (ran : w.server.handleMessage p m = .ok (t, sent)) : Turn w (.serve m) (w.answered p t sent)
  | hear {next : Chat} (step : w.step .hear = some next) : Turn w .hear next

theorem chat_cases {w next : Chat} {e : Event} (step : w.step e = some next) : Turn w e next := by
  cases e with
  | command p m =>
    obtain ⟨t, taken, rfl⟩ := Option.map_eq_some_iff.mp step
    exact .command taken
  | connect clientName =>
    simp only [Chat.step] at step
    split at step
    · cases step
    · cases step
      exact .connect clientName
  | disconnect | lose =>
    cases step
    exact .close rfl
  | poll =>
    simp only [Chat.step] at step
    split at step
    · cases step
      refine .send ?_ rfl
      intro messageID mem
      unfold Packet.polled at mem
      split at mem
      · rename_i userID cursor command shape
        simp only [List.cons.injEq, Arg.int.injEq] at shape
        cases mem
        exact shape.2.1.symm
      · cases mem
    · cases step
  | rename newName =>
    cases step
    exact .send (fun messageID mem => by cases mem) rfl
  | sendMessage type contents recipientIds =>
    cases step
    exact .send (fun messageID mem => by cases mem) rfl
  | serve m =>
    obtain ⟨p, head, step⟩ := Option.bind_eq_some_iff.mp step
    split at step
    · rename_i all
      split at step
      · rename_i t sent ran
        cases step
        exact .serve head all ran
      · cases step
    · cases step
  | hear => exact .hear step

/-- The client's state once it has heard all that is on the way. -/
def Chat.caughtUp (w : Chat) : Client := w.client.hearAll w.replies

structure Follows (u : Int) (w : Chat) : Prop where
  logged : Logged w.server
  mirrored : Mirrored w.server
  cursor : 0 ≤ w.client.messageSerial
  behind : w.caughtUp.messageSerial < max 1 (w.server.log.length : Int)
  polls : ∀ p ∈ w.requests, ∀ messageID ∈ p.polled, 0 ≤ messageID
  signedIn : (∃ p ∈ w.requests, p.isGetAllClients = true) ∨
    (∃ p, Delivery.packet p ∈ w.replies ∧ p.path = "/chatSignInComplete") →
      0 < w.server.log.length
  ahead : ∀ taken ∈ w.seen, w.caughtUp.nameMap.lookup u = taken.1.lookup u ∧
    w.caughtUp.messageSerial < taken.2 ∧ taken.2 ≤ w.server.log.length
  marked : Marked u w.client w.replies

theorem follows_new (timeout M u : Int) : Follows u (Chat.new timeout M) where
  logged := logged_new timeout M
  mirrored := mirrored_new timeout M
  cursor := Int.le_refl 0
  behind := (by decide : (0 : Int) < max 1 0)
  polls := fun p mem => by cases mem
  signedIn := by rintro (⟨p, mem, -⟩ | ⟨p, mem, -⟩) <;> cases mem
  ahead := fun taken mem => by cases mem
  marked := trivial

theorem follows_moves {u : Int} {w : Chat} {t : Server} (follows : Follows u w)
    (moves : Moves w.server t) : Follows u { w with server := t } := by
  have longer := moves_log moves
  have behind := follows.behind
  refine ⟨logged_moves follows.logged moves, mirrored_moves follows.logged follows.mirrored moves,
    follows.cursor, ?_, follows.polls, ?_, ?_, follows.marked⟩
  · change w.caughtUp.messageSerial < max 1 (t.log.length : Int)
    omega
  · intro asked
    exact Nat.lt_of_lt_of_le (follows.signedIn asked) longer
  · intro taken mem
    obtain ⟨same, after, within⟩ := follows.ahead taken mem
    exact ⟨same, after, within.trans longer⟩

theorem follows_close {u : Int} {w : Chat} (follows : Follows u w) {client : Client}
    (cursor : client.messageSerial = w.client.messageSerial) : Follows u (w.close client) := by
  have behind := follows.behind
  have passed := hearAll_mono w.client w.replies
  have start := follows.cursor
  refine ⟨follows.logged, follows.mirrored, ?_, ?_, ?_, ?_, ?_, trivial⟩
  · exact cursor ▸ start
  · change client.messageSerial < max 1 (w.server.log.length : Int)
    rw [cursor]
    exact Int.lt_of_le_of_lt passed behind
  · intro p mem
    cases mem
  · rintro (⟨p, mem, -⟩ | ⟨p, mem, -⟩) <;> cases mem
  · intro taken mem
    cases mem

theorem follows_request {u : Int} {w : Chat} (follows : Follows u w) {p : Packet}
    (poll : ∀ messageID ∈ p.polled, 0 ≤ messageID)
    (users : p.isGetAllClients = true → 0 < w.server.log.length) :
    Follows u { w with requests := w.requests ++ [p] } := by
  refine { follows with polls := ?_, signedIn := ?_ }
  · intro q mem
    rcases List.mem_append.mp mem with old | new
    · exact follows.polls q old
    · rw [List.mem_singleton.mp new]
      exact poll
  · intro asked
    rcases asked with ⟨q, mem, snapshot⟩ | coming
    · rcases List.mem_append.mp mem with old | new
      · exact follows.signedIn (.inl ⟨q, old, snapshot⟩)
      · rw [List.mem_singleton.mp new] at snapshot
        exact users snapshot
    · exact follows.signedIn (.inr coming)

theorem follows_send {u : Int} {w : Chat} (follows : Follows u w) {p : Packet}
    (poll : ∀ messageID ∈ p.polled, 0 ≤ messageID) (users : p.isGetAllClients = false) :
    Follows u (w.send p) := by
  unfold Chat.send
  split
  · exact follows_request follows poll fun asked => by rw [users] at asked; cases asked
  · exact follows

theorem follows_hear {u : Int} {w next : Chat} (follows : Follows u w)
    (step : w.step .hear = some next) : Follows u next := by
  obtain ⟨server, client, requests, replies, seen⟩ := w
  cases replies with
  | nil => cases step
  | cons d rest =>
    cases d with
    | complete names =>
      cases step
      refine { follows with signedIn := ?_, marked := follows.marked.2 }
      intro asked
      exact follows.signedIn (asked.imp_right fun ⟨p, mem, path⟩ =>
        ⟨p, List.mem_cons_of_mem _ mem, path⟩)
    | packet p =>
      have heard : Follows u ⟨server, (client.receive p).1, requests, rest, seen⟩ :=
        { follows with
          cursor := follows.cursor.trans (receive_mono client p)
          signedIn := fun asked => follows.signedIn (asked.imp_right fun ⟨q, mem, path⟩ =>
            ⟨q, List.mem_cons_of_mem _ mem, path⟩)
          marked := follows.marked }
      cases step
      by_cases welcome : p.path = "/chatSignInComplete"
      · have sends : (client.receive p).2 = [⟨"/chatGetAllClients", []⟩] := by
          simp [Client.receive, welcome]
        change Follows u ⟨server, _, requests ++ (client.receive p).2, rest, seen⟩
        rw [sends]
        exact follows_request heard (by decide) fun _ =>
          follows.signedIn (.inr ⟨p, List.mem_cons_self, welcome⟩)
      · have sends : (client.receive p).2 = [] := by
          unfold Client.receive
          split
          · rename_i path
            exact absurd path welcome
          all_goals rfl
        change Follows u ⟨server, _, requests ++ (client.receive p).2, rest, seen⟩
        rw [sends, List.append_nil]
        exact heard

/-- The reply to a poll reaches the user: the user's entry is what it was when the previous
    reply was built, or a change of the user queued since then is not older than the first
    message of this reply. -/
def Chat.Reaches (u : Int) (w : Chat) : Event → Prop
  | .serve _ => ∀ p ∈ w.requests.head?, ∀ messageID ∈ p.polled, ∀ taken ∈ w.seen,
      taken.1.lookup u = w.server.nameMap.lookup u ∨
        ∃ e ∈ w.server.log.drop (max taken.2 (w.server.replyStart messageID)),
          (e.writes u).isSome = true
  | _ => True

structure Heard (u : Int) (w : Chat) (p : Packet) (t : Server) (sent : List Packet) : Prop where
  behind : (w.caughtUp.hearAll (sent.map .packet)).messageSerial <
    max 1 (w.server.log.length : Int)
  kept : p.isGetAllClients = false → p.polled = none →
    (w.caughtUp.hearAll (sent.map .packet)).nameMap = w.caughtUp.nameMap ∧
      (w.caughtUp.hearAll (sent.map .packet)).messageSerial = w.caughtUp.messageSerial
  agrees : p.isGetAllClients = true ∨ p.polled.isSome = true ∧ w.seen.isSome = true →
    (w.caughtUp.hearAll (sent.map .packet)).nameMap.lookup u = w.server.nameMap.lookup u ∧
      (w.caughtUp.hearAll (sent.map .packet)).messageSerial < w.server.log.length
  logged : sent ≠ [] → 0 < t.log.length

/-- Replayed over an older entry for u, a window of the log gives the current one: the last
    change of u is in the window, or there was none to miss. -/
theorem window_agrees {s : Server} (mirrored : Mirrored s) {u : Int} {old : Option String}
    {a b : Nat} (later : a ≤ b) (reached : old = s.nameMap.lookup u ∨
      ∃ e ∈ s.log.drop b, (e.writes u).isSome = true) :
    (latest Entry.writes u (s.log.drop a)).getD old = s.nameMap.lookup u := by
  have current := mirrored.names u
  cases last : latest Entry.writes u (s.log.drop a) with
  | some name =>
    rw [latest_suffix (List.drop_suffix a s.log) last] at current
    exact current.symm
  | none =>
    rcases reached with unchanged | ⟨e, mem, writes⟩
    · exact unchanged
    · have within := (List.drop_suffix_drop_left s.log later).mem mem
      rw [latest_eq_none.mp last e within] at writes
      cases writes

theorem messages_heard {u : Int} {w : Chat} {p : Packet} {m : Moment} {t : Server}
    {sent : List Packet} {messageID : Int} (follows : Follows u w)
    (head : w.requests.head? = some p) (reaches : w.Reaches u (.serve m))
    (longer : w.server.log.length ≤ t.log.length) (poll : p.polled = some messageID)
    (users : p.isGetAllClients = false) (reply : w.server.reply messageID = .ok sent) :
    Heard u w p t sent := by
  have start : 0 ≤ w.caughtUp.messageSerial :=
    follows.cursor.trans (hearAll_mono w.client w.replies)
  have behind := follows.behind
  have low := follows.polls p (List.mem_of_head? head) messageID poll
  have whole := reply_sent follows.logged low reply
  have count : sent.length = w.server.log.length - (w.server.firstSent messageID).toNat := by
    rw [whole, replyFrom_length]
  have logged : sent ≠ [] → 0 < t.log.length := fun ne => by
    have := List.length_pos_iff.mpr ne
    omega
  rcases Nat.eq_zero_or_pos w.server.log.length with empty | some
  · have none : sent = [] := List.eq_nil_of_length_eq_zero (by omega)
    subst none
    refine ⟨behind, fun _ _ => ⟨rfl, rfl⟩, ?_, logged⟩
    rintro (snapshot | ⟨-, counted⟩)
    · simp [users] at snapshot
    · obtain ⟨taken, seen⟩ := Option.isSome_iff_exists.mp counted
      have := follows.ahead taken seen
      omega
  · obtain ⟨cursor, names⟩ := hear_reply follows.mirrored whole start
      (show w.caughtUp.messageSerial < w.server.log.length by omega)
    refine ⟨by omega, fun _ quiet => by simp [poll] at quiet, ?_, logged⟩
    rintro (snapshot | ⟨-, counted⟩)
    · simp [users] at snapshot
    · obtain ⟨taken, seen⟩ := Option.isSome_iff_exists.mp counted
      obtain ⟨same, after, -⟩ := follows.ahead taken seen
      have reached := reaches p head messageID poll taken seen
      rw [← same] at reached
      exact ⟨(names u).trans (window_agrees follows.mirrored (by omega) reached), cursor⟩

theorem answer_heard {u : Int} {w : Chat} {p : Packet} {m : Moment} {t : Server}
    {sent : List Packet} (follows : Follows u w) (head : w.requests.head? = some p)
    (reaches : w.Reaches u (.serve m)) (longer : w.server.log.length ≤ t.log.length)
    (answer : Answer w.server t p m sent) : Heard u w p t sent := by
  have behind := follows.behind
  cases answer with
  | silent poll users =>
    exact ⟨behind, fun _ _ => ⟨rfl, rfl⟩, fun asked => by simp [poll, users] at asked,
      fun ne => absurd rfl ne⟩
  | welcome poll users userID told =>
    exact ⟨behind, fun _ _ => ⟨rfl, rfl⟩, fun asked => by simp [poll, users] at asked,
      fun _ => told⟩
  | users poll users all =>
    have some : 0 < w.server.log.length :=
      follows.signedIn (.inl ⟨p, List.mem_of_head? head, users⟩)
    refine ⟨behind, fun other => by simp [users] at other,
      fun _ => ⟨snapshot_lookup all u, ?_⟩, fun _ => Nat.lt_of_lt_of_le some longer⟩
    change w.caughtUp.messageSerial < (w.server.log.length : Int)
    omega
  | messages messageID poll users _ reply =>
    exact messages_heard follows head reaches longer poll users reply

theorem caughtUp_answered (w : Chat) (p : Packet) (t : Server) (sent : List Packet) :
    (w.answered p t sent).caughtUp = w.caughtUp.hearAll (sent.map .packet) := by
  simp only [Chat.caughtUp, Chat.answered, hearAll_append]
  split <;> rfl

theorem follows_answered {u : Int} {w : Chat} {p : Packet} {t : Server} {sent : List Packet}
    (follows : Follows u w) (moves : Moves w.server t) (heard : Heard u w p t sent) :
    Follows u (w.answered p t sent) := by
  have longer := moves_log moves
  refine ⟨logged_moves follows.logged moves, mirrored_moves follows.logged follows.mirrored moves,
    follows.cursor, ?_, ?_, ?_, ?_, ?_⟩
  · have behind := heard.behind
    rw [caughtUp_answered]
    change _ < max 1 (t.log.length : Int)
    omega
  · intro q mem
    exact follows.polls q (List.mem_of_mem_tail mem)
  · rintro (⟨q, mem, snapshot⟩ | ⟨q, mem, path⟩)
    · exact Nat.lt_of_lt_of_le
        (follows.signedIn (.inl ⟨q, List.mem_of_mem_tail mem, snapshot⟩)) longer
    · rcases List.mem_append.mp mem with mem | ended
      · rcases List.mem_append.mp mem with old | new
        · exact Nat.lt_of_lt_of_le (follows.signedIn (.inr ⟨q, old, path⟩)) longer
        · exact heard.logged fun none => by simp [none] at new
      · split at ended <;> simp at ended
  · intro taken mem
    rw [caughtUp_answered]
    simp only [Chat.answered] at mem ⊢
    split at mem
    · rename_i counts
      cases mem
      rw [Bool.or_eq_true, Bool.and_eq_true] at counts
      obtain ⟨same, after⟩ := heard.agrees counts
      exact ⟨same, after, longer⟩
    · rename_i quiet
      rw [Bool.or_eq_true, Bool.and_eq_true, not_or] at quiet
      have seen : w.seen.isSome = true := Option.isSome_iff_exists.mpr ⟨taken, mem⟩
      have poll : p.polled = none := by
        by_contra asked
        exact quiet.2 ⟨Option.isSome_iff_ne_none.mpr asked, seen⟩
      obtain ⟨names, cursor⟩ := heard.kept (Bool.eq_false_iff.mpr quiet.1) poll
      obtain ⟨same, after, within⟩ := follows.ahead taken mem
      exact ⟨(congrArg (AList.lookup u) names).trans same, cursor ▸ after, within.trans longer⟩
  · simp only [Chat.answered]
    refine marked_append.mpr ⟨marked_append.mpr ⟨follows.marked, marked_packets _ _ _⟩, ?_⟩
    split
    · rename_i counts
      rw [Bool.and_eq_true] at counts
      rw [hearAll_append]
      exact ⟨(heard.agrees (.inr counts)).1, trivial⟩
    · trivial

theorem follows_step {u : Int} {w next : Chat} {e : Event} (follows : Follows u w)
    (reaches : w.Reaches u e) (step : w.step e = some next) : Follows u next := by
  cases chat_cases step with
  | command taken => exact follows_moves follows (step_moves follows.logged taken)
  | connect clientName =>
    have closed : Follows u (w.close w.client) := follows_close follows rfl
    have opened : Follows u { w.close w.client with
        client := { w.client with connected := true } } :=
      ⟨closed.logged, closed.mirrored, closed.cursor, closed.behind, closed.polls,
        closed.signedIn, fun taken mem => (by cases mem), trivial⟩
    exact follows_request opened (fun _ mem => by cases mem) (fun asked => by cases asked)
  | close cursor => exact follows_close follows cursor
  | send poll users =>
    exact follows_send follows (fun messageID mem => poll messageID mem ▸ follows.cursor) users
  | serve head all ran =>
    have moves := handle_moves follows.logged ran
    exact follows_answered follows moves (answer_heard follows head reaches (moves_log moves)
      (handle_answer follows.logged all ran))
  | hear step => exact follows_hear follows step

instance (u : Int) (w : Chat) : ∀ e, Decidable (w.Reaches u e)
  | .serve _ => inferInstanceAs (Decidable (∀ p ∈ w.requests.head?, ∀ messageID ∈ p.polled,
      ∀ taken ∈ w.seen, taken.1.lookup u = w.server.nameMap.lookup u ∨
        ∃ e ∈ w.server.log.drop (max taken.2 (w.server.replyStart messageID)),
          (e.writes u).isSome = true))
  | .command _ _ | .connect _ | .disconnect | .lose | .poll | .rename _ | .sendMessage _ _ _
  | .hear => isTrue trivial

def Chat.completed (w : Chat) : Option Names :=
  match w.replies with
  | .complete names :: _ => some names
  | _ => none

/-- At the end of every reply the client's entry for u is the one the server had. -/
def Replicates (u : Int) (start : Chat) (es : List Event) : Prop :=
  ∀ w, start.run es = some w → ∀ names ∈ w.completed, w.client.nameMap.lookup u = names.lookup u

theorem membership_replicates (timeout M u : Int) {es : List Event}
    (reaches : Along Chat.step (Chat.Reaches u) (Chat.new timeout M) es) :
    Replicates u (Chat.new timeout M) es := by
  intro w ran names ended
  have follows := run_invariant (Follows u)
    (fun _ _ _ follows reaches step => follows_step follows reaches step)
    (follows_new timeout M u) reaches ran
  have marked := follows.marked
  unfold Chat.completed at ended
  split at ended
  · rename_i found rest shape
    rw [shape] at marked
    cases ended
    exact marked.1
  · cases ended

def joined : List Event :=
  [.connect "ann", .serve ⟨0, []⟩, .hear, .serve ⟨0, [1]⟩, .hear]

def signsIn (name : String) : Event := .command ⟨"/chatSignIn", [.string name]⟩ ⟨1, []⟩

theorem membership_replicates_joined : Replicates 2 (Chat.new 10 3)
    (joined ++ [signsIn "bob", .rename "anna", .serve ⟨1, []⟩,
      .command ⟨"/chatSignOut", [.int 2]⟩ ⟨1, []⟩, signsIn "cy", .poll, .serve ⟨2, [1]⟩,
      .hear, .hear, .hear]) :=
  membership_replicates 10 3 2 (by decide +kernel)

def crowd : List Event :=
  joined ++ [signsIn "bob", signsIn "cy", signsIn "dee", signsIn "eve", .poll, .serve ⟨2, [1]⟩,
    .hear, .hear, .hear]

theorem crowd_cut_off : ¬ Replicates 2 (Chat.new 10 3) crowd := by
  intro replicates
  have ends : ∃ w ∈ (Chat.new 10 3).run crowd, ∃ names ∈ w.completed,
      w.client.nameMap.lookup 2 = none ∧ names.lookup 2 = some "bob" := by decide +kernel
  obtain ⟨w, ran, names, ended, missing, known⟩ := ends
  have agree := replicates w ran names ended
  rw [missing, known] at agree
  cases agree

end SCLOrkChat
