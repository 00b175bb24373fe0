import Mathlib.Logic.Relation
import SCLOrkTools.Chat.Server

/- The message log of the chat server. Whatever command runs, the server only ever adds
   numbered messages to it, and its ring holds the newest 128. -/
namespace SCLOrkChat
open RingBuffer GuardedRun

theorem ok_bind {α β : Type} (a : α) (f : α → Except Fault β) : (Except.ok a >>= f) = f a := rfl

theorem bind_ok {α β : Type} {x : Except Fault α} {f : α → Except Fault β} {b : β}
    (ran : (x >>= f) = .ok b) : ∃ a, x = .ok a ∧ f a = .ok b := by
  cases x with
  | ok a => exact ⟨a, rfl, ran⟩
  | error e => cases ran

theorem error_bind {α β : Type} (e : Fault) (f : α → Except Fault β) :
    (Except.error e >>= f) = .error e := rfl

theorem int32_ok {i : Int} (low : int32Min ≤ i) (high : i ≤ int32Max) : int32 i = .ok i :=
  if_pos ⟨low, high⟩

theorem int32_overflow {i : Int} (high : int32Max < i) : int32 i = .error .overflow :=
  if_neg fun fits => Int.lt_irrefl i (Int.lt_of_le_of_lt fits.2 high)

theorem int32_exact {i j : Int} (fits : int32 i = .ok j) : j = i := by
  unfold int32 at fits
  split at fits
  · exact (Except.ok.inj fits).symm
  · cases fits

theorem slotOf_natCast (n : Nat) : slotOf n = .ok (n % kMessageArraySize) := by
  have index : (n : Int).tmod kMessageArraySize = ((n % kMessageArraySize : Nat) : Int) :=
    (Int.ofNat_tmod n kMessageArraySize).symm
  have inside : n % kMessageArraySize < kMessageArraySize := Nat.mod_lt n (by decide)
  have fits : 0 ≤ ((n % kMessageArraySize : Nat) : Int) ∧
      ((n % kMessageArraySize : Nat) : Int) < kMessageArraySize :=
    ⟨Int.natCast_nonneg _, Int.ofNat_lt.mpr inside⟩
  simp only [slotOf, index, fits, and_self, if_true, Int.toNat_natCast]

theorem slotOf_minus_one : slotOf (-1) = .error .badIndex := by decide

structure Logged (s : Server) : Prop where
  serial : s.messageSerial = s.log.length
  size : s.slots.size = kMessageArraySize
  ring : Tracks (fun i => s.log[i]?) (s.log.length - kMessageArraySize) s.log.length s.slots
  numbered : ∀ (i : Nat) e, s.log[i]? = some e → e.message.args.head? = some (.int i)
  bounded : s.messageSerial ≤ int32Max

theorem logged_new (timeout M : Int) : Logged (Server.new timeout M) where
  serial := rfl
  size := size_clear _
  ring := ⟨by simp [Server.new], fun i _ below => absurd below (Nat.not_lt_zero i)⟩
  numbered := fun i e found => by simp [Server.new] at found
  bounded := (by decide : (0 : Int) ≤ int32Max)

theorem logged_same {s t : Server} (logged : Logged s) (serial : t.messageSerial = s.messageSerial)
    (slots : t.slots = s.slots) (log : t.log = s.log) : Logged t := by
  constructor
  · rw [serial, log, logged.serial]
  · rw [slots, logged.size]
  · rw [slots, log]
    exact logged.ring
  · rw [log]
    exact logged.numbered
  · rw [serial]
    exact logged.bounded

theorem wrapAt_index {s : Server} (logged : Logged s) (n : Nat) :
    s.slots.wrapAt (n % kMessageArraySize) = s.slots.wrapAt n := by
  simp only [WrapArray.wrapAt, logged.size, Nat.mod_mod]

theorem wrapPut_index {s : Server} (logged : Logged s) (n : Nat) (e : Option Entry) :
    s.slots.wrapPut (n % kMessageArraySize) e = s.slots.wrapPut n e := by
  simp only [WrapArray.wrapPut, logged.size, Nat.mod_mod]

def Server.queued (s : Server) (path : String) (message : Message) : Server :=
  { s with
    freed := if s.log.length > kMessageArraySize then
        s.freed ++ ((s.slots.wrapAt s.log.length).map (·.message.handle)).toList
      else s.freed
    slots := s.slots.wrapPut s.log.length (some ⟨path, message⟩)
    messageSerial := s.messageSerial + 1
    log := s.log ++ [⟨path, message⟩] }

/-- Position n and position n - 128 share a slot, and the older one is still there. -/
theorem oldest_held {s : Server} (logged : Logged s) (full : kMessageArraySize ≤ s.log.length) :
    ∃ old, s.slots.wrapAt s.log.length = some old := by
  have slot : s.slots.wrapAt (s.log.length - kMessageArraySize) =
      s.slots.wrapAt s.log.length := by
    have := wrapAt_add_size s.slots (s.log.length - kMessageArraySize)
    rw [logged.size, Nat.sub_add_cancel full] at this
    exact this.symm
  have positive : 0 < kMessageArraySize := by decide
  have below : s.log.length - kMessageArraySize < s.log.length := by omega
  rw [← slot, logged.ring.2 _ (Nat.le_refl _) below]
  exact ⟨_, List.getElem?_eq_getElem below⟩

theorem freeSlot_eq {s : Server} (logged : Logged s) :
    s.freeSlot (s.log.length % kMessageArraySize) = .ok { s with
      freed := if s.log.length > kMessageArraySize then
          s.freed ++ ((s.slots.wrapAt s.log.length).map (·.message.handle)).toList
        else s.freed } := by
  have full : s.messageSerial > kMessageArraySize ↔ s.log.length > kMessageArraySize := by
    rw [logged.serial]
    exact Int.ofNat_lt
  by_cases old : s.log.length > kMessageArraySize
  · obtain ⟨held, at_slot⟩ := oldest_held logged (Nat.le_of_lt old)
    simp only [Server.freeSlot, full, old, ↓reduceIte, Server.slotAt, wrapAt_index logged, at_slot]
    rfl
  · simp only [Server.freeSlot, full, old, ↓reduceIte]
    rfl

theorem queueMessage_eq {s : Server} (logged : Logged s) (path : String) (message : Message) :
    s.queueMessage path message =
      if s.messageSerial < int32Max then .ok (s.queued path message) else .error .overflow := by
  have index : slotOf s.messageSerial = .ok (s.log.length % kMessageArraySize) := by
    rw [logged.serial, slotOf_natCast]
  have := logged.serial
  simp only [Server.queueMessage, index, ok_bind, freeSlot_eq logged]
  by_cases room : s.messageSerial < int32Max
  · rw [if_pos room, int32_ok (by simp only [int32Min]; omega) (by omega), ok_bind,
      wrapPut_index logged]
    rfl
  · rw [if_neg room, int32_overflow (by omega), error_bind]

theorem each_snoc {P : Nat → Entry → Prop} {log : List Entry} {e : Entry}
    (each : ∀ i f, log[i]? = some f → P i f) (newest : P log.length e) :
    ∀ i f, (log ++ [e])[i]? = some f → P i f := by
  intro i f found
  rw [List.getElem?_append] at found
  split at found
  · exact each i f found
  · obtain ⟨zero, rfl⟩ := List.getElem?_eq_some_iff.mp found
    have last : i = log.length := by simp at zero; omega
    simpa [last] using newest

theorem logged_queued {s : Server} (logged : Logged s) {path : String} {message : Message}
    (room : s.messageSerial < int32Max)
    (first : message.args.head? = some (.int s.messageSerial)) :
    Logged (s.queued path message) where
  serial := by simp [Server.queued, logged.serial]
  size := by simp [Server.queued, logged.size]
  ring := by
    have positive : 0 < kMessageArraySize := by decide
    have size := logged.size
    simp only [Server.queued, List.length_append, List.length_singleton]
    have older : Tracks (fun i => (s.log ++ [⟨path, message⟩])[i]?)
        (s.log.length - kMessageArraySize) s.log.length s.slots :=
      ⟨logged.ring.1, fun i above below =>
        (logged.ring.2 i above below).trans (List.getElem?_append_left below).symm⟩
    exact tracks_push older (by omega) (by omega) (by omega) (by simp)
  numbered := each_snoc logged.numbered (first.trans (by rw [logged.serial]))
  bounded := by simp only [Server.queued]; omega

def Server.changed (s : Server) (type : String) (userID : Int) (name : String) : Server :=
  s.messageNew.queued "/chatChangeClient"
    ⟨s.allocated, changeClient s.messageSerial type userID name⟩

theorem logged_messageNew {s : Server} (logged : Logged s) : Logged s.messageNew :=
  logged_same logged rfl rfl rfl

theorem queueChange_eq {s : Server} (logged : Logged s) (type : String) (userID : Int)
    (name : String) : s.queueChange type userID name =
      if s.messageSerial < int32Max then .ok (s.changed type userID name)
      else .error .overflow :=
  queueMessage_eq (logged_messageNew logged) _ _

theorem logged_changed {s : Server} (logged : Logged s) (type : String) (userID : Int)
    (name : String) (room : s.messageSerial < int32Max) : Logged (s.changed type userID name) :=
  logged_queued (logged_messageNew logged) room rfl

/-- All that a command can do to the log and the users: leave both alone, log a chat
    message, or log a change together with making it. -/
inductive Move : Server → Server → Prop
  | idle {s t : Server} (cap : t.maxMessagesPerRequest = s.maxMessagesPerRequest)
      (names : t.nameMap = s.nameMap) (serial : t.messageSerial = s.messageSerial)
      (slots : t.slots = s.slots) (log : t.log = s.log) : Move s t
  | chat {s : Server} (args : List Arg) (room : s.messageSerial < int32Max) :
      Move s (s.messageNew.queued "/chatReceive" ⟨s.allocated, .int s.messageSerial :: args⟩)
  | put {s : Server} (type : String) (kind : type = "add" ∨ type = "rename") (userID : Int)
      (name : String) (room : s.messageSerial < int32Max) :
      Move s { s.changed type userID name with nameMap := s.nameMap.insert userID name }
  | erase {s : Server} (type : String) (kind : type = "remove" ∨ type = "timeout")
      (userID : Int) (name : String) (room : s.messageSerial < int32Max) :
      Move s { s.changed type userID name with nameMap := s.nameMap.erase userID }

theorem logged_move {s t : Server} (logged : Logged s) (move : Move s t) : Logged t := by
  cases move with
  | idle cap names serial slots log => exact logged_same logged serial slots log
  | chat args room => exact logged_queued (logged_messageNew logged) room rfl
  | put type kind userID name room | erase type kind userID name room =>
    exact logged_same (logged_changed logged type userID name room) rfl rfl rfl

abbrev Moves : Server → Server → Prop := Relation.ReflTransGen Move

theorem logged_moves {s t : Server} (logged : Logged s) (moves : Moves s t) : Logged t := by
  induction moves with
  | refl => exact logged
  | tail _ move ih => exact logged_move ih move

theorem moves_cap {s t : Server} (moves : Moves s t) :
    t.maxMessagesPerRequest = s.maxMessagesPerRequest := by
  induction moves with
  | refl => rfl
  | tail _ move ih =>
    rw [← ih]
    cases move with
    | idle cap names serial slots log => exact cap
    | chat | put | erase => rfl

theorem queueChange_ok {s t : Server} (logged : Logged s) {type : String} {userID : Int}
    {name : String} (ran : s.queueChange type userID name = .ok t) :
    s.messageSerial < int32Max ∧ t = s.changed type userID name := by
  rw [queueChange_eq logged] at ran
  split at ran
  · rename_i room
    exact ⟨room, (Except.ok.inj ran).symm⟩
  · cases ran

def Server.expired (s : Server) (cutTime userID : Int) : Bool :=
  (s.clientPings.lookup userID).any (· ≤ cutTime) && (s.nameMap.lookup userID).isSome

def Server.evicted (s : Server) (userID : Int) (name : String) : Server :=
  { s.changed "timeout" userID name with
    nameMap := s.nameMap.erase userID
    clientPings := s.clientPings.erase userID }

theorem sweepOne_expired {s : Server} (logged : Logged s) {cutTime userID : Int}
    (expired : s.expired cutTime userID = true) :
    ∃ name, s.sweepOne cutTime userID =
      if s.messageSerial < int32Max then .ok (s.evicted userID name) else .error .overflow := by
  obtain ⟨stale, known⟩ := Bool.and_eq_true_iff.mp expired
  obtain ⟨ping, pinged, old⟩ := (Option.any_eq_true _ _).mp stale
  obtain ⟨name, named⟩ := Option.isSome_iff_exists.mp known
  refine ⟨name, ?_⟩
  simp only [Server.sweepOne, pinged, of_decide_eq_true old, named, queueChange_eq logged, if_true]
  split <;> rfl

theorem sweepOne_kept {s : Server} {cutTime userID : Int}
    (kept : s.expired cutTime userID = false) :
    ∃ pings : Pings, s.sweepOne cutTime userID = .ok { s with clientPings := pings } ∧
      ∀ other ≠ userID, pings.lookup other = s.clientPings.lookup other := by
  cases pinged : s.clientPings.lookup userID with
  | none => exact ⟨s.clientPings, by simp [Server.sweepOne, pinged], fun _ _ => rfl⟩
  | some ping =>
    by_cases old : ping ≤ cutTime
    · have unnamed : s.nameMap.lookup userID = none := by
        simpa [Server.expired, pinged, old] using kept
      refine ⟨s.clientPings.erase userID, ?_, fun other ne => AList.lookup_erase_ne ne⟩
      simp only [Server.sweepOne, pinged, old, unnamed, if_true]
      rfl
    · exact ⟨s.clientPings, by simp [Server.sweepOne, pinged, old], fun _ _ => rfl⟩

def Server.stale (s : Server) (cutTime id : Int) : Prop :=
  ∃ ping ∈ s.clientPings.lookup id, ping ≤ cutTime

theorem sweepOne_cases {s t : Server} (logged : Logged s) {cutTime userID : Int}
    (ran : s.sweepOne cutTime userID = .ok t) :
    (¬ s.stale cutTime userID ∧ t = s) ∨
    (s.stale cutTime userID ∧ s.nameMap.lookup userID = none ∧
      t = { s with clientPings := s.clientPings.erase userID }) ∨
    (s.stale cutTime userID ∧ ∃ name, s.nameMap.lookup userID = some name ∧
      s.messageSerial < int32Max ∧ t = s.evicted userID name) := by
  unfold Server.sweepOne at ran
  cases pinged : s.clientPings.lookup userID with
  | none =>
    rw [pinged] at ran
    cases ran
    exact Or.inl ⟨by simp [Server.stale, pinged], rfl⟩
  | some ping =>
    rw [pinged] at ran
    by_cases old : ping ≤ cutTime
    · have stale : s.stale cutTime userID := ⟨ping, pinged, old⟩
      cases named : s.nameMap.lookup userID with
      | none =>
        simp only [old, if_true, named] at ran
        cases ran
        exact Or.inr (Or.inl ⟨stale, rfl, rfl⟩)
      | some name =>
        simp only [old, if_true, named] at ran
        obtain ⟨v, told, ran⟩ := bind_ok ran
        cases ran
        obtain ⟨room, rfl⟩ := queueChange_ok logged told
        exact Or.inr (Or.inr ⟨stale, name, rfl, room, rfl⟩)
    · simp only [old, if_false] at ran
      cases ran
      exact Or.inl ⟨by simpa [Server.stale, pinged] using old, rfl⟩

theorem sweepOne_moves {s t : Server} (logged : Logged s) {cutTime userID : Int}
    (ran : s.sweepOne cutTime userID = .ok t) : Moves s t := by
  rcases sweepOne_cases logged ran with ⟨-, rfl⟩ | ⟨-, -, rfl⟩ | ⟨-, name, -, room, rfl⟩
  · exact .refl
  · exact .single (.idle rfl rfl rfl rfl rfl)
  · exact .tail (.single (.erase "timeout" (.inr rfl) userID name room))
      (.idle rfl rfl rfl rfl rfl)

theorem sweep_moves {s t : Server} (logged : Logged s) {cutTime : Int} {order : List Int}
    (ran : s.sweep cutTime order = .ok t) : Moves s t := by
  induction order generalizing s with
  | nil =>
    cases ran
    exact .refl
  | cons userID order ih =>
    obtain ⟨mid, first, rest⟩ := bind_ok ran
    have moves := sweepOne_moves logged first
    exact moves.trans (ih (logged_moves logged moves) rest)

theorem sweep_ok_iff {s : Server} (logged : Logged s) {cutTime : Int} {order : List Int}
    (once : order.Nodup) : (∃ t, s.sweep cutTime order = .ok t) ↔
      s.messageSerial + order.countP (s.expired cutTime) ≤ int32Max := by
  induction order generalizing s with
  | nil => exact ⟨fun _ => by simpa using logged.bounded, fun _ => ⟨s, rfl⟩⟩
  | cons userID order ih =>
    obtain ⟨fresh, once⟩ := List.nodup_cons.mp once
    have others {t : Server} (same : ∀ other ≠ userID,
        t.expired cutTime other = s.expired cutTime other) :
        order.countP (t.expired cutTime) = order.countP (s.expired cutTime) :=
      List.countP_congr fun other mem => by
        rw [same other fun eq => fresh (eq ▸ mem)]
    cases expired : s.expired cutTime userID with
    | true =>
      obtain ⟨name, turn⟩ := sweepOne_expired logged expired
      have sweep : s.sweep cutTime (userID :: order) =
          (s.sweepOne cutTime userID >>= fun t => t.sweep cutTime order) := rfl
      rw [List.countP_cons_of_pos expired, sweep, turn]
      by_cases room : s.messageSerial < int32Max
      · rw [if_pos room, ok_bind]
        have logged' : Logged (s.evicted userID name) :=
          logged_same (logged_changed logged "timeout" userID name room) rfl rfl rfl
        rw [ih logged' once, others fun other ne => by
          simp only [Server.expired, Server.evicted, AList.lookup_erase_ne ne]]
        simp only [Server.evicted, Server.changed, Server.queued, Server.messageNew]
        omega
      · rw [if_neg room, error_bind]
        exact iff_of_false (by rintro ⟨t, ⟨⟩⟩) (by omega)
    | false =>
      obtain ⟨pings, turn, same⟩ := sweepOne_kept expired
      have sweep : s.sweep cutTime (userID :: order) =
          (s.sweepOne cutTime userID >>= fun t => t.sweep cutTime order) := rfl
      rw [List.countP_cons_of_neg (by simp [expired]), sweep, turn, ok_bind]
      have logged' : Logged { s with clientPings := pings } := logged_same logged rfl rfl rfl
      rw [ih logged' once, others fun other ne => by simp only [Server.expired, same other ne]]

/-- The messages sent in answer to a request, by the first two parts of its handler. -/
def Server.reply (s : Server) (messageID : Int) : Except Fault (List Packet) :=
  s.truncate messageID >>= s.messagesAfter

/-- All that a command can do when it does not fault, with what it sends back. -/
inductive Handled (s : Server) (p : Packet) (m : Moment) : Server → List Packet → Prop
  | signIn (command : getCommandNamed p.path = .kSignIn) (name : String) (userID : Int)
      (args : p.args = [.string name]) (room : s.messageSerial < int32Max) :
      Handled s p m
        (Server.changed { s with userSerial := userID, nameMap := s.nameMap.insert userID name }
          "add" userID name)
        [⟨"/chatSignInComplete", [.int userID]⟩]
  | getAllClients (command : getCommandNamed p.path = .kGetAllClients) :
      Handled s p m (s.messageNew.messageFree ⟨s.allocated, s.clientNames m.order⟩)
        [⟨"/chatSetAllClients", s.clientNames m.order⟩]
  | getMessages (command : getCommandNamed p.path = .kGetMessages) (userID messageID : Int)
      (args : p.args = [.int userID, .int messageID]) {t : Server} {sent : List Packet}
      (reply : s.reply messageID = .ok sent)
      (swept : (s.ping userID m.now).sweep (m.now - s.timeout) m.order = .ok t) :
      Handled s p m t sent
  | sendMessage (command : getCommandNamed p.path = .kSendMessage)
      (whole : p.args.all Arg.supported = true) (room : s.messageSerial < int32Max) :
      Handled s p m
        (s.messageNew.queued "/chatReceive" ⟨s.allocated, .int s.messageSerial :: p.args⟩) []
  | abandoned (command : getCommandNamed p.path = .kSendMessage)
      (strange : p.args.all Arg.supported = false) : Handled s p m s.messageNew []
  | changeName (command : getCommandNamed p.path = .kChangeName) (userID : Int) (name : String)
      (args : p.args = [.int userID, .string name]) (room : s.messageSerial < int32Max) :
      Handled s p m
        (Server.changed { s with nameMap := s.nameMap.insert userID name } "rename" userID name) []
  | signOut (command : getCommandNamed p.path = .kSignOut) (userID : Int) (name : String)
      (args : p.args = [.int userID]) (named : s.nameMap.lookup userID = some name)
      (room : s.messageSerial < int32Max) :
      Handled s p m
        { s.changed "remove" userID name with nameMap := s.nameMap.erase userID } []
  | ignored (unfit : match getCommandNamed p.path with
      | .kSignIn => ∀ name, p.args ≠ [.string name]
      | .kGetMessages => ∀ userID messageID, p.args ≠ [.int userID, .int messageID]
      | .kChangeName => ∀ userID name, p.args ≠ [.int userID, .string name]
      | .kSignOut => ∀ userID ∈ s.nameMap, p.args ≠ [.int userID]
      | .kNotFound => True
      | .kGetAllClients | .kSendMessage => False) : Handled s p m s []

section Handlers
variable {s t : Server} {sent : List Packet} {p : Packet} {m : Moment}

theorem signIn_handled (logged : Logged s) (command : getCommandNamed p.path = .kSignIn)
    (ran : s.signIn p.args = .ok (t, sent)) : Handled s p m t sent := by
  unfold Server.signIn at ran
  split at ran
  · rename_i name args
    obtain ⟨userID, -, ran⟩ := bind_ok ran
    obtain ⟨u, told, ran⟩ := bind_ok ran
    cases ran
    have named : Logged { s with
        userSerial := userID, nameMap := s.nameMap.insert userID name } :=
      logged_same logged rfl rfl rfl
    obtain ⟨room, rfl⟩ := queueChange_ok named told
    exact .signIn command name userID args room
  · rename_i other
    cases ran
    exact .ignored (by rw [command]; exact other)

theorem getMessages_handled (command : getCommandNamed p.path = .kGetMessages)
    (ran : s.getMessages m.now m.order p.args = .ok (t, sent)) : Handled s p m t sent := by
  unfold Server.getMessages at ran
  split at ran
  · rename_i userID messageID args
    obtain ⟨last, cut, ran⟩ := bind_ok ran
    obtain ⟨found, looped, ran⟩ := bind_ok ran
    obtain ⟨u, swept, ran⟩ := bind_ok ran
    cases ran
    have reply : s.reply messageID = .ok sent := by rw [Server.reply, cut, ok_bind, looped]
    exact .getMessages command userID messageID args reply swept
  · rename_i other
    cases ran
    exact .ignored (by rw [command]; exact other)

theorem sendMessage_handled (logged : Logged s) (command : getCommandNamed p.path = .kSendMessage)
    (ran : s.sendMessage p.args = .ok (t, sent)) : Handled s p m t sent := by
  unfold Server.sendMessage at ran
  cases whole : p.args.all Arg.supported with
  | true =>
    rw [if_pos whole] at ran
    obtain ⟨u, told, ran⟩ := bind_ok ran
    cases ran
    rw [queueMessage_eq (logged_messageNew logged)] at told
    split at told
    · rename_i room
      cases told
      exact .sendMessage command whole room
    · cases told
  | false =>
    rw [whole] at ran
    cases ran
    exact .abandoned command whole

theorem changeName_handled (logged : Logged s) (command : getCommandNamed p.path = .kChangeName)
    (ran : s.changeName p.args = .ok (t, sent)) : Handled s p m t sent := by
  unfold Server.changeName at ran
  split at ran
  · rename_i userID name args
    obtain ⟨u, told, ran⟩ := bind_ok ran
    cases ran
    have named : Logged { s with nameMap := s.nameMap.insert userID name } :=
      logged_same logged rfl rfl rfl
    obtain ⟨room, rfl⟩ := queueChange_ok named told
    exact .changeName command userID name args room
  · rename_i other
    cases ran
    exact .ignored (by rw [command]; exact other)

theorem signOut_handled (logged : Logged s) (command : getCommandNamed p.path = .kSignOut)
    (ran : s.signOut p.args = .ok (t, sent)) : Handled s p m t sent := by
  unfold Server.signOut at ran
  split at ran
  · rename_i userID args
    split at ran
    · rename_i unnamed
      cases ran
      refine .ignored ?_
      rw [command]
      intro id there same
      cases args.symm.trans same
      exact AList.lookup_eq_none.mp unnamed there
    · rename_i name named
      obtain ⟨u, told, ran⟩ := bind_ok ran
      cases ran
      obtain ⟨room, rfl⟩ := queueChange_ok logged told
      exact .signOut command userID name args named room
  · rename_i other
    cases ran
    refine .ignored ?_
    rw [command]
    exact fun id _ => other id

theorem handle_cases (logged : Logged s) (ran : s.handleMessage p m = .ok (t, sent)) :
    Handled s p m t sent := by
  unfold Server.handleMessage at ran
  split at ran <;> rename_i command
  · exact signIn_handled logged command ran
  · cases ran
    exact .getAllClients command
  · exact getMessages_handled command ran
  · exact sendMessage_handled logged command ran
  · exact changeName_handled logged command ran
  · exact signOut_handled logged command ran
  · cases ran
    exact .ignored (by rw [command]; trivial)

end Handlers

theorem handle_moves {s t : Server} {sent : List Packet} (logged : Logged s) {p : Packet}
    {m : Moment} (ran : s.handleMessage p m = .ok (t, sent)) : Moves s t := by
  cases handle_cases logged ran with
  | signIn _ name userID _ room =>
    exact .tail (.single (.idle (t := { s with userSerial := userID }) rfl rfl rfl rfl rfl))
      (.put "add" (.inl rfl) userID name room)
  | getAllClients => exact .single (.idle rfl rfl rfl rfl rfl)
  | getMessages _ userID _ _ _ swept =>
    have idle : Move s (s.ping userID m.now) := .idle rfl rfl rfl rfl rfl
    exact .head idle (sweep_moves (logged_move logged idle) swept)
  | sendMessage _ _ room => exact .single (.chat p.args room)
  | abandoned => exact .single (.idle rfl rfl rfl rfl rfl)
  | changeName _ userID name _ room => exact .single (.put "rename" (.inr rfl) userID name room)
  | signOut _ userID name _ _ room => exact .single (.erase "remove" (.inl rfl) userID name room)
  | ignored => exact .refl

theorem step_cases {s t : Server} {c : Packet × Moment} (step : s.step c = some t) :
    c.2.order.Perm (s.walked c.1 c.2) ∧ ∃ sent, s.handleMessage c.1 c.2 = .ok (t, sent) := by
  unfold Server.step at step
  split at step
  · rename_i walked
    split at step
    · rename_i next sent ran
      cases step
      exact ⟨walked, sent, ran⟩
    · cases step
  · cases step

theorem step_moves {s t : Server} {c : Packet × Moment} (logged : Logged s)
    (step : s.step c = some t) : Moves s t := by
  obtain ⟨-, sent, ran⟩ := step_cases step
  exact handle_moves logged ran

theorem run_logged {timeout M : Int} {s : Server} {cs : List (Packet × Moment)}
    (ran : (Server.new timeout M).run cs = some s) :
    Logged s ∧ s.maxMessagesPerRequest = M := by
  refine run_keeps (fun s => Logged s ∧ s.maxMessagesPerRequest = M) ?_
    ⟨logged_new timeout M, rfl⟩ ran
  rintro s c t ⟨logged, cap⟩ step
  have moves := step_moves logged step
  exact ⟨logged_moves logged moves, (moves_cap moves).trans cap⟩

end SCLOrkChat
