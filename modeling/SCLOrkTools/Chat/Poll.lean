import SCLOrkTools.Chat.Log

/- What /chatGetMessages answers, and which requests it can answer at all. -/
namespace SCLOrkChat
open RingBuffer GuardedRun

theorem mapM_ok {α β : Type} {f : α → Except Fault β} {g : α → Option β} {xs : List α}
    (each : ∀ x ∈ xs, ∃ y, f x = .ok y ∧ g x = some y) : xs.mapM f = .ok (xs.filterMap g) := by
  induction xs with
  | nil => rfl
  | cons x xs ih =>
    obtain ⟨y, fine, same⟩ := each x List.mem_cons_self
    rw [List.mapM_cons, fine, ok_bind, ih fun z mem => each z (List.mem_cons_of_mem x mem), ok_bind,
      List.filterMap_cons, same]
    rfl

theorem mapM_each {α β : Type} {f : α → Except Fault β} {xs : List α} {ys : List β}
    (ran : xs.mapM f = .ok ys) {x : α} (mem : x ∈ xs) : ∃ y, f x = .ok y := by
  induction xs generalizing ys with
  | nil => cases mem
  | cons z zs ih =>
    rw [List.mapM_cons] at ran
    obtain ⟨y, first, ran⟩ := bind_ok ran
    obtain ⟨rest, later, -⟩ := bind_ok ran
    rcases List.mem_cons.mp mem with rfl | mem
    · exact ⟨y, first⟩
    · exact ih later mem

/-- The position of the log that slot i mod 128 holds: the newest one congruent to i. -/
def Server.held (s : Server) (i : Nat) : Nat :=
  s.log.length - 1 - (s.log.length - 1 - i) % kMessageArraySize

theorem held_bounds {s : Server} {i : Nat} (below : i < s.log.length) :
    i ≤ s.held i ∧ s.held i < s.log.length ∧ s.log.length ≤ s.held i + kMessageArraySize := by
  simp only [Server.held, kMessageArraySize]
  omega

theorem held_recent {s : Server} {i : Nat} (below : i < s.log.length)
    (recent : s.log.length ≤ i + kMessageArraySize) : s.held i = i := by
  simp only [Server.held, kMessageArraySize] at recent ⊢
  omega

theorem wrapAt_held {s : Server} (logged : Logged s) {i : Nat} (below : i < s.log.length) :
    s.slots.wrapAt i = s.log[s.held i]? := by
  obtain ⟨-, inside, recent⟩ := held_bounds below
  have same : i % kMessageArraySize = s.held i % kMessageArraySize := by
    simp only [Server.held, kMessageArraySize]
    omega
  calc s.slots.wrapAt i = s.slots.wrapAt (s.held i) := by
        rw [← wrapAt_index logged i, same, wrapAt_index logged]
    _ = s.log[s.held i]? := logged.ring.2 _ (by omega) inside

def Server.replyFrom (s : Server) (n : Nat) : List Packet :=
  (List.range (s.log.length - n)).filterMap fun k => s.log[s.held (n + k)]?.map Entry.packet

theorem messagesAfter_eq {s : Server} (logged : Logged s) {last : Int} {n : Nat}
    (first : last + 1 = n) (room : last < int32Max) :
    s.messagesAfter last = .ok (s.replyFrom n) := by
  have serial := logged.serial
  have turns : (s.messageSerial - n).toNat = s.log.length - n := by omega
  rw [Server.messagesAfter, int32_ok (by simp only [int32Min]; omega) (by omega), ok_bind, first,
    turns]
  apply mapM_ok
  intro k mem
  have below : n + k < s.log.length := by
    have := List.mem_range.mp mem
    omega
  have inside := (held_bounds below).2.1
  refine ⟨s.log[s.held (n + k)].packet, ?_, by rw [List.getElem?_eq_getElem inside]; rfl⟩
  rw [Server.messageAt, show (n : Int) + k = ((n + k : Nat) : Int) by omega, slotOf_natCast,
    ok_bind, Server.slotAt, wrapAt_index logged, wrapAt_held logged below,
    List.getElem?_eq_getElem inside]
  rfl

theorem replyFrom_length {s : Server} (n : Nat) : (s.replyFrom n).length = s.log.length - n := by
  have all : ∀ k ∈ List.range (s.log.length - n),
      (s.log[s.held (n + k)]?.map Entry.packet).isSome = true := by
    intro k mem
    have := List.mem_range.mp mem
    have inside := (held_bounds (s := s) (i := n + k) (by omega)).2.1
    simp [inside]
  rw [Server.replyFrom, List.length_filterMap_eq_countP, List.countP_eq_length.mpr all,
    List.length_range]

theorem filterMap_range {α : Type} (xs : List α) :
    (List.range xs.length).filterMap (fun k => xs[k]?) = xs := by
  induction xs with
  | nil => rfl
  | cons x xs ih =>
    rw [List.length_cons, List.range_succ_eq_map, List.filterMap_cons, List.filterMap_map]
    exact congrArg (x :: ·) ih

/-- The first turn of the loop meets the position its slot holds and the next ones follow it
    to the end of the log. If the loop goes on, it is in messages sent before. -/
theorem replyFrom_split {s : Server} {n : Nat} (below : n < s.log.length) :
    ∃ again, s.replyFrom n = (s.log.drop (s.held n)).map Entry.packet ++ again ∧
      ∀ p ∈ again, ∃ e ∈ s.log, p = e.packet := by
  obtain ⟨ahead, inside, -⟩ := held_bounds below
  have turns : s.log.length - n =
      (s.log.drop (s.held n)).length + (s.held n - n) := by
    rw [List.length_drop]
    omega
  rw [Server.replyFrom, turns, List.range_add, List.filterMap_append]
  refine ⟨_, congrArg (· ++ _) ?_, ?_⟩
  · have follow : ∀ k ∈ List.range (s.log.drop (s.held n)).length,
        s.log[s.held (n + k)]?.map Entry.packet =
          ((s.log.drop (s.held n)).map Entry.packet)[k]? := by
      intro k mem
      have turn := List.mem_range.mp mem
      rw [List.length_drop] at turn
      have next : s.held (n + k) = s.held n + k := by
        simp only [Server.held, kMessageArraySize] at turn ⊢
        omega
      rw [next, List.getElem?_map, List.getElem?_drop]
    rw [List.filterMap_congr follow]
    simpa using filterMap_range ((s.log.drop (s.held n)).map Entry.packet)
  · intro p mem
    obtain ⟨k, -, found⟩ := List.mem_filterMap.mp mem
    obtain ⟨e, at_k, same⟩ := Option.map_eq_some_iff.mp found
    exact ⟨e, List.mem_of_getElem? at_k, same.symm⟩

theorem replyFrom_recent {s : Server} {n : Nat} (recent : s.log.length ≤ n + kMessageArraySize) :
    s.replyFrom n = (s.log.drop n).map Entry.packet := by
  have count := replyFrom_length (s := s) n
  rcases Nat.lt_or_ge n s.log.length with below | beyond
  · obtain ⟨again, split, -⟩ := replyFrom_split below
    rw [held_recent below recent] at split
    have none : again = [] := by
      rw [split, List.length_append, List.length_map, List.length_drop] at count
      exact List.eq_nil_of_length_eq_zero (by omega)
    rw [split, none, List.append_nil]
  · rw [List.drop_eq_nil_of_le beyond]
    exact List.eq_nil_of_length_eq_zero (by omega)

def Server.firstSent (s : Server) (messageID : Int) : Int :=
  (if s.messageSerial - messageID > s.maxMessagesPerRequest then
    max 0 (s.messageSerial - s.maxMessagesPerRequest - 1)
  else messageID) + 1

theorem truncate_eq {s : Server} (logged : Logged s) (nonneg : 0 ≤ s.maxMessagesPerRequest)
    {messageID : Int} (small : messageID ≤ int32Max)
    (near : s.messageSerial - messageID ≤ int32Max) :
    s.truncate messageID = .ok (s.firstSent messageID - 1) := by
  have serial := logged.serial
  have room := logged.bounded
  simp only [int32Max] at small near room
  have behind : int32 (s.messageSerial - messageID) = .ok (s.messageSerial - messageID) :=
    int32_ok (by simp only [int32Min]; omega) (by simp only [int32Max]; omega)
  rw [Server.truncate, behind, ok_bind, Server.firstSent]
  by_cases far : s.messageSerial - messageID > s.maxMessagesPerRequest
  · rw [if_pos far, if_pos far,
      int32_ok (by simp only [int32Min]; omega) (by simp only [int32Max]; omega), ok_bind,
      int32_ok (by simp only [int32Min]; omega) (by simp only [int32Max]; omega), ok_bind,
      Int.add_sub_cancel]
    rfl
  · rw [if_neg far, if_neg far, Int.add_sub_cancel]
    rfl

def Server.Answerable (s : Server) (messageID : Int) : Prop :=
  s.messageSerial - messageID ≤ int32Max ∧ messageID ≠ int32Max ∧
    (-1 ≤ messageID ∨ s.messageSerial - messageID > s.maxMessagesPerRequest)

theorem reply_answerable {s : Server} (logged : Logged s) (nonneg : 0 ≤ s.maxMessagesPerRequest)
    {messageID : Int} (small : messageID ≤ int32Max) (answerable : s.Answerable messageID) :
    0 ≤ s.firstSent messageID ∧
      s.reply messageID = .ok (s.replyFrom (s.firstSent messageID).toNat) := by
  obtain ⟨near, notMax, masked⟩ := answerable
  have serial := logged.serial
  have room := logged.bounded
  have start : 0 ≤ s.firstSent messageID ∧ s.firstSent messageID - 1 < int32Max := by
    simp only [Server.firstSent]
    simp only [int32Max] at near notMax small room ⊢
    split <;> omega
  refine ⟨start.1, ?_⟩
  rw [Server.reply, truncate_eq logged nonneg small near, ok_bind]
  exact messagesAfter_eq logged (by omega) start.2

theorem reply_unanswerable {s : Server} (logged : Logged s)
    (nonneg : 0 ≤ s.maxMessagesPerRequest) {messageID : Int} (small : messageID ≤ int32Max)
    {sent : List Packet} (ran : s.reply messageID = .ok sent) : s.Answerable messageID := by
  have serial := logged.serial
  by_contra stuck
  by_cases near : s.messageSerial - messageID ≤ int32Max
  · rw [Server.reply, truncate_eq logged nonneg small near, ok_bind] at ran
    have kept : ¬ s.messageSerial - messageID > s.maxMessagesPerRequest := by
      intro far
      refine stuck ⟨near, ?_, .inr far⟩
      have := logged.bounded
      omega
    rw [Server.firstSent, if_neg kept, Int.add_sub_cancel, Server.messagesAfter] at ran
    obtain ⟨first, next, ran⟩ := bind_ok ran
    by_cases last : messageID = int32Max
    · rw [last, int32_overflow (by omega)] at next
      cases next
    · have negative : messageID < -1 := by
        by_contra above
        exact stuck ⟨near, last, .inl (by omega)⟩
      have same := int32_exact next
      -- the loop passes through -1, whose index is outside the array
      have turn : (-1 - first).toNat ∈ List.range (s.messageSerial - first).toNat :=
        List.mem_range.mpr (by omega)
      obtain ⟨p, look⟩ := mapM_each ran turn
      rw [show first + ((-1 - first).toNat : Int) = -1 by omega, Server.messageAt,
        slotOf_minus_one, error_bind] at look
      cases look
  · rw [Server.reply, Server.truncate, int32_overflow (by omega)] at ran
    cases ran

def Server.evictions (s : Server) (userID now : Int) : Nat :=
  (s.ping userID now).clientPings.keys.countP ((s.ping userID now).expired (now - s.timeout))

def getMessages (userID messageID : Int) : Packet :=
  ⟨"/chatGetMessages", [.int userID, .int messageID]⟩

theorem poll_eq (s : Server) (userID messageID : Int) (m : Moment) :
    s.handleMessage (getMessages userID messageID) m =
      (s.reply messageID >>= fun sent =>
        (s.ping userID m.now).sweep (m.now - s.timeout) m.order >>= fun t => .ok (t, sent)) := by
  simp only [Server.reply]
  change (s.truncate messageID >>= fun last => s.messagesAfter last >>= fun sent =>
    (s.ping userID m.now).sweep (m.now - s.timeout) m.order >>= fun t => .ok (t, sent)) = _
  cases s.truncate messageID <;> rfl

theorem poll_ok_iff {s : Server} (logged : Logged s) (nonneg : 0 ≤ s.maxMessagesPerRequest)
    {userID messageID : Int} (small : messageID ≤ int32Max) {m : Moment}
    (order : m.order.Perm (s.walked (getMessages userID messageID) m)) (sent : List Packet) :
    (∃ t, s.handleMessage (getMessages userID messageID) m = .ok (t, sent)) ↔
      s.Answerable messageID ∧ s.messageSerial + s.evictions userID m.now ≤ int32Max ∧
        sent = s.replyFrom (s.firstSent messageID).toNat := by
  have idle : Logged (s.ping userID m.now) := logged_same logged rfl rfl rfl
  have keys : m.order.Perm (s.ping userID m.now).clientPings.keys := order
  have swept : (∃ t, (s.ping userID m.now).sweep (m.now - s.timeout) m.order = .ok t) ↔ _ :=
    sweep_ok_iff idle (keys.nodup_iff.mpr (AList.keys_nodup _))
  rw [keys.countP_eq] at swept
  rw [poll_eq]
  constructor
  · rintro ⟨t, ran⟩
    obtain ⟨found, replied, ran⟩ := bind_ok ran
    obtain ⟨u, done, ran⟩ := bind_ok ran
    cases ran
    have answerable := reply_unanswerable logged nonneg small replied
    refine ⟨answerable, swept.mp ⟨t, done⟩, ?_⟩
    exact Except.ok.inj (replied.symm.trans (reply_answerable logged nonneg small answerable).2)
  · rintro ⟨answerable, room, rfl⟩
    obtain ⟨t, done⟩ := swept.mpr room
    refine ⟨t, ?_⟩
    rw [(reply_answerable logged nonneg small answerable).2, ok_bind, done, ok_bind]

/-- Slot i mod 128 holds the message with serial i, for the last 128 serials. -/
def Server.RingHolds (s : Server) : Prop :=
  ∀ i : Int, max 0 (s.messageSerial - kMessageArraySize) ≤ i → i < s.messageSerial →
    ∃ e, s.slots.slots[i.toNat % kMessageArraySize]? = some (some e) ∧
      s.log[i.toNat]? = some e ∧ e.message.args.head? = some (.int i)

theorem ring_holds {s : Server} (logged : Logged s) : s.RingHolds := by
  intro i low high
  have serial := logged.serial
  have below : i.toNat < s.log.length := by omega
  have held : s.slots.wrapAt i.toNat = s.log[i.toNat]? := logged.ring.2 _ (by omega) below
  refine ⟨s.log[i.toNat], ?_, List.getElem?_eq_getElem below, ?_⟩
  · rw [List.getElem?_eq_getElem below] at held
    unfold WrapArray.wrapAt at held
    rw [logged.size] at held
    exact Option.join_eq_some_iff.mp held
  · have first := logged.numbered _ _ (List.getElem?_eq_getElem below)
    rwa [Int.toNat_of_nonneg (by omega)] at first

theorem drop_serials {s : Server} (logged : Logged s) (n : Nat) :
    ((s.log.drop n).map Entry.packet).map (·.args.head?) =
      (List.range (s.log.length - n)).map fun k => some (.int (n + k : Nat)) := by
  apply List.ext_getElem?
  intro k
  simp only [List.getElem?_map, List.getElem?_drop]
  by_cases below : n + k < s.log.length
  · have first := logged.numbered _ _ (List.getElem?_eq_getElem below)
    simp [List.getElem?_range (show k < s.log.length - n by omega), below, Entry.packet, first]
  · simp [below, show s.log.length ≤ k + n by omega]

/-- The messages with the serials from `lo` on, each once and in their order. -/
def Server.SentFrom (s : Server) (lo : Int) (sent : List Packet) : Prop :=
  sent.map (·.args.head?) =
      (List.range (s.messageSerial - lo).toNat).map (fun k : Nat => some (.int (lo + k))) ∧
    sent = (s.log.drop lo.toNat).map Entry.packet

theorem log_ring_and_poll {timeout M : Int} {s : Server} {cs : List (Packet × Moment)}
    (ran : (Server.new timeout M).run cs = some s) :
    s.RingHolds ∧
      (0 ≤ M → M ≤ kMessageArraySize → ∀ userID messageID m, 0 ≤ messageID → messageID < int32Max →
        m.order.Perm (s.walked (getMessages userID messageID) m) →
        s.messageSerial + s.evictions userID m.now ≤ int32Max →
        ∃ t sent, s.handleMessage (getMessages userID messageID) m = .ok (t, sent) ∧
          s.SentFrom (max (messageID + 1) (s.messageSerial - M)) sent) := by
  obtain ⟨logged, cap⟩ := run_logged ran
  refine ⟨ring_holds logged, ?_⟩
  intro nonneg fits userID messageID m low high order room
  subst cap
  have serial := logged.serial
  have bounded := logged.bounded
  have answerable : s.Answerable messageID := by
    refine ⟨by omega, by omega, .inl (by omega)⟩
  obtain ⟨t, answered⟩ := (poll_ok_iff logged nonneg (by omega) order _).mpr
    ⟨answerable, room, rfl⟩
  refine ⟨t, _, answered, ?_⟩
  have start : s.firstSent messageID =
      max (messageID + 1) (s.messageSerial - s.maxMessagesPerRequest) := by
    simp only [Server.firstSent]
    split <;> omega
  rw [start]
  have recent : s.log.length ≤
      (max (messageID + 1) (s.messageSerial - s.maxMessagesPerRequest)).toNat +
        kMessageArraySize := by
    simp only [kMessageArraySize] at fits ⊢
    omega
  rw [replyFrom_recent recent]
  refine ⟨?_, rfl⟩
  rw [drop_serials logged]
  have count : (s.messageSerial - max (messageID + 1)
      (s.messageSerial - s.maxMessagesPerRequest)).toNat = s.log.length -
        (max (messageID + 1) (s.messageSerial - s.maxMessagesPerRequest)).toNat := by omega
  rw [count]
  apply List.map_congr_left
  intro k _
  simp only [Option.some.injEq, Arg.int.injEq]
  omega

def busyLobby : List (Packet × Moment) :=
  [(⟨"/chatSignIn", [.string "ann"]⟩, ⟨0, []⟩), (⟨"/chatSignIn", [.string "bob"]⟩, ⟨1, []⟩),
    (⟨"/chatSignIn", [.string "cy"]⟩, ⟨2, []⟩), (getMessages 1 0, ⟨3, [1]⟩),
    (⟨"/chatChangeName", [.int 2, .string "rob"]⟩, ⟨4, []⟩)]

def lobby : Server := ((Server.new 10 3).run busyLobby).get (by decide +kernel)

theorem lobby_ran : (Server.new 10 3).run busyLobby = some lobby := (Option.some_get _).symm

theorem log_ring_and_poll_lobby : lobby.RingHolds ∧
    ∃ t sent, lobby.handleMessage (getMessages 2 0) ⟨5, [1, 2]⟩ = .ok (t, sent) ∧
      lobby.SentFrom (max (0 + 1) (lobby.messageSerial - 3)) sent :=
  ⟨(log_ring_and_poll lobby_ran).1, (log_ring_and_poll lobby_ran).2 (by decide) (by decide)
    2 0 ⟨5, [1, 2]⟩ (by decide) (by decide) (by decide +kernel) (by decide +kernel)⟩

/-- A request is safe when its handler runs without a fault and sends at most M messages,
    all of them still in the ring. -/
def Server.Safe (s : Server) (p : Packet) (m : Moment) : Prop :=
  ∃ t sent, s.handleMessage p m = .ok (t, sent) ∧ sent.length ≤ s.maxMessagesPerRequest ∧
    ∀ q ∈ sent, ∃ i e, s.messageSerial - kMessageArraySize ≤ (i : Nat) ∧
      s.log[i]? = some e ∧ e.packet = q

theorem request_safe_iff {timeout M : Int} (nonneg : 0 ≤ M) {s : Server}
    {cs : List (Packet × Moment)} (ran : (Server.new timeout M).run cs = some s)
    {userID messageID : Int} (small : messageID ≤ int32Max) {m : Moment}
    (order : m.order.Perm (s.walked (getMessages userID messageID) m)) :
    s.Safe (getMessages userID messageID) m ↔
      s.messageSerial - messageID ≤ int32Max ∧ messageID ≠ int32Max ∧
        (-1 ≤ messageID ∨ s.messageSerial - messageID > M) ∧
        s.messageSerial + s.evictions userID m.now ≤ int32Max := by
  obtain ⟨logged, cap⟩ := run_logged ran
  subst cap
  have polled := poll_ok_iff logged nonneg small order
  constructor
  · rintro ⟨t, sent, done, -, -⟩
    obtain ⟨⟨near, notMax, masked⟩, room, -⟩ := (polled sent).mp ⟨t, done⟩
    exact ⟨near, notMax, masked, room⟩
  · rintro ⟨near, notMax, masked, room⟩
    have answerable : s.Answerable messageID := ⟨near, notMax, masked⟩
    obtain ⟨t, done⟩ := (polled _).mpr ⟨answerable, room, rfl⟩
    have serial := logged.serial
    refine ⟨t, _, done, ?_, ?_⟩
    · have start := (reply_answerable logged nonneg small answerable).1
      rw [replyFrom_length]
      simp only [Server.firstSent] at start ⊢
      split at start <;> split <;> omega
    · intro q mem
      obtain ⟨k, turn, found⟩ := List.mem_filterMap.mp mem
      obtain ⟨e, at_k, same⟩ := Option.map_eq_some_iff.mp found
      have below := List.mem_range.mp turn
      have recent := (held_bounds (s := s)
        (i := (s.firstSent messageID).toNat + k) (by omega)).2.2
      exact ⟨_, e, by omega, at_k, same⟩

theorem request_safe_lobby : lobby.Safe (getMessages 2 (-9)) ⟨5, [1, 2]⟩ ↔
    lobby.messageSerial - (-9) ≤ int32Max ∧ (-9 : Int) ≠ int32Max ∧
      (-1 ≤ (-9 : Int) ∨ lobby.messageSerial - (-9) > 3) ∧
      lobby.messageSerial + lobby.evictions 2 5 ≤ int32Max :=
  request_safe_iff (by decide) lobby_ran (by decide) (by decide +kernel)

/-- The largest cursor overflows the loop's start, the smallest the subtraction, and a
    negative one within the cap of an empty log indexes outside the array. -/
theorem poll_unsafe :
    ¬ (Server.new 10 3).Safe (getMessages 1 2147483647) ⟨0, [1]⟩ ∧
    ¬ (Server.new 10 3).Safe (getMessages 1 (-2147483648)) ⟨0, [1]⟩ ∧
    ¬ (Server.new 10 3).Safe (getMessages 1 (-2)) ⟨0, [1]⟩ := by
  have faults (messageID : Int) (f : Fault) (fault : (Server.new 10 3).handleMessage
      (getMessages 1 messageID) ⟨0, [1]⟩ = .error f) :
      ¬ (Server.new 10 3).Safe (getMessages 1 messageID) ⟨0, [1]⟩ := by
    rintro ⟨t, sent, done, -, -⟩
    cases fault.symm.trans done
  exact ⟨faults _ .overflow rfl, faults _ .overflow rfl, faults _ .badIndex rfl⟩

end SCLOrkChat
