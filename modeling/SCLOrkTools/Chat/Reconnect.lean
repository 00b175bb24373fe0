import SCLOrkTools.Chat.Snapshots

/- A client whose server may be started anew. The cursor outlives the connection and the
   server, while the serials of a new server begin at 0 again. -/
namespace SCLOrkChat
open GuardedRun

/-- `restarted` is history: the client's cursor when the server was last started anew. -/
structure Service where
  chat : Chat
  restarted : Option Int

def Service.new (timeout maxMessagesPerRequest : Int) : Service where
  chat := Chat.new timeout maxMessagesPerRequest
  restarted := none

/-- A server that is started anew has closed its connections. -/
inductive Happening where
  | chat (e : Event)
  | restart (timeout maxMessagesPerRequest : Int)

def Service.step (v : Service) : Happening → Option Service
  | .chat e => (v.chat.step e).map fun chat => { v with chat := chat }
  | .restart timeout maxMessagesPerRequest => some {
      chat := { v.chat.close v.chat.client with
        server := Server.new timeout maxMessagesPerRequest }
      restarted := some v.chat.client.messageSerial }

def Service.run (v : Service) (hs : List Happening) : Option Service :=
  GuardedRun.run Service.step v hs

def Happening.hears : Happening → Bool
  | .chat .hear => true
  | _ => false

def Delivery.welcomes : Delivery → Bool
  | .packet p => p.path = "/chatSignInComplete"
  | .complete _ => false

def Service.Welcomed (v : Service) (h : Happening) : Prop :=
  h.hears = true ∧ v.chat.replies.head?.any Delivery.welcomes = true

instance (v : Service) (h : Happening) : Decidable (v.Welcomed h) :=
  inferInstanceAs (Decidable (_ ∧ _))

/-- The client's cursor is behind the server's serials, here and until the next restart. -/
def Service.CursorValid (v : Service) : Prop :=
  ∀ hs u, (∀ h ∈ hs, ∀ timeout M, h ≠ .restart timeout M) → v.run hs = some u →
    u.chat.client.messageSerial < u.chat.server.messageSerial

/-- The server has queued more messages since it was started than the client had seen the
    serials of before. -/
def Service.Outgrown (v : Service) : Prop :=
  ∀ old ∈ v.restarted, old < v.chat.server.messageSerial

def Packet.isReply (p : Packet) (s : Server) : Prop :=
  p.path = "/chatSignInComplete" ∧ 0 < s.log.length ∨ p.path = "/chatSetAllClients" ∨
    ∃ e ∈ s.log, p = e.packet

/-- Nothing but a restart takes the server's serials back. -/
structure Anchored (v : Service) : Prop where
  logged : Logged v.chat.server
  mirrored : Mirrored v.chat.server
  raised : v.restarted.getD 0 ≤ v.chat.client.messageSerial
  nonneg : 0 ≤ v.restarted.getD 0
  cursor : v.chat.client.messageSerial = v.restarted.getD 0 ∨
    v.chat.client.messageSerial < v.chat.server.log.length
  polls : ∀ p ∈ v.chat.requests, ∀ messageID ∈ p.polled, 0 ≤ messageID
  replies : ∀ p, .packet p ∈ v.chat.replies → p.isReply v.chat.server

theorem anchored_new (timeout M : Int) : Anchored (Service.new timeout M) where
  logged := logged_new timeout M
  mirrored := mirrored_new timeout M
  raised := Int.le_refl 0
  nonneg := Int.le_refl 0
  cursor := Or.inl rfl
  polls := fun p mem => by cases mem
  replies := fun p mem => by cases mem

theorem isReply_moves {s t : Server} {p : Packet} (reply : p.isReply s) (moves : Moves s t) :
    p.isReply t := by
  have longer := moves_log moves
  rcases reply with ⟨path, told⟩ | path | ⟨e, mem, same⟩
  · exact Or.inl ⟨path, by omega⟩
  · exact Or.inr (Or.inl path)
  · exact Or.inr (Or.inr ⟨e, (moves_extend moves).subset mem, same⟩)

theorem anchored_moves {v : Service} {t : Server} (anchored : Anchored v)
    (moves : Moves v.chat.server t) :
    Anchored { v with chat := { v.chat with server := t } } := by
  have longer := moves_log moves
  refine { anchored with
    logged := logged_moves anchored.logged moves
    mirrored := mirrored_moves anchored.logged anchored.mirrored moves
    cursor := ?_
    replies := fun p mem => isReply_moves (anchored.replies p mem) moves }
  rcases anchored.cursor with same | behind
  · exact Or.inl same
  · exact Or.inr (by change v.chat.client.messageSerial < (t.log.length : Int); omega)

theorem anchored_close {v : Service} (anchored : Anchored v) {client : Client}
    (cursor : client.messageSerial = v.chat.client.messageSerial) :
    Anchored { v with chat := v.chat.close client } where
  logged := anchored.logged
  mirrored := anchored.mirrored
  raised := cursor ▸ anchored.raised
  nonneg := anchored.nonneg
  cursor := by
    change client.messageSerial = _ ∨ client.messageSerial < _
    rw [cursor]
    exact anchored.cursor
  polls := fun p mem => by cases mem
  replies := fun p mem => by cases mem

theorem anchored_request {v : Service} (anchored : Anchored v) {p : Packet}
    (poll : ∀ messageID ∈ p.polled, 0 ≤ messageID) :
    Anchored { v with chat := { v.chat with requests := v.chat.requests ++ [p] } } := by
  refine { anchored with polls := ?_ }
  intro q mem
  rcases List.mem_append.mp mem with old | new
  · exact anchored.polls q old
  · rw [List.mem_singleton.mp new]
    exact poll

theorem anchored_send {v : Service} (anchored : Anchored v) {p : Packet}
    (poll : ∀ messageID ∈ p.polled, 0 ≤ messageID) :
    Anchored { v with chat := v.chat.send p } := by
  unfold Chat.send
  split
  · exact anchored_request anchored poll
  · exact anchored

theorem reply_logged {s : Server} {n : Nat} {p : Packet} (mem : p ∈ s.replyFrom n) :
    ∃ e ∈ s.log, p = e.packet := by
  obtain ⟨k, -, found⟩ := List.mem_filterMap.mp mem
  obtain ⟨e, at_k, same⟩ := Option.map_eq_some_iff.mp found
  exact ⟨e, List.mem_of_getElem? at_k, same.symm⟩

theorem answer_isReply {v : Service} {t : Server} {p q : Packet} {m : Moment}
    {sent : List Packet} (anchored : Anchored v) (head : v.chat.requests.head? = some p)
    (moves : Moves v.chat.server t) (answer : Answer v.chat.server t p m sent)
    (mem : q ∈ sent) : q.isReply t := by
  cases answer with
  | silent poll users => cases mem
  | welcome poll users userID told =>
    rw [List.mem_singleton.mp mem]
    exact Or.inl ⟨rfl, told⟩
  | users poll users all =>
    rw [List.mem_singleton.mp mem]
    exact Or.inr (Or.inl rfl)
  | messages messageID poll users _ reply =>
    have low := anchored.polls p (List.mem_of_head? head) messageID poll
    rw [reply_sent anchored.logged low reply] at mem
    exact isReply_moves (Or.inr (Or.inr (reply_logged mem))) moves

theorem receive_cursor {s : Server} (mirrored : Mirrored s) {p : Packet} (reply : p.isReply s)
    (c : Client) : (c.receive p).1.messageSerial = c.messageSerial ∨
      c.messageSerial < (c.receive p).1.messageSerial ∧
        (c.receive p).1.messageSerial < s.log.length := by
  rcases reply with ⟨path, -⟩ | path | ⟨e, mem, rfl⟩
  · left
    simp [Client.receive, path, Client.signInComplete]
  · left
    simp [Client.receive, path, Client.setAllClients]
  · obtain ⟨i, bound, at_i⟩ := List.getElem_of_mem mem
    have told := mirrored.told i e (at_i ▸ List.getElem?_eq_getElem bound)
    by_cases fresh : c.messageSerial < i
    · right
      rw [(receive_fresh told fresh).1]
      omega
    · left
      rw [receive_stale told (by omega)]

theorem anchored_hear {v : Service} {chat : Chat} (anchored : Anchored v)
    (step : v.chat.step .hear = some chat) : Anchored { v with chat := chat } := by
  obtain ⟨⟨server, client, requests, replies, seen⟩, restarted⟩ := v
  cases replies with
  | nil => cases step
  | cons d rest =>
    have later : ∀ q, Delivery.packet q ∈ rest → q.isReply server := fun q mem =>
      anchored.replies q (List.mem_cons_of_mem d mem)
    cases d with
    | complete names =>
      cases step
      exact { anchored with replies := later }
    | packet p =>
      cases step
      have turn := receive_cursor anchored.mirrored (anchored.replies p List.mem_cons_self) client
      have raised := anchored.raised
      have cursor := anchored.cursor
      refine { anchored with raised := ?_, cursor := ?_, polls := ?_, replies := later }
      · change restarted.getD 0 ≤ (client.receive p).1.messageSerial
        exact raised.trans (receive_mono client p)
      · change (client.receive p).1.messageSerial = _ ∨
          (client.receive p).1.messageSerial < (server.log.length : Int)
        rcases turn with same | ⟨-, inside⟩
        · rw [same]
          exact cursor
        · exact Or.inr inside
      · intro q mem messageID polled
        rcases List.mem_append.mp mem with old | new
        · exact anchored.polls q old messageID polled
        · unfold Client.receive at new
          split at new
          · rw [List.mem_singleton.mp new] at polled
            cases polled
          all_goals cases new

theorem anchored_chat {v : Service} {chat : Chat} {e : Event} (anchored : Anchored v)
    (step : v.chat.step e = some chat) : Anchored { v with chat := chat } := by
  cases chat_cases step with
  | command taken => exact anchored_moves anchored (step_moves anchored.logged taken)
  | connect clientName =>
    have closed : Anchored { v with chat := v.chat.close v.chat.client } :=
      anchored_close anchored rfl
    have opened : Anchored { v with chat := { v.chat.close v.chat.client with
        client := { v.chat.client with connected := true } } } := { closed with }
    exact anchored_request opened fun messageID mem => by cases mem
  | close cursor => exact anchored_close anchored cursor
  | send poll users =>
    apply anchored_send anchored
    intro messageID mem
    rw [poll messageID mem]
    exact anchored.nonneg.trans anchored.raised
  | @serve m p t sent head all ran =>
    have moves := handle_moves anchored.logged ran
    have answer := handle_answer anchored.logged all ran
    have moved := anchored_moves anchored moves
    refine { moved with polls := ?_, replies := ?_ }
    · intro q mem
      exact anchored.polls q (List.mem_of_mem_tail mem)
    · intro q mem
      rcases List.mem_append.mp mem with mem | ended
      · rcases List.mem_append.mp mem with old | new
        · exact moved.replies q old
        · obtain ⟨found, inside, same⟩ := List.mem_map.mp new
          cases same
          exact answer_isReply anchored head moves answer inside
      · split at ended <;> simp at ended
  | hear step => exact anchored_hear anchored step

theorem anchored_step {v u : Service} {h : Happening} (anchored : Anchored v)
    (step : v.step h = some u) : Anchored u := by
  cases h with
  | chat e =>
    obtain ⟨chat, stepped, rfl⟩ := Option.map_eq_some_iff.mp step
    exact anchored_chat anchored stepped
  | restart timeout M =>
    cases step
    have nonneg := anchored.nonneg.trans anchored.raised
    exact ⟨logged_new timeout M, mirrored_new timeout M, Int.le_refl _, nonneg, Or.inl rfl,
      (fun p mem => by cases mem), (fun p mem => by cases mem)⟩

theorem chat_moves {w next : Chat} {e : Event} (logged : Logged w.server)
    (step : w.step e = some next) : Moves w.server next.server := by
  cases chat_cases step with
  | command taken => exact step_moves logged taken
  | serve head all ran => exact handle_moves logged ran
  | connect | close => exact .refl
  | send =>
    unfold Chat.send
    split <;> exact .refl
  | hear step =>
    simp only [Chat.step] at step
    split at step <;> cases step <;> exact .refl

theorem behind_step {v u : Service} {h : Happening} (anchored : Anchored v)
    (kept : ∀ timeout M, h ≠ .restart timeout M) (step : v.step h = some u)
    (behind : v.chat.client.messageSerial < v.chat.server.messageSerial) :
    u.chat.client.messageSerial < u.chat.server.messageSerial := by
  cases h with
  | restart timeout M => exact absurd rfl (kept timeout M)
  | chat e =>
    obtain ⟨chat, stepped, rfl⟩ := Option.map_eq_some_iff.mp step
    -- The cursor as it is now stands in for the one at the last restart.
    have here : Anchored { v with restarted := some v.chat.client.messageSerial } :=
      { anchored with
        raised := Int.le_refl _
        nonneg := anchored.nonneg.trans anchored.raised
        cursor := Or.inl rfl }
    have there := anchored_chat here stepped
    have longer := moves_log (chat_moves anchored.logged stepped)
    have before := anchored.logged.serial
    have after : chat.server.messageSerial = chat.server.log.length := there.logged.serial
    change chat.client.messageSerial < chat.server.messageSerial
    rcases there.cursor with same | inside
    · change chat.client.messageSerial = v.chat.client.messageSerial at same
      omega
    · change chat.client.messageSerial < (chat.server.log.length : Int) at inside
      omega

theorem behind_run {v u : Service} {hs : List Happening} (anchored : Anchored v)
    (kept : ∀ h ∈ hs, ∀ timeout M, h ≠ .restart timeout M) (ran : v.run hs = some u)
    (behind : v.chat.client.messageSerial < v.chat.server.messageSerial) :
    u.chat.client.messageSerial < u.chat.server.messageSerial := by
  have holds := run_invariant (fun v => Anchored v ∧
      v.chat.client.messageSerial < v.chat.server.messageSerial) ?_ ⟨anchored, behind⟩
    (along_of_all (p := fun h => ∀ timeout M, h ≠ .restart timeout M) kept) ran
  · exact holds.2
  · rintro v h u ⟨anchored, behind⟩ kept step
    exact ⟨anchored_step anchored step, behind_step anchored kept step behind⟩

theorem welcomed_cases {v : Service} {h : Happening} (welcomed : v.Welcomed h) :
    h = .chat .hear ∧ ∃ p rest, v.chat.replies = .packet p :: rest ∧
      p.path = "/chatSignInComplete" := by
  obtain ⟨hears, first⟩ := welcomed
  constructor
  · unfold Happening.hears at hears
    split at hears
    · rfl
    · cases hears
  · cases shape : v.chat.replies with
    | nil => simp [shape] at first
    | cons d rest =>
      cases d with
      | packet p => exact ⟨p, rest, rfl, by simpa [shape, Delivery.welcomes] using first⟩
      | complete names => simp [shape, Delivery.welcomes] at first

/-- At the end of a sign-in the cursor is behind if and only if the server has outgrown what
    the client had seen before the restart. -/
theorem welcomed_behind {v : Service} {h : Happening} (anchored : Anchored v)
    (welcomed : v.Welcomed h) :
    v.chat.client.messageSerial < v.chat.server.messageSerial ↔ v.Outgrown := by
  have serial := anchored.logged.serial
  have raised := anchored.raised
  have told : 0 < v.chat.server.log.length := by
    obtain ⟨-, p, rest, shape, welcome⟩ := welcomed_cases welcomed
    rcases anchored.replies p (shape ▸ List.mem_cons_self) with ⟨-, told⟩ | path | ⟨e, mem, -⟩
    · exact told
    · rw [path] at welcome
      simp at welcome
    · exact List.length_pos_of_mem mem
  unfold Service.Outgrown
  cases past : v.restarted with
  | none =>
    refine iff_of_true ?_ (fun old mem => by cases mem)
    rcases anchored.cursor with same | inside
    · rw [past] at same
      change v.chat.client.messageSerial = 0 at same
      omega
    · omega
  | some old =>
    rw [past] at raised
    change old ≤ _ at raised
    constructor
    · intro behind other mem
      cases mem
      omega
    · intro outgrown
      have grown := outgrown old rfl
      rcases anchored.cursor with same | inside
      · rw [past] at same
        change v.chat.client.messageSerial = old at same
        omega
      · omega

theorem welcomed_step {v : Service} {h : Happening} (welcomed : v.Welcomed h) :
    ∃ u, v.step h = some u ∧ u.chat.client.messageSerial = v.chat.client.messageSerial ∧
      u.chat.server = v.chat.server := by
  obtain ⟨rfl, p, rest, shape, welcome⟩ := welcomed_cases welcomed
  have step : v.step (.chat .hear) = some { v with chat := { v.chat with
      client := (v.chat.client.receive p).1
      requests := v.chat.requests ++ (v.chat.client.receive p).2
      replies := rest } } := by
    simp only [Service.step, Chat.step, shape, Option.map_some]
  refine ⟨_, step, ?_, rfl⟩
  simp [Client.receive, welcome, Client.signInComplete]

theorem run_anchored {timeout M : Int} {v : Service} {hs : List Happening}
    (ran : (Service.new timeout M).run hs = some v) : Anchored v :=
  run_keeps Anchored (fun _ _ _ anchored step => anchored_step anchored step)
    (anchored_new timeout M) ran

/-- Every sign-in leaves a valid cursor exactly when each one that a client completes finds a
    server that has outgrown what the client saw of the servers before. -/
theorem cursor_valid_iff (timeout M : Int) (hs : List Happening) :
    Along Service.step (fun v h => v.Welcomed h → ∀ u, v.step h = some u → u.CursorValid)
        (Service.new timeout M) hs ↔
      Along Service.step (fun v h => v.Welcomed h → v.Outgrown) (Service.new timeout M) hs := by
  rw [along_iff_prefixes, along_iff_prefixes]
  constructor
  · intro valid past h rest shape v front welcomed
    obtain ⟨u, step, cursor, server⟩ := welcomed_step welcomed
    have here := valid past h rest shape v front welcomed u step [] u
      (fun _ mem => by cases mem) rfl
    rw [cursor, server] at here
    exact (welcomed_behind (run_anchored front) welcomed).mp here
  · intro outgrown past h rest shape v front welcomed after step hs u kept ran
    obtain ⟨u', step', cursor, server⟩ := welcomed_step welcomed
    cases step.symm.trans step'
    have anchored := run_anchored front
    have behind := (welcomed_behind anchored welcomed).mpr
      (outgrown past h rest shape v front welcomed)
    rw [← cursor, ← server] at behind
    exact behind_run (anchored_step anchored step) kept ran behind

def reconnection : List Happening :=
  (joined ++ [signsIn "bob", signsIn "cy", .poll, .serve ⟨2, [1]⟩, .hear, .hear, .hear]).map
    .chat ++ [.restart 10 3] ++ [.connect "ann", .serve ⟨0, []⟩].map .chat

/-- The new server knows one message, and the client waits for one with a serial above 2. -/
theorem stale_cursor : ¬ Along Service.step
    (fun v h => v.Welcomed h → ∀ u, v.step h = some u → u.CursorValid) (Service.new 10 3)
      (reconnection ++ [.chat .hear]) := by
  intro valid
  have ends : ∃ v ∈ (Service.new 10 3).run reconnection, v.Welcomed (.chat .hear) ∧
      ¬ v.chat.client.messageSerial < v.chat.server.messageSerial := by decide +kernel
  obtain ⟨v, front, welcomed, ahead⟩ := ends
  obtain ⟨u, step, cursor, server⟩ := welcomed_step welcomed
  have here := along_iff_prefixes.mp valid reconnection (.chat .hear) [] rfl v front welcomed u
    step [] u (fun _ mem => by cases mem) rfl
  rw [cursor, server] at here
  exact ahead here

end SCLOrkChat
