import SCLOrkTools.Chat.Selection

/- What the list of the window shows of the users that the client knows, and who gets to read what
   is entered in it. -/
namespace SCLOrkChat
open GuardedRun

section Lists
variable {backwards : String → Nat → Nat → String} {owns : Int → Prop}

/-- The list was built from what the client knows, but for the user's own names. -/
def Desk.Lists (owns : Int → Prop) (d : Desk) : Prop :=
  ∀ u, ¬ owns u → d.window.listed.lookup u = d.chat.client.nameMap.lookup u

/-- If it was not, a new list is on its way. -/
def Desk.Lasts (owns : Int → Prop) (d : Desk) : Prop :=
  d.window.rebuilds ≠ [] ∨ d.Lists owns

def Client.Owns (owns : Int → Prop) (c : Client) : Prop :=
  ∀ u, c.userId = some (.int u) → owns u

instance [DecidablePred owns] (c : Client) : Decidable (c.Owns owns) :=
  match own : c.userId with
  | some (.int u) => decidable_of_iff (owns u) (by simp [Client.Owns, own])
  | some (.string _) | some (.other _) | none => isTrue (by simp [Client.Owns, own])

theorem changeClient_odd {c : Client} {args : List Arg}
    (odd : ∀ serial changeType id userName,
      args ≠ [.int serial, .string changeType, .int id, .string userName]) :
    c.changeClient args = c := by
  unfold Client.changeClient
  split
  · exact absurd rfl (odd _ _ _ _)
  · rfl

theorem applyChange_other {c : Client} {changeType : String} (add : changeType ≠ "add")
    (remove : changeType ≠ "remove") (rename : changeType ≠ "rename")
    (timeout : changeType ≠ "timeout") (id : Int) (userName : String) :
    c.applyChange changeType id userName = c := by
  unfold Client.applyChange
  split
  · exact absurd rfl add
  · exact absurd rfl remove
  · exact absurd rfl rename
  · exact absurd rfl timeout
  · rfl

theorem unannounced {c : Client} {args : List Arg} (silent : c.announces args = none) {u : Int}
    (other : c.userId ≠ some (.int u)) :
    (c.changeClient args).nameMap.lookup u = c.nameMap.lookup u := by
  unfold Client.announces at silent
  split at silent
  · rename_i serial changeType id userName
    change (if serial > c.messageSerial then
      { c with messageSerial := serial }.applyChange changeType id userName
      else c).nameMap.lookup u = _
    split at silent
    · rename_i fresh
      rw [if_pos fresh]
      split at silent
      · split at silent
        · rename_i own
          have differs : u ≠ id := fun same => other (same ▸ own)
          simp [Client.applyChange, AList.lookup_insert_ne differs]
        · cases silent
      · split at silent
        · cases silent
        · rename_i unknown
          simp [Client.applyChange, unknown]
      · cases silent
      · cases silent
      · rename_i add remove rename timeout
        rw [applyChange_other add remove rename timeout]
    · rename_i stale
      rw [if_neg stale]
  · rename_i odd
    rw [changeClient_odd fun serial changeType id userName same => odd _ _ _ _ same]

variable {d next : Desk}

theorem lasts_same (lasts : d.Lasts owns) (rebuilds : next.window.rebuilds = d.window.rebuilds)
    (listed : next.window.listed = d.window.listed)
    (nameMap : next.chat.client.nameMap = d.chat.client.nameMap) : next.Lasts owns := by
  rw [Desk.Lasts, Desk.Lists, rebuilds, listed, nameMap]
  exact lasts

theorem hear_lasts {w : Window} {c : Client} {p : Packet} (chat : Chat)
    (client : chat.client = (c.receive p).1) (lasts : w.rebuilds ≠ [] ∨
      ∀ u, ¬ owns u → w.listed.lookup u = c.nameMap.lookup u)
    (known : c.Owns owns) : Desk.Lasts owns ⟨chat, w.hear c p⟩ := by
  unfold Desk.Lasts Desk.Lists
  rw [client]
  by_cases all : p.path = "/chatSetAllClients"
  · left
    simp [Window.hear, all, Window.onConnected, Window.enqueue]
  by_cases change : p.path = "/chatChangeClient"
  · cases announced : c.announces p.args with
    | some told =>
      left
      simp only [Window.hear, change, announced, Window.onUserChanged]
      split <;> simp [Window.enqueue]
    | none =>
      have kept : w.hear c p = w := by simp only [Window.hear, change, announced]
      rw [kept]
      refine lasts.imp id fun listed u other => (listed u other).trans ?_
      have same := unannounced announced (u := u) fun own => other (known u own)
      simpa [Client.receive, change] using same.symm
  · have view : (w.hear c p).rebuilds = w.rebuilds ∧ (w.hear c p).listed = w.listed := by
      unfold Window.hear
      split
      · rename_i path
        exact absurd path all
      · rename_i path
        exact absurd path change
      · exact ⟨rfl, rfl⟩
      · exact ⟨rfl, rfl⟩
    have names : (c.receive p).1.nameMap = c.nameMap := by
      unfold Client.receive
      split
      · rfl
      · rename_i path
        exact absurd path all
      · rename_i path
        exact absurd path change
      · unfold Client.chatReceive
        split
        · split <;> rfl
        · rfl
      · rfl
    rw [view.1, view.2, names]
    exact lasts

theorem world_lasts {chat : Chat} {e : Event} (others : e.ofOthers = true)
    (ran : d.chat.step e = some chat) (lasts : d.Lasts owns)
    (known : d.chat.client.Owns owns) : Desk.Lasts owns ⟨chat, d.window.observes d.chat e⟩ := by
  cases e with
  | connect | disconnect | rename | sendMessage => cases others
  | command p m =>
    obtain ⟨server, -, rfl⟩ := Option.map_eq_some_iff.mp ran
    exact lasts
  | lose =>
    cases ran
    exact lasts
  | poll =>
    obtain ⟨-, ran⟩ := Option.ite_none_right_eq_some.mp ran
    cases ran
    refine lasts_same lasts rfl rfl ?_
    unfold Chat.send
    split <;> rfl
  | serve m =>
    obtain ⟨p, first, ran⟩ := Option.bind_eq_some_iff.mp ran
    obtain ⟨-, ran⟩ := Option.ite_none_right_eq_some.mp ran
    split at ran
    · cases ran
      exact lasts
    · cases ran
  | hear =>
    simp only [Chat.step] at ran
    split at ran
    · cases ran
    · rename_i names rest replies
      cases ran
      have same : d.window.observes d.chat .hear = d.window := by
        simp only [Window.observes, replies, List.head?_cons]
      rw [same]
      exact lasts
    · rename_i p rest replies
      cases ran
      have heard : d.window.observes d.chat .hear = d.window.hear d.chat.client p := by
        simp only [Window.observes, replies, List.head?_cons]
      rw [heard]
      exact hear_lasts _ rfl lasts known

theorem enter_client (d : Desk) (s : String) (order : List Int) :
    (d.enter backwards s order).chat.client = d.chat.client := by
  have sends (p : Packet) : (d.chat.send p).client = d.chat.client := by
    unfold Chat.send
    split <;> rfl
  unfold Desk.enter
  split
  · split
    · exact sends _
    · rfl
  · exact sends _
  · rfl
  · rfl

theorem connect_nameMap (ran : d.connect = some next) :
    next.chat.client.nameMap = d.chat.client.nameMap := by
  unfold Desk.connect at ran
  split at ran
  · cases ran
    rfl
  · split at ran
    · cases ran
      rfl
    · obtain ⟨chat, opened, rfl⟩ := Option.map_eq_some_iff.mp ran
      obtain ⟨-, opened⟩ := Option.ite_none_left_eq_some.mp opened
      cases opened
      rfl

theorem step_lasts {ev : DeskEvent} (ran : d.step backwards ev = some next) (lasts : d.Lasts owns)
    (known : d.chat.client.Owns owns) : next.Lasts owns := by
  cases ev with
  | world e =>
    obtain ⟨others, ran⟩ := Option.ite_none_right_eq_some.mp ran
    obtain ⟨chat, stepped, rfl⟩ := Option.map_eq_some_iff.mp ran
    exact world_lasts others stepped lasts known
  | connect =>
    obtain ⟨view, rebuilds⟩ := Prod.mk.inj (connect_waits ran)
    exact lasts_same lasts rebuilds (congrArg (·.2.2.2) view) (connect_nameMap ran)
  | connectFails =>
    obtain ⟨-, ran⟩ := Option.ite_none_left_eq_some.mp ran
    cases ran
    exact lasts
  | rebuild order =>
    simp only [Desk.step] at ran
    split at ran
    · cases ran
    · obtain ⟨sorts, ran⟩ := Option.ite_none_right_eq_some.mp ran
      cases ran
      exact Or.inr fun _ _ => rfl
  | select rows =>
    obtain ⟨-, ran⟩ := Option.ite_none_right_eq_some.mp ran
    cases ran
    exact lasts
  | clearSelection =>
    cases ran
    exact lasts
  | chooseType type =>
    obtain ⟨-, ran⟩ := Option.ite_none_right_eq_some.mp ran
    cases ran
    exact lasts
  | enter s order =>
    obtain ⟨-, ran⟩ := Option.ite_none_right_eq_some.mp ran
    cases ran
    obtain ⟨view, rebuilds⟩ := Prod.mk.inj (enter_waits backwards d s order)
    exact lasts_same lasts rebuilds (congrArg (·.2.2.2) view)
      (congrArg Client.nameMap (enter_client d s order))

/-- When no new list is on its way, the rows show the users whom the client knows, each with its
    name. Only the names of users that the client was itself may be older. -/
theorem list_current {T M : Int} {name : String} {asDirector : Bool} {es : List DeskEvent}
    (known : Along (Desk.step backwards) (fun d _ => d.chat.client.Owns owns)
      (Desk.new T M name asDirector) es)
    (ran : run (Desk.step backwards) (Desk.new T M name asDirector) es = some d)
    (built : d.window.rebuilds = []) (u : Int) (other : ¬ owns u) (named : String) :
    d.chat.client.nameMap.lookup u = some named ↔
      ∃ row : Nat, d.window.clientIdList[row]? = some u ∧ d.window.items[row]? = some named := by
  have lasts : d.Lasts owns := run_invariant (fun d => d.Lasts owns)
    (fun d e next lasts known ran => step_lasts ran lasts known)
    (Or.inr fun _ _ => rfl) known ran
  have lists : d.Lists owns := lasts.resolve_left (not_not.mpr built)
  have tidy : d.window.Tidy := run_tidy ran
  rw [← lists u other]
  have same (row : Nat) : (d.window.items[row]?).map some =
      (d.window.clientIdList[row]?).map d.window.listed.lookup := by
    rw [← List.getElem?_map, ← List.getElem?_map, tidy.items]
  constructor
  · intro found
    have listed : u ∈ d.window.clientIdList :=
      tidy.users.symm.subset (AList.lookup_isSome.mp (Option.isSome_of_eq_some found))
    obtain ⟨row, at_row⟩ := List.mem_iff_getElem?.mp listed
    refine ⟨row, at_row, ?_⟩
    have here := same row
    rw [at_row, Option.map_some, found] at here
    simpa using here
  · rintro ⟨row, at_row, shown⟩
    have here := same row
    rw [at_row, shown] at here
    simpa using here.symm

theorem seated_once : Along (Desk.step fun _ _ _ => "") (fun d _ => d.chat.client.Owns (· = 1))
    (Desk.new 10 3 "ann" false) seating := by decide +kernel

theorem list_current_seated : seated.chat.client.nameMap.lookup 2 = some "bob" ↔
    ∃ row : Nat, seated.window.clientIdList[row]? = some 2 ∧
      seated.window.items[row]? = some "bob" :=
  list_current seated_once seated_run (by decide +kernel) 2
    (by decide) "bob"

end Lists

section Texts
variable {backwards : String → Nat → Nat → String} {d : Desk} {s : String} {order : List Int}

/-- Whom a text is for. After an @ these are the users with the name, else the chosen users, and
    everybody if nobody is chosen. -/
def Desk.Means (backwards : String → Nat → Nat → String) (d : Desk) (s : String) (u : Int) : Prop :=
  if s.toList.head? = some '@' then
    d.chat.client.nameMap.lookup u = some (atName backwards s)
  else d.window.chosen = ∅ ∨ u ∈ d.window.chosen

def Desk.addressed (backwards : String → Nat → Nat → String) (d : Desk) (s : String)
    (order : List Int) : List (Option Int) :=
  if s.toList.head? = some '@' then
    (namedIds d.chat.client.nameMap order (atName backwards s)).map some
  else d.window.recipientIds

theorem recipients_same {v w : Window} (same : v.waits = w.waits) :
    v.recipientIds = w.recipientIds := by
  simp only [Window.waits, Window.view, Prod.mk.injEq] at same
  obtain ⟨⟨-, selection, ids, -⟩, -⟩ := same
  rw [Window.recipientIds, Window.recipientIds, selection, ids]

theorem command_unnamed {w v : Window} {recipientIds : Option (List Int)} {type contents : String}
    (asks : w.command backwards s = (v, .send recipientIds type contents)) :
    recipientIds = none := by
  simp only [Window.command] at asks
  split at asks
  · cases asks; rfl
  · cases asks
  · cases asks
  · split at asks <;> cases asks
  · cases asks; rfl
  · cases asks
  · cases asks; rfl
  · cases asks

theorem asks_addressed {v : Window} {recipientIds : Option (List Int)} {type contents : String}
    (asks : d.window.asks backwards d.chat.client.nameMap order s =
      (v, .send recipientIds type contents)) :
    ((recipientIds.map (·.map some)).getD v.recipientIds) = d.addressed backwards s order ∧
      d.addressed backwards s order ≠ [] := by
  have kept := asks_waits backwards d.window d.chat.client.nameMap order s
  rw [asks] at kept
  have shown : d.window.recipientIds ≠ [] := by
    unfold Window.recipientIds
    split
    · exact List.cons_ne_nil _ _
    · rename_i some_rows
      exact fun none => some_rows (by simpa using none)
  unfold Window.asks at asks
  unfold Desk.addressed
  split at asks
  · rename_i first
    rw [if_pos first]
    unfold Window.privately at asks
    split at asks
    · cases asks
    · rename_i atIds found
      cases asks
      exact ⟨rfl, by simpa using found⟩
  · rename_i first
    rw [if_neg (by simp [first]), command_unnamed asks]
    exact ⟨recipients_same kept, shown⟩
  · rename_i at_sign slash
    rw [if_neg (fun first => at_sign first)]
    cases asks
    exact ⟨rfl, shown⟩

theorem enter_chat (backwards : String → Nat → Nat → String) (d : Desk) (s : String)
    (order : List Int) :
    (d.enter backwards s order).chat = d.chat ∨
    (∃ newName, (d.enter backwards s order).chat =
      d.chat.send ⟨"/chatChangeName", [d.chat.client.userIdArg, .string newName]⟩) ∨
    ∃ o : Outgoing, (d.enter backwards s order).chat = d.chat.send (o.packet d.chat.client) ∧
      o.recipientIds = d.addressed backwards s order ∧ o.recipientIds ≠ [] := by
  unfold Desk.enter
  split
  · rename_i v recipientIds type contents asks
    obtain ⟨addressed, some_users⟩ := asks_addressed asks
    unfold Window.sends
    split
    · rename_i w o sends
      split at sends
      · cases sends
        exact Or.inr (Or.inr ⟨_, rfl, addressed, addressed ▸ some_users⟩)
      · cases sends
    · exact Or.inl rfl
  · exact Or.inr (Or.inl ⟨_, rfl⟩)
  · exact Or.inl rfl
  · exact Or.inl rfl

/-- No user has the id 0, which stands for everybody. -/
structure Desk.Numbered (d : Desk) : Prop where
  listed : 0 ∉ d.window.clientIdList
  known : 0 ∉ d.chat.client.nameMap

theorem addressed_means (tidy : d.window.Tidy) (numbered : d.Numbered)
    (all : order.Perm d.chat.client.nameMap.keys) (u : Int) :
    (d.addressed backwards s order).head? = some (some 0) ∨
      some u ∈ d.addressed backwards s order ↔ d.Means backwards s u := by
  have none_first {users : List Int} (absent : 0 ∉ users) :
      (users.map some).head? ≠ some (some 0) := fun first =>
    absent (by simpa using List.mem_of_head? first)
  unfold Desk.addressed Desk.Means
  split
  · have absent : 0 ∉ namedIds d.chat.client.nameMap order (atName backwards s) := fun mem => by
      have found := of_decide_eq_true (List.mem_filter.mp mem).2
      exact numbered.known (AList.lookup_isSome.mp (Option.isSome_of_eq_some found))
    rw [or_iff_right (none_first absent)]
    simp only [List.mem_map, Option.some.injEq, exists_eq_right, namedIds, List.mem_filter,
      decide_eq_true_eq, and_iff_right_iff_imp]
    exact fun found => all.symm.subset (AList.lookup_isSome.mp (Option.isSome_of_eq_some found))
  · rw [tidy.recipientIds]
    split
    · rename_i nobody
      simp [nobody]
    · rename_i somebody
      have absent : 0 ∉ d.window.clientIdList.filter (· ∈ d.window.chosen) := fun mem =>
        numbered.listed (List.mem_filter.mp mem).1
      rw [or_iff_right (none_first absent), or_iff_right somebody]
      simp only [List.mem_map, Option.some.injEq, exists_eq_right, List.mem_filter,
        decide_eq_true_eq, and_iff_right_iff_imp]
      exact tidy.chosen_subset u

theorem send_requests {w : Chat} {p q : Packet}
    (sent : (w.send q).requests = w.requests ++ [p]) : p = q := by
  unfold Chat.send at sent
  split at sent
  · simpa using (List.append_cancel_left sent).symm
  · simp at sent

theorem addressed_users (backwards : String → Nat → Nat → String) (s : String)
    (order : List Int) (tidy : d.window.Tidy) :
    ∃ users : List Int, d.addressed backwards s order = users.map some := by
  unfold Desk.addressed
  split
  · exact ⟨_, rfl⟩
  · rw [tidy.recipientIds]
    split
    · exact ⟨[0], rfl⟩
    · exact ⟨_, rfl⟩

theorem packet_supported {o : Outgoing} {c : Client} {me : Int} {users : List Int}
    (own : c.userId = some (.int me)) (real : o.recipientIds = users.map some) :
    (o.packet c).args.all Arg.supported = true := by
  simp [Outgoing.packet, Client.userIdArg, own, real, idArg, Arg.supported]

theorem handle_message {server after : Server} {replies : List Packet} {p : Packet} {m : Moment}
    (logged : Logged server) (message : p.path = "/chatSendMessage")
    (supported : p.args.all Arg.supported = true)
    (handled : server.handleMessage p m = .ok (after, replies)) :
    after.log = server.log ++
      [⟨"/chatReceive", ⟨server.allocated, .int server.messageSerial :: p.args⟩⟩] := by
  have asks : getCommandNamed p.path = .kSendMessage := by rw [message]; rfl
  cases handle_cases logged handled with
  | sendMessage command whole room => rfl
  | abandoned command strange => rw [supported] at strange; cases strange
  | signIn command | getAllClients command | getMessages command | changeName command
  | signOut command =>
    rw [asks] at command
    cases command
  | ignored unfit =>
    rw [asks] at unfit
    cases unfit

/-- Whom the entry concerns that the server makes of a message. -/
theorem letter_concerns {o : Outgoing} {c : Client} {me : Int} (own : c.userId = some (.int me))
    (handle : Nat) (serial u : Int) :
    (Entry.letter u ⟨"/chatReceive", ⟨handle, .int serial :: (o.packet c).args⟩⟩).isSome ↔
      u = me ∨ o.recipientIds.head? = some (some 0) ∨ some u ∈ o.recipientIds := by
  have first : (o.recipientIds.map idArg).head? = some (.int 0) ↔
      o.recipientIds.head? = some (some 0) := by
    cases o.recipientIds with
    | nil => simp
    | cons id ids => cases id <;> simp [idArg]
  have among : .int u ∈ o.recipientIds.map idArg ↔ some u ∈ o.recipientIds := by
    rw [List.mem_map]
    constructor
    · rintro ⟨id, mem, same⟩
      cases id with
      | none => cases same
      | some v =>
        cases same
        exact mem
    · exact fun mem => ⟨_, mem, rfl⟩
  have sender : some (Arg.int me) = some (.int u) ↔ u = me := by
    simp [eq_comm]
  simp only [Entry.letter, Outgoing.packet, Client.userIdArg, own, Option.getD_some, ↓reduceIte,
    List.cons_append, List.nil_append, List.tail_cons, List.drop_succ_cons, List.drop_zero,
    List.getElem?_cons_zero, first, among, sender]
  split
  · rename_i concerned
    exact iff_of_true rfl (or_left_comm.mp concerned)
  · rename_i other
    exact iff_of_false (by simp) (mt or_left_comm.mpr other)

/-- What a user enters in the window reaches, once the server has taken it, the users that it is
    for and its sender, and no one else. -/
theorem entered_reaches {T M T' M' me : Int} {name : String} {asDirector : Bool}
    {es : List DeskEvent} {cs : List (Packet × Moment)} {p : Packet} {m : Moment}
    {server after : Server} {replies : List Packet}
    (ran : run (Desk.step backwards) (Desk.new T M name asDirector) es = some d)
    (numbered : d.Numbered) (own : d.chat.client.userId = some (.int me))
    (all : order.Perm d.chat.client.nameMap.keys)
    (sent : (d.enter backwards s order).chat.requests = d.chat.requests ++ [p])
    (message : p.path = "/chatSendMessage")
    (served : (Server.new T' M').run cs = some server)
    (handled : server.handleMessage p m = .ok (after, replies)) :
    ∃ e, after.log = server.log ++ [e] ∧
      ∀ u, (e.letter u).isSome ↔ u = me ∨ d.Means backwards s u := by
  have tidy : d.window.Tidy := run_tidy ran
  rcases enter_chat backwards d s order with nothing | ⟨newName, renames⟩ |
    ⟨o, sends, addressed, -⟩
  · rw [nothing] at sent
    simp at sent
  · rw [renames] at sent
    rw [send_requests sent] at message
    simp at message
  · rw [sends] at sent
    obtain rfl := send_requests sent
    obtain ⟨users, real⟩ := addressed_users backwards s order tidy
    have supported := packet_supported own (addressed.trans real)
    refine ⟨_, handle_message (run_logged served).1 message supported handled, fun u => ?_⟩
    rw [letter_concerns own, addressed, addressed_means tidy numbered all]

/-- Ann whispers to bob. -/
theorem entered_reaches_bob : ∃ e : Entry, (∀ u, (e.letter u).isSome ↔
      u = 1 ∨ seated.Means (fun _ _ _ => "") "@bob hi" u) ∧
    (e.letter 2).isSome ∧ ¬ (e.letter 3).isSome := by
  let p : Packet := ⟨"/chatSendMessage", [.int 1, .string "plain", .string "hi", .int 2]⟩
  have sent : (seated.enter (fun _ _ _ => "") "@bob hi" [1, 2, 3, 4]).chat.requests =
      seated.chat.requests ++ [p] := by decide +kernel
  have own : seated.chat.client.userId = some (.int 1) := by decide +kernel
  have served : (Server.new 10 3).run [] = some (Server.new 10 3) := rfl
  have handled : (Server.new 10 3).handleMessage p ⟨0, []⟩ = .ok (_, []) := rfl
  obtain ⟨e, queued, reaches⟩ := entered_reaches seated_run
    ⟨by decide +kernel, by decide +kernel⟩ own (by decide +kernel) sent rfl served handled
  refine ⟨e, reaches, ?_⟩
  cases queued
  decide

end Texts

section Drives
variable {backwards : String → Nat → Nat → String} {d next : Desk} {ev : DeskEvent}

def Desk.drives (backwards : String → Nat → Nat → String) (d : Desk) : DeskEvent → Option Event
  | .world e => some e
  | .connect =>
    if d.window.wedged ∨ d.chat.client.connected then none else some (.connect d.window.name)
  | .enter s order =>
    match d.window.asks backwards d.chat.client.nameMap order s with
    | (window, .send recipientIds type contents) =>
      (window.sends recipientIds type contents).2.map fun o =>
        .sendMessage o.type o.contents (o.recipientIds.filterMap id)
    | (window, .rename newName) => some (.rename (window.prUpdateName newName).name)
    | _ => none
  | _ => none

theorem step_tidy (tidy : d.window.Tidy) (ran : d.step backwards ev = some next) :
    next.window.Tidy := by
  have honours : Honours d d.window.chosen := ⟨tidy, rfl⟩
  cases chooses : d.chooses ev with
  | none => exact (step_unchosen honours ran chooses).tidy
  | some c =>
    obtain ⟨after, -, kept⟩ := step_chosen honours ran chooses
    exact kept.tidy

theorem connect_drives (ran : d.connect = some next) :
    (d.drives backwards .connect = none ∧ next.chat = d.chat) ∨
      ∃ e, d.drives backwards .connect = some e ∧ d.chat.step e = some next.chat := by
  unfold Desk.connect at ran
  unfold Desk.drives
  split at ran
  · rename_i wedged
    cases ran
    exact Or.inl ⟨if_pos (Or.inl wedged), rfl⟩
  · rename_i unwedged
    split at ran
    · rename_i connected
      cases ran
      exact Or.inl ⟨if_pos (Or.inr connected), rfl⟩
    · rename_i unconnected
      obtain ⟨chat, stepped, rfl⟩ := Option.map_eq_some_iff.mp ran
      exact Or.inr ⟨_, if_neg (not_or.mpr ⟨unwedged, unconnected⟩), stepped⟩

theorem enter_drives (tidy : d.window.Tidy) (s : String) (order : List Int) :
    (d.drives backwards (.enter s order) = none ∧ (d.enter backwards s order).chat = d.chat) ∨
      ∃ e, d.drives backwards (.enter s order) = some e ∧
        d.chat.step e = some (d.enter backwards s order).chat := by
  cases asks : d.window.asks backwards d.chat.client.nameMap order s with
  | mk v action =>
    simp only [Desk.drives, Desk.enter, asks]
    cases action with
    | send recipientIds type contents =>
      obtain ⟨users, addressed⟩ := addressed_users backwards s order tidy
      obtain ⟨same, -⟩ := asks_addressed asks
      simp only [Window.sends]
      split
      · refine Or.inr ⟨_, rfl, congrArg some ?_⟩
        rw [same, addressed, List.filterMap_map]
        simp [Outgoing.packet, idArg, Function.comp_def]
      · exact Or.inl ⟨rfl, rfl⟩
    | rename newName => exact Or.inr ⟨_, rfl, rfl⟩
    | done | raises => exact Or.inl ⟨rfl, rfl⟩

theorem step_drives (tidy : d.window.Tidy) (ran : d.step backwards ev = some next) :
    (d.drives backwards ev = none ∧ next.chat = d.chat) ∨
      ∃ e, d.drives backwards ev = some e ∧ d.chat.step e = some next.chat := by
  cases ev with
  | world e =>
    obtain ⟨-, ran⟩ := Option.ite_none_right_eq_some.mp ran
    obtain ⟨chat, stepped, rfl⟩ := Option.map_eq_some_iff.mp ran
    exact Or.inr ⟨e, rfl, stepped⟩
  | connect => exact connect_drives ran
  | connectFails =>
    obtain ⟨-, ran⟩ := Option.ite_none_left_eq_some.mp ran
    cases ran
    exact Or.inl ⟨rfl, rfl⟩
  | rebuild order =>
    simp only [Desk.step] at ran
    split at ran
    · cases ran
    · obtain ⟨-, ran⟩ := Option.ite_none_right_eq_some.mp ran
      cases ran
      exact Or.inl ⟨rfl, rfl⟩
  | select rows =>
    obtain ⟨-, ran⟩ := Option.ite_none_right_eq_some.mp ran
    cases ran
    exact Or.inl ⟨rfl, rfl⟩
  | clearSelection =>
    cases ran
    exact Or.inl ⟨rfl, rfl⟩
  | chooseType type =>
    obtain ⟨-, ran⟩ := Option.ite_none_right_eq_some.mp ran
    cases ran
    exact Or.inl ⟨rfl, rfl⟩
  | enter s order =>
    obtain ⟨-, ran⟩ := Option.ite_none_right_eq_some.mp ran
    cases ran
    exact enter_drives tidy s order

theorem window_drives {T M : Int} {name : String} {asDirector : Bool} {es : List DeskEvent}
    (ran : run (Desk.step backwards) (Desk.new T M name asDirector) es = some d) :
    (Chat.new T M).run (seen (Desk.step backwards) (Desk.drives backwards)
      (Desk.new T M name asDirector) es) = some d.chat := by
  let related (d : Desk) (chat : Chat) : Prop := d.window.Tidy ∧ d.chat = chat
  have unseen : ∀ d ev next chat, related d chat → d.step backwards ev = some next →
      d.drives backwards ev = none → related next chat := by
    rintro d ev next chat ⟨tidy, rfl⟩ ran idle
    rcases step_drives tidy ran with ⟨-, same⟩ | ⟨e, drives, -⟩
    · exact ⟨step_tidy tidy ran, same⟩
    · rw [idle] at drives
      cases drives
  have simulated : ∀ d ev next chat e, related d chat → d.step backwards ev = some next →
      d.drives backwards ev = some e → ∃ after, chat.step e = some after ∧ related next after := by
    rintro d ev next chat e ⟨tidy, rfl⟩ ran driven
    rcases step_drives tidy ran with ⟨drives, -⟩ | ⟨f, drives, stepped⟩
    · rw [driven] at drives
      cases drives
    · rw [driven] at drives
      cases drives
      exact ⟨next.chat, stepped, step_tidy tidy ran, rfl⟩
  obtain ⟨chat, taken, -, same⟩ := run_simulates related unseen simulated
    ⟨tidy_new name asDirector, rfl⟩ ran
  exact same ▸ taken

end Drives

end SCLOrkChat
