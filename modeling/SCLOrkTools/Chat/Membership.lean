import SCLOrkTools.Chat.Log

/- Who is in the name map of the chat server. The sweep, the sign-out and the sign-in keep it
   to the users that were issued an id and have not left. A change of names does not ask
   whether its user is there. -/
namespace SCLOrkChat
open GuardedRun

/-- The reply to the command gives its sender this id. -/
def Issues (id : Int) (s : Server) (c : Packet × Moment) : Prop :=
  getCommandNamed c.1.path = .kSignIn ∧
    ∃ t, s.handleMessage c.1 c.2 = .ok (t, [⟨"/chatSignInComplete", [.int id]⟩])

def SignsOut (id : Int) (c : Packet × Moment) : Prop :=
  getCommandNamed c.1.path = .kSignOut ∧ c.1.args = [.int id]

def TimesOut (id : Int) (s : Server) (c : Packet × Moment) : Prop :=
  getCommandNamed c.1.path = .kGetMessages ∧ ∃ userID messageID,
    c.1.args = [.int userID, .int messageID] ∧
      (s.ping userID c.2.now).stale (c.2.now - s.timeout) id

def Leaves (id : Int) (s : Server) (c : Packet × Moment) : Prop :=
  SignsOut id c ∨ TimesOut id s c

def Renames (id : Int) (c : Packet × Moment) : Prop :=
  getCommandNamed c.1.path = .kChangeName ∧ ∃ name, c.1.args = [.int id, .string name]

theorem sweepOne_members {s t : Server} (logged : Logged s) {cutTime userID : Int}
    (ran : s.sweepOne cutTime userID = .ok t) :
    (∀ id, id ∈ t.nameMap ↔ id ∈ s.nameMap ∧ ¬ (id = userID ∧ s.stale cutTime id)) ∧
      (∀ id ≠ userID, t.stale cutTime id ↔ s.stale cutTime id) ∧
      (t.stale cutTime userID → s.stale cutTime userID) := by
  have others (u : Server) (same : u.clientPings = s.clientPings.erase userID) (id : Int)
      (ne : id ≠ userID) : u.stale cutTime id ↔ s.stale cutTime id := by
    simp only [Server.stale, AList.lookup_erase_ne ne, same]
  rcases sweepOne_cases logged ran with
    ⟨fresh, rfl⟩ | ⟨stale, unnamed, rfl⟩ | ⟨stale, name, -, -, rfl⟩
  · refine ⟨fun id => ⟨fun named => ⟨named, ?_⟩, And.left⟩, fun id _ => Iff.rfl, id⟩
    rintro ⟨rfl, old⟩
    exact fresh old
  · refine ⟨fun id => ⟨fun there => ⟨there, ?_⟩, And.left⟩, others _ rfl, fun _ => stale⟩
    rintro ⟨rfl, -⟩
    exact AList.lookup_eq_none.mp unnamed there
  · refine ⟨?_, others _ rfl, fun _ => stale⟩
    intro id
    change id ∈ s.nameMap.erase userID ↔ _
    rw [AList.mem_erase]
    constructor
    · rintro ⟨ne, there⟩
      exact ⟨there, fun gone => ne gone.1⟩
    · rintro ⟨there, kept⟩
      exact ⟨fun same => kept ⟨same, same ▸ stale⟩, there⟩

theorem sweep_members {s t : Server} (logged : Logged s) {cutTime : Int} {order : List Int}
    (ran : s.sweep cutTime order = .ok t) (id : Int) :
    id ∈ t.nameMap ↔ id ∈ s.nameMap ∧ ¬ (id ∈ order ∧ s.stale cutTime id) := by
  induction order generalizing s with
  | nil =>
    cases ran
    simp
  | cons userID order ih =>
    obtain ⟨mid, first, rest⟩ := bind_ok ran
    obtain ⟨members, others, same⟩ := sweepOne_members logged first
    rw [ih (logged_moves logged (sweepOne_moves logged first)) rest, members id, List.mem_cons]
    by_cases this_turn : id = userID
    · subst this_turn
      constructor
      · rintro ⟨⟨named, kept⟩, -⟩
        exact ⟨named, fun gone => kept ⟨rfl, gone.2⟩⟩
      · rintro ⟨named, kept⟩
        have fresh : ¬ s.stale cutTime id := fun old => kept ⟨Or.inl rfl, old⟩
        exact ⟨⟨named, fun gone => fresh gone.2⟩, fun gone => fresh (same gone.2)⟩
    · simp [this_turn, others id this_turn]

theorem getMessages_members {s t : Server} (logged : Logged s) {p : Packet} {m : Moment}
    {userID messageID : Int} (command : getCommandNamed p.path = .kGetMessages)
    (args : p.args = [.int userID, .int messageID]) (walked : m.order.Perm (s.walked p m))
    (swept : (s.ping userID m.now).sweep (m.now - s.timeout) m.order = .ok t) (id : Int) :
    id ∈ t.nameMap ↔ id ∈ s.nameMap ∧ ¬ TimesOut id s (p, m) := by
  have pinged : Logged (s.ping userID m.now) := logged_same logged rfl rfl rfl
  rw [sweep_members pinged swept id]
  have keys : m.order.Perm (s.ping userID m.now).clientPings.keys := by
    simpa [Server.walked, command, args] using walked
  have each (old : (s.ping userID m.now).stale (m.now - s.timeout) id) : id ∈ m.order := by
    obtain ⟨ping, found, -⟩ := old
    exact keys.mem_iff.mpr (AList.mem_keys.mp (AList.lookup_isSome.mp (by simp_all)))
  refine and_congr_right fun _ => not_congr ⟨?_, ?_⟩
  · rintro ⟨-, old⟩
    exact ⟨command, userID, messageID, args, old⟩
  · rintro ⟨-, userID', messageID', args', old⟩
    obtain ⟨rfl, rfl⟩ : userID = userID' ∧ messageID = messageID' := by
      simpa using args.symm.trans args'
    exact ⟨each old, old⟩

theorem step_members {s t : Server} {c : Packet × Moment} (logged : Logged s)
    (step : s.step c = some t) (id : Int) :
    id ∈ t.nameMap ↔ Renames id c ∨ Issues id s c ∨ id ∈ s.nameMap ∧ ¬ Leaves id s c := by
  obtain ⟨p, m⟩ := c
  obtain ⟨walked, sent, ran⟩ := step_cases step
  have issues : Issues id s (p, m) ↔ getCommandNamed p.path = .kSignIn ∧
      sent = [⟨"/chatSignInComplete", [.int id]⟩] := by
    simp only [Issues, ran]
    exact and_congr_right fun _ => ⟨fun ⟨u, same⟩ => (Prod.mk.inj (Except.ok.inj same)).2,
      fun same => ⟨t, by rw [same]⟩⟩
  rw [issues]
  have handled : Handled s p m t sent := handle_cases logged ran
  cases handled with
  | signIn command name userID args room =>
    change id ∈ s.nameMap.insert userID name ↔ _
    simp [Renames, Leaves, SignsOut, TimesOut, command, AList.mem_insert, eq_comm]
  | getAllClients command | abandoned command _ =>
    simp [Server.messageNew, Server.messageFree, Renames, Leaves, SignsOut, TimesOut, command]
  | getMessages command userID messageID args reply swept =>
    simp [getMessages_members logged command args walked swept id, Renames, Leaves, SignsOut,
      command]
  | sendMessage command whole room =>
    change id ∈ s.nameMap ↔ _
    simp [Renames, Leaves, SignsOut, TimesOut, command]
  | changeName command userID name args room =>
    change id ∈ s.nameMap.insert userID name ↔ _
    simp [Renames, Leaves, SignsOut, TimesOut, command, args, AList.mem_insert, eq_comm]
  | signOut command userID name args named room =>
    change id ∈ s.nameMap.erase userID ↔ _
    simp [Renames, Leaves, SignsOut, TimesOut, command, args, AList.mem_erase, and_comm, eq_comm]
  | ignored unfit =>
    have noRename : ¬ Renames id (p, m) := by
      rintro ⟨command, name, args⟩
      rw [command] at unfit
      exact unfit id name args
    have stays (there : id ∈ s.nameMap) : ¬ Leaves id s (p, m) := by
      rintro (⟨command, args⟩ | ⟨command, userID, messageID, args, -⟩) <;> rw [command] at unfit
      · exact unfit id there args
      · exact unfit userID messageID args
    simpa [noRename] using stays

/-- An id that a sign-in of the run issued and that has not left since. -/
def Standing (start : Server) (cs : List (Packet × Moment)) (id : Int) : Prop :=
  Since Server.step (Issues id) (Leaves id) start cs

def RenamesMember (s : Server) (c : Packet × Moment) : Prop :=
  ∀ id, Renames id c → id ∈ s.nameMap

theorem members_standing {timeout M : Int} {s : Server} {cs : List (Packet × Moment)}
    (known : Along Server.step RenamesMember (Server.new timeout M) cs)
    (ran : (Server.new timeout M).run cs = some s) :
    ∀ id, id ∈ s.nameMap ↔ Standing (Server.new timeout M) cs id := by
  have kept := run_history (fun past s => Logged s ∧ (Server.new timeout M).run past = some s ∧
    ∀ id, id ∈ s.nameMap ↔ Standing (Server.new timeout M) past id) ?_ []
    ⟨logged_new timeout M, rfl, ?_⟩ known ran
  · exact kept.2.2
  · rintro past s c t ⟨logged, front, members⟩ member step
    refine ⟨logged_moves logged (step_moves logged step), run_snoc.mpr ⟨s, front, step⟩, ?_⟩
    intro id
    rw [step_members logged step id, Standing, since_snoc front step, ← Standing, ← members id]
    constructor
    · rintro (renames | issued)
      · have notSignOut : ¬ Leaves id s c := by
          rintro (⟨command, -⟩ | ⟨command, -⟩) <;> simp [renames.1] at command
        exact Or.inr ⟨member id renames, notSignOut⟩
      · exact issued
    · exact Or.inr
  · intro id
    exact iff_of_false (AList.notMem_empty id) since_nil

/-- The name map is right in every state of a run exactly when each change of names the run
    makes is for a user of the name map. -/
theorem membership_iff {timeout M : Int} {s : Server} {cs : List (Packet × Moment)}
    (ran : (Server.new timeout M).run cs = some s) :
    (∀ pre post mid, cs = pre ++ post → (Server.new timeout M).run pre = some mid →
      ∀ id, id ∈ mid.nameMap ↔ Standing (Server.new timeout M) pre id) ↔
      Along Server.step RenamesMember (Server.new timeout M) cs := by
  constructor
  · intro right
    rw [along_iff_prefixes]
    intro pre c post shape mid front id renames
    subst shape
    obtain ⟨mid', front', back⟩ := run_append.mp ran
    rw [front] at front'
    cases front'
    obtain ⟨next, step, -⟩ := run_cons.mp back
    have added : id ∈ next.nameMap :=
      (step_members (run_logged front).1 step id).mpr (Or.inl renames)
    have standing := (right (pre ++ [c]) post next (by simp)
      (run_snoc.mpr ⟨mid, front, step⟩) id).mp added
    rcases (since_snoc front step).mp standing with issued | before
    · have := issued.1.symm.trans renames.1
      cases this
    · exact (right pre (c :: post) mid rfl front id).mpr before.1
  · intro known pre post mid shape front
    subst shape
    exact members_standing (along_append.mp known).1 front

def visit : List (Packet × Moment) :=
  [(⟨"/chatSignIn", [.string "ann"]⟩, ⟨0, []⟩),
    (⟨"/chatChangeName", [.int 1, .string "anna"]⟩, ⟨1, []⟩),
    (⟨"/chatSignOut", [.int 1]⟩, ⟨2, []⟩)]

def visited : Server := ((Server.new 10 3).run visit).get (by decide +kernel)

theorem visited_ran : (Server.new 10 3).run visit = some visited := (Option.some_get _).symm

theorem membership_iff_visit :
    (∀ pre post mid, visit = pre ++ post → (Server.new 10 3).run pre = some mid →
      ∀ id, id ∈ mid.nameMap ↔ Standing (Server.new 10 3) pre id) ↔
      Along Server.step RenamesMember (Server.new 10 3) visit :=
  membership_iff visited_ran

/-- A change of names that is on its way while its user signs out brings the user back. -/
theorem late_rename : ∃ s, (Server.new 10 3).run
      (visit ++ [(⟨"/chatChangeName", [.int 1, .string "ann"]⟩, ⟨3, []⟩)]) = some s ∧
    1 ∈ s.nameMap ∧ ¬ Standing (Server.new 10 3)
      (visit ++ [(⟨"/chatChangeName", [.int 1, .string "ann"]⟩, ⟨3, []⟩)]) 1 := by
  have renames : ∃ s, visited.step (⟨"/chatChangeName", [.int 1, .string "ann"]⟩, ⟨3, []⟩) =
      some s ∧ 1 ∈ s.nameMap := by decide +kernel
  obtain ⟨s, step, back⟩ := renames
  refine ⟨s, run_snoc.mpr ⟨visited, visited_ran, step⟩, back, ?_⟩
  rw [Standing, since_snoc visited_ran step]
  rintro (⟨command, -⟩ | ⟨still, -⟩)
  · simp [getCommandNamed] at command
  · have parts : run Server.step (Server.new 10 3)
        (visit.take 2 ++ [(⟨"/chatSignOut", [.int 1]⟩, ⟨2, []⟩)]) = some visited := visited_ran
    obtain ⟨mid, front, last⟩ := run_snoc.mp parts
    rcases (since_snoc front last).mp still with ⟨command, -⟩ | ⟨-, stays⟩
    · simp [getCommandNamed] at command
    · exact stays (Or.inl ⟨rfl, rfl⟩)

end SCLOrkChat
