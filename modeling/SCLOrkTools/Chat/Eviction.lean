import SCLOrkTools.Chat.Membership

/- Whom the sweep of /chatGetMessages reaches. It walks m_clientPings and not m_nameMap, so a
   user who has signed in and never asks for messages is not timed out. -/
namespace SCLOrkChat
open GuardedRun

def poller (c : Packet × Moment) : Option Int :=
  match getCommandNamed c.1.path, c.1.args with
  | .kGetMessages, [.int userID, .int _] => some userID
  | _, _ => none

def SignedInSince (start : Server) (cs : List (Packet × Moment)) (id cutTime : Int) : Prop :=
  Happened Server.step (fun s c => Issues id s c ∧ cutTime < c.2.now) start cs

def PolledSince (cs : List (Packet × Moment)) (id cutTime : Int) : Prop :=
  ∃ c ∈ cs, poller c = some id ∧ cutTime < c.2.now

/-- The messages that tell of these users' timeouts, with consecutive serials. -/
def timeouts (serial : Int) : List (Int × String) → List Packet
  | [] => []
  | (userID, name) :: rest =>
    ⟨"/chatChangeClient", changeClient serial "timeout" userID name⟩ :: timeouts (serial + 1) rest

def Server.packets (s : Server) : List Packet := s.log.map Entry.packet

/-- The users whom the sweep from s to t removed, each with a message of its own. -/
structure Swept (s t : Server) (removed : List (Int × String)) : Prop where
  once : (removed.map Prod.fst).Nodup
  gone : ∀ id name, (id, name) ∈ removed ↔ s.nameMap.lookup id = some name ∧ id ∉ t.nameMap
  told : t.packets = s.packets ++ timeouts s.messageSerial removed

structure Outdated (s t : Server) (cutTime : Int) : Prop where
  timeout : t.timeout = s.timeout
  pings : ∀ id, t.clientPings.lookup id = s.clientPings.lookup id ∨
    t.clientPings.lookup id = none ∧ s.stale cutTime id

theorem sweepOne_swept {s t : Server} (logged : Logged s) {cutTime userID : Int}
    (ran : s.sweepOne cutTime userID = .ok t) : Outdated s t cutTime ∧
      (t.nameMap = s.nameMap ∧ t.packets = s.packets ∧ t.messageSerial = s.messageSerial ∨
        ∃ name, s.nameMap.lookup userID = some name ∧ t.nameMap = s.nameMap.erase userID ∧
          t.packets = s.packets ++ timeouts s.messageSerial [(userID, name)] ∧
            t.messageSerial = s.messageSerial + 1) := by
  have erased (stale : s.stale cutTime userID) (id : Int) :
      (s.clientPings.erase userID).lookup id = s.clientPings.lookup id ∨
        (s.clientPings.erase userID).lookup id = none ∧ s.stale cutTime id := by
    by_cases same : id = userID
    · subst same
      exact Or.inr ⟨AList.lookup_erase id s.clientPings, stale⟩
    · exact Or.inl (AList.lookup_erase_ne same)
  rcases sweepOne_cases logged ran with
    ⟨-, rfl⟩ | ⟨stale, -, rfl⟩ | ⟨stale, name, named, -, rfl⟩
  · exact ⟨⟨rfl, fun _ => Or.inl rfl⟩, Or.inl ⟨rfl, rfl, rfl⟩⟩
  · exact ⟨⟨rfl, erased stale⟩, Or.inl ⟨rfl, rfl, rfl⟩⟩
  · exact ⟨⟨rfl, erased stale⟩, Or.inr ⟨name, named, rfl, List.map_append, rfl⟩⟩

theorem outdated_trans {s t u : Server} {cutTime : Int} (first : Outdated s t cutTime)
    (rest : Outdated t u cutTime) : Outdated s u cutTime where
  timeout := rest.timeout.trans first.timeout
  pings := by
    intro id
    rcases first.pings id with same | ⟨erased, old⟩
    · rcases rest.pings id with kept | ⟨erased, ping, pinged, old⟩
      · exact Or.inl (kept.trans same)
      · exact Or.inr ⟨erased, ping, same ▸ pinged, old⟩
    · rcases rest.pings id with kept | ⟨again, -⟩
      · exact Or.inr ⟨kept.trans erased, old⟩
      · exact Or.inr ⟨again, old⟩

theorem sweep_swept {s t : Server} (logged : Logged s) {cutTime : Int} {order : List Int}
    (ran : s.sweep cutTime order = .ok t) : Outdated s t cutTime ∧
      (∀ id, s.nameMap.lookup id = none → t.nameMap.lookup id = none) ∧
        ∃ removed, Swept s t removed := by
  induction order generalizing s with
  | nil =>
    cases ran
    refine ⟨⟨rfl, fun _ => Or.inl rfl⟩, fun _ unnamed => unnamed, [], ?_⟩
    refine ⟨List.nodup_nil, ?_, (List.append_nil _).symm⟩
    intro id name
    apply iff_of_false List.not_mem_nil
    rintro ⟨named, absent⟩
    exact absent (AList.lookup_isSome.mp (named ▸ rfl))
  | cons userID order ih =>
    obtain ⟨mid, first, rest⟩ := bind_ok ran
    obtain ⟨outdated, turn⟩ := sweepOne_swept logged first
    have logged' := logged_moves logged (sweepOne_moves logged first)
    obtain ⟨outdated', stay, removed, swept⟩ := ih logged' rest
    refine ⟨outdated_trans outdated outdated', ?_⟩
    rcases turn with ⟨names, packets, serial⟩ | ⟨name, named, names, packets, serial⟩
    · rw [names] at stay
      refine ⟨stay, removed, swept.once, ?_, ?_⟩
      · rw [← names]
        exact swept.gone
      · rw [swept.told, packets, serial]
    · have erased : mid.nameMap.lookup userID = none := by
        rw [names, AList.lookup_erase]
      have others {id : Int} (ne : id ≠ userID) : mid.nameMap.lookup id = s.nameMap.lookup id := by
        rw [names, AList.lookup_erase_ne ne]
      refine ⟨?_, (userID, name) :: removed, ?_, ?_, ?_⟩
      · intro id unnamed
        apply stay id
        by_cases same : id = userID
        · exact same ▸ erased
        · exact (others same).trans unnamed
      · refine List.nodup_cons.mpr ⟨?_, swept.once⟩
        intro again
        obtain ⟨⟨id, other⟩, mem, same⟩ := List.mem_map.mp again
        have known := ((swept.gone id other).mp mem).1
        rw [show id = userID from same, erased] at known
        cases known
      · intro id other
        rw [List.mem_cons, Prod.mk.injEq, swept.gone]
        by_cases same : id = userID
        · subst same
          have absent : id ∉ t.nameMap := AList.lookup_eq_none.mp (stay id erased)
          simp [erased, named, absent, eq_comm]
        · simp [same, others same]
      · rw [swept.told, packets, serial, List.append_assoc]
        rfl

theorem step_poll {s t : Server} {c : Packet × Moment} {userID : Int} (logged : Logged s)
    (step : s.step c = some t) (polls : poller c = some userID) :
    c.2.order.Perm (s.ping userID c.2.now).clientPings.keys ∧
      (s.ping userID c.2.now).sweep (c.2.now - s.timeout) c.2.order = .ok t := by
  obtain ⟨walked, sent, ran⟩ := step_cases step
  unfold poller at polls
  split at polls
  · rename_i asker messageID command args
    cases polls
    rw [Server.walked, command, args] at walked
    cases handle_cases logged ran with
    | getMessages _ asker' messageID' args' _ swept =>
      cases args.symm.trans args'
      exact ⟨walked, swept⟩
    | ignored unfit =>
      rw [command] at unfit
      exact absurd args (unfit _ _)
    | signIn other | getAllClients other | sendMessage other | abandoned other | changeName other
    | signOut other =>
      rw [command] at other
      cases other
  · cases polls

theorem step_other {s t : Server} {c : Packet × Moment} (logged : Logged s)
    (step : s.step c = some t) (other : poller c = none) :
    t.timeout = s.timeout ∧ t.clientPings = s.clientPings := by
  obtain ⟨-, sent, ran⟩ := step_cases step
  cases handle_cases logged ran with
  | getMessages command userID messageID args =>
    simp [poller, command, args] at other
  | signIn | getAllClients | sendMessage | abandoned | changeName | signOut | ignored =>
    exact ⟨rfl, rfl⟩

theorem ping_lookup (s : Server) (userID now id : Int) :
    (s.ping userID now).clientPings.lookup id =
      if id = userID then some now else s.clientPings.lookup id := by
  by_cases same : id = userID
  · subst same
    rw [if_pos rfl]
    exact AList.lookup_insert s.clientPings
  · rw [if_neg same]
    exact AList.lookup_insert_ne same

def Chronological (cs : List (Packet × Moment)) : Prop := cs.Pairwise (·.2.now ≤ ·.2.now)

/-- What the pings say about the requests for messages so far. A request whose ping is gone
    is older than the timeout. -/
structure Pinged (T : Int) (past : List (Packet × Moment)) (s : Server) : Prop where
  logged : Logged s
  timeout : s.timeout = T
  heard : ∀ id ping, s.clientPings.lookup id = some ping →
    ∃ c ∈ past, poller c = some id ∧ c.2.now = ping
  kept : ∀ c ∈ past, ∀ id ∈ poller c, (∃ ping ∈ s.clientPings.lookup id, c.2.now ≤ ping) ∨
    ∃ later ∈ past, c.2.now + T ≤ later.2.now

theorem pinged_other {T : Int} {past : List (Packet × Moment)} {s t : Server} {c : Packet × Moment}
    (pinged : Pinged T past s) (step : s.step c = some t) (other : poller c = none) :
    Pinged T (past ++ [c]) t := by
  obtain ⟨timeout, pings⟩ := step_other pinged.logged step other
  refine ⟨logged_moves pinged.logged (step_moves pinged.logged step),
    timeout.trans pinged.timeout, ?_, ?_⟩
  · intro id ping found
    rw [pings] at found
    obtain ⟨before, mem, polled, same⟩ := pinged.heard id ping found
    exact ⟨before, List.mem_append_left _ mem, polled, same⟩
  · intro before mem id polled
    rcases List.mem_append.mp mem with past_mem | last
    · rcases pinged.kept before past_mem id polled with here | ⟨later, later_mem, passed⟩
      · exact Or.inl (pings ▸ here)
      · exact Or.inr ⟨later, List.mem_append_left _ later_mem, passed⟩
    · rw [List.mem_singleton.mp last, other] at polled
      cases polled

theorem pinged_poll {T : Int} {past : List (Packet × Moment)} {s t : Server} {c : Packet × Moment}
    {userID : Int} (pinged : Pinged T past s) (ordered : Chronological (past ++ [c]))
    (step : s.step c = some t) (polls : poller c = some userID) : Pinged T (past ++ [c]) t := by
  have earlier : ∀ before ∈ past, before.2.now ≤ c.2.now := fun before mem =>
    (List.pairwise_append.mp ordered).2.2 before mem c List.mem_cons_self
  have logged : Logged (s.ping userID c.2.now) := logged_same pinged.logged rfl rfl rfl
  obtain ⟨outdated, -, -⟩ := sweep_swept logged (step_poll pinged.logged step polls).2
  have timeout := pinged.timeout
  have last : c ∈ past ++ [c] := List.mem_append_right _ List.mem_cons_self
  refine ⟨logged_moves pinged.logged (step_moves pinged.logged step),
    outdated.timeout.trans timeout, ?_, ?_⟩
  · intro id ping found
    rcases outdated.pings id with same | ⟨erased, -⟩
    · rw [same, ping_lookup] at found
      by_cases asker : id = userID
      · rw [if_pos asker] at found
        exact ⟨c, last, by rw [asker, polls], Option.some.inj found⟩
      · rw [if_neg asker] at found
        obtain ⟨before, mem, polled, same⟩ := pinged.heard id ping found
        exact ⟨before, List.mem_append_left _ mem, polled, same⟩
    · rw [erased] at found
      cases found
  · intro before mem id polled
    -- A ping that the sweep finds stale is at least as old as the timeout.
    have outlives (known : ∃ ping ∈ (s.ping userID c.2.now).clientPings.lookup id,
        before.2.now ≤ ping) : (∃ ping ∈ t.clientPings.lookup id, before.2.now ≤ ping) ∨
          ∃ later ∈ past ++ [c], before.2.now + T ≤ later.2.now := by
      obtain ⟨ping, found, reaches⟩ := known
      rcases outdated.pings id with same | ⟨-, old, again, stale⟩
      · exact Or.inl ⟨ping, same ▸ found, reaches⟩
      · rw [Option.mem_def.mp found] at again
        cases again
        exact Or.inr ⟨c, last, by omega⟩
    rcases List.mem_append.mp mem with past_mem | now
    · by_cases asker : id = userID
      · apply outlives
        rw [ping_lookup, if_pos asker]
        exact ⟨c.2.now, rfl, earlier before past_mem⟩
      · rcases pinged.kept before past_mem id polled with here | ⟨later, later_mem, passed⟩
        · apply outlives
          rw [ping_lookup, if_neg asker]
          exact here
        · exact Or.inr ⟨later, List.mem_append_left _ later_mem, passed⟩
    · apply outlives
      rw [List.mem_singleton.mp now, polls] at polled
      rw [List.mem_singleton.mp now, ping_lookup, if_pos (Option.some.inj polled).symm]
      exact ⟨c.2.now, rfl, Int.le_refl _⟩

theorem run_pinged {T M : Int} {s : Server} {cs : List (Packet × Moment)}
    (ordered : Chronological cs) (ran : (Server.new T M).run cs = some s) : Pinged T cs s := by
  have kept := run_keeps_history (fun past s => Chronological past → Pinged T past s) ?_ ?_ ran
  · exact kept ordered
  · intro past s c t before step ordered
    have pinged := before (List.pairwise_append.mp ordered).1
    cases polls : poller c with
    | none => exact pinged_other pinged step polls
    | some userID => exact pinged_poll pinged ordered step polls
  · intro _
    refine ⟨logged_new T M, rfl, ?_, ?_⟩
    · intro id ping found
      simp [Server.new] at found
    · intro c mem
      cases mem

/-- The sweep of the command c has left nobody in the name map who was last heard of before the
    cut time, and it has told of everybody it removed. -/
structure EvictsStale (start : Server) (past : List (Packet × Moment)) (c : Packet × Moment)
    (s t : Server) : Prop where
  fresh : ∀ id ∈ t.nameMap,
    SignedInSince start (past ++ [c]) id (c.2.now - start.timeout) ∨
      PolledSince (past ++ [c]) id (c.2.now - start.timeout)
  told : ∃ removed, Swept s t removed

def Tracked (start : Server) (past : List (Packet × Moment)) (c : Packet × Moment)
    (s : Server) : Prop :=
  ∀ userID ∈ poller c, ∀ id ∈ s.nameMap, id = userID ∨ id ∈ s.clientPings ∨
    SignedInSince start past id (c.2.now - start.timeout)

theorem signedInSince_poll {start s : Server} {past : List (Packet × Moment)}
    {c : Packet × Moment} {userID id cutTime : Int} (front : start.run past = some s)
    (polls : poller c = some userID) :
    SignedInSince start (past ++ [c]) id cutTime ↔ SignedInSince start past id cutTime := by
  have noSignIn : ¬ (Issues id s c ∧ cutTime < c.2.now) := by
    rintro ⟨⟨command, -⟩, -⟩
    simp [poller, command] at polls
  rw [SignedInSince, happened_snoc_iff front, SignedInSince]
  exact or_iff_left noSignIn

section Sweep
variable {T M : Int} {s t : Server} {past : List (Packet × Moment)} {c : Packet × Moment}
  {userID : Int}

theorem poll_told (pinged : Pinged T past s) (step : s.step c = some t)
    (polls : poller c = some userID) : ∃ removed, Swept s t removed := by
  have logged : Logged (s.ping userID c.2.now) := logged_same pinged.logged rfl rfl rfl
  obtain ⟨-, -, removed, swept⟩ := sweep_swept logged (step_poll pinged.logged step polls).2
  exact ⟨removed, swept.once, swept.gone, swept.told⟩

theorem poll_members (pinged : Pinged T past s) (step : s.step c = some t)
    (polls : poller c = some userID) (id : Int) : id ∈ t.nameMap ↔
      id ∈ s.nameMap ∧ ¬ (s.ping userID c.2.now).stale (c.2.now - T) id := by
  have logged : Logged (s.ping userID c.2.now) := logged_same pinged.logged rfl rfl rfl
  obtain ⟨walked, swept⟩ := step_poll pinged.logged step polls
  rw [pinged.timeout] at swept
  have walks (old : (s.ping userID c.2.now).stale (c.2.now - T) id) : id ∈ c.2.order := by
    obtain ⟨ping, found, -⟩ := old
    have there : id ∈ (s.ping userID c.2.now).clientPings :=
      AList.lookup_isSome.mp (Option.isSome_iff_exists.mpr ⟨ping, found⟩)
    exact walked.mem_iff.mpr (AList.mem_keys.mp there)
  rw [sweep_members logged swept id]
  apply and_congr_right
  intro _
  exact not_congr ⟨And.right, fun old => ⟨walks old, old⟩⟩

theorem fresh_of_tracked (positive : 0 < T) (ran : (Server.new T M).run past = some s)
    (pinged : Pinged T past s) (step : s.step c = some t) (polls : poller c = some userID)
    (tracked : Tracked (Server.new T M) past c s) : ∀ id ∈ t.nameMap,
      SignedInSince (Server.new T M) (past ++ [c]) id (c.2.now - T) ∨
        PolledSince (past ++ [c]) id (c.2.now - T) := by
  intro id there
  obtain ⟨named, kept⟩ := (poll_members pinged step polls id).mp there
  have last : c ∈ past ++ [c] := List.mem_append_right _ List.mem_cons_self
  by_cases asker : id = userID
  · exact Or.inr ⟨c, last, by rw [asker, polls], by omega⟩
  · rcases tracked userID polls id named with same | has_ping | signed
    · exact absurd same asker
    · obtain ⟨ping, found⟩ := Option.isSome_iff_exists.mp (AList.lookup_isSome.mpr has_ping)
      have recent : c.2.now - T < ping := by
        by_contra old
        refine kept ⟨ping, ?_, by omega⟩
        rw [ping_lookup, if_neg asker]
        exact found
      obtain ⟨before, mem, polled, same⟩ := pinged.heard id ping found
      exact Or.inr ⟨before, List.mem_append_left _ mem, polled, same ▸ recent⟩
    · exact Or.inl ((signedInSince_poll ran polls).mpr signed)

theorem tracked_of_fresh (ordered : Chronological (past ++ [c]))
    (ran : (Server.new T M).run past = some s) (pinged : Pinged T past s)
    (step : s.step c = some t) (polls : poller c = some userID)
    (fresh : ∀ id ∈ t.nameMap, SignedInSince (Server.new T M) (past ++ [c]) id (c.2.now - T) ∨
      PolledSince (past ++ [c]) id (c.2.now - T)) : Tracked (Server.new T M) past c s := by
  intro asking same_asker id named
  rw [Option.mem_def, polls] at same_asker
  cases same_asker
  by_cases asker : id = userID
  · exact Or.inl asker
  · by_cases has_ping : id ∈ s.clientPings
    · exact Or.inr (Or.inl has_ping)
    · have unheard : s.clientPings.lookup id = none := AList.lookup_eq_none.mpr has_ping
      have stays : id ∈ t.nameMap := by
        refine (poll_members pinged step polls id).mpr ⟨named, ?_⟩
        rintro ⟨ping, found, -⟩
        rw [ping_lookup, if_neg asker, unheard] at found
        cases found
      rcases fresh id stays with signed | ⟨before, mem, polled, recent⟩
      · exact Or.inr (Or.inr ((signedInSince_poll ran polls).mp signed))
      · rcases List.mem_append.mp mem with past_mem | now
        · rcases pinged.kept before past_mem id polled with ⟨ping, found, -⟩ | late
          · rw [Option.mem_def, unheard] at found
            cases found
          · obtain ⟨later, inside, passed⟩ := late
            have := (List.pairwise_append.mp ordered).2.2 later inside c List.mem_cons_self
            omega
        · rw [List.mem_singleton.mp now, polls] at polled
          exact absurd (Option.some.inj polled).symm asker

end Sweep

/-- The sweeps of a run evict everybody who is stale exactly when each of them finds a ping of
    every user who did not sign in just now. -/
theorem eviction_iff {T M : Int} (positive : 0 < T) {s : Server} {cs : List (Packet × Moment)}
    (ordered : Chronological cs) (ran : (Server.new T M).run cs = some s) :
    (∀ past c rest before after, cs = past ++ c :: rest →
      (Server.new T M).run past = some before → before.step c = some after →
        (poller c).isSome → EvictsStale (Server.new T M) past c before after) ↔
    ∀ past c rest before, cs = past ++ c :: rest →
      (Server.new T M).run past = some before → Tracked (Server.new T M) past c before := by
  have whole {past rest : List (Packet × Moment)} {c : Packet × Moment}
      (shape : cs = past ++ c :: rest) : Chronological (past ++ [c]) := by
    have split : cs = (past ++ [c]) ++ rest := by simp [shape]
    rw [split] at ordered
    exact (List.pairwise_append.mp ordered).1
  constructor
  · intro right past c rest before shape front userID polls
    have pinged := run_pinged (List.pairwise_append.mp (whole shape)).1 front
    obtain ⟨mid, front', back⟩ := run_append.mp (shape ▸ ran)
    cases front.symm.trans front'
    obtain ⟨after, step, -⟩ := run_cons.mp back
    have evicts := right past c rest before after shape front step (by rw [polls]; rfl)
    exact tracked_of_fresh (whole shape) front pinged step polls evicts.fresh userID polls
  · intro tracked past c rest before after shape front step asks
    obtain ⟨userID, polls⟩ := Option.isSome_iff_exists.mp asks
    have pinged := run_pinged (List.pairwise_append.mp (whole shape)).1 front
    have known := tracked past c rest before shape front
    exact ⟨fresh_of_tracked positive front pinged step polls known, poll_told pinged step polls⟩

def signInAt (name : String) (now : Int) : Packet × Moment :=
  (⟨"/chatSignIn", [.string name]⟩, ⟨now, []⟩)

def pollAt (userID now : Int) (order : List Int) : Packet × Moment :=
  (⟨"/chatGetMessages", [.int userID, .int 0]⟩, ⟨now, order⟩)

def faded : List (Packet × Moment) :=
  [signInAt "ann" 0, pollAt 1 1 [1], signInAt "bob" 2, pollAt 2 100 [2, 1]]

def fadedServer : Server := ((Server.new 10 3).run faded).get (by decide +kernel)

theorem faded_ran : (Server.new 10 3).run faded = some fadedServer := (Option.some_get _).symm

theorem eviction_iff_faded :
    (∀ past c rest before after, faded = past ++ c :: rest →
      (Server.new 10 3).run past = some before → before.step c = some after →
        (poller c).isSome → EvictsStale (Server.new 10 3) past c before after) ↔
    ∀ past c rest before, faded = past ++ c :: rest →
      (Server.new 10 3).run past = some before → Tracked (Server.new 10 3) past c before :=
  eviction_iff (by decide)
    (by simp [Chronological, faded, signInAt, pollAt]) faded_ran

/-- Ann signs in and is never heard of again, and Bob's request for messages a hundred seconds
    later leaves her in the name map. -/
theorem silent_user_stays :
    ∃ before after, (Server.new 10 3).run [signInAt "ann" 0, signInAt "bob" 1] = some before ∧
      before.step (pollAt 2 100 [2]) = some after ∧
        ¬ EvictsStale (Server.new 10 3) [signInAt "ann" 0, signInAt "bob" 1] (pollAt 2 100 [2])
          before after := by
  have ends : ∃ before ∈ (Server.new 10 3).run [signInAt "ann" 0, signInAt "bob" 1],
      ∃ after ∈ before.step (pollAt 2 100 [2]), 1 ∈ after.nameMap := by decide +kernel
  obtain ⟨before, front, after, step, stays⟩ := ends
  refine ⟨before, after, front, step, ?_⟩
  intro evicts
  have early : ∀ c ∈ [signInAt "ann" 0, signInAt "bob" 1] ++ [pollAt 2 100 [2]],
      90 < c.2.now → getCommandNamed c.1.path ≠ .kSignIn ∧ poller c ≠ some 1 := by
    decide +kernel
  rcases evicts.fresh 1 stays with signed | ⟨c, mem, polled, recent⟩
  · obtain ⟨pre, c, post, mid, shape, -, issues, recent⟩ := signed
    have mem : c ∈ [signInAt "ann" 0, signInAt "bob" 1] ++ [pollAt 2 100 [2]] := by simp [shape]
    exact (early c mem recent).1 issues.1
  · exact (early c mem recent).2 polled

end SCLOrkChat
