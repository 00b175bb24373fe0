import SCLOrkTools.Confab.Commands

/- What a client's database keeps of the server's. A client that does not have an asset asks the
   server, and keeps the answer under the id that was asked for. -/
namespace Confab
open OrderedStores ByteStrings GuardedRun

/-- A server and one of its clients. -/
structure Site where
  server : Database
  client : OscHandler

/-- A request that the server gets from anyone, or a task of the client, with what it finds around
    it besides the server. -/
inductive SiteEvent where
  | request (request : Request)
  | task (s : Surroundings) (posting : Posting) (fuel : Nat) (task : Task)

section Sites
variable (packs : Nat → OscString → List OscArgument → Bool) (codec : Base64.Codec)
  (verifiers : Verifiers) (schemas : Schemas) (host : ByteOrder) (XXH64 : List Byte → UInt64)

/-- What is sent for a task, and the client after it. The tasks of a client are done one by one. -/
def Site.performs (w : Site) (s : Surroundings) (posting : Posting) (fuel : Nat) (task : Task) :
    Option (List OscMessage × OscHandler) :=
  w.client.perform packs codec verifiers schemas host XXH64 { s with server := w.server } posting
    fuel task

def Site.step (w : Site) : SiteEvent → Option Site
  | .request request =>
    (handle codec verifiers schemas host w.server request).map fun server => { w with server }
  | .task s posting fuel task =>
    (w.performs packs codec verifiers schemas host XXH64 s posting fuel task).map
      fun (_, client) => { w with client }

def Offers (server : Database) (key : UInt64) (data : List Byte) : Prop :=
  (∃ fuel, HttpClient.getAsset codec verifiers schemas host server fuel key = some (some data)) ∨
    ∃ fuel name, HttpClient.getNamedAsset codec verifiers schemas host server fuel name =
      some (some data) ∧ (schemas.getFlatAsset data).key = key

/-- The name is looked up, and the record that the server has for it has the key. -/
def Site.Renews (key : UInt64) (w : Site) : SiteEvent → Prop
  | .task _ _ _ (.findNamedAsset name) => ∃ fuel data,
    HttpClient.getNamedAsset codec verifiers schemas host w.server fuel name.bytes =
      some (some data) ∧ (schemas.getFlatAsset data).key = key
  | _ => False

def Keeps (db : Database) (key : UInt64) (data : List Byte) : Prop :=
  db.get (makeAssetKey host key) = some data

inductive Fetches (server db next : Database) : Task → Prop
  | nothing {task : Task} (same : next = db) : Fetches server db next task
  | missed {task : Task} {fuel : Nat} {now key : UInt64} {data : List Byte}
      (asks : task = .findAsset key ∨ task = .loadAsset key)
      (missing : db.findAsset schemas host fuel key = some none)
      (answer : HttpClient.getAsset codec verifiers schemas host server fuel key =
        some (some data))
      (stored : db.storeAsset schemas host now key data = some next) : Fetches server db next task
  | renewed {fuel : Nat} {now : UInt64} {name : OscString} {data : List Byte}
      (answer : HttpClient.getNamedAsset codec verifiers schemas host server fuel name.bytes =
        some (some data))
      (stored : db.storeAsset schemas host now (schemas.getFlatAsset data).key data = some next) :
      Fetches server db next (.findNamedAsset name)

/-- No record that is kept is deprecated. -/
def CacheCurrent (db : Database) : Prop :=
  ∀ key data, Keeps host db key data → (schemas.getFlatAsset data).deprecatedBy = 0

end Sites

section Answers
variable {codec : Base64.Codec} {verifiers : Verifiers} {schemas : Schemas} {host : ByteOrder}
  {server db next : Database} {fuel : Nat} {key : UInt64} {data : List Byte}

theorem received {found : Option Record}
    (answer : (found.bind (sendRecord codec)).map (HttpClient.receive codec verifiers) =
      some (some data)) : ∃ record, found = some record ∧ record.data = some data := by
  obtain ⟨reply, sent, receives⟩ := Option.map_eq_some_iff.mp answer
  obtain ⟨record, rfl, sends⟩ := Option.bind_eq_some_iff.mp sent
  refine ⟨record, rfl, ?_⟩
  unfold sendRecord at sends
  split at sends
  · cases sends
    cases receives
  · obtain ⟨stored, content, encodes⟩ := Option.bind_eq_some_iff.mp sends
    dsimp only at encodes
    split at encodes
    · cases encodes
      simp only [HttpClient.receive, codec.decode_encode] at receives
      split at receives
      · cases receives
        exact content
      · cases receives
    · cases encodes

theorem offers_current (offers : Offers codec verifiers schemas host server key data) :
    (schemas.getFlatAsset data).deprecatedBy = 0 := by
  have current {fuel : Nat} {k : UInt64} {record : Record}
      (found : server.findAsset schemas host fuel k = some record)
      (content : record.data = some data) : (schemas.getFlatAsset data).deprecatedBy = 0 := by
    obtain ⟨e, -, rfl, current⟩ := findAsset_entry found content
    exact current
  rcases offers with ⟨fuel, answer⟩ | ⟨fuel, name, answer, -⟩
  · obtain ⟨record, found, content⟩ := received answer
    exact current found content
  · obtain ⟨record, found, content⟩ := received answer
    unfold Database.findNamedAsset at found
    dsimp only at found
    split at found
    · exact current found content
    · cases found
      cases content

theorem keeps_storeAsset {now : UInt64}
    (stored : db.storeAsset schemas host now key data = some next) {k : UInt64} {d : List Byte} :
    Keeps host next k d ↔ if k = key then d = data else Keeps host db k d := by
  unfold Keeps
  rw [show makeAssetKey host k = (Item.asset k).key host from rfl, get_storeAsset stored]
  by_cases same : k = key
  · simp [same, eq_comm]
  · simp [same, named]

theorem findAsset_cached (current : CacheCurrent schemas host db) :
    db.findAsset schemas host fuel key = some none ∧ (∀ data, ¬ Keeps host db key data) ∨
    ∃ record data, db.findAsset schemas host fuel key = some (some record) ∧
      Record.data (some record) = some data ∧ Keeps host db key data := by
  cases stored : db.get (makeAssetKey host key) with
  | none =>
    refine .inl ⟨findAsset_missing stored fuel, fun data keeps => ?_⟩
    rw [Keeps, stored] at keeps
    cases keeps
  | some data =>
    exact .inr ⟨_, data, findAsset_current stored (current key data stored) fuel,
      at_data (seek_at stored), stored⟩

end Answers

section Tasks
variable {packs : Nat → OscString → List OscArgument → Bool} {codec : Base64.Codec}
  {verifiers : Verifiers} {schemas : Schemas} {host : ByteOrder} {XXH64 : List Byte → UInt64}
  {o after : OscHandler} {s : Surroundings} {posting : Posting} {fuel : Nat} {key : UInt64}
  {sent : List OscMessage}

theorem downloadWanted_database {wanted : Wanted} {loaded : Loaded}
    (downloads : o.downloadWanted XXH64 s key wanted = some loaded) :
    loaded.handler.assetDatabase = o.assetDatabase := by
  unfold OscHandler.downloadWanted at downloads
  split at downloads
  · obtain ⟨_, -, rfl⟩ := Option.map_eq_some_iff.mp downloads
    rfl
  · cases downloads
    rfl

theorem loadAsset_fetches {loaded : Loaded}
    (loads : o.loadAsset codec verifiers schemas host XXH64 s fuel key = some loaded) :
    Fetches codec verifiers schemas host s.server o.assetDatabase loaded.handler.assetDatabase
      (.loadAsset key) := by
  obtain ⟨⟨assetPath, m⟩, -, loads⟩ := Option.bind_eq_some_iff.mp loads
  dsimp only at loads
  split at loads
  · obtain ⟨⟨wanted, next⟩, finds, downloads⟩ := Option.bind_eq_some_iff.mp loads
    rw [downloadWanted_database downloads]
    obtain ⟨record, found, finds⟩ := Option.bind_eq_some_iff.mp finds
    split at finds
    · rename_i missing
      obtain ⟨answer, answers, finds⟩ := Option.bind_eq_some_iff.mp finds
      cases answer with
      | none =>
        cases finds
        exact .nothing rfl
      | some data =>
        obtain ⟨_, stored, finds⟩ := Option.bind_eq_some_iff.mp finds
        obtain ⟨_, -, same⟩ := Option.map_eq_some_iff.mp finds
        cases same
        refine .missed (.inr rfl) ?_ answers stored
        rw [Option.isNone_iff_eq_none.mp missing] at found
        exact found
    · obtain ⟨_, -, finds⟩ := Option.bind_eq_some_iff.mp finds
      obtain ⟨_, -, same⟩ := Option.map_eq_some_iff.mp finds
      cases same
      exact .nothing rfl
  · cases loads
    exact .nothing rfl

theorem perform_fetches {task : Task}
    (performed : o.perform packs codec verifiers schemas host XXH64 s posting fuel task =
      some (sent, after)) :
    Fetches codec verifiers schemas host s.server o.assetDatabase after.assetDatabase task := by
  cases task with
  | findAsset key =>
    obtain ⟨record, found, performed⟩ := Option.bind_eq_some_iff.mp performed
    split at performed
    · obtain ⟨_, -, performed⟩ := Option.bind_eq_some_iff.mp performed
      obtain ⟨_, -, same⟩ := Option.map_eq_some_iff.mp performed
      cases same
      exact .nothing rfl
    · rename_i missing
      obtain ⟨answer, answers, performed⟩ := Option.bind_eq_some_iff.mp performed
      cases answer with
      | none =>
        cases performed
        exact .nothing rfl
      | some data =>
        obtain ⟨next, stored, performed⟩ := Option.bind_eq_some_iff.mp performed
        obtain ⟨_, -, same⟩ := Option.map_eq_some_iff.mp performed
        cases same
        refine .missed (.inl rfl) ?_ answers stored
        rw [Option.isNone_iff_eq_none.mp (not_not.mp missing)] at found
        exact found
  | findNamedAsset name =>
    obtain ⟨answer, answers, performed⟩ := Option.bind_eq_some_iff.mp performed
    cases answer with
    | none =>
      cases performed
      exact .nothing rfl
    | some data =>
      obtain ⟨next, stored, performed⟩ := Option.bind_eq_some_iff.mp performed
      obtain ⟨_, -, same⟩ := Option.map_eq_some_iff.mp performed
      cases same
      exact .renewed answers stored
  | loadAsset key =>
    obtain ⟨loaded, loads, same⟩ := Option.map_eq_some_iff.mp performed
    cases same
    exact loadAsset_fetches loads
  | addAssetFile c | addAssetString c =>
    obtain ⟨_, -, same⟩ := Option.map_eq_some_iff.mp performed
    cases same
    exact .nothing rfl
  | addList name | findList name =>
    obtain ⟨_, -, same⟩ := Option.map_eq_some_iff.mp performed
    cases same
    exact .nothing rfl
  | nextList key token =>
    cases performed
    exact .nothing rfl

theorem findAsset_kept {data : List Byte}
    (current : (schemas.getFlatAsset data).deprecatedBy = 0)
    (keeps : Keeps host o.assetDatabase key data) :
    o.perform packs codec verifiers schemas host XXH64 s posting fuel (.findAsset key) =
      (assetFound packs (.ofBytes (keyToString key)) (schemas.getFlatAsset data)).map
        fun sent => (sent, o) := by
  have found := findAsset_current keeps current fuel
  have content := at_data (seek_at keeps)
  simp [OscHandler.perform, OscHandler.findAsset, found, content, Record.empty]

theorem findAsset_performed (cached : CacheCurrent schemas host o.assetDatabase)
    (performed : o.perform packs codec verifiers schemas host XXH64 s posting fuel
      (.findAsset key) = some (sent, after)) :
    (∃ data, assetFound packs (.ofBytes (keyToString key)) (schemas.getFlatAsset data) =
        some sent ∧ Keeps host after.assetDatabase key data ∧
      (after = o ∨ Offers codec verifiers schemas host s.server key data)) ∨
    sent = assetError packs (.ofBytes (keyToString key))
        "Failed to find asset associated with key." ∧
      (∀ data, ¬ Keeps host o.assetDatabase key data) ∧
      HttpClient.getAsset codec verifiers schemas host s.server fuel key = some none := by
  obtain ⟨record, found, performed⟩ := Option.bind_eq_some_iff.mp performed
  rcases @findAsset_cached _ _ _ fuel key cached with
    ⟨missing, nothing⟩ | ⟨kept, data, finds, content, keeps⟩
  · cases missing.symm.trans found
    rw [if_neg (by simp [Record.empty])] at performed
    obtain ⟨answer, answers, performed⟩ := Option.bind_eq_some_iff.mp performed
    cases answer with
    | none =>
      cases performed
      exact .inr ⟨rfl, nothing, answers⟩
    | some data =>
      obtain ⟨next, stored, performed⟩ := Option.bind_eq_some_iff.mp performed
      obtain ⟨_, shows, same⟩ := Option.map_eq_some_iff.mp performed
      cases same
      have keeps : Keeps host next key data := by
        rw [keeps_storeAsset stored, if_pos rfl]
      exact .inl ⟨data, shows, keeps, .inr (.inl ⟨fuel, answers⟩)⟩
  · cases finds.symm.trans found
    rw [if_pos (by simp [Record.empty]), content, Option.bind_some] at performed
    obtain ⟨_, shows, same⟩ := Option.map_eq_some_iff.mp performed
    cases same
    exact .inl ⟨data, shows, keeps, .inl rfl⟩

theorem fetches_keeps {server db next : Database} {task : Task}
    (fetches : Fetches codec verifiers schemas host server db next task) {data : List Byte}
    (keeps : Keeps host next key data) :
    Keeps host db key data ∨ Offers codec verifiers schemas host server key data := by
  cases fetches with
  | nothing same => exact .inl (same ▸ keeps)
  | @missed _ fuel now k d asks missing answer stored =>
    rw [keeps_storeAsset stored] at keeps
    split at keeps
    · rename_i same
      rw [same, keeps]
      exact .inr (.inl ⟨fuel, answer⟩)
    · exact .inl keeps
  | @renewed fuel now name d answer stored =>
    rw [keeps_storeAsset stored] at keeps
    split at keeps
    · rename_i same
      rw [keeps, same]
      exact .inr (.inr ⟨fuel, name.bytes, answer, rfl⟩)
    · exact .inl keeps

end Tasks

section Runs
variable {packs : Nat → OscString → List OscArgument → Bool} {codec : Base64.Codec}
  {verifiers : Verifiers} {schemas : Schemas} {host : ByteOrder} {XXH64 : List Byte → UInt64}
  {start w next : Site} {es : List SiteEvent}

theorem step_keeps {e : SiteEvent}
    (step : w.step packs codec verifiers schemas host XXH64 e = some next) {key : UInt64}
    {data : List Byte} (keeps : Keeps host next.client.assetDatabase key data) :
    Keeps host w.client.assetDatabase key data ∨
      Offers codec verifiers schemas host w.server key data := by
  cases e with
  | request request =>
    obtain ⟨server, -, rfl⟩ := Option.map_eq_some_iff.mp step
    exact .inl keeps
  | task s posting fuel task =>
    obtain ⟨⟨sent, after⟩, performed, rfl⟩ := Option.map_eq_some_iff.mp step
    exact fetches_keeps (perform_fetches performed) keeps

theorem cacheCurrent_step {e : SiteEvent}
    (current : CacheCurrent schemas host w.client.assetDatabase)
    (step : w.step packs codec verifiers schemas host XXH64 e = some next) :
    CacheCurrent schemas host next.client.assetDatabase := by
  intro key data keeps
  rcases step_keeps step keeps with kept | offers
  · exact current key data kept
  · exact offers_current offers

theorem cacheCurrent_empty {o : OscHandler} (empty : o.assetDatabase = Store.empty) :
    CacheCurrent schemas host o.assetDatabase := by
  intro key data keeps
  rw [Keeps, empty] at keeps
  cases keeps

theorem cacheCurrent_run (current : CacheCurrent schemas host start.client.assetDatabase)
    (ran : run (Site.step packs codec verifiers schemas host XXH64) start es = some w) :
    CacheCurrent schemas host w.client.assetDatabase :=
  run_keeps (fun w : Site => CacheCurrent schemas host w.client.assetDatabase)
    (fun _ _ _ current step => cacheCurrent_step current step) current ran

variable (packs codec verifiers schemas host XXH64) in
def Offered (start : Site) (es : List SiteEvent) (key : UInt64) (data : List Byte) : Prop :=
  ∃ front back mid, es = front ++ back ∧
    run (Site.step packs codec verifiers schemas host XXH64) start front = some mid ∧
      Offers codec verifiers schemas host mid.server key data

theorem offered_now {key : UInt64} {data : List Byte}
    (ran : run (Site.step packs codec verifiers schemas host XXH64) start es = some w)
    (offers : Offers codec verifiers schemas host w.server key data) :
    Offered packs codec verifiers schemas host XXH64 start es key data :=
  ⟨es, [], w, (List.append_nil es).symm, ran, offers⟩

theorem offered_later {key : UInt64} {data : List Byte} {e : SiteEvent}
    (offered : Offered packs codec verifiers schemas host XXH64 start es key data) :
    Offered packs codec verifiers schemas host XXH64 start (es ++ [e]) key data := by
  obtain ⟨front, back, mid, rfl, ran, offers⟩ := offered
  exact ⟨front, back ++ [e], mid, List.append_assoc front back [e], ran, offers⟩

theorem kept_offered (empty : start.client.assetDatabase = Store.empty)
    (ran : run (Site.step packs codec verifiers schemas host XXH64) start es = some w)
    {key : UInt64} {data : List Byte} (keeps : Keeps host w.client.assetDatabase key data) :
    Offered packs codec verifiers schemas host XXH64 start es key data := by
  have all := run_keeps_history (fun past (w : Site) =>
    run (Site.step packs codec verifiers schemas host XXH64) start past = some w ∧
      ∀ data, Keeps host w.client.assetDatabase key data →
        Offered packs codec verifiers schemas host XXH64 start past key data) ?_ ?_ ran
  · exact all.2 data keeps
  · rintro past w e next ⟨before, offered⟩ step
    refine ⟨run_snoc.mpr ⟨w, before, step⟩, fun data keeps => offered_later ?_⟩
    rcases step_keeps step keeps with kept | offers
    · exact offered data kept
    · exact offered_now before offers
  · refine ⟨rfl, fun data keeps => ?_⟩
    rw [Keeps, empty] at keeps
    cases keeps

theorem keeps_step {e : SiteEvent} {key : UInt64} {data : List Byte}
    (current : CacheCurrent schemas host w.client.assetDatabase)
    (keeps : Keeps host w.client.assetDatabase key data)
    (spares : ¬ w.Renews codec verifiers schemas host key e)
    (step : w.step packs codec verifiers schemas host XXH64 e = some next) :
    Keeps host next.client.assetDatabase key data := by
  cases e with
  | request request =>
    obtain ⟨server, -, rfl⟩ := Option.map_eq_some_iff.mp step
    exact keeps
  | task s posting fuel task =>
    obtain ⟨⟨sent, after⟩, performed, rfl⟩ := Option.map_eq_some_iff.mp step
    cases perform_fetches performed with
    | nothing same => exact same ▸ keeps
    | @missed _ fuel now k d asks missing answer stored =>
      rw [keeps_storeAsset stored, if_neg]
      · exact keeps
      · rintro rfl
        rcases @findAsset_cached _ _ _ fuel key current with ⟨-, nothing⟩ | ⟨_, _, finds, -, -⟩
        · exact nothing data keeps
        · cases missing.symm.trans finds
    | @renewed fuel' now name d answer stored =>
      rw [keeps_storeAsset stored, if_neg]
      · exact keeps
      · intro same
        exact spares ⟨fuel', d, answer, same.symm⟩

end Runs

section Overwritten

def anyBuffer : Verifiers where
  verifyFlatAssetBuffer := fun _ => true
  verifyFlatAssetDataBuffer := fun _ => true
  verifyFlatListBuffer := fun _ => true

def postsNothing : Posting := ⟨fun _ => none, fun _ => none, fun _ => none⟩

def newSite : Site := ⟨Store.empty, pageHandler bareCache⟩

def siteRun (w : Site) (es : List SiteEvent) : Option Site :=
  run (Site.step (fun _ _ _ => true) Base64.codec anyBuffer flatbuffers .little byteHash) w es

def siteShows (w : Site) (key : UInt64) : Option (List OscMessage × OscHandler) :=
  w.performs (fun _ _ _ => true) Base64.codec anyBuffer flatbuffers .little byteHash
    pageSurroundings postsNothing 0 (.findAsset key)

def arrival : List SiteEvent :=
  [.request (.postAsset 3 (keyToString 7) (Base64.codec.encode assetBuffer))]

def replacement : List SiteEvent :=
  [.request (.postAsset 4 (keyToString 7) (Base64.codec.encode pageBuffer))]

def stocked : Site := (siteRun newSite arrival).get (by decide +kernel)

def shown : List OscMessage × OscHandler := (siteShows stocked 7).get (by decide +kernel)

def replaced : Site :=
  (siteRun { stocked with client := shown.2 } replacement).get (by decide +kernel)

theorem stocked_run : siteRun newSite arrival = some stocked := (Option.some_get _).symm

theorem stocked_shows : siteShows stocked 7 = some (shown.1, shown.2) :=
  (Option.some_get _).symm.trans (congrArg some (@Prod.mk.eta _ _ shown).symm)

theorem replaced_run : siteRun { stocked with client := shown.2 } replacement = some replaced :=
  (Option.some_get _).symm

end Overwritten

section Shown
variable {packs : Nat → OscString → List OscArgument → Bool} {codec : Base64.Codec}
  {verifiers : Verifiers} {schemas : Schemas} {host : ByteOrder} {XXH64 : List Byte → UInt64}
  {start w v : Site} {es later : List SiteEvent} {s : Surroundings} {posting : Posting}
  {fuel : Nat} {key : UInt64} {sent : List OscMessage} {after : OscHandler}

/-- What is shown for an id is an asset that the server had for it at some moment of the run, and
    that was not deprecated then. The error is shown if the server has nothing for it now. -/
theorem shown_was_offered (empty : start.client.assetDatabase = Store.empty)
    (ran : run (Site.step packs codec verifiers schemas host XXH64) start es = some w)
    (performed : w.performs packs codec verifiers schemas host XXH64 s posting fuel
      (.findAsset key) = some (sent, after)) :
    (∃ data, assetFound packs (.ofBytes (keyToString key)) (schemas.getFlatAsset data) =
        some sent ∧ (schemas.getFlatAsset data).deprecatedBy = 0 ∧
      Offered packs codec verifiers schemas host XXH64 start es key data) ∨
    sent = assetError packs (.ofBytes (keyToString key))
        "Failed to find asset associated with key." ∧
      HttpClient.getAsset codec verifiers schemas host w.server fuel key = some none := by
  have current := cacheCurrent_run (cacheCurrent_empty empty) ran
  rcases findAsset_performed current performed with ⟨data, shows, keeps, from_where⟩ | missed
  · refine .inl ⟨data, shows, ?_⟩
    rcases from_where with rfl | offers
    · exact ⟨current key data keeps, kept_offered empty ran keeps⟩
    · exact ⟨offers_current offers, offered_now ran offers⟩
  · exact .inr ⟨missed.1, missed.2.2⟩

theorem shown_was_offered_stocked :
    (∃ data, assetFound (fun _ _ _ => true) (.ofBytes (keyToString 7))
        (flatbuffers.getFlatAsset data) = some shown.1 ∧
      (flatbuffers.getFlatAsset data).deprecatedBy = 0 ∧
      Offered (fun _ _ _ => true) Base64.codec anyBuffer flatbuffers .little byteHash newSite
        arrival 7 data) ∨
    shown.1 = assetError (fun _ _ _ => true) (.ofBytes (keyToString 7))
        "Failed to find asset associated with key." ∧
      HttpClient.getAsset Base64.codec anyBuffer flatbuffers .little stocked.server 0 7 =
        some none :=
  @shown_was_offered _ _ _ _ _ _ newSite stocked arrival pageSurroundings postsNothing 0 7
    shown.1 shown.2 rfl stocked_run stocked_shows

/-- Once an asset has been shown for an id it is shown again in just the same way, whatever the
    server stores or answers, until a name is looked up that the server has for this id. -/
theorem shown_again (empty : start.client.assetDatabase = Store.empty)
    (ran : run (Site.step packs codec verifiers schemas host XXH64) start es = some w)
    (performed : w.performs packs codec verifiers schemas host XXH64 s posting fuel
      (.findAsset key) = some (sent, after))
    (found : sent ≠ assetError packs (.ofBytes (keyToString key))
      "Failed to find asset associated with key.")
    (goes_on : run (Site.step packs codec verifiers schemas host XXH64) { w with client := after }
      later = some v)
    (spares : Along (Site.step packs codec verifiers schemas host XXH64)
      (fun w e => ¬ w.Renews codec verifiers schemas host key e) { w with client := after } later) :
    ∀ s posting fuel, v.client.perform packs codec verifiers schemas host XXH64 s posting fuel
      (.findAsset key) = some (sent, v.client) := by
  have current := cacheCurrent_run (cacheCurrent_empty empty) ran
  have step : w.step packs codec verifiers schemas host XXH64 (.task s posting fuel
      (.findAsset key)) = some { w with client := after } :=
    Option.map_eq_some_iff.mpr ⟨_, performed, rfl⟩
  rcases findAsset_performed current performed with ⟨data, shows, keeps, -⟩ | missed
  · obtain ⟨now_current, kept⟩ := run_invariant (fun w : Site =>
      CacheCurrent schemas host w.client.assetDatabase ∧
        Keeps host w.client.assetDatabase key data)
      (fun w e next before spares step => ⟨cacheCurrent_step before.1 step,
        keeps_step before.1 before.2 spares step⟩)
      ⟨cacheCurrent_step current step, keeps⟩ spares goes_on
    intro s posting fuel
    rw [findAsset_kept (now_current key data kept) kept, shows]
    rfl
  · exact absurd missed.1 found

/-- The server has the other record by now. -/
theorem shown_again_replaced :
    HttpClient.getAsset Base64.codec anyBuffer flatbuffers .little replaced.server 0 7 =
      some (some pageBuffer) ∧
    ∀ s posting fuel, replaced.client.perform (fun _ _ _ => true) Base64.codec anyBuffer
      flatbuffers .little byteHash s posting fuel (.findAsset 7) =
        some (shown.1, replaced.client) := by
  refine ⟨by decide +kernel, ?_⟩
  apply @shown_again _ _ _ _ _ _ newSite stocked replaced arrival replacement pageSurroundings
    postsNothing 0 7 shown.1 shown.2 rfl stocked_run stocked_shows
  · intro same
    have sizes := congrArg (List.map fun m : OscMessage => m.arguments.length) same
    revert sizes
    decide +kernel
  · exact replaced_run
  · exact ⟨id, fun _ _ => trivial⟩

end Shown

end Confab
