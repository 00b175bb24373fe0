import SCLOrkTools.Confab.CachePaths
import SCLOrkTools.Confab.Deprecation
import SCLOrkTools.Confab.DownloadIntegrity
import SCLOrkTools.Confab.HttpEndpoint
import SCLOrkTools.Confab.OscHandler

/- How a client gets hold of the file of an asset, and what it tells SuperCollider of it. The
   record comes from the client's own database or from the server, the file from the cache or from
   a download. The message is taken to fit into its buffer. -/
namespace Confab
open OrderedStores ByteStrings GuardedRun Links

structure OscHandler where
  cacheManager : CacheManager
  assetDatabase : Database

structure Surroundings where
  server : Database
  getAssetData : UInt64 → UInt64 → Option FlatAssetData
  now : Int
  timeStamp : UInt64
  writeTime : Int

structure Wanted where
  downloadKey : UInt64
  size : UInt64
  chunks : UInt64
  fileExtension : List Byte

/-- None if the extension is absent, since it is read anyway. -/
def Wanted.of (key : UInt64) (flatAsset : FlatAsset) : Option Wanted :=
  flatAsset.fileExtension.map fun fileExtension =>
    ⟨key, flatAsset.size, flatAsset.chunks, fileExtension⟩

structure Loaded where
  requestedKey : UInt64
  returnedKey : UInt64
  assetPath : Path
  handler : OscHandler

section Handler
variable (codec : Base64.Codec) (verifiers : Verifiers) (schemas : Schemas) (host : ByteOrder)
  (XXH64 : List Byte → UInt64)

/-- The record that the callback gets. None is the empty one, and a ClientRecord never is. The
    callback gets the key that was asked for beside it, whatever the key of the record is. -/
def HttpClient.receive : Reply → Option (List Byte)
  | .ok body =>
    let decoded := codec.decode body
    if verifiers.verifyFlatAssetBuffer decoded then some decoded else none
  | .notFound => none
  | .internalServerError => none

def HttpClient.getAsset (server : Database) (fuel : Nat) (key : UInt64) :
    Option (Option (List Byte)) :=
  ((Confab.getAsset schemas host server fuel (keyToString key)).bind (sendRecord codec)).map
    (HttpClient.receive codec verifiers)

def OscHandler.findWanted (o : OscHandler) (s : Surroundings) (fuel : Nat) (key : UInt64) :
    Option (Wanted × Database) :=
  (o.assetDatabase.findAsset schemas host fuel key).bind fun asset =>
    if asset.empty then
      (HttpClient.getAsset codec verifiers schemas host s.server fuel key).bind fun
        | none => some (⟨0, 0, 0, []⟩, o.assetDatabase)
        | some data =>
          (o.assetDatabase.storeAsset schemas host s.timeStamp key data).bind fun next =>
            (Wanted.of key (schemas.getFlatAsset data)).map fun wanted => (wanted, next)
    else
      asset.data.bind fun data =>
        (Wanted.of key (schemas.getFlatAsset data)).map fun wanted => (wanted, o.assetDatabase)

def OscHandler.downloadWanted (o : OscHandler) (s : Surroundings) (key : UInt64) (wanted : Wanted) :
    Option Loaded :=
  if wanted.downloadKey ≠ 0 then
    (o.cacheManager.download XXH64 s.getAssetData wanted.downloadKey wanted.size.toNat
      wanted.chunks wanted.fileExtension s.writeTime).map fun (path, m) =>
        ⟨key, wanted.downloadKey, path.getD [], { o with cacheManager := m }⟩
  else some ⟨key, wanted.downloadKey, [], o⟩

/-- None if the cache or the loop of a lookup throws or does not end, or if a record is read that
    is not as it is taken to be. -/
def OscHandler.loadAsset (o : OscHandler) (s : Surroundings) (fuel : Nat) (key : UInt64) :
    Option Loaded :=
  (o.cacheManager.checkCache key s.now).bind fun (assetPath, m) =>
    let o := { o with cacheManager := m }
    if assetPath = [] then
      (o.findWanted codec verifiers schemas host s fuel key).bind fun (wanted, next) =>
        OscHandler.downloadWanted XXH64 { o with assetDatabase := next } s key wanted
    else some ⟨key, 0, assetPath, o⟩

/-- This is sent, with whatever fuel from some on. -/
def OscHandler.Sends (o : OscHandler) (s : Surroundings) (key : UInt64) (loaded : Loaded) : Prop :=
  ∃ enough, ∀ fuel, enough ≤ fuel →
    o.loadAsset codec verifiers schemas host XXH64 s fuel key = some loaded

def Database.Current (db : Database) (key : UInt64) : Prop :=
  ∃ data, db.get (makeAssetKey host key) = some data ∧
    (schemas.getFlatAsset data).deprecatedBy = 0

/-- There is a key exactly if there is a path, and then the file has the key for its hash, and the
    server's chain for the key that was asked for ends in it. -/
structure Loaded.Truthful (server : Database) (loaded : Loaded) : Prop where
  both : loaded.returnedKey ≠ 0 ↔ loaded.assetPath ≠ []
  hashes : loaded.returnedKey ≠ 0 → ∃ content writeTime,
    loaded.handler.cacheManager.files loaded.assetPath = some (content, writeTime) ∧
      XXH64 content = loaded.returnedKey
  latest : loaded.returnedKey ≠ 0 →
    Reaches (server.link schemas host) loaded.requestedKey loaded.returnedKey ∧
      server.Current schemas host loaded.returnedKey

/-- The record has an extension. The server has the asset under this very key, with the file that
    the record describes. -/
structure Describes (s : Surroundings) (key : UInt64) (data : List Byte) : Prop where
  extension : (schemas.getFlatAsset data).fileExtension ≠ none
  delivers : key ≠ 0 → Delivers XXH64 s.getAssetData key (schemas.getFlatAsset data).size.toNat
    (schemas.getFlatAsset data).chunks
  current : key ≠ 0 → s.server.Current schemas host key

/-- The cache has no entry for the key, and the record that is found describes the file that the
    server has, if any record is found. -/
inductive OscHandler.Serves (o : OscHandler) (s : Surroundings) (key : UInt64) : Prop
  | held {fuel : Nat} {record : Record} {data : List Byte}
      (miss : o.cacheManager.extensionMap.lookup key = none)
      (found : o.assetDatabase.findAsset schemas host fuel key = some record)
      (content : record.data = some data) (describes : Describes schemas host XXH64 s key data)
  | fetched {fuel : Nat} {data : List Byte}
      (miss : o.cacheManager.extensionMap.lookup key = none)
      (missing : o.assetDatabase.findAsset schemas host fuel key = some none)
      (answer : HttpClient.getAsset codec verifiers schemas host s.server fuel key =
        some (some data))
      (stored : o.assetDatabase.storeAsset schemas host s.timeStamp key data ≠ none)
      (describes : Describes schemas host XXH64 s key data)
  | unknown {fuel : Nat} (miss : o.cacheManager.extensionMap.lookup key = none)
      (missing : o.assetDatabase.findAsset schemas host fuel key = some none)
      (answer : HttpClient.getAsset codec verifiers schemas host s.server fuel key = some none)

end Handler
section Cache
variable {XXH64 : List Byte → UInt64} {m : CacheManager}
  {get : UInt64 → UInt64 → Option FlatAssetData} {key chunks : UInt64} {fileSize : Nat}
  {fileExtension : List Byte}

theorem filePath_ne_nil : m.filePath key fileExtension ≠ [] := by
  rw [filePath_eq]
  exact List.append_ne_nil_of_right_ne_nil _ (keyToString_ne_nil key _)

theorem hitPath_ne_nil : m.hitPath key fileExtension ≠ [] := by
  rw [hitPath_eq]
  exact List.append_ne_nil_of_right_ne_nil _ (keyToString_ne_nil key _)

theorem download_delivers (nonzero : key ≠ 0) (delivers : Delivers XXH64 get key fileSize chunks)
    (fileExtension : List Byte) (writeTime : Int) :
    ∃ after content, m.download XXH64 get key fileSize chunks fileExtension writeTime =
        some (some (m.filePath key fileExtension), after) ∧
      after.files (m.filePath key fileExtension) = some (content, writeTime) ∧
      XXH64 content = key := by
  obtain ⟨d, turns, ok, digest, size⟩ := delivers
  obtain ⟨path, after, downloaded, written⟩ := download_succeeds.mpr
    ⟨d, turns, ok, digest, size, rfl⟩
  obtain ⟨-, rfl⟩ := download_returned downloaded
  refine ⟨after, d.outFile, downloaded, written, ?_⟩
  obtain ⟨records, rfl⟩ := @downloadTurns_having XXH64 (get key) _ _ [] d turns ok
  have some_record : records ≠ [] := by
    rintro rfl
    exact nonzero digest
  rw [Download.having, if_neg some_record] at digest
  exact digest.symm

end Cache
section Replies
variable {codec : Base64.Codec} {verifiers : Verifiers} {schemas : Schemas} {host : ByteOrder}
  {XXH64 : List Byte → UInt64} {o : OscHandler} {s : Surroundings} {key : UInt64}

theorem nothing_truthful (server : Database) :
    Loaded.Truthful schemas host XXH64 server ⟨key, 0, [], o⟩ :=
  ⟨by simp, fun nonzero => absurd rfl nonzero, fun nonzero => absurd rfl nonzero⟩

theorem downloadWanted_truthful_iff {size chunks : UInt64} {fileExtension : List Byte} :
    (∃ loaded, o.downloadWanted XXH64 s key ⟨key, size, chunks, fileExtension⟩ = some loaded ∧
      loaded.Truthful schemas host XXH64 s.server) ↔
      (key ≠ 0 → Delivers XXH64 s.getAssetData key size.toNat chunks ∧
        s.server.Current schemas host key) := by
  unfold OscHandler.downloadWanted
  by_cases nonzero : key ≠ 0
  · rw [if_pos nonzero]
    constructor
    · rintro ⟨loaded, sent, truthful⟩ -
      obtain ⟨⟨path, after⟩, downloaded, rfl⟩ := Option.map_eq_some_iff.mp sent
      refine ⟨?_, (truthful.latest nonzero).2⟩
      cases path with
      | none => exact absurd rfl (truthful.both.mp nonzero)
      | some path => exact (download_returned downloaded).1
    · intro available
      obtain ⟨delivers, current⟩ := available nonzero
      obtain ⟨after, content, downloaded, written, hash⟩ :=
        @download_delivers _ o.cacheManager _ _ _ _ nonzero delivers fileExtension s.writeTime
      refine ⟨_, Option.map_eq_some_iff.mpr ⟨_, downloaded, rfl⟩, ?_, ?_, ?_⟩
      · exact iff_of_true nonzero filePath_ne_nil
      · exact fun _ => ⟨content, _, written, hash⟩
      · exact fun _ => ⟨.here key, current⟩
  · rw [if_neg nonzero]
    have zero := not_not.mp nonzero
    refine iff_of_true ⟨_, rfl, ?_⟩ fun other => absurd other nonzero
    rw [zero]
    exact nothing_truthful s.server

theorem describes_iff {data : List Byte} :
    (∃ wanted loaded, Wanted.of key (schemas.getFlatAsset data) = some wanted ∧
      o.downloadWanted XXH64 s key wanted = some loaded ∧
        loaded.Truthful schemas host XXH64 s.server) ↔ Describes schemas host XXH64 s key data := by
  constructor
  · rintro ⟨wanted, loaded, wants, sent, truthful⟩
    obtain ⟨fileExtension, present, rfl⟩ := Option.map_eq_some_iff.mp wants
    have available := downloadWanted_truthful_iff.mp ⟨loaded, sent, truthful⟩
    refine ⟨?_, fun nonzero => (available nonzero).1, fun nonzero => (available nonzero).2⟩
    rw [present]
    exact Option.some_ne_none _
  · rintro ⟨extension, delivers, current⟩
    obtain ⟨fileExtension, present⟩ := Option.ne_none_iff_exists'.mp extension
    obtain ⟨loaded, sent, truthful⟩ :=
      (@downloadWanted_truthful_iff schemas host XXH64 o s key _ _ fileExtension).mpr
        fun nonzero => ⟨delivers nonzero, current nonzero⟩
    exact ⟨_, loaded, Option.map_eq_some_iff.mpr ⟨fileExtension, present, rfl⟩, sent, truthful⟩

theorem getAsset_more {server : Database} {fuel more : Nat} {answer : Option (List Byte)}
    (answers : HttpClient.getAsset codec verifiers schemas host server fuel key = some answer)
    (enough : fuel ≤ more) :
    HttpClient.getAsset codec verifiers schemas host server more key = some answer := by
  obtain ⟨reply, sent, rfl⟩ := Option.map_eq_some_iff.mp answers
  obtain ⟨record, found, sends⟩ := Option.bind_eq_some_iff.mp sent
  refine Option.map_eq_some_iff.mpr ⟨reply, Option.bind_eq_some_iff.mpr ⟨record, ?_, sends⟩, rfl⟩
  exact findAsset_more found enough

theorem findWanted_more {fuel more : Nat} {found : Wanted × Database}
    (finds : o.findWanted codec verifiers schemas host s fuel key = some found)
    (enough : fuel ≤ more) :
    o.findWanted codec verifiers schemas host s more key = some found := by
  obtain ⟨record, first, rest⟩ := Option.bind_eq_some_iff.mp finds
  refine Option.bind_eq_some_iff.mpr ⟨record, findAsset_more first enough, ?_⟩
  split
  · rename_i missing
    rw [if_pos missing] at rest
    obtain ⟨answer, answers, rest⟩ := Option.bind_eq_some_iff.mp rest
    exact Option.bind_eq_some_iff.mpr ⟨answer, getAsset_more answers enough, rest⟩
  · rename_i present
    rwa [if_neg present] at rest

/-- The variables that are found lead to a reply that tells the truth. -/
theorem found_truthful_iff (miss : o.cacheManager.extensionMap.lookup key = none) :
    (∃ fuel wanted next,
      o.findWanted codec verifiers schemas host s fuel key = some (wanted, next) ∧
      ∃ loaded, OscHandler.downloadWanted XXH64 { o with assetDatabase := next } s key wanted =
          some loaded ∧ loaded.Truthful schemas host XXH64 s.server) ↔
      o.Serves codec verifiers schemas host XXH64 s key := by
  constructor
  · rintro ⟨fuel, wanted, next, finds, loaded, sent, truthful⟩
    obtain ⟨record, found, rest⟩ := Option.bind_eq_some_iff.mp finds
    cases record with
    | some iterator =>
      obtain ⟨data, content, rest⟩ := Option.bind_eq_some_iff.mp rest
      obtain ⟨wanted, wants, same⟩ := Option.map_eq_some_iff.mp rest
      cases same
      exact .held miss found content (describes_iff.mp ⟨wanted, loaded, wants, sent, truthful⟩)
    | none =>
      obtain ⟨answer, answers, rest⟩ := Option.bind_eq_some_iff.mp rest
      cases answer with
      | none => exact .unknown miss found answers
      | some data =>
        obtain ⟨_, stored, rest⟩ := Option.bind_eq_some_iff.mp rest
        obtain ⟨wanted, wants, same⟩ := Option.map_eq_some_iff.mp rest
        cases same
        refine .fetched miss found answers (Option.ne_none_iff_exists'.mpr ⟨_, stored⟩) ?_
        exact describes_iff.mp ⟨wanted, loaded, wants, sent, truthful⟩
  · intro serves
    cases serves with
    | @held fuel record data miss found content describes =>
      obtain ⟨wanted, loaded, wants, sent, truthful⟩ := (describes_iff (o := o)).mpr describes
      refine ⟨fuel, wanted, o.assetDatabase, ?_, loaded, sent, truthful⟩
      cases record with
      | none => cases content
      | some iterator =>
        simp [OscHandler.findWanted, Record.empty, found, content, wants]
    | @fetched fuel data miss missing answer stored describes =>
      obtain ⟨next, stored⟩ := Option.ne_none_iff_exists'.mp stored
      obtain ⟨wanted, loaded, wants, sent, truthful⟩ :=
        (describes_iff (o := { o with assetDatabase := next })).mpr describes
      refine ⟨fuel, wanted, next, ?_, loaded, sent, truthful⟩
      simp [OscHandler.findWanted, Record.empty, missing, answer, stored, wants]
    | @unknown fuel miss missing answer =>
      refine ⟨fuel, ⟨0, 0, 0, []⟩, o.assetDatabase, ?_, _, rfl, nothing_truthful s.server⟩
      simp [OscHandler.findWanted, Record.empty, missing, answer]

theorem loadAsset_hit {fuel : Nat} {fileExtension : List Byte} {loaded : Loaded}
    (hit : o.cacheManager.extensionMap.lookup key = some fileExtension)
    (loads : o.loadAsset codec verifiers schemas host XXH64 s fuel key = some loaded) :
    loaded.returnedKey = 0 ∧ loaded.assetPath = o.cacheManager.hitPath key fileExtension := by
  obtain ⟨⟨assetPath, m⟩, checked, rest⟩ := Option.bind_eq_some_iff.mp loads
  simp only [CacheManager.checkCache, hit] at checked
  obtain ⟨file, -, same⟩ := Option.map_eq_some_iff.mp checked
  cases same
  simp only [if_neg hitPath_ne_nil, Option.some.injEq] at rest
  rw [← rest]
  exact ⟨rfl, rfl⟩

theorem loadAsset_miss (miss : o.cacheManager.extensionMap.lookup key = none) (fuel : Nat) :
    o.loadAsset codec verifiers schemas host XXH64 s fuel key =
      (o.findWanted codec verifiers schemas host s fuel key).bind fun (wanted, next) =>
        OscHandler.downloadWanted XXH64 { o with assetDatabase := next } s key wanted := by
  unfold OscHandler.loadAsset CacheManager.checkCache
  rw [miss]
  rfl

theorem sends_iff {loaded : Loaded} :
    o.Sends codec verifiers schemas host XXH64 s key loaded ↔
      ∃ fuel, o.loadAsset codec verifiers schemas host XXH64 s fuel key = some loaded := by
  constructor
  · rintro ⟨fuel, loads⟩
    exact ⟨fuel, loads fuel (le_refl fuel)⟩
  · rintro ⟨fuel, loads⟩
    obtain ⟨⟨assetPath, m⟩, checked, rest⟩ := Option.bind_eq_some_iff.mp loads
    refine ⟨fuel, fun more enough => Option.bind_eq_some_iff.mpr ⟨_, checked, ?_⟩⟩
    dsimp only at rest ⊢
    split
    · rename_i miss
      rw [if_pos miss] at rest
      obtain ⟨found, finds, sent⟩ := Option.bind_eq_some_iff.mp rest
      exact Option.bind_eq_some_iff.mpr ⟨found, findWanted_more finds enough, sent⟩
    · rename_i hit
      rwa [if_neg hit] at rest

end Replies

/-- Whatever the cache and the databases hold and the server answers. -/
theorem loaded_truthfully_iff (codec : Base64.Codec) (verifiers : Verifiers) (schemas : Schemas)
    (host : ByteOrder) (XXH64 : List Byte → UInt64) (o : OscHandler) (s : Surroundings)
    (key : UInt64) :
    (∃ loaded, o.Sends codec verifiers schemas host XXH64 s key loaded ∧
      loaded.Truthful schemas host XXH64 s.server) ↔
      o.Serves codec verifiers schemas host XXH64 s key := by
  constructor
  · rintro ⟨loaded, sends, truthful⟩
    obtain ⟨fuel, loads⟩ := sends_iff.mp sends
    cases looked : o.cacheManager.extensionMap.lookup key with
    | none =>
      rw [loadAsset_miss looked] at loads
      obtain ⟨⟨wanted, next⟩, finds, sent⟩ := Option.bind_eq_some_iff.mp loads
      exact (found_truthful_iff looked).mp ⟨fuel, wanted, next, finds, loaded, sent, truthful⟩
    | some fileExtension =>
      obtain ⟨zero, path⟩ := loadAsset_hit looked loads
      refine absurd zero (truthful.both.mpr ?_)
      rw [path]
      exact hitPath_ne_nil
  · intro serves
    have miss : o.cacheManager.extensionMap.lookup key = none := by
      cases serves with
      | held miss | fetched miss | unknown miss => exact miss
    obtain ⟨fuel, wanted, next, finds, loaded, sent, truthful⟩ :=
      (found_truthful_iff miss).mpr serves
    refine ⟨loaded, sends_iff.mpr ⟨fuel, ?_⟩, truthful⟩
    rw [loadAsset_miss miss]
    exact Option.bind_eq_some_iff.mpr ⟨_, finds, sent⟩

def pageBuffer : List Byte :=
  [28, 0, 0, 0, 24, 0, 40, 0, 36, 0, 28, 0, 0, 0, 16, 0, 0, 0, 0, 0, 0, 0, 20, 0, 4, 0, 12, 0, 24,
    0, 0, 0, 1, 0, 0, 0, 0, 0, 0, 0, 28, 0, 0, 0, 36, 0, 0, 0, 1, 0, 0, 0, 0, 0, 0, 0, 5, 0, 0, 0,
    0, 0, 0, 0, 2, 0, 0, 0, 1, 0, 0, 0, 7, 0, 0, 0, 0, 0, 0, 0, 2, 0, 0, 0, 46, 112, 0, 0]

example : flatbuffers.getFlatAsset pageBuffer =
    { type := .kSnippet, key := 5, name := none, fileExtension := some [46, 112], author := 0
      deprecatedBy := 0, deprecates := 0, size := 1, chunks := 1, lists := some [7], salt := 0
      inlineData := none } := by decide +kernel

/-- It stands in for XXH64. -/
def byteHash (bytes : List Byte) : UInt64 := UInt64.ofNat (ofLeBytes bytes)

def pageVerifiers : Verifiers where
  verifyFlatAssetBuffer := fun buffer => decide (buffer = pageBuffer)
  verifyFlatAssetDataBuffer := fun _ => false
  verifyFlatListBuffer := fun _ => false

def pageServer : Database :=
  (run (Database.call flatbuffers .little) Store.empty
    [.storeAsset 0 5 pageBuffer, .storeAsset 0 1 deprecatedBuffer]).get (by decide +kernel)

def pageSurroundings : Surroundings where
  server := pageServer
  getAssetData := fun key _ => if key = 5 then none else some ⟨[1], 1⟩
  now := 7
  timeStamp := 9
  writeTime := 8

def pageHandler (m : CacheManager) : OscHandler := ⟨m, Store.empty⟩

def PageSends (m : CacheManager) (key : UInt64) (loaded : Loaded) : Prop :=
  (pageHandler m).Sends Base64.codec pageVerifiers flatbuffers .little byteHash pageSurroundings key
    loaded

theorem page_sends {m : CacheManager} {key returned : UInt64} {path : Path}
    (replies : ((pageHandler m).loadAsset Base64.codec pageVerifiers flatbuffers .little byteHash
      pageSurroundings 1 key).map (fun loaded => (loaded.returnedKey, loaded.assetPath)) =
        some (returned, path)) :
    ∃ loaded, PageSends m key loaded ∧ loaded.returnedKey = returned ∧ loaded.assetPath = path := by
  obtain ⟨loaded, loads, same⟩ := Option.map_eq_some_iff.mp replies
  obtain ⟨returns, at_path⟩ := Prod.mk.inj same
  exact ⟨loaded, sends_iff.mpr ⟨1, loads⟩, returns, at_path⟩

/-- An asset in the cache is handed out without a key. One that cannot be downloaded is returned
    without a path. One that is deprecated is returned when the other one has been looked up. -/
theorem loaded_untruthfully :
    (∃ loaded, PageSends (slashedCache.track 5 1 [46, 112] [5] 0) 5 loaded ∧
      (loaded.returnedKey = 0 ∧ loaded.assetPath = slashedCache.filePath 5 [46, 112]) ∧
      ¬ loaded.Truthful flatbuffers .little byteHash pageServer) ∧
    (∃ loaded, PageSends slashedCache 5 loaded ∧
      (loaded.returnedKey = 5 ∧ loaded.assetPath = []) ∧
      ¬ loaded.Truthful flatbuffers .little byteHash pageServer) ∧
    (∃ loaded, PageSends slashedCache 1 loaded ∧
      (loaded.returnedKey = 1 ∧ loaded.assetPath = slashedCache.filePath 1 [46, 112]) ∧
      ¬ loaded.Truthful flatbuffers .little byteHash pageServer) := by
  refine ⟨?_, ?_, ?_⟩
  · obtain ⟨loaded, sends, returned, path⟩ :=
      @page_sends (slashedCache.track 5 1 [46, 112] [5] 0) 5 0 (slashedCache.filePath 5 [46, 112])
        (by decide +kernel)
    refine ⟨loaded, sends, ⟨returned, path⟩, fun truthful => truthful.both.mpr ?_ returned⟩
    rw [path]
    exact filePath_ne_nil
  · obtain ⟨loaded, sends, returned, path⟩ := @page_sends slashedCache 5 5 [] (by decide +kernel)
    refine ⟨loaded, sends, ⟨returned, path⟩, fun truthful => truthful.both.mp ?_ path⟩
    rw [returned]
    decide
  · obtain ⟨loaded, sends, returned, path⟩ :=
      @page_sends slashedCache 1 1 (slashedCache.filePath 1 [46, 112]) (by decide +kernel)
    refine ⟨loaded, sends, ⟨returned, path⟩, fun truthful => ?_⟩
    have latest := truthful.latest
    rw [returned] at latest
    obtain ⟨data, stored, current⟩ := (latest (by decide)).2
    have deprecated : pageServer.get (makeAssetKey .little 1) = some deprecatedBuffer := by
      decide +kernel
    rw [deprecated] at stored
    cases stored
    revert current
    decide +kernel

end Confab
