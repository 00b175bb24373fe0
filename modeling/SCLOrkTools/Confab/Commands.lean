import SCLOrkTools.Confab.LoadAsset

/- The listener of a client: what a message from SuperCollider asks for, what is done for it, and
   what goes back. What HttpClient posts ends well or with the key 0, whatever the server does. -/
namespace Confab
open OrderedStores ByteStrings

instance : DecidableEq OscString := fun s t =>
  decidable_of_iff (s.bytes = t.bytes) ⟨oscString_ext, congrArg OscString.bytes⟩

structure OscMessage where
  addressPattern : OscString
  arguments : List OscArgument

inductive Task where
  | findAsset (assetKey : UInt64)
  | findNamedAsset (name : OscString)
  | loadAsset (key : UInt64)
  | addAssetFile (c : AddAsset)
  | addAssetString (c : AddAsset)
  | addList (name : OscString)
  | findList (name : OscString)
  | nextList (key token : UInt64)

def assetLoad : List OscArgument → Option UInt64
  | [.string keyString] =>
    let key := stringToKey keyString.bytes
    if key = 0 then none else some key
  | _ => none

def nameArgument : List OscArgument → Option OscString
  | [.string name] => some name
  | _ => none

/-- Further arguments are not looked at. -/
def listNext : List OscArgument → Option (UInt64 × UInt64)
  | .string keyString :: .string tokenString :: _ =>
    some (stringToKey keyString.bytes, stringToKey tokenString.bytes)
  | _ => none

/-- None if an argument is missing, in excess or of the wrong type, or is refused. -/
def processMessage (message : OscMessage) : Option Task :=
  if message.addressPattern = ascii "/assetFind" then
    (assetFind message.arguments).map .findAsset
  else if message.addressPattern = ascii "/assetFindName" then
    (nameArgument message.arguments).map .findNamedAsset
  else if message.addressPattern = ascii "/assetLoad" then
    (assetLoad message.arguments).map .loadAsset
  else if message.addressPattern = ascii "/assetAddFile" then
    (assetAddFile message.arguments).map .addAssetFile
  else if message.addressPattern = ascii "/assetAddString" then
    (assetAddString message.arguments).map .addAssetString
  else if message.addressPattern = ascii "/listAdd" then
    (nameArgument message.arguments).map .addList
  else if message.addressPattern = ascii "/listFind" then
    (nameArgument message.arguments).map .findList
  else if message.addressPattern = ascii "/listNext" then
    (listNext message.arguments).map fun (key, token) => .nextList key token
  else none

/-- The keys that HttpClient returns for what it posts. None if it does not return. -/
structure Posting where
  postFileAsset : AddAsset → Option UInt64
  postInlineAsset : AddAsset → Option UInt64
  postList : List Byte → Option UInt64

section Replies
variable (packs : Nat → OscString → List OscArgument → Bool)

/-- A message that does not fit into its buffer is not sent, since the stream throws. -/
def send (capacity : Nat) (address : String) (arguments : List OscArgument) : List OscMessage :=
  if packs capacity (ascii address) arguments then [⟨ascii address, arguments⟩] else []

def keyArgument (key : UInt64) : OscArgument := .string (.ofBytes (keyToString key))

def assetAdded (c : AddAsset) (key : UInt64) : List OscMessage :=
  send packs kPageSize "/assetAdded" [.int32 c.serialNumber, keyArgument key]

def assetError (requested : OscString) (reason : String) : List OscMessage :=
  send packs kDataChunkSize "/assetError" [.string requested, .string (ascii reason)]

/-- None if the record has no name, since that is read anyway. -/
def assetFound (requested : OscString) (asset : FlatAsset) : Option (List OscMessage) :=
  asset.name.map fun _ =>
    (sendAsset packs requested.bytes asset).toList.map fun arguments => ⟨kFound, arguments⟩

def listFound (name : OscString) (key : UInt64) : List OscMessage :=
  send packs kPageSize "/listFound" [.string name, keyArgument key]

def listError (name : OscString) (reason : String) : List OscMessage :=
  send packs kPageSize "/listError" [.string name, .string (ascii reason)]

def addList (name : OscString) (key : UInt64) : List OscMessage :=
  if key ≠ 0 then listFound packs name key else listError packs name "error adding new list."

end Replies

section Requests
variable (codec : Base64.Codec) (verifiers : Verifiers) (schemas : Schemas) (host : ByteOrder)

def HttpClient.getNamedAsset (server : Database) (fuel : Nat) (name : List Byte) :
    Option (Option (List Byte)) :=
  ((server.findNamedAsset schemas host fuel name).bind (sendRecord codec)).map
    (HttpClient.receive codec verifiers)

def HttpClient.receiveList : Reply → Option (List Byte)
  | .ok body =>
    let decoded := codec.decode body
    if verifiers.verifyFlatListBuffer decoded then some decoded else none
  | .notFound => none
  | .internalServerError => none

def HttpClient.getNamedList (server : Database) (name : List Byte) : Option (Option (List Byte)) :=
  (sendRecord codec (server.findNamedList host name)).map (HttpClient.receiveList codec verifiers)

def pairLine (pair : UInt64 × UInt64) : List Byte :=
  keyToString pair.1 ++ [32] ++ keyToString pair.2 ++ [10]

/-- The handler of a GET for the items of a list. There is room for 240 numbers in pairs. -/
def getListItems (server : Database) (keyString fromString : List Byte) : Reply :=
  let page := server.getListNext host (stringToKey keyString) (stringToKey fromString)
    (kPageSize / 17 / 2)
  if page.1 = 0 then .internalServerError else .ok (page.2.flatMap pairLine)

def HttpClient.getListItems (server : Database) (key token : UInt64) : List Byte :=
  match Confab.getListItems host server (keyToString key) (keyToString token) with
  | .ok body => body
  | _ => []

end Requests

section Handler
variable (packs : Nat → OscString → List OscArgument → Bool) (codec : Base64.Codec)
  (verifiers : Verifiers) (schemas : Schemas) (host : ByteOrder) (XXH64 : List Byte → UInt64)

/-- The messages that are sent, and the handler afterwards. None if a lookup does not return or
    something is read that is not there. -/
def OscHandler.findAsset (o : OscHandler) (s : Surroundings) (fuel : Nat) (assetId : UInt64) :
    Option (List OscMessage × OscHandler) :=
  let requested := OscString.ofBytes (keyToString assetId)
  (o.assetDatabase.findAsset schemas host fuel assetId).bind fun databaseAsset =>
    if ¬ databaseAsset.empty then
      databaseAsset.data.bind fun data =>
        (assetFound packs requested (schemas.getFlatAsset data)).map fun sent => (sent, o)
    else
      (HttpClient.getAsset codec verifiers schemas host s.server fuel assetId).bind fun
        | none =>
          some (assetError packs requested "Failed to find asset associated with key.", o)
        | some data =>
          (o.assetDatabase.storeAsset schemas host s.timeStamp assetId data).bind fun next =>
            (assetFound packs requested (schemas.getFlatAsset data)).map fun sent =>
              (sent, { o with assetDatabase := next })

def OscHandler.findNamedAsset (o : OscHandler) (s : Surroundings) (fuel : Nat) (name : OscString) :
    Option (List OscMessage × OscHandler) :=
  (HttpClient.getNamedAsset codec verifiers schemas host s.server fuel name.bytes).bind fun
    | none => some (assetError packs name "Failed to find named asset.", o)
    | some data =>
      let flatAsset := schemas.getFlatAsset data
      (o.assetDatabase.storeAsset schemas host s.timeStamp flatAsset.key data).bind fun next =>
        (assetFound packs name flatAsset).map fun sent => (sent, { o with assetDatabase := next })

def Loaded.messages (loaded : Loaded) : List OscMessage :=
  send packs kPageSize "/assetLoaded" [keyArgument loaded.requestedKey,
    keyArgument loaded.returnedKey, .string (.ofBytes loaded.assetPath)]

def findList (server : Database) (name : OscString) : Option (List OscMessage) :=
  (HttpClient.getNamedList codec verifiers host server name.bytes).map fun
    | none => listError packs name "error finding list."
    | some data => listFound packs name (schemas.getFlatList data).key

def nextList (server : Database) (key token : UInt64) : List OscMessage :=
  send packs kPageSize "/listItems"
    [keyArgument key, .string (.ofBytes (HttpClient.getListItems host server key token))]

def OscHandler.perform (o : OscHandler) (s : Surroundings) (posting : Posting) (fuel : Nat) :
    Task → Option (List OscMessage × OscHandler)
  | .findAsset assetKey => o.findAsset packs codec verifiers schemas host s fuel assetKey
  | .findNamedAsset name => o.findNamedAsset packs codec verifiers schemas host s fuel name
  | .loadAsset key =>
    (o.loadAsset codec verifiers schemas host XXH64 s fuel key).map fun loaded =>
      (loaded.messages packs, loaded.handler)
  | .addAssetFile c => (posting.postFileAsset c).map fun key => (assetAdded packs c key, o)
  | .addAssetString c => (posting.postInlineAsset c).map fun key => (assetAdded packs c key, o)
  | .addList name => (posting.postList name.bytes).map fun key => (addList packs name key, o)
  | .findList name =>
    (findList packs codec verifiers schemas host s.server name).map fun sent => (sent, o)
  | .nextList key token => some (nextList packs host s.server key token, o)

end Handler

def Task.requested : Task → OscArgument
  | findAsset key | loadAsset key | nextList key _ => keyArgument key
  | findNamedAsset name | addList name | findList name => .string name
  | addAssetFile c | addAssetString c => .int32 c.serialNumber

def Task.answers : Task → List String
  | findAsset _ | findNamedAsset _ => ["/assetFound", "/assetError"]
  | loadAsset _ => ["/assetLoaded"]
  | addAssetFile _ | addAssetString _ => ["/assetAdded"]
  | addList _ | findList _ => ["/listFound", "/listError"]
  | nextList _ _ => ["/listItems"]

/-- A task has one reply at most, and that says first what it is a reply to. -/
structure Task.Answered (task : Task) (sent : List OscMessage) : Prop where
  once : sent.length ≤ 1
  address : ∀ message ∈ sent, ∃ address ∈ task.answers, message.addressPattern = ascii address
  requested : ∀ message ∈ sent, message.arguments.head? = some task.requested

section Replies
variable {packs : Nat → OscString → List OscArgument → Bool} {codec : Base64.Codec}
  {verifiers : Verifiers} {schemas : Schemas} {host : ByteOrder} {XXH64 : List Byte → UInt64}
  {task : Task} {message : OscMessage}

theorem answered_none : task.Answered [] := ⟨Nat.zero_le 1, nofun, nofun⟩

theorem answered_one {address : String} {rest : List OscArgument}
    (answers : address ∈ task.answers) :
    task.Answered [⟨ascii address, task.requested :: rest⟩] where
  once := Nat.le_refl 1
  address := fun message mem => ⟨address, answers, by rw [List.mem_singleton.mp mem]⟩
  requested := fun message mem => by rw [List.mem_singleton.mp mem]; rfl

theorem answered_send {capacity : Nat} {address : String} (rest : List OscArgument)
    (answers : address ∈ task.answers) :
    task.Answered (send packs capacity address (task.requested :: rest)) := by
  unfold send
  split
  · exact answered_one answers
  · exact answered_none

theorem answered_found {requested : OscString} {asset : FlatAsset} {sent : List OscMessage}
    (asked : task.requested = .string requested) (answers : "/assetFound" ∈ task.answers)
    (found : assetFound packs requested asset = some sent) : task.Answered sent := by
  obtain ⟨name, named, rfl⟩ := Option.map_eq_some_iff.mp found
  have same : OscArgument.string (.ofBytes requested.bytes) = task.requested := by
    rw [asked, ofBytes_bytes]
  simp only [sendAsset, named, Option.bind_some, foundArguments, same, kFound]
  split
  · exact answered_one answers
  · exact answered_none

theorem loadAsset_requested {o : OscHandler} {s : Surroundings} {fuel : Nat} {key : UInt64}
    {loaded : Loaded}
    (loads : o.loadAsset codec verifiers schemas host XXH64 s fuel key = some loaded) :
    loaded.messages packs = send packs kPageSize "/assetLoaded" [keyArgument key,
      keyArgument loaded.returnedKey, .string (.ofBytes loaded.assetPath)] := by
  suffices same : loaded.requestedKey = key by rw [Loaded.messages, same]
  obtain ⟨⟨assetPath, m⟩, -, loads⟩ := Option.bind_eq_some_iff.mp loads
  dsimp only at loads
  split at loads
  · obtain ⟨⟨wanted, next⟩, -, downloads⟩ := Option.bind_eq_some_iff.mp loads
    unfold OscHandler.downloadWanted at downloads
    split at downloads
    · obtain ⟨_, -, rfl⟩ := Option.map_eq_some_iff.mp downloads
      rfl
    · cases downloads
      rfl
  · cases loads
    rfl

/-- Whatever is sent for a task answers it, under the name that the task was parsed to. -/
theorem perform_answered {o after : OscHandler} {s : Surroundings} {posting : Posting} {fuel : Nat}
    {sent : List OscMessage}
    (performed : o.perform packs codec verifiers schemas host XXH64 s posting fuel task =
      some (sent, after)) : task.Answered sent := by
  cases task with
  | findAsset key =>
    obtain ⟨record, -, performed⟩ := Option.bind_eq_some_iff.mp performed
    split at performed
    · obtain ⟨data, -, performed⟩ := Option.bind_eq_some_iff.mp performed
      obtain ⟨_, found, same⟩ := Option.map_eq_some_iff.mp performed
      cases same
      exact answered_found rfl (by simp [Task.answers]) found
    · obtain ⟨answer, -, performed⟩ := Option.bind_eq_some_iff.mp performed
      cases answer with
      | none =>
        cases performed
        exact answered_send _ (by simp [Task.answers])
      | some data =>
        obtain ⟨next, -, performed⟩ := Option.bind_eq_some_iff.mp performed
        obtain ⟨_, found, same⟩ := Option.map_eq_some_iff.mp performed
        cases same
        exact answered_found rfl (by simp [Task.answers]) found
  | findNamedAsset name =>
    obtain ⟨answer, -, performed⟩ := Option.bind_eq_some_iff.mp performed
    cases answer with
    | none =>
      cases performed
      exact answered_send _ (by simp [Task.answers])
    | some data =>
      obtain ⟨next, -, performed⟩ := Option.bind_eq_some_iff.mp performed
      obtain ⟨_, found, same⟩ := Option.map_eq_some_iff.mp performed
      cases same
      exact answered_found rfl (by simp [Task.answers]) found
  | loadAsset key =>
    obtain ⟨loaded, loads, same⟩ := Option.map_eq_some_iff.mp performed
    cases same
    rw [loadAsset_requested loads]
    exact answered_send _ (by simp [Task.answers])
  | addAssetFile c | addAssetString c =>
    obtain ⟨key, -, same⟩ := Option.map_eq_some_iff.mp performed
    cases same
    exact answered_send _ (by simp [Task.answers])
  | addList name =>
    obtain ⟨key, -, same⟩ := Option.map_eq_some_iff.mp performed
    cases same
    unfold addList
    split <;> exact answered_send _ (by simp [Task.answers])
  | findList name =>
    obtain ⟨_, found, same⟩ := Option.map_eq_some_iff.mp performed
    cases same
    obtain ⟨answer, -, rfl⟩ := Option.map_eq_some_iff.mp found
    cases answer <;> exact answered_send _ (by simp [Task.answers])
  | nextList key token =>
    cases performed
    exact answered_send _ (by simp [Task.answers])

end Replies

end Confab
