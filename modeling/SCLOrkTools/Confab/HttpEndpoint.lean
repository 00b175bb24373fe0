import SCLOrkTools.Confab.HttpClient
import SCLOrkTools.Confab.Keys
import SCLOrkTools.Confab.Misses
import SCLOrkTools.Library.Base64

/- The handlers of the server that take records in and hand them out again. A record is base64
   encoded on its way, and a handler has a buffer of one page for what it decodes or encodes. -/
namespace Confab
open OrderedStores ByteStrings GuardedRun Base64

/-- The checks that flatc generates from the schemas. -/
structure Verifiers where
  verifyFlatAssetBuffer : List Byte → Bool
  verifyFlatAssetDataBuffer : List Byte → Bool
  verifyFlatListBuffer : List Byte → Bool

inductive Reply where
  | ok (body : List Byte)
  | notFound
  | internalServerError
  deriving DecidableEq

section Handlers
variable (codec : Codec) (verifiers : Verifiers) (schemas : Schemas) (host : ByteOrder)

/-- The five GET handlers. None if there is no data to read, or more than fits into base64. -/
def sendRecord (record : Record) : Option Reply :=
  if record.empty then some .notFound
  else record.data.bind fun data =>
    let base64 := codec.encode data
    if base64.length ≤ kPageSize then some (.ok base64) else none

/-- The three POST handlers. None if there is more than fits into decoded, or storing reads or
    writes out of bounds. What base64_decode returns is not looked at. -/
def postRecord (verify : List Byte → Bool) (store : List Byte → Option Database) (db : Database)
    (body : List Byte) : Option (Reply × Database) :=
  let decoded := codec.decode body
  if decoded.length ≤ kPageSize then
    if verify decoded then (store decoded).map fun next => (.ok [], next)
    else some (.internalServerError, db)
  else none

inductive Request where
  | getAsset (keyString : List Byte)
  | postAsset (now : UInt64) (keyString body : List Byte)
  | getNamedAsset (name : List Byte)
  | getAssetData (keyString : List Byte) (chunk : UInt64)
  | postAssetData (keyString : List Byte) (chunk : UInt64) (body : List Byte)
  | getList (keyString : List Byte)
  | postList (keyString body : List Byte)
  | getNamedList (name : List Byte)

def Request.body : Request → Option (List Byte)
  | postAsset _ _ body => some body
  | postAssetData _ _ body => some body
  | postList _ body => some body
  | _ => none

def Request.lookup : Request → Option Lookup
  | getAsset keyString => some (.findAsset (stringToKey keyString))
  | getNamedAsset name => some (.findNamedAsset name)
  | getAssetData keyString chunk => some (.loadAssetDataChunk (stringToKey keyString) chunk)
  | getList keyString => some (.loadList (stringToKey keyString))
  | getNamedList name => some (.findNamedList name)
  | _ => none

def postAsset (db : Database) (now : UInt64) (keyString body : List Byte) :
    Option (Reply × Database) :=
  postRecord codec verifiers.verifyFlatAssetBuffer
    (db.storeAsset schemas host now (stringToKey keyString)) db body

def postAssetData (db : Database) (keyString : List Byte) (chunk : UInt64) (body : List Byte) :
    Option (Reply × Database) :=
  postRecord codec verifiers.verifyFlatAssetDataBuffer
    (fun data => some (db.storeAssetDataChunk host (stringToKey keyString) chunk data)) db body

def postList (db : Database) (keyString body : List Byte) : Option (Reply × Database) :=
  postRecord codec verifiers.verifyFlatListBuffer
    (fun data => some (db.storeList schemas host (stringToKey keyString) data)) db body

def handle (db : Database) : Request → Option Database
  | .postAsset now keyString body =>
    (postAsset codec verifiers schemas host db now keyString body).map Prod.snd
  | .postAssetData keyString chunk body =>
    (postAssetData codec verifiers host db keyString chunk body).map Prod.snd
  | .postList keyString body =>
    (postList codec verifiers schemas host db keyString body).map Prod.snd
  | _ => some db

def Encodes (db : Database) (lookup : Lookup) : Prop :=
  ∀ fuel record data, lookup.result schemas host db fuel = some record →
    record.data = some data → (codec.encode data).length ≤ kPageSize

/-- The body is decoded within the buffer, and whatever is handed out after the request is encoded
    within the buffer. -/
def Suffices (db : Database) (request : Request) : Prop :=
  (∀ body, request.body = some body → (codec.decode body).length ≤ kPageSize) ∧
  ∀ next, handle codec verifiers schemas host db request = some next →
    ∀ lookup, Encodes codec schemas host next lookup

/-- 5462 digits of base64 fill a page when they are decoded, and 4097 digits fill what fills a page
    when it is encoded. -/
def Fits (body : List Byte) (accepted : Prop) : Prop :=
  (digits body).length ≤ 5462 ∧ (accepted → (digits body).length ≤ 4097)

/-- The record of an asset that is deprecated is not handed out. -/
def Request.Fits (db : Database) : Request → Prop
  | postAsset now keyString body =>
    let decoded := codec.decode body
    Confab.Fits body (verifiers.verifyFlatAssetBuffer decoded ∧
      (schemas.getFlatAsset decoded).deprecatedBy = 0 ∧
        ∃ next, db.storeAsset schemas host now (stringToKey keyString) decoded = some next)
  | postAssetData _ _ body =>
    Confab.Fits body (verifiers.verifyFlatAssetDataBuffer (codec.decode body))
  | postList _ body => Confab.Fits body (verifiers.verifyFlatListBuffer (codec.decode body))
  | _ => True

end Handlers
section Sizes
variable {codec : Codec}

theorem encode_fits_iff (data : List Byte) :
    (codec.encode data).length ≤ kPageSize ↔ data.length ≤ 3072 := by
  rw [codec.length_encode]
  unfold kPageSize
  omega

theorem decode_fits_iff (body : List Byte) :
    (codec.decode body).length ≤ kPageSize ↔ (digits body).length ≤ 5462 := by
  rw [codec.length_decode]
  unfold kPageSize
  omega

theorem decode_small_iff (body : List Byte) :
    (codec.decode body).length ≤ 3072 ↔ (digits body).length ≤ 4097 := by
  rw [codec.length_decode]
  omega

end Sizes
section Records
variable {codec : Codec} {schemas : Schemas} {host : ByteOrder} {db next : Database}

variable (schemas) in
def Packed (db : Database) : Prop :=
  ∀ e ∈ db.entries, (e.1.head? = some kAsset → (schemas.getFlatAsset e.2).deprecatedBy = 0) →
    e.2.length ≤ 3072

theorem seek_entry {k : List Byte} {e : List Byte × List Byte}
    (head : (db.seek k).head? = some e) : e ∈ db.entries ∧ k ≤ e.1 := by
  have mem := List.mem_of_head? head
  rw [Store.seek_eq_filter] at mem
  simpa using mem

theorem findAsset_entry {fuel : Nat} {k : UInt64} {record : Record}
    (returns : db.findAsset schemas host fuel k = some record) {data : List Byte}
    (found : record.data = some data) :
    ∃ e ∈ db.entries, e.2 = data ∧ (schemas.getFlatAsset e.2).deprecatedBy = 0 := by
  induction fuel using Nat.strongRecOn generalizing k with
  | ind fuel ih =>
    rcases findAsset_cases returns with
      ⟨-, rfl⟩ | ⟨d, stored, ⟨current, rfl⟩ | ⟨less, rfl, -, later⟩⟩
    · cases found
    · have same : d = data := Option.some.inj ((at_data (seek_at stored)).symm.trans found)
      exact ⟨_, Store.get_eq_some.mp stored, same, current⟩
    · exact ih less (Nat.lt_succ_self less) later

theorem seek_packed (packed : Packed schemas db) {b : Byte} {k data : List Byte}
    (behind : kAsset < b) (found : Record.data (some (db.seek (b :: k))) = some data) :
    data.length ≤ 3072 := by
  obtain ⟨e, head, rfl⟩ := Option.map_eq_some_iff.mp found
  obtain ⟨mem, above⟩ := seek_entry head
  refine packed e mem fun asset => ?_
  obtain ⟨rest, shape⟩ := List.head?_eq_some_iff.mp asset
  rw [shape] at above
  rcases cons_le_cons_iff.mp above with less | ⟨same, -⟩
  · exact absurd (less.trans behind) (lt_irrefl b)
  · exact absurd (same ▸ behind) (lt_irrefl _)

theorem packed_encodes (packed : Packed schemas db) (lookup : Lookup) :
    Encodes codec schemas host db lookup := by
  have asset {fuel : Nat} {k : UInt64} {record : Record} {data : List Byte}
      (returns : db.findAsset schemas host fuel k = some record)
      (found : record.data = some data) : data.length ≤ 3072 := by
    obtain ⟨e, mem, rfl, current⟩ := findAsset_entry returns found
    exact packed e mem fun _ => current
  intro fuel record data returns found
  rw [encode_fits_iff]
  cases lookup with
  | findAsset k => exact asset returns found
  | findNamedAsset n =>
    simp only [Lookup.result, Database.findNamedAsset] at returns
    split at returns
    · exact asset returns found
    · cases returns
      cases found
  | loadAssetDataChunk k c =>
    cases returns
    exact seek_packed packed (by decide) found
  | loadList k =>
    cases returns
    exact seek_packed packed (by decide) found
  | findNamedList n =>
    simp only [Lookup.result, Database.findNamedList] at returns
    split at returns
    · cases returns
      exact seek_packed packed (by decide) found
    · cases returns
      cases found

theorem nameBatch_small {prefixed : List Byte} {name : Option (List Byte)} {key : UInt64}
    {e : List Byte × List Byte} (mem : e ∈ Database.nameBatch host prefixed name key) :
    e.2.length ≤ 3072 := by
  unfold Database.nameBatch at mem
  split at mem
  · cases mem
  · split at mem
    · rw [List.mem_singleton.mp mem, ByteOrder.length_bytes]
      decide
    · cases mem

theorem listBatch_small {lists : List UInt64} {timeStamp key : UInt64}
    {e : List Byte × List Byte} (mem : e ∈ Database.listBatch host lists timeStamp key) :
    e.2.length ≤ 3072 := by
  obtain ⟨_, -, rfl⟩ := List.mem_map.mp mem
  exact Nat.zero_le _

theorem packed_put (packed : Packed schemas db) {k data : List Byte}
    (small : (k.head? = some kAsset → (schemas.getFlatAsset data).deprecatedBy = 0) →
      data.length ≤ 3072) : Packed schemas (db.put k data) := by
  intro e mem
  rcases Store.mem_put.mp mem with rfl | ⟨old, -⟩
  · exact small
  · exact packed e old

theorem packed_write (packed : Packed schemas db) {batch : List (List Byte × List Byte)}
    (small : ∀ e ∈ batch, e.2.length ≤ 3072) : Packed schemas (db.write batch) := by
  intro e mem
  rcases Store.mem_write mem with new | old
  · exact fun _ => small e new
  · exact packed e old

theorem packed_storeAsset {now key : UInt64} {data : List Byte} (packed : Packed schemas db)
    (stored : db.storeAsset schemas host now key data = some next)
    (small : (schemas.getFlatAsset data).deprecatedBy = 0 → data.length ≤ 3072) :
    Packed schemas next := by
  obtain ⟨lists, timeStamp, -, -, -, rfl⟩ := storeAsset_eq stored
  apply packed_put (packed_write (packed_write packed fun e => nameBatch_small) fun e =>
    listBatch_small)
  exact fun current => small (current rfl)

theorem packed_storeAssetDataChunk {key chunk : UInt64} {data : List Byte}
    (packed : Packed schemas db) (small : data.length ≤ 3072) :
    Packed schemas (db.storeAssetDataChunk host key chunk data) :=
  packed_put packed fun _ => small

theorem packed_storeList {key : UInt64} {data : List Byte} (packed : Packed schemas db)
    (small : data.length ≤ 3072) : Packed schemas (db.storeList schemas host key data) := by
  unfold Database.storeList
  apply packed_write packed
  intro e mem
  rcases List.mem_append.mp mem with name | rest
  · exact nameBatch_small name
  · simp only [List.mem_cons, List.not_mem_nil, or_false] at rest
    rcases rest with rfl | rfl | rfl
    · exact Nat.zero_le _
    · exact Nat.zero_le _
    · exact small

theorem encodes_small {lookup : Lookup} {data : List Byte} {fuel : Nat} {record : Record}
    (encodes : Encodes codec schemas host db lookup)
    (returns : lookup.result schemas host db fuel = some record)
    (found : record.data = some data) : data.length ≤ 3072 :=
  (encode_fits_iff data).mp (encodes fuel record data returns found)

theorem encodes_storeAsset {now key : UInt64} {data : List Byte}
    (stored : db.storeAsset schemas host now key data = some next)
    (encodes : Encodes codec schemas host next (.findAsset key))
    (current : (schemas.getFlatAsset data).deprecatedBy = 0) : data.length ≤ 3072 := by
  have kept : next.get (makeAssetKey host key) = some data :=
    (get_storeAsset stored (.asset key)).trans (if_pos rfl)
  exact encodes_small encodes (findAsset_current kept current 0) (at_data (seek_at kept))

theorem encodes_storeAssetDataChunk {key chunk : UInt64} {data : List Byte}
    (encodes : Encodes codec schemas host (db.storeAssetDataChunk host key chunk data)
      (.loadAssetDataChunk key chunk)) : data.length ≤ 3072 :=
  @encodes_small _ _ _ _ _ _ 0 _ encodes rfl (at_data (seek_at (Store.get_put_self db _ data)))

theorem encodes_storeList {key : UInt64} {data : List Byte}
    (encodes : Encodes codec schemas host (db.storeList schemas host key data) (.loadList key)) :
    data.length ≤ 3072 := by
  have kept : (db.storeList schemas host key data).get (makeListKey host key) = some data :=
    (get_storeList db key data (.list key)).trans (if_pos rfl)
  exact @encodes_small _ _ _ _ _ _ 0 _ encodes rfl (at_data (seek_at kept))

end Records
section Requests
variable {codec : Codec} {verifiers : Verifiers} {schemas : Schemas} {host : ByteOrder}
  {db next : Database}

section Post
variable {verify : List Byte → Bool} {store : List Byte → Option Database} {body : List Byte}

theorem postRecord_next :
    (postRecord codec verify store db body).map Prod.snd = some next ↔
      (codec.decode body).length ≤ kPageSize ∧
        (verify (codec.decode body) = true ∧ store (codec.decode body) = some next ∨
          verify (codec.decode body) = false ∧ next = db) := by
  unfold postRecord
  by_cases fits : (codec.decode body).length ≤ kPageSize
  · cases verified : verify (codec.decode body) with
    | true => simp [fits, verified]
    | false => simp [fits, verified, eq_comm]
  · simp [fits]

-- The records that are handed out when they have been stored.
variable {kept : List Byte → Prop}

theorem postRecord_packed (packed : Packed schemas db)
    (packs : ∀ data next, store data = some next → (kept data → data.length ≤ 3072) →
      Packed schemas next)
    (fits : Fits body (verify (codec.decode body) ∧ kept (codec.decode body) ∧
      ∃ next, store (codec.decode body) = some next))
    (step : (postRecord codec verify store db body).map Prod.snd = some next) :
    Packed schemas next := by
  rcases (postRecord_next.mp step).2 with ⟨verified, stored⟩ | ⟨-, rfl⟩
  · refine packs _ next stored fun keeps => (decode_small_iff body).mpr ?_
    exact fits.2 ⟨verified, keeps, next, stored⟩
  · exact packed

theorem postRecord_suffices_iff (packed : Packed schemas db)
    (packs : ∀ data next, store data = some next → (kept data → data.length ≤ 3072) →
      Packed schemas next)
    (hands : ∀ data next, store data = some next →
      (∀ lookup, Encodes codec schemas host next lookup) → kept data → data.length ≤ 3072) :
    ((codec.decode body).length ≤ kPageSize ∧
      ∀ next, (postRecord codec verify store db body).map Prod.snd = some next →
        ∀ lookup, Encodes codec schemas host next lookup) ↔
      Fits body (verify (codec.decode body) ∧ kept (codec.decode body) ∧
        ∃ next, store (codec.decode body) = some next) := by
  constructor
  · rintro ⟨within, encodes⟩
    refine ⟨(decode_fits_iff body).mp within, ?_⟩
    rintro ⟨verified, keeps, next, stored⟩
    have encodes := encodes next (postRecord_next.mpr ⟨within, .inl ⟨verified, stored⟩⟩)
    exact (decode_small_iff body).mp (hands _ next stored encodes keeps)
  · intro fits
    refine ⟨(decode_fits_iff body).mpr fits.1, fun next step => ?_⟩
    exact packed_encodes (postRecord_packed packed packs fits step)

end Post

theorem get_suffices {request : Request} (packed : Packed schemas db)
    (lookup : request.body = none) :
    Suffices codec verifiers schemas host db request := by
  refine ⟨fun body given => ?_, fun next step => ?_⟩
  · rw [lookup] at given
    cases given
  · cases request with
    | postAsset | postAssetData | postList => cases lookup
    | getAsset | getNamedAsset | getAssetData | getList | getNamedList =>
      cases step
      exact packed_encodes packed

theorem suffices_post {request : Request} {body : List Byte} (posts : request.body = some body) :
    Suffices codec verifiers schemas host db request ↔
      (codec.decode body).length ≤ kPageSize ∧
        ∀ next, handle codec verifiers schemas host db request = some next →
          ∀ lookup, Encodes codec schemas host next lookup := by
  rw [Suffices, posts]
  simp

theorem fits_always {body : List Byte} {verified : Prop} {stored : Database} :
    Fits body (verified ∧ True ∧ ∃ next, some stored = some next) ↔ Fits body verified := by
  simp [Fits]

theorem suffices_iff (packed : Packed schemas db) (request : Request) :
    Suffices codec verifiers schemas host db request ↔
      request.Fits codec verifiers schemas host db := by
  cases request with
  | postAsset now keyString body =>
    refine (suffices_post rfl).trans (@postRecord_suffices_iff codec schemas host db _ _ body
      (fun data => (schemas.getFlatAsset data).deprecatedBy = 0) packed ?_ ?_)
    · exact fun data next stored small => packed_storeAsset packed stored small
    · exact fun data next stored encodes => encodes_storeAsset stored (encodes _)
  | postAssetData keyString chunk body =>
    refine (suffices_post rfl).trans ((@postRecord_suffices_iff codec schemas host db _ _ body
      (fun _ => True) packed ?_ ?_).trans fits_always)
    · rintro data next ⟨⟩ small
      exact packed_storeAssetDataChunk packed (small trivial)
    · rintro data next ⟨⟩ encodes -
      exact encodes_storeAssetDataChunk (encodes _)
  | postList keyString body =>
    refine (suffices_post rfl).trans ((@postRecord_suffices_iff codec schemas host db _ _ body
      (fun _ => True) packed ?_ ?_).trans fits_always)
    · rintro data next ⟨⟩ small
      exact packed_storeList packed (small trivial)
    · rintro data next ⟨⟩ encodes -
      exact encodes_storeList (encodes _)
  | getAsset | getNamedAsset | getAssetData | getList | getNamedList =>
    exact iff_of_true (get_suffices packed rfl) trivial

theorem handle_packed {request : Request} (packed : Packed schemas db)
    (fits : request.Fits codec verifiers schemas host db)
    (step : handle codec verifiers schemas host db request = some next) : Packed schemas next := by
  cases request with
  | postAsset now keyString body =>
    refine @postRecord_packed codec schemas db next _ _ body
      (fun data => (schemas.getFlatAsset data).deprecatedBy = 0) packed ?_ fits step
    exact fun data next stored small => packed_storeAsset packed stored small
  | postAssetData keyString chunk body =>
    refine @postRecord_packed codec schemas db next _ _ body (fun _ => True) packed ?_
      (fits_always.mpr fits) step
    rintro data next ⟨⟩ small
    exact packed_storeAssetDataChunk packed (small trivial)
  | postList keyString body =>
    refine @postRecord_packed codec schemas db next _ _ body (fun _ => True) packed ?_
      (fits_always.mpr fits) step
    rintro data next ⟨⟩ small
    exact packed_storeList packed (small trivial)
  | getAsset | getNamedAsset | getAssetData | getList | getNamedList =>
    cases step
    exact packed

end Requests

/-- Over every run of requests on an empty database, whatever their bodies are. -/
theorem pages_suffice_iff (codec : Codec) (verifiers : Verifiers) (schemas : Schemas)
    (host : ByteOrder) (requests : List Request) :
    Along (handle codec verifiers schemas host) (Suffices codec verifiers schemas host)
        Store.empty requests ↔
      Along (handle codec verifiers schemas host) (Request.Fits codec verifiers schemas host)
        Store.empty requests := by
  refine along_iff_along (g := fun _ _ => True) (Packed schemas)
    (fun db request packed _ => suffices_iff packed request)
    (fun _ _ _ packed _ fits step => handle_packed packed fits step) ?_
    (along_of_all (p := fun _ => True) fun _ _ => trivial)
  exact fun e mem => absurd mem List.not_mem_nil

def wideBuffer : List Byte :=
  [16, 0, 0, 0, 0, 0, 0, 0, 8, 0, 16, 0, 4, 0, 8, 0, 8, 0, 0, 0, 12, 0, 0, 0,
    5, 0, 0, 0, 0, 0, 0, 0, 224, 11, 0, 0] ++ List.replicate 3040 7

def wideVerifiers : Verifiers where
  verifyFlatAssetBuffer := fun _ => false
  verifyFlatAssetDataBuffer := fun buffer => decide (buffer = wideBuffer)
  verifyFlatListBuffer := fun _ => false

/-- A body of two pages is decoded beyond the buffer, and a record that has been decoded within it
    is encoded beyond the buffer. Both bodies are small enough to be received. -/
theorem pages_overrun :
    ((List.replicate 8192 65).length ≤ 2 * kPageSize ∧
      ¬ Suffices codec wideVerifiers flatbuffers .little Store.empty
        (.postAssetData [49] 0 (List.replicate 8192 65))) ∧
    ((encode wideBuffer).length ≤ 2 * kPageSize ∧
      ¬ Suffices codec wideVerifiers flatbuffers .little Store.empty
        (.postAssetData [49] 0 (encode wideBuffer))) := by
  have empty : Packed flatbuffers Store.empty := fun e mem => absurd mem List.not_mem_nil
  have letters : List.replicate 8192 65 = (List.replicate 8192 0).map letter ++ [] := by
    rw [List.map_replicate, List.append_nil]
    rfl
  have same : Base64.codec.decode (encode wideBuffer) = wideBuffer := decode_encode wideBuffer
  have width : wideBuffer.length = 3076 := by
    rw [wideBuffer, List.length_append, List.length_replicate]
    rfl
  have verified : wideVerifiers.verifyFlatAssetDataBuffer
      (Base64.codec.decode (encode wideBuffer)) = true := by
    rw [same]
    simp [wideVerifiers]
  rw [suffices_iff empty, suffices_iff empty]
  refine ⟨⟨?_, fun fits => ?_⟩, ?_, fun fits => ?_⟩
  · rw [List.length_replicate]
    decide
  · have few := fits.1
    have zeros : ∀ d ∈ List.replicate 8192 0, d < 64 := by
      intro d mem
      rw [List.eq_of_mem_replicate mem]
      decide
    rw [letters, digits_append zeros, List.length_append, List.length_replicate] at few
    revert few
    decide
  · rw [length_encode, width]
    decide
  · have small := (@decode_small_iff Base64.codec _).mpr (fits.2 verified)
    rw [same, width] at small
    revert small
    decide

end Confab
