import SCLOrkTools.Confab.Catalogue
import SCLOrkTools.Confab.HttpClient
import SCLOrkTools.Confab.Keys

/- The class Asset, which is flattened to be posted and made again from what was flattened, and
   what the database commits for it. -/
namespace Confab
open OrderedStores ByteStrings

/-- `inlineData` is the buffer that m_inlineData points at, none if it is a null pointer. -/
structure Asset where
  type : AssetType
  key : UInt64
  name : List Byte
  fileExtension : List Byte
  author : UInt64
  deprecatedBy : UInt64
  deprecates : UInt64
  size : UInt64
  chunks : UInt64
  lists : List UInt64
  salt : UInt64
  inlineData : Option (List Byte)
  deriving DecidableEq

namespace Asset

def new (type : AssetType) : Asset where
  type := type
  key := 0
  name := []
  fileExtension := []
  author := 0
  deprecatedBy := 0
  deprecates := 0
  size := 0
  chunks := 0
  lists := []
  salt := 0
  inlineData := none

def parseListIds (asset : Asset) (listIds : List Byte) : Asset :=
  { asset with lists := asset.lists ++ Confab.parseListIds listIds }

end Asset

structure FlatAssetBuilder where
  type : Option AssetType
  key : Option UInt64
  name : Option (List Byte)
  fileExtension : Option (List Byte)
  author : Option UInt64
  deprecatedBy : Option UInt64
  deprecates : Option UInt64
  size : Option UInt64
  chunks : Option UInt64
  lists : Option (List UInt64)
  salt : Option UInt64
  inlineData : Option (List Byte)

/-- What the accessors read in the table: a scalar that is absent has the default of the schema,
    a string or a vector that is absent is null. -/
def FlatAssetBuilder.finish (builder : FlatAssetBuilder) : FlatAsset where
  type := builder.type.getD .kInvalid
  key := builder.key.getD 0
  name := builder.name
  fileExtension := builder.fileExtension
  author := builder.author.getD 0
  deprecatedBy := builder.deprecatedBy.getD 0
  deprecates := builder.deprecates.getD 0
  size := builder.size.getD 0
  chunks := builder.chunks.getD 0
  lists := builder.lists
  salt := builder.salt.getD 0
  inlineData := builder.inlineData

/-- The first bytes behind a pointer. None if there are fewer. -/
def readBytes (buffer : List Byte) (size : UInt64) : Option (List Byte) :=
  if size.toNat ≤ buffer.length then some (buffer.take size.toNat) else none

/-- What is read behind a pointer that may be null. -/
def readPointer (pointer : Option (List Byte)) (size : UInt64) : Option (Option (List Byte)) :=
  match pointer with
  | none => some none
  | some buffer => (readBytes buffer size).map some

/-- std::copy to the beginning of a vector. None if it writes beyond the elements there are. -/
def copyTo (source target : List UInt64) : Option (List UInt64) :=
  if source.length ≤ target.length then some (source ++ target.drop source.length) else none

def scalar (n : UInt64) : Option UInt64 := if n ≠ 0 then some n else none

/-- None if it reads beyond the inline data. -/
def Asset.flatten (asset : Asset) (inlineData : Option (List Byte)) : Option FlatAsset :=
  let serialInline := inlineData.or asset.inlineData
  (readPointer serialInline asset.size).map fun builderInline =>
    FlatAssetBuilder.finish
      { type := some asset.type
        key := some asset.key
        size := some asset.size
        name := field asset.name
        fileExtension := field asset.fileExtension
        lists := field asset.lists
        author := scalar asset.author
        deprecatedBy := scalar asset.deprecatedBy
        deprecates := scalar asset.deprecates
        chunks := scalar asset.chunks
        salt := scalar asset.salt
        inlineData := builderInline }

def copyString : Option (List Byte) → List Byte
  | none => []
  | some s => cString s

/-- The constructor from a FlatAsset. None if it reads or writes out of bounds: m_lists is still
    empty when the ids are copied to its beginning. -/
def Asset.ofFlatAsset (flatAsset : FlatAsset) : Option Asset :=
  let lists :=
    match flatAsset.lists with
    | none => some []
    | some lists => copyTo lists []
  lists.bind fun lists =>
    (readPointer flatAsset.inlineData flatAsset.size).map fun inlineData =>
      { type := flatAsset.type
        key := flatAsset.key
        name := copyString flatAsset.name
        fileExtension := copyString flatAsset.fileExtension
        author := flatAsset.author
        deprecatedBy := flatAsset.deprecatedBy
        deprecates := flatAsset.deprecates
        size := flatAsset.size
        chunks := flatAsset.chunks
        lists := lists
        salt := flatAsset.salt
        inlineData := inlineData }

/-- The strings have no zero bytes, and the inline data has as many bytes as the size says. -/
structure Asset.WellFormed (asset : Asset) : Prop where
  name : 0 ∉ asset.name
  fileExtension : 0 ∉ asset.fileExtension
  inlineData : ∀ data, asset.inlineData = some data → data.length = asset.size.toNat

section Fields

theorem scalar_getD (n : UInt64) : (scalar n).getD 0 = n := by
  unfold scalar
  split
  · rfl
  · rename_i zero
    exact (not_not.mp zero).symm

theorem field_eq_none {α : Type} {l : List α} : field l = none ↔ l = [] := by
  unfold field
  split <;> simp_all

theorem field_eq_some {α : Type} {l m : List α} : field l = some m ↔ l ≠ [] ∧ l = m := by
  unfold field
  split <;> simp_all

theorem copyString_field {s : List Byte} (plain : 0 ∉ s) : copyString (field s) = s := by
  cases written : field s with
  | none => exact (field_eq_none.mp written).symm
  | some t =>
    obtain ⟨-, rfl⟩ := field_eq_some.mp written
    apply List.takeWhile_eq_self_iff.mpr
    intro b mem
    refine decide_eq_true fun zero => plain ?_
    rwa [← (Fin.ext zero : b = 0)]

theorem readPointer_exact {pointer : Option (List Byte)} {size : UInt64}
    (exact_size : ∀ data, pointer = some data → data.length = size.toNat) :
    readPointer pointer size = some pointer := by
  cases pointer with
  | none => rfl
  | some data =>
    have long := exact_size data rfl
    simp [readPointer, readBytes, ← long]

theorem copyTo_nil {lists copied : List UInt64} :
    copyTo lists [] = some copied ↔ lists = [] ∧ copied = [] := by
  unfold copyTo
  constructor
  · intro copies
    split at copies
    · rename_i none
      have empty : lists = [] := List.eq_nil_of_length_eq_zero (Nat.le_zero.mp none)
      subst empty
      exact ⟨rfl, (Option.some.inj copies).symm⟩
    · cases copies
  · rintro ⟨rfl, rfl⟩
    rfl

end Fields

theorem flatten_eq {asset : Asset} {inlineData : Option (List Byte)}
    (exact_size : ∀ data, inlineData.or asset.inlineData = some data →
      data.length = asset.size.toNat) :
    asset.flatten inlineData = some
      { type := asset.type
        key := asset.key
        name := field asset.name
        fileExtension := field asset.fileExtension
        author := asset.author
        deprecatedBy := asset.deprecatedBy
        deprecates := asset.deprecates
        size := asset.size
        chunks := asset.chunks
        lists := field asset.lists
        salt := asset.salt
        inlineData := inlineData.or asset.inlineData } := by
  simp only [Asset.flatten, readPointer_exact exact_size, Option.map_some,
    FlatAssetBuilder.finish, Option.getD_some, scalar_getD]

/-- An asset comes back from its FlatAsset exactly when it is on no list. -/
theorem flatten_round_trip {asset : Asset} (formed : asset.WellFormed) :
    (asset.flatten none).bind Asset.ofFlatAsset = some asset ↔ asset.lists = [] := by
  rw [@flatten_eq asset none formed.inlineData, Option.bind_some, Option.none_or]
  constructor
  · intro same
    obtain ⟨lists, copied, -⟩ := Option.bind_eq_some_iff.mp same
    cases written : field asset.lists with
    | none => exact field_eq_none.mp written
    | some given =>
      obtain ⟨-, rfl⟩ := field_eq_some.mp written
      simp only [written] at copied
      exact (copyTo_nil.mp copied).1
  · intro none
    simp only [Asset.ofFlatAsset, field_eq_none.mpr none, Option.bind_some,
      readPointer_exact formed.inlineData, copyString_field formed.name,
      copyString_field formed.fileExtension, Option.map_some, ← none]

/-- A snippet of two bytes with a name and an author. -/
def greeting : Asset :=
  { Asset.new .kSnippet with
    key := 0x2f73ada9534dadd4
    name := [104, 105]
    author := 5
    size := 2
    salt := 3
    inlineData := some [72, 105] }

theorem flatten_round_trip_greeting :
    (greeting.flatten none).bind Asset.ofFlatAsset = some greeting ↔ greeting.lists = [] :=
  flatten_round_trip ⟨by decide, by decide, by
    intro data given
    cases given
    rfl⟩

/-- The same snippet on list 7: its id is written beyond the end of m_lists. -/
theorem listed_asset_lost :
    ({ greeting with lists := [7] }.flatten none).bind Asset.ofFlatAsset ≠
      some { greeting with lists := [7] } := by
  decide

section Storing
variable {schemas : Schemas} {host : ByteOrder}

/-- The record is stored, with an entry for its name if it has one, and one entry for each list
    that it names, however often. -/
structure Commits (host : ByteOrder) (db next : Database) (now key : UInt64) (asset : Asset)
    (assetData : List Byte) : Prop where
  get : ∀ k, next.get k =
    if k = makeAssetKey host key then some assetData
    else if ∃ list ∈ asset.lists,
        k = listEntryKey (ByteOrder.little.bytes list) (host.bytes now) (host.bytes key) then
      some []
    else if asset.name ≠ [] ∧ k = kAssetNamePrefix ++ asset.name then some (host.bytes key)
    else db.get k
  distinct : ∀ list other, listEntryKey (ByteOrder.little.bytes list) (host.bytes now)
      (host.bytes key) = listEntryKey (ByteOrder.little.bytes other) (host.bytes now)
        (host.bytes key) → list = other

theorem listEntryKey_inj {list other : UInt64} {timeStamp key : List Byte}
    (same : listEntryKey (ByteOrder.little.bytes list) timeStamp key =
      listEntryKey (ByteOrder.little.bytes other) timeStamp key) : list = other :=
  ByteOrder.little.bytes_inj.mp (List.append_inj_left (List.cons.inj same).2 (by simp))

theorem get_listBatch_eq (db : Database) (lists : List UInt64) (timeStamp key : UInt64)
    (k : List Byte) :
    (db.write (Database.listBatch host lists timeStamp key)).get k =
      if ∃ list ∈ lists, k = listEntryKey (ByteOrder.little.bytes list) (host.bytes timeStamp)
        (host.bytes key) then some [] else db.get k := by
  have empty : ∀ e ∈ Database.listBatch host lists timeStamp key, e.2 = [] := by
    intro e mem
    obtain ⟨list, -, rfl⟩ := List.mem_map.mp mem
    rfl
  split
  · rename_i entry
    obtain ⟨list, mem, rfl⟩ := entry
    exact Store.get_write_const db empty ⟨_, List.mem_map_of_mem mem, rfl⟩
  · rename_i other
    apply Store.get_write_other
    intro e mem same
    obtain ⟨list, inside, rfl⟩ := List.mem_map.mp mem
    exact other ⟨list, inside, same.symm⟩

theorem get_nameBatch_eq (db : Database) (name : List Byte) (key : UInt64) (k : List Byte) :
    (db.write (Database.nameBatch host kAssetNamePrefix (field name) key)).get k =
      if name ≠ [] ∧ k = kAssetNamePrefix ++ name then some (host.bytes key) else db.get k := by
  by_cases empty : name = []
  · rw [field_eq_none.mpr empty, if_neg fun named => named.1 empty]
    rfl
  · have written : Database.nameBatch host kAssetNamePrefix (field name) key =
        [(kAssetNamePrefix ++ name, host.bytes key)] := by
      rw [field_eq_some.mpr ⟨empty, rfl⟩]
      exact if_pos (List.length_pos_iff.mpr empty)
    rw [written]
    change (db.put (kAssetNamePrefix ++ name) (host.bytes key)).get k = _
    by_cases same : k = kAssetNamePrefix ++ name
    · rw [same, Store.get_put_self, if_pos ⟨empty, rfl⟩]
    · rw [Store.get_put_other db _ same, if_neg fun named => same named.2]

/-- The database stores what flatten produces for an asset with the ids of a string exactly when
    there is an id, and not more of them than there is room for. -/
theorem storeAsset_commits_iff {asset : Asset} {listIds : List Byte}
    {inlineData : Option (List Byte)} {flatAsset : FlatAsset} {assetData : List Byte}
    (ids : asset.lists = parseListIds listIds)
    (flattened : asset.flatten inlineData = some flatAsset)
    (read : schemas.getFlatAsset assetData = flatAsset) (db : Database) (now key : UInt64) :
    (∃ next, db.storeAsset schemas host now key assetData = some next ∧
        Commits host db next now key asset assetData) ↔
      1 ≤ (parseListIds listIds).length ∧
        (parseListIds listIds).length ≤ kAssetMaxListEntries := by
  obtain ⟨builderInline, -, rfl⟩ := Option.map_eq_some_iff.mp flattened
  have lists : (schemas.getFlatAsset assetData).lists = field asset.lists := by rw [read]; rfl
  have name : (schemas.getFlatAsset assetData).name = field asset.name := by rw [read]; rfl
  rw [← ids]
  constructor
  · rintro ⟨next, stored, -⟩
    obtain ⟨given, -, present, fits, -⟩ := storeAsset_eq stored
    rw [lists] at present
    obtain ⟨some_id, rfl⟩ := field_eq_some.mp present
    exact ⟨List.length_pos_iff.mpr some_id, fits⟩
  · rintro ⟨some_id, fits⟩
    have present : field asset.lists = some asset.lists :=
      field_eq_some.mpr ⟨List.length_pos_iff.mp some_id, rfl⟩
    have stamped : asset.lists.length ≠ 0 := by omega
    refine ⟨db.write (Database.nameBatch host kAssetNamePrefix (field asset.name) key ++
      (Database.listBatch host asset.lists now key ++ [(makeAssetKey host key, assetData)])),
      ?_, ?_, fun list other => listEntryKey_inj⟩
    · simp only [Database.storeAsset, lists, name, present, if_pos fits, if_neg stamped]
    · intro k
      rw [write_append, write_append]
      change Store.get (Store.put _ (makeAssetKey host key) assetData) k = _
      by_cases record : k = makeAssetKey host key
      · rw [record, Store.get_put_self, if_pos rfl]
      · rw [Store.get_put_other _ _ record, if_neg record, get_listBatch_eq, get_nameBatch_eq]

end Storing

theorem storeAsset_commits_iff_named :
    (∃ next, Database.storeAsset flatbuffers .little Store.empty 1500 1 assetBuffer = some next ∧
        Commits .little Store.empty next 1500 1
          (({ Asset.new .kInvalid with name := [97, 98] }).parseListIds [55]) assetBuffer) ↔
      1 ≤ (parseListIds [55]).length ∧ (parseListIds [55]).length ≤ kAssetMaxListEntries :=
  @storeAsset_commits_iff flatbuffers .little _ [55] none _ assetBuffer rfl
    (flatten_eq fun _ given => by cases given) (by decide +kernel) Store.empty 1500 1

def unlistedBuffer : List Byte :=
  [16, 0, 0, 0, 0, 0, 0, 0, 8, 0, 16, 0, 4, 0, 8, 0, 8, 0, 0, 0, 2, 0, 0, 0,
    1, 0, 0, 0, 0, 0, 0, 0]

/-- The same snippet, nine times on list 1. -/
def crowdedBuffer : List Byte :=
  [32, 0, 0, 0, 0, 0, 0, 0, 24, 0, 20, 0, 4, 0, 8, 0, 0, 0, 0, 0, 0, 0, 0, 0, 0, 0, 0, 0, 0, 0,
    16, 0, 24, 0, 0, 0, 2, 0, 0, 0, 1, 0, 0, 0, 0, 0, 0, 0, 4, 0, 0, 0, 9, 0, 0, 0] ++
    (List.replicate 9 [1, 0, 0, 0, 0, 0, 0, 0]).flatten

def unlisted : Asset := { Asset.new .kSnippet with key := 1 }

/-- The ids "1,1,1,1,1,1,1,1,1". -/
def nineIds : List Byte := (List.replicate 9 [49, 44]).flatten.dropLast

/-- An asset that names no list, whose vector is read although flatten has not written it, and
    one with more ids than listKeys has room for. -/
theorem storeAsset_out_of_bounds :
    ((unlisted.parseListIds []).flatten none = some (flatbuffers.getFlatAsset unlistedBuffer) ∧
      Database.storeAsset flatbuffers .little Store.empty 1500 1 unlistedBuffer = none) ∧
    ((unlisted.parseListIds nineIds).flatten none =
        some (flatbuffers.getFlatAsset crowdedBuffer) ∧
      Database.storeAsset flatbuffers .little Store.empty 1500 1 crowdedBuffer = none) := by
  decide +kernel


end Confab
