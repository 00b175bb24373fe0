import SCLOrkTools.Library.Bytes
import SCLOrkTools.Library.OrderedStore

/- The asset database, one LevelDB store of byte strings under byte strings. LevelDB compares
   keys byte by byte, and an iterator goes on from where Seek put it in the store as it was when
   the iterator was made. -/
namespace Confab
open OrderedStores ByteStrings

inductive AssetType where
  | kInvalid
  | kSnippet
  | kImage
  | kYAML
  | kSample
  deriving DecidableEq

/-- A field that is a string or a vector may be absent. -/
structure FlatAsset where
  type : AssetType
  key : UInt64
  name : Option (List Byte)
  fileExtension : Option (List Byte)
  author : UInt64
  deprecatedBy : UInt64
  deprecates : UInt64
  size : UInt64
  chunks : UInt64
  lists : Option (List UInt64)
  salt : UInt64
  inlineData : Option (List Byte)
  deriving DecidableEq

structure FlatList where
  key : UInt64
  name : Option (List Byte)
  deriving DecidableEq

structure Schemas where
  getFlatAsset : List Byte → FlatAsset
  getFlatList : List Byte → FlatList

abbrev Database := Store (List Byte) (List Byte)

abbrev Iterator := List (List Byte × List Byte)

/-- iterator->value(), which is read where the iterator is valid. -/
def Iterator.value : Iterator → List Byte
  | [] => []
  | entry :: _ => entry.2

/-- None is the empty record. The other one reports that it is not empty wherever its iterator
    is, at an entry or past the last one. -/
abbrev Record := Option Iterator

def Record.empty (r : Record) : Bool := r.isNone

/-- None if there is no data to point at. -/
def Record.data (r : Record) : Option (List Byte) := r.bind fun iterator => iterator.head?.map (·.2)

def kAsset : Byte := 97
def kAssetData : Byte := 100
def kList : Byte := 108
def kListEntry : Byte := 101
def kAssetNamePrefix : List Byte := [110, 97]
def kListNamePrefix : List Byte := [110, 108]

def kListEntryKeySize : Nat := 25
def kAssetMaxListEntries : Nat := 8

def kEndList : UInt64 := 18446744073709551615
def kBeginList : UInt64 := 0

section Keys
variable (host : ByteOrder)

def makeAssetKey (key : UInt64) : List Byte := kAsset :: host.bytes key

def makeAssetDataKey (key chunkNumber : UInt64) : List Byte :=
  kAssetData :: (host.bytes key ++ host.bytes chunkNumber)

def makeListKey (key : UInt64) : List Byte := kList :: host.bytes key

def listEntryKey (list timeStamp key : List Byte) : List Byte :=
  kListEntry :: (list ++ (timeStamp ++ key))

end Keys

/-- The iterator is valid, at a key of the same size and with the same bytes. -/
def iteratorMatch (iterator : Iterator) (key : List Byte) : Bool :=
  match iterator with
  | [] => false
  | entry :: _ => decide (entry.1 = key)

variable (schemas : Schemas) (host : ByteOrder)

namespace Database

/-- One turn of the loop of findAsset for each unit of fuel; none if that is not enough. -/
def followDeprecated (db : Database) : Nat → Iterator → Option Record
  | fuel, iterator =>
    let deprecatedBy := (schemas.getFlatAsset iterator.value).deprecatedBy
    if deprecatedBy = 0 then some (some iterator)
    else
      match fuel with
      | 0 => none
      | fuel + 1 =>
        let assetKey := makeAssetKey host deprecatedBy
        let next : Iterator := db.seek assetKey
        if iteratorMatch next assetKey then followDeprecated db fuel next else some none

def findAsset (db : Database) (fuel : Nat) (key : UInt64) : Option Record :=
  let assetKey := makeAssetKey host key
  let iterator : Iterator := db.seek assetKey
  if iteratorMatch iterator assetKey then followDeprecated schemas host db fuel iterator
  else some none

def findNamedAsset (db : Database) (fuel : Nat) (name : List Byte) : Option Record :=
  let nameKey := kAssetNamePrefix ++ name
  let iterator : Iterator := db.seek nameKey
  if iteratorMatch iterator nameKey then
    db.findAsset schemas host fuel (host.read (iterator.value.take 8))
  else some none

/-- What storeAsset and storeList put for a name, if there is one. -/
def nameBatch (prefixed : List Byte) (name : Option (List Byte)) (key : UInt64) :
    List (List Byte × List Byte) :=
  match name with
  | none => []
  | some name => if name.length > 0 then [(prefixed ++ name, host.bytes key)] else []

/-- The ids are copied as they stand in the buffer, where the least significant byte is first. -/
def listBatch (lists : List UInt64) (timeStamp key : UInt64) : List (List Byte × List Byte) :=
  lists.map fun list =>
    (listEntryKey (ByteOrder.little.bytes list) (host.bytes timeStamp) (host.bytes key), [])

/-- None if the lists are absent, or more than there is room for in listKeys. -/
def storeAsset (db : Database) (now : UInt64) (key : UInt64) (assetData : List Byte) :
    Option Database :=
  let flatAsset := schemas.getFlatAsset assetData
  match flatAsset.lists with
  | none => none
  | some lists =>
    if lists.length ≤ kAssetMaxListEntries then
      let timeStamp := if lists.length = 0 then 0 else now
      some (db.write (nameBatch host kAssetNamePrefix flatAsset.name key ++
        (listBatch host lists timeStamp key ++ [(makeAssetKey host key, assetData)])))
    else none

def loadAssetDataChunk (db : Database) (key chunk : UInt64) : Record :=
  some (db.seek (makeAssetDataKey host key chunk))

def storeAssetDataChunk (db : Database) (key chunk : UInt64) (flatAssetData : List Byte) :
    Database :=
  db.put (makeAssetDataKey host key chunk) flatAssetData

def storeList (db : Database) (key : UInt64) (listEntry : List Byte) : Database :=
  let flatList := schemas.getFlatList listEntry
  db.write (nameBatch host kListNamePrefix flatList.name key ++
    [(listEntryKey (host.bytes key) (host.bytes kBeginList) (host.bytes kBeginList), []),
      (listEntryKey (host.bytes key) (host.bytes kEndList) (host.bytes kEndList), []),
      (makeListKey host key, listEntry)])

def loadList (db : Database) (key : UInt64) : Record := some (db.seek (makeListKey host key))

def findNamedList (db : Database) (name : List Byte) : Record :=
  let nameKey := kListNamePrefix ++ name
  let iterator : Iterator := db.seek nameKey
  if iteratorMatch iterator nameKey then db.loadList host (host.read (iterator.value.take 8))
  else none

/-- The token and the key that a list entry's key ends with. -/
def pairAt (key : List Byte) : UInt64 × UInt64 :=
  (host.read ((key.drop 9).take 8), host.read ((key.drop 17).take 8))

/-- The loop of getListNext. None if the iterator runs off the end of the store. -/
def listPairs (listStart : List Byte) : Nat → Iterator → Option (List (UInt64 × UInt64))
  | 0, _ => some []
  | room + 1, iterator =>
    match iterator.tail with
    | [] => none
    | entry :: rest =>
      if entry.1.length ≠ kListEntryKeySize ∨ entry.1.take 9 ≠ listStart then some []
      else (listPairs listStart room (entry :: rest)).map (pairAt host entry.1 :: ·)

/-- The number that is returned, and what listOut holds then. Zero is an error. -/
def getListNext (db : Database) (listKey fromToken : UInt64) (maxPairs : Nat) :
    Nat × List (UInt64 × UInt64) :=
  if fromToken = kEndList then (1, if maxPairs ≥ 1 then [(kEndList, kEndList)] else [])
  else
    let key := listEntryKey (host.bytes listKey) (host.bytes fromToken) (host.bytes kBeginList)
    match db.seek key with
    | [] => (0, [])
    | entry :: rest =>
      match listPairs host (key.take 9) maxPairs (entry :: rest) with
      | none => (0, [])
      | some pairs => (pairs.length, pairs)

end Database

section Flatbuffers
variable (buffer : List Byte)

def uintAt (width position : Nat) : Nat := ofLeBytes ((buffer.drop position).take width)

/-- Where a field of a table lies, if the table has it: a table starts with the distance back to
    its vtable, and that holds the size of itself and of the table and then the field offsets. -/
def fieldAt (table field : Nat) : Option Nat :=
  let vtable := ((table : Int) - Int.bmod (uintAt buffer 4 table) (2 ^ 32)).toNat
  if 4 + 2 * field < uintAt buffer 2 vtable then
    let offset := uintAt buffer 2 (vtable + 4 + 2 * field)
    if offset = 0 then none else some (table + offset)
  else none

def ulongField (table field : Nat) : UInt64 :=
  match fieldAt buffer table field with
  | none => 0
  | some position => UInt64.ofNat (uintAt buffer 8 position)

/-- Where a string or a vector that is a field of the table lies. Its length comes first. -/
def vectorAt (table field : Nat) : Option Nat :=
  (fieldAt buffer table field).map fun position => position + uintAt buffer 4 position

def bytesField (table field : Nat) : Option (List Byte) :=
  (vectorAt buffer table field).map fun start =>
    (buffer.drop (start + 4)).take (uintAt buffer 4 start)

def ulongsField (table field : Nat) : Option (List UInt64) :=
  (vectorAt buffer table field).map fun start =>
    (List.range (uintAt buffer 4 start)).map fun i =>
      UInt64.ofNat (uintAt buffer 8 (start + 4 + 8 * i))

def typeField (table field : Nat) : AssetType :=
  match (fieldAt buffer table field).map (uintAt buffer 4) with
  | some 2 => .kSnippet
  | some 3 => .kImage
  | some 4 => .kYAML
  | some 5 => .kSample
  | _ => .kInvalid

end Flatbuffers

/-- The accessors for a buffer that has been verified. -/
def flatbuffers : Schemas where
  getFlatAsset buffer :=
    let root := uintAt buffer 4 0
    { type := typeField buffer root 0
      key := ulongField buffer root 1
      name := bytesField buffer root 2
      fileExtension := bytesField buffer root 3
      author := ulongField buffer root 4
      deprecatedBy := ulongField buffer root 5
      deprecates := ulongField buffer root 6
      size := ulongField buffer root 7
      chunks := ulongField buffer root 8
      lists := ulongsField buffer root 9
      salt := ulongField buffer root 10
      inlineData := bytesField buffer root 11 }
  getFlatList buffer :=
    let root := uintAt buffer 4 0
    { key := ulongField buffer root 0
      name := bytesField buffer root 1 }

/-- A record with the name "ab" for list 7, and a list with that name. -/
def assetBuffer : List Byte :=
  [28, 0, 0, 0, 24, 0, 12, 0, 0, 0, 0, 0, 4, 0, 0, 0, 0, 0, 0, 0, 0, 0, 0, 0, 0, 0, 8, 0,
    24, 0, 0, 0, 8, 0, 0, 0, 16, 0, 0, 0, 2, 0, 0, 0, 97, 98, 0, 0, 0, 0, 0, 0,
    1, 0, 0, 0, 7, 0, 0, 0, 0, 0, 0, 0]

def listBuffer : List Byte :=
  [12, 0, 0, 0, 8, 0, 8, 0, 0, 0, 4, 0, 8, 0, 0, 0, 4, 0, 0, 0, 2, 0, 0, 0, 97, 98, 0, 0]

example : flatbuffers.getFlatAsset assetBuffer =
    { type := .kInvalid, key := 0, name := some [97, 98], fileExtension := none, author := 0
      deprecatedBy := 0, deprecates := 0, size := 0, chunks := 0, lists := some [7], salt := 0
      inlineData := none } := by decide +kernel

end Confab
