import SCLOrkTools.Confab.CacheManager
import SCLOrkTools.Confab.Lookups

/- The commands that SuperCollider sends to add and to find assets, on their way through the
   client to the server and back. What is posted arrives, and a find is answered by the server:
   the client's own database does not have the asset. -/
namespace Confab
open OrderedStores ByteStrings GuardedRun

/-- A string of an OSC message ends at its first zero byte. -/
structure OscString where
  bytes : List Byte
  ended : cString bytes = bytes

theorem cString_cString (s : List Byte) : cString (cString s) = cString s :=
  List.takeWhile_idem

/-- What c_str gives for a std::string. -/
def OscString.ofBytes (s : List Byte) : OscString := ⟨cString s, cString_cString s⟩

def ascii (text : String) : OscString := .ofBytes (text.toList.map fun c => Fin.ofNat 256 c.toNat)

inductive OscArgument where
  | int32 (value : Int)
  | string (s : OscString)
  | blob (data : List Byte)
  | other

def typeStringToEnum (assetType : List Byte) : AssetType :=
  if assetType = (ascii "snippet").bytes then .kSnippet
  else if assetType = (ascii "image").bytes then .kImage
  else if assetType = (ascii "yaml").bytes then .kYAML
  else if assetType = (ascii "sample").bytes then .kSample
  else .kInvalid

def enumToTypeString : AssetType → List Byte
  | .kSnippet => (ascii "snippet").bytes
  | .kImage => (ascii "image").bytes
  | .kYAML => (ascii "yaml").bytes
  | .kSample => (ascii "sample").bytes
  | .kInvalid => (ascii "invalid").bytes

/-- What the listener hands to addAssetFile or addAssetString. `content` is the path of the file
    or the string itself. -/
structure AddAsset where
  type : AssetType
  serialNumber : Int
  name : OscString
  author : UInt64
  deprecates : UInt64
  listIds : OscString
  content : OscString

/-- None if the arguments do not parse or the type is not valid. The key that is parsed from
    deprecatesString goes to a variable of the inner block, which ends there. -/
def assetAddFile : List OscArgument → Option AddAsset
  | [.int32 serialNumber, .string typeString, .string name, .string authorString,
      .string deprecatesString, .string listIds, .string filePath] =>
    let author := if authorString.bytes.length > 0 then stringToKey authorString.bytes else 0
    let deprecates : UInt64 := 0
    let _deprecats := if deprecatesString.bytes.length > 0 then
      stringToKey deprecatesString.bytes else 0
    let type := typeStringToEnum typeString.bytes
    if type = .kInvalid then none
    else some ⟨type, serialNumber, name, author, deprecates, listIds, filePath⟩
  | _ => none

def assetAddString : List OscArgument → Option AddAsset
  | [.int32 serialNumber, .string typeString, .string name, .string authorString,
      .string deprecatesString, .string listIds, .string assetString] =>
    let author := if authorString.bytes.length > 0 then stringToKey authorString.bytes else 0
    let deprecates := if deprecatesString.bytes.length > 0 then
      stringToKey deprecatesString.bytes else 0
    let type := typeStringToEnum typeString.bytes
    if type = .kInvalid then none
    else some ⟨type, serialNumber, name, author, deprecates, listIds, assetString⟩
  | _ => none

def assetFind : List OscArgument → Option UInt64
  | [.string assetIdString] =>
    let assetKey := stringToKey assetIdString.bytes
    if assetKey = 0 then none else some assetKey
  | _ => none

def kSingleChunkDataSize : Nat := 3 * (((3 * 1024) / 4) - 1)

def AddAsset.fileArgs (c : AddAsset) : FileArgs where
  type := c.type
  name := c.name.bytes
  author := c.author
  deprecates := c.deprecates
  listIds := parseListIds c.listIds.bytes
  extension := (stemExtension c.content.bytes).2

def AddAsset.inlineAsset (c : AddAsset) (key salt : UInt64) : FlatAsset where
  type := c.type
  key := key
  name := field c.name.bytes
  fileExtension := none
  author := c.author
  deprecatedBy := 0
  deprecates := c.deprecates
  size := UInt64.ofNat c.content.bytes.length
  chunks := 0
  lists := field (parseListIds c.listIds.bytes)
  salt := salt
  inlineData := some c.content.bytes

inductive AddCommand where
  | assetAddFile (arguments : List OscArgument)
  | assetAddString (arguments : List OscArgument)

def AddCommand.arguments : AddCommand → List OscArgument
  | assetAddFile arguments | assetAddString arguments => arguments

/-- The key and the record that a command posts. `XXH64` hashes a string from a seed, and a file
    has the size and the content that it is found with. -/
inductive Posts (XXH64 : UInt64 → List Byte → UInt64) : AddCommand → UInt64 → FlatAsset → Prop
  | file {arguments : List OscArgument} {c : AddAsset} {fileSize : Nat}
      {content : Option (List Byte)} {key : UInt64} (parsed : assetAddFile arguments = some c)
      (hashed : hashFile (XXH64 0) fileSize content = some key) :
      Posts XXH64 (.assetAddFile arguments) key (c.fileArgs.asset key fileSize)
  | inline {arguments : List OscArgument} {c : AddAsset} {salt : UInt64}
      (parsed : assetAddString arguments = some c)
      (small : c.content.bytes.length ≤ kSingleChunkDataSize) :
      Posts XXH64 (.assetAddString arguments) (XXH64 salt c.content.bytes)
        (c.inlineAsset (XXH64 salt c.content.bytes) salt)

def kFound : OscString := ascii "/assetFound"

def foundArguments (requested : List Byte) (asset : FlatAsset) (name : List Byte) :
    List OscArgument :=
  [.string (.ofBytes requested), .string (.ofBytes (keyToString asset.key)),
    .string (.ofBytes (enumToTypeString asset.type)), .string (.ofBytes name),
    .string (.ofBytes (keyToString asset.author)),
    .string (.ofBytes (keyToString asset.deprecatedBy)),
    .string (.ofBytes (keyToString asset.deprecates)), .blob (asset.inlineData.getD [])]

section Find
variable (packs : Nat → OscString → List OscArgument → Bool)

/-- None if the name is absent, since its c_str is read anyway, or if the packet stream throws:
    `packs` tells what fits into a stream of some capacity. -/
def sendAsset (requested : List Byte) (asset : FlatAsset) : Option (List OscArgument) :=
  asset.name.bind fun name =>
    let arguments := foundArguments requested asset name
    if packs kDataChunkSize kFound arguments then some arguments else none

def getAsset (schemas : Schemas) (host : ByteOrder) (db : Database) (fuel : Nat)
    (keyString : List Byte) : Option Record :=
  db.findAsset schemas host fuel (stringToKey keyString)

def findAsset (schemas : Schemas) (host : ByteOrder) (db : Database) (fuel : Nat)
    (arguments : List OscArgument) : Option (List OscArgument) :=
  (assetFind arguments).bind fun assetKey =>
    (getAsset schemas host db fuel (keyToString assetKey)).bind fun record =>
      record.data.bind fun data =>
        sendAsset packs (keyToString assetKey) (schemas.getFlatAsset data)

end Find

theorem oscString_ext {s t : OscString} (bytes : s.bytes = t.bytes) : s = t := by
  cases s
  cases t
  cases bytes
  rfl

theorem ofBytes_bytes (s : OscString) : OscString.ofBytes s.bytes = s := oscString_ext s.ended

theorem ofBytes_key (key : UInt64) :
    stringToKey (OscString.ofBytes (keyToString key)).bytes = key := by
  change stringToKey (cString (keyToString key)) = key
  rw [cString_keyToString, stringToKey_keyToString]

theorem enum_typeString {t : List Byte} (valid : typeStringToEnum t ≠ .kInvalid) :
    enumToTypeString (typeStringToEnum t) = t := by
  unfold typeStringToEnum at valid ⊢
  by_cases snippet : t = (ascii "snippet").bytes
  · rw [if_pos snippet, snippet]
    rfl
  · rw [if_neg snippet] at valid ⊢
    by_cases image : t = (ascii "image").bytes
    · rw [if_pos image, image]
      rfl
    · rw [if_neg image] at valid ⊢
      by_cases yaml : t = (ascii "yaml").bytes
      · rw [if_pos yaml, yaml]
        rfl
      · rw [if_neg yaml] at valid ⊢
        by_cases sample : t = (ascii "sample").bytes
        · rw [if_pos sample, sample]
          rfl
        · exact absurd (if_neg sample) valid

theorem typeString_enum {s : OscString} (valid : typeStringToEnum s.bytes ≠ .kInvalid) :
    OscString.ofBytes (enumToTypeString (typeStringToEnum s.bytes)) = s := by
  rw [enum_typeString valid, ofBytes_bytes]

theorem parsed_key (s : OscString) :
    (if s.bytes.length > 0 then stringToKey s.bytes else 0) = stringToKey s.bytes := by
  split
  · rfl
  · rename_i empty
    have nothing : s.bytes = [] := List.eq_nil_of_length_eq_zero (by omega)
    rw [nothing]
    rfl

section Parsing
variable {arguments : List OscArgument} {c : AddAsset}

/-- What a command that parses has for its arguments, and what is made of them but for the key
    of the asset it deprecates. -/
structure Parsed (arguments : List OscArgument) (c : AddAsset)
    (typeString authorString deprecatesString : OscString) : Prop where
  arguments : arguments = [.int32 c.serialNumber, .string typeString, .string c.name,
    .string authorString, .string deprecatesString, .string c.listIds, .string c.content]
  valid : typeStringToEnum typeString.bytes ≠ .kInvalid
  type : c.type = typeStringToEnum typeString.bytes
  author : c.author = stringToKey authorString.bytes

theorem addFile_parsed (parsed : assetAddFile arguments = some c) :
    ∃ typeString authorString deprecatesString,
      Parsed arguments c typeString authorString deprecatesString ∧ c.deprecates = 0 := by
  unfold assetAddFile at parsed
  split at parsed
  · dsimp only at parsed
    split at parsed
    · cases parsed
    · rename_i valid
      cases parsed
      exact ⟨_, _, _, ⟨rfl, valid, rfl, parsed_key _⟩, rfl⟩
  · cases parsed

theorem addString_parsed (parsed : assetAddString arguments = some c) :
    ∃ typeString authorString deprecatesString,
      Parsed arguments c typeString authorString deprecatesString ∧
        c.deprecates = stringToKey deprecatesString.bytes := by
  unfold assetAddString at parsed
  split at parsed
  · dsimp only at parsed
    split at parsed
    · cases parsed
    · rename_i valid
      cases parsed
      exact ⟨_, _, _, ⟨rfl, valid, rfl, parsed_key _⟩, parsed_key _⟩
  · cases parsed

end Parsing

def DeprecatesNothing : List OscArgument → Prop
  | [.int32 _, .string typeString, .string _, .string _, .string deprecatesString, .string _,
      .string _] =>
    typeStringToEnum typeString.bytes ≠ .kInvalid → stringToKey deprecatesString.bytes = 0
  | _ => True

/-- The listener treats two commands with the same arguments in the same way. -/
theorem same_treatment_iff (arguments : List OscArgument) :
    assetAddFile arguments = assetAddString arguments ↔ DeprecatesNothing arguments := by
  unfold assetAddFile assetAddString DeprecatesNothing
  split
  · dsimp only
    split
    · rename_i invalid
      exact iff_of_true rfl fun valid => absurd invalid valid
    · rename_i valid
      rw [parsed_key, parsed_key]
      simp only [Option.some.injEq, AddAsset.mk.injEq, true_and, and_true]
      exact ⟨fun same _ => same.symm, fun none => (none valid).symm⟩
  · exact iff_of_true rfl trivial

end Confab
