import SCLOrkTools.Confab.Asset
import SCLOrkTools.Confab.HttpEndpoint
import SCLOrkTools.Confab.OscHandler

/- The page that the client has for the base64 form of a record. The limits on data alone leave
   some of it for the other fields of the record, which have no limits. -/
namespace Confab
open ByteStrings Base64

def FlatAsset.bytes (r : FlatAsset) : Nat :=
  (r.name.getD []).length + (r.fileExtension.getD []).length + 8 * (r.lists.getD []).length +
    (r.inlineData.getD []).length

/-- flatbuffers: the buffer of a finished record has the bytes of its strings and vectors, and some
    more for its table, the lengths and padding. -/
structure Builder where
  asset : FlatAsset → List Byte
  overhead : FlatAsset → Nat
  length_asset : ∀ r, (asset r).length = r.bytes + overhead r
  overhead_small : ∀ r, overhead r ≤ 256
  assetData : FlatAssetData → List Byte
  length_assetData : ∀ r, (assetData r).length ≤ r.data.length + 64

structure InlineArgs where
  type : AssetType
  name : List Byte
  author : UInt64
  deprecates : UInt64
  listIds : List Byte
  inlineData : List Byte
  addressable : inlineData.length < 2 ^ 64

namespace InlineArgs

def size (args : InlineArgs) : UInt64 := UInt64.ofNat args.inlineData.length

def asset (args : InlineArgs) (key salt : UInt64) : Asset :=
  { Asset.new args.type with
    name := args.name
    author := args.author
    deprecates := args.deprecates
    salt := salt
    key := key
    size := args.size }.parseListIds args.listIds

def record (args : InlineArgs) (key salt : UInt64) : FlatAsset where
  type := args.type
  key := key
  name := field args.name
  fileExtension := none
  author := args.author
  deprecatedBy := 0
  deprecates := args.deprecates
  size := args.size
  chunks := 0
  lists := field (parseListIds args.listIds)
  salt := salt
  inlineData := some args.inlineData

end InlineArgs

/-- How far postInlineAsset comes: it is refused, it reads or writes out of bounds, its CHECK_LT
    fails, or it posts a body. -/
inductive InlinePost where
  | refused
  | outOfBounds
  | checkFailed
  | posted (key : UInt64) (body : List Byte)

section Posts
variable (codec : Codec) (builder : Builder) (XXH64 : UInt64 → List Byte → UInt64)

def postInlineAsset (args : InlineArgs) (salt : UInt64) : InlinePost :=
  if args.size.toNat > kSingleChunkDataSize then .refused
  else
    let key := XXH64 salt args.inlineData
    match (args.asset key salt).flatten (some args.inlineData) with
    | none => .outOfBounds
    | some record =>
      let base64 := codec.encode (builder.asset record)
      if base64.length > kPageSize then .outOfBounds
      else if base64.length < kPageSize then .posted key base64
      else .checkFailed

def chunkBody (record : FlatAssetData) : List Byte := codec.encode (builder.assetData record)

end Posts
section Budget
variable {codec : Codec} {builder : Builder} {XXH64 : UInt64 → List Byte → UInt64}
  {args : InlineArgs}

theorem encode_short_iff (data : List Byte) :
    (codec.encode data).length < kPageSize ↔ data.length ≤ 3069 := by
  rw [codec.length_encode]
  unfold kPageSize
  omega

theorem size_toNat (args : InlineArgs) : args.size.toNat = args.inlineData.length := by
  rw [InlineArgs.size, UInt64.toNat_ofNat_of_lt' args.addressable]

theorem flatten_record (key salt : UInt64) :
    (args.asset key salt).flatten (some args.inlineData) = some (args.record key salt) := by
  rw [flatten_eq]
  · rfl
  · intro data given
    cases given
    exact (size_toNat args).symm

theorem length_field {α : Type} (l : List α) : ((field l).getD []).length = l.length := by
  unfold field
  split
  · rename_i empty
    rw [empty]
    rfl
  · rfl

theorem record_bytes (key salt : UInt64) :
    (args.record key salt).bytes = args.name.length + 8 * (parseListIds args.listIds).length +
      args.inlineData.length := by
  simp [FlatAsset.bytes, InlineArgs.record, length_field]

theorem posted_iff (small : args.size.toNat ≤ kSingleChunkDataSize) (salt : UInt64) :
    (∃ key body, postInlineAsset codec builder XXH64 args salt = .posted key body) ↔
      args.name.length + 8 * (parseListIds args.listIds).length + args.inlineData.length +
        builder.overhead (args.record (XXH64 salt args.inlineData) salt) ≤ 3069 := by
  have short := @encode_short_iff codec
    (builder.asset (args.record (XXH64 salt args.inlineData) salt))
  rw [builder.length_asset, record_bytes] at short
  simp only [postInlineAsset, if_neg (Nat.not_lt_of_le small), flatten_record]
  rw [← short]
  split
  · rename_i long
    exact iff_of_false (fun ⟨_, _, posted⟩ => nomatch posted) (by omega)
  · split
    · rename_i fits
      exact iff_of_true ⟨_, _, rfl⟩ fits
    · rename_i full
      exact iff_of_false (fun ⟨_, _, posted⟩ => nomatch posted) full

/-- 2813 bytes of name, list ids and data always fit. -/
theorem posted_of_le (small : args.size.toNat ≤ kSingleChunkDataSize) (salt : UInt64)
    (few : args.name.length + 8 * (parseListIds args.listIds).length + args.inlineData.length ≤
      2813) : ∃ key body, postInlineAsset codec builder XXH64 args salt = .posted key body := by
  have overhead := builder.overhead_small (args.record (XXH64 salt args.inlineData) salt)
  exact (posted_iff small salt).mpr (by omega)

/-- More than 3069 never do. -/
theorem not_posted_of_lt (small : args.size.toNat ≤ kSingleChunkDataSize) (salt : UInt64)
    (many : 3069 < args.name.length + 8 * (parseListIds args.listIds).length +
      args.inlineData.length) (key : UInt64) (body : List Byte) :
    postInlineAsset codec builder XXH64 args salt ≠ .posted key body := by
  intro posted
  have fits := (posted_iff small salt).mp ⟨key, body, posted⟩
  omega

theorem chunk_short {hash : List Byte → UInt64} {s next : Sending} {record : FlatAssetData}
    (posts : s.turn hash = .posts record next) :
    (chunkBody codec builder record).length < kPageSize := by
  obtain ⟨-, length, -⟩ := turn_posts posts
  have overhead := builder.length_assetData record
  have unit : kDataChunkSize = 2877 := by decide
  rw [chunkBody, encode_short_iff]
  omega

/-- The base64 form of a record is shorter than a page exactly if the bytes of its name, its list
    ids and its data, and what flatbuffers adds to them, are at most 3069. That of a chunk
    always is. -/
theorem page_budget_iff (codec : Codec) (builder : Builder) (XXH64 : UInt64 → List Byte → UInt64)
    (args : InlineArgs) (salt : UInt64) (small : args.size.toNat ≤ kSingleChunkDataSize) :
    ((∃ key body, postInlineAsset codec builder XXH64 args salt = .posted key body) ∧
      ∀ (s next : Sending) record, s.turn (XXH64 0) = .posts record next →
        (chunkBody codec builder record).length < kPageSize) ↔
      args.name.length + 8 * (parseListIds args.listIds).length + args.inlineData.length +
        builder.overhead (args.record (XXH64 salt args.inlineData) salt) ≤ 3069 := by
  rw [← posted_iff small salt]
  exact and_iff_left fun s next record posts => chunk_short posts

end Budget

def greetingArgs : InlineArgs where
  type := .kSnippet
  name := [104, 105]
  author := 5
  deprecates := 0
  listIds := []
  inlineData := [72, 105]
  addressable := by decide

/-- XXH64 of the data with the seed 3. -/
def greetingKey : UInt64 := 0x79fefb1725912439

def greetingHash (seed : UInt64) (content : List Byte) : UInt64 :=
  if seed = 3 ∧ content = greetingArgs.inlineData then greetingKey else 0

def greetingBuffer : List Byte :=
  [32, 0, 0, 0, 28, 0, 56, 0, 52, 0, 40, 0, 28, 0, 0, 0, 16, 0, 0, 0, 0, 0, 32, 0, 0, 0, 0, 0, 8, 0,
    4, 0, 28, 0, 0, 0, 52, 0, 0, 0, 3, 0, 0, 0, 0, 0, 0, 0, 5, 0, 0, 0, 0, 0, 0, 0, 0, 0, 0, 0,
    36, 0, 0, 0, 2, 0, 0, 0, 0, 0, 0, 0, 57, 36, 145, 37, 23, 251, 254, 121, 0, 0, 0, 0, 2, 0, 0, 0,
    2, 0, 0, 0, 72, 105, 0, 0, 2, 0, 0, 0, 104, 105, 0, 0]

example : flatbuffers.getFlatAsset greetingBuffer = greetingArgs.record greetingKey 3 := by
  decide +kernel

/-- A builder of this record. Other records have their strings and vectors one after the other. -/
def greetingBuilder : Builder where
  asset r :=
    if r = greetingArgs.record greetingKey 3 then greetingBuffer else List.replicate r.bytes 0
  overhead r := if r = greetingArgs.record greetingKey 3 then 100 else 0
  length_asset r := by
    by_cases greeting : r = greetingArgs.record greetingKey 3
    · rw [if_pos greeting, if_pos greeting, greeting]
      decide
    · rw [if_neg greeting, if_neg greeting, List.length_replicate, Nat.add_zero]
  overhead_small r := by
    split
    · decide
    · decide
  assetData r := r.data
  length_assetData r := Nat.le_add_right _ _

theorem page_budget_iff_greeting :
    ((∃ key body, postInlineAsset Base64.codec greetingBuilder greetingHash greetingArgs 3 =
        .posted key body) ∧
      ∀ (s next : Sending) record, s.turn (greetingHash 0) = .posts record next →
        (chunkBody Base64.codec greetingBuilder record).length < kPageSize) ↔
      greetingArgs.name.length + 8 * (parseListIds greetingArgs.listIds).length +
        greetingArgs.inlineData.length +
          greetingBuilder.overhead (greetingArgs.record greetingKey 3) ≤ 3069 :=
  page_budget_iff Base64.codec greetingBuilder greetingHash greetingArgs 3 (by decide)

def wordyArgs : InlineArgs where
  type := .kSnippet
  name := List.replicate 769 97
  author := 0
  deprecates := 0
  listIds := []
  inlineData := List.replicate 2301 97
  addressable := by
    rw [List.length_replicate]
    decide

/-- It does not fit, whatever flatbuffers adds and the salt is. -/
theorem wordy_overruns : wordyArgs.size.toNat ≤ kSingleChunkDataSize ∧
    ∀ codec builder XXH64 salt key body,
      postInlineAsset codec builder XXH64 wordyArgs salt ≠ .posted key body := by
  have small : wordyArgs.size.toNat ≤ kSingleChunkDataSize := by decide +kernel
  have name : wordyArgs.name.length = 769 := List.length_replicate
  have data : wordyArgs.inlineData.length = 2301 := List.length_replicate
  refine ⟨small, fun codec builder XXH64 salt => not_posted_of_lt small salt ?_⟩
  omega

end Confab
