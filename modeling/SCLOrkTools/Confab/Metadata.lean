import SCLOrkTools.Confab.OscHandler

/- What an add command says about an asset, as a later find reports it. -/
namespace Confab
open OrderedStores ByteStrings GuardedRun

/-- The server has stored the record that the command posts under the key, and none under that
    key since. -/
structure Added (XXH64 : UInt64 → List Byte → UInt64) (schemas : Schemas) (host : ByteOrder)
    (command : AddCommand) (key : UInt64) (asset : FlatAsset) (db : Database) : Prop where
  nonzero : key ≠ 0
  posts : Posts XXH64 command key asset
  stored : ∃ before now record later,
    run (Database.call schemas host) Store.empty
      (before ++ .storeAsset now key record :: later) = some db ∧
    schemas.getFlatAsset record = asset ∧ ∀ call ∈ later, call.asset key = none

/-- The type and the name as the command had them, and strings that spell the same keys. -/
def Reports : List OscArgument → List OscArgument → Prop
  | [_, .string typeString, .string name, .string author, .string deprecates, _, _],
    [_, _, .string type, .string reported, .string author', _, .string deprecates', _] =>
    type = typeString ∧ reported = name ∧ stringToKey author'.bytes = stringToKey author.bytes ∧
      stringToKey deprecates'.bytes = stringToKey deprecates.bytes
  | _, _ => False

def Named : List OscArgument → Prop
  | [_, _, .string name, _, _, _, _] => name.bytes ≠ []
  | _ => True

def AddCommand.isFile : AddCommand → Prop
  | assetAddFile _ => True
  | assetAddString _ => False

/-- The asset has a name, its report fits into the packet, and a file deprecates nothing. -/
structure Reportable (packs : Nat → OscString → List OscArgument → Bool) (command : AddCommand)
    (key : UInt64) (asset : FlatAsset) : Prop where
  named : Named command.arguments
  packs : packs kDataChunkSize kFound
    (foundArguments (keyToString key) asset (asset.name.getD [])) = true
  deprecates : command.isFile → DeprecatesNothing command.arguments

section Posted
variable {XXH64 : UInt64 → List Byte → UInt64} {command : AddCommand} {key : UInt64}
  {asset : FlatAsset}

theorem posts_record (posts : Posts XXH64 command key asset) :
    ∃ c typeString authorString deprecatesString,
      Parsed command.arguments c typeString authorString deprecatesString ∧
      asset.type = c.type ∧ asset.name = field c.name.bytes ∧ asset.author = c.author ∧
      asset.deprecatedBy = 0 ∧ asset.deprecates = c.deprecates ∧
      (command.isFile → c.deprecates = 0) ∧
      (¬ command.isFile → c.deprecates = stringToKey deprecatesString.bytes) := by
  cases posts with
  | file parsed =>
    obtain ⟨typeString, authorString, deprecatesString, shape, none⟩ := addFile_parsed parsed
    exact ⟨_, _, _, _, shape, rfl, rfl, rfl, rfl, rfl, fun _ => none, fun no => absurd trivial no⟩
  | inline parsed =>
    obtain ⟨typeString, authorString, deprecatesString, shape, given⟩ := addString_parsed parsed
    exact ⟨_, _, _, _, shape, rfl, rfl, rfl, rfl, rfl, fun no => no.elim, fun _ => given⟩

end Posted
section Found
variable {XXH64 : UInt64 → List Byte → UInt64} {schemas : Schemas} {host : ByteOrder}
  {packs : Nat → OscString → List OscArgument → Bool} {command : AddCommand} {key : UInt64}
  {asset : FlatAsset} {db : Database}

theorem last_none {α : Type} {what : Call → Option α} {later : List Call}
    (other : ∀ call ∈ later, what call = none) (calls : List Call) :
    last what (calls ++ later) = last what calls := by
  unfold last
  rw [List.filterMap_append, List.filterMap_eq_nil_iff.mpr other, List.append_nil]

theorem found_record (added : Added XXH64 schemas host command key asset db) (fuel : Nat) :
    findAsset packs schemas host db fuel [.string (.ofBytes (keyToString key))] =
      sendAsset packs (keyToString key) asset := by
  obtain ⟨before, now, record, later, ran, read, kept⟩ := added.stored
  obtain ⟨c, -, -, -, -, -, -, -, current, -⟩ := posts_record added.posts
  have stored : db.get (makeAssetKey host key) = some record := by
    rw [asset_run ran key, ← List.singleton_append, ← List.append_assoc, last_none kept,
      last_snoc]
    simp [Call.asset]
  rw [← read] at current
  have parsed : assetFind [.string (.ofBytes (keyToString key))] = some key := by
    simp only [assetFind, ofBytes_key]
    rw [if_neg added.nonzero]
  unfold findAsset getAsset
  rw [parsed, Option.bind_some, stringToKey_keyToString, findAsset_current stored current fuel,
    Option.bind_some, at_data (seek_at stored), Option.bind_some, read]

theorem sendAsset_reports (posts : Posts XXH64 command key asset) :
    (∃ message, sendAsset packs (keyToString key) asset = some message ∧
      Reports command.arguments message) ↔ Reportable packs command key asset := by
  obtain ⟨c, typeString, authorString, deprecatesString, ⟨arguments, valid, type, author⟩,
    types, names, authors, -, deprecates, file, string⟩ := posts_record posts
  have spelled : (stringToKey deprecatesString.bytes = c.deprecates) ↔
      (command.isFile → DeprecatesNothing command.arguments) := by
    rw [arguments]
    by_cases isFile : command.isFile
    · rw [file isFile]
      exact ⟨fun none _ _ => none, fun none => none isFile valid⟩
    · exact iff_of_true (string isFile).symm fun yes => absurd yes isFile
  have reports :
      Reports command.arguments (foundArguments (keyToString key) asset c.name.bytes) ↔
        stringToKey deprecatesString.bytes = c.deprecates := by
    rw [arguments]
    simp only [Reports, foundArguments, types, type, typeString_enum valid, ofBytes_bytes,
      ofBytes_key, authors, author, deprecates, true_and]
    exact eq_comm
  unfold sendAsset
  rw [names]
  by_cases named : c.name.bytes = []
  · refine iff_of_false ?_ ?_
    · rintro ⟨message, sent, -⟩
      simp [field, named] at sent
    · intro reportable
      have := reportable.named
      rw [arguments] at this
      exact this named
  · have present : field c.name.bytes = some c.name.bytes := if_neg named
    rw [present, Option.bind_some]
    constructor
    · rintro ⟨message, sent, reported⟩
      dsimp only at sent
      split at sent
      · rename_i fits
        cases sent
        refine ⟨by rw [arguments]; exact named, ?_, spelled.mp (reports.mp reported)⟩
        rw [names, present]
        exact fits
      · cases sent
    · rintro ⟨-, fits, nothing⟩
      rw [names, present] at fits
      exact ⟨_, if_pos fits, reports.mpr (spelled.mpr nothing)⟩

end Found

/-- For every asset that has been added, and for every list of arguments. -/
theorem metadata_iff (packs : Nat → OscString → List OscArgument → Bool) :
    (∀ (XXH64 : UInt64 → List Byte → UInt64) (schemas : Schemas) (host : ByteOrder)
      (command : AddCommand) (key : UInt64) (asset : FlatAsset) (db : Database),
      Added XXH64 schemas host command key asset db → ∀ fuel,
        ((∃ message, findAsset packs schemas host db fuel
            [.string (.ofBytes (keyToString key))] = some message ∧
          Reports command.arguments message) ↔ Reportable packs command key asset)) ∧
    ∀ arguments, assetAddFile arguments = assetAddString arguments ↔
      DeprecatesNothing arguments := by
  refine ⟨?_, same_treatment_iff⟩
  intro XXH64 schemas host command key asset db added fuel
  rw [found_record added fuel]
  exact sendAsset_reports added.posts

/-- A snippet "x" named "ab" with author 5, for list 7, that deprecates 9. The packet stream takes
    everything, and the hash is that of "x" from the seed 3. -/
def snippetBuffer : List Byte :=
  [32, 0, 0, 0, 28, 0, 60, 0, 4, 0, 8, 0, 48, 0, 0, 0, 16, 0, 0, 0, 24, 0, 32, 0, 0, 0, 52, 0,
    40, 0, 56, 0, 28, 0, 0, 0, 2, 0, 0, 0, 212, 173, 77, 83, 169, 173, 115, 47, 5, 0, 0, 0, 0, 0,
    0, 0, 9, 0, 0, 0, 0, 0, 0, 0, 1, 0, 0, 0, 0, 0, 0, 0, 3, 0, 0, 0, 0, 0, 0, 0, 12, 0, 0, 0,
    16, 0, 0, 0, 24, 0, 0, 0, 2, 0, 0, 0, 97, 98, 0, 0, 1, 0, 0, 0, 7, 0, 0, 0, 0, 0, 0, 0,
    1, 0, 0, 0, 120, 0, 0, 0]

def addSnippet : AddCommand := .assetAddString
  [.int32 1, .string (ascii "snippet"), .string (ascii "ab"), .string (ascii "5"),
    .string (ascii "9"), .string (ascii "7"), .string (ascii "x")]

def snippet : FlatAsset where
  type := .kSnippet
  key := 0x2f73ada9534dadd4
  name := some [97, 98]
  fileExtension := none
  author := 5
  deprecatedBy := 0
  deprecates := 9
  size := 1
  chunks := 0
  lists := some [7]
  salt := 3
  inlineData := some [120]

theorem metadata_snippet : ∃ db,
    ((∃ message, findAsset (fun _ _ _ => true) flatbuffers .little db 0
        [.string (.ofBytes (keyToString 0x2f73ada9534dadd4))] = some message ∧
      Reports addSnippet.arguments message) ↔
        Reportable (fun _ _ _ => true) addSnippet 0x2f73ada9534dadd4 snippet) := by
  have stores : (run (Database.call flatbuffers .little) Store.empty
      [.storeAsset 1500 0x2f73ada9534dadd4 snippetBuffer]).isSome := by decide +kernel
  obtain ⟨db, ran⟩ := Option.isSome_iff_exists.mp stores
  have posts : Posts (fun _ _ => 0x2f73ada9534dadd4) addSnippet 0x2f73ada9534dadd4 snippet :=
    .inline (c := ⟨.kSnippet, 1, ascii "ab", 5, 9, ascii "7", ascii "x"⟩) rfl
      (by decide)
  have read : flatbuffers.getFlatAsset snippetBuffer = snippet := by decide +kernel
  exact ⟨db, (metadata_iff fun _ _ _ => true).1 (fun _ _ => 0x2f73ada9534dadd4) flatbuffers .little
    addSnippet _ snippet db ⟨by decide, posts, [], 1500, snippetBuffer, [], ran, read, by simp⟩ 0⟩

def addImage : AddCommand := .assetAddFile
  [.int32 2, .string (ascii "image"), .string (ascii "ab"), .string (ascii ""),
    .string (ascii "9"), .string (ascii "7"), .string (ascii "a.p")]

def namedImageBuffer : List Byte :=
  [32, 0, 0, 0, 28, 0, 44, 0, 4, 0, 8, 0, 32, 0, 36, 0, 0, 0, 0, 0, 0, 0, 16, 0, 24, 0, 40, 0,
    0, 0, 0, 0, 28, 0, 0, 0, 3, 0, 0, 0, 91, 110, 140, 169, 241, 196, 78, 210, 1, 0, 0, 0, 0, 0,
    0, 0, 1, 0, 0, 0, 0, 0, 0, 0, 12, 0, 0, 0, 16, 0, 0, 0, 20, 0, 0, 0, 2, 0, 0, 0, 97, 98, 0, 0,
    2, 0, 0, 0, 46, 112, 0, 0, 1, 0, 0, 0, 7, 0, 0, 0, 0, 0, 0, 0]

theorem deprecates_is_lost :
    (∃ asset db, Added (fun _ _ => 0xd24ec4f1a98c6e5b) flatbuffers .little addImage
        0xd24ec4f1a98c6e5b asset db ∧
      ¬ ∃ message, findAsset (fun _ _ _ => true) flatbuffers .little db 0
          [.string (.ofBytes (keyToString 0xd24ec4f1a98c6e5b))] = some message ∧
        Reports addImage.arguments message) ∧
    assetAddFile addImage.arguments ≠ assetAddString addImage.arguments := by
  have spells : ¬ DeprecatesNothing addImage.arguments := fun none =>
    absurd (none (by decide)) (by decide)
  refine ⟨?_, fun same => spells ((same_treatment_iff _).mp same)⟩
  have stores : (run (Database.call flatbuffers .little) Store.empty
      [.storeAsset 1500 0xd24ec4f1a98c6e5b namedImageBuffer]).isSome := by decide +kernel
  obtain ⟨db, ran⟩ := Option.isSome_iff_exists.mp stores
  let c : AddAsset := ⟨.kImage, 2, ascii "ab", 0, 0, ascii "7", ascii "a.p"⟩
  have hashed : hashFile (fun _ => 0xd24ec4f1a98c6e5b) 1 (some [97]) =
      some 0xd24ec4f1a98c6e5b := by decide
  have posts : Posts (fun _ _ => 0xd24ec4f1a98c6e5b) addImage 0xd24ec4f1a98c6e5b
      (c.fileArgs.asset 0xd24ec4f1a98c6e5b 1) := .file rfl hashed
  have read : flatbuffers.getFlatAsset namedImageBuffer =
      c.fileArgs.asset 0xd24ec4f1a98c6e5b 1 := by decide +kernel
  have added : Added (fun _ _ => 0xd24ec4f1a98c6e5b) flatbuffers .little addImage
      0xd24ec4f1a98c6e5b (c.fileArgs.asset 0xd24ec4f1a98c6e5b 1) db :=
    ⟨by decide, posts, [], 1500, namedImageBuffer, [], ran, read, by simp⟩
  refine ⟨_, db, added, ?_⟩
  rw [found_record added 0, sendAsset_reports posts]
  exact fun reportable => spells (reportable.deprecates trivial)

end Confab
