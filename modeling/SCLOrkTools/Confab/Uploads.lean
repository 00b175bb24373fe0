import SCLOrkTools.Confab.HttpClient
import SCLOrkTools.Confab.Lookups

/- Uploads of files to one server, each of which posts when it gets to it and may stop anywhere.
   A file that changes may give other bytes each time it is read. What is posted arrives, and
   what is answered with an error has not been stored. -/
namespace Confab
open OrderedStores ByteStrings GuardedRun

structure FileAsset (schemas : Schemas) where
  args : FileArgs
  fileSize : Nat
  small : fileSize < 2 ^ 64
  key : UInt64
  record : List Byte
  flattened : schemas.getFlatAsset record = args.asset key fileSize

inductive Status where
  | running
  | returned (key : UInt64)
  | stopped
  deriving DecidableEq

/-- `sending` are the variables of the second loop, once the record has been stored. -/
structure Upload (schemas : Schemas) where
  asset : FileAsset schemas
  sending : Option Sending
  status : Status

def Upload.chunks {schemas : Schemas} (u : Upload schemas) : Nat :=
  match u.sending with
  | none => 0
  | some s => s.chunk

/-- `ok` is the answer to a POST, and `inFile` what the stream has to deliver when it is read. -/
inductive Act (schemas : Schemas) where
  | begins (asset : FileAsset schemas) (content : Option (List Byte))
  | postAsset (now : UInt64) (ok : Bool)
  | postChunk (inFile : IfStream) (ok : Bool)
  | stops

inductive Event (schemas : Schemas) (ι : Type) where
  | upload (i : ι) (act : Act schemas)
  | postList (key : UInt64) (listEntry : List Byte)

structure World (schemas : Schemas) (ι : Type) where
  db : Database
  uploads : ι → Option (Upload schemas)

def World.initial {schemas : Schemas} {ι : Type} : World schemas ι := ⟨Store.empty, fun _ => none⟩

section Steps
variable {schemas : Schemas} {ι : Type} [DecidableEq ι]
variable (host : ByteOrder) (XXH64 : List Byte → UInt64) (flattenData : FlatAssetData → List Byte)

def Upload.act (db : Database) :
    Option (Upload schemas) → Act schemas → Option (Database × Upload schemas)
  | none, .begins asset content =>
    match hashFile XXH64 asset.fileSize content with
    | none => some (db, ⟨asset, none, .returned 0⟩)
    | some key => if key = asset.key then some (db, ⟨asset, none, .running⟩) else none
  | some ⟨asset, none, .running⟩, .postAsset now ok =>
    if ok then
      (db.storeAsset schemas host now asset.key asset.record).map fun db =>
        (db, ⟨asset, some (Sending.start asset.fileSize []), .running⟩)
    else some (db, ⟨asset, none, .returned 0⟩)
  | some ⟨asset, some s, .running⟩, .postChunk inFile ok =>
    match Sending.turn XXH64 { s with inFile := inFile } with
    | .ends => some (db, ⟨asset, some s, .returned (s.result asset.key)⟩)
    | .short => some (db, ⟨asset, some s, .returned 0⟩)
    | .posts record next =>
      if ok then
        some (db.storeAssetDataChunk host asset.key (UInt64.ofNat s.chunk) (flattenData record),
          ⟨asset, some next, .running⟩)
      else some (db, ⟨asset, some s, .returned 0⟩)
  | some ⟨asset, sending, .running⟩, .stops => some (db, ⟨asset, sending, .stopped⟩)
  | _, _ => none

def World.step (w : World schemas ι) : Event schemas ι → Option (World schemas ι)
  | .upload i act =>
    (Upload.act host XXH64 flattenData w.db (w.uploads i) act).map fun next =>
      ⟨next.1, Function.update w.uploads i (some next.2)⟩
  | .postList key listEntry => some { w with db := w.db.storeList schemas host key listEntry }

end Steps
section Sound
variable {schemas : Schemas}

/-- An upload that returns a key has sent all of its file. -/
structure Upload.Sound (u : Upload schemas) : Prop where
  remaining : ∀ s, u.sending = some s →
    s.bytesRemaining = u.asset.fileSize - s.chunk * kDataChunkSize
  within : ∀ j < u.chunks, j * kDataChunkSize < u.asset.fileSize
  returned : ∀ key, u.status = .returned key → key ≠ 0 →
    key = u.asset.key ∧ u.asset.fileSize ≤ u.chunks * kDataChunkSize

/-- What has been stored for an upload stays as it was. -/
def Upload.Keeps (u : Upload schemas) : Option (Upload schemas) → Prop
  | none => u.sending = none
  | some old => u.asset = old.asset ∧ u.sending = old.sending

inductive Upload.Did (host : ByteOrder) (db : Database) (before : Option (Upload schemas)) :
    Database → Upload schemas → Prop where
  | waited {u : Upload schemas} (keeps : u.Keeps before) : Did host db before db u
  | posted {asset : FileAsset schemas} {s : Sending} {now : UInt64} {next : Database}
      (found : before = some ⟨asset, none, .running⟩) (first : s.chunk = 0)
      (stored : db.storeAsset schemas host now asset.key asset.record = some next) :
      Did host db before next ⟨asset, some s, .running⟩
  | sent {asset : FileAsset schemas} {s next : Sending} {data : List Byte}
      (found : before = some ⟨asset, some s, .running⟩) (counted : next.chunk = s.chunk + 1) :
      Did host db before
        (db.storeAssetDataChunk host asset.key (UInt64.ofNat s.chunk) data)
        ⟨asset, some next, .running⟩

theorem sound_fresh (asset : FileAsset schemas) {status : Status}
    (nothing : ∀ key, status = .returned key → key = 0) :
    Upload.Sound ⟨asset, none, status⟩ := by
  constructor
  · intro s started
    cases started
  · intro j before
    cases before
  · intro key returned nonzero
    exact absurd (nothing key returned) nonzero

theorem sound_ended {u : Upload schemas} (sound : u.Sound) {status : Status}
    (nothing : ∀ key, status = .returned key → key = 0) :
    Upload.Sound ⟨u.asset, u.sending, status⟩ := by
  constructor
  · exact sound.remaining
  · exact sound.within
  · intro key returned nonzero
    exact absurd (nothing key returned) nonzero

theorem sound_started (asset : FileAsset schemas) :
    Upload.Sound ⟨asset, some (Sending.start asset.fileSize []), .running⟩ := by
  constructor
  · intro s started
    cases started
    simp [Sending.start]
  · intro j before
    cases before
  · intro key returned
    cases returned

theorem sound_sent {XXH64 : List Byte → UInt64} {asset : FileAsset schemas} {s next : Sending}
    {inFile : IfStream} {record : FlatAssetData} (sound : Upload.Sound ⟨asset, some s, .running⟩)
    (turn : Sending.turn XXH64 { s with inFile := inFile } = .posts record next) :
    next.chunk = s.chunk + 1 ∧ Upload.Sound ⟨asset, some next, .running⟩ := by
  obtain ⟨more, length, -, -, left, counted, -⟩ := turn_posts turn
  have remaining := sound.remaining s rfl
  change 0 < s.bytesRemaining at more
  change record.data.length = min kDataChunkSize s.bytesRemaining at length
  change next.bytesRemaining = s.bytesRemaining - record.data.length at left
  change next.chunk = s.chunk + 1 at counted
  change s.bytesRemaining = asset.fileSize - s.chunk * kDataChunkSize at remaining
  refine ⟨counted, ?_, ?_, ?_⟩
  · intro t started
    cases started
    change next.bytesRemaining = asset.fileSize - next.chunk * kDataChunkSize
    rw [counted, Nat.succ_mul]
    omega
  · intro j before
    change j < next.chunk at before
    rcases Nat.lt_or_ge j s.chunk with earlier | last
    · exact sound.within j earlier
    · have here : j = s.chunk := by omega
      subst here
      change s.chunk * kDataChunkSize < asset.fileSize
      omega
  · intro key returned
    cases returned

theorem sound_returned {asset : FileAsset schemas} {s : Sending}
    (sound : Upload.Sound ⟨asset, some s, .running⟩) :
    Upload.Sound ⟨asset, some s, .returned (s.result asset.key)⟩ := by
  constructor
  · exact sound.remaining
  · exact sound.within
  · intro key returned nonzero
    cases returned
    have remaining := sound.remaining s rfl
    unfold Sending.result at nonzero ⊢
    split at nonzero
    · exact absurd rfl nonzero
    · rename_i whole
      rw [if_neg whole]
      obtain ⟨all, -⟩ := not_or.mp whole
      change s.bytesRemaining = asset.fileSize - s.chunk * kDataChunkSize at remaining
      change asset.key = asset.key ∧ asset.fileSize ≤ s.chunk * kDataChunkSize
      exact ⟨rfl, by omega⟩

theorem act_did {host : ByteOrder} {XXH64 : List Byte → UInt64}
    {flattenData : FlatAssetData → List Byte} {db next : Database}
    {before : Option (Upload schemas)} {act : Act schemas} {u : Upload schemas}
    (acted : Upload.act host XXH64 flattenData db before act = some (next, u))
    (sound : ∀ old, before = some old → old.Sound) : u.Did host db before next ∧ u.Sound := by
  unfold Upload.act at acted
  split at acted
  · rename_i asset content
    split at acted
    · cases acted
      refine ⟨.waited rfl, sound_fresh asset ?_⟩
      intro key returned
      cases returned
      rfl
    · split at acted
      · cases acted
        refine ⟨.waited rfl, sound_fresh asset ?_⟩
        intro key returned
        cases returned
      · cases acted
  · rename_i asset now ok
    split at acted
    · obtain ⟨stored, did, ends⟩ := Option.map_eq_some_iff.mp acted
      cases ends
      exact ⟨.posted rfl rfl did, sound_started asset⟩
    · cases acted
      refine ⟨.waited ⟨rfl, rfl⟩, sound_fresh asset ?_⟩
      intro key returned
      cases returned
      rfl
  · rename_i asset s inFile ok
    have started := sound _ rfl
    have failed : Upload.Sound ⟨asset, some s, .returned 0⟩ := by
      apply sound_ended started
      intro key returned
      cases returned
      rfl
    split at acted
    · cases acted
      exact ⟨.waited ⟨rfl, rfl⟩, sound_returned started⟩
    · cases acted
      exact ⟨.waited ⟨rfl, rfl⟩, failed⟩
    · rename_i record following turn
      obtain ⟨counted, kept⟩ := sound_sent started turn
      split at acted
      · cases acted
        exact ⟨.sent rfl counted, kept⟩
      · cases acted
        exact ⟨.waited ⟨rfl, rfl⟩, failed⟩
  · rename_i asset sending
    cases acted
    refine ⟨.waited ⟨rfl, rfl⟩, sound_ended (sound _ rfl) ?_⟩
    intro key returned
    cases returned
  · cases acted

end Sound
end Confab
