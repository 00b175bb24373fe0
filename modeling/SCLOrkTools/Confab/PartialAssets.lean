import SCLOrkTools.Confab.RoundTrip
import SCLOrkTools.Confab.Uploads

/- What the lookups lead to while files are uploaded, and after uploads that have failed. -/
namespace Confab
open OrderedStores ByteStrings GuardedRun

section Updates
variable {ι α : Type} [DecidableEq ι]

theorem some_update {f : ι → Option α} {i : ι} {a : α} {p : α → Prop} {q : Prop}
    (here : p a ↔ q ∨ ∃ b, f i = some b ∧ p b) :
    (∃ j b, Function.update f i (some a) j = some b ∧ p b) ↔ q ∨ ∃ j b, f j = some b ∧ p b := by
  constructor
  · rintro ⟨j, b, found, holds⟩
    by_cases same : j = i
    · subst same
      rw [Function.update_self] at found
      cases found
      rcases here.mp holds with new | ⟨old, before, holds⟩
      · exact .inl new
      · exact .inr ⟨j, old, before, holds⟩
    · rw [Function.update_of_ne same] at found
      exact .inr ⟨j, b, found, holds⟩
  · intro known
    rcases known with new | ⟨j, b, found, holds⟩
    · exact ⟨i, a, Function.update_self .., here.mpr (.inl new)⟩
    · by_cases same : j = i
      · subst same
        exact ⟨j, a, Function.update_self .., here.mpr (.inr ⟨b, found, holds⟩)⟩
      · exact ⟨j, b, by rw [Function.update_of_ne same, found], holds⟩

end Updates

variable {schemas : Schemas} {ι : Type} {host : ByteOrder}

def World.Recorded (w : World schemas ι) (k : UInt64) (record : List Byte) : Prop :=
  ∃ i u, w.uploads i = some u ∧ u.sending.isSome ∧ u.asset.key = k ∧ u.asset.record = record

def World.Posted (w : World schemas ι) (k : UInt64) (j : Nat) : Prop :=
  ∃ i u, w.uploads i = some u ∧ u.asset.key = k ∧ j < u.chunks

structure World.Sound (host : ByteOrder) (w : World schemas ι) : Prop where
  upload : ∀ i u, w.uploads i = some u → u.Sound
  record : ∀ k d, w.db.get (makeAssetKey host k) = some d → w.Recorded k d
  chunk : ∀ k, ∀ j < 2 ^ 64,
    (w.db.get (makeAssetDataKey host k (UInt64.ofNat j))).isSome ↔ w.Posted k j

theorem initial_sound : (World.initial : World schemas ι).Sound host := by
  constructor
  · intro i u found
    cases found
  · intro k d found
    cases found
  · intro k j _
    constructor
    · intro stored
      cases stored
    · rintro ⟨i, u, found, -⟩
      cases found

theorem number_small {asset : FileAsset schemas} {j : Nat}
    (within : j * kDataChunkSize < asset.fileSize) : j < 2 ^ 64 :=
  (Nat.le_mul_of_pos_right j (by decide)).trans_lt (within.trans asset.small)

section Steps
variable {w next : World schemas ι}

theorem get_untouched {db after : Database} {call : Call} {item : Item}
    (ran : db.call schemas host call = some after) (apart : call.stored schemas host item = none) :
    after.get (item.key host) = db.get (item.key host) := by
  rw [get_call ran, apart]
  rfl

theorem record_untouched {db after : Database} {call : Call} {k : UInt64}
    (ran : db.call schemas host call = some after)
    (apart : call.stored schemas host (.asset k) = none) :
    after.get (makeAssetKey host k) = db.get (makeAssetKey host k) :=
  get_untouched ran apart

theorem chunk_untouched {db after : Database} {call : Call} {k c : UInt64}
    (ran : db.call schemas host call = some after)
    (apart : call.stored schemas host (.chunk k c) = none) :
    after.get (makeAssetDataKey host k c) = db.get (makeAssetDataKey host k c) :=
  get_untouched ran apart

theorem list_sound (sound : w.Sound host) (key : UInt64) (listEntry : List Byte) :
    World.Sound host { w with db := w.db.storeList schemas host key listEntry } := by
  have ran : w.db.call schemas host (.storeList key listEntry) =
    some (w.db.storeList schemas host key listEntry) := rfl
  constructor
  · exact sound.upload
  · intro k d stored
    rw [record_untouched ran rfl] at stored
    exact sound.record k d stored
  · intro k j small
    rw [chunk_untouched ran rfl]
    exact sound.chunk k j small

variable [DecidableEq ι] {i : ι}

theorem recorded_kept {db : Database} {u : Upload schemas} {k : UInt64} {d : List Byte}
    (keeps : u.Keeps (w.uploads i)) :
    World.Recorded ⟨db, Function.update w.uploads i (some u)⟩ k d ↔ w.Recorded k d := by
  have here : (u.sending.isSome ∧ u.asset.key = k ∧ u.asset.record = d) ↔ False ∨
      ∃ v, w.uploads i = some v ∧ v.sending.isSome ∧ v.asset.key = k ∧ v.asset.record = d := by
    cases before : w.uploads i with
    | none =>
      rw [before] at keeps
      change u.sending = none at keeps
      simp [keeps]
    | some old =>
      rw [before] at keeps
      simp [keeps.1, keeps.2]
  exact (some_update here).trans (or_iff_right not_false)

theorem posted_kept {db : Database} {u : Upload schemas} {k : UInt64} {j : Nat}
    (keeps : u.Keeps (w.uploads i)) :
    World.Posted ⟨db, Function.update w.uploads i (some u)⟩ k j ↔ w.Posted k j := by
  have here : (u.asset.key = k ∧ j < u.chunks) ↔ False ∨
      ∃ v, w.uploads i = some v ∧ v.asset.key = k ∧ j < v.chunks := by
    cases before : w.uploads i with
    | none =>
      rw [before] at keeps
      change u.sending = none at keeps
      simp [Upload.chunks, keeps]
    | some old =>
      rw [before] at keeps
      simp [Upload.chunks, keeps.1, keeps.2]
  exact (some_update here).trans (or_iff_right not_false)

theorem uploads_sound (sound : w.Sound host) {u : Upload schemas} (kept : u.Sound) (j : ι)
    (v : Upload schemas) (found : Function.update w.uploads i (some u) j = some v) : v.Sound := by
  by_cases same : j = i
  · subst same
    rw [Function.update_self] at found
    cases found
    exact kept
  · rw [Function.update_of_ne same] at found
    exact sound.upload j v found

theorem did_record (sound : w.Sound host) {db : Database} {u : Upload schemas}
    (did : u.Did host w.db (w.uploads i) db) {k : UInt64} {d : List Byte}
    (stored : db.get (makeAssetKey host k) = some d) :
    World.Recorded ⟨db, Function.update w.uploads i (some u)⟩ k d := by
  cases did with
  | waited keeps => exact (recorded_kept keeps).mpr (sound.record k d stored)
  | posted found first ran =>
    rename_i asset s now
    have call : w.db.call schemas host (.storeAsset now asset.key asset.record) = some db := ran
    have here : ((some s).isSome ∧ asset.key = k ∧ asset.record = d) ↔
        (asset.key = k ∧ asset.record = d) ∨ ∃ v, w.uploads i = some v ∧
          v.sending.isSome ∧ v.asset.key = k ∧ v.asset.record = d := by
      simp [found]
    apply (some_update here).mpr
    have read := get_call call (.asset k)
    change db.get (makeAssetKey host k) = _ at read
    rw [stored] at read
    by_cases same : k = asset.key
    · rw [Call.stored, Call.asset, if_pos same] at read
      cases read
      exact .inl ⟨same.symm, rfl⟩
    · rw [Call.stored, Call.asset, if_neg same] at read
      exact .inr (sound.record k d read.symm)
  | sent found counted =>
    rename_i asset s next data
    have ran : w.db.call schemas host
      (.storeAssetDataChunk asset.key (UInt64.ofNat s.chunk) data) =
        some (w.db.storeAssetDataChunk host asset.key (UInt64.ofNat s.chunk) data) := rfl
    have here : ((some next).isSome ∧ asset.key = k ∧ asset.record = d) ↔
        False ∨ ∃ v, w.uploads i = some v ∧
          v.sending.isSome ∧ v.asset.key = k ∧ v.asset.record = d := by
      simp [found]
    apply (some_update here).mpr
    rw [record_untouched ran rfl] at stored
    exact .inr (sound.record k d stored)

theorem did_chunk (sound : w.Sound host) {db : Database} {u : Upload schemas} (kept : u.Sound)
    (did : u.Did host w.db (w.uploads i) db) (k : UInt64) (j : Nat) (small : j < 2 ^ 64) :
    (db.get (makeAssetDataKey host k (UInt64.ofNat j))).isSome ↔
      World.Posted ⟨db, Function.update w.uploads i (some u)⟩ k j := by
  have before := sound.chunk k j small
  cases did with
  | waited keeps => exact before.trans (posted_kept keeps).symm
  | posted found first ran =>
    rename_i asset s now
    have call : w.db.call schemas host (.storeAsset now asset.key asset.record) = some db := ran
    have here : (asset.key = k ∧ j < s.chunk) ↔ False ∨ ∃ v, w.uploads i = some v ∧
        v.asset.key = k ∧ j < v.chunks := by
      simp [found, first, Upload.chunks]
    rw [chunk_untouched call rfl]
    exact before.trans ((some_update here).trans (or_iff_right not_false)).symm
  | sent found counted =>
    rename_i asset s next data
    have ran : w.db.call schemas host
      (.storeAssetDataChunk asset.key (UInt64.ofNat s.chunk) data) =
        some (w.db.storeAssetDataChunk host asset.key (UInt64.ofNat s.chunk) data) := rfl
    have number : s.chunk < 2 ^ 64 := by
      have last : s.chunk < next.chunk := by omega
      exact number_small (kept.within s.chunk last)
    have here : (asset.key = k ∧ j < next.chunk) ↔ (k = asset.key ∧ j = s.chunk) ∨
        ∃ v, w.uploads i = some v ∧ v.asset.key = k ∧ j < v.chunks := by
      simp only [found, Option.some.injEq, exists_eq_left', Upload.chunks, counted]
      constructor
      · rintro ⟨same, within⟩
        rcases Nat.lt_succ_iff_lt_or_eq.mp within with earlier | last
        · exact .inr ⟨same, earlier⟩
        · exact .inl ⟨same.symm, last⟩
      · rintro (⟨same, last⟩ | ⟨same, earlier⟩)
        · exact ⟨same.symm, by omega⟩
        · exact ⟨same, by omega⟩
    refine Iff.trans ?_ (some_update here).symm
    have read := get_call ran (.chunk k (UInt64.ofNat j))
    change Store.get _ (makeAssetDataKey host k (UInt64.ofNat j)) = _ at read
    rw [read, Call.stored, Call.chunk]
    by_cases same : k = asset.key ∧ j = s.chunk
    · rw [if_pos ⟨same.1, congrArg UInt64.ofNat same.2⟩]
      simp [same]
    · rw [if_neg fun items => same ⟨items.1, number_inj small number items.2⟩]
      simp only [same, false_or]
      exact before

variable {XXH64 : List Byte → UInt64} {flattenData : FlatAssetData → List Byte}

theorem step_sound {e : Event schemas ι} (sound : w.Sound host)
    (step : w.step host XXH64 flattenData e = some next) : next.Sound host := by
  cases e with
  | upload i act =>
    obtain ⟨⟨db, u⟩, acted, ends⟩ := Option.map_eq_some_iff.mp step
    cases ends
    obtain ⟨did, kept⟩ := act_did acted (sound.upload i)
    constructor
    · exact uploads_sound sound kept
    · intro k d stored
      exact did_record sound did stored
    · exact did_chunk sound kept did
  | postList key listEntry =>
    cases step
    exact list_sound sound key listEntry

theorem run_sound {es : List (Event schemas ι)}
    (ran : run (World.step host XXH64 flattenData) World.initial es = some w) : w.Sound host := by
  have preserved (s : World schemas ι) (e : Event schemas ι) (t : World schemas ι)
      (sound : s.Sound host) (step : s.step host XXH64 flattenData e = some t) :
      t.Sound host := step_sound sound step
  exact run_keeps (World.Sound host) preserved initial_sound ran

end Steps
section Lookups
variable {w : World schemas ι}

/-- What a lookup hands out, or a lookup of the asset that an entry of a list ends with. -/
inductive Database.LeadsTo (schemas : Schemas) (host : ByteOrder) (db : Database) :
    List Byte → Prop where
  | findAsset {fuel : Nat} {key : UInt64} {record : Record} {data : List Byte}
      (found : db.findAsset schemas host fuel key = some record)
      (given : record.data = some data) : LeadsTo schemas host db data
  | findNamedAsset {fuel : Nat} {name : List Byte} {record : Record} {data : List Byte}
      (found : db.findNamedAsset schemas host fuel name = some record)
      (given : record.data = some data) : LeadsTo schemas host db data
  | listEntry {list timeStamp : List Byte} {fuel : Nat} {key : UInt64} {record : Record}
      {data : List Byte} (entry : (db.get (listEntryKey list timeStamp (host.bytes key))).isSome)
      (found : db.findAsset schemas host fuel key = some record)
      (given : record.data = some data) : LeadsTo schemas host db data

theorem found_stored (sound : w.Sound host) {fuel : Nat} {key : UInt64} {record : Record}
    {data : List Byte} (found : w.db.findAsset schemas host fuel key = some record)
    (given : record.data = some data) : w.db.get (makeAssetKey host key) = some data := by
  cases stored : w.db.get (makeAssetKey host key) with
  | none =>
    rw [findAsset_missing stored] at found
    cases found
    cases given
  | some d =>
    obtain ⟨i, u, -, -, -, same⟩ := sound.record key d stored
    have current : (schemas.getFlatAsset d).deprecatedBy = 0 := by
      rw [← same, u.asset.flattened]
      rfl
    rw [findAsset_current stored current] at found
    cases found
    rw [at_data (seek_at stored)] at given
    exact given

theorem leads_stored (sound : w.Sound host) {data : List Byte}
    (leads : w.db.LeadsTo schemas host data) :
    w.Recorded (schemas.getFlatAsset data).key data := by
  have stored : ∃ key, w.db.get (makeAssetKey host key) = some data := by
    cases leads with
    | findAsset found given => exact ⟨_, found_stored sound found given⟩
    | findNamedAsset found given =>
      unfold Database.findNamedAsset at found
      simp only at found
      split at found
      · exact ⟨_, found_stored sound found given⟩
      · cases found
        cases given
    | listEntry _ found given => exact ⟨_, found_stored sound found given⟩
  obtain ⟨key, stored⟩ := stored
  obtain ⟨i, u, found, started, keyed, same⟩ := sound.record key data stored
  refine ⟨i, u, found, started, ?_, same⟩
  rw [← same, u.asset.flattened]
  rfl

def World.Returned (w : World schemas ι) (key : UInt64) (fileSize : Nat) : Prop :=
  key ≠ 0 ∧ ∃ i u, w.uploads i = some u ∧ u.status = .returned key ∧ u.asset.fileSize = fileSize

theorem returned_posted (sound : w.Sound host) {key : UInt64} {fileSize j : Nat}
    (returned : w.Returned key fileSize) (inside : j * kDataChunkSize < fileSize) :
    w.Posted key j := by
  obtain ⟨nonzero, i, u, found, status, rfl⟩ := returned
  obtain ⟨same, all⟩ := (sound.upload i u found).returned key status nonzero
  refine ⟨i, u, found, same.symm, ?_⟩
  exact Nat.lt_of_mul_lt_mul_right (inside.trans_le all)

end Lookups
section Without
variable [DecidableEq ι] {w next : World schemas ι} {i : ι}
variable {XXH64 : List Byte → UInt64} {flattenData : FlatAssetData → List Byte}

def World.without (w : World schemas ι) (i : ι) : World schemas ι :=
  { w with uploads := Function.update w.uploads i none }

def World.Unrecorded (w : World schemas ι) (i : ι) : Prop :=
  ∀ u, w.uploads i = some u → u.sending = none

def Event.isOf (i : ι) : Event schemas ι → Bool
  | .upload j _ => decide (j = i)
  | .postList _ _ => false

theorem step_other {e : Event schemas ι} (other : e.isOf i = false)
    (step : w.step host XXH64 flattenData e = some next) :
    (w.without i).step host XXH64 flattenData e = some (next.without i) := by
  cases e with
  | upload j act =>
    have apart : j ≠ i := of_decide_eq_false other
    obtain ⟨⟨db, u⟩, acted, ends⟩ := Option.map_eq_some_iff.mp step
    cases ends
    refine Option.map_eq_some_iff.mpr ⟨(db, u), ?_, ?_⟩
    · simpa [World.without, apart] using acted
    · simp only [World.without]
      rw [Function.update_comm apart]
  | postList key listEntry =>
    cases step
    rfl

theorem step_unrecorded {e : Event schemas ι} (sound : w.Sound host) (own : e.isOf i = true)
    (step : w.step host XXH64 flattenData e = some next)
    (unrecorded : next.Unrecorded i) : next.without i = w.without i ∧ w.Unrecorded i := by
  cases e with
  | upload j act =>
    have same : j = i := of_decide_eq_true own
    subst same
    obtain ⟨⟨db, u⟩, acted, ends⟩ := Option.map_eq_some_iff.mp step
    cases ends
    have nothing := unrecorded u (Function.update_self ..)
    obtain ⟨did, -⟩ := act_did acted (sound.upload j)
    cases did with
    | waited keeps =>
      refine ⟨by simp [World.without], ?_⟩
      intro old before
      rw [before] at keeps
      rw [← keeps.2, nothing]
    | posted => cases nothing
    | sent => cases nothing
  | postList => cases own

theorem uploads_other {e : Event schemas ι} (other : e.isOf i = false)
    (step : w.step host XXH64 flattenData e = some next) : next.uploads i = w.uploads i := by
  cases e with
  | upload j act =>
    have apart : j ≠ i := of_decide_eq_false other
    obtain ⟨made, -, ends⟩ := Option.map_eq_some_iff.mp step
    cases ends
    exact Function.update_of_ne apart.symm _ _
  | postList =>
    cases step
    rfl

/-- The same events without those of one upload lead to the same server. -/
def Spares (host : ByteOrder) (XXH64 : List Byte → UInt64)
    (flattenData : FlatAssetData → List Byte) (i : ι) (es : List (Event schemas ι))
    (w : World schemas ι) : Prop :=
  run (World.step host XXH64 flattenData) World.initial (es.filter fun e => !e.isOf i) =
    some (w.without i)

theorem step_spares {past : List (Event schemas ι)} {e : Event schemas ι} (sound : w.Sound host)
    (before : w.Unrecorded i → Spares host XXH64 flattenData i past w)
    (step : w.step host XXH64 flattenData e = some next) (unrecorded : next.Unrecorded i) :
    Spares host XXH64 flattenData i (past ++ [e]) next := by
  unfold Spares
  rw [List.filter_append]
  cases own : e.isOf i with
  | true =>
    obtain ⟨unchanged, waiting⟩ := step_unrecorded sound own step unrecorded
    have dropped : [e].filter (fun e => !e.isOf i) = [] := by simp [own]
    rw [unchanged, dropped, List.append_nil]
    exact before waiting
  | false =>
    have kept : [e].filter (fun e => !e.isOf i) = [e] := by simp [own]
    have waiting : w.Unrecorded i := by
      intro u found
      rw [← uploads_other own step] at found
      exact unrecorded u found
    rw [kept]
    exact run_snoc.mpr ⟨w.without i, before waiting, step_other own step⟩

/-- The server is as if an upload that has had no record stored had never begun. -/
theorem run_spares {es : List (Event schemas ι)}
    (ran : run (World.step host XXH64 flattenData) World.initial es = some w)
    (unrecorded : w.Unrecorded i) : Spares host XXH64 flattenData i es w := by
  have start : Spares host XXH64 flattenData i [] (World.initial : World schemas ι) := by
    simp [Spares, run, World.without, World.initial]
  have whole := run_keeps_history
    (fun past s => s.Sound host ∧ (s.Unrecorded i → Spares host XXH64 flattenData i past s))
    (fun past s e t before step => ⟨step_sound before.1 step,
      fun waiting => step_spares before.1 before.2 step waiting⟩)
    ⟨initial_sound, fun _ => start⟩ ran
  exact whole.2 unrecorded

end Without
section Visible
variable [DecidableEq ι] {w : World schemas ι} {es : List (Event schemas ι)}
variable {XXH64 : List Byte → UInt64} {flattenData : FlatAssetData → List Byte}

/-- A record that can be found has the chunks that its uploads have posted so far, and those of
    the file once an upload has returned. An upload that ends before its record has been stored
    leaves nothing behind. -/
theorem partial_assets
    (ran : run (World.step host XXH64 flattenData) World.initial es = some w) :
    (∀ data, w.db.LeadsTo schemas host data →
      let asset := schemas.getFlatAsset data
      let stored j := (w.db.get (makeAssetDataKey host asset.key (UInt64.ofNat j))).isSome
      w.Recorded asset.key data ∧ (∀ j < 2 ^ 64, stored j ↔ w.Posted asset.key j) ∧
        (w.Returned asset.key asset.size.toNat →
          ∀ j < asset.chunks.toNat, j * kDataChunkSize < asset.size.toNat → stored j)) ∧
    ∀ i, w.Unrecorded i →
      run (World.step host XXH64 flattenData) World.initial (es.filter fun e => !e.isOf i) =
        some (w.without i) := by
  have sound := run_sound ran
  refine ⟨?_, fun i unrecorded => run_spares ran unrecorded⟩
  intro data leads asset stored
  refine ⟨leads_stored sound leads, sound.chunk asset.key, ?_⟩
  intro returned j declared inside
  have number : j < 2 ^ 64 := declared.trans asset.chunks.toNat_lt
  exact (sound.chunk asset.key j number).mpr (returned_posted sound returned inside)

def imageBuffer : List Byte :=
  [28, 0, 0, 0, 24, 0, 40, 0, 36, 0, 28, 0, 0, 0, 16, 0, 0, 0, 0, 0, 0, 0, 20, 0, 4, 0, 12, 0,
    24, 0, 0, 0, 1, 0, 0, 0, 0, 0, 0, 0, 28, 0, 0, 0, 36, 0, 0, 0, 1, 0, 0, 0, 0, 0, 0, 0,
    91, 110, 140, 169, 241, 196, 78, 210, 3, 0, 0, 0, 1, 0, 0, 0, 7, 0, 0, 0, 0, 0, 0, 0,
    2, 0, 0, 0, 46, 112, 0, 0]

def chunkBuffer : List Byte :=
  [12, 0, 0, 0, 8, 0, 20, 0, 16, 0, 4, 0, 8, 0, 0, 0, 91, 110, 140, 169, 241, 196, 78, 210,
    0, 0, 0, 0, 4, 0, 0, 0, 1, 0, 0, 0, 97, 0, 0, 0]

def imageAsset : FileAsset flatbuffers where
  args := image
  fileSize := 1
  small := by decide
  key := 0xd24ec4f1a98c6e5b
  record := imageBuffer
  flattened := by decide +kernel

def letterStep : World flatbuffers Nat → Event flatbuffers Nat → Option (World flatbuffers Nat) :=
  World.step .little (hashOf letter 0xd24ec4f1a98c6e5b) fun _ => chunkBuffer

def twoUploads : List (Event flatbuffers Nat) :=
  [.upload 0 (.begins imageAsset (some [97])), .upload 1 (.begins imageAsset (some [97])),
    .upload 0 (.postAsset 5 true), .upload 1 (.postAsset 6 false),
    .upload 0 (.postChunk (IfStream.open [97]) true),
    .upload 0 (.postChunk (IfStream.open []) true)]

theorem partial_assets_two_uploads :
    ∃ w, run letterStep World.initial twoUploads = some w ∧
      (w.db.get (makeAssetDataKey .little imageAsset.key (UInt64.ofNat 0))).isSome ∧
      run letterStep World.initial (twoUploads.filter fun e => !e.isOf 1) = some (w.without 1) := by
  have ends : ∃ w ∈ run letterStep World.initial twoUploads,
      (w.db.findAsset flatbuffers .little 0 imageAsset.key).bind Record.data = some imageBuffer ∧
      (w.uploads 0).map Upload.status = some (.returned imageAsset.key) ∧
      (w.uploads 0).map (·.asset.fileSize) = some 1 ∧
      (w.uploads 1).map (·.sending.isNone) = some true := by decide +kernel
  obtain ⟨w, ran, found, status, size, second⟩ := ends
  obtain ⟨record, found, given⟩ := Option.bind_eq_some_iff.mp found
  have settled := partial_assets ran
  have read : flatbuffers.getFlatAsset imageBuffer = imageAsset.args.asset imageAsset.key 1 :=
    imageAsset.flattened
  obtain ⟨u, here, same⟩ := Option.map_eq_some_iff.mp status
  rw [here] at size
  have whole := (settled.1 imageBuffer (.findAsset found given)).2.2
  simp only [read] at whole
  refine ⟨w, ran, ?_, settled.2 1 ?_⟩
  · refine whole ⟨by decide, 0, u, here, same, Option.some.inj size⟩ 0 ?_ ?_
    · decide
    · decide
  · intro v there
    rw [there] at second
    exact Option.isNone_iff_eq_none.mp (Option.some.inj second)

end Visible

/-- The record is stored, and the POST of its only chunk fails. -/
theorem failed_upload_is_visible :
    ∃ w ∈ run letterStep World.initial
      [.upload 0 (.begins imageAsset (some [97])), .upload 0 (.postAsset 5 true),
        .upload 0 (.postChunk (IfStream.open [97]) false)],
      (w.uploads 0).map Upload.status = some (.returned 0) ∧
      (w.db.findAsset flatbuffers .little 0 imageAsset.key).bind Record.data = some imageBuffer ∧
      (flatbuffers.getFlatAsset imageBuffer).chunks = 1 ∧
      w.db.get (makeAssetDataKey .little imageAsset.key 0) = none ∧
      (w.db.get (listEntryKey (ByteOrder.bytes .little 7) (ByteOrder.bytes .little 5)
        (ByteOrder.bytes .little imageAsset.key))).isSome := by
  decide +kernel

end Confab
