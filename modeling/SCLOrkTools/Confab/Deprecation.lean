import SCLOrkTools.Library.Links
import SCLOrkTools.Confab.Lookups

/- Assets that are deprecated by other assets. Each client says for its own asset which one
   deprecates it, and findAsset goes from one to the next. -/
namespace Confab
open OrderedStores ByteStrings GuardedRun Links

section Statements
variable (schemas : Schemas) (host : ByteOrder)

/-- The asset that the one under the key is deprecated by, if it is stored and deprecated. -/
def Database.link (db : Database) (key : UInt64) : Option UInt64 :=
  match db.get (makeAssetKey host key) with
  | none => none
  | some d =>
    let deprecatedBy := (schemas.getFlatAsset d).deprecatedBy
    if deprecatedBy = 0 then none else some deprecatedBy

/-- The record at the end of the chain that starts at the key: the empty one if the chain leads
    to a key that nothing is stored under. -/
def Database.Latest (db : Database) (key : UInt64) (record : Record) : Prop :=
  ∃ m, Reaches (db.link schemas host) key m ∧
    (db.get (makeAssetKey host m) = none ∧ record = none ∨
      ∃ d, db.get (makeAssetKey host m) = some d ∧ record.At (makeAssetKey host m) d ∧
        (schemas.getFlatAsset d).deprecatedBy = 0)

def Database.Finds (db : Database) (key : UInt64) : Prop :=
  ∃ fuel record, (∀ more, fuel ≤ more → db.findAsset schemas host more key = some record) ∧
    db.Latest schemas host key record

/-- The asset that a call stores is not deprecated, or by one from which the chain in the
    database does not lead back to it. -/
def Call.Forward (db : Database) : Call → Prop
  | storeAsset _ key assetData =>
    let deprecatedBy := (schemas.getFlatAsset assetData).deprecatedBy
    deprecatedBy = 0 ∨ ¬ Reaches (db.link schemas host) deprecatedBy key
  | _ => True

end Statements

variable {schemas : Schemas} {host : ByteOrder}

section Loop
variable {db : Database} {k : UInt64} {d : List Byte}

theorem link_stored (stored : db.get (makeAssetKey host k) = some d) :
    db.link schemas host k = if (schemas.getFlatAsset d).deprecatedBy = 0 then none
      else some (schemas.getFlatAsset d).deprecatedBy := by
  unfold Database.link
  rw [stored]

theorem link_missing (missing : db.get (makeAssetKey host k) = none) :
    db.link schemas host k = none := by
  unfold Database.link
  rw [missing]

theorem finds_of_ends (ends : Ends (db.link schemas host) k) : db.Finds schemas host k := by
  obtain ⟨m, reaches, last⟩ := ends
  induction reaches with
  | here k =>
    cases stored : db.get (makeAssetKey host k) with
    | none =>
      refine ⟨0, none, fun more _ => findAsset_missing stored more, k, .here k, ?_⟩
      exact Or.inl ⟨stored, rfl⟩
    | some d =>
      have current : (schemas.getFlatAsset d).deprecatedBy = 0 := by
        rw [link_stored stored] at last
        by_contra deprecated
        rw [if_neg deprecated] at last
        cases last
      refine ⟨0, _, fun more _ => findAsset_current stored current more, k, .here k, ?_⟩
      exact Or.inr ⟨d, stored, seek_at stored, current⟩
  | @next k l m linked rest ih =>
    obtain ⟨fuel, record, found, n, reaches, there⟩ := ih last
    refine ⟨fuel + 1, record, ?_, n, .next linked reaches, there⟩
    cases stored : db.get (makeAssetKey host k) with
    | none =>
      rw [link_missing stored] at linked
      cases linked
    | some d =>
      rw [link_stored stored] at linked
      split at linked
      · cases linked
      · rename_i deprecated
        cases linked
        intro more enough
        obtain ⟨less, rfl⟩ := Nat.exists_eq_add_of_le' enough
        rw [← Nat.add_assoc, findAsset_next stored deprecated]
        exact found _ (by omega)

theorem ends_of_findAsset {fuel : Nat} {record : Record}
    (found : db.findAsset schemas host fuel k = some record) : Ends (db.link schemas host) k := by
  induction fuel using Nat.strongRecOn generalizing k with
  | ind fuel ih =>
    rcases findAsset_cases found with
      ⟨missing, -⟩ | ⟨d, stored, ⟨current, -⟩ | ⟨less, rfl, deprecated, later⟩⟩
    · exact ends_here (link_missing missing)
    · exact ends_here ((link_stored stored).trans (if_pos current))
    · have linked := (link_stored stored).trans (if_neg deprecated)
      exact ends_next linked (ih less (Nat.lt_succ_self less) later)

theorem findAsset_more {fuel more : Nat} {record : Record}
    (found : db.findAsset schemas host fuel k = some record) (enough : fuel ≤ more) :
    db.findAsset schemas host more k = some record := by
  induction fuel using Nat.strongRecOn generalizing k more with
  | ind fuel ih =>
    rcases findAsset_cases found with
      ⟨missing, rfl⟩ | ⟨d, stored, ⟨current, rfl⟩ | ⟨less, rfl, deprecated, later⟩⟩
    · exact findAsset_missing missing more
    · exact findAsset_current stored current more
    · obtain ⟨more, rfl⟩ := Nat.exists_eq_add_of_le' ((Nat.le_add_left 1 less).trans enough)
      rw [findAsset_next stored deprecated]
      exact ih less (Nat.lt_succ_self less) later (Nat.le_of_succ_le_succ enough)

theorem finds_iff : db.Finds schemas host k ↔ Ends (db.link schemas host) k := by
  constructor
  · rintro ⟨fuel, record, found, -⟩
    exact ends_of_findAsset (found fuel (le_refl fuel))
  · exact finds_of_ends

end Loop

section Step
variable {db next : Database} {call : Call}

theorem link_call (step : db.call schemas host call = some next) (k : UInt64) :
    next.link schemas host k =
      match call.asset k with
      | none => db.link schemas host k
      | some d => if (schemas.getFlatAsset d).deprecatedBy = 0 then none
          else some (schemas.getFlatAsset d).deprecatedBy := by
  have after : next.get (makeAssetKey host k) =
      (call.asset k).or (db.get (makeAssetKey host k)) := get_call step (.asset k)
  unfold Database.link
  rw [after]
  cases call.asset k with
  | none => rfl
  | some d => rfl

theorem all_end_call (all : ∀ k, Ends (db.link schemas host) k)
    (step : db.call schemas host call = some next) :
    (∀ k, Ends (next.link schemas host) k) ↔ call.Forward schemas host db := by
  cases call with
  | storeAsset now key data =>
    have others (k : UInt64) (other : k ≠ key) :
        next.link schemas host k = db.link schemas host k := by
      rw [link_call step]
      simp [Call.asset, other]
    have stored : next.link schemas host key =
        if (schemas.getFlatAsset data).deprecatedBy = 0 then none
        else some (schemas.getFlatAsset data).deprecatedBy := by
      rw [link_call step]
      simp [Call.asset]
    rw [all_end_iff others all, stored]
    by_cases current : (schemas.getFlatAsset data).deprecatedBy = 0
    · simp [Call.Forward, current]
    · simp [Call.Forward, current]
  | storeAssetDataChunk | storeList =>
    have same : next.link schemas host = db.link schemas host := by
      funext k
      rw [link_call step]
      rfl
    rw [same]
    exact iff_of_true all trivial

end Step

theorem empty_ends (k : UInt64) : Ends (Database.link schemas host Store.empty) k := ends_here rfl

/-- In a run from the empty database every lookup ends, in every state, exactly when no asset is
    stored as deprecated by one that leads back to it. -/
theorem findAsset_ends_iff {calls : List Call} {db : Database}
    (ran : run (Database.call schemas host) Store.empty calls = some db) :
    (∀ pre post mid, calls = pre ++ post →
      run (Database.call schemas host) Store.empty pre = some mid →
        ∀ k, mid.Finds schemas host k) ↔
      Along (Database.call schemas host) (fun db call => call.Forward schemas host db)
        Store.empty calls := by
  have step_iff : Along (Database.call schemas host)
      (fun db call => ∀ next, db.call schemas host call = some next →
        ∀ k, Ends (next.link schemas host) k) Store.empty calls ↔
      Along (Database.call schemas host) (fun db call => call.Forward schemas host db)
        Store.empty calls := by
    apply along_iff_along (g := fun db call => ∃ next, db.call schemas host call = some next)
      fun db => ∀ k, Ends (db.link schemas host) k
    · rintro db call all ⟨next, step⟩
      rw [← all_end_call all step]
      constructor
      · intro ends
        exact ends next step
      · intro ends other step'
        rw [step] at step'
        cases step'
        exact ends
    · intro db call next all _ forward step
      exact (all_end_call all step).mpr forward
    · exact empty_ends
    · exact along_of_run ran
  rw [← step_iff, along_iff_prefixes]
  constructor
  · intro finds pre call post shape mid front next step k
    apply finds_iff.mp
    exact finds (pre ++ [call]) post next (by simp [shape]) (run_snoc.mpr ⟨mid, front, step⟩) k
  · intro ends pre post mid shape front k
    apply finds_iff.mpr
    rcases List.eq_nil_or_concat' pre with rfl | ⟨init, call, rfl⟩
    · cases front
      exact empty_ends k
    · obtain ⟨before, first, step⟩ := run_snoc.mp front
      exact ends init call post (by simp [shape]) before first mid step k

theorem findAsset_ends_iff_filed :
    (∀ pre post mid, filing = pre ++ post →
      run (Database.call flatbuffers .little) Store.empty pre = some mid →
        ∀ k, mid.Finds flatbuffers .little k) ↔
      Along (Database.call flatbuffers .little)
        (fun db call => call.Forward flatbuffers .little db) Store.empty filing :=
  @findAsset_ends_iff _ _ filing filed (Option.some_get _).symm

def deprecatedBuffer : List Byte :=
  [28, 0, 0, 0, 24, 0, 16, 0, 0, 0, 0, 0, 0, 0, 0, 0, 0, 0, 4, 0, 0, 0, 0, 0, 0, 0, 12, 0,
    24, 0, 0, 0, 5, 0, 0, 0, 0, 0, 0, 0, 4, 0, 0, 0, 0, 0, 0, 0]

example : flatbuffers.getFlatAsset deprecatedBuffer =
    { type := .kInvalid, key := 0, name := none, fileExtension := none, author := 0
      deprecatedBy := 5, deprecates := 0, size := 0, chunks := 0, lists := some [], salt := 0
      inlineData := none } := by decide +kernel

/-- Asset 5 is stored as deprecated by itself, and looked up. -/
theorem findAsset_runs_on :
    ¬ ∀ (calls : List Call) (db : Database),
      run (Database.call flatbuffers .little) Store.empty calls = some db →
        ∀ k, db.Finds flatbuffers .little k := by
  intro always
  have loops : Database.link flatbuffers .little
      ((run (Database.call flatbuffers .little) Store.empty
        [.storeAsset 0 5 deprecatedBuffer]).get (by decide +kernel)) 5 = some 5 := by
    decide +kernel
  exact not_ends_self loops (finds_iff.mp (always _ _ (Option.some_get _).symm 5))

end Confab
