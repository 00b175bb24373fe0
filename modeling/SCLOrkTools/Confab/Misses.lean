import SCLOrkTools.Confab.Lookups

/- Lookups of what was never stored. Seek stops at the next key there is, or at the end, and a
   lookup has to tell that from a find. -/
namespace Confab
open OrderedStores ByteStrings GuardedRun

inductive Response where
  | notFound
  | ok (body : List Byte)
  deriving DecidableEq

/-- How the GET handlers answer with a record. None where there is no data to read. -/
def respond (record : Record) : Option Response :=
  if record.empty then some .notFound else record.data.map .ok

inductive Lookup where
  | findAsset (key : UInt64)
  | findNamedAsset (name : List Byte)
  | loadAssetDataChunk (key chunk : UInt64)
  | loadList (key : UInt64)
  | findNamedList (name : List Byte)

section Statements
variable (schemas : Schemas) (host : ByteOrder) (calls : List Call) (db : Database)

/-- None if findAsset has not returned yet. -/
def Lookup.result (fuel : Nat) : Lookup → Option Record
  | findAsset k => db.findAsset schemas host fuel k
  | findNamedAsset n => db.findNamedAsset schemas host fuel n
  | loadAssetDataChunk k c => some (db.loadAssetDataChunk host k c)
  | loadList k => some (db.loadList host k)
  | findNamedList n => some (db.findNamedList host n)

def Lookup.Stored : Lookup → Prop
  | findAsset k => last (Call.asset k) calls ≠ none
  | findNamedAsset n => last (Call.assetName schemas n) calls ≠ none
  | loadAssetDataChunk k c => last (Call.chunk k c) calls ≠ none
  | loadList k => last (Call.list k) calls ≠ none
  | findNamedList n => last (Call.listName schemas n) calls ≠ none

/-- From one asset key to another along the assets that deprecate each other. -/
inductive Deprecates : UInt64 → UInt64 → Prop
  | here (k : UInt64) : Deprecates k k
  | next {k m : UInt64} {d : List Byte} (given : last (Call.asset k) calls = some d)
      (deprecated : (schemas.getFlatAsset d).deprecatedBy ≠ 0)
      (rest : Deprecates (schemas.getFlatAsset d).deprecatedBy m) : Deprecates k m

def Lookup.Owns : Lookup → List Byte → Prop
  | findAsset k, key => ∃ m, Deprecates schemas calls k m ∧ key = makeAssetKey host m
  | findNamedAsset n, key => ∃ k m, last (Call.assetName schemas n) calls = some k ∧
      Deprecates schemas calls k m ∧ key = makeAssetKey host m
  | loadAssetDataChunk k c, key => key = makeAssetDataKey host k c
  | loadList k, key => key = makeListKey host k
  | findNamedList n, key => ∃ k, last (Call.listName schemas n) calls = some k ∧
      key = makeListKey host k

structure Lookup.Honest (lookup : Lookup) : Prop where
  miss : ¬ lookup.Stored schemas calls → ∀ fuel,
    lookup.result schemas host db fuel = some none ∧
      (lookup.result schemas host db fuel).bind respond = some .notFound
  own : ∀ fuel record, lookup.result schemas host db fuel = some record →
    record.empty = false → ∃ key value, record.At key value ∧ lookup.Owns schemas host calls key

/-- The two lookups that look nowhere else ask only for what was stored. -/
def Lookup.Safe : Lookup → Prop
  | loadAssetDataChunk k c => last (Call.chunk k c) calls ≠ none
  | loadList k => last (Call.list k) calls ≠ none
  | _ => True

end Statements

section Runs
variable {schemas : Schemas} {host : ByteOrder} {calls : List Call} {db : Database}

theorem last_some {α : Type} {what : Call → Option α} {a : α} (given : last what calls = some a) :
    ∃ call ∈ calls, what call = some a :=
  List.mem_filterMap.mp (List.mem_of_getLast? given)

theorem last_ne_none {α : Type} {what : Call → Option α} {call : Call} {a : α}
    (member : call ∈ calls) (gives : what call = some a) : last what calls ≠ none := by
  intro none
  have empty := List.getLast?_eq_none_iff.mp none
  have kept : a ∈ calls.filterMap what := List.mem_filterMap.mpr ⟨call, member, gives⟩
  rw [empty] at kept
  cases kept

theorem listName_stored {n : List Byte} {k : UInt64}
    (given : last (Call.listName schemas n) calls = some k) : last (Call.list k) calls ≠ none := by
  obtain ⟨call, member, gives⟩ := last_some given
  cases call with
  | storeList key listEntry =>
    have same : k = key := by
      simp only [Call.listName] at gives
      split at gives
      · exact (Option.some.inj gives).symm
      · cases gives
    exact last_ne_none member (if_pos same)
  | storeAsset | storeAssetDataChunk => cases gives

theorem findAsset_own
    (ran : run (Database.call schemas host) Store.empty calls = some db) {fuel : Nat} {k : UInt64}
    {record : Record} (returns : db.findAsset schemas host fuel k = some record)
    (found : record.empty = false) :
    ∃ m value, record.At (makeAssetKey host m) value ∧ Deprecates schemas calls k m := by
  induction fuel using Nat.strongRecOn generalizing k with
  | ind fuel ih =>
    rcases findAsset_cases returns with
      ⟨-, rfl⟩ | ⟨d, stored, ⟨-, rfl⟩ | ⟨less, rfl, deprecated, later⟩⟩
    · cases found
    · exact ⟨k, d, seek_at stored, .here k⟩
    · have given := (asset_run ran k).symm.trans stored
      obtain ⟨m, v, here, rest⟩ := ih less (Nat.lt_succ_self less) later
      exact ⟨m, v, here, .next given deprecated rest⟩

theorem miss_of_none {lookup : Lookup} {fuel : Nat}
    (returns : lookup.result schemas host db fuel = some none) :
    lookup.result schemas host db fuel = some none ∧
      (lookup.result schemas host db fuel).bind respond = some .notFound := by
  rw [returns]
  exact ⟨rfl, rfl⟩

/-- A record with an iterator is never empty, so a lookup that always returns one is honest
    only about what was stored. -/
theorem honest_iff_stored {lookup : Lookup} {iterator : Iterator}
    (returns : ∀ fuel, lookup.result schemas host db fuel = some (some iterator))
    (owns : lookup.Stored schemas calls → ∃ key value, Record.At (some iterator) key value ∧
      lookup.Owns schemas host calls key) :
    lookup.Honest schemas host calls db ↔ lookup.Stored schemas calls := by
  constructor
  · intro honest
    by_contra never
    have empty := (honest.miss never 0).1
    rw [returns] at empty
    cases empty
  · intro stored
    constructor
    · exact fun never => absurd stored never
    · intro fuel record result _
      rw [returns] at result
      cases result
      exact owns stored

theorem findAsset_honest (ran : run (Database.call schemas host) Store.empty calls = some db)
    (k : UInt64) : (Lookup.findAsset k).Honest schemas host calls db := by
  constructor
  · intro never fuel
    have absent := (asset_run ran k).trans (not_not.mp never)
    exact miss_of_none (findAsset_missing absent fuel)
  · intro fuel record returns found
    obtain ⟨m, value, here, chain⟩ := findAsset_own ran returns found
    exact ⟨_, value, here, m, chain, rfl⟩

theorem findNamedAsset_honest
    (ran : run (Database.call schemas host) Store.empty calls = some db) (n : List Byte) :
    (Lookup.findNamedAsset n).Honest schemas host calls db := by
  have stored := assetName_run ran n
  constructor
  · intro never fuel
    rw [not_not.mp never] at stored
    exact miss_of_none (findNamedAsset_missing stored fuel)
  · intro fuel record returns found
    cases given : last (Call.assetName schemas n) calls with
    | none =>
      rw [given] at stored
      rw [Lookup.result, findNamedAsset_missing stored] at returns
      cases returns
      cases found
    | some k =>
      rw [given] at stored
      rw [Lookup.result, findNamedAsset_named stored] at returns
      obtain ⟨m, value, here, chain⟩ := findAsset_own ran returns found
      exact ⟨_, value, here, k, m, given, chain, rfl⟩

theorem findNamedList_honest
    (ran : run (Database.call schemas host) Store.empty calls = some db) (n : List Byte) :
    (Lookup.findNamedList n).Honest schemas host calls db := by
  have stored := listName_run ran n
  constructor
  · intro never fuel
    rw [not_not.mp never] at stored
    exact miss_of_none (congrArg some (findNamedList_missing stored))
  · intro fuel record returns found
    cases given : last (Call.listName schemas n) calls with
    | none =>
      rw [given] at stored
      rw [Lookup.result, findNamedList_missing stored] at returns
      cases returns
      cases found
    | some k =>
      rw [given] at stored
      rw [Lookup.result, findNamedList_named stored] at returns
      cases returns
      obtain ⟨d, listed⟩ := Option.ne_none_iff_exists'.mp (listName_stored given)
      exact ⟨_, d, seek_at ((list_run ran k).trans listed), k, given, rfl⟩

theorem misses_iff (ran : run (Database.call schemas host) Store.empty calls = some db)
    (lookup : Lookup) :
    lookup.Honest schemas host calls db ↔ lookup.Safe calls := by
  cases lookup with
  | findAsset k => exact iff_of_true (findAsset_honest ran k) trivial
  | findNamedAsset n => exact iff_of_true (findNamedAsset_honest ran n) trivial
  | findNamedList n => exact iff_of_true (findNamedList_honest ran n) trivial
  | loadAssetDataChunk k c =>
    apply honest_iff_stored (fun _ => rfl)
    intro stored
    obtain ⟨d, given⟩ := Option.ne_none_iff_exists'.mp stored
    exact ⟨_, d, seek_at ((chunk_run ran k c).trans given), rfl⟩
  | loadList k =>
    apply honest_iff_stored (fun _ => rfl)
    intro stored
    obtain ⟨d, given⟩ := Option.ne_none_iff_exists'.mp stored
    exact ⟨_, d, seek_at ((list_run ran k).trans given), rfl⟩

end Runs

theorem misses_iff_filed : (Lookup.loadList 7).Honest flatbuffers .little filing filed ↔
    (Lookup.loadList 7).Safe filing :=
  misses_iff (Option.some_get _).symm (.loadList 7)

/-- No chunk 1 of asset 1 was stored, and no list 9. They are answered with the entry that comes
    next: the begin of list 7, and the key that the name of the assets stands for. -/
theorem miss_is_found :
    run (Database.call flatbuffers .little) Store.empty filing = some filed ∧
      ¬ (Lookup.loadAssetDataChunk 1 1).Honest flatbuffers .little filing filed ∧
      respond (filed.loadAssetDataChunk .little 1 1) = some (.ok []) ∧
      ¬ (Lookup.loadList 9).Honest flatbuffers .little filing filed ∧
      respond (filed.loadList .little 9) = some (.ok [2, 0, 0, 0, 0, 0, 0, 0]) := by
  refine ⟨(Option.some_get _).symm, ?_, by decide +kernel, ?_, by decide +kernel⟩
  · intro honest
    have never : ¬ last (Call.chunk 1 1) filing ≠ none := by decide +kernel
    cases (honest.miss never 0).1
  · intro honest
    have never : ¬ last (Call.list 9) filing ≠ none := by decide +kernel
    cases (honest.miss never 0).1

end Confab
