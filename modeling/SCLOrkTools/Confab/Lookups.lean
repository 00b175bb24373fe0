import SCLOrkTools.Confab.Catalogue

/- What the lookups return after a run of stores, for what was stored and for what was not. -/
namespace Confab
open OrderedStores ByteStrings GuardedRun

variable {schemas : Schemas} {host : ByteOrder}

theorem seek_of_get {db : Database} {k v : List Byte} (stored : db.get k = some v) :
    ∃ rest, db.seek k = (k, v) :: rest :=
  List.head?_eq_some_iff.mp ((Store.seek_head db k).mpr stored)

theorem match_of_get {db : Database} {k v : List Byte} (stored : db.get k = some v) :
    iteratorMatch (db.seek k) k = true := by
  obtain ⟨rest, positioned⟩ := seek_of_get stored
  rw [positioned]
  exact decide_eq_true rfl

theorem value_of_get {db : Database} {k v : List Byte} (stored : db.get k = some v) :
    Iterator.value (db.seek k) = v := by
  obtain ⟨rest, positioned⟩ := seek_of_get stored
  rw [positioned]
  rfl

theorem no_match {db : Database} {k : List Byte} (absent : db.get k = none) :
    iteratorMatch (db.seek k) k = false := by
  cases positioned : db.seek k with
  | nil => rfl
  | cons entry rest =>
    apply decide_eq_false
    intro same
    have found := (Store.seek_head db k (v := entry.2)).mp (by rw [positioned, ← same]; rfl)
    rw [absent] at found
    cases found

def Record.At (r : Record) (key value : List Byte) : Prop :=
  ∃ rest, r = some ((key, value) :: rest)

theorem at_data {r : Record} {key value : List Byte} (positioned : r.At key value) :
    r.data = some value := by
  obtain ⟨rest, rfl⟩ := positioned
  rfl

theorem seek_at {db : Database} {k v : List Byte} (stored : db.get k = some v) :
    Record.At (some (db.seek k)) k v := by
  obtain ⟨rest, positioned⟩ := seek_of_get stored
  exact ⟨rest, congrArg some positioned⟩

theorem findAsset_current {db : Database} {k : UInt64} {d : List Byte}
    (stored : db.get (makeAssetKey host k) = some d)
    (current : (schemas.getFlatAsset d).deprecatedBy = 0) (fuel : Nat) :
    db.findAsset schemas host fuel k = some (some (db.seek (makeAssetKey host k))) := by
  unfold Database.findAsset Database.followDeprecated
  simp only [match_of_get stored, value_of_get stored, current, if_true]

theorem findAsset_missing {db : Database} {k : UInt64}
    (absent : db.get (makeAssetKey host k) = none) (fuel : Nat) :
    db.findAsset schemas host fuel k = some none := by
  unfold Database.findAsset
  simp [no_match absent]

section Loop
variable {db : Database} {k : UInt64} {d : List Byte}

theorem findAsset_next (stored : db.get (makeAssetKey host k) = some d)
    (deprecated : (schemas.getFlatAsset d).deprecatedBy ≠ 0) (fuel : Nat) :
    db.findAsset schemas host (fuel + 1) k =
      db.findAsset schemas host fuel (schemas.getFlatAsset d).deprecatedBy := by
  rw [Database.findAsset]
  simp only [match_of_get stored, if_true, Database.followDeprecated, value_of_get stored,
    if_neg deprecated]
  rfl

theorem findAsset_out (stored : db.get (makeAssetKey host k) = some d)
    (deprecated : (schemas.getFlatAsset d).deprecatedBy ≠ 0) :
    db.findAsset schemas host 0 k = none := by
  rw [Database.findAsset]
  simp only [match_of_get stored, if_true, Database.followDeprecated, value_of_get stored,
    if_neg deprecated]

theorem findAsset_cases {fuel : Nat} {record : Record}
    (returns : db.findAsset schemas host fuel k = some record) :
    (db.get (makeAssetKey host k) = none ∧ record = none) ∨
    ∃ d, db.get (makeAssetKey host k) = some d ∧
      ((schemas.getFlatAsset d).deprecatedBy = 0 ∧
          record = some (db.seek (makeAssetKey host k)) ∨
        ∃ less, fuel = less + 1 ∧ (schemas.getFlatAsset d).deprecatedBy ≠ 0 ∧
          db.findAsset schemas host less (schemas.getFlatAsset d).deprecatedBy = some record) := by
  cases stored : db.get (makeAssetKey host k) with
  | none =>
    rw [findAsset_missing stored] at returns
    cases returns
    exact .inl ⟨rfl, rfl⟩
  | some d =>
    refine .inr ⟨d, rfl, ?_⟩
    by_cases current : (schemas.getFlatAsset d).deprecatedBy = 0
    · rw [findAsset_current stored current] at returns
      cases returns
      exact .inl ⟨current, rfl⟩
    · cases fuel with
      | zero =>
        rw [findAsset_out stored current] at returns
        cases returns
      | succ less =>
        rw [findAsset_next stored current] at returns
        exact .inr ⟨less, rfl, current, returns⟩

end Loop

theorem findNamedAsset_named {db : Database} {n : List Byte} {k : UInt64}
    (stored : db.get (kAssetNamePrefix ++ n) = some (host.bytes k)) (fuel : Nat) :
    db.findNamedAsset schemas host fuel n = db.findAsset schemas host fuel k := by
  have whole : (host.bytes k).take 8 = host.bytes k := List.take_of_length_le (by simp)
  unfold Database.findNamedAsset
  simp only [match_of_get stored, value_of_get stored, whole, ByteOrder.read_bytes, if_true]

theorem findNamedAsset_missing {db : Database} {n : List Byte}
    (absent : db.get (kAssetNamePrefix ++ n) = none) (fuel : Nat) :
    db.findNamedAsset schemas host fuel n = some none := by
  unfold Database.findNamedAsset
  simp [no_match absent]

theorem findNamedList_named {db : Database} {n : List Byte} {k : UInt64}
    (stored : db.get (kListNamePrefix ++ n) = some (host.bytes k)) :
    db.findNamedList host n = db.loadList host k := by
  have whole : (host.bytes k).take 8 = host.bytes k := List.take_of_length_le (by simp)
  unfold Database.findNamedList
  simp only [match_of_get stored, value_of_get stored, whole, ByteOrder.read_bytes, if_true]

theorem findNamedList_missing {db : Database} {n : List Byte}
    (absent : db.get (kListNamePrefix ++ n) = none) : db.findNamedList host n = none := by
  unfold Database.findNamedList
  simp [no_match absent]

section Runs
variable {calls : List Call} {db : Database}

theorem asset_run (ran : run (Database.call schemas host) Store.empty calls = some db)
    (k : UInt64) : db.get (makeAssetKey host k) = last (Call.asset k) calls :=
  get_run ran (.asset k)

theorem chunk_run (ran : run (Database.call schemas host) Store.empty calls = some db)
    (k c : UInt64) : db.get (makeAssetDataKey host k c) = last (Call.chunk k c) calls :=
  get_run ran (.chunk k c)

theorem list_run (ran : run (Database.call schemas host) Store.empty calls = some db)
    (k : UInt64) : db.get (makeListKey host k) = last (Call.list k) calls :=
  get_run ran (.list k)

theorem assetName_run (ran : run (Database.call schemas host) Store.empty calls = some db)
    (n : List Byte) : db.get (kAssetNamePrefix ++ n) =
      (last (Call.assetName schemas n) calls).map host.bytes :=
  (get_run ran (.assetName n)).trans (last_map _ _ calls)

theorem listName_run (ran : run (Database.call schemas host) Store.empty calls = some db)
    (n : List Byte) : db.get (kListNamePrefix ++ n) =
      (last (Call.listName schemas n) calls).map host.bytes :=
  (get_run ran (.listName n)).trans (last_map _ _ calls)

end Runs

structure Answers (schemas : Schemas) (host : ByteOrder) (calls : List Call) (db : Database) :
    Prop where
  chunk : ∀ k c d, last (Call.chunk k c) calls = some d →
    (db.loadAssetDataChunk host k c).data = some d
  list : ∀ k d, last (Call.list k) calls = some d → (db.loadList host k).data = some d
  asset : ∀ k d, last (Call.asset k) calls = some d → (schemas.getFlatAsset d).deprecatedBy = 0 →
    ∀ fuel, ∃ r, db.findAsset schemas host fuel k = some r ∧ r.data = some d
  assetName : ∀ n k, last (Call.assetName schemas n) calls = some k →
    ∀ fuel, db.findNamedAsset schemas host fuel n = db.findAsset schemas host fuel k
  listName : ∀ n k, last (Call.listName schemas n) calls = some k →
    db.findNamedList host n = db.loadList host k

theorem answers_run {calls : List Call} {db : Database}
    (ran : run (Database.call schemas host) Store.empty calls = some db) :
    Answers schemas host calls db := by
  constructor
  · intro k c d given
    have stored : db.get (makeAssetDataKey host k c) = some d := (chunk_run ran k c).trans given
    exact at_data (seek_at stored)
  · intro k d given
    have stored : db.get (makeListKey host k) = some d := (list_run ran k).trans given
    exact at_data (seek_at stored)
  · intro k d given current fuel
    have stored : db.get (makeAssetKey host k) = some d := (asset_run ran k).trans given
    exact ⟨_, findAsset_current stored current fuel, at_data (seek_at stored)⟩
  · intro n k given fuel
    have stored : db.get (kAssetNamePrefix ++ n) = some (host.bytes k) := by
      rw [assetName_run ran, given]
      rfl
    exact findNamedAsset_named stored fuel
  · intro n k given
    have stored : db.get (kListNamePrefix ++ n) = some (host.bytes k) := by
      rw [listName_run ran, given]
      rfl
    exact findNamedList_named stored

/-- One more call leaves the answers about all it does not store as they are. -/
structure Undisturbed (schemas : Schemas) (host : ByteOrder) (calls : List Call) (call : Call)
    (db next : Database) : Prop where
  chunk : ∀ k c, last (Call.chunk k c) calls ≠ none → call.chunk k c = none →
    (next.loadAssetDataChunk host k c).data = (db.loadAssetDataChunk host k c).data
  list : ∀ k, last (Call.list k) calls ≠ none → call.list k = none →
    (next.loadList host k).data = (db.loadList host k).data
  asset : ∀ k d, last (Call.asset k) calls = some d → (schemas.getFlatAsset d).deprecatedBy = 0 →
    call.asset k = none → ∀ fuel, (next.findAsset schemas host fuel k).bind Record.data =
      (db.findAsset schemas host fuel k).bind Record.data
  assetName : ∀ n k, last (Call.assetName schemas n) calls = some k →
    call.assetName schemas n = none → ∀ fuel, next.findNamedAsset schemas host fuel n =
      next.findAsset schemas host fuel k
  listName : ∀ n k, last (Call.listName schemas n) calls = some k →
    call.listName schemas n = none → next.findNamedList host n = next.loadList host k

theorem last_kept {α : Type} {what : Call → Option α} {calls : List Call} {call : Call}
    (other : what call = none) : last what (calls ++ [call]) = last what calls := by
  rw [last_snoc, other]
  rfl

theorem undisturbed {calls : List Call} {call : Call} {db next : Database}
    (before : Answers schemas host calls db) (after : Answers schemas host (calls ++ [call]) next) :
    Undisturbed schemas host calls call db next := by
  constructor
  · intro k c stored other
    obtain ⟨d, given⟩ := Option.ne_none_iff_exists'.mp stored
    rw [before.chunk k c d given, after.chunk k c d ((last_kept other).trans given)]
  · intro k stored other
    obtain ⟨d, given⟩ := Option.ne_none_iff_exists'.mp stored
    rw [before.list k d given, after.list k d ((last_kept other).trans given)]
  · intro k d given current other fuel
    obtain ⟨r, found, data⟩ := before.asset k d given current fuel
    obtain ⟨s, again, same⟩ := after.asset k d ((last_kept other).trans given) current fuel
    rw [found, again]
    exact same.trans data.symm
  · intro n k given other
    exact after.assetName n k ((last_kept other).trans given)
  · intro n k given other
    exact after.listName n k ((last_kept other).trans given)

theorem no_interference {calls : List Call} {db : Database}
    (ran : run (Database.call schemas host) Store.empty calls = some db) :
    Answers schemas host calls db ∧ ∀ call next, db.call schemas host call = some next →
      Undisturbed schemas host calls call db next :=
  ⟨answers_run ran, fun _ _ step =>
    undisturbed (answers_run ran) (answers_run (run_snoc.mpr ⟨db, ran, step⟩))⟩

def filing : List Call :=
  [.storeList 7 listBuffer, .storeAsset 1500 1 assetBuffer, .storeAssetDataChunk 1 0 [65],
    .storeAsset 1600 2 assetBuffer, .storeAssetDataChunk 1 0 [66, 67]]

def filed : Database :=
  (run (Database.call flatbuffers .little) Store.empty filing).get (by decide +kernel)

theorem no_interference_filed : Answers flatbuffers .little filing filed ∧
    ∀ call next, filed.call flatbuffers .little call = some next →
      Undisturbed flatbuffers .little filing call filed next :=
  no_interference (Option.some_get _).symm

end Confab
