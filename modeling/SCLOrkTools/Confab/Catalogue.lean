import SCLOrkTools.Confab.AssetDatabase
import SCLOrkTools.Library.GuardedRun

/- What the calls of a run have stored, item by item, and that the database reads it back under
   the key of each item. -/
namespace Confab
open OrderedStores ByteStrings GuardedRun

inductive Call where
  | storeAsset (now key : UInt64) (assetData : List Byte)
  | storeAssetDataChunk (key chunk : UInt64) (flatAssetData : List Byte)
  | storeList (key : UInt64) (listEntry : List Byte)

/-- What is stored under a key of its own, the entries of lists aside. -/
inductive Item where
  | asset (key : UInt64)
  | chunk (key chunk : UInt64)
  | list (key : UInt64)
  | assetName (name : List Byte)
  | listName (name : List Byte)
  deriving DecidableEq

def last {α : Type} (what : Call → Option α) (calls : List Call) : Option α :=
  (calls.filterMap what).getLast?

theorem last_snoc {α : Type} (what : Call → Option α) (calls : List Call) (call : Call) :
    last what (calls ++ [call]) = (what call).or (last what calls) := by
  unfold last
  rw [List.filterMap_append]
  cases given : what call with
  | none => simp [given]
  | some a => simp [given]

theorem last_map {α β : Type} (what : Call → Option α) (f : α → β) (calls : List Call) :
    last (fun call => (what call).map f) calls = (last what calls).map f := by
  unfold last
  rw [← List.getLast?_map, List.map_filterMap]

namespace Call

def asset (k : UInt64) : Call → Option (List Byte)
  | storeAsset _ key assetData => if k = key then some assetData else none
  | _ => none

def chunk (k c : UInt64) : Call → Option (List Byte)
  | storeAssetDataChunk key chunk data => if k = key ∧ c = chunk then some data else none
  | _ => none

def list (k : UInt64) : Call → Option (List Byte)
  | storeList key listEntry => if k = key then some listEntry else none
  | _ => none

def assetName (schemas : Schemas) (n : List Byte) : Call → Option UInt64
  | storeAsset _ key data => if (schemas.getFlatAsset data).name = some n ∧ n ≠ [] then some key
    else none
  | _ => none

def listName (schemas : Schemas) (n : List Byte) : Call → Option UInt64
  | storeList key data => if (schemas.getFlatList data).name = some n ∧ n ≠ [] then some key
    else none
  | _ => none

end Call

section Keys
variable (host : ByteOrder)

def Item.key : Item → List Byte
  | asset k => makeAssetKey host k
  | chunk k c => makeAssetDataKey host k c
  | list k => makeListKey host k
  | assetName n => kAssetNamePrefix ++ n
  | listName n => kListNamePrefix ++ n

def Item.kind : Item → Nat
  | asset _ => 0
  | chunk _ _ => 1
  | list _ => 2
  | assetName _ => 3
  | listName _ => 4

theorem item_key_kind {i j : Item} (same : i.key host = j.key host) : i.kind = j.kind := by
  cases i with
  | asset | chunk | list | assetName | listName =>
    cases j with
    | asset | chunk | list | assetName | listName =>
      simp [Item.kind, Item.key, makeAssetKey, makeAssetDataKey, makeListKey, kAssetNamePrefix,
        kListNamePrefix, kAsset, kAssetData, kList] at same ⊢

theorem item_key_inj {i j : Item} (same : i.key host = j.key host) : i = j := by
  have kinds := item_key_kind host same
  cases i with
  | asset k => cases j with
    | asset m =>
      obtain ⟨-, number⟩ := List.cons.inj same
      rw [(host.bytes_inj).mp number]
    | chunk | list | assetName | listName => cases kinds
  | chunk k c => cases j with
    | chunk m d =>
      obtain ⟨-, numbers⟩ := List.cons.inj same
      obtain ⟨first, second⟩ := List.append_inj numbers (by simp)
      rw [(host.bytes_inj).mp first, (host.bytes_inj).mp second]
    | asset | list | assetName | listName => cases kinds
  | list k => cases j with
    | list m =>
      obtain ⟨-, number⟩ := List.cons.inj same
      rw [(host.bytes_inj).mp number]
    | asset | chunk | assetName | listName => cases kinds
  | assetName n => cases j with
    | assetName m => rw [List.append_cancel_left same]
    | asset | chunk | list | listName => cases kinds
  | listName n => cases j with
    | listName m => rw [List.append_cancel_left same]
    | asset | chunk | list | assetName => cases kinds

theorem item_key_entry (i : Item) (list timeStamp key : List Byte) :
    i.key host ≠ listEntryKey list timeStamp key := by
  intro same
  cases i with
  | asset | chunk | list | assetName | listName =>
    simp [Item.key, makeAssetKey, makeAssetDataKey, makeListKey, kAssetNamePrefix,
      kListNamePrefix, kAsset, kAssetData, kList, listEntryKey, kListEntry] at same

end Keys

variable (schemas : Schemas) (host : ByteOrder)

def Database.call (db : Database) : Call → Option Database
  | .storeAsset now key assetData => db.storeAsset schemas host now key assetData
  | .storeAssetDataChunk key chunk data => some (db.storeAssetDataChunk host key chunk data)
  | .storeList key listEntry => some (db.storeList schemas host key listEntry)

def Call.stored (item : Item) (call : Call) : Option (List Byte) :=
  match item with
  | .asset k => call.asset k
  | .chunk k c => call.chunk k c
  | .list k => call.list k
  | .assetName n => (call.assetName schemas n).map host.bytes
  | .listName n => (call.listName schemas n).map host.bytes

variable {schemas host}

theorem write_append (db : Database) (front back : List (List Byte × List Byte)) :
    db.write (front ++ back) = (db.write front).write back := by
  simp [Store.write]

theorem get_listBatch {db : Database} {lists : List UInt64} {timeStamp key : UInt64} {k : List Byte}
    (other : ∀ list timeStamp key, k ≠ listEntryKey list timeStamp key) :
    (db.write (Database.listBatch host lists timeStamp key)).get k = db.get k := by
  apply Store.get_write_other db
  intro e member
  obtain ⟨list, -, rfl⟩ := List.mem_map.mp member
  exact (other _ _ _).symm

theorem get_put_item (db : Database) (i j : Item) (v : List Byte) :
    (db.put (i.key host) v).get (j.key host) = if j = i then some v else db.get (j.key host) := by
  by_cases same : j = i
  · rw [same, if_pos rfl, Store.get_put_self]
  · rw [if_neg same, Store.get_put_other db v fun keys => same (item_key_inj host keys)]

/-- What a name writes under the key of an item. `made n` is the item that stands for n. -/
def named (host : ByteOrder) (made : List Byte → Item) (name : Option (List Byte))
    (key : UInt64) (item : Item) : Option (List Byte) :=
  name.bind fun n => if item = made n ∧ n ≠ [] then some (host.bytes key) else none

theorem get_nameBatch {db : Database} {made : List Byte → Item} {prefixed : List Byte}
    (keyed : ∀ n, (made n).key host = prefixed ++ n) (name : Option (List Byte)) (key : UInt64)
    (item : Item) :
    (db.write (Database.nameBatch host prefixed name key)).get (item.key host) =
      (named host made name key item).or (db.get (item.key host)) := by
  cases name with
  | none => simp [Database.nameBatch, Store.write, named]
  | some n =>
    by_cases empty : n = []
    · simp [Database.nameBatch, Store.write, named, empty]
    · have long : n.length > 0 := List.length_pos_iff.mpr empty
      rw [Database.nameBatch, if_pos long, ← keyed]
      refine (get_put_item db (made n) item (host.bytes key)).trans ?_
      by_cases same : item = made n
      · simp [named, same, empty]
      · simp [named, same]

theorem storeAsset_eq {db next : Database} {now key : UInt64} {assetData : List Byte}
    (ran : db.storeAsset schemas host now key assetData = some next) :
    ∃ lists timeStamp, (schemas.getFlatAsset assetData).lists = some lists ∧
      lists.length ≤ kAssetMaxListEntries ∧ timeStamp = (if lists.length = 0 then 0 else now) ∧
        next = (((db.write (Database.nameBatch host kAssetNamePrefix
          (schemas.getFlatAsset assetData).name key)).write
            (Database.listBatch host lists timeStamp key)).put (makeAssetKey host key)
              assetData) := by
  simp only [Database.storeAsset] at ran
  split at ran
  · cases ran
  · rename_i lists given
    split at ran
    · rename_i fits
      cases ran
      refine ⟨lists, _, given, fits, rfl, ?_⟩
      rw [write_append, write_append]
      rfl
    · cases ran

theorem get_storeAsset {db next : Database} {now key : UInt64} {assetData : List Byte}
    (ran : db.storeAsset schemas host now key assetData = some next) (item : Item) :
    next.get (item.key host) =
      if item = .asset key then some assetData
      else (named host .assetName (schemas.getFlatAsset assetData).name key item).or
        (db.get (item.key host)) := by
  obtain ⟨lists, timeStamp, -, -, -, rfl⟩ := storeAsset_eq ran
  change Store.get (Store.put _ (Item.key host (.asset key)) assetData) _ = _
  rw [get_put_item, get_listBatch (item_key_entry host item),
    get_nameBatch fun n => (rfl : (Item.assetName n).key host = kAssetNamePrefix ++ n)]

theorem get_storeList (db : Database) (key : UInt64) (listEntry : List Byte) (item : Item) :
    (db.storeList schemas host key listEntry).get (item.key host) =
      if item = .list key then some listEntry
      else (named host .listName (schemas.getFlatList listEntry).name key item).or
        (db.get (item.key host)) := by
  unfold Database.storeList
  rw [write_append]
  change Store.get (Store.put (Store.put (Store.put _ _ _) _ _) (Item.key host (.list key))
    listEntry) _ = _
  rw [get_put_item, Store.get_put_other _ _ (item_key_entry host item _ _ _),
    Store.get_put_other _ _ (item_key_entry host item _ _ _),
    get_nameBatch fun n => (rfl : (Item.listName n).key host = kListNamePrefix ++ n)]

theorem named_eq (made : List Byte → Item) (inj : made.Injective) (name : Option (List Byte))
    (key : UInt64) (n : List Byte) :
    named host made name key (made n) =
      if name = some n ∧ n ≠ [] then some (host.bytes key) else none := by
  cases name with
  | none => simp [named]
  | some m => simp only [named, Option.bind_some, inj.eq_iff, Option.some.injEq]; grind

theorem get_call {db next : Database} {call : Call}
    (ran : db.call schemas host call = some next) (item : Item) :
    next.get (item.key host) =
      (call.stored schemas host item).or (db.get (item.key host)) := by
  cases call with
  | storeAsset now key data =>
    rw [get_storeAsset ran]
    cases item with
    | asset k => by_cases same : k = key <;> simp [Call.stored, Call.asset, named, same]
    | assetName n =>
      rw [if_neg nofun, named_eq _ fun _ _ => Item.assetName.inj]
      simp [Call.stored, Call.assetName, apply_ite (Option.map host.bytes)]
    | chunk | list | listName =>
      simp [Call.stored, Call.chunk, Call.list, Call.listName, named]
  | storeAssetDataChunk key chunk data =>
    cases ran
    refine (get_put_item db (.chunk key chunk) item data).trans ?_
    cases item with
    | chunk k c =>
      by_cases same : k = key ∧ c = chunk
      · simp [Call.stored, Call.chunk, same]
      · rw [if_neg fun items => same (Item.chunk.inj items)]
        simp [Call.stored, Call.chunk, same]
    | asset | list | assetName | listName =>
      simp [Call.stored, Call.asset, Call.list, Call.assetName, Call.listName]
  | storeList key data =>
    cases ran
    rw [get_storeList]
    cases item with
    | list k => by_cases same : k = key <;> simp [Call.stored, Call.list, named, same]
    | listName n =>
      rw [if_neg nofun, named_eq _ fun _ _ => Item.listName.inj]
      simp [Call.stored, Call.listName, apply_ite (Option.map host.bytes)]
    | asset | chunk | assetName =>
      simp [Call.stored, Call.asset, Call.chunk, Call.assetName, named]

theorem get_run {calls : List Call} {db : Database}
    (ran : run (Database.call schemas host) Store.empty calls = some db) (item : Item) :
    db.get (item.key host) = last (Call.stored schemas host item) calls := by
  have preserved (past : List Call) (db : Database) (call : Call) (next : Database)
      (before : ∀ item : Item, db.get (item.key host) =
        last (Call.stored schemas host item) past)
      (step : db.call schemas host call = some next) (item : Item) :
      next.get (item.key host) = last (Call.stored schemas host item) (past ++ [call]) := by
    rw [get_call step, before, last_snoc]
  exact run_keeps_history (fun past db => ∀ item : Item, db.get (item.key host) =
    last (Call.stored schemas host item) past) preserved (fun _ => rfl) ran item

end Confab
