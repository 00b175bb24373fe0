import Mathlib.Data.List.Sort
import SCLOrkTools.Confab.Lookups

/- The entries of one list on a host that keeps the least significant byte first: where they lie
   in the store, and what a page from a token on holds. -/
namespace Confab
open OrderedStores ByteStrings

def listFront (list : UInt64) : List Byte := kListEntry :: ByteOrder.little.bytes list

def entryKey (list : UInt64) (pair : UInt64 × UInt64) : List Byte :=
  listEntryKey (ByteOrder.little.bytes list) (ByteOrder.little.bytes pair.1)
    (ByteOrder.little.bytes pair.2)

def entryKeyOn (host : ByteOrder) (list : UInt64) (pair : UInt64 × UInt64) : List Byte :=
  listEntryKey (host.bytes list) (host.bytes pair.1) (host.bytes pair.2)

def Before (t u : UInt64) : Prop := ByteOrder.little.bytes t < ByteOrder.little.bytes u

instance (t u : UInt64) : Decidable (Before t u) :=
  inferInstanceAs (Decidable (ByteOrder.little.bytes t < ByteOrder.little.bytes u))

section Keys
variable {list : UInt64} {pair other : UInt64 × UInt64}

theorem entryKey_eq (list : UInt64) (pair : UInt64 × UInt64) :
    entryKey list pair = listFront list ++
      (ByteOrder.little.bytes pair.1 ++ ByteOrder.little.bytes pair.2) := rfl

theorem entryKeyOn_eq (host : ByteOrder) (list : UInt64) (pair : UInt64 × UInt64) :
    entryKeyOn host list pair =
      entryKey (host.coded list) (host.coded pair.1, host.coded pair.2) := by
  simp only [entryKey, entryKeyOn, ByteOrder.bytes_coded]

theorem length_listFront (list : UInt64) : (listFront list).length = 9 := by
  simp [listFront]

theorem length_entryKey (list : UInt64) (pair : UInt64 × UInt64) :
    (entryKey list pair).length = kListEntryKeySize := by
  simp [entryKey_eq, length_listFront, kListEntryKeySize]

theorem take_entryKey (list : UInt64) (pair : UInt64 × UInt64) :
    (entryKey list pair).take 9 = listFront list := by
  rw [entryKey_eq]
  exact List.take_left' (length_listFront list)

theorem pairAt_entryKey (list : UInt64) (pair : UInt64 × UInt64) :
    Database.pairAt .little (entryKey list pair) = pair := by
  have first : ((entryKey list pair).drop 9).take 8 = ByteOrder.little.bytes pair.1 := by
    rw [entryKey_eq, List.drop_left' (length_listFront list)]
    exact List.take_left' (by simp)
  have second : ((entryKey list pair).drop 17).take 8 = ByteOrder.little.bytes pair.2 := by
    rw [entryKey_eq, ← List.append_assoc, List.drop_left' (by simp [length_listFront])]
    exact List.take_of_length_le (by simp)
  unfold Database.pairAt
  rw [first, second, ByteOrder.read_bytes, ByteOrder.read_bytes]

theorem entryKey_lt (before : Before pair.1 other.1) :
    entryKey list pair < entryKey list other := by
  rw [entryKey_eq, entryKey_eq]
  have apart := append_lt (x := ByteOrder.little.bytes pair.2)
    (y := ByteOrder.little.bytes other.2) (by simp) before
  exact lt_of_le_of_ne (append_le apart.le) fun same => apart.ne (List.append_cancel_left same)

theorem entryKey_begin (list t k : UInt64) :
    entryKey list (t, kBeginList) ≤ entryKey list (t, k) := by
  rw [entryKey_eq, entryKey_eq]
  exact append_le (append_le (ByteOrder.little.zero_le k))

theorem front_entryKey (list : UInt64) (pair : UInt64 × UInt64) :
    listFront list <+: entryKey list pair := List.prefix_append _ _

theorem front_of_other {list other : UInt64} {rest : List Byte}
    (starts : listFront list <+: listFront other ++ rest) : other = list := by
  have same : listFront list = listFront other := by
    have whole := List.prefix_append (listFront other) rest
    have prefixes := List.prefix_of_prefix_length_le starts whole
      (by rw [length_listFront, length_listFront])
    exact prefixes.eq_of_length (by rw [length_listFront, length_listFront])
  exact (ByteOrder.little.bytes_inj.mp (List.cons.inj same).2).symm

theorem front_item (list : UInt64) (host : ByteOrder) (item : Item) :
    ¬ listFront list <+: item.key host := by
  rintro ⟨rest, same⟩
  cases item with
  | asset | chunk | list | assetName | listName =>
    simp [Item.key, makeAssetKey, makeAssetDataKey, makeListKey, kAssetNamePrefix,
      kListNamePrefix, kAsset, kAssetData, kList, listFront, kListEntry] at same

end Keys

/-- The entries of a list that the store holds, in the order of their time stamps, and that the
    list itself is stored. -/
structure Holds (db : Database) (list : UInt64) (entries : List (UInt64 × UInt64)) : Prop where
  keys : ∀ k, listFront list <+: k → ((db.get k).isSome ↔ k ∈ entries.map (entryKey list))
  sorted : entries.Pairwise fun p q => Before p.1 q.1
  listed : (db.get (makeListKey .little list)).isSome

section Paging
variable {list : UInt64}

theorem listPairs_page {room : Nat} {entry next : List Byte × List Byte}
    {es rest : List (List Byte × List Byte)} {page : List (UInt64 × UInt64)}
    (keys : es.map (·.1) = page.map (entryKey list)) (beyond : ¬ listFront list <+: next.1) :
    Database.listPairs .little (listFront list) room (entry :: (es ++ next :: rest)) =
      some (page.take room) := by
  induction room generalizing entry es page with
  | zero => simp [Database.listPairs]
  | succ room ih =>
    cases es with
    | nil =>
      have empty : page = [] := by simpa using keys.symm
      have other : next.1.take 9 ≠ listFront list :=
        fun same => beyond (same ▸ List.take_prefix 9 next.1)
      rw [empty, List.nil_append, Database.listPairs, List.tail_cons]
      simp [other]
    | cons e es =>
      cases page with
      | nil => simp at keys
      | cons pair page =>
        obtain ⟨first, later⟩ : e.1 = entryKey list pair ∧
          es.map (·.1) = page.map (entryKey list) := List.cons.inj keys
        have fits : ¬ (e.1.length ≠ kListEntryKeySize ∨ e.1.take 9 ≠ listFront list) := by
          rw [first, length_entryKey, take_entryKey]
          simp
        rw [List.cons_append, Database.listPairs, List.tail_cons]
        simp only [if_neg fits]
        rw [ih later, first, pairAt_entryKey]
        rfl

variable {db : Database}

theorem mem_from {front back : List (UInt64 × UInt64)} {token key : UInt64}
    (sorted : (front ++ (token, key) :: back).Pairwise fun p q => Before p.1 q.1)
    {k : List Byte} :
    k ∈ (front ++ (token, key) :: back).map (entryKey list) ∧
        entryKey list (token, kBeginList) ≤ k ↔
      k ∈ ((token, key) :: back).map (entryKey list) := by
  obtain ⟨-, later, earlier⟩ := List.pairwise_append.mp sorted
  have begins := entryKey_begin list token key
  constructor
  · rintro ⟨member, reached⟩
    obtain ⟨p, given, rfl⟩ := List.mem_map.mp member
    rcases List.mem_append.mp given with before | from_here
    · have lower : Before p.1 token := earlier p before (token, key) List.mem_cons_self
      exact absurd reached (not_le.mpr (entryKey_lt lower))
    · exact List.mem_map_of_mem from_here
  · intro member
    obtain ⟨p, given, rfl⟩ := List.mem_map.mp member
    refine ⟨List.mem_map_of_mem (List.mem_append_right front given), ?_⟩
    rcases List.mem_cons.mp given with rfl | behind
    · exact begins
    · have higher : Before token p.1 := (List.pairwise_cons.mp later).1 p behind
      exact (entryKey_lt higher).le

theorem mem_stored {db : Database} {k : List Byte} :
    (∃ e ∈ db.entries, e.1 = k) ↔ (db.get k).isSome := by
  rw [Option.isSome_iff_exists]
  constructor
  · rintro ⟨e, member, rfl⟩
    exact ⟨e.2, Store.get_eq_some.mpr member⟩
  · rintro ⟨v, stored⟩
    exact ⟨(k, v), Store.get_eq_some.mp stored, rfl⟩

theorem seek_entries {front back : List (UInt64 × UInt64)} {token key : UInt64}
    (holds : Holds db list (front ++ (token, key) :: back)) :
    ((db.seek (entryKey list (token, kBeginList))).filter
        fun e => decide (listFront list <+: e.1)).map (·.1) =
      ((token, key) :: back).map (entryKey list) := by
  obtain ⟨keys, sorted, -⟩ := holds
  have found := Store.seek_eq_filter db (entryKey list (token, kBeginList))
  generalize db.seek (entryKey list (token, kBeginList)) = cursor at found
  have ordered : cursor.Pairwise (·.1 < ·.1) := by
    rw [found]
    exact db.sorted.filter _
  have member (e : List Byte × List Byte) :
      e ∈ cursor ↔ e ∈ db.entries ∧ entryKey list (token, kBeginList) ≤ e.1 := by
    rw [found, List.mem_filter, decide_eq_true_iff]
  have kept_keys (k : List Byte) :
      k ∈ (cursor.filter fun e => decide (listFront list <+: e.1)).map (·.1) ↔
        k ∈ ((token, key) :: back).map (entryKey list) := by
    rw [← mem_from sorted]
    constructor
    · intro inside
      obtain ⟨e, kept, rfl⟩ := List.mem_map.mp inside
      obtain ⟨at_cursor, starts⟩ := List.mem_filter.mp kept
      obtain ⟨stored, reached⟩ := (member e).mp at_cursor
      exact ⟨(keys e.1 (of_decide_eq_true starts)).mp (mem_stored.mp ⟨e, stored, rfl⟩), reached⟩
    · rintro ⟨entered, reached⟩
      obtain ⟨p, -, rfl⟩ := List.mem_map.mp entered
      have starts := front_entryKey list p
      obtain ⟨e, stored, same⟩ := mem_stored.mpr ((keys _ starts).mpr entered)
      rw [← same] at reached starts
      refine List.mem_map.mpr ⟨e, List.mem_filter.mpr ⟨?_, decide_eq_true starts⟩, same⟩
      exact (member e).mpr ⟨stored, reached⟩
  refine List.Pairwise.eq_of_mem_iff (r := (· < ·)) ?_ ?_ kept_keys
  · exact List.pairwise_map.mpr (ordered.filter _)
  · have later := (List.pairwise_append.mp sorted).2.1
    exact List.pairwise_map.mpr (later.imp entryKey_lt)

theorem seek_split (db : Database) (list token : UInt64) :
    db.seek (entryKey list (token, kBeginList)) =
      ((db.seek (entryKey list (token, kBeginList))).filter
        fun e => decide (listFront list <+: e.1)) ++
      (db.seek (entryKey list (token, kBeginList))).filter
        fun e => !decide (listFront list <+: e.1) := by
  have found := Store.seek_eq_filter db (entryKey list (token, kBeginList))
  generalize db.seek (entryKey list (token, kBeginList)) = cursor at found
  have ordered : cursor.Pairwise (·.1 < ·.1) := by
    rw [found]
    exact db.sorted.filter _
  have closed : cursor.Pairwise fun a b =>
      decide (listFront list <+: b.1) → decide (listFront list <+: a.1) := by
    refine ordered.imp_of_mem fun {a b} left right before kept => ?_
    rw [found, List.mem_filter, decide_eq_true_iff] at left
    have lies := front_between (front_entryKey list (token, kBeginList)) (of_decide_eq_true kept)
      left.2 before.le
    exact decide_eq_true lies
  exact filter_split closed

theorem seek_beyond {pairs : List (UInt64 × UInt64)} (holds : Holds db list pairs)
    (token : UInt64) :
    ∃ e ∈ db.seek (entryKey list (token, kBeginList)), ¬ listFront list <+: e.1 := by
  obtain ⟨v, stored⟩ := Option.isSome_iff_exists.mp holds.listed
  have beyond : entryKey list (token, kBeginList) ≤ makeListKey .little list :=
    cons_le_cons_iff.mpr (Or.inl (by decide))
  refine ⟨(makeListKey .little list, v), ?_, front_item list .little (.list list)⟩
  rw [Store.seek_eq_filter]
  exact List.mem_filter.mpr ⟨Store.get_eq_some.mp stored, decide_eq_true beyond⟩

/-- The entries from a given one on are what Seek finds for its time stamp, up to the first entry
    of something else. -/
theorem seek_page {front back : List (UInt64 × UInt64)} {token key : UInt64}
    (holds : Holds db list (front ++ (token, key) :: back)) :
    ∃ entry es next rest,
      db.seek (entryKey list (token, kBeginList)) = entry :: (es ++ next :: rest) ∧
        es.map (·.1) = back.map (entryKey list) ∧ ¬ listFront list <+: next.1 := by
  have kept := seek_entries holds
  have split := seek_split db list token
  obtain ⟨e, member, outside⟩ := seek_beyond holds token
  generalize db.seek (entryKey list (token, kBeginList)) = cursor at kept split member
  have ends : e ∈ cursor.filter fun e => !decide (listFront list <+: e.1) :=
    List.mem_filter.mpr ⟨member, by simp [outside]⟩
  cases first : cursor.filter fun e => decide (listFront list <+: e.1) with
  | nil =>
    rw [first] at kept
    cases kept
  | cons entry es =>
    rw [first] at kept
    cases second : cursor.filter fun e => !decide (listFront list <+: e.1) with
    | nil =>
      rw [second] at ends
      cases ends
    | cons next rest =>
      refine ⟨entry, es, next, rest, ?_, (List.cons.inj kept).2, ?_⟩
      · rw [split, first, second]
        rfl
      · have other : next ∈ cursor.filter fun e => !decide (listFront list <+: e.1) := by
          rw [second]
          exact List.mem_cons_self
        simpa using (List.mem_filter.mp other).2

theorem getListNext_page {front back : List (UInt64 × UInt64)} {token key : UInt64}
    (holds : Holds db list (front ++ (token, key) :: back)) (continues : token ≠ kEndList)
    (maxPairs : Nat) :
    db.getListNext .little list token maxPairs =
      ((back.take maxPairs).length, back.take maxPairs) := by
  obtain ⟨entry, es, next, rest, found, keys, beyond⟩ := seek_page holds
  have start : listEntryKey (ByteOrder.little.bytes list) (ByteOrder.little.bytes token)
    (ByteOrder.little.bytes kBeginList) = entryKey list (token, kBeginList) := rfl
  unfold Database.getListNext
  simp only [if_neg continues, start, found, take_entryKey, listPairs_page keys beyond]

end Paging
end Confab
