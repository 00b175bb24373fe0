import Mathlib.Data.List.Sort
import SCLOrkTools.Confab.ListPolling
import SCLOrkTools.Confab.Misses

/- Reading a whole list page by page, on a host of either byte order. -/
namespace Confab
open OrderedStores ByteStrings GuardedRun

section Pages
variable {host : ByteOrder}

/-- A pair as the host reads it whose bytes are those of `pair` on a host that keeps the least
    significant byte first. -/
def decoded (host : ByteOrder) (pair : UInt64 × UInt64) : UInt64 × UInt64 :=
  (host.read (ByteOrder.little.bytes pair.1), host.read (ByteOrder.little.bytes pair.2))

theorem decoded_coded (pair : UInt64 × UInt64) :
    decoded host (host.coded pair.1, host.coded pair.2) = pair := by
  simp [decoded, ByteOrder.bytes_coded]

theorem pairAt_decoded {key : List Byte} (whole : key.length = kListEntryKeySize) :
    Database.pairAt host key = decoded host (Database.pairAt .little key) := by
  have first : ((key.drop 9).take 8).length = 8 := by simp [whole, kListEntryKeySize]
  have second : ((key.drop 17).take 8).length = 8 := by simp [whole, kListEntryKeySize]
  unfold Database.pairAt decoded
  rw [ByteOrder.bytes_read first, ByteOrder.bytes_read second]

theorem listPairs_decoded (listStart : List Byte) (room : Nat) (iterator : Iterator) :
    Database.listPairs host listStart room iterator =
      (Database.listPairs .little listStart room iterator).map (·.map (decoded host)) := by
  induction room generalizing iterator with
  | zero => rfl
  | succ room ih =>
    unfold Database.listPairs
    cases iterator.tail with
    | nil => rfl
    | cons entry rest =>
      by_cases other : entry.1.length ≠ kListEntryKeySize ∨ entry.1.take 9 ≠ listStart
      · simp only [if_pos other, Option.map_some, List.map_nil]
      · have whole : entry.1.length = kListEntryKeySize := by
          by_contra short
          exact other (Or.inl short)
        simp only [if_neg other]
        rw [ih, pairAt_decoded whole, Option.map_map, Option.map_map]
        rfl

/-- What a host reads is what one of the other kind reads, but for the order of the bytes. -/
theorem getListNext_decoded (db : Database) (list token : UInt64) (maxPairs : Nat) :
    db.getListNext host list token maxPairs =
      ((db.getListNext .little (host.coded list) (host.coded token) maxPairs).1,
        (db.getListNext .little (host.coded list) (host.coded token) maxPairs).2.map
          (decoded host)) := by
  have ends : host.coded kEndList = kEndList := host.coded_max
  by_cases last : token = kEndList
  · have pair := @decoded_coded host (kEndList, kEndList)
    rw [ends] at pair
    subst last
    unfold Database.getListNext
    rw [if_pos rfl, if_pos ends, apply_ite (List.map (decoded host)), List.map_singleton, pair,
      List.map_nil]
  · have continues : host.coded token ≠ kEndList := by
      intro same
      exact last (host.coded_inj.mp (same.trans ends.symm))
    have begins : host.coded kBeginList = kBeginList := host.coded_zero
    have key : listEntryKey (ByteOrder.little.bytes (host.coded list))
        (ByteOrder.little.bytes (host.coded token)) (ByteOrder.little.bytes kBeginList) =
        listEntryKey (host.bytes list) (host.bytes token) (host.bytes kBeginList) := by
      rw [ByteOrder.bytes_coded, ByteOrder.bytes_coded, ← begins, ByteOrder.bytes_coded, begins]
    unfold Database.getListNext
    simp only [if_neg last, if_neg continues, key]
    cases db.seek (listEntryKey (host.bytes list) (host.bytes token) (host.bytes kBeginList)) with
    | nil => rfl
    | cons entry rest =>
      simp only [@listPairs_decoded host]
      cases Database.listPairs .little _ maxPairs (entry :: rest) with
      | none => rfl
      | some pairs => simp

end Pages

/-- A client that reads a list: it asks for a page from a token on, and goes on from the token of
    the last pair until that is the end. None if `fuel` pages are not enough, or if a page is an
    error. -/
def Database.readList (db : Database) (host : ByteOrder) (list : UInt64) (maxPairs : Nat) :
    Nat → UInt64 → Option (List (UInt64 × UInt64))
  | 0, _ => none
  | fuel + 1, token =>
    let page := db.getListNext host list token maxPairs
    if page.1 = 0 then none
    else if lastToken token page.2 = kEndList then some page.2
    else (readList db host list maxPairs fuel (lastToken token page.2)).map (page.2 ++ ·)

section Walk
variable {host : ByteOrder} {db : Database} {list : UInt64} {maxPairs : Nat}

/-- A pair that has, the least significant byte first, the bytes that the host keeps. -/
def code (host : ByteOrder) (pair : UInt64 × UInt64) : UInt64 × UInt64 :=
  (host.coded pair.1, host.coded pair.2)

theorem getListNext_rest {front back : List (UInt64 × UInt64)} {token key : UInt64}
    (holds : Holds db (host.coded list) ((front ++ (token, key) :: back).map (code host)))
    (continues : token ≠ kEndList) :
    db.getListNext host list token maxPairs =
      ((back.take maxPairs).length, back.take maxPairs) := by
  have away : host.coded token ≠ kEndList := by
    intro same
    exact continues (host.coded_inj.mp (same.trans host.coded_max.symm))
  rw [List.map_append, List.map_cons] at holds
  have page : db.getListNext .little (host.coded list) (host.coded token) maxPairs =
      (((back.map (code host)).take maxPairs).length, (back.map (code host)).take maxPairs) :=
    getListNext_page holds away maxPairs
  have read : (back.take maxPairs).map (decoded host ∘ code host) = back.take maxPairs := by
    have same : decoded host ∘ code host = id := funext decoded_coded
    rw [same, List.map_id]
  rw [getListNext_decoded, page, ← List.map_take, List.map_map, read, List.length_map]

theorem readList_rest {fuel : Nat} {front rest : List (UInt64 × UInt64)} {token key : UInt64}
    (holds : Holds db (host.coded list)
      ((front ++ (token, key) :: (rest ++ [(kEndList, kEndList)])).map (code host)))
    (continues : token ≠ kEndList) (inner : ∀ pair ∈ rest, pair.1 ≠ kEndList)
    (room : 1 ≤ maxPairs) (enough : rest.length < fuel) :
    db.readList host list maxPairs fuel token = some (rest ++ [(kEndList, kEndList)]) := by
  induction fuel generalizing front rest token key with
  | zero => omega
  | succ fuel ih =>
    have page := @getListNext_rest _ _ _ maxPairs _ _ _ _ holds continues
    by_cases whole : rest.length < maxPairs
    · have all : (rest ++ [(kEndList, kEndList)]).take maxPairs = rest ++ [(kEndList, kEndList)] :=
        List.take_of_length_le (by simp; omega)
      rw [all] at page
      simp only [Database.readList, page, lastToken_snoc, if_true]
      simp
    · have part : (rest ++ [(kEndList, kEndList)]).take maxPairs = rest.take maxPairs :=
        List.take_append_of_le_length (not_lt.mp whole)
      have long : (rest.take maxPairs).length = maxPairs :=
        List.length_take_of_le (not_lt.mp whole)
      have split : rest.take maxPairs ++ rest.drop maxPairs = rest := List.take_append_drop _ _
      generalize rest.take maxPairs = taken at page part long split
      generalize rest.drop maxPairs = left at split
      subst split
      rcases List.eq_nil_or_concat' taken with rfl | ⟨init, ⟨next, nextKey⟩, rfl⟩
      · simp only [List.length_nil] at long
        omega
      · have onward : next ≠ kEndList := inner (next, nextKey) (by simp)
        have later := @ih (front ++ (token, key) :: init) left next nextKey
          (by simpa using holds) onward (fun pair mem => inner pair (List.mem_append_right _ mem))
          (by simp at enough; omega)
        rw [part, long] at page
        simp only [Database.readList, page, lastToken_snoc, if_neg onward, later]
        rw [if_neg (by omega), Option.map_some]
        simp

theorem run_keys {schemas : Schemas} {calls : List Call}
    (ran : run (Database.call schemas host) Store.empty calls = some db) {k : List Byte}
    (starts : listFront (host.coded list) <+: k) :
    (db.get k).isSome ↔
      ∃ call ∈ calls, k ∈ (call.writesOn schemas host list).map (entryKeyOn host list) := by
  have preserved (past : List Call) (db : Database) (call : Call) (next : Database)
      (before : (db.get k).isSome ↔ ∃ c ∈ past,
        k ∈ (c.writesOn schemas host list).map (entryKeyOn host list))
      (step : db.call schemas host call = some next) :
      (next.get k).isSome ↔ ∃ c ∈ past ++ [call],
        k ∈ (c.writesOn schemas host list).map (entryKeyOn host list) := by
    rw [call_keysOn step starts, before]
    constructor
    · rintro (now | ⟨other, mem, wrote⟩)
      · exact ⟨call, by simp, now⟩
      · exact ⟨other, List.mem_append_left _ mem, wrote⟩
    · rintro ⟨other, mem, wrote⟩
      rcases List.mem_append.mp mem with earlier | last
      · exact Or.inr ⟨other, earlier, wrote⟩
      · rw [List.mem_singleton.mp last] at wrote
        exact Or.inl wrote
  exact run_keeps_history (fun past db => (db.get k).isSome ↔ ∃ c ∈ past,
    k ∈ (c.writesOn schemas host list).map (entryKeyOn host list)) preserved
    (by simp [Store.get, Store.empty]) ran

/-- The entries of a list that an asset is stored with. A record's list ids are copied into the
    keys as the record has them, which is the least significant byte first. -/
def Call.files (schemas : Schemas) (host : ByteOrder) (list : UInt64) (call : Call) :
    List (UInt64 × UInt64) := call.adds schemas (host.coded list)

theorem mem_writesOn {schemas : Schemas} {calls : List Call} {pair : UInt64 × UInt64}
    (created : ∃ call ∈ calls, call.creates list) :
    (∃ call ∈ calls, pair ∈ call.writesOn schemas host list) ↔
      pair = (kBeginList, kBeginList) ∨ pair = (kEndList, kEndList) ∨
        ∃ call ∈ calls, pair ∈ call.files schemas host list := by
  constructor
  · rintro ⟨call, mem, wrote⟩
    unfold Call.writesOn at wrote
    split at wrote
    · rcases List.mem_cons.mp wrote with first | wrote
      · exact Or.inl first
      · exact Or.inr (Or.inl (List.mem_singleton.mp wrote))
    · exact Or.inr (Or.inr ⟨call, mem, wrote⟩)
  · obtain ⟨creator, mem, creates⟩ := created
    rintro (rfl | rfl | ⟨call, mem', filed⟩)
    · exact ⟨creator, mem, by simp [Call.writesOn, creates]⟩
    · exact ⟨creator, mem, by simp [Call.writesOn, creates]⟩
    · refine ⟨call, mem', ?_⟩
      unfold Call.writesOn
      split
      · rename_i also
        rw [Call.files, creates_adds also] at filed
        cases filed
      · exact filed

def NotAfter (host : ByteOrder) (p q : UInt64 × UInt64) : Prop := host.bytes p.1 ≤ host.bytes q.1

instance (p q : UInt64 × UInt64) : Decidable (NotAfter host p q) :=
  inferInstanceAs (Decidable (host.bytes p.1 ≤ host.bytes q.1))

def inOrder (host : ByteOrder) (entries : List (UInt64 × UInt64)) : List (UInt64 × UInt64) :=
  entries.insertionSort (NotAfter host)

theorem inOrder_perm (entries : List (UInt64 × UInt64)) : (inOrder host entries).Perm entries :=
  List.perm_insertionSort (NotAfter host) entries

theorem inOrder_sorted {entries : List (UInt64 × UInt64)}
    (distinct : (entries.map Prod.fst).Nodup) :
    (inOrder host entries).Pairwise fun p q => host.bytes p.1 < host.bytes q.1 := by
  have total : Std.Total (NotAfter host) := ⟨fun p q => le_total (host.bytes p.1) (host.bytes q.1)⟩
  have trans : IsTrans _ (NotAfter host) := ⟨fun _ _ _ first second => le_trans first second⟩
  have sorted : (inOrder host entries).Pairwise (NotAfter host) :=
    List.pairwise_insertionSort (NotAfter host) entries
  have apart : (inOrder host entries).Pairwise fun p q => p.1 ≠ q.1 := by
    have nodup := ((@inOrder_perm host entries).map Prod.fst).nodup_iff.mpr distinct
    exact List.pairwise_map.mp nodup
  refine (sorted.and apart).imp fun both => lt_of_le_of_ne both.1 ?_
  intro same
  exact both.2 (host.bytes_inj.mp same)

theorem entryKeyOn_code (pair : UInt64 × UInt64) :
    entryKeyOn host list pair = entryKey (host.coded list) (code host pair) :=
  entryKeyOn_eq host list pair

theorem before_coded {t u : UInt64} :
    Before (host.coded t) (host.coded u) ↔ host.bytes t < host.bytes u := by
  unfold Before
  rw [ByteOrder.bytes_coded, ByteOrder.bytes_coded]

theorem run_holds {schemas : Schemas} {calls : List Call} {entries : List (UInt64 × UInt64)}
    (ran : run (Database.call schemas host) Store.empty calls = some db)
    (created : ∃ call ∈ calls, call.creates list)
    (exact : ∀ pair, pair ∈ entries ↔ ∃ call ∈ calls, pair ∈ call.files schemas host list)
    (distinct : (entries.map Prod.fst).Nodup)
    (inner : ∀ pair ∈ entries, pair.1 ≠ kBeginList ∧ pair.1 ≠ kEndList) :
    Holds db (host.coded list) (((kBeginList, kBeginList) ::
      (inOrder host entries ++ [(kEndList, kEndList)])).map (code host)) where
  keys k starts := by
    rw [run_keys ran starts, List.map_map]
    have same : entryKey (host.coded list) ∘ code host = entryKeyOn host list :=
      funext fun pair => (entryKeyOn_code pair).symm
    rw [same]
    have members (pair : UInt64 × UInt64) :
        pair ∈ (kBeginList, kBeginList) :: (inOrder host entries ++ [(kEndList, kEndList)]) ↔
          ∃ call ∈ calls, pair ∈ call.writesOn schemas host list := by
      rw [mem_writesOn created, ← exact, List.mem_cons, List.mem_append, List.mem_singleton,
        (inOrder_perm entries).mem_iff, or_comm (a := pair ∈ entries)]
    constructor
    · rintro ⟨call, mem, wrote⟩
      obtain ⟨pair, one, rfl⟩ := List.mem_map.mp wrote
      exact List.mem_map_of_mem ((members pair).mpr ⟨call, mem, one⟩)
    · intro listed
      obtain ⟨pair, one, rfl⟩ := List.mem_map.mp listed
      obtain ⟨call, mem, wrote⟩ := (members pair).mp one
      exact ⟨call, mem, List.mem_map_of_mem wrote⟩
  sorted := by
    have first : ∀ pair ∈ entries, host.bytes kBeginList < host.bytes pair.1 :=
      fun pair member => host.zero_lt (inner pair member).1
    have last : ∀ pair ∈ entries, host.bytes pair.1 < host.bytes kEndList :=
      fun pair member => host.lt_max (inner pair member).2
    have whole : ((kBeginList, kBeginList) :: (inOrder host entries ++
        [(kEndList, kEndList)])).Pairwise fun p q => host.bytes p.1 < host.bytes q.1 := by
      refine List.pairwise_cons.mpr ⟨?_, List.pairwise_append.mpr
        ⟨inOrder_sorted distinct, List.pairwise_singleton _ _, ?_⟩⟩
      · intro pair member
        rcases List.mem_append.mp member with inside | ends
        · exact first pair ((inOrder_perm entries).mem_iff.mp inside)
        · rw [List.mem_singleton.mp ends]
          exact host.zero_lt (by decide)
      · intro pair member other ends
        rw [List.mem_singleton.mp ends]
        exact last pair ((inOrder_perm entries).mem_iff.mp member)
    exact List.pairwise_map.mpr (whole.imp before_coded.mpr)
  listed := by
    obtain ⟨call, mem, creates⟩ := created
    have key : makeListKey .little (host.coded list) = makeListKey host list :=
      congrArg (kList :: ·) (host.bytes_coded list)
    rw [key, list_run ran list, Option.isSome_iff_ne_none]
    cases call with
    | storeList other data =>
      have same : list = other := (of_decide_eq_true creates).symm
      exact last_ne_none mem (if_pos same)
    | storeAsset | storeAssetDataChunk => cases creates

/-- Whatever else is stored, reading a list page by page gives its entries and then the end. -/
theorem list_paging_exact {schemas : Schemas} {calls : List Call}
    {entries : List (UInt64 × UInt64)}
    (ran : run (Database.call schemas host) Store.empty calls = some db)
    (created : ∃ call ∈ calls, call.creates list)
    (exact : ∀ pair, pair ∈ entries ↔ ∃ call ∈ calls, pair ∈ call.files schemas host list)
    (distinct : (entries.map Prod.fst).Nodup)
    (inner : ∀ pair ∈ entries, pair.1 ≠ kBeginList ∧ pair.1 ≠ kEndList) (room : 1 ≤ maxPairs) :
    ∃ pairs : List (UInt64 × UInt64), pairs.Perm entries ∧
      pairs.Pairwise (fun p q => entryKeyOn host list p < entryKeyOn host list q) ∧
      ∃ fuel, ∀ more, fuel ≤ more →
        db.readList host list maxPairs more kBeginList =
          some (pairs ++ [(kEndList, kEndList)]) := by
  refine ⟨inOrder host entries, inOrder_perm entries, ?_, entries.length + 1, ?_⟩
  · refine (inOrder_sorted distinct).imp fun before => ?_
    rw [entryKeyOn_code, entryKeyOn_code]
    exact entryKey_lt (before_coded.mpr before)
  · intro more enough
    have holds : Holds db (host.coded list) (([] ++ (kBeginList, kBeginList) ::
      (inOrder host entries ++ [(kEndList, kEndList)])).map (code host)) :=
        run_holds ran created exact distinct inner
    apply readList_rest holds (by decide) ?_ room
    · rw [(inOrder_perm entries).length_eq]
      omega
    · intro pair mem
      exact (inner pair ((inOrder_perm entries).mem_iff.mp mem)).2

end Walk

theorem list_paging_exact_filed :
    ∃ pairs : List (UInt64 × UInt64), pairs.Perm [(1500, 1), (1600, 2)] ∧
      pairs.Pairwise (fun p q => entryKeyOn .little 7 p < entryKeyOn .little 7 q) ∧
      ∃ fuel, ∀ more, fuel ≤ more →
        filed.readList .little 7 1 more kBeginList = some (pairs ++ [(kEndList, kEndList)]) := by
  have filedAs : filing.flatMap (Call.files flatbuffers .little 7) = [(1500, 1), (1600, 2)] := by
    decide +kernel
  have inner : ∀ pair ∈ [((1500, 1) : UInt64 × UInt64), (1600, 2)],
      pair.1 ≠ kBeginList ∧ pair.1 ≠ kEndList := by
    intro pair member
    rcases List.mem_pair.mp member with rfl | rfl
    · exact ⟨by decide, by decide⟩
    · exact ⟨by decide, by decide⟩
  apply list_paging_exact (Option.some_get _).symm (by decide +kernel) ?_ (by decide) inner
    (le_refl 1)
  intro pair
  rw [← filedAs]
  exact List.mem_flatMap

end Confab
