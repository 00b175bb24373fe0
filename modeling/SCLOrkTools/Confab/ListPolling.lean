import SCLOrkTools.Confab.ListPaging

/- A client that polls one list while assets are added to it, and anything else is stored. -/
namespace Confab
open OrderedStores ByteStrings GuardedRun

def Call.adds (schemas : Schemas) (list : UInt64) : Call → List (UInt64 × UInt64)
  | storeAsset now key assetData =>
    match (schemas.getFlatAsset assetData).lists with
    | none => []
    | some lists => if list ∈ lists then [(now, key)] else []
  | _ => []

def Call.creates (list : UInt64) : Call → Bool
  | storeList key _ => decide (key = list)
  | _ => false

/-- `cursor` is the token of the last entry received, and `token` the last one received at all,
    which may be that of the end. -/
structure Polling where
  db : Database
  created : Bool
  added : List (UInt64 × UInt64)
  received : List (UInt64 × UInt64)
  cursor : UInt64
  token : UInt64

inductive PollingEvent where
  | call (c : Call)
  | poll (fromToken : UInt64) (maxPairs : Nat)

def entriesOf (pairs : List (UInt64 × UInt64)) : List (UInt64 × UInt64) :=
  pairs.filter fun pair => pair ≠ (kEndList, kEndList)

def lastToken (token : UInt64) (pairs : List (UInt64 × UInt64)) : UInt64 :=
  (pairs.map Prod.fst).getLastD token

section Polling
variable (schemas : Schemas) (list : UInt64)

def Polling.page (s : Polling) (fromToken : UInt64) (maxPairs : Nat) : List (UInt64 × UInt64) :=
  (s.db.getListNext .little list fromToken maxPairs).2

/-- The client polls a list that has been stored. It goes on from the last token it received, or
    from that of the last entry. -/
def Polling.step (s : Polling) : PollingEvent → Option Polling
  | .call c => (s.db.call schemas .little c).map fun db =>
      { s with
        db := db
        created := s.created || c.creates list
        added := s.added ++ c.adds schemas list }
  | .poll fromToken maxPairs =>
    if s.created ∧ (fromToken = s.token ∨ fromToken = s.cursor) then
      let pairs := s.page list fromToken maxPairs
      some { s with
        received := s.received ++ entriesOf pairs
        cursor := lastToken s.cursor (entriesOf pairs)
        token := lastToken s.token pairs }
    else none

def Polling.start : Polling where
  db := Store.empty
  created := false
  added := []
  received := []
  cursor := 0
  token := 0

/-- Entries are received in the order in which they were added, none is missing when the client
    is told that it has reached the end, and a poll that leaves room for a pair returns one. -/
def Polling.Lossless (s : Polling) : PollingEvent → Prop
  | .call _ => True
  | .poll fromToken maxPairs =>
    let pairs := s.page list fromToken maxPairs
    s.received ++ entriesOf pairs <+: s.added ∧
      ((kEndList, kEndList) ∈ pairs → s.received ++ entriesOf pairs = s.added) ∧
      (0 < maxPairs → pairs ≠ [])

/-- The time stamp of a new entry is after those of all others, byte by byte, and is not one of
    the two that stand for the ends. The end is not where a client goes on from while there is an
    entry it has not received. -/
def Polling.InOrder (s : Polling) : PollingEvent → Prop
  | .call c => ∀ pair ∈ c.adds schemas list, pair.1 ≠ kBeginList ∧ pair.1 ≠ kEndList ∧
      ∀ other ∈ s.added, Before other.1 pair.1
  | .poll fromToken _ => fromToken = kEndList → s.received = s.added

end Polling

section Calls
variable {schemas : Schemas} {list : UInt64}

def Call.writes (schemas : Schemas) (list : UInt64) (call : Call) : List (UInt64 × UInt64) :=
  if call.creates list then [(kBeginList, kBeginList), (kEndList, kEndList)]
  else call.adds schemas list

theorem front_nameBatch {prefixed : List Byte} {made : List Byte → Item} {host : ByteOrder}
    {name : Option (List Byte)} {key : UInt64} {k : List Byte}
    (keyed : ∀ n, (made n).key host = prefixed ++ n) (starts : listFront list <+: k) :
    k ∉ (Database.nameBatch host prefixed name key).map (·.1) := by
  intro member
  cases name with
  | none => cases member
  | some n =>
    simp only [Database.nameBatch] at member
    split at member
    · have same : k = prefixed ++ n := by simpa using member
      rw [same, ← keyed] at starts
      exact front_item list host (made n) starts
    · cases member

theorem front_listBatch {host : ByteOrder} {lists : List UInt64} {timeStamp key : UInt64}
    {k : List Byte} (starts : listFront list <+: k) :
    k ∈ (Database.listBatch host lists timeStamp key).map (·.1) ↔
      list ∈ lists ∧ k = entryKey list (host.coded timeStamp, host.coded key) := by
  have written (other : UInt64) :
      listEntryKey (ByteOrder.little.bytes other) (host.bytes timeStamp) (host.bytes key) =
        entryKey other (host.coded timeStamp, host.coded key) := by
    simp only [entryKey, ByteOrder.bytes_coded]
  constructor
  · intro member
    obtain ⟨e, put, rfl⟩ := List.mem_map.mp member
    obtain ⟨other, given, rfl⟩ := List.mem_map.mp put
    have same : other = list := front_of_other starts
    subst same
    exact ⟨given, written other⟩
  · rintro ⟨given, rfl⟩
    exact List.mem_map.mpr ⟨_, List.mem_map_of_mem given, written list⟩

/-- The list's entry keys that a call writes on a host. The lists of an asset are numbered as
    the record has them, whatever the host. -/
def Call.writesOn (schemas : Schemas) (host : ByteOrder) (list : UInt64) (call : Call) :
    List (UInt64 × UInt64) :=
  if call.creates list then [(kBeginList, kBeginList), (kEndList, kEndList)]
  else call.adds schemas (host.coded list)

theorem call_keysOn {host : ByteOrder} {db next : Database} {call : Call}
    (ran : db.call schemas host call = some next) {k : List Byte}
    (starts : listFront (host.coded list) <+: k) :
    (next.get k).isSome ↔
      k ∈ (call.writesOn schemas host list).map (entryKeyOn host list) ∨ (db.get k).isSome := by
  have no_item (item : Item) : k ≠ item.key host :=
    fun same => front_item (host.coded list) host item (same ▸ starts)
  cases call with
  | storeAsset now key data =>
    obtain ⟨lists, timeStamp, given, -, stamp, rfl⟩ := storeAsset_eq ran
    have asset : k ≠ makeAssetKey host key := no_item (.asset key)
    have stamped : host.coded list ∈ lists → timeStamp = now := by
      intro member
      rw [stamp, if_neg (List.length_pos_of_mem member).ne']
    rw [Store.isSome_put, Store.isSome_write, Store.isSome_write, front_listBatch starts]
    simp only [asset, false_or, Call.writesOn, Call.creates, Call.adds, given, Bool.false_eq_true,
      if_false]
    rw [or_iff_right (front_nameBatch (fun n => (rfl : (Item.assetName n).key _ = _)) starts)]
    apply or_congr_left
    by_cases member : host.coded list ∈ lists
    · simp [member, stamped member, entryKeyOn_eq]
    · simp [member]
  | storeAssetDataChunk key chunk data =>
    cases ran
    have other : k ≠ makeAssetDataKey host key chunk := no_item (.chunk key chunk)
    simp [Database.storeAssetDataChunk, Store.isSome_put, other, Call.writesOn, Call.creates,
      Call.adds]
  | storeList key data =>
    cases ran
    have listKey : k ≠ makeListKey host key := no_item (.list key)
    unfold Database.storeList
    rw [write_append, Store.isSome_write, Store.isSome_write,
      or_iff_right (front_nameBatch (fun n => (rfl : (Item.listName n).key _ = _)) starts)]
    apply or_congr_left
    by_cases same : key = list
    · subst same
      simp [listKey, Call.writesOn, Call.creates, entryKeyOn]
    · have none_here (time : UInt64) :
          k ≠ listEntryKey (host.bytes key) (host.bytes time) (host.bytes time) := by
        rintro rfl
        have written : listEntryKey (host.bytes key) (host.bytes time) (host.bytes time) =
          entryKey (host.coded key) (host.coded time, host.coded time) :=
            entryKeyOn_eq host key (time, time)
        rw [written] at starts
        exact same (host.coded_inj.mp (front_of_other starts))
      simp [listKey, none_here, Call.writesOn, Call.creates, Call.adds, same]

theorem call_keys {db next : Database} {call : Call}
    (ran : db.call schemas .little call = some next) {k : List Byte}
    (starts : listFront list <+: k) :
    (next.get k).isSome ↔
      k ∈ (call.writes schemas list).map (entryKey list) ∨ (db.get k).isSome := by
  have wrote := @call_keysOn _ list _ _ _ _ ran _ (by simpa using starts)
  have same : entryKeyOn .little list = entryKey list := rfl
  simpa only [same, Call.writesOn, Call.writes, ByteOrder.coded_little] using wrote

end Calls
/-- The entries of the list, between the two that storeList puts at its ends. -/
def Polling.entries (s : Polling) : List (UInt64 × UInt64) :=
  (kBeginList, kBeginList) :: (s.added ++ [(kEndList, kEndList)])

structure Polling.Caught (list : UInt64) (s : Polling) : Prop where
  keys : ∀ k, listFront list <+: k → ((s.db.get k).isSome ↔
    k ∈ s.added.map (entryKey list) ∨
      s.created ∧ k ∈ [(kBeginList, kBeginList), (kEndList, kEndList)].map (entryKey list))
  listed : s.created → (s.db.get (makeListKey .little list)).isSome
  sorted : s.added.Pairwise fun p q => Before p.1 q.1
  inner : ∀ pair ∈ s.added, pair.1 ≠ kBeginList ∧ pair.1 ≠ kEndList
  received : s.received <+: s.added
  cursor : s.cursor = lastToken kBeginList s.received
  token : s.token = s.cursor ∨ s.token = kEndList

section Runs
variable {schemas : Schemas} {list : UInt64} {s : Polling}

theorem caught_holds (caught : s.Caught list) (created : s.created) :
    Holds s.db list s.entries where
  keys k starts := by
    rw [caught.keys k starts]
    simp only [created, true_and, Polling.entries, List.map_cons, List.map_append, List.map_nil,
      List.mem_cons, List.mem_append, List.not_mem_nil, or_false]
    exact or_left_comm
  sorted := by
    have first : ∀ pair ∈ s.added, Before kBeginList pair.1 :=
      fun pair member => ByteOrder.little.zero_lt (caught.inner pair member).1
    have last : ∀ pair ∈ s.added, Before pair.1 kEndList :=
      fun pair member => ByteOrder.little.lt_max (caught.inner pair member).2
    refine List.pairwise_cons.mpr ⟨?_, List.pairwise_append.mpr
      ⟨caught.sorted, List.pairwise_singleton _ _, ?_⟩⟩
    · intro pair member
      rcases List.mem_append.mp member with inside | ends
      · exact first pair inside
      · rw [List.mem_singleton.mp ends]
        exact ByteOrder.little.zero_lt (by decide)
    · intro pair member other ends
      rw [List.mem_singleton.mp ends]
      exact last pair member
  listed := caught.listed created

theorem start_caught (list : UInt64) : Polling.start.Caught list where
  keys k _ := by simp [Polling.start, Store.get, Store.empty]
  listed created := by cases created
  sorted := List.Pairwise.nil
  inner _ member := by cases member
  received := List.prefix_rfl
  cursor := rfl
  token := Or.inl rfl

theorem listed_call {db next : Database} {call : Call}
    (ran : db.call schemas .little call = some next)
    (stored : call.creates list ∨ (db.get (makeListKey .little list)).isSome) :
    (next.get (makeListKey .little list)).isSome := by
  have kept := get_call ran (.list list)
  change next.get (makeListKey .little list) =
    (call.list list).or (db.get (makeListKey .little list)) at kept
  rw [kept, Option.isSome_or]
  rcases stored with creates | before
  · cases call with
    | storeList key data =>
      have same : list = key := (of_decide_eq_true creates).symm
      simp [Call.list, same]
    | storeAsset | storeAssetDataChunk => cases creates
  · simp [before]

theorem creates_adds {call : Call} {other : UInt64} (creates : call.creates list) :
    call.adds schemas other = [] := by
  cases call with
  | storeList => rfl
  | storeAsset | storeAssetDataChunk => cases creates

theorem call_caught {c : Call} {next : Database} (caught : s.Caught list)
    (inOrder : s.InOrder schemas list (.call c)) (ran : s.db.call schemas .little c = some next) :
    Polling.Caught list { s with
      db := next
      created := s.created || c.creates list
      added := s.added ++ c.adds schemas list } where
  keys k starts := by
    rw [call_keys ran starts, caught.keys k starts]
    unfold Call.writes
    split
    · rename_i creates
      simp only [creates_adds creates, List.append_nil, creates, Bool.or_true, true_and]
      tauto
    · rename_i plain
      simp only [plain, Bool.or_false, List.map_append, List.mem_append]
      tauto
  listed created := by
    apply listed_call ran
    rcases Bool.or_eq_true_iff.mp created with before | creates
    · exact Or.inr (caught.listed before)
    · exact Or.inl creates
  sorted := by
    refine List.pairwise_append.mpr ⟨caught.sorted, ?_, ?_⟩
    · cases c with
      | storeAsset now key data =>
        simp only [Call.adds]
        split
        · exact List.Pairwise.nil
        · split
          · exact List.pairwise_singleton _ _
          · exact List.Pairwise.nil
      | storeAssetDataChunk | storeList => exact List.Pairwise.nil
    · intro other before pair added
      exact (inOrder pair added).2.2 other before
  inner pair member := by
    rcases List.mem_append.mp member with before | added
    · exact caught.inner pair before
    · exact ⟨(inOrder pair added).1, (inOrder pair added).2.1⟩
  received := caught.received.trans (List.prefix_append _ _)
  cursor := caught.cursor
  token := caught.token

theorem lastToken_append (t : UInt64) (l m : List (UInt64 × UInt64)) :
    lastToken t (l ++ m) = lastToken (lastToken t l) m := by
  simp [lastToken, List.getLastD_eq_getLast?, List.getLast?_append, Option.getD_or]

theorem lastToken_snoc (t : UInt64) (l : List (UInt64 × UInt64)) (pair : UInt64 × UInt64) :
    lastToken t (l ++ [pair]) = pair.1 := by
  rw [lastToken_append]
  rfl

theorem entries_at_cursor (caught : s.Caught list) {rest : List (UInt64 × UInt64)}
    (split : s.added = s.received ++ rest) :
    ∃ front key, s.entries = front ++ (s.cursor, key) :: (rest ++ [(kEndList, kEndList)]) := by
  have cursor := caught.cursor
  rcases List.eq_nil_or_concat' s.received with empty | ⟨before, pair, ends⟩
  · rw [empty] at cursor split
    refine ⟨[], kBeginList, ?_⟩
    rw [Polling.entries, split, cursor]
    rfl
  · rw [ends, lastToken_snoc] at cursor
    refine ⟨(kBeginList, kBeginList) :: before, pair.2, ?_⟩
    have here : (s.cursor, pair.2) = pair := Prod.ext cursor rfl
    rw [Polling.entries, split, ends, here]
    simp

theorem cursor_continues (caught : s.Caught list) : s.cursor ≠ kEndList := by
  have cursor := caught.cursor
  rcases List.eq_nil_or_concat' s.received with empty | ⟨before, pair, ends⟩
  · rw [empty] at cursor
    rw [cursor]
    decide
  · rw [ends, lastToken_snoc] at cursor
    have received : pair ∈ s.received := by simp [ends]
    have inner := caught.inner pair (caught.received.subset received)
    rw [cursor]
    exact inner.2

theorem poll_page (caught : s.Caught list) (created : s.created) {fromToken : UInt64}
    (goes_on : fromToken = s.token ∨ fromToken = s.cursor) {maxPairs : Nat}
    (inOrder : s.InOrder schemas list (.poll fromToken maxPairs)) :
    ∃ rest, s.added = s.received ++ rest ∧
      s.page list fromToken maxPairs = (rest ++ [(kEndList, kEndList)]).take maxPairs := by
  by_cases finished : fromToken = kEndList
  · refine ⟨[], ?_, ?_⟩
    · rw [List.append_nil, inOrder finished]
    · unfold Polling.page Database.getListNext
      rw [if_pos finished]
      cases maxPairs with
      | zero | succ => simp
  · obtain ⟨rest, split⟩ := caught.received
    refine ⟨rest, split.symm, ?_⟩
    have at_cursor : fromToken = s.cursor := by
      rcases goes_on with last | cursor
      · rcases caught.token with same | ended
        · exact last.trans same
        · exact absurd (last.trans ended) finished
      · exact cursor
    obtain ⟨front, key, entries⟩ := entries_at_cursor caught split.symm
    have holds := caught_holds caught created
    rw [entries] at holds
    rw [Polling.page, at_cursor, getListNext_page holds (cursor_continues caught)]

theorem rest_inner (caught : s.Caught list) {rest : List (UInt64 × UInt64)}
    (split : s.added = s.received ++ rest) : ∀ pair ∈ rest, pair.1 ≠ kEndList := by
  intro pair member
  have added : pair ∈ s.added := by
    rw [split]
    exact List.mem_append_right _ member
  exact (caught.inner pair added).2

theorem entriesOf_inner {l : List (UInt64 × UInt64)} (inner : ∀ pair ∈ l, pair.1 ≠ kEndList) :
    entriesOf l = l := by
  refine List.filter_eq_self.mpr fun pair member => decide_eq_true ?_
  intro same
  exact inner pair member (congrArg Prod.fst same)

theorem entriesOf_page {rest : List (UInt64 × UInt64)}
    (inner : ∀ pair ∈ rest, pair.1 ≠ kEndList) (maxPairs : Nat) :
    entriesOf ((rest ++ [(kEndList, kEndList)]).take maxPairs) = rest.take maxPairs := by
  have front : entriesOf (rest.take maxPairs) = rest.take maxPairs :=
    entriesOf_inner fun pair member => inner pair (List.mem_of_mem_take member)
  have back (n : Nat) : entriesOf ([(kEndList, kEndList)].take n) = [] := by
    cases n with
    | zero | succ => simp [entriesOf]
  rw [List.take_append, entriesOf, List.filter_append]
  change entriesOf (rest.take maxPairs) ++
    entriesOf ([(kEndList, kEndList)].take (maxPairs - rest.length)) = _
  rw [front, back, List.append_nil]

theorem poll_lossless (caught : s.Caught list) (created : s.created) {fromToken : UInt64}
    (goes_on : fromToken = s.token ∨ fromToken = s.cursor) {maxPairs : Nat}
    (inOrder : s.InOrder schemas list (.poll fromToken maxPairs)) :
    s.Lossless list (.poll fromToken maxPairs) := by
  obtain ⟨rest, split, page⟩ := poll_page caught created goes_on inOrder
  have inner := rest_inner caught split
  change s.received ++ entriesOf (s.page list fromToken maxPairs) <+: s.added ∧
    ((kEndList, kEndList) ∈ s.page list fromToken maxPairs →
      s.received ++ entriesOf (s.page list fromToken maxPairs) = s.added) ∧
    (0 < maxPairs → s.page list fromToken maxPairs ≠ [])
  rw [page, entriesOf_page inner, split]
  refine ⟨(List.prefix_append_right_inj _).mpr (List.take_prefix _ _), ?_, ?_⟩
  · intro told
    rw [List.take_append] at told
    rcases List.mem_append.mp told with early | last
    · exact absurd rfl (inner _ (List.mem_of_mem_take early))
    · have long : rest.length < maxPairs := by
        by_contra short
        rw [Nat.sub_eq_zero_of_le (not_lt.mp short)] at last
        cases last
      rw [List.take_of_length_le long.le]
  · intro room empty
    rcases List.take_eq_nil_iff.mp empty with none | none
    · omega
    · simp at none

theorem poll_caught (caught : s.Caught list) (created : s.created) {fromToken : UInt64}
    (goes_on : fromToken = s.token ∨ fromToken = s.cursor) {maxPairs : Nat}
    (inOrder : s.InOrder schemas list (.poll fromToken maxPairs)) :
    Polling.Caught list { s with
      received := s.received ++ entriesOf (s.page list fromToken maxPairs)
      cursor := lastToken s.cursor (entriesOf (s.page list fromToken maxPairs))
      token := lastToken s.token (s.page list fromToken maxPairs) } := by
  obtain ⟨rest, split, page⟩ := poll_page caught created goes_on inOrder
  have lossless := poll_lossless caught created goes_on inOrder
  have inner := rest_inner caught split
  refine ⟨caught.keys, caught.listed, caught.sorted, caught.inner, lossless.1, ?_, ?_⟩
  · rw [lastToken_append, ← caught.cursor]
  · rw [page, entriesOf_page inner, List.take_append, lastToken_append]
    cases maxPairs - rest.length with
    | succ n =>
      rw [List.take_succ_cons, List.take_nil]
      exact Or.inr rfl
    | zero =>
      change lastToken s.token (rest.take maxPairs) = lastToken s.cursor (rest.take maxPairs) ∨
        lastToken s.token (rest.take maxPairs) = kEndList
      rcases List.eq_nil_or_concat' (rest.take maxPairs) with none | ⟨before, pair, ends⟩
      · rw [none]
        exact caught.token
      · rw [ends, lastToken_snoc, lastToken_snoc]
        exact Or.inl rfl

theorem step_caught {e : PollingEvent} {next : Polling} (caught : s.Caught list)
    (inOrder : s.InOrder schemas list e) (ran : s.step schemas list e = some next) :
    next.Caught list := by
  cases e with
  | call c =>
    obtain ⟨db, stored, rfl⟩ := Option.map_eq_some_iff.mp ran
    exact call_caught caught inOrder stored
  | poll fromToken maxPairs =>
    simp only [Polling.step] at ran
    split at ran
    · rename_i polls
      cases ran
      exact poll_caught caught polls.1 polls.2 inOrder
    · cases ran

theorem polling_lossless {es : List PollingEvent}
    (inOrder : Along (Polling.step schemas list) (Polling.InOrder schemas list) Polling.start es) :
    Along (Polling.step schemas list)
      (fun s e => (s.step schemas list e).isSome → s.Lossless list e) Polling.start es := by
  apply along_iff_prefixes.mpr
  intro pre e post shape mid ran taken
  subst shape
  obtain ⟨before, rest⟩ := along_append.mp inOrder
  have caught : mid.Caught list := run_invariant (Polling.Caught list)
    (fun _ _ _ => step_caught) (start_caught list) before ran
  cases e with
  | call c => trivial
  | poll fromToken maxPairs =>
    simp only [Polling.step] at taken
    split at taken
    · rename_i polls
      exact poll_lossless caught polls.1 polls.2 (rest mid ran).1
    · cases taken

end Runs

-- By the entries there are, not by all the pairs of numbers.
instance (added : List (UInt64 × UInt64)) (t : UInt64) :
    Decidable (∀ other ∈ added, Before other.1 t) :=
  List.decidableBAll (fun other => Before other.1 t) added

instance (schemas : Schemas) (list : UInt64) (s : Polling) :
    ∀ e, Decidable (s.InOrder schemas list e)
  | .call c => List.decidableBAll (fun pair : UInt64 × UInt64 => pair.1 ≠ kBeginList ∧
      pair.1 ≠ kEndList ∧ ∀ other ∈ s.added, Before other.1 pair.1) (c.adds schemas list)
  | .poll fromToken _ => inferInstanceAs (Decidable (fromToken = kEndList → s.received = s.added))

instance (list : UInt64) (s : Polling) : ∀ e, Decidable (s.Lossless list e)
  | .call _ => isTrue trivial
  | .poll fromToken maxPairs => inferInstanceAs (Decidable
      (s.received ++ entriesOf (s.page list fromToken maxPairs) <+: s.added ∧
        ((kEndList, kEndList) ∈ s.page list fromToken maxPairs →
          s.received ++ entriesOf (s.page list fromToken maxPairs) = s.added) ∧
        (0 < maxPairs → s.page list fromToken maxPairs ≠ [])))

def polled (first second token : UInt64) (maxPairs : Nat) : List PollingEvent :=
  [.call (.storeList 7 listBuffer), .call (.storeAsset first 1 assetBuffer), .poll 0 maxPairs,
    .call (.storeAsset second 2 assetBuffer), .poll token maxPairs]

theorem polling_lossless_polled :
    Along (Polling.step flatbuffers 7)
      (fun s e => (s.step flatbuffers 7 e).isSome → s.Lossless 7 e) Polling.start
      (polled 1588888888888832 1588888888888833 1588888888888832 120) :=
  polling_lossless (by decide +kernel)

/-- The lowest byte of the second time is 0 where that of the first is 255, so its entry comes
    first and the client, which has the other, is told that this was the end. The end is also
    what a client is told that goes on from there. -/
theorem polling_loses :
    ¬ Along (Polling.step flatbuffers 7)
      (fun s e => (s.step flatbuffers 7 e).isSome → s.Lossless 7 e) Polling.start
      (polled 1588888888888831 1588888888888832 1588888888888831 1) ∧
    ¬ Along (Polling.step flatbuffers 7)
      (fun s e => (s.step flatbuffers 7 e).isSome → s.Lossless 7 e) Polling.start
      (polled 1588888888888832 1588888888888833 kEndList 120) := by
  decide +kernel

end Confab
