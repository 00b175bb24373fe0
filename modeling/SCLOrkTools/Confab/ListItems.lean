import SCLOrkTools.Confab.Commands
import SCLOrkTools.Confab.ListWalk

/- The pages of a list on their way to SuperCollider: as lines of text, and in one datagram each,
   which has less room than the page that the server hands out. -/
namespace Confab
open OrderedStores ByteStrings GuardedRun

def padded (size : Nat) : Nat := (size + 3) / 4 * 4

def OscArgument.size : OscArgument → Nat
  | int32 _ => 4
  | string s => padded (s.bytes.length + 1)
  | blob data => 4 + padded data.length
  | other => 0

/-- The size of a message: the address, the type tags behind a comma, and the arguments. -/
def oscSize (address : OscString) (arguments : List OscArgument) : Nat :=
  padded (address.bytes.length + 1) + padded (arguments.length + 2) +
    (arguments.map OscArgument.size).sum

def readPairs : Nat → List Byte → List (UInt64 × UInt64)
  | 0, _ => []
  | n + 1, text =>
    (stringToKey text, stringToKey (text.drop 17)) :: readPairs n (text.drop 34)

section Text

theorem pairLine_length (pair : UInt64 × UInt64) : (pairLine pair).length = 34 := by
  simp [pairLine, keyToString_length]

theorem pairLines_length (pairs : List (UInt64 × UInt64)) :
    (pairs.flatMap pairLine).length = 34 * pairs.length := by
  induction pairs with
  | nil => rfl
  | cons pair pairs ih =>
    rw [List.flatMap_cons, List.length_append, pairLine_length, ih, List.length_cons]
    omega

theorem stringToKey_stopped (key : UInt64) {b : Byte} (stops : hexValue b = none)
    (rest : List Byte) : stringToKey (keyToString key ++ b :: rest) = key := by
  refine congrArg Prod.fst (strtoull_keyToString key fun c first => ?_)
  cases first
  exact stops

theorem readPairs_lines (pairs : List (UInt64 × UInt64)) :
    readPairs pairs.length (pairs.flatMap pairLine) = pairs := by
  induction pairs with
  | nil => rfl
  | cons pair pairs ih =>
    obtain ⟨token, key⟩ := pair
    have line : ((token, key) :: pairs).flatMap pairLine =
        keyToString token ++ 32 :: (keyToString key ++ 10 :: pairs.flatMap pairLine) := by
      simp [pairLine]
    have second : (keyToString token ++ 32 :: (keyToString key ++
        10 :: pairs.flatMap pairLine)).drop 17 =
          keyToString key ++ 10 :: pairs.flatMap pairLine := by
      rw [List.drop_append, keyToString_length,
        List.drop_eq_nil_of_le (by simp [keyToString_length])]
      rfl
    have next : (((token, key) :: pairs).flatMap pairLine).drop 34 = pairs.flatMap pairLine := by
      rw [List.flatMap_cons, ← pairLine_length (token, key), List.drop_left]
    rw [List.length_cons, readPairs, next, ih, line, stringToKey_stopped token rfl, second,
      stringToKey_stopped key rfl]

theorem cString_lines (pairs : List (UInt64 × UInt64)) :
    cString (pairs.flatMap pairLine) = pairs.flatMap pairLine := by
  apply List.takeWhile_eq_self_iff.mpr
  intro b mem
  obtain ⟨pair, -, among⟩ := List.mem_flatMap.mp mem
  have digits {key : UInt64} (digit : b ∈ keyToString key) : b.val ≠ 0 := by
    obtain ⟨d, small, rfl⟩ := mem_keyToString digit
    exact (hexDigit_plain d small).1
  simp only [pairLine, List.mem_append, List.mem_singleton] at among
  rcases among with ((token | rfl) | key) | rfl
  · exact decide_eq_true (digits token)
  · rfl
  · exact decide_eq_true (digits key)
  · rfl

end Text

section Pages
variable {packs : Nat → OscString → List OscArgument → Bool} {schemas : Schemas}
  {host : ByteOrder} {db : Database} {list : UInt64}

theorem listItems_size (key : UInt64) (pairs : List (UInt64 × UInt64)) :
    oscSize (ascii "/listItems")
      [keyArgument key, .string (.ofBytes (pairs.flatMap pairLine))] =
        36 + padded (34 * pairs.length + 1) := by
  have address : (ascii "/listItems").bytes.length = 10 := by decide
  have keyed : (keyArgument key).size = 20 := by
    change padded ((cString (keyToString key)).length + 1) = 20
    rw [cString_keyToString, keyToString_length]
    rfl
  have text : (OscArgument.string (.ofBytes (pairs.flatMap pairLine))).size =
      padded (34 * pairs.length + 1) := by
    change padded ((cString (pairs.flatMap pairLine)).length + 1) = _
    rw [cString_lines, pairLines_length]
  simp only [oscSize, address, List.map_cons, List.map_nil, List.sum_cons, List.sum_nil, keyed,
    text, List.length_cons, List.length_nil]
  simp only [padded]
  omega

theorem listItems_fits_iff (key : UInt64) {pairs : List (UInt64 × UInt64)} :
    oscSize (ascii "/listItems")
      [keyArgument key, .string (.ofBytes (pairs.flatMap pairLine))] ≤ kPageSize ↔
        pairs.length ≤ 119 := by
  rw [listItems_size]
  simp only [padded, kPageSize]
  omega

theorem getListItems_page {token : UInt64} {page : List (UInt64 × UInt64)}
    (some_pairs : page ≠ [])
    (answers : db.getListNext host list token 120 = (page.length, page)) :
    HttpClient.getListItems host db list token = page.flatMap pairLine := by
  have filled : page.length ≠ 0 := fun none => some_pairs (List.eq_nil_of_length_eq_zero none)
  have room : kPageSize / 17 / 2 = 120 := by decide
  simp only [HttpClient.getListItems, getListItems, stringToKey_keyToString, room, answers,
    if_neg filled]

/-- From any entry on, the start of the list included, the rest of the list arrives in one message
    if it has 118 entries at most. If it has more, nothing arrives. -/
theorem list_items_sent {calls : List Call} {entries front back : List (UInt64 × UInt64)}
    {token key : UInt64}
    (packing : ∀ capacity address arguments,
      packs capacity address arguments = true ↔ oscSize address arguments ≤ capacity)
    (ran : run (Database.call schemas host) Store.empty calls = some db)
    (created : ∃ call ∈ calls, call.creates list)
    (exact : ∀ pair, pair ∈ entries ↔ ∃ call ∈ calls, pair ∈ call.files schemas host list)
    (distinct : (entries.map Prod.fst).Nodup)
    (inner : ∀ pair ∈ entries, pair.1 ≠ kBeginList ∧ pair.1 ≠ kEndList)
    (position : (kBeginList, kBeginList) :: inOrder host entries = front ++ (token, key) :: back) :
    (back.length ≤ 118 → ∃ text, nextList packs host db list token =
        [⟨ascii "/listItems", [keyArgument list, .string text]⟩] ∧
      readPairs (back.length + 1) text.bytes = back ++ [(kEndList, kEndList)]) ∧
    (118 < back.length → nextList packs host db list token = []) := by
  have holds := run_holds ran created exact distinct inner
  rw [← List.cons_append, position, List.append_assoc, List.cons_append] at holds
  have continues : token ≠ kEndList := by
    have mem : (token, key) ∈ (kBeginList, kBeginList) :: inOrder host entries := by
      rw [position]
      simp
    rcases List.mem_cons.mp mem with first | inside
    · cases first
      decide
    · exact (inner _ ((inOrder_perm entries).mem_iff.mp inside)).2
  have answers := @getListNext_rest _ _ _ 120 _ _ _ _ holds continues
  have nonempty : (back ++ [(kEndList, kEndList)]).take 120 ≠ [] := by
    intro none
    have count := congrArg List.length none
    simp at count
  have items := getListItems_page nonempty answers
  unfold nextList send
  rw [items]
  constructor
  · intro short
    have whole : (back ++ [(kEndList, kEndList)]).take 120 = back ++ [(kEndList, kEndList)] :=
      List.take_of_length_le (by simp; omega)
    have fits := (listItems_fits_iff list).mpr
      (show (back ++ [(kEndList, kEndList)]).length ≤ 119 by simp; omega)
    rw [whole, if_pos ((packing _ _ _).mpr fits)]
    refine ⟨_, rfl, ?_⟩
    have read := readPairs_lines (back ++ [(kEndList, kEndList)])
    rw [List.length_append, List.length_singleton] at read
    change readPairs _ (cString _) = _
    rwa [cString_lines]
  · intro long
    have full : 119 < ((back ++ [(kEndList, kEndList)]).take 120).length := by
      simp
      omega
    have too_long := (not_congr (listItems_fits_iff list)).mpr (Nat.not_le_of_lt full)
    exact if_neg ((not_congr (packing _ _ _)).mpr too_long)

theorem list_items_sent_filed :
    ∃ text,
      nextList (fun capacity address arguments => decide (oscSize address arguments ≤ capacity))
        .little filed 7 kBeginList =
          [⟨ascii "/listItems", [keyArgument 7, .string text]⟩] ∧
      readPairs 3 text.bytes =
        inOrder .little [(1500, 1), (1600, 2)] ++ [(kEndList, kEndList)] := by
  have filedAs : filing.flatMap (Call.files flatbuffers .little 7) = [(1500, 1), (1600, 2)] := by
    decide +kernel
  have inner : ∀ pair ∈ [((1500, 1) : UInt64 × UInt64), (1600, 2)],
      pair.1 ≠ kBeginList ∧ pair.1 ≠ kEndList := by
    intro pair member
    rcases List.mem_pair.mp member with rfl | rfl
    · exact ⟨by decide, by decide⟩
    · exact ⟨by decide, by decide⟩
  have exact (pair : UInt64 × UInt64) : pair ∈ [((1500, 1) : UInt64 × UInt64), (1600, 2)] ↔
      ∃ call ∈ filing, pair ∈ call.files flatbuffers .little 7 := by
    rw [← filedAs]
    exact List.mem_flatMap
  have ran : run (Database.call flatbuffers .little) Store.empty filing = some filed :=
    (Option.some_get _).symm
  have count := (@inOrder_perm .little [(1500, 1), (1600, 2)]).length_eq
  have sent := (list_items_sent (fun _ _ _ => decide_eq_true_iff) ran
    (by decide +kernel) exact (by decide) inner (List.nil_append _).symm).1
    (by rw [count]; decide)
  rwa [count] at sent

end Pages

end Confab
