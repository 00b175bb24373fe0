import SCLOrkTools.Confab.Asset

/- The loop of parseListIds. strtoull says how far each turn gets, and whatever stands there is
   skipped for a comma. -/
namespace Confab
open ByteStrings

structure ListIdParse where
  lists : List UInt64
  idsParsed : Nat
  offset : Nat

/-- A turn. None where the loop is left, at the end of the string or at a key that is zero. -/
def ListIdParse.turn (listIds : List Byte) (p : ListIdParse) : Option ListIdParse :=
  if p.offset < listIds.length then
    let (key, length) := strtoull (cString (listIds.drop p.offset))
    if key = 0 then none
    else some
      { lists := p.lists ++ [key]
        idsParsed := p.idsParsed + 1
        offset := p.offset + length + 1 }
  else none

/-- The loop, with the variables it leaves. None if the fuel does not suffice. -/
def ListIdParse.turns (listIds : List Byte) : Nat → ListIdParse → Option ListIdParse
  | 0, _ => none
  | fuel + 1, p =>
    match p.turn listIds with
    | none => some p
    | some next => turns listIds fuel next

namespace Asset

def parseListIdTurns (asset : Asset) (fuel : Nat) (listIds : List Byte) : Option (Nat × Asset) :=
  (ListIdParse.turns listIds fuel ⟨asset.lists, 0, 0⟩).map fun p =>
    (p.idsParsed, { asset with lists := p.lists })

/-- The loop ends, in one turn for each byte and one more at most. It has appended these ids, and
    returns how many they are. -/
def Appends (asset : Asset) (listIds : List Byte) (ids : List UInt64) : Prop :=
  ∀ fuel, listIds.length < fuel →
    asset.parseListIdTurns fuel listIds =
      some (ids.length, { asset with lists := asset.lists ++ ids })

end Asset

def joinKeys (keys : List UInt64) : List Byte := List.intercalate [44] (keys.map keyToString)

section Turns
variable {listIds : List Byte} {p : ListIdParse}

theorem turn_rest (inside : p.offset < listIds.length) {key : UInt64} {length : Nat}
    (reads : strtoull (cString (listIds.drop p.offset)) = (key, length)) :
    p.turn listIds = if key = 0 then none
      else some ⟨p.lists ++ [key], p.idsParsed + 1, p.offset + length + 1⟩ := by
  rw [ListIdParse.turn, if_pos inside, reads]

theorem turn_done (outside : listIds.length ≤ p.offset) : p.turn listIds = none :=
  if_neg (Nat.not_lt_of_le outside)

theorem listIdTurns_rest {fuel : Nat} {rest : List Byte} (some_left : rest ≠ []) {key : UInt64}
    {length : Nat} (reads : strtoull (cString rest) = (key, length)) :
    listIdTurns (fuel + 1) rest =
      if key = 0 then [] else key :: listIdTurns fuel (rest.drop (length + 1)) := by
  rw [listIdTurns, if_neg some_left, reads]

theorem listIdTurns_nil (fuel : Nat) : listIdTurns fuel [] = [] := by
  cases fuel with
  | zero => rfl
  | succ fuel => rfl

theorem listIdTurns_nonzero (fuel : Nat) (rest : List Byte) :
    ∀ key ∈ listIdTurns fuel rest, key ≠ 0 := by
  induction fuel generalizing rest with
  | zero => exact fun key mem => absurd mem List.not_mem_nil
  | succ fuel ih =>
    by_cases ended : rest = []
    · rw [ended, listIdTurns_nil]
      exact fun key mem => absurd mem List.not_mem_nil
    · cases reads : strtoull (cString rest) with
      | mk first length =>
        rw [listIdTurns_rest ended reads]
        by_cases zero : first = 0
        · rw [if_pos zero]
          exact fun key mem => absurd mem List.not_mem_nil
        · rw [if_neg zero]
          intro key mem
          rcases List.mem_cons.mp mem with rfl | later
          · exact zero
          · exact ih _ key later

theorem turns_append {fuel room : Nat} (enough : listIds.length - p.offset < fuel)
    (roomy : listIds.length - p.offset ≤ room) :
    ∃ offset, ListIdParse.turns listIds fuel p =
      some ⟨p.lists ++ listIdTurns room (listIds.drop p.offset),
        p.idsParsed + (listIdTurns room (listIds.drop p.offset)).length, offset⟩ := by
  induction fuel generalizing p room with
  | zero => omega
  | succ fuel ih =>
    rw [ListIdParse.turns]
    by_cases inside : p.offset < listIds.length
    · obtain ⟨room, rfl⟩ : ∃ less, room = less + 1 := ⟨room - 1, by omega⟩
      have some_left : listIds.drop p.offset ≠ [] := by
        rw [ne_eq, List.drop_eq_nil_iff]
        omega
      cases reads : strtoull (cString (listIds.drop p.offset)) with
      | mk key length =>
        rw [turn_rest inside reads, listIdTurns_rest some_left reads]
        by_cases zero : key = 0
        · exact ⟨p.offset, by simp [zero]⟩
        · obtain ⟨offset, ends⟩ := @ih
            ⟨p.lists ++ [key], p.idsParsed + 1, p.offset + length + 1⟩ room
            (by dsimp only; omega) (by dsimp only; omega)
          refine ⟨offset, ?_⟩
          simp only [if_neg zero, ends, List.drop_drop, List.append_assoc, List.length_cons]
          simp only [Nat.add_assoc, Nat.add_comm 1, List.singleton_append]
    · rw [turn_done (Nat.le_of_not_lt inside), List.drop_eq_nil_of_le (Nat.le_of_not_lt inside),
        listIdTurns_nil]
      exact ⟨p.offset, by simp⟩

end Turns
section Keys

/-- The loop does what parseListIds was said to do. -/
theorem appends_parseListIds (asset : Asset) (listIds : List Byte) :
    asset.Appends listIds (parseListIds listIds) := by
  intro fuel enough
  obtain ⟨offset, ends⟩ := @turns_append listIds ⟨asset.lists, 0, 0⟩ fuel listIds.length
    (by simpa using enough) (Nat.sub_le _ _)
  rw [Asset.parseListIdTurns, ends, Option.map_some, List.drop_zero, Nat.zero_add]
  rfl

-- "0x1f;-1", a zero byte and " 2": a prefix, a sign and a space are read, any byte is skipped.
example : parseListIds [48, 120, 49, 102, 59, 45, 49, 0, 32, 50] =
    [31, 18446744073709551615, 2] := by
  decide +kernel

theorem joinKeys_cons (key : UInt64) (keys : List UInt64) :
    ∃ rest, joinKeys (key :: keys) = keyToString key ++ rest ∧
      (∀ b ∈ rest.head?, hexValue b = none) ∧ rest.drop 1 = joinKeys keys := by
  cases keys with
  | nil =>
    refine ⟨[], ?_, fun b first => ?_, rfl⟩
    · simp [joinKeys]
    · cases first
  | cons next keys =>
    refine ⟨44 :: joinKeys (next :: keys), ?_, fun b first => ?_, rfl⟩
    · simp [joinKeys]
    · cases first
      rfl

theorem listIdTurns_joinKeys {keys : List UInt64} (nonzero : ∀ key ∈ keys, key ≠ 0)
    {room : Nat} (roomy : keys.length ≤ room) : listIdTurns room (joinKeys keys) = keys := by
  induction keys generalizing room with
  | nil => exact listIdTurns_nil room
  | cons key keys ih =>
    obtain ⟨less, rfl⟩ := Nat.exists_eq_add_of_le' ((Nat.le_add_left 1 keys.length).trans roomy)
    obtain ⟨rest, joined, stops, later⟩ := joinKeys_cons key keys
    have skipped : (keyToString key ++ rest).drop (16 + 1) = joinKeys keys := by
      rw [← later, ← keyToString_length key, List.drop_length_add_append]
    rw [joined, listIdTurns_rest (keyToString_ne_nil key rest) (strtoull_keyToString key stops),
      if_neg (nonzero key List.mem_cons_self), skipped,
      ih (fun key mem => nonzero key (List.mem_cons_of_mem _ mem)) (Nat.le_of_succ_le_succ roomy)]

theorem length_joinKeys (keys : List UInt64) : keys.length ≤ (joinKeys keys).length := by
  induction keys with
  | nil => exact Nat.zero_le _
  | cons key keys ih =>
    obtain ⟨rest, joined, -, later⟩ := joinKeys_cons key keys
    have shorter := congrArg List.length later
    rw [List.length_drop] at shorter
    rw [joined, List.length_append, List.length_cons, keyToString_length]
    omega

end Keys

/-- Any string is parsed, and what was joined is parsed to the keys that were joined. -/
theorem list_ids_parsed (asset : Asset) :
    (∀ listIds, ∃ ids, asset.Appends listIds ids ∧ ∀ key ∈ ids, key ≠ 0) ∧
    (∀ keys, (∀ key ∈ keys, key ≠ 0) → asset.Appends (joinKeys keys) keys) ∧
    ∀ key, stringToKey (keyToString key) = key := by
  refine ⟨fun listIds => ?_, fun keys nonzero => ?_, stringToKey_keyToString⟩
  · exact ⟨parseListIds listIds, appends_parseListIds asset listIds, listIdTurns_nonzero _ _⟩
  · have same : parseListIds (joinKeys keys) = keys :=
      listIdTurns_joinKeys nonzero (length_joinKeys keys)
    have appends := appends_parseListIds asset (joinKeys keys)
    rwa [same] at appends

theorem list_ids_parsed_ends : (Asset.new .kInvalid).Appends
    (joinKeys [1, 18446744073709551615]) [1, 18446744073709551615] :=
  (list_ids_parsed (Asset.new .kInvalid)).2.1 [1, 18446744073709551615] (by simp)

end Confab
