import Mathlib.Data.List.TakeWhile
import SCLOrkTools.Library.Bytes

/- Keys as hexadecimal strings: how Asset writes them, and what it reads with strtoull. -/
namespace Confab
open ByteStrings

abbrev Path := List Byte

def hexDigit (d : Nat) : Byte := Fin.ofNat 256 (if d < 10 then 48 + d else 87 + d)

def keyToString (key : UInt64) : Path :=
  (List.range 16).map fun i => hexDigit (key.toNat / 16 ^ (15 - i) % 16)

def isSpace (b : Byte) : Bool := b.val = 32 || (9 ≤ b.val && b.val ≤ 13)

def hexValue (b : Byte) : Option Nat :=
  if 48 ≤ b.val ∧ b.val ≤ 57 then some (b.val - 48)
  else if 97 ≤ b.val ∧ b.val ≤ 102 then some (b.val - 87)
  else if 65 ≤ b.val ∧ b.val ≤ 70 then some (b.val - 55)
  else none

def cString (s : List Byte) : List Byte := s.takeWhile (·.val ≠ 0)

def hexDigits (s : List Byte) : List Byte := s.takeWhile fun b => (hexValue b).isSome

def hexNumber (digits : List Byte) : Nat :=
  digits.foldl (fun n b => 16 * n + (hexValue b).getD 0) 0

def signOf : List Byte → Bool × Nat
  | b :: _ => if b.val = 45 then (true, 1) else if b.val = 43 then (false, 1) else (false, 0)
  | [] => (false, 0)

/-- "0x" counts where a digit follows. -/
def hexPrefix : List Byte → Nat
  | zero :: x :: digit :: _ =>
    if zero.val = 48 ∧ (x.val = 120 ∨ x.val = 88) ∧ (hexValue digit).isSome then 2 else 0
  | _ => 0

/-- The number, and how many bytes lie before endPtr. A number that is too large gives the
    largest one, whatever its sign. -/
def strtoull (s : List Byte) : UInt64 × Nat :=
  let spaces := (s.takeWhile isSpace).length
  let sign := signOf (s.drop spaces)
  let rest := s.drop (spaces + sign.2)
  let digits := hexDigits (rest.drop (hexPrefix rest))
  if digits = [] then (0, 0)
  else
    let number := hexNumber digits
    (if 2 ^ 64 ≤ number then 18446744073709551615
      else if sign.1 then -UInt64.ofNat number else UInt64.ofNat number,
      spaces + sign.2 + hexPrefix rest + digits.length)

def stringToKey (keyString : List Byte) : UInt64 := (strtoull (cString keyString)).1

/-- The ids that parseListIds has pushed, one turn of its loop for each unit of fuel. -/
def listIdTurns : Nat → List Byte → List UInt64
  | 0, _ => []
  | fuel + 1, rest =>
    if rest = [] then []
    else
      let (key, length) := strtoull (cString rest)
      if key = 0 then [] else key :: listIdTurns fuel (rest.drop (length + 1))

/-- Each turn takes a byte at least. -/
def parseListIds (listIds : List Byte) : List UInt64 := listIdTurns listIds.length listIds

section Digits

theorem hexValue_hexDigit : ∀ d, d < 16 → hexValue (hexDigit d) = some d := by decide

theorem hexDigit_plain : ∀ d, d < 16 → (hexDigit d).val ≠ 0 ∧ isSpace (hexDigit d) = false ∧
    (hexDigit d).val ≠ 45 ∧ (hexDigit d).val ≠ 43 ∧ (hexDigit d).val ≠ 120 ∧
      (hexDigit d).val ≠ 88 := by decide

theorem hexNumber_snoc (digits : List Byte) {d : Nat} (small : d < 16) :
    hexNumber (digits ++ [hexDigit d]) = 16 * hexNumber digits + d := by
  simp [hexNumber, hexValue_hexDigit d small]

theorem hexNumber_digits (width n : Nat) :
    hexNumber ((List.range width).map fun i => hexDigit (n / 16 ^ (width - 1 - i) % 16)) =
      n % 16 ^ width := by
  induction width generalizing n with
  | zero => simp [hexNumber, Nat.mod_one]
  | succ width ih =>
    have front : (List.range width).map (fun i => hexDigit (n / 16 ^ (width - i) % 16)) =
        (List.range width).map fun i => hexDigit (n / 16 / 16 ^ (width - 1 - i) % 16) := by
      apply List.map_congr_left
      intro i mem
      have below := List.mem_range.mp mem
      have power : width - i = width - 1 - i + 1 := by omega
      rw [power, pow_succ', ← Nat.div_div_eq_div_mul]
    rw [List.range_succ, List.map_append, List.map_singleton, Nat.add_sub_cancel, front,
      Nat.sub_self, pow_zero, Nat.div_one, hexNumber_snoc _ (Nat.mod_lt n (by decide)), ih,
      pow_succ', Nat.mod_mul, Nat.add_comm]

theorem mem_keyToString {key : UInt64} {b : Byte} (mem : b ∈ keyToString key) :
    ∃ d, d < 16 ∧ b = hexDigit d := by
  obtain ⟨i, -, rfl⟩ := List.mem_map.mp mem
  exact ⟨_, Nat.mod_lt _ (by decide), rfl⟩

theorem keyToString_length (key : UInt64) : (keyToString key).length = 16 := by
  simp [keyToString]

theorem keyToString_ne_nil (key : UInt64) (rest : List Byte) : keyToString key ++ rest ≠ [] := by
  intro nothing
  have length := congrArg List.length nothing
  simp [keyToString_length] at length

theorem cString_append_key (key : UInt64) (rest : List Byte) :
    cString (keyToString key ++ rest) = keyToString key ++ cString rest := by
  apply List.takeWhile_append_of_pos
  intro b mem
  obtain ⟨d, small, rfl⟩ := mem_keyToString mem
  exact decide_eq_true (hexDigit_plain d small).1

theorem cString_keyToString (key : UInt64) : cString (keyToString key) = keyToString key := by
  have alone := cString_append_key key []
  rw [List.append_nil] at alone
  exact alone.trans (List.append_nil _)

theorem hexDigits_cString {rest : List Byte} (stops : ∀ b ∈ rest.head?, hexValue b = none) :
    hexDigits (cString rest) = [] := by
  cases rest with
  | nil => rfl
  | cons b tail =>
    have stop : hexValue b = none := stops b rfl
    by_cases zero : b.val = 0
    · have ended : cString (b :: tail) = [] := List.takeWhile_cons_of_neg (by simp [zero])
      rw [ended]
      rfl
    · have goes : cString (b :: tail) = b :: cString tail :=
        List.takeWhile_cons_of_pos (by simpa using zero)
      rw [goes]
      exact List.takeWhile_cons_of_neg (by simp [stop])

theorem hexDigits_append_key (key : UInt64) (rest : List Byte) :
    hexDigits (keyToString key ++ rest) = keyToString key ++ hexDigits rest := by
  apply List.takeWhile_append_of_pos
  intro b mem
  obtain ⟨d, small, rfl⟩ := mem_keyToString mem
  rw [hexValue_hexDigit d small]
  rfl

theorem strtoull_keyToString (key : UInt64) {rest : List Byte}
    (stops : ∀ b ∈ rest.head?, hexValue b = none) :
    strtoull (cString (keyToString key ++ rest)) = (key, 16) := by
  have number : hexNumber (keyToString key) = key.toNat :=
    (hexNumber_digits 16 key.toNat).trans (Nat.mod_eq_of_lt key.toNat_lt)
  have whole := cString_append_key key rest
  have digits : hexDigits (keyToString key ++ cString rest) = keyToString key := by
    rw [hexDigits_append_key, hexDigits_cString stops, List.append_nil]
  obtain ⟨a, b, c, tail, shape⟩ : ∃ a b c tail, keyToString key = a :: b :: c :: tail :=
    ⟨_, _, _, _, rfl⟩
  have front : a ∈ keyToString key ∧ b ∈ keyToString key := by simp [shape]
  obtain ⟨d, small, rfl⟩ := mem_keyToString front.1
  obtain ⟨e, second, rfl⟩ := mem_keyToString front.2
  obtain ⟨-, space, minus, plus, -⟩ := hexDigit_plain d small
  obtain ⟨-, -, -, -, lower, upper⟩ := hexDigit_plain e second
  have spaces : (keyToString key ++ cString rest).takeWhile isSpace = [] := by
    rw [shape, List.cons_append, List.takeWhile_cons_of_neg (by simp [space])]
  have sign : signOf (keyToString key ++ cString rest) = (false, 0) := by
    simp [shape, signOf, minus, plus]
  have unprefixed : hexPrefix (keyToString key ++ cString rest) = 0 := by
    simp [shape, hexPrefix, lower, upper]
  have some_digits : keyToString key ≠ [] := by simp [shape]
  have inside : ¬ 18446744073709551616 ≤ key.toNat := Nat.not_le_of_lt key.toNat_lt
  simp [strtoull, whole, spaces, sign, unprefixed, digits, some_digits, number, inside,
    keyToString_length]

theorem stringToKey_append (key : UInt64) {rest : List Byte}
    (stops : rest = [] ∨ rest.head? = some 46) : stringToKey (keyToString key ++ rest) = key := by
  refine congrArg Prod.fst (strtoull_keyToString key fun b first => ?_)
  rcases stops with rfl | dot
  · cases first
  · cases dot.symm.trans first
    rfl

theorem stringToKey_keyToString (key : UInt64) : stringToKey (keyToString key) = key := by
  have alone := stringToKey_append key (.inl (rfl : ([] : List Byte) = []))
  rwa [List.append_nil] at alone

end Digits

end Confab
