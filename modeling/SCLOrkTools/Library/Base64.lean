import SCLOrkTools.Library.Bytes

/- Base64: three bytes as four digits of six bits. The last digits may stand for one or two bytes,
   and are filled up with signs of equality. -/
namespace Base64
open ByteStrings

def letter (d : Nat) : Byte :=
  Fin.ofNat 256
    (if d < 26 then 65 + d else if d < 52 then 71 + d else if d < 62 then d - 4
      else if d = 62 then 43 else 47)

def digit (b : Byte) : Option Nat :=
  if 65 ≤ b.val ∧ b.val ≤ 90 then some (b.val - 65)
  else if 97 ≤ b.val ∧ b.val ≤ 122 then some (b.val - 71)
  else if 48 ≤ b.val ∧ b.val ≤ 57 then some (b.val + 4)
  else if b.val = 43 then some 62
  else if b.val = 47 then some 63
  else none

def encodeDigits : List Byte → List Nat
  | a :: b :: c :: rest => a.val / 4 :: (a.val % 4 * 16 + b.val / 16) ::
      (b.val % 16 * 4 + c.val / 64) :: c.val % 64 :: encodeDigits rest
  | [a, b] => [a.val / 4, a.val % 4 * 16 + b.val / 16, b.val % 16 * 4]
  | [a] => [a.val / 4, a.val % 4 * 16]
  | [] => []

def encode (data : List Byte) : List Byte :=
  let digits := (encodeDigits data).map letter
  digits ++ List.replicate ((4 - digits.length % 4) % 4) 61

def digits : List Byte → List Nat
  | [] => []
  | b :: rest =>
    match digit b with
    | none => []
    | some d => d :: digits rest

def decodeDigits : List Nat → List Byte
  | p :: q :: r :: s :: rest => Fin.ofNat 256 (p * 4 + q / 16) ::
      Fin.ofNat 256 (q % 16 * 16 + r / 4) :: Fin.ofNat 256 (r % 4 * 64 + s) :: decodeDigits rest
  | [p, q, r] => [Fin.ofNat 256 (p * 4 + q / 16), Fin.ofNat 256 (q % 16 * 16 + r / 4)]
  | [p, q] => [Fin.ofNat 256 (p * 4 + q / 16)]
  | _ => []

/-- What has been decoded when the end or another byte than a digit is met. -/
def decode (body : List Byte) : List Byte := decodeDigits (digits body)

theorem digit_letter {d : Nat} (small : d < 64) : digit (letter d) = some d := by
  have all : ∀ d < 64, digit (letter d) = some d := by decide
  exact all d small

theorem encodeDigits_small (data : List Byte) : ∀ d ∈ encodeDigits data, d < 64 := by
  induction data using encodeDigits.induct with
  | case1 a b c rest ih =>
    intro d mem
    have := a.isLt
    have := b.isLt
    simp only [encodeDigits, List.mem_cons] at mem
    rcases mem with rfl | rfl | rfl | rfl | later
    · omega
    · omega
    · omega
    · omega
    · exact ih d later
  | case2 a b =>
    intro d mem
    have := a.isLt
    have := b.isLt
    simp only [encodeDigits, List.mem_cons, List.not_mem_nil, or_false] at mem
    omega
  | case3 a =>
    intro d mem
    have := a.isLt
    simp only [encodeDigits, List.mem_cons, List.not_mem_nil, or_false] at mem
    omega
  | case4 => exact fun d mem => absurd mem List.not_mem_nil

theorem encodeDigits_length (data : List Byte) :
    (encodeDigits data).length = (4 * data.length + 2) / 3 := by
  induction data using encodeDigits.induct with
  | case1 a b c rest ih =>
    simp only [encodeDigits, List.length_cons, ih]
    omega
  | case2 | case3 | case4 => simp [encodeDigits]

theorem length_encode (data : List Byte) :
    (encode data).length = 4 * ((data.length + 2) / 3) := by
  simp only [encode, List.length_append, List.length_map, List.length_replicate,
    encodeDigits_length]
  omega

theorem digits_append {ds : List Nat} (small : ∀ d ∈ ds, d < 64) (rest : List Byte) :
    digits (ds.map letter ++ rest) = ds ++ digits rest := by
  induction ds with
  | nil => rfl
  | cons d ds ih =>
    rw [List.map_cons, List.cons_append, digits, digit_letter (small d List.mem_cons_self)]
    dsimp only
    rw [ih fun e mem => small e (List.mem_cons_of_mem d mem), List.cons_append]

theorem digits_fill (n : Nat) : digits (List.replicate n 61) = [] := by
  cases n with
  | zero => rfl
  | succ n => rfl

theorem digits_encode (data : List Byte) : digits (encode data) = encodeDigits data := by
  rw [encode, digits_append (encodeDigits_small data), digits_fill, List.append_nil]

theorem decodeDigits_length (ds : List Nat) : (decodeDigits ds).length = 3 * ds.length / 4 := by
  induction ds using decodeDigits.induct with
  | case1 p q r s rest ih =>
    simp only [decodeDigits, List.length_cons, ih]
    omega
  | case2 | case3 => simp [decodeDigits]
  | case4 ds many three two =>
    match ds, many, three, two with
    | [], _, _, _ => simp [decodeDigits]
    | [_], _, _, _ => simp [decodeDigits]
    | [p, q], _, _, two => exact absurd rfl (two p q)
    | [p, q, r], _, three, _ => exact absurd rfl (three p q r)
    | p :: q :: r :: s :: rest, many, _, _ => exact absurd rfl (many p q r s rest)

theorem length_decode (body : List Byte) :
    (decode body).length = 3 * (digits body).length / 4 := decodeDigits_length _

theorem ofNat_byte {n : Nat} {a : Byte} (whole : n = a.val) : Fin.ofNat 256 n = a := by
  apply Fin.ext
  rw [Fin.val_ofNat, whole, Nat.mod_eq_of_lt a.isLt]

theorem first_byte (a b : Byte) :
    Fin.ofNat 256 (a.val / 4 * 4 + (a.val % 4 * 16 + b.val / 16) / 16) = a := by
  have := b.isLt
  exact ofNat_byte (by omega)

theorem second_byte (a b c : Byte) :
    Fin.ofNat 256 ((a.val % 4 * 16 + b.val / 16) % 16 * 16 +
      (b.val % 16 * 4 + c.val / 64) / 4) = b := by
  have := b.isLt
  have := c.isLt
  exact ofNat_byte (by omega)

theorem third_byte (b c : Byte) :
    Fin.ofNat 256 ((b.val % 16 * 4 + c.val / 64) % 4 * 64 + c.val % 64) = c := by
  have := c.isLt
  exact ofNat_byte (by omega)

theorem decode_encode (data : List Byte) : decode (encode data) = data := by
  rw [decode, digits_encode]
  induction data using encodeDigits.induct with
  | case1 a b c rest ih =>
    rw [encodeDigits, decodeDigits, ih, first_byte, second_byte, third_byte]
  | case2 a b =>
    have second := second_byte a b 0
    rw [encodeDigits, decodeDigits, first_byte]
    simpa using second
  | case3 a =>
    have first := first_byte a 0
    rw [encodeDigits, decodeDigits]
    simpa using first
  | case4 => rfl

/-- An implementation, which decodes up to the first byte that is no digit. -/
structure Codec where
  encode : List Byte → List Byte
  decode : List Byte → List Byte
  length_encode : ∀ data, (encode data).length = 4 * ((data.length + 2) / 3)
  length_decode : ∀ body, (decode body).length = 3 * (digits body).length / 4
  decode_encode : ∀ data, decode (encode data) = data

def codec : Codec where
  encode := encode
  decode := decode
  length_encode := length_encode
  length_decode := length_decode
  decode_encode := decode_encode

end Base64
