import Mathlib.Data.List.Lex
import Mathlib.Order.Fin.Basic
import Mathlib.Data.Nat.ModEq
import Mathlib.Tactic.Ring

/- Strings of bytes: the bytes of a 64-bit number in the order in which a machine keeps them,
   and what lies between two strings with a common front. -/
namespace ByteStrings

abbrev Byte := Fin 256

instance byteSize : NeZero 256 := ⟨by decide⟩

/-- The lowest `width` bytes of a number, the least significant one first. -/
def leBytes : Nat → Nat → List Byte
  | 0, _ => []
  | width + 1, n => ⟨n % 256, Nat.mod_lt n (by decide)⟩ :: leBytes width (n / 256)

def ofLeBytes : List Byte → Nat
  | [] => 0
  | b :: bs => b.val + 256 * ofLeBytes bs

theorem length_leBytes (width n : Nat) : (leBytes width n).length = width := by
  induction width generalizing n with
  | zero => rfl
  | succ width ih => simp [leBytes, ih]

theorem ofLeBytes_leBytes (width n : Nat) : ofLeBytes (leBytes width n) = n % 256 ^ width := by
  induction width generalizing n with
  | zero => simp [leBytes, ofLeBytes, Nat.mod_one]
  | succ width ih =>
    rw [leBytes, ofLeBytes, ih, pow_succ', Nat.mod_mul]

theorem ofLeBytes_lt (bs : List Byte) : ofLeBytes bs < 256 ^ bs.length := by
  induction bs with
  | nil => simp [ofLeBytes]
  | cons b bs ih =>
    rw [ofLeBytes, List.length_cons, pow_succ']
    have := b.isLt
    omega

theorem leBytes_ofLeBytes (bs : List Byte) : leBytes bs.length (ofLeBytes bs) = bs := by
  induction bs with
  | nil => rfl
  | cons b bs ih =>
    have low : (b.val + 256 * ofLeBytes bs) % 256 = b.val := by
      rw [Nat.add_mul_mod_self_left, Nat.mod_eq_of_lt b.isLt]
    have high : (b.val + 256 * ofLeBytes bs) / 256 = ofLeBytes bs := by
      rw [Nat.add_mul_div_left _ _ (by decide), Nat.div_eq_of_lt b.isLt, Nat.zero_add]
    rw [List.length_cons, leBytes, ofLeBytes, high, ih]
    congr 1
    exact Fin.ext low

inductive ByteOrder where
  | little
  | big
  deriving DecidableEq

namespace ByteOrder

def bytes : ByteOrder → UInt64 → List Byte
  | little, n => leBytes 8 n.toNat
  | big, n => (leBytes 8 n.toNat).reverse

def read : ByteOrder → List Byte → UInt64
  | little, bs => UInt64.ofNat (ofLeBytes bs)
  | big, bs => UInt64.ofNat (ofLeBytes bs.reverse)

@[simp] theorem length_bytes (order : ByteOrder) (n : UInt64) : (order.bytes n).length = 8 := by
  cases order with
  | little | big => simp [bytes, length_leBytes]

@[simp] theorem read_bytes (order : ByteOrder) (n : UInt64) : order.read (order.bytes n) = n := by
  have whole : ofLeBytes (leBytes 8 n.toNat) = n.toNat := by
    rw [ofLeBytes_leBytes]
    exact Nat.mod_eq_of_lt n.toNat_lt
  cases order with
  | little => simp [bytes, read, whole]
  | big => simp [bytes, read, whole]

@[simp] theorem bytes_inj (order : ByteOrder) {m n : UInt64} :
    order.bytes m = order.bytes n ↔ m = n := by
  constructor
  · intro same
    rw [← order.read_bytes m, same, order.read_bytes]
  · intro same
    rw [same]

/-- The number whose bytes, the least significant one first, are those of `n` on the machine. -/
def coded (order : ByteOrder) (n : UInt64) : UInt64 := little.read (order.bytes n)

@[simp] theorem coded_little (n : UInt64) : little.coded n = n := read_bytes little n

theorem bytes_read {bs : List Byte} (whole : bs.length = 8) :
    little.bytes (little.read bs) = bs := by
  have bound := ofLeBytes_lt bs
  have back := leBytes_ofLeBytes bs
  rw [whole] at bound back
  have value : (UInt64.ofNat (ofLeBytes bs)).toNat = ofLeBytes bs :=
    UInt64.toNat_ofNat_of_lt' bound
  rw [read, bytes, value, back]

theorem bytes_coded (order : ByteOrder) (n : UInt64) :
    little.bytes (order.coded n) = order.bytes n := bytes_read (order.length_bytes n)

theorem coded_inj (order : ByteOrder) {m n : UInt64} : order.coded m = order.coded n ↔ m = n := by
  rw [← little.bytes_inj, bytes_coded, bytes_coded, bytes_inj]

end ByteOrder

section Front
variable {α : Type} [LinearOrder α]

theorem cons_le_cons_iff {x y : α} {a b : List α} :
    x :: a ≤ y :: b ↔ x < y ∨ x = y ∧ a ≤ b := by
  rw [le_iff_lt_or_eq, List.cons_lt_cons_iff, List.cons.injEq, le_iff_lt_or_eq, or_assoc,
    ← and_or_left]

theorem front_between {front a b c : List α} (first : front <+: a) (last : front <+: c)
    (above : a ≤ b) (below : b ≤ c) : front <+: b := by
  induction front generalizing a b c with
  | nil => exact List.nil_prefix
  | cons x front ih =>
    obtain ⟨a, rfl⟩ := first
    obtain ⟨c, rfl⟩ := last
    cases b with
    | nil => exact absurd above (not_le.mpr (List.nil_lt_cons _ _))
    | cons y b =>
      have lower := cons_le_cons_iff.mp above
      have upper := cons_le_cons_iff.mp below
      have same : x = y := by
        rcases lower with before | ⟨same, -⟩
        · rcases upper with behind | ⟨same, -⟩
          · exact absurd behind before.not_gt
          · exact same.symm
        · exact same
      subst same
      simp only [lt_irrefl, true_and, false_or] at lower upper
      rw [List.prefix_cons_inj]
      exact ih (List.prefix_append front a) (List.prefix_append front c) lower upper

theorem append_lt {a b x y : List α} (long : a.length = b.length) (before : a < b) :
    a ++ x < b ++ y := by
  induction a generalizing b with
  | nil =>
    cases b with
    | nil => exact absurd before (lt_irrefl _)
    | cons c b => cases long
  | cons c a ih =>
    cases b with
    | nil => cases long
    | cons d b =>
      rw [List.cons_append, List.cons_append, List.cons_lt_cons_iff]
      rcases List.cons_lt_cons_iff.mp before with first | ⟨same, rest⟩
      · exact Or.inl first
      · exact Or.inr ⟨same, ih (Nat.succ.inj long) rest⟩

theorem append_le {a x y : List α} (below : x ≤ y) : a ++ x ≤ a ++ y := by
  induction a with
  | nil => exact below
  | cons c a ih => exact cons_le_cons_iff.mpr (Or.inr ⟨rfl, ih⟩)

theorem replicate_le {least : α} (below : ∀ a, least ≤ a) (l : List α) :
    List.replicate l.length least ≤ l := by
  induction l with
  | nil => exact le_rfl
  | cons a l ih =>
    rw [List.length_cons, List.replicate_succ, cons_le_cons_iff]
    rcases eq_or_lt_of_le (below a) with same | before
    · exact Or.inr ⟨same, ih⟩
    · exact Or.inl before

theorem le_replicate {greatest : α} (above : ∀ a, a ≤ greatest) (l : List α) :
    l ≤ List.replicate l.length greatest := by
  induction l with
  | nil => exact le_rfl
  | cons a l ih =>
    rw [List.length_cons, List.replicate_succ, cons_le_cons_iff]
    rcases eq_or_lt_of_le (above a) with same | before
    · exact Or.inr ⟨same, ih⟩
    · exact Or.inl before

end Front

namespace ByteOrder

theorem bytes_zero (order : ByteOrder) : order.bytes 0 = List.replicate 8 0 := by
  cases order with
  | little | big => decide

theorem bytes_max (order : ByteOrder) :
    order.bytes 18446744073709551615 = List.replicate 8 255 := by
  cases order with
  | little | big => decide

@[simp] theorem coded_zero (order : ByteOrder) : order.coded 0 = 0 := by
  rw [← little.bytes_inj, bytes_coded, bytes_zero, bytes_zero]

@[simp] theorem coded_max (order : ByteOrder) :
    order.coded 18446744073709551615 = 18446744073709551615 := by
  rw [← little.bytes_inj, bytes_coded, bytes_max, bytes_max]

theorem zero_le (order : ByteOrder) (n : UInt64) : order.bytes 0 ≤ order.bytes n := by
  have least := replicate_le (fun b : Byte => Fin.zero_le b) (order.bytes n)
  rw [length_bytes] at least
  rw [bytes_zero]
  exact least

theorem le_max (order : ByteOrder) (n : UInt64) :
    order.bytes n ≤ order.bytes 18446744073709551615 := by
  have greatest := le_replicate (fun b : Byte => Fin.le_last b) (order.bytes n)
  rw [length_bytes] at greatest
  rw [bytes_max]
  exact greatest

theorem zero_lt (order : ByteOrder) {n : UInt64} (positive : n ≠ 0) :
    order.bytes 0 < order.bytes n :=
  lt_of_le_of_ne (order.zero_le n) fun same => positive (order.bytes_inj.mp same).symm

theorem lt_max (order : ByteOrder) {n : UInt64} (below : n ≠ 18446744073709551615) :
    order.bytes n < order.bytes 18446744073709551615 :=
  lt_of_le_of_ne (order.le_max n) fun same => below (order.bytes_inj.mp same)

end ByteOrder

end ByteStrings
