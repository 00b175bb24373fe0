import Mathlib.Data.Int.Basic
import SCLOrkTools.Library.Ring

/- Integers of 32 bits in two's complement, kept as the natural number that their bits spell.
   A counter that starts from zero counts as the natural numbers do until it has reached the
   largest positive value; the step after that one leads to the smallest. -/
namespace WrapInteger
open RingBuffer

def following (n : Nat) : Nat := (n + 1) % 2 ^ 32

def signed (n : Nat) : Int := if n < 2 ^ 31 then n else n - 2 ^ 32

section Early
variable {m n : Nat}

theorem following_early (early : n < 2 ^ 31) : following n = n + 1 := by
  unfold following
  omega

theorem signed_early (early : n < 2 ^ 31) : signed n = n := if_pos early

theorem signed_le (early : m < 2 ^ 31) (early' : n < 2 ^ 31) : signed m ≤ signed n ↔ m ≤ n := by
  rw [signed_early early, signed_early early', Int.ofNat_le]

theorem signed_lt (early : m < 2 ^ 31) (early' : n < 2 ^ 31) : signed m < signed n ↔ m < n := by
  rw [signed_early early, signed_early early', Int.ofNat_lt]

theorem wrapAtInt_signed {α : Type} (r : WrapArray α) (early : n < 2 ^ 31) :
    r.wrapAtInt (signed n) = r.wrapAt n := by
  rw [signed_early early, wrapAtInt_natCast]

theorem wrapPutInt_signed {α : Type} (r : WrapArray α) (v : Option α) (early : n < 2 ^ 31) :
    r.wrapPutInt (signed n) v = r.wrapPut n v := by
  rw [signed_early early, wrapPutInt_natCast]

end Early

end WrapInteger
