import Mathlib.Algebra.BigOperators.Group.List.Basic
import Mathlib.Data.List.Basic
import Mathlib.Data.List.DropRight
import Mathlib.Data.Nat.ModEq

/- Arrays addressed modulo their size, with empty slots. Two positions share a slot
   exactly when they are congruent, so any window no wider than the array gives each
   of its positions a slot of its own. -/
namespace RingBuffer

structure WrapArray (α : Type) where
  slots : List (Option α)
  deriving DecidableEq, Repr

variable {α : Type}

def WrapArray.clear (n : Nat) : WrapArray α := ⟨List.replicate n none⟩
def WrapArray.size (r : WrapArray α) : Nat := r.slots.length
def WrapArray.wrapAt (r : WrapArray α) (i : Nat) : Option α := r.slots[i % r.size]?.join
def WrapArray.wrapPut (r : WrapArray α) (i : Nat) (v : Option α) : WrapArray α :=
  ⟨r.slots.set (i % r.size) v⟩
def WrapArray.occupied (r : WrapArray α) : Nat := r.slots.countP Option.isSome
def WrapArray.isEmpty (r : WrapArray α) : Bool := r.slots.all Option.isNone

@[simp] theorem size_clear (n : Nat) : (WrapArray.clear n : WrapArray α).size = n := by
  simp [WrapArray.clear, WrapArray.size]

@[simp] theorem size_wrapPut (r : WrapArray α) (i : Nat) (v : Option α) :
    (r.wrapPut i v).size = r.size := by
  simp [WrapArray.wrapPut, WrapArray.size]

@[simp] theorem wrapAt_clear (n i : Nat) : (WrapArray.clear n : WrapArray α).wrapAt i = none := by
  cases h : (List.replicate n (none : Option α))[i % n]? with
  | none => simp [WrapArray.clear, WrapArray.wrapAt, WrapArray.size, h]
  | some slot =>
    have := List.eq_of_mem_replicate (List.mem_of_getElem? h)
    simp [WrapArray.clear, WrapArray.wrapAt, WrapArray.size, h, this]

theorem wrapAt_wrapPut (r : WrapArray α) (i j : Nat) (v : Option α) (wide : 0 < r.size) :
    (r.wrapPut i v).wrapAt j = if j % r.size = i % r.size then v else r.wrapAt j := by
  have inside : i % r.slots.length < r.slots.length := Nat.mod_lt i wide
  by_cases same : j % r.size = i % r.size
  · rw [if_pos same]
    simp only [WrapArray.wrapAt, size_wrapPut, same]
    simp [WrapArray.wrapPut, WrapArray.size, inside]
  · rw [if_neg same]
    simp only [WrapArray.wrapAt, size_wrapPut]
    simp only [WrapArray.wrapPut]
    rw [List.getElem?_set_ne (Ne.symm same)]

theorem slot_injective {n lo i j : Nat} (hi : lo ≤ i ∧ i < lo + n) (hj : lo ≤ j ∧ j < lo + n)
    (same : i % n = j % n) : i = j := by
  rcases Nat.le_total i j with le | le
  · exact ((Nat.modEq_iff_dvd' le).mp same).elim fun k hk => by
      cases k with
      | zero => omega
      | succ k => rw [Nat.mul_succ] at hk; omega
  · exact ((Nat.modEq_iff_dvd' le).mp (Eq.symm same)).elim fun k hk => by
      cases k with
      | zero => omega
      | succ k => rw [Nat.mul_succ] at hk; omega

theorem wrapAt_wrapPut_window (r : WrapArray α) {lo i j : Nat} (v : Option α)
    (hi : lo ≤ i ∧ i < lo + r.size) (hj : lo ≤ j ∧ j < lo + r.size) :
    (r.wrapPut i v).wrapAt j = if j = i then v else r.wrapAt j := by
  rw [wrapAt_wrapPut r i j v (by omega)]
  by_cases same : j = i
  · simp [same]
  · rw [if_neg same, if_neg (fun eq => same (slot_injective hj hi eq))]

theorem wrapAt_wrapPut_self (r : WrapArray α) (i : Nat) (v : Option α) (wide : 0 < r.size) :
    (r.wrapPut i v).wrapAt i = v := by
  rw [wrapAt_wrapPut r i i v wide, if_pos rfl]

theorem wrapAt_add_size (r : WrapArray α) (i : Nat) : r.wrapAt (i + r.size) = r.wrapAt i := by
  simp [WrapArray.wrapAt]

/-- An index of either sign: the remainder that picks the slot is never negative. -/
def WrapArray.wrapAtInt (r : WrapArray α) (i : Int) : Option α := r.wrapAt (i % r.size).toNat
def WrapArray.wrapPutInt (r : WrapArray α) (i : Int) (v : Option α) : WrapArray α :=
  r.wrapPut (i % r.size).toNat v

@[simp] theorem wrapAtInt_natCast (r : WrapArray α) (i : Nat) : r.wrapAtInt i = r.wrapAt i := by
  have slot : ((i : Int) % r.size).toNat = i % r.size := by
    rw [← Int.natCast_emod, Int.toNat_natCast]
  simp [WrapArray.wrapAtInt, WrapArray.wrapAt, slot]

@[simp] theorem wrapPutInt_natCast (r : WrapArray α) (i : Nat) (v : Option α) :
    r.wrapPutInt i v = r.wrapPut i v := by
  have slot : ((i : Int) % r.size).toNat = i % r.size := by
    rw [← Int.natCast_emod, Int.toNat_natCast]
  simp [WrapArray.wrapPutInt, WrapArray.wrapPut, slot]

@[simp] theorem size_wrapPutInt (r : WrapArray α) (i : Int) (v : Option α) :
    (r.wrapPutInt i v).size = r.size := size_wrapPut r _ v

theorem occupied_le_size (r : WrapArray α) : r.occupied ≤ r.size := List.countP_le_length

/-- Emptying an occupied slot leaves one occupied slot less: the measure of a drain loop. -/
theorem occupied_take {r : WrapArray α} {i : Nat} {x : α} (held : r.wrapAt i = some x) :
    (r.wrapPut i none).occupied + 1 = r.occupied := by
  have inside : i % r.slots.length < r.slots.length := by
    by_contra out
    have absent : r.slots[i % r.slots.length]? = none := List.getElem?_eq_none (by omega)
    simp [WrapArray.wrapAt, WrapArray.size, absent] at held
  have slot : r.slots[i % r.slots.length] = some x := by
    simpa [WrapArray.wrapAt, WrapArray.size, List.getElem?_eq_getElem inside] using held
  have positive : 0 < List.countP Option.isSome r.slots :=
    List.countP_pos_iff.mpr ⟨_, List.getElem_mem inside, by simp [slot]⟩
  simp only [WrapArray.occupied, WrapArray.wrapPut, WrapArray.size, List.countP_set inside, slot]
  simp
  omega

/-- What the slots of the window that starts at `lo` hold, where they hold anything. -/
def Holds (P : Nat → α → Prop) (lo : Nat) (r : WrapArray α) : Prop :=
  ∀ i x, lo ≤ i → i < lo + r.size → r.wrapAt i = some x → P i x

theorem holds_clear (P : Nat → α → Prop) (lo n : Nat) : Holds P lo (WrapArray.clear n) := by
  intro i x _ _ held
  simp at held

theorem holds_mono {P Q : Nat → α → Prop} {lo : Nat} {r : WrapArray α}
    (weaker : ∀ i x, P i x → Q i x) (holds : Holds P lo r) : Holds Q lo r :=
  fun i x above below held => weaker i x (holds i x above below held)

theorem holds_put {P : Nat → α → Prop} {lo i : Nat} {r : WrapArray α} {v : Option α}
    (holds : Holds P lo r) (above : lo ≤ i) (below : i < lo + r.size)
    (meets : ∀ x, v = some x → P i x) : Holds P lo (r.wrapPut i v) := by
  intro j x lower upper held
  rw [size_wrapPut] at upper
  rw [wrapAt_wrapPut_window r v ⟨above, below⟩ ⟨lower, upper⟩] at held
  by_cases same : j = i
  · rw [if_pos same] at held
    rw [same]
    exact meets x held
  · rw [if_neg same] at held
    exact holds j x lower upper held

/-- The window moves past an empty slot: the position that enters shares that slot. -/
theorem holds_slide {P : Nat → α → Prop} {lo : Nat} {r : WrapArray α}
    (holds : Holds P lo r) (empty : r.wrapAt lo = none) : Holds P (lo + 1) r := by
  intro i x above below held
  by_cases last : i = lo + r.size
  · rw [last, wrapAt_add_size, empty] at held
    cases held
  · exact holds i x (by omega) (by omega) held

theorem holds_anywhere {P : Nat → α → Prop} {lo j : Nat} {r : WrapArray α} {x : α}
    (holds : Holds P lo r) (wide : 0 < r.size) (held : r.wrapAt j = some x) :
    ∃ i, lo ≤ i ∧ i < lo + r.size ∧ P i x := by
  have bound : (j + lo * (r.size - 1)) % r.size < r.size := Nat.mod_lt _ wide
  have shared : (lo + (j + lo * (r.size - 1)) % r.size) % r.size = j % r.size := by
    have around : lo + (j + lo * (r.size - 1)) = j + lo * r.size := by
      obtain ⟨n, size⟩ := Nat.exists_eq_add_one_of_ne_zero wide.ne'
      rw [size, Nat.add_sub_cancel, Nat.mul_succ]
      omega
    rw [Nat.add_mod_mod, around, Nat.add_mul_mod_self_right]
  refine ⟨lo + (j + lo * (r.size - 1)) % r.size, Nat.le_add_right _ _, by omega, ?_⟩
  apply holds _ x (Nat.le_add_right _ _) (by omega)
  rw [WrapArray.wrapAt, shared]
  exact held

def Every (P : α → Prop) (r : WrapArray α) : Prop := ∀ i x, r.wrapAt i = some x → P x

theorem every_clear (P : α → Prop) (n : Nat) : Every P (WrapArray.clear n) := by
  intro i x held
  simp at held

theorem every_put {P : α → Prop} {r : WrapArray α} {i : Nat} {v : Option α} (every : Every P r)
    (meets : ∀ x, v = some x → P x) : Every P (r.wrapPut i v) := by
  intro j x held
  rcases Nat.eq_zero_or_pos r.size with empty | wide
  · have none : (r.wrapPut i v).slots = [] := List.eq_nil_of_length_eq_zero (by
      simpa [WrapArray.size] using (size_wrapPut r i v).trans empty)
    simp [WrapArray.wrapAt, none] at held
  · rw [wrapAt_wrapPut r i j v wide] at held
    split at held
    · exact meets x held
    · exact every j x held

theorem every_iff_slots {P : α → Prop} {r : WrapArray α} :
    Every P r ↔ ∀ slot ∈ r.slots, ∀ x ∈ slot, P x := by
  constructor
  · intro every slot mem x held
    obtain ⟨i, bound, at_i⟩ := List.getElem_of_mem mem
    apply every i x
    simp [WrapArray.wrapAt, WrapArray.size, Nat.mod_eq_of_lt bound, List.getElem?_eq_getElem bound,
      at_i, Option.mem_def.mp held]
  · intro each i x held
    cases found : r.slots[i % r.size]? with
    | none => simp [WrapArray.wrapAt, found] at held
    | some slot =>
      refine each slot (List.mem_of_getElem? found) x ?_
      simpa [WrapArray.wrapAt, found] using held

theorem every_empty {P : α → Prop} {r : WrapArray α} (empty : r.isEmpty = true) : Every P r := by
  have each : ∀ slot ∈ r.slots, slot.isNone = true := List.all_eq_true.mp empty
  refine every_iff_slots.mpr fun slot mem x held => ?_
  have none := each slot mem
  rw [Option.mem_def.mp held] at none
  cases none

instance {P : α → Prop} [DecidablePred P] (r : WrapArray α) : Decidable (Every P r) :=
  decidable_of_iff _ every_iff_slots.symm

/-- A ring that keeps the newest entries of a log: positions `lo` up to `hi` all present. -/
def Tracks (log : Nat → Option α) (lo hi : Nat) (r : WrapArray α) : Prop :=
  hi ≤ lo + r.size ∧ ∀ i, lo ≤ i → i < hi → r.wrapAt i = log i

theorem tracks_push {log : Nat → Option α} {lo lo' hi : Nat} {r : WrapArray α} {v : Option α}
    (tracks : Tracks log lo hi r) (shrink : lo ≤ lo') (nonempty : lo' ≤ hi)
    (fits : hi + 1 ≤ lo' + r.size) (newest : log hi = v) :
    Tracks log lo' (hi + 1) (r.wrapPut hi v) := by
  refine ⟨by simpa using fits, ?_⟩
  intro i above below
  rw [wrapAt_wrapPut_window r v (show lo' ≤ hi ∧ hi < lo' + r.size by omega) ⟨above, by omega⟩]
  by_cases same : i = hi
  · rw [if_pos same, same, newest]
  · rw [if_neg same]
    exact tracks.2 i (by omega) (by omega)

/-- Plain indexing of the slots, without the modulus. -/
def WrapArray.slot (r : WrapArray α) (i : Nat) : Option α := r.slots[i]?.join
def WrapArray.setSlot (r : WrapArray α) (i : Nat) (v : Option α) : WrapArray α :=
  ⟨r.slots.set i v⟩

theorem slot_mod (r : WrapArray α) (i : Nat) : r.slot (i % r.size) = r.wrapAt i := rfl

theorem setSlot_mod (r : WrapArray α) (i : Nat) (v : Option α) :
    r.setSlot (i % r.size) v = r.wrapPut i v := rfl

/-- A ring with an index that goes round it: as many of the newest entries of a log as it has
    slots, and the index at the slot that the next entry goes to. -/
structure Newest (log : List α) (index : Nat) (r : WrapArray α) : Prop where
  wide : 0 < r.size
  next : index = log.length % r.size
  kept : Tracks (log[·]?) (log.length - r.size) log.length r
  fresh : ∀ i, log.length ≤ i → i < r.size → r.wrapAt i = none

theorem newest_clear {n : Nat} (wide : 0 < n) : Newest ([] : List α) 0 (WrapArray.clear n) where
  wide := by simpa using wide
  next := by simp
  kept := by
    constructor
    · exact Nat.zero_le _
    · intro i above below
      exact absurd below (Nat.not_lt_zero i)
  fresh := by
    intro i _ _
    exact wrapAt_clear n i

namespace Newest
variable {log : List α} {index : Nat} {r : WrapArray α}

theorem slot_fresh (newest : Newest log index r) (short : log.length < r.size) :
    r.slot index = none := by
  rw [newest.next, slot_mod]
  exact newest.fresh log.length (le_refl _) short

theorem slot_oldest (newest : Newest log index r) (full : r.size ≤ log.length) :
    r.slot index = log[log.length - r.size]? := by
  have wide := newest.wide
  have round : log.length - r.size + r.size = log.length := Nat.sub_add_cancel full
  rw [newest.next, slot_mod, ← round, wrapAt_add_size, round]
  exact newest.kept.2 (log.length - r.size) (le_refl _) (by omega)

theorem push (newest : Newest log index r) (x : α) :
    Newest (log ++ [x]) ((index + 1) % r.size) (r.setSlot index (some x)) := by
  have wide := newest.wide
  have put : r.setSlot index (some x) = r.wrapPut log.length (some x) := by
    rw [newest.next, setSlot_mod]
  rw [put]
  constructor
  · simpa using wide
  · simp [newest.next]
  · have before : Tracks ((log ++ [x])[·]?) (log.length - r.size) log.length r := by
      constructor
      · exact newest.kept.1
      · intro i above below
        exact (newest.kept.2 i above below).trans (List.getElem?_append_left below).symm
    have after := tracks_push (v := some x) before
      (show log.length - r.size ≤ log.length + 1 - r.size by omega) (by omega) (by omega) (by simp)
    simpa using after
  · intro i above below
    rw [List.length_append, List.length_singleton] at above
    rw [size_wrapPut] at below
    rw [wrapAt_wrapPut r log.length i (some x) wide,
      Nat.mod_eq_of_lt below, Nat.mod_eq_of_lt (show log.length < r.size by omega),
      if_neg (by omega)]
    exact newest.fresh i (by omega) below

end Newest

theorem sum_rtake_short [AddMonoid α] {log : List α} {n : Nat} (x : α) (short : log.length < n) :
    ((log ++ [x]).rtake n).sum = (log.rtake n).sum + x := by
  have whole : log.rtake n = log := by
    rw [List.rtake, Nat.sub_eq_zero_of_le short.le, List.drop_zero]
  have longer : (log ++ [x]).rtake n = log ++ [x] := by
    rw [List.rtake, List.length_append, List.length_singleton, Nat.sub_eq_zero_of_le short,
      List.drop_zero]
  rw [whole, longer, List.sum_append, List.sum_singleton]

theorem sum_rtake_full [AddCommGroup α] {log : List α} {n : Nat} {oldest : α} (x : α)
    (wide : 0 < n) (full : n ≤ log.length) (leaves : log[log.length - n]? = some oldest) :
    ((log ++ [x]).rtake n).sum = (log.rtake n).sum - oldest + x := by
  obtain ⟨n, rfl⟩ := Nat.exists_eq_add_one_of_ne_zero wide.ne'
  obtain ⟨bound, entry⟩ := List.getElem?_eq_some_iff.mp leaves
  have next : log.length - (n + 1) + 1 = log.length - n := by omega
  have split : log.rtake (n + 1) = oldest :: log.rtake n := by
    rw [List.rtake, List.drop_eq_getElem_cons bound, entry, next, List.rtake]
  rw [List.rtake_concat_succ, List.sum_append, List.sum_singleton, split, List.sum_cons,
    add_sub_cancel_left]

end RingBuffer
