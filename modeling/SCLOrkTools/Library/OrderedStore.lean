import Mathlib.Data.List.Pairwise
import Mathlib.Order.Lattice

/- A store of values under the keys of a linear order. A cursor in it is what lies at its
   position and beyond. -/
namespace OrderedStores
theorem filter_split {α : Type} {p : α → Bool} {l : List α}
    (closed : l.Pairwise fun a b => p b → p a) :
    l = l.filter p ++ l.filter fun e => !p e := by
  induction l with
  | nil => rfl
  | cons a l ih =>
    obtain ⟨first, rest⟩ := List.pairwise_cons.mp closed
    cases keeps : p a with
    | true =>
      rw [List.filter_cons_of_pos keeps, List.filter_cons_of_neg (by simp [keeps]),
        List.cons_append, ← ih rest]
    | false =>
      have others : ∀ b ∈ l, p b = false := by
        intro b member
        cases kept : p b with
        | false => rfl
        | true => exact absurd (first b member kept) (by simp [keeps])
      have none_kept : l.filter p = [] := by
        apply List.filter_eq_nil_iff.mpr
        intro b member
        simp [others b member]
      have all_left : l.filter (fun e => !p e) = l := by
        apply List.filter_eq_self.mpr
        intro b member
        simp [others b member]
      rw [List.filter_cons_of_neg (by simp [keeps]), List.filter_cons_of_pos (by simp [keeps]),
        none_kept, all_left]
      rfl

variable {K V : Type} [LinearOrder K]

structure Store (K V : Type) [LinearOrder K] where
  entries : List (K × V)
  sorted : entries.Pairwise (·.1 < ·.1)

def insert (k : K) (v : V) : List (K × V) → List (K × V)
  | [] => [(k, v)]
  | e :: rest =>
    if k < e.1 then (k, v) :: e :: rest
    else if k = e.1 then (k, v) :: rest
    else e :: insert k v rest

theorem mem_insert {k : K} {v : V} {l : List (K × V)} (sorted : l.Pairwise (·.1 < ·.1))
    {e : K × V} : e ∈ insert k v l ↔ e = (k, v) ∨ e ∈ l ∧ e.1 ≠ k := by
  induction l with
  | nil => simp [insert]
  | cons a l ih =>
    obtain ⟨least, rest⟩ := List.pairwise_cons.mp sorted
    have others (beyond : k ≤ a.1) : ∀ b ∈ l, b.1 ≠ k :=
      fun b member => (beyond.trans_lt (least b member)).ne'
    unfold insert
    split
    · rename_i before
      have fresh : ∀ b ∈ a :: l, b.1 ≠ k :=
        List.forall_mem_cons.mpr ⟨before.ne', others before.le⟩
      rw [List.mem_cons]
      exact or_congr_right ⟨fun member => ⟨member, fresh e member⟩, And.left⟩
    · split
      · rename_i same
        have fresh := others same.le
        rw [List.mem_cons, List.mem_cons]
        refine or_congr_right ⟨fun member => ⟨Or.inr member, fresh e member⟩, ?_⟩
        rintro ⟨rfl | member, other⟩
        · exact absurd same.symm other
        · exact member
      · rename_i different
        rw [List.mem_cons, ih rest, List.mem_cons]
        constructor
        · rintro (rfl | rfl | ⟨member, other⟩)
          · exact Or.inr ⟨Or.inl rfl, Ne.symm different⟩
          · exact Or.inl rfl
          · exact Or.inr ⟨Or.inr member, other⟩
        · rintro (rfl | ⟨rfl | member, other⟩)
          · exact Or.inr (Or.inl rfl)
          · exact Or.inl rfl
          · exact Or.inr (Or.inr ⟨member, other⟩)

theorem insert_sorted (k : K) (v : V) {l : List (K × V)} (sorted : l.Pairwise (·.1 < ·.1)) :
    (insert k v l).Pairwise (·.1 < ·.1) := by
  induction l with
  | nil => exact List.pairwise_singleton _ _
  | cons a l ih =>
    obtain ⟨least, rest⟩ := List.pairwise_cons.mp sorted
    unfold insert
    split
    · rename_i before
      refine List.pairwise_cons.mpr ⟨?_, sorted⟩
      exact List.forall_mem_cons.mpr ⟨before, fun b member => before.trans (least b member)⟩
    · rename_i behind
      split
      · rename_i same
        exact List.pairwise_cons.mpr ⟨fun b member => same.trans_lt (least b member), rest⟩
      · rename_i different
        refine List.pairwise_cons.mpr ⟨?_, ih rest⟩
        intro b member
        rcases (mem_insert rest).mp member with rfl | ⟨before, -⟩
        · exact lt_of_le_of_ne (not_lt.mp behind) (Ne.symm different)
        · exact least b before

namespace Store

def empty : Store K V := ⟨[], List.Pairwise.nil⟩

def put (s : Store K V) (k : K) (v : V) : Store K V :=
  ⟨insert k v s.entries, insert_sorted k v s.sorted⟩

def get (s : Store K V) (k : K) : Option V := (s.entries.find? (·.1 = k)).map (·.2)

/-- A cursor at the first key that is not before the given one. -/
def seek (s : Store K V) (k : K) : List (K × V) := s.entries.dropWhile (·.1 < k)

/-- Puts the pairs in turn. -/
def write (s : Store K V) (batch : List (K × V)) : Store K V :=
  batch.foldl (fun t e => t.put e.1 e.2) s

theorem mem_put {s : Store K V} {k : K} {v : V} {e : K × V} :
    e ∈ (s.put k v).entries ↔ e = (k, v) ∨ e ∈ s.entries ∧ e.1 ≠ k := mem_insert s.sorted

theorem value_unique {s : Store K V} {k : K} {v w : V} (first : (k, v) ∈ s.entries)
    (second : (k, w) ∈ s.entries) : v = w := by
  by_contra different
  have apart : (k, v) ≠ (k, w) := fun same => different (congrArg Prod.snd same)
  have symmetric : Std.Symm fun a b : K × V => a.1 ≠ b.1 := ⟨fun _ _ => Ne.symm⟩
  exact (s.sorted.imp ne_of_lt).forall first second apart rfl

theorem get_eq_some {s : Store K V} {k : K} {v : V} :
    s.get k = some v ↔ (k, v) ∈ s.entries := by
  unfold get
  constructor
  · intro found
    obtain ⟨e, first, rfl⟩ := Option.map_eq_some_iff.mp found
    have same : e.1 = k := by simpa using List.find?_some first
    rw [← same]
    exact List.mem_of_find?_eq_some first
  · intro member
    cases found : s.entries.find? (·.1 = k) with
    | none =>
      have := List.find?_eq_none.mp found (k, v) member
      simp at this
    | some e =>
      have same : e.1 = k := by simpa using List.find?_some found
      have stored : (k, e.2) ∈ s.entries := same ▸ List.mem_of_find?_eq_some found
      exact congrArg some (value_unique stored member)

theorem get_put_self (s : Store K V) (k : K) (v : V) : (s.put k v).get k = some v :=
  get_eq_some.mpr (mem_put.mpr (Or.inl rfl))

theorem get_put_other (s : Store K V) {k other : K} (v : V) (different : other ≠ k) :
    (s.put k v).get other = s.get other := by
  apply Option.ext
  intro w
  rw [get_eq_some, get_eq_some, mem_put]
  constructor
  · rintro (same | ⟨member, -⟩)
    · exact absurd (congrArg Prod.fst same) different
    · exact member
  · intro member
    exact Or.inr ⟨member, different⟩

theorem mem_write {s : Store K V} {batch : List (K × V)} {e : K × V}
    (mem : e ∈ (s.write batch).entries) : e ∈ batch ∨ e ∈ s.entries := by
  induction batch generalizing s with
  | nil => exact .inr mem
  | cons f batch ih =>
    rcases ih mem with later | before
    · exact .inl (List.mem_cons_of_mem f later)
    · rcases mem_put.mp before with here | ⟨old, -⟩
      · exact .inl (here ▸ List.mem_cons_self)
      · exact .inr old

theorem get_write_other (s : Store K V) {k : K} {batch : List (K × V)}
    (others : ∀ e ∈ batch, e.1 ≠ k) : (s.write batch).get k = s.get k := by
  induction batch generalizing s with
  | nil => rfl
  | cons e batch ih =>
    obtain ⟨other, rest⟩ := List.forall_mem_cons.mp others
    exact (ih (s.put e.1 e.2) rest).trans (get_put_other s e.2 (Ne.symm other))

theorem get_write_const (s : Store K V) {k : K} {v : V} {batch : List (K × V)}
    (same : ∀ e ∈ batch, e.2 = v) (written : ∃ e ∈ batch, e.1 = k) :
    (s.write batch).get k = some v := by
  induction batch generalizing s with
  | nil =>
    obtain ⟨e, mem, -⟩ := written
    cases mem
  | cons e batch ih =>
    obtain ⟨value, rest⟩ := List.forall_mem_cons.mp same
    by_cases later : ∃ f ∈ batch, f.1 = k
    · exact ih (s.put e.1 e.2) rest later
    · obtain ⟨f, mem, here⟩ := written
      rcases List.mem_cons.mp mem with rfl | mem
      · refine (get_write_other (s.put f.1 f.2) fun f mem => ?_).trans ?_
        · exact fun same => later ⟨f, mem, same⟩
        · rw [← here, get_put_self, value]
      · exact absurd ⟨f, mem, here⟩ later

theorem isSome_put (s : Store K V) (k other : K) (v : V) :
    ((s.put k v).get other).isSome ↔ other = k ∨ (s.get other).isSome := by
  by_cases same : other = k
  · rw [same, get_put_self]
    simp
  · rw [get_put_other s v same]
    simp [same]

theorem isSome_write (s : Store K V) (batch : List (K × V)) (k : K) :
    ((s.write batch).get k).isSome ↔ k ∈ batch.map (·.1) ∨ (s.get k).isSome := by
  induction batch generalizing s with
  | nil => simp [write]
  | cons e batch ih =>
    refine (ih (s.put e.1 e.2)).trans ?_
    rw [isSome_put, List.map_cons, List.mem_cons]
    exact or_left_comm.trans or_assoc.symm

theorem seek_head (s : Store K V) (k : K) {v : V} :
    (s.seek k).head? = some (k, v) ↔ s.get k = some v := by
  rw [get_eq_some]
  obtain ⟨entries, sorted⟩ := s
  change (entries.dropWhile (·.1 < k)).head? = some (k, v) ↔ (k, v) ∈ entries
  induction entries with
  | nil => simp
  | cons e rest ih =>
    obtain ⟨least, later⟩ := List.pairwise_cons.mp sorted
    by_cases before : e.1 < k
    · rw [List.dropWhile_cons_of_pos (by simpa using before), ih later, List.mem_cons]
      constructor
      · exact Or.inr
      · rintro (rfl | member)
        · exact absurd before (lt_irrefl k)
        · exact member
    · rw [List.dropWhile_cons_of_neg (by simpa using before), List.head?_cons,
        Option.some.injEq, List.mem_cons]
      constructor
      · exact fun same => Or.inl same.symm
      · rintro (rfl | member)
        · rfl
        · exact absurd (least (k, v) member) before

theorem seek_eq_filter (s : Store K V) (k : K) :
    s.seek k = s.entries.filter fun e => k ≤ e.1 := by
  obtain ⟨entries, sorted⟩ := s
  change entries.dropWhile (·.1 < k) = entries.filter fun e => k ≤ e.1
  induction entries with
  | nil => rfl
  | cons e rest ih =>
    obtain ⟨least, later⟩ := List.pairwise_cons.mp sorted
    by_cases before : e.1 < k
    · rw [List.dropWhile_cons_of_pos (by simpa using before),
        List.filter_cons_of_neg (by simpa using before)]
      exact ih later
    · rw [List.dropWhile_cons_of_neg (by simpa using before)]
      refine (List.filter_eq_self.mpr ?_).symm
      have reached := not_lt.mp before
      refine List.forall_mem_cons.mpr ⟨by simpa using reached, ?_⟩
      intro b member
      simpa using reached.trans (least b member).le

end Store

end OrderedStores
