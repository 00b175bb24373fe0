import Mathlib.Data.List.Basic

/- Regular expressions over classes of symbols: the words that one matches, and a search with
   backtracking for the words that a text starts with. -/
namespace Regexps

inductive Regexp (α : Type) where
  | empty
  | chars (p : α → Bool)
  | seq (r q : Regexp α)
  | alt (r q : Regexp α)
  | star (r : Regexp α)

namespace Regexp
variable {α : Type}

def plus (r : Regexp α) : Regexp α := .seq r (.star r)
def opt (r : Regexp α) : Regexp α := .alt r .empty

def lit [DecidableEq α] (c : α) : Regexp α := .chars (· = c)

def concat : List (Regexp α) → Regexp α
  | [] => .empty
  | [r] => r
  | r :: rs => .seq r (concat rs)

inductive Matches : Regexp α → List α → Prop
  | empty : Matches .empty []
  | chars {p : α → Bool} {c : α} (inside : p c = true) : Matches (.chars p) [c]
  | seq {r q : Regexp α} {u v : List α} (first : Matches r u) (second : Matches q v) :
      Matches (.seq r q) (u ++ v)
  | left {r q : Regexp α} {u : List α} (first : Matches r u) : Matches (.alt r q) u
  | right {r q : Regexp α} {u : List α} (second : Matches q u) : Matches (.alt r q) u
  | stop {r : Regexp α} : Matches (.star r) []
  | turn {r : Regexp α} {u v : List α} (first : Matches r u) (rest : Matches (.star r) v) :
      Matches (.star r) (u ++ v)

theorem matches_empty {t : List α} : Matches .empty t ↔ t = [] := by
  constructor
  · intro matched
    cases matched
    rfl
  · rintro rfl
    exact .empty

theorem matches_chars {p : α → Bool} {t : List α} :
    Matches (.chars p) t ↔ ∃ c, t = [c] ∧ p c = true := by
  constructor
  · intro matched
    cases matched with
    | chars inside => exact ⟨_, rfl, inside⟩
  · rintro ⟨c, rfl, inside⟩
    exact .chars inside

theorem matches_seq {r q : Regexp α} {t : List α} :
    Matches (.seq r q) t ↔ ∃ u v, t = u ++ v ∧ Matches r u ∧ Matches q v := by
  constructor
  · intro matched
    cases matched with
    | seq first second => exact ⟨_, _, rfl, first, second⟩
  · rintro ⟨u, v, rfl, first, second⟩
    exact .seq first second

theorem matches_alt {r q : Regexp α} {t : List α} :
    Matches (.alt r q) t ↔ Matches r t ∨ Matches q t := by
  constructor
  · intro matched
    cases matched with
    | left first => exact Or.inl first
    | right second => exact Or.inr second
  · rintro (first | second)
    · exact .left first
    · exact .right second

/-- The turns of a star that match nothing can be left out. -/
theorem matches_star {r : Regexp α} {t : List α} :
    Matches (.star r) t ↔
      t = [] ∨ ∃ u v, t = u ++ v ∧ u ≠ [] ∧ Matches r u ∧ Matches (.star r) v := by
  constructor
  · intro matched
    generalize shape : Regexp.star r = s at matched
    induction matched with
    | stop => exact Or.inl rfl
    | @turn r' u v first rest _ ih =>
      cases shape
      by_cases none : u = []
      · rw [none, List.nil_append]
        exact ih rfl
      · exact Or.inr ⟨u, v, rfl, none, first, rest⟩
    | empty | chars | seq | left | right => cases shape
  · rintro (rfl | ⟨u, v, rfl, -, first, rest⟩)
    · exact .stop
    · exact .turn first rest

theorem matches_plus {r : Regexp α} {t : List α} :
    Matches (plus r) t ↔ ∃ u v, t = u ++ v ∧ Matches r u ∧ Matches (.star r) v := matches_seq

def nullable : Regexp α → Bool
  | empty => true
  | chars _ => false
  | seq r q => r.nullable && q.nullable
  | alt r q => r.nullable || q.nullable
  | star _ => true

theorem nullable_of_matches {r : Regexp α} (matched : Matches r []) : r.nullable = true := by
  induction r with
  | empty => rfl
  | chars p =>
    obtain ⟨c, shape, -⟩ := matches_chars.mp matched
    cases shape
  | seq r q ihr ihq =>
    obtain ⟨u, v, shape, first, second⟩ := matches_seq.mp matched
    obtain ⟨rfl, rfl⟩ := List.nil_eq_append_iff.mp shape
    simp [nullable, ihr first, ihq second]
  | alt r q ihr ihq =>
    rcases matches_alt.mp matched with first | second
    · simp [nullable, ihr first]
    · simp [nullable, ihq second]
  | star r => rfl

/-- The lengths of what turns of `find` take one after the other off a text, the longest series
    of turns first. -/
def starLengths (find : List α → List Nat) : Nat → List α → List Nat
  | 0, _ => [0]
  | fuel + 1, s =>
    ((find s).filter (0 < ·)).flatMap (fun n => (starLengths find fuel (s.drop n)).map (n + ·)) ++
      [0]

/-- The lengths of the words at the start of a text that match, in the order in which a search
    with backtracking comes to them. -/
def lengths : Regexp α → List α → List Nat
  | empty, _ => [0]
  | chars _, [] => []
  | chars p, c :: _ => if p c then [1] else []
  | seq r q, s => (r.lengths s).flatMap fun n => (q.lengths (s.drop n)).map (n + ·)
  | alt r q, s => r.lengths s ++ q.lengths s
  | star r, s => starLengths r.lengths s.length s

/-- A text starts with a word of a length that matches. -/
def StartsWith (r : Regexp α) (s : List α) (n : Nat) : Prop := n ≤ s.length ∧ Matches r (s.take n)

theorem startsWith_append {r q : Regexp α} {s : List α} {m n : Nat} (first : r.StartsWith s m)
    (second : q.StartsWith (s.drop m) n) :
    m + n ≤ s.length ∧ s.take (m + n) = s.take m ++ (s.drop m).take n := by
  have bound := second.1
  rw [List.length_drop] at bound
  have := first.1
  exact ⟨by omega, List.take_add⟩

theorem startsWith_split {s u v : List α} {n : Nat} (bound : n ≤ s.length)
    (shape : s.take n = u ++ v) :
    u = s.take u.length ∧ v = (s.drop u.length).take v.length ∧ n = u.length + v.length := by
  have long : n = u.length + v.length := by
    have := congrArg List.length shape
    rw [List.length_take_of_le bound, List.length_append] at this
    exact this
  have split : s.take u.length ++ (s.drop u.length).take v.length = u ++ v := by
    rw [← List.take_add, ← long, shape]
  have short : (s.take u.length).length = u.length := List.length_take_of_le (by omega)
  obtain ⟨first, second⟩ := List.append_inj split short
  exact ⟨first.symm, second.symm, long⟩

theorem starLengths_sound {r : Regexp α}
    (sound : ∀ s n, n ∈ r.lengths s → r.StartsWith s n) {fuel : Nat} {s : List α} {n : Nat}
    (found : n ∈ starLengths r.lengths fuel s) : (star r).StartsWith s n := by
  induction fuel generalizing s n with
  | zero =>
    rw [starLengths, List.mem_singleton] at found
    rw [found]
    exact ⟨Nat.zero_le _, .stop⟩
  | succ fuel ih =>
    rw [starLengths, List.mem_append, List.mem_singleton] at found
    rcases found with turned | rfl
    · obtain ⟨m, first, rest⟩ := List.mem_flatMap.mp turned
      obtain ⟨k, more, rfl⟩ := List.mem_map.mp rest
      have here := sound s m (List.mem_filter.mp first).1
      have after := ih more
      obtain ⟨bound, split⟩ := startsWith_append here after
      refine ⟨bound, ?_⟩
      rw [split]
      exact .turn here.2 after.2
    · exact ⟨Nat.zero_le _, .stop⟩

theorem lengths_sound (r : Regexp α) {s : List α} {n : Nat} (found : n ∈ r.lengths s) :
    r.StartsWith s n := by
  induction r generalizing s n with
  | empty =>
    rw [lengths, List.mem_singleton] at found
    rw [found]
    exact ⟨Nat.zero_le _, .empty⟩
  | chars p =>
    cases s with
    | nil => cases found
    | cons c s =>
      rw [lengths] at found
      split at found
      · rename_i inside
        rw [List.mem_singleton.mp found]
        exact ⟨by simp, .chars inside⟩
      · cases found
  | seq r q ihr ihq =>
    obtain ⟨m, first, rest⟩ := List.mem_flatMap.mp found
    obtain ⟨k, second, rfl⟩ := List.mem_map.mp rest
    obtain ⟨bound, split⟩ := startsWith_append (ihr first) (ihq second)
    refine ⟨bound, ?_⟩
    rw [split]
    exact .seq (ihr first).2 (ihq second).2
  | alt r q ihr ihq =>
    rcases List.mem_append.mp found with first | second
    · exact ⟨(ihr first).1, .left (ihr first).2⟩
    · exact ⟨(ihq second).1, .right (ihq second).2⟩
  | star r ih => exact starLengths_sound (fun s n => ih) found

theorem starLengths_complete {r : Regexp α}
    (complete : ∀ s n, r.StartsWith s n → n ∈ r.lengths s) {fuel : Nat} {s : List α} {n : Nat}
    (enough : n ≤ fuel) (starts : (star r).StartsWith s n) :
    n ∈ starLengths r.lengths fuel s := by
  induction fuel generalizing s n with
  | zero => simp [starLengths, Nat.le_zero.mp enough]
  | succ fuel ih =>
    rw [starLengths, List.mem_append, List.mem_singleton]
    rcases matches_star.mp starts.2 with none | ⟨u, v, shape, some, first, rest⟩
    · right
      have := congrArg List.length none
      rwa [List.length_take_of_le starts.1] at this
    · left
      obtain ⟨front, back, long⟩ := startsWith_split starts.1 shape
      have positive : 0 < u.length := List.length_pos_of_ne_nil some
      have bound := starts.1
      refine List.mem_flatMap.mpr ⟨u.length, List.mem_filter.mpr ⟨?_, by simpa using positive⟩, ?_⟩
      · exact complete s u.length ⟨by omega, front ▸ first⟩
      · refine List.mem_map.mpr ⟨v.length, ih (by omega) ⟨?_, back ▸ rest⟩, long.symm⟩
        rw [List.length_drop]
        omega

theorem lengths_complete (r : Regexp α) {s : List α} {n : Nat} (starts : r.StartsWith s n) :
    n ∈ r.lengths s := by
  induction r generalizing s n with
  | empty =>
    have none := congrArg List.length (matches_empty.mp starts.2)
    rw [List.length_take_of_le starts.1] at none
    simp [lengths, none]
  | chars p =>
    obtain ⟨c, shape, inside⟩ := matches_chars.mp starts.2
    have one := congrArg List.length shape
    rw [List.length_take_of_le starts.1, List.length_singleton] at one
    cases s with
    | nil =>
      rw [List.take_nil] at shape
      cases shape
    | cons d s =>
      rw [one, List.take_succ_cons] at shape
      rw [lengths, (List.cons.inj shape).1, if_pos inside, one]
      exact List.mem_singleton.mpr rfl
  | seq r q ihr ihq =>
    obtain ⟨u, v, shape, first, second⟩ := matches_seq.mp starts.2
    obtain ⟨front, back, long⟩ := startsWith_split starts.1 shape
    have bound := starts.1
    refine List.mem_flatMap.mpr ⟨u.length, ihr ⟨by omega, front ▸ first⟩, ?_⟩
    refine List.mem_map.mpr ⟨v.length, ihq ⟨?_, back ▸ second⟩, long.symm⟩
    rw [List.length_drop]
    omega
  | alt r q ihr ihq =>
    rcases matches_alt.mp starts.2 with first | second
    · exact List.mem_append_left _ (ihr ⟨starts.1, first⟩)
    · exact List.mem_append_right _ (ihq ⟨starts.1, second⟩)
  | star r ih => exact starLengths_complete (fun s n => ih) starts.1 starts

/-- The lengths that end inside the front of a text. -/
def within (front : List α) (found : List Nat) : List Nat := found.filter (· ≤ front.length)

theorem within_map {u : List α} {n : Nat} (inside : n ≤ u.length) (found : List Nat) :
    within u (found.map (n + ·)) = (within (u.drop n) found).map (n + ·) := by
  unfold within
  rw [List.filter_map, List.length_drop]
  refine congrArg _ (List.filter_congr fun k _ => ?_)
  simp only [Function.comp_apply, decide_eq_decide]
  omega

theorem within_outside {u : List α} {n : Nat} (outside : u.length < n) (found : List Nat) :
    within u (found.map (n + ·)) = [] := by
  apply List.filter_eq_nil_iff.mpr
  intro m mem
  obtain ⟨k, -, rfl⟩ := List.mem_map.mp mem
  simp only [decide_eq_true_eq]
  omega

theorem within_flatMap {u : List α} {found : List Nat} {next more : Nat → List Nat}
    (agree : ∀ n ∈ found, n ≤ u.length → next n = within (u.drop n) (more n)) :
    within u (found.flatMap fun n => (more n).map (n + ·)) =
      (within u found).flatMap fun n => (next n).map (n + ·) := by
  induction found with
  | nil => rfl
  | cons n found ih =>
    obtain ⟨here, others⟩ := List.forall_mem_cons.mp agree
    have later := ih others
    unfold within at later ⊢
    rw [List.flatMap_cons, List.filter_append, later]
    by_cases inside : n ≤ u.length
    · rw [List.filter_cons_of_pos (by simpa using inside), List.flatMap_cons, here inside]
      exact congrArg (· ++ _) (within_map inside _)
    · rw [List.filter_cons_of_neg (by simpa using inside)]
      exact congrArg (· ++ _) (within_outside (Nat.lt_of_not_le inside) _)

theorem within_nil_starLengths (find : List α → List Nat) (fuel : Nat) (s : List α) :
    within ([] : List α) (starLengths find fuel s) = [0] := by
  cases fuel with
  | zero => rfl
  | succ fuel =>
    have none : within ([] : List α) (((find s).filter (0 < ·)).flatMap fun n =>
        (starLengths find fuel (s.drop n)).map (n + ·)) = [] := by
      rw [@within_flatMap α [] _ fun _ => []]
      · simp
      · intro n mem inside
        have positive := (List.mem_filter.mp mem).2
        simp only [decide_eq_true_eq] at positive
        exact absurd inside (Nat.not_le_of_lt positive)
    rw [starLengths, within, List.filter_append]
    exact congrArg (· ++ [0]) none

theorem starLengths_within {find : List α → List Nat}
    (cut : ∀ u v, find u = within u (find (u ++ v))) {fuel more : Nat} {u v : List α}
    (enough : u.length ≤ fuel) (plenty : (u ++ v).length ≤ more) :
    starLengths find fuel u = within u (starLengths find more (u ++ v)) := by
  have turns (u v : List α) :
      (find u).filter (0 < ·) = within u ((find (u ++ v)).filter (0 < ·)) := by
    rw [cut u v, within, within, List.filter_filter, List.filter_filter]
    exact List.filter_congr fun n _ => Bool.and_comm _ _
  induction fuel generalizing more u v with
  | zero =>
    have none : u = [] := List.eq_nil_of_length_eq_zero (Nat.le_zero.mp enough)
    rw [none, within_nil_starLengths]
    rfl
  | succ fuel ih =>
    rw [List.length_append] at plenty
    cases more with
    | zero =>
      have none : u = [] := List.eq_nil_of_length_eq_zero (by omega)
      have still : (find []).filter (0 < ·) = [] := by
        rw [turns [] []]
        apply List.filter_eq_nil_iff.mpr
        intro n mem
        have positive := (List.mem_filter.mp mem).2
        simpa using Nat.ne_of_gt (by simpa using positive)
      rw [none, within_nil_starLengths, starLengths, still]
      rfl
    | succ more =>
      rw [starLengths, starLengths, within, List.filter_append, turns u v]
      refine congrArg (· ++ [0]) (within_flatMap fun n mem inside => ?_).symm
      have positive := (List.mem_filter.mp mem).2
      simp only [decide_eq_true_eq] at positive
      rw [List.drop_append_of_le_length inside]
      apply ih
      · rw [List.length_drop]
        omega
      · rw [List.length_append, List.length_drop]
        omega

/-- Text behind the words that are found does not change what is found. -/
theorem lengths_within (r : Regexp α) (u v : List α) :
    r.lengths u = within u (r.lengths (u ++ v)) := by
  induction r generalizing u v with
  | empty => rfl
  | chars p =>
    cases u with
    | nil =>
      cases v with
      | nil => rfl
      | cons c v =>
        rw [List.nil_append, lengths, lengths]
        split <;> rfl
    | cons c u =>
      rw [List.cons_append, lengths, lengths]
      split
      · simp [within]
      · rfl
  | seq r q ihr ihq =>
    rw [lengths, lengths, ihr u v]
    refine (within_flatMap fun n mem inside => ?_).symm
    rw [List.drop_append_of_le_length inside]
    exact ihq (u.drop n) v
  | alt r q ihr ihq =>
    rw [lengths, lengths, ihr u v, ihq u v, within, within, within, List.filter_append]
  | star r ih => exact starLengths_within ih (Nat.le_refl _) (Nat.le_refl _)

end Regexp

/-- A search that gives the word it has found at a position of a text, and its length. -/
structure Engine (α : Type) where
  findRegexpAt : List α → Regexp α → Nat → Option (List α × Nat)
  sound : ∀ {s r i t n}, findRegexpAt s r i = some (t, n) →
    t.length = n ∧ t <+: s.drop i ∧ Regexp.Matches r t

/-- It finds a word wherever there is one. -/
def Engine.Complete {α : Type} (engine : Engine α) : Prop :=
  ∀ s r i, engine.findRegexpAt s r i = none → ∀ t, t <+: s.drop i → ¬ Regexp.Matches r t

/-- What it finds at a position depends on nothing that is before it, nor on what is behind the
    word. -/
structure Engine.Local {α : Type} (engine : Engine α) : Prop where
  before : ∀ s r i, engine.findRegexpAt s r i = engine.findRegexpAt (s.drop i) r 0
  behind : ∀ {u v r t n}, engine.findRegexpAt (u ++ v) r 0 = some (t, n) → n ≤ u.length →
    engine.findRegexpAt u r 0 = some (t, n)
  nothing : ∀ {u v r}, engine.findRegexpAt (u ++ v) r 0 = none → engine.findRegexpAt u r 0 = none

section Backtracking
variable {α : Type}

def backtrack (s : List α) (r : Regexp α) (i : Nat) : Option (List α × Nat) :=
  (r.lengths (s.drop i)).head?.map fun n => ((s.drop i).take n, n)

/-- The search that takes the first word it comes to. -/
def backtracking : Engine α where
  findRegexpAt := backtrack
  sound := by
    intro s r i t n found
    obtain ⟨m, first, same⟩ := Option.map_eq_some_iff.mp found
    cases same
    obtain ⟨bound, matched⟩ := r.lengths_sound (List.mem_of_head? first)
    exact ⟨List.length_take_of_le bound, List.take_prefix _ _, matched⟩

theorem backtracking_complete : (backtracking : Engine α).Complete := by
  intro s r i none t front matched
  have empty : r.lengths (s.drop i) = [] := by
    simpa [backtracking, backtrack] using none
  have starts : r.StartsWith (s.drop i) t.length := by
    refine ⟨front.length_le, ?_⟩
    rw [← List.prefix_iff_eq_take.mp front]
    exact matched
  have found := r.lengths_complete starts
  rw [empty] at found
  cases found

theorem backtracking_local : (backtracking : Engine α).Local where
  before := fun s r i => rfl
  behind := by
    intro u v r t n found inside
    obtain ⟨m, first, same⟩ := Option.map_eq_some_iff.mp found
    cases same
    obtain ⟨rest, shape⟩ := List.head?_eq_some_iff.mp first
    refine Option.map_eq_some_iff.mpr ⟨n, ?_, ?_⟩
    · rw [List.drop_zero] at shape ⊢
      rw [r.lengths_within u v, shape, Regexp.within,
        List.filter_cons_of_pos (by simpa using inside)]
      rfl
    · rw [List.drop_zero, List.drop_zero, List.take_append_of_le_length inside]
  nothing := by
    intro u v r none
    have empty : r.lengths (u ++ v) = [] := by simpa [backtracking, backtrack] using none
    simp [backtracking, backtrack, r.lengths_within u v, empty, Regexp.within]

end Backtracking

end Regexps
