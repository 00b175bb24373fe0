import Mathlib.Data.Option.Basic

/- Keys that link to one other key each, or to none. A walk along the links ends unless it comes
   round to where it was. -/
namespace Links
variable {K : Type} {link relinked : K → Option K} {a : K}

inductive Reaches (link : K → Option K) : K → K → Prop
  | here (k : K) : Reaches link k k
  | next {k l m : K} (linked : link k = some l) (rest : Reaches link l m) : Reaches link k m

/-- The walk comes to a key that links to none. -/
def Ends (link : K → Option K) (k : K) : Prop := ∃ m, Reaches link k m ∧ link m = none

theorem ends_here {k : K} (last : link k = none) : Ends link k := ⟨k, .here k, last⟩

theorem ends_next {k l : K} (linked : link k = some l) (ends : Ends link l) : Ends link k := by
  obtain ⟨m, reaches, last⟩ := ends
  exact ⟨m, .next linked reaches, last⟩

theorem not_ends_self {k : K} (linked : link k = some k) : ¬ Ends link k := by
  rintro ⟨m, reaches, last⟩
  have stays : m = k := by
    clear last
    induction reaches with
    | here k => rfl
    | next step rest ih =>
      rw [linked] at step
      cases step
      exact ih linked
  rw [stays, linked] at last
  cases last

theorem reaches_relinked (others : ∀ k, k ≠ a → relinked k = link k) {k m : K}
    (reaches : Reaches link k m) (misses : ¬ Reaches link k a) : Reaches relinked k m := by
  induction reaches with
  | here k => exact .here k
  | @next k l m linked rest ih =>
    have other : k ≠ a := by
      intro same
      rw [same] at misses
      exact misses (.here a)
    apply Reaches.next ((others k other).trans linked)
    apply ih
    intro meets
    exact misses (.next linked meets)

theorem ends_relinked (others : ∀ k, k ≠ a → relinked k = link k) {k : K} (ends : Ends link k)
    (misses : ¬ Reaches link k a) : Ends relinked k := by
  obtain ⟨m, reaches, last⟩ := ends
  have other : m ≠ a := by
    intro same
    rw [same] at reaches
    exact misses reaches
  exact ⟨m, reaches_relinked others reaches misses, (others m other).trans last⟩

theorem misses_of_ends (others : ∀ k, k ≠ a → relinked k = link k) {b : K}
    (linked : relinked a = some b) (back : Reaches link b a) {k : K} (ends : Ends relinked k) :
    ¬ Reaches link k a := by
  obtain ⟨m, reaches, last⟩ := ends
  induction reaches with
  | here k =>
    have other : k ≠ a := by
      intro same
      rw [same, linked] at last
      cases last
    intro meets
    cases meets with
    | here => exact other rfl
    | next step =>
      rw [others k other, step] at last
      cases last
  | @next k l m step rest ih =>
    intro meets
    by_cases same : k = a
    · rw [same, linked] at step
      cases step
      exact ih last back
    · rw [others k same] at step
      cases meets with
      | here => exact same rfl
      | next step' rest' =>
        rw [step] at step'
        cases step'
        exact ih last rest'

/-- When all walks end, they still do after one link changes exactly when that link does not
    lead back to its own key. -/
theorem all_end_iff (others : ∀ k, k ≠ a → relinked k = link k) (all : ∀ k, Ends link k) :
    (∀ k, Ends relinked k) ↔ ∀ b, relinked a = some b → ¬ Reaches link b a := by
  constructor
  · intro ends b linked back
    exact misses_of_ends others linked back (ends a) (.here a)
  · intro forward
    have first : Ends relinked a := by
      cases linked : relinked a with
      | none => exact ends_here linked
      | some b => exact ends_next linked (ends_relinked others (all b) (forward b linked))
    intro k
    obtain ⟨m, reaches, last⟩ := all k
    induction reaches with
    | here k =>
      by_cases same : k = a
      · rw [same]
        exact first
      · exact ends_here ((others k same).trans last)
    | @next k l m linked rest ih =>
      by_cases same : k = a
      · rw [same]
        exact first
      · exact ends_next ((others k same).trans linked) (ih last)

end Links
