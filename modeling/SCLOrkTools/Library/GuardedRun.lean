import Mathlib.Data.List.Basic

/- Runs of a partial step function. An event that is not enabled in a state has
   no successor, and a list of events is a run when each one is enabled in turn.
   Side conditions on a run are judged in the state each event is taken from. -/
namespace GuardedRun
variable {S E : Type}

def run (step : S → E → Option S) : S → List E → Option S
  | s, [] => some s
  | s, e :: es => (step s e).bind fun next => run step next es

def Along (step : S → E → Option S) (cond : S → E → Prop) : S → List E → Prop
  | _, [] => True
  | s, e :: es => cond s e ∧ ∀ next, step s e = some next → Along step cond next es

theorem run_cons {step : S → E → Option S} {s t : S} {e : E} {es : List E} :
    run step s (e :: es) = some t ↔ ∃ next, step s e = some next ∧ run step next es = some t := by
  simp [run, Option.bind_eq_some_iff]

theorem run_append {step : S → E → Option S} {s t : S} {es fs : List E} :
    run step s (es ++ fs) = some t ↔
      ∃ mid, run step s es = some mid ∧ run step mid fs = some t := by
  induction es generalizing s with
  | nil => simp [run]
  | cons e es ih =>
    constructor
    · intro whole
      obtain ⟨next, first, rest⟩ := run_cons.mp whole
      obtain ⟨mid, front, back⟩ := ih.mp rest
      exact ⟨mid, run_cons.mpr ⟨next, first, front⟩, back⟩
    · rintro ⟨mid, front, back⟩
      obtain ⟨next, first, rest⟩ := run_cons.mp front
      exact run_cons.mpr ⟨next, first, ih.mpr ⟨mid, rest, back⟩⟩

theorem run_snoc {step : S → E → Option S} {s t : S} {e : E} {es : List E} :
    run step s (es ++ [e]) = some t ↔ ∃ mid, run step s es = some mid ∧ step mid e = some t := by
  rw [run_append]
  simp [run]

theorem along_append {step : S → E → Option S} {cond : S → E → Prop} {s : S} {es fs : List E} :
    Along step cond s (es ++ fs) ↔
      Along step cond s es ∧ ∀ mid, run step s es = some mid → Along step cond mid fs := by
  induction es generalizing s with
  | nil => simp [Along, run]
  | cons e es ih =>
    constructor
    · rintro ⟨now, later⟩
      refine ⟨⟨now, fun next first => (ih.mp (later next first)).1⟩, ?_⟩
      intro mid whole
      obtain ⟨next, first, rest⟩ := run_cons.mp whole
      exact (ih.mp (later next first)).2 mid rest
    · rintro ⟨⟨now, later⟩, ahead⟩
      refine ⟨now, fun next first => ih.mpr ⟨later next first, ?_⟩⟩
      intro mid rest
      exact ahead mid (run_cons.mpr ⟨next, first, rest⟩)

theorem along_and {step : S → E → Option S} {p q : S → E → Prop} {s : S} {es : List E}
    (left : Along step p s es) (right : Along step q s es) :
    Along step (fun s e => p s e ∧ q s e) s es := by
  induction es generalizing s with
  | nil => trivial
  | cons e es ih =>
    exact ⟨⟨left.1, right.1⟩, fun next first => ih (left.2 next first) (right.2 next first)⟩

theorem along_of_all {step : S → E → Option S} {p : E → Prop} {s : S} {es : List E}
    (all : ∀ e ∈ es, p e) : Along step (fun _ e => p e) s es := by
  induction es generalizing s with
  | nil => trivial
  | cons e es ih =>
    exact ⟨all e List.mem_cons_self, fun _ _ => ih fun f mem => all f (List.mem_cons_of_mem e mem)⟩

theorem along_imp {step : S → E → Option S} {p q : S → E → Prop} {s : S} {es : List E}
    (weaker : ∀ s e, p s e → q s e) (along : Along step p s es) : Along step q s es := by
  induction es generalizing s with
  | nil => trivial
  | cons e es ih => exact ⟨weaker s e along.1, fun next first => ih (along.2 next first)⟩

theorem along_of_run {step : S → E → Option S} {s t : S} {es : List E}
    (ran : run step s es = some t) : Along step (fun s e => ∃ next, step s e = some next) s es := by
  induction es generalizing s with
  | nil => trivial
  | cons e es ih =>
    obtain ⟨next, first, rest⟩ := run_cons.mp ran
    refine ⟨⟨next, first⟩, ?_⟩
    intro other first'
    rw [first] at first'
    cases first'
    exact ih rest

instance {step : S → E → Option S} {cond : S → E → Prop} [∀ s e, Decidable (cond s e)] :
    ∀ (s : S) (es : List E), Decidable (Along step cond s es)
  | _, [] => isTrue trivial
  | s, e :: es =>
    match ahead : step s e with
    | none => decidable_of_iff (cond s e) (by simp [Along, ahead])
    | some next =>
      have : Decidable (Along step cond next es) := instDecidableAlong next es
      decidable_of_iff (cond s e ∧ Along step cond next es) (by simp [Along, ahead])

/-- The condition holds at every step exactly when it holds at each step that a
    prefix of the run leads to. -/
theorem along_iff_prefixes {step : S → E → Option S} {cond : S → E → Prop} {s : S} {es : List E} :
    Along step cond s es ↔
      ∀ pre e post, es = pre ++ e :: post → ∀ mid, run step s pre = some mid → cond mid e := by
  induction es generalizing s with
  | nil => simp [Along]
  | cons e es ih =>
    constructor
    · rintro ⟨now, later⟩ pre f post shape mid front
      cases pre with
      | nil =>
        simp only [List.nil_append, List.cons.injEq] at shape
        simp only [run, Option.some.injEq] at front
        rw [← front, ← shape.1]
        exact now
      | cons p pre =>
        simp only [List.cons_append, List.cons.injEq] at shape
        obtain ⟨next, first, rest⟩ := run_cons.mp front
        rw [← shape.1] at first
        exact ih.mp (later next first) pre f post shape.2 mid rest
    · intro each
      refine ⟨each [] e es rfl s rfl, fun next first => ih.mpr ?_⟩
      intro pre f post shape mid front
      exact each (e :: pre) f post (by rw [shape]; rfl) mid (run_cons.mpr ⟨next, first, front⟩)

/-- A run that meets the condition at every step, and where it ends. -/
structure Leads (step : S → E → Option S) (cond : S → E → Prop) (s : S) (es : List E) (t : S) :
    Prop where
  ran : run step s es = some t
  along : Along step cond s es

theorem leads_nil {step : S → E → Option S} {cond : S → E → Prop} (s : S) :
    Leads step cond s [] s := ⟨rfl, trivial⟩

theorem leads_cons {step : S → E → Option S} {cond : S → E → Prop} {s mid t : S} {e : E}
    {es : List E} (first : step s e = some mid) (here : cond s e)
    (rest : Leads step cond mid es t) : Leads step cond s (e :: es) t := by
  refine ⟨run_cons.mpr ⟨mid, first, rest.ran⟩, here, fun next other => ?_⟩
  rw [first, Option.some.injEq] at other
  exact other ▸ rest.along

theorem leads_append {step : S → E → Option S} {cond : S → E → Prop} {s mid t : S}
    {es fs : List E} (front : Leads step cond s es mid) (back : Leads step cond mid fs t) :
    Leads step cond s (es ++ fs) t := by
  refine ⟨run_append.mpr ⟨mid, front.ran, back.ran⟩, along_append.mpr ⟨front.along, ?_⟩⟩
  intro other ran
  rw [front.ran, Option.some.injEq] at ran
  exact ran ▸ back.along

/-- Two conditions that agree in the states that an invariant allows agree along a run, if
    the invariant is kept as long as the second of them holds. -/
theorem along_iff_along {step : S → E → Option S} {g p q : S → E → Prop} (inv : S → Prop)
    (agree : ∀ s e, inv s → g s e → (p s e ↔ q s e))
    (preserved : ∀ s e next, inv s → g s e → q s e → step s e = some next → inv next)
    {s : S} {es : List E} (start : inv s) (guard : Along step g s es) :
    Along step p s es ↔ Along step q s es := by
  induction es generalizing s with
  | nil => exact Iff.rfl
  | cons e es ih =>
    have here := agree s e start guard.1
    constructor
    · rintro ⟨now, later⟩
      refine ⟨here.mp now, ?_⟩
      intro next first
      exact (ih (preserved s e next start guard.1 (here.mp now) first)
        (guard.2 next first)).mp (later next first)
    · rintro ⟨now, later⟩
      refine ⟨here.mpr now, ?_⟩
      intro next first
      exact (ih (preserved s e next start guard.1 now first)
        (guard.2 next first)).mpr (later next first)

/-- An event of the run found the state it was taken from as `what` says. -/
def Happened (step : S → E → Option S) (what : S → E → Prop) (s : S) (es : List E) : Prop :=
  ∃ pre e post mid, es = pre ++ e :: post ∧ run step s pre = some mid ∧ what mid e

theorem happened_append {step : S → E → Option S} {what : S → E → Prop} {s : S} {es : List E}
    (fs : List E) (happened : Happened step what s es) : Happened step what s (es ++ fs) := by
  obtain ⟨pre, e, post, mid, shape, front, here⟩ := happened
  exact ⟨pre, e, post ++ fs, mid, by simp [shape], front, here⟩

theorem happened_snoc {step : S → E → Option S} {what : S → E → Prop} {s mid : S} {es : List E}
    {e : E} (ran : run step s es = some mid) (here : what mid e) :
    Happened step what s (es ++ [e]) :=
  ⟨es, e, [], mid, rfl, ran, here⟩

theorem happened_snoc_iff {step : S → E → Option S} {what : S → E → Prop} {s mid : S}
    {es : List E} {e : E} (ran : run step s es = some mid) :
    Happened step what s (es ++ [e]) ↔ Happened step what s es ∨ what mid e := by
  constructor
  · rintro ⟨pre, f, post, at_pre, shape, front, here⟩
    rcases List.eq_nil_or_concat post with rfl | ⟨init, last, rfl⟩
    · obtain ⟨rfl, same⟩ := List.append_inj' shape rfl
      cases same
      rw [ran] at front
      cases front
      exact Or.inr here
    · have : es ++ [e] = (pre ++ f :: init) ++ [last] := by simpa using shape
      obtain ⟨rfl, -⟩ := List.append_inj' this rfl
      exact Or.inl ⟨pre, f, init, at_pre, rfl, front, here⟩
  · rintro (before | here)
    · exact happened_append [e] before
    · exact happened_snoc ran here

theorem run_after {step : S → E → Option S} {s before after t : S} {pre post : List E} {e : E}
    (whole : run step s (pre ++ e :: post) = some t) (front : run step s pre = some before)
    (first : step before e = some after) : run step after post = some t := by
  obtain ⟨mid, front', rest⟩ := run_append.mp whole
  rw [front] at front'
  cases front'
  obtain ⟨next, first', rest⟩ := run_cons.mp rest
  rw [first] at first'
  cases first'
  exact rest

/-- An event was as `made` says, and no event after it was as `undone` says. -/
def Since (step : S → E → Option S) (made undone : S → E → Prop) (s : S) (es : List E) : Prop :=
  ∃ pre e post mid next, es = pre ++ e :: post ∧ run step s pre = some mid ∧ made mid e ∧
    step mid e = some next ∧ ¬ Happened step undone next post

theorem since_nil {step : S → E → Option S} {made undone : S → E → Prop} {s : S} :
    ¬ Since step made undone s [] := by
  rintro ⟨pre, e, post, mid, next, shape, -⟩
  simp at shape

theorem since_snoc {step : S → E → Option S} {made undone : S → E → Prop} {s mid next : S}
    {es : List E} {e : E} (ran : run step s es = some mid) (last : step mid e = some next) :
    Since step made undone s (es ++ [e]) ↔
      made mid e ∨ Since step made undone s es ∧ ¬ undone mid e := by
  constructor
  · rintro ⟨pre, f, post, before, after, shape, front, here, first, kept⟩
    rcases List.eq_nil_or_concat post with rfl | ⟨init, g, rfl⟩
    · obtain ⟨rfl, same⟩ := List.append_inj' shape rfl
      cases same
      rw [ran] at front
      cases front
      exact Or.inl here
    · have : es ++ [e] = (pre ++ f :: init) ++ [g] := by simpa using shape
      obtain ⟨rfl, same⟩ := List.append_inj' this rfl
      cases same
      have rest := run_after ran front first
      have split := (not_congr (happened_snoc_iff rest)).mp (by simpa using kept)
      obtain ⟨untouched, standing⟩ := not_or.mp split
      exact Or.inr ⟨⟨pre, f, init, before, after, rfl, front, here, first, untouched⟩, standing⟩
  · rintro (here | ⟨⟨pre, f, init, before, after, rfl, front, here, first, untouched⟩, standing⟩)
    · refine ⟨es, e, [], mid, next, rfl, ran, here, last, ?_⟩
      rintro ⟨pre, f, post, -, shape, -⟩
      simp at shape
    · refine ⟨pre, f, init ++ [e], before, after, by simp, front, here, first, ?_⟩
      rw [happened_snoc_iff (run_after ran front first)]
      exact not_or.mpr ⟨untouched, standing⟩

/-- Invariant rule with history: the invariant may speak of the events taken so far. -/
theorem run_history {step : S → E → Option S} {p : S → E → Prop} (inv : List E → S → Prop)
    (preserved : ∀ past s e next, inv past s → p s e → step s e = some next →
      inv (past ++ [e]) next)
    (past : List E) {es : List E} {s t : S} (start : inv past s) (along : Along step p s es)
    (ran : run step s es = some t) : inv (past ++ es) t := by
  induction es generalizing past s with
  | nil =>
    simp only [run, Option.some.injEq] at ran
    subst ran
    simpa using start
  | cons e es ih =>
    obtain ⟨next, first, rest⟩ := run_cons.mp ran
    have := ih (past ++ [e]) (preserved past s e next start along.1 first) (along.2 next first) rest
    simpa using this

theorem run_invariant {step : S → E → Option S} {p : S → E → Prop} (inv : S → Prop)
    (preserved : ∀ s e next, inv s → p s e → step s e = some next → inv next)
    {es : List E} {s t : S} (start : inv s) (along : Along step p s es)
    (ran : run step s es = some t) : inv t :=
  run_history (fun _ => inv) (fun _ => preserved) [] start along ran

theorem run_keeps_history {step : S → E → Option S} (inv : List E → S → Prop)
    (preserved : ∀ past s e next, inv past s → step s e = some next → inv (past ++ [e]) next)
    {es : List E} {s t : S} (start : inv [] s) (ran : run step s es = some t) : inv es t :=
  run_history (p := fun _ _ => True) inv
    (fun past s e next before _ => preserved past s e next before) [] start
    (along_of_all (p := fun _ => True) fun _ _ => trivial) ran

theorem run_keeps {step : S → E → Option S} (inv : S → Prop)
    (preserved : ∀ s e next, inv s → step s e = some next → inv next)
    {es : List E} {s t : S} (start : inv s) (ran : run step s es = some t) : inv t :=
  run_keeps_history (fun _ => inv) (fun _ => preserved) start ran

section Simulation
variable {T F : Type}

/-- The events of a coarser system that the steps of a run stand for. Some steps it does not
    see. -/
def seen (step : S → E → Option S) (shows : S → E → Option F) : S → List E → List F
  | _, [] => []
  | s, e :: es =>
    match step s e with
    | none => []
    | some next => (shows s e).toList ++ seen step shows next es

/-- A run is a run of the coarser system, if each step is a step of it or leaves it where it is. -/
theorem run_simulates {step : S → E → Option S} {coarse : T → F → Option T}
    {shows : S → E → Option F} (related : S → T → Prop)
    (unseen : ∀ s e next t, related s t → step s e = some next → shows s e = none →
      related next t)
    (simulated : ∀ s e next t f, related s t → step s e = some next → shows s e = some f →
      ∃ u, coarse t f = some u ∧ related next u)
    {es : List E} {s next : S} {t : T} (start : related s t) (ran : run step s es = some next) :
    ∃ u, run coarse t (seen step shows s es) = some u ∧ related next u := by
  induction es generalizing s t with
  | nil =>
    cases ran
    exact ⟨t, rfl, start⟩
  | cons e es ih =>
    obtain ⟨mid, first, rest⟩ := run_cons.mp ran
    simp only [seen, first]
    cases shown : shows s e with
    | none => exact ih (unseen s e mid t start first shown) rest
    | some f =>
      obtain ⟨v, stepped, after⟩ := simulated s e mid t f start first shown
      obtain ⟨u, goes_on, ends⟩ := ih after rest
      exact ⟨u, run_cons.mpr ⟨v, stepped, goes_on⟩, ends⟩

end Simulation

end GuardedRun
