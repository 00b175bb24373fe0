import Mathlib.Data.List.AList

/- Values written under keys, the newest first, with their number in the order of writing, and
   an array with one cell for every key that is filled by these numbers. -/
namespace Ranks
variable {K V N : Type}

section Keys
variable [DecidableEq K] {log : List (Sigma fun _ : K => V)}

theorem keys_toAList_subset : log.toAList.keys ⊆ log.keys := by
  intro k member
  have found : (log.toAList.lookup k).isSome := AList.lookup_isSome.mpr member
  rw [AList.lookup_to_alist] at found
  exact List.dlookup_isSome.mp found

theorem mem_toAList {k : K} : k ∈ log.toAList ↔ k ∈ log.keys := by
  rw [← AList.lookup_isSome, AList.lookup_to_alist, List.dlookup_isSome]

theorem entries_toAList_of_nodup (distinct : log.NodupKeys) : log.toAList.entries = log := by
  induction log with
  | nil => rfl
  | cons e log ih =>
    obtain ⟨fresh, distinct⟩ := List.nodupKeys_cons.mp distinct
    have absent : e.1 ∉ log.toAList := fun member => fresh (mem_toAList.mp member)
    rw [AList.toAList_cons, AList.entries_insert_of_notMem absent, ih distinct]

theorem length_toAList_lt (twice : ¬ log.NodupKeys) :
    log.toAList.entries.length < log.length := by
  have sub : log.toAList.keys.Subperm log.keys :=
    List.subperm_of_subset log.toAList.keys_nodup keys_toAList_subset
  have short : log.toAList.keys.length ≤ log.keys.length := sub.length_le
  have differ : log.toAList.keys.length ≠ log.keys.length := by
    intro same
    have perm := sub.perm_of_length_le (Nat.le_of_eq same.symm)
    exact twice (perm.nodup_iff.mp log.toAList.keys_nodup)
  simp only [AList.keys, List.keys, List.length_map] at short differ
  omega

end Keys

section Dense
variable (rank : V → Nat)

def Numbered (log : List (Sigma fun _ : K => V)) : Prop :=
  log.map (fun e => rank e.2) = (List.range log.length).reverse

def Dense (s : AList fun _ : K => V) : Prop :=
  (s.entries.map fun e => rank e.2).Perm (List.range s.entries.length)

instance (s : AList fun _ : K => V) : Decidable (Dense rank s) :=
  inferInstanceAs (Decidable (List.Perm _ _))

variable {rank} {log : List (Sigma fun _ : K => V)}

theorem numbered_nil : Numbered rank ([] : List (Sigma fun _ : K => V)) := rfl

theorem numbered_cons {e : Sigma fun _ : K => V} (numbered : Numbered rank log)
    (next : rank e.2 = log.length) : Numbered rank (e :: log) := by
  unfold Numbered at numbered ⊢
  rw [List.map_cons, numbered, next, List.length_cons, List.range_succ, List.reverse_append]
  rfl

/-- The numbers in the map have no gap exactly when no key was written twice. -/
theorem dense_iff [DecidableEq K] (numbered : Numbered rank log) :
    Dense rank log.toAList ↔ log.NodupKeys := by
  constructor
  · intro dense
    by_contra twice
    have short := length_toAList_lt twice
    cases log with
    | nil => simp at short
    | cons e log =>
      have last : rank e.2 = log.length := by
        unfold Numbered at numbered
        rw [List.map_cons, List.length_cons, List.range_succ, List.reverse_append] at numbered
        exact (List.cons.inj numbered).1
      have member : rank e.2 ∈ (e :: log).toAList.entries.map fun e => rank e.2 := by
        rw [AList.toAList_cons, AList.entries_insert]
        exact List.mem_cons_self
      have small := List.mem_range.mp (dense.mem_iff.mp member)
      rw [List.length_cons] at short
      omega
  · intro distinct
    unfold Dense
    rw [entries_toAList_of_nodup distinct, numbered]
    exact List.reverse_perm _

end Dense

section Cells
variable {E : Type} (rank : E → Nat) (name : E → Option N)

/-- None if the cell is outside the array. -/
def put (cells : List (Option N)) (i : Nat) (x : N) : Option (List (Option N)) :=
  if i < cells.length then some (cells.set i (some x)) else none

def fillOne (cells : Option (List (Option N))) (e : E) : Option (List (Option N)) :=
  match name e with
  | none => cells
  | some x => cells.bind fun cells => put cells (rank e) x

def fill (es : List E) (cells : Option (List (Option N))) : Option (List (Option N)) :=
  es.foldl (fillOne rank name) cells

variable {rank name}

theorem fillOne_comm {d e : E} (differ : rank d ≠ rank e) (cells : Option (List (Option N))) :
    fillOne rank name (fillOne rank name cells d) e =
      fillOne rank name (fillOne rank name cells e) d := by
  unfold fillOne
  cases name d with
  | none => rfl
  | some x =>
    cases name e with
    | none => rfl
    | some y =>
      cases cells with
      | none => rfl
      | some cells =>
        simp only [Option.bind_some, put]
        by_cases first : rank d < cells.length
        · by_cases second : rank e < cells.length
          · simp [first, second, List.set_comm _ _ differ]
          · simp [first, second]
        · by_cases second : rank e < cells.length
          · simp [first, second]
          · simp [first, second]

theorem fill_perm {es es' : List E} (distinct : (es.map rank).Nodup) (perm : es.Perm es')
    (cells : Option (List (Option N))) : fill rank name es cells = fill rank name es' cells := by
  apply perm.foldl_eq'
  intro d dIn e eIn state
  by_cases same : rank d = rank e
  · rw [List.inj_on_of_nodup_map distinct dIn eIn same]
  · exact fillOne_comm same state

theorem fill_front (es : List E) (done : List (Option N)) (room : Nat)
    (numbers : es.map rank = List.range' done.length es.length) (fits : es.length ≤ room) :
    fill rank name es (some (done ++ List.replicate room none)) =
      some (done ++ es.map name ++ List.replicate (room - es.length) none) := by
  induction es generalizing done room with
  | nil => simp [fill]
  | cons e es ih =>
    obtain ⟨room, rfl⟩ : ∃ n, room = n + 1 := ⟨room - 1, by rw [List.length_cons] at fits; omega⟩
    rw [List.map_cons, List.length_cons, List.range'_succ] at numbers
    obtain ⟨first, rest⟩ := List.cons.inj numbers
    have one : fillOne rank name (some (done ++ List.replicate (room + 1) none)) e =
        some ((done ++ [name e]) ++ List.replicate room none) := by
      unfold fillOne
      cases shown : name e with
      | none => simp [List.replicate_succ]
      | some x => simp [put, first, List.replicate_succ]
    have next := ih (done ++ [name e]) room (by simpa using rest) (by simpa using fits)
    change fill rank name es (fillOne rank name _ e) = _
    rw [one, next]
    simp

theorem fill_full {es es' : List E} (numbers : es.map rank = List.range es.length)
    (perm : es.Perm es') :
    fill rank name es' (some (List.replicate es.length none)) = some (es.map name) := by
  have distinct : (es.map rank).Nodup := numbers ▸ List.nodup_range
  rw [← fill_perm distinct perm]
  have whole : fill rank name es (some ([] ++ List.replicate es.length none)) = _ :=
    fill_front es [] es.length (by simpa [List.range_eq_range'] using numbers) le_rfl
  simpa using whole

end Cells
end Ranks
