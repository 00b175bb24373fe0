import Mathlib.Data.List.Basic

/- Logs whose entries overwrite keys of a map. What a replay leaves at a key is what the
   last entry to write the key left there, so a replay may begin before the point at which
   its map was taken. -/
namespace KeyedLog
variable {E K W : Type} (writes : E → K → Option W)

def latest (k : K) : List E → Option W
  | [] => none
  | e :: es => (latest k es).or (writes e k)

variable {writes}

theorem latest_append (k : K) (xs ys : List E) :
    latest writes k (xs ++ ys) = (latest writes k ys).or (latest writes k xs) := by
  induction xs with
  | nil => simp [latest]
  | cons x xs ih => simp [latest, ih, Option.or_assoc]

theorem latest_snoc (k : K) (xs : List E) (e : E) :
    latest writes k (xs ++ [e]) = (writes e k).or (latest writes k xs) := by
  simp [latest_append, latest]

theorem latest_eq_none {k : K} {es : List E} :
    latest writes k es = none ↔ ∀ e ∈ es, writes e k = none := by
  induction es with
  | nil => simp [latest]
  | cons e es ih => simp [latest, Option.or_eq_none_iff, ih, and_comm]

theorem latest_suffix {k : K} {xs ys : List E} {v : W} (suffix : xs <:+ ys)
    (last : latest writes k xs = some v) : latest writes k ys = some v := by
  obtain ⟨older, rfl⟩ := suffix
  rw [latest_append, last, Option.some_or]

theorem latest_none_of_sublist {k : K} {xs ys : List E} (sublist : xs.Sublist ys)
    (silent : latest writes k ys = none) : latest writes k xs = none :=
  latest_eq_none.mpr fun e mem => latest_eq_none.mp silent e (sublist.subset mem)

theorem latest_filter {keep : E → Bool} {k : K} {es : List E}
    (silent : ∀ e ∈ es, keep e = false → writes e k = none) :
    latest writes k (es.filter keep) = latest writes k es := by
  induction es with
  | nil => rfl
  | cons e es ih =>
    have rest := ih fun f mem => silent f (List.mem_cons_of_mem e mem)
    cases kept : keep e with
    | true => rw [List.filter_cons_of_pos kept, latest, latest, rest]
    | false =>
      rw [List.filter_cons_of_neg (by simp [kept]), latest, rest,
        silent e List.mem_cons_self kept, Option.or_none]

/-- A replay from a point before the one at which a map was taken ends where the log does. -/
theorem latest_overlap {n m : Nat} (overlap : n ≤ m) (k : K) (log : List E) :
    (latest writes k (log.drop n)).or (latest writes k (log.take m)) = latest writes k log := by
  have whole : latest writes k log =
      (latest writes k (log.drop n)).or (latest writes k (log.take n)) := by
    rw [← latest_append, List.take_append_drop]
  cases after : latest writes k (log.drop n) with
  | some v => rw [whole, after, Option.some_or, Option.some_or]
  | none =>
    have between : latest writes k ((log.drop n).take (m - n)) = none :=
      latest_none_of_sublist (List.take_sublist _ _) after
    have snapshot : log.take m = log.take n ++ (log.drop n).take (m - n) := by
      rw [← List.take_add, Nat.add_sub_cancel' overlap]
    rw [whole, after, snapshot, latest_append, between, Option.none_or]

end KeyedLog
