import Mathlib.Data.Finset.Basic
import Mathlib.Data.List.Nodup
import SCLOrkTools.Chat.Window

/- Rows of the list view stand for users. The users come and go and are renamed, and with every
   new list the rows change. Whom the player has chosen does not. -/
namespace SCLOrkChat
open GuardedRun

section Rows
variable {α : Type}

def inRows (l : List α) (rows : List Nat) : List α := rows.filterMap (l[·]?)

def rowsOf [DecidableEq α] (l chosen : List α) : List Nat :=
  (List.range l.length).filter fun row => l[row]?.any (· ∈ chosen)

theorem inRows_sublist {l : List α} {rows : List Nat} (sorted : rows.Pairwise (· < ·))
    (inside : ∀ row ∈ rows, row < l.length) : (inRows l rows).Sublist l := by
  have ascending : (rows.pmap Fin.mk inside).Pairwise (· < ·) :=
    List.Pairwise.pmap sorted inside fun _ _ _ _ less => less
  have same : (rows.pmap Fin.mk inside).map (l[·]) = inRows l rows := by
    induction rows with
    | nil => rfl
    | cons row rows ih =>
      have here := inside row List.mem_cons_self
      have rest := ih (List.pairwise_cons.mp sorted).2
        (fun r mem => inside r (List.mem_cons_of_mem row mem))
        (List.Pairwise.pmap (List.pairwise_cons.mp sorted).2 _ fun _ _ _ _ less => less)
      simp only [List.pmap_cons, List.map_cons, rest, inRows, List.filterMap_cons,
        List.getElem?_eq_getElem here]
      rfl
  exact same ▸ List.map_getElem_sublist ascending

theorem inRows_all {l : List α} {rows : List Nat} (inside : ∀ row ∈ rows, row < l.length) :
    (inRows l rows).map some = rows.map (l[·]?) := by
  induction rows with
  | nil => rfl
  | cons row rows ih =>
    have here := inside row List.mem_cons_self
    have rest := ih fun r mem => inside r (List.mem_cons_of_mem row mem)
    simp only [inRows, List.filterMap_cons, List.getElem?_eq_getElem here, List.map_cons] at rest ⊢
    rw [rest]

variable [DecidableEq α]

theorem filter_sublist {l part : List α} (nodup : l.Nodup) (sub : part.Sublist l) :
    l.filter (· ∈ part) = part := by
  induction sub with
  | slnil => rfl
  | @cons part l a sub ih =>
    obtain ⟨new, rest⟩ := List.nodup_cons.mp nodup
    have absent : a ∉ part := fun mem => new (sub.subset mem)
    rw [List.filter_cons_of_neg (by simpa using absent)]
    exact ih rest
  | @cons_cons part l a sub ih =>
    obtain ⟨new, rest⟩ := List.nodup_cons.mp nodup
    rw [List.filter_cons_of_pos (by simp)]
    refine congrArg (a :: ·) ((List.filter_congr fun b mem => ?_).trans (ih rest))
    have other : b ≠ a := fun same => new (same ▸ mem)
    simp [other]

theorem rowsOf_cons (a : α) (l chosen : List α) : rowsOf (a :: l) chosen =
    (if a ∈ chosen then [0] else []) ++ (rowsOf l chosen).map (· + 1) := by
  simp only [rowsOf, List.length_cons, List.range_succ_eq_map, List.filter_cons, List.filter_map]
  by_cases mem : a ∈ chosen
  · simp [mem, Function.comp_def]
  · simp [mem, Function.comp_def]

theorem inRows_rowsOf (l chosen : List α) : inRows l (rowsOf l chosen) = l.filter (· ∈ chosen) := by
  induction l with
  | nil => rfl
  | cons a l ih =>
    have later : inRows (a :: l) ((rowsOf l chosen).map (· + 1)) = inRows l (rowsOf l chosen) := by
      simp [inRows, List.filterMap_map]
    rw [rowsOf_cons, inRows, List.filterMap_append]
    change _ ++ inRows (a :: l) _ = _
    rw [later, ih]
    by_cases mem : a ∈ chosen
    · simp [mem]
    · simp [mem]

theorem rowsOf_sorted (l chosen : List α) : (rowsOf l chosen).Pairwise (· < ·) :=
  List.pairwise_lt_range.filter _

theorem rowsOf_inside (l chosen : List α) : ∀ row ∈ rowsOf l chosen, row < l.length :=
  fun _ mem => List.mem_range.mp (List.mem_filter.mp mem).1

end Rows

section Views

/-- The list shows the users of a nameMap, sorted by their names. -/
structure Window.Tidy (w : Window) : Prop where
  items : w.items.map some = w.clientIdList.map w.listed.lookup
  sorted : w.items.Pairwise (· ≤ ·)
  users : w.clientIdList.Perm w.listed.keys
  rows : w.Selects w.selection

def Window.chosen (w : Window) : Finset Int := (inRows w.clientIdList w.selection).toFinset

def Window.view (w : Window) : List String × List Nat × List Int × Names :=
  (w.items, w.selection, w.clientIdList, w.listed)

def Window.waits (w : Window) : (List String × List Nat × List Int × Names) × List Bool :=
  (w.view, w.rebuilds)

variable {v w : Window}

theorem tidy_same (same : v.view = w.view) (tidy : w.Tidy) : v.Tidy := by
  simp only [Window.view, Prod.mk.injEq] at same
  obtain ⟨items, selection, ids, listed⟩ := same
  refine ⟨?_, ?_, ?_, ?_⟩
  · rw [items, ids, listed]
    exact tidy.items
  · rw [items]
    exact tidy.sorted
  · rw [ids, listed]
    exact tidy.users
  · rw [Window.Selects, items, selection]
    exact tidy.rows

theorem chosen_same (same : v.view = w.view) : v.chosen = w.chosen := by
  simp only [Window.view, Prod.mk.injEq] at same
  rw [Window.chosen, same.2.1, same.2.2.1]
  rfl

theorem Window.Tidy.nodup (tidy : w.Tidy) : w.clientIdList.Nodup :=
  tidy.users.nodup_iff.mpr w.listed.keys_nodup

theorem Window.Tidy.length (tidy : w.Tidy) : w.items.length = w.clientIdList.length := by
  have := congrArg List.length tidy.items
  rwa [List.length_map, List.length_map] at this

theorem Window.Tidy.inside (tidy : w.Tidy) : ∀ row ∈ w.selection, row < w.clientIdList.length :=
  tidy.length ▸ tidy.rows.2

theorem Window.Tidy.inRows_chosen (tidy : w.Tidy) :
    inRows w.clientIdList w.selection = w.clientIdList.filter (· ∈ w.chosen) := by
  have sub := inRows_sublist tidy.rows.1 tidy.inside
  rw [← filter_sublist tidy.nodup sub]
  simp [Window.chosen, filter_sublist tidy.nodup sub]

theorem Window.Tidy.chosen_subset (tidy : w.Tidy) : ∀ u ∈ w.chosen, u ∈ w.clientIdList :=
  fun _ mem => (inRows_sublist tidy.rows.1 tidy.inside).subset (List.mem_toFinset.mp mem)

theorem Window.Tidy.chosen_empty (tidy : w.Tidy) : w.chosen = ∅ ↔ w.selection.length = 0 := by
  rw [Window.chosen, List.toFinset_eq_empty_iff, ← List.map_eq_nil_iff (f := some),
    inRows_all tidy.inside, List.map_eq_nil_iff, List.length_eq_zero_iff]

theorem Window.Tidy.recipientIds (tidy : w.Tidy) : w.recipientIds =
    if w.chosen = ∅ then [some 0] else (w.clientIdList.filter (· ∈ w.chosen)).map some := by
  rw [Window.recipientIds, ← tidy.inRows_chosen, inRows_all tidy.inside]
  simp only [tidy.chosen_empty]

theorem tidy_new (name : String) (asDirector : Bool) : (Window.new name asDirector).Tidy where
  items := rfl
  sorted := List.Pairwise.nil
  users := .refl _
  rows := ⟨List.Pairwise.nil, fun _ mem => nomatch mem⟩

theorem sorted_items {nameMap : Names} {order : List Int} (all : order.Perm nameMap.keys) :
    (order.filterMap nameMap.lookup).map some = order.map nameMap.lookup := by
  have named : ∀ u ∈ order, ∃ name, nameMap.lookup u = some name := fun u mem =>
    Option.isSome_iff_exists.mp (AList.lookup_isSome.mpr (all.subset mem))
  clear all
  induction order with
  | nil => rfl
  | cons u order ih =>
    obtain ⟨name, found⟩ := named u List.mem_cons_self
    rw [List.filterMap_cons, found, List.map_cons, List.map_cons, found,
      ih fun v mem => named v (List.mem_cons_of_mem u mem)]

theorem rebuild_tidy (w : Window) {nameMap : Names} (clearFirst : Bool) {order : List Int}
    (sorts : Sorts nameMap order) : (w.rebuild nameMap clearFirst order).Tidy where
  items := sorted_items sorts.1
  sorted := sorts.2
  users := sorts.1
  rows := by
    have length : (order.filterMap nameMap.lookup).length = order.length := by
      have := congrArg List.length (sorted_items sorts.1)
      rwa [List.length_map, List.length_map] at this
    refine ⟨rowsOf_sorted order _, fun row mem => ?_⟩
    exact lt_of_lt_of_eq (rowsOf_inside order _ row mem) length.symm

theorem rebuild_chosen (w : Window) {nameMap : Names} {order : List Int}
    (sorts : Sorts nameMap order) :
    (w.rebuild nameMap false order).chosen = w.chosen ∩ nameMap.keys.toFinset := by
  change (inRows order (rowsOf order (inRows w.clientIdList w.selection))).toFinset = _
  ext u
  rw [inRows_rowsOf, List.mem_toFinset, List.mem_filter, Finset.mem_inter, List.mem_toFinset,
    sorts.1.mem_iff, decide_eq_true_iff, and_comm, Window.chosen, List.mem_toFinset]

theorem rebuild_cleared (w : Window) (nameMap : Names) (order : List Int) :
    (w.rebuild nameMap true order).chosen = ∅ := by
  change (inRows order (rowsOf order [])).toFinset = ∅
  simp [inRows_rowsOf]

theorem select_tidy {rows : List Nat} (tidy : w.Tidy) (selects : w.Selects rows) :
    Window.Tidy { w with selection := rows } := ⟨tidy.items, tidy.sorted, tidy.users, selects⟩

theorem clear_tidy (tidy : w.Tidy) : Window.Tidy { w with selection := [] } :=
  select_tidy tidy ⟨List.Pairwise.nil, fun _ mem => nomatch mem⟩

end Views

section Frames
variable (backwards : String → Nat → Nat → String)

theorem onUserChanged_view (w : Window) (changeType name : String) (oldName : Option String) :
    (w.onUserChanged changeType name oldName).view = w.view := by
  simp only [Window.onUserChanged]
  split <;> rfl

theorem hear_view (w : Window) (c : Client) (p : Packet) : (w.hear c p).view = w.view := by
  unfold Window.hear
  split
  · rfl
  · split
    · exact onUserChanged_view w _ _ _
    · rfl
  · rfl
  · rfl

theorem observes_view (w : Window) (chat : Chat) (e : Event) :
    (w.observes chat e).view = w.view := by
  unfold Window.observes
  split
  · split
    · exact hear_view w chat.client _
    · rfl
  · rfl

theorem privately_waits (w : Window) (nameMap : Names) (order : List Int) (s : String) :
    (w.privately backwards nameMap order s).1.waits = w.waits := by
  unfold Window.privately
  split <;> rfl

theorem command_waits (w : Window) (s : String) : (w.command backwards s).1.waits = w.waits := by
  simp only [Window.command]
  split
  · rfl
  · rfl
  · rfl
  · split <;> rfl
  · rfl
  · rfl
  · rfl
  · rfl

theorem asks_waits (w : Window) (nameMap : Names) (order : List Int) (s : String) :
    (w.asks backwards nameMap order s).1.waits = w.waits := by
  unfold Window.asks
  split
  · exact privately_waits backwards w nameMap order s
  · exact command_waits backwards w s
  · rfl

theorem sends_waits (w : Window) (recipientIds : Option (List Int)) (type contents : String) :
    (w.sends recipientIds type contents).1.waits = w.waits := by
  unfold Window.sends
  split <;> rfl

theorem enter_waits (d : Desk) (s : String) (order : List Int) :
    (d.enter backwards s order).window.waits = d.window.waits := by
  have asked := asks_waits backwards d.window d.chat.client.nameMap order s
  unfold Desk.enter
  split
  · rename_i w recipientIds type contents asks
    rw [asks] at asked
    have sent := sends_waits w recipientIds type contents
    split
    · rename_i sends
      rw [sends] at sent
      exact sent.trans asked
    · rename_i sends
      rw [sends] at sent
      exact sent.trans asked
  · rename_i asks
    rw [asks] at asked
    exact asked
  · rename_i asks
    rw [asks] at asked
    exact asked
  · rename_i asks
    rw [asks] at asked
    exact asked

theorem connect_waits {d next : Desk} (ran : d.connect = some next) :
    next.window.waits = d.window.waits := by
  unfold Desk.connect at ran
  split at ran
  · cases ran
    rfl
  · split at ran
    · cases ran
      rfl
    · obtain ⟨chat, -, rfl⟩ := Option.map_eq_some_iff.mp ran
      rfl

end Frames

section Choices
variable {backwards : String → Nat → Nat → String} {d next : Desk} {ev : DeskEvent}

/-- What the list view is for: the player chooses users, and of those the ones stay chosen that
    are still there. -/
inductive Choice where
  | choose (users : Finset Int)
  | stay (users : Finset Int)

def Choice.step (chosen : Finset Int) : Choice → Option (Finset Int)
  | .choose users => some users
  | .stay users => some (chosen ∩ users)

/-- A click chooses the users in the rows. A list that is cleared first forgets whom was chosen. -/
def Desk.chooses (d : Desk) : DeskEvent → Option Choice
  | .select rows => some (.choose (inRows d.window.clientIdList rows).toFinset)
  | .clearSelection => some (.choose ∅)
  | .rebuild _ =>
    if d.window.rebuilds.head? = some true then some (.choose ∅)
    else some (.stay d.chat.client.nameMap.keys.toFinset)
  | _ => none

structure Honours (d : Desk) (chosen : Finset Int) : Prop where
  tidy : d.window.Tidy
  chosen : d.window.chosen = chosen

theorem honours_same {chosen : Finset Int} (honours : Honours d chosen)
    (same : next.window.view = d.window.view) : Honours next chosen :=
  ⟨tidy_same same honours.tidy, (chosen_same same).trans honours.chosen⟩

theorem step_unchosen {chosen : Finset Int} (honours : Honours d chosen)
    (ran : d.step backwards ev = some next) (unchosen : d.chooses ev = none) :
    Honours next chosen := by
  cases ev with
  | world e =>
    obtain ⟨-, ran⟩ := Option.ite_none_right_eq_some.mp ran
    obtain ⟨chat, -, rfl⟩ := Option.map_eq_some_iff.mp ran
    exact honours_same honours (observes_view d.window d.chat e)
  | connect => exact honours_same honours (congrArg Prod.fst (connect_waits ran))
  | connectFails =>
    obtain ⟨-, ran⟩ := Option.ite_none_left_eq_some.mp ran
    cases ran
    exact honours_same honours rfl
  | rebuild order =>
    simp only [Desk.chooses] at unchosen
    split at unchosen <;> cases unchosen
  | select rows => cases unchosen
  | clearSelection => cases unchosen
  | chooseType type =>
    obtain ⟨-, ran⟩ := Option.ite_none_right_eq_some.mp ran
    cases ran
    exact honours_same honours rfl
  | enter s order =>
    obtain ⟨-, ran⟩ := Option.ite_none_right_eq_some.mp ran
    cases ran
    exact honours_same honours (congrArg Prod.fst (enter_waits backwards d s order))

theorem step_chosen {chosen : Finset Int} {c : Choice} (honours : Honours d chosen)
    (ran : d.step backwards ev = some next) (chooses : d.chooses ev = some c) :
    ∃ after, Choice.step chosen c = some after ∧ Honours next after := by
  cases ev with
  | world | connect | connectFails | chooseType | enter => cases chooses
  | rebuild order =>
    simp only [Desk.step] at ran
    split at ran
    · cases ran
    · rename_i clearFirst rest pending
      obtain ⟨sorts, ran⟩ := Option.ite_none_right_eq_some.mp ran
      cases ran
      simp only [Desk.chooses, pending, List.head?_cons, Option.some.injEq] at chooses
      cases clearFirst with
      | true =>
        cases chooses
        exact ⟨_, rfl, rebuild_tidy _ true sorts, rebuild_cleared _ _ order⟩
      | false =>
        cases chooses
        exact ⟨_, rfl, rebuild_tidy _ false sorts,
          honours.chosen ▸ rebuild_chosen { d.window with rebuilds := rest } sorts⟩
  | select rows =>
    obtain ⟨selects, ran⟩ := Option.ite_none_right_eq_some.mp ran
    cases ran
    cases chooses
    exact ⟨_, rfl, select_tidy honours.tidy selects, rfl⟩
  | clearSelection =>
    cases ran
    cases chooses
    exact ⟨_, rfl, clear_tidy honours.tidy, rfl⟩

theorem run_honours {T M : Int} {name : String} {asDirector : Bool} {es : List DeskEvent}
    (ran : run (Desk.step backwards) (Desk.new T M name asDirector) es = some d) :
    ∃ chosen, run Choice.step ∅
        (seen (Desk.step backwards) Desk.chooses (Desk.new T M name asDirector) es) = some chosen ∧
      Honours d chosen := by
  have start : Honours (Desk.new T M name asDirector) ∅ := ⟨tidy_new name asDirector, rfl⟩
  exact run_simulates Honours (fun _ _ _ _ => step_unchosen) (fun _ _ _ _ _ => step_chosen) start
    ran

theorem run_tidy {T M : Int} {name : String} {asDirector : Bool} {es : List DeskEvent}
    (ran : run (Desk.step backwards) (Desk.new T M name asDirector) es = some d) :
    d.window.Tidy := by
  obtain ⟨chosen, -, honours⟩ := run_honours ran
  exact honours.tidy

/-- Over any run, a message for which no recipients are named goes to the users that the player
    has chosen and that no new list has missed since, in the order of the list, and to all if
    there are none. The rows show the names that these users had. -/
theorem recipients_chosen {T M : Int} {name : String} {asDirector : Bool} {es : List DeskEvent}
    (ran : run (Desk.step backwards) (Desk.new T M name asDirector) es = some d) :
    ∃ chosen, run Choice.step ∅
        (seen (Desk.step backwards) Desk.chooses (Desk.new T M name asDirector) es) = some chosen ∧
      d.window.recipientIds =
        (if chosen = ∅ then [some 0] else (d.window.clientIdList.filter (· ∈ chosen)).map some) ∧
      (∀ u ∈ chosen, u ∈ d.window.clientIdList) ∧
      d.window.items.map some = d.window.clientIdList.map d.window.listed.lookup := by
  obtain ⟨_, taken, tidy, rfl⟩ := run_honours ran
  exact ⟨_, taken, tidy.recipientIds, tidy.chosen_subset, tidy.items⟩

def seating : List DeskEvent :=
  [.connect, .world (.serve ⟨0, []⟩), .world .hear, .world (.serve ⟨0, [1]⟩), .world .hear,
    .rebuild [1], .world (signsIn "bob"), .world (signsIn "cat"), .world .poll,
    .world (.serve ⟨2, [1]⟩), .world .hear, .world .hear, .world .hear,
    .rebuild [1, 2, 3], .rebuild [1, 2, 3], .select [1], .world (signsIn "abe"), .world .poll,
    .world (.serve ⟨3, [1]⟩), .world .hear, .world .hear, .rebuild [4, 1, 2, 3]]

def seated : Desk :=
  (run (Desk.step fun _ _ _ => "") (Desk.new 10 3 "ann" false) seating).get (by decide +kernel)

theorem seated_run :
    run (Desk.step fun _ _ _ => "") (Desk.new 10 3 "ann" false) seating = some seated :=
  (Option.some_get _).symm

theorem recipients_chosen_seated :
    ∃ chosen, run Choice.step ∅ (seen (Desk.step fun _ _ _ => "") Desk.chooses
        (Desk.new 10 3 "ann" false) seating) = some chosen ∧
      seated.window.recipientIds = (if chosen = ∅ then [some 0] else
        (seated.window.clientIdList.filter (· ∈ chosen)).map some) ∧
      (∀ u ∈ chosen, u ∈ seated.window.clientIdList) ∧
      seated.window.items.map some = seated.window.clientIdList.map seated.window.listed.lookup :=
  recipients_chosen seated_run

example : seated.window.recipientIds = [some 2] ∧ seated.window.selection = [2] := by
  decide +kernel

end Choices

end SCLOrkChat
