import Mathlib.Data.List.Nodup

/- Dictionaries whose entries are values or dictionaries, reached by paths of keys. A dictionary
   is written down entry by entry; the order of the entries is one of many. -/
namespace MultiLevel
variable {K V : Type}

inductive Level (K V : Type) where
  | empty
  | value (key : K) (v : V) (rest : Level K V)
  | inner (key : K) (level rest : Level K V)
  deriving DecidableEq

namespace Level

def cons (key : K) (item : V ⊕ Level K V) (rest : Level K V) : Level K V :=
  match item with
  | .inl v => .value key v rest
  | .inr level => .inner key level rest

def keys : Level K V → List K
  | .empty => []
  | .value key _ rest => key :: keys rest
  | .inner key _ rest => key :: keys rest

def size (d : Level K V) : Nat := d.keys.length

def append : Level K V → Level K V → Level K V
  | .empty, e => e
  | .value key v rest, e => .value key v (append rest e)
  | .inner key level rest, e => .inner key level (append rest e)

def leaves : Level K V → List (List K × V)
  | .empty => []
  | .value key v rest => ([key], v) :: leaves rest
  | .inner key level rest => (leaves level).map (fun e => (key :: e.1, e.2)) ++ leaves rest

def total (weight : V → Nat) : Level K V → Nat
  | .empty => 0
  | .value _ v rest => weight v + total weight rest
  | .inner _ level rest => total weight level + total weight rest

/-- What holds of every dictionary below. -/
def Inside (P : Level K V → Prop) : Level K V → Prop
  | .empty => True
  | .value _ _ rest => Inside P rest
  | .inner _ level rest => P level ∧ Inside P level ∧ Inside P rest

/-- No key stands for two entries, and no dictionary below is without values. -/
def Solid : Level K V → Prop
  | .empty => True
  | .value key _ rest => key ∉ rest.keys ∧ Solid rest
  | .inner key level rest => key ∉ rest.keys ∧ level.leaves ≠ [] ∧ Solid level ∧ Solid rest

/-- The same dictionary with its entries in another order, here and below. -/
inductive Arranged : Level K V → Level K V → Prop where
  | refl (d : Level K V) : Arranged d d
  | value (key : K) (v : V) {d e : Level K V} (rest : Arranged d e) :
      Arranged (.value key v d) (.value key v e)
  | inner (key : K) {l m d e : Level K V} (level : Arranged l m) (rest : Arranged d e) :
      Arranged (.inner key l d) (.inner key m e)
  | swap (j k : K) (item item' : V ⊕ Level K V) (d : Level K V) :
      Arranged (cons j item (cons k item' d)) (cons k item' (cons j item d))
  | trans {d e f : Level K V} (first : Arranged d e) (second : Arranged e f) : Arranged d f

variable [DecidableEq K]

def find : Level K V → K → Option (V ⊕ Level K V)
  | .empty, _ => none
  | .value key v rest, k => if key = k then some (.inl v) else find rest k
  | .inner key level rest, k => if key = k then some (.inr level) else find rest k

def setEntry : Level K V → K → V ⊕ Level K V → Level K V
  | .empty, k, item => cons k item .empty
  | .value key v rest, k, item =>
    if key = k then cons k item rest else .value key v (setEntry rest k item)
  | .inner key level rest, k, item =>
    if key = k then cons k item rest else .inner key level (setEntry rest k item)

def atPath : Level K V → List K → Option V
  | _, [] => none
  | d, k :: path =>
    match d.find k with
    | some (.inl v) => if path = [] then some v else none
    | some (.inr level) => atPath level path
    | none => none

def levelAt : Level K V → List K → Option (Level K V)
  | d, [] => some d
  | d, k :: path =>
    match d.find k with
    | some (.inr level) => levelAt level path
    | _ => none

/-- Dictionaries are made on the way where there are none. A value on the way stays: it has no
    entries. -/
def put : Level K V → List K → V → Level K V
  | d, [], _ => d
  | d, k :: path, v =>
    if path = [] then d.setEntry k (.inl v)
    else
      match d.find k with
      | some (.inl _) => d
      | some (.inr level) => d.setEntry k (.inr (put level path v))
      | none => d.setEntry k (.inr (put .empty path v))

/-- The dictionary behind a key, without entries where there is none. -/
def child (d : Level K V) (k : K) : Level K V :=
  match d.find k with
  | some (.inr level) => level
  | _ => .empty

def putAll (entries : List (List K × V)) (d : Level K V) : Level K V :=
  entries.foldl (fun d e => d.put e.1 e.2) d

end Level

open Level

section Entries
variable {d e : Level K V} {k : K} {item : V ⊕ Level K V}

/-- Over the entries, where it does not matter which are dictionaries. -/
@[elab_as_elim] theorem entries_induction {motive : Level K V → Prop} (empty : motive .empty)
    (entry : ∀ key item rest, motive rest → motive (cons key item rest)) (d : Level K V) :
    motive d := by
  induction d with
  | empty => exact empty
  | value key v rest ih => exact entry key (.inl v) rest ih
  | inner key level rest _ ih => exact entry key (.inr level) rest ih

@[simp] theorem keys_cons (rest : Level K V) : (cons k item rest).keys = k :: rest.keys := by
  cases item <;> rfl

@[simp] theorem empty_append (e : Level K V) : Level.empty.append e = e :=
  rfl

@[simp] theorem cons_append (rest e : Level K V) :
    (cons k item rest).append e = cons k item (rest.append e) := by
  cases item <;> rfl

@[simp] theorem append_empty (d : Level K V) : d.append .empty = d := by
  induction d using entries_induction with
  | empty => rfl
  | entry key item rest ih => rw [cons_append, ih]

@[simp] theorem append_assoc (d e f : Level K V) :
    (d.append e).append f = d.append (e.append f) := by
  induction d using entries_induction with
  | empty => rfl
  | entry key item rest ih => rw [cons_append, cons_append, cons_append, ih]

@[simp] theorem keys_append (d e : Level K V) : (d.append e).keys = d.keys ++ e.keys := by
  induction d using entries_induction with
  | empty => rfl
  | entry key item rest ih => rw [cons_append, keys_cons, keys_cons, ih, List.cons_append]

theorem apart_last {rest : Level K V} (apart : ∀ j ∈ k :: rest.keys, j ∉ d.keys)
    (alone : k ∉ rest.keys) (item : V ⊕ Level K V) :
    ∀ j ∈ rest.keys, j ∉ (d.append (cons k item .empty)).keys := by
  intro j member
  rw [keys_append, keys_cons, List.mem_append]
  rintro (earlier | last)
  · exact apart j (List.mem_cons_of_mem _ member) earlier
  · rw [keys, List.mem_singleton] at last
    exact alone (last ▸ member)

theorem leaves_path {path : List K} {v : V} (member : (path, v) ∈ d.leaves) : path ≠ [] := by
  induction d generalizing path with
  | empty => cases member
  | value key w rest ih =>
    rcases List.mem_cons.mp member with here | later
    · cases here
      exact List.cons_ne_nil _ _
    · exact ih later
  | inner key level rest _ ih =>
    rcases List.mem_append.mp member with below | later
    · obtain ⟨entry, -, same⟩ := List.mem_map.mp below
      cases same
      exact List.cons_ne_nil _ _
    · exact ih later

theorem leaves_ne_of_keys (solid : d.Solid) (some : d.keys ≠ []) : d.leaves ≠ [] := by
  cases d with
  | empty => exact absurd rfl some
  | value key v rest => exact List.cons_ne_nil _ _
  | inner key level rest =>
    intro none
    obtain ⟨below, -⟩ := List.append_eq_nil_iff.mp none
    exact solid.2.1 (List.map_eq_nil_iff.mp below)

variable [DecidableEq K]

@[simp] theorem find_cons (rest : Level K V) (k' : K) :
    (cons k item rest).find k' = if k = k' then some item else rest.find k' := by
  cases item <;> rfl

@[simp] theorem setEntry_cons (rest : Level K V) (k' : K) (item' : V ⊕ Level K V) :
    (cons k item rest).setEntry k' item' =
      if k = k' then cons k' item' rest else cons k item (rest.setEntry k' item') := by
  cases item <;> rfl

theorem find_isSome : (d.find k).isSome ↔ k ∈ d.keys := by
  induction d using entries_induction with
  | empty => simp [find, keys]
  | entry key item rest ih =>
    rw [find_cons, keys_cons, List.mem_cons, ← ih]
    by_cases same : key = k
    · simp [same]
    · simp [same, Ne.symm same]

theorem mem_keys_of_find {item : V ⊕ Level K V} (found : d.find k = some item) : k ∈ d.keys :=
  find_isSome.mp (by rw [found]; rfl)

theorem ne_of_find {key : K} {item : V ⊕ Level K V} (fresh : key ∉ d.keys)
    (found : d.find k = some item) : key ≠ k := by
  rintro rfl
  exact fresh (mem_keys_of_find found)

theorem find_none : d.find k = none ↔ k ∉ d.keys := by
  rw [← find_isSome, Bool.not_eq_true, Option.isSome_eq_false_iff, Option.isNone_iff_eq_none]

theorem find_setEntry (d : Level K V) (k k' : K) (item : V ⊕ Level K V) :
    (d.setEntry k item).find k' = if k = k' then some item else d.find k' := by
  induction d using entries_induction with
  | empty => simp [setEntry]
  | entry key item' rest ih =>
    rw [setEntry_cons]
    by_cases same : key = k
    · subst same
      simp only [if_true, find_cons]
      split <;> rfl
    · rw [if_neg same, find_cons, find_cons, ih]
      by_cases here : key = k'
      · subst here
        simp [Ne.symm same]
      · simp [here]

theorem keys_setEntry (d : Level K V) (k : K) (item : V ⊕ Level K V) :
    (d.setEntry k item).keys = if k ∈ d.keys then d.keys else d.keys ++ [k] := by
  induction d using entries_induction with
  | empty => simp [setEntry, keys]
  | entry key item' rest ih =>
    rw [setEntry_cons, keys_cons]
    by_cases same : key = k
    · simp [same]
    · rw [if_neg same, keys_cons, ih]
      by_cases later : k ∈ rest.keys
      · simp [later]
      · simp [later, Ne.symm same]

theorem nodup_setEntry (distinct : d.keys.Nodup) : (d.setEntry k item).keys.Nodup := by
  rw [keys_setEntry]
  split
  · exact distinct
  · rename_i fresh
    exact List.nodup_append.mpr ⟨distinct, List.nodup_singleton k, by
      intro a member b last same
      rw [List.mem_singleton.mp last] at same
      exact fresh (same ▸ member)⟩

end Entries
theorem snoc_ne_nil (path : List K) (key : K) : path ++ [key] ≠ [] :=
  List.append_ne_nil_of_right_ne_nil _ (List.cons_ne_nil _ _)

section Below
variable [DecidableEq K] {d e : Level K V} {P : Level K V → Prop}

theorem Level.Inside.find {k : K} (inside : d.Inside P) (found : d.find k = some (.inr e)) :
    P e ∧ e.Inside P := by
  induction d with
  | empty => cases found
  | value key v rest ih =>
    rw [Level.find] at found
    split at found
    · cases found
    · exact ih inside found
  | inner key level rest _ ih =>
    rw [Level.find] at found
    split at found
    · cases found
      exact ⟨inside.1, inside.2.1⟩
    · exact ih inside.2.2 found

theorem Level.Inside.levelAt {path : List K} (here : P d) (inside : d.Inside P)
    (found : d.levelAt path = some e) : P e := by
  induction path generalizing d with
  | nil =>
    cases found
    exact here
  | cons k path ih =>
    rw [Level.levelAt] at found
    cases entry : d.find k with
    | none =>
      rw [entry] at found
      cases found
    | some item =>
      rw [entry] at found
      cases item with
      | inl v => cases found
      | inr level =>
        obtain ⟨holds, below⟩ := inside.find entry
        exact ih holds below found

end Below

section Everywhere
variable {P Q : Level K V → Prop} {d e : Level K V}

theorem Level.Inside.both (first : d.Inside P) (second : d.Inside Q) :
    d.Inside fun e => P e ∧ Q e := by
  induction d with
  | empty => trivial
  | value key v rest ih => exact ih first second
  | inner key level rest ihLevel ih =>
    exact ⟨⟨first.1, second.1⟩, ihLevel first.2.1 second.2.1, ih first.2.2 second.2.2⟩

theorem Level.Inside.imp (inside : d.Inside P) (gives : ∀ e, P e → Q e) : d.Inside Q := by
  induction d with
  | empty => trivial
  | value key v rest ih => exact ih inside
  | inner key level rest ihLevel ih =>
    exact ⟨gives level inside.1, ihLevel inside.2.1, ih inside.2.2⟩

theorem Level.Inside.arranged (same : ∀ {d e}, Arranged d e → P d → P e)
    (arranged : Arranged d e) (inside : d.Inside P) : e.Inside P := by
  induction arranged with
  | refl d => exact inside
  | value key v _ ih => exact ih inside
  | inner key level _ ihLevel ih =>
    exact ⟨same level inside.1, ihLevel inside.2.1, ih inside.2.2⟩
  | swap j k item item' d =>
    cases item with
    | inl v => cases item' <;> exact inside
    | inr level =>
      cases item' with
      | inl v => exact inside
      | inr level' =>
        obtain ⟨first, inFirst, second, inSecond, rest⟩ := inside
        exact ⟨second, inSecond, first, inFirst, rest⟩
  | trans _ _ first second => exact second (first inside)

end Everywhere

section Paths
variable [DecidableEq K] {d : Level K V} {k : K}

/-- No value stands on the way. -/
def Open : Level K V → List K → Prop
  | _, [] => True
  | d, k :: path => (∀ v, d.find k ≠ some (.inl v)) ∧ Open (d.child k) path

theorem atPath_one (d : Level K V) (k : K) (v : V) :
    d.atPath [k] = some v ↔ d.find k = some (.inl v) := by
  rw [atPath]
  cases d.find k with
  | none => simp
  | some item =>
    cases item with
    | inl w => simp
    | inr level => simp [atPath]

theorem atPath_empty (path : List K) : (Level.empty : Level K V).atPath path = none := by
  cases path <;> rfl

theorem atPath_child {path : List K} (long : path ≠ []) :
    d.atPath (k :: path) = (d.child k).atPath path := by
  rw [atPath, child]
  cases d.find k with
  | none => exact (atPath_empty path).symm
  | some item =>
    cases item with
    | inl v => simp [long, atPath_empty]
    | inr level => rfl

theorem put_one (d : Level K V) (k : K) (v : V) : d.put [k] v = d.setEntry k (.inl v) := by
  rw [put, if_pos rfl]

theorem put_child {path : List K} (long : path ≠ []) (noValue : ∀ v, d.find k ≠ some (.inl v))
    (v : V) : d.put (k :: path) v = d.setEntry k (.inr ((d.child k).put path v)) := by
  rw [put, if_neg long, child]
  cases found : d.find k with
  | none => rfl
  | some item =>
    cases item with
    | inl w => exact absurd found (noValue w)
    | inr level => rfl

@[simp] theorem child_setEntry (d : Level K V) (k : K) (level : Level K V) :
    (d.setEntry k (.inr level)).child k = level := by
  simp [child, find_setEntry]

theorem child_setEntry_ne {j : K} (differ : j ≠ k) (item : V ⊕ Level K V) :
    (d.setEntry j item).child k = d.child k := by
  simp [child, find_setEntry, differ]

@[simp] theorem setEntry_twice (d : Level K V) (k : K) (item item' : V ⊕ Level K V) :
    (d.setEntry k item).setEntry k item' = d.setEntry k item' := by
  induction d using entries_induction with
  | empty => simp [setEntry]
  | entry key first rest ih =>
    rw [setEntry_cons, setEntry_cons]
    split
    · simp
    · rename_i other
      rw [setEntry_cons, if_neg other, ih]

theorem setEntry_open (d : Level K V) (k : K) (level : Level K V) (v : V) :
    (d.setEntry k (.inr level)).find k ≠ some (.inl v) := by
  simp [find_setEntry]

theorem put_twice {path : List K} (clear : Open d path) (key : K) (v w : V) :
    (d.put (path ++ [key]) v).put (path ++ [key]) w = d.put (path ++ [key]) w := by
  induction path generalizing d with
  | nil => rw [List.nil_append, put_one, put_one, put_one, setEntry_twice]
  | cons k path ih =>
    have long : path ++ [key] ≠ [] := snoc_ne_nil path key
    rw [List.cons_append, put_child long clear.1, put_child long clear.1,
      put_child long (setEntry_open d k _), child_setEntry, setEntry_twice, ih clear.2]

end Paths

section Totals
variable {weight : V → Nat}

def entryTotal (weight : V → Nat) : Option (V ⊕ Level K V) → Nat
  | none => 0
  | some (.inl v) => weight v
  | some (.inr level) => level.total weight

theorem total_cons (k : K) (item : V ⊕ Level K V) (rest : Level K V) :
    (cons k item rest).total weight = entryTotal weight (some item) + rest.total weight := by
  cases item <;> rfl

theorem total_setEntry [DecidableEq K] (weight : V → Nat) (d : Level K V) (k : K)
    (item : V ⊕ Level K V) :
    (d.setEntry k item).total weight + entryTotal weight (d.find k) =
      d.total weight + entryTotal weight (some item) := by
  induction d using entries_induction with
  | empty => simp [setEntry, total_cons, find, entryTotal, total]
  | entry key first rest ih =>
    rw [setEntry_cons, find_cons, total_cons]
    by_cases same : key = k
    · simp only [same, if_true, total_cons]
      omega
    · simp only [if_neg same, total_cons]
      omega

end Totals

section Arrangement
variable {d e : Level K V}

theorem Level.Arranged.keys_perm (arranged : Arranged d e) : d.keys.Perm e.keys := by
  induction arranged with
  | refl d => exact List.Perm.refl _
  | value key v _ ih => exact ih.cons key
  | inner key _ _ _ ih => exact ih.cons key
  | swap j k item item' d =>
    simp only [keys_cons]
    exact List.Perm.swap _ _ _
  | trans _ _ first second => exact first.trans second

theorem Level.Arranged.total_eq {weight : V → Nat} (arranged : Arranged d e) :
    d.total weight = e.total weight := by
  induction arranged with
  | refl d => rfl
  | value key v _ ih => rw [total, total, ih]
  | inner key _ _ level ih => rw [total, total, level, ih]
  | swap j k item item' d =>
    simp only [total_cons]
    omega
  | trans _ _ first second => exact first.trans second

/-- The same value, or an arrangement of the same dictionary. -/
def SameEntry : Option (V ⊕ Level K V) → Option (V ⊕ Level K V) → Prop
  | some (.inl v), some (.inl w) => v = w
  | some (.inr level), some (.inr level') => Arranged level level'
  | none, none => True
  | _, _ => False

theorem sameEntry_refl (item : Option (V ⊕ Level K V)) : SameEntry item item := by
  match item with
  | none => trivial
  | some (.inl v) => exact rfl
  | some (.inr level) => exact .refl level

theorem sameEntry_trans {a b c : Option (V ⊕ Level K V)} (first : SameEntry a b)
    (second : SameEntry b c) : SameEntry a c := by
  match a, b, c with
  | none, none, none => trivial
  | some (.inl _), some (.inl _), some (.inl _) => exact Eq.trans first second
  | some (.inr _), some (.inr _), some (.inr _) => exact Arranged.trans first second

theorem sameEntry_value {a : Option (V ⊕ Level K V)} {v : V}
    (same : SameEntry a (some (.inl v))) : a = some (.inl v) := by
  match a with
  | some (.inl w) =>
    change w = v at same
    rw [same]

theorem value_sameEntry {b : Option (V ⊕ Level K V)} {v : V}
    (same : SameEntry (some (.inl v)) b) : b = some (.inl v) := by
  match b with
  | some (.inl w) =>
    change v = w at same
    rw [same]

theorem sameEntry_inner {a : Option (V ⊕ Level K V)} {level : Level K V}
    (same : SameEntry a (some (.inr level))) : ∃ l, a = some (.inr l) ∧ Arranged l level := by
  match a with
  | some (.inr l) => exact ⟨l, rfl, same⟩

theorem sameEntry_none {a : Option (V ⊕ Level K V)} (same : SameEntry a none) : a = none := by
  match a with
  | none => rfl

theorem Level.Arranged.find_same [DecidableEq K] (arranged : Arranged d e)
    (distinct : d.keys.Nodup) (k : K) :
    SameEntry (d.find k) (e.find k) := by
  induction arranged with
  | refl d => exact sameEntry_refl _
  | value key v rest ih =>
    rw [find, find]
    split
    · exact rfl
    · exact ih (List.nodup_cons.mp distinct).2
  | inner key level rest _ ih =>
    rw [find, find]
    split
    · exact level
    · exact ih (List.nodup_cons.mp distinct).2
  | swap i j item item' d =>
    have differ : i ≠ j := by
      intro same
      simp [same] at distinct
    simp only [find_cons]
    by_cases first : i = k
    · subst first
      simp [Ne.symm differ, sameEntry_refl]
    · simp [first, sameEntry_refl]
  | trans first second ihFirst ihSecond =>
    exact sameEntry_trans (ihFirst distinct) (ihSecond (first.keys_perm.nodup_iff.mp distinct))

end Arrangement

section Rebuild
variable [DecidableEq K] {d e : Level K V} {k : K}

theorem find_last (fresh : k ∉ d.keys) (item : V ⊕ Level K V) (e : Level K V) :
    (d.append (cons k item e)).find k = some item := by
  induction d using entries_induction with
  | empty => simp
  | entry key first rest ih =>
    rw [keys_cons, List.mem_cons, not_or] at fresh
    rw [cons_append, find_cons, if_neg (Ne.symm fresh.1), ih fresh.2]

theorem setEntry_last (fresh : k ∉ d.keys) (item item' : V ⊕ Level K V) (e : Level K V) :
    (d.append (cons k item e)).setEntry k item' = d.append (cons k item' e) := by
  induction d using entries_induction with
  | empty => simp
  | entry key first rest ih =>
    rw [keys_cons, List.mem_cons, not_or] at fresh
    rw [cons_append, setEntry_cons, if_neg (Ne.symm fresh.1), ih fresh.2, cons_append]

theorem setEntry_fresh (fresh : k ∉ d.keys) (item : V ⊕ Level K V) :
    d.setEntry k item = d.append (cons k item .empty) := by
  induction d using entries_induction with
  | empty => rfl
  | entry key first rest ih =>
    rw [keys_cons, List.mem_cons, not_or] at fresh
    rw [cons_append, setEntry_cons, if_neg (Ne.symm fresh.1), ih fresh.2]

theorem put_last {path : List K} (fresh : k ∉ d.keys) (long : path ≠ []) (v : V) :
    (d.append (.inner k e .empty)).put (k :: path) v =
      d.append (.inner k (e.put path v) .empty) := by
  have found := find_last fresh (.inr e) .empty
  have stored := setEntry_last fresh (.inr e) (.inr (e.put path v)) .empty
  rw [put, if_neg long]
  simp only [cons] at found stored
  rw [found]
  exact stored

theorem put_fresh {path : List K} (fresh : k ∉ d.keys) (long : path ≠ []) (v : V) :
    d.put (k :: path) v = d.append (.inner k (Level.empty.put path v) .empty) := by
  rw [put, if_neg long, find_none.mpr fresh]
  exact setEntry_fresh fresh _

theorem putAll_last (fresh : k ∉ d.keys) (entries : List (List K × V))
    (long : ∀ entry ∈ entries, entry.1 ≠ []) :
    putAll (entries.map fun entry => (k :: entry.1, entry.2)) (d.append (.inner k e .empty)) =
      d.append (.inner k (putAll entries e) .empty) := by
  induction entries generalizing e with
  | nil => rfl
  | cons entry entries ih =>
    have first := put_last (e := e) fresh (long entry List.mem_cons_self) entry.2
    have rest := ih (e := e.put entry.1 entry.2)
      fun other member => long other (List.mem_cons_of_mem _ member)
    unfold putAll at rest ⊢
    rw [List.map_cons, List.foldl_cons, first, List.foldl_cons]
    exact rest

theorem putAll_fresh (fresh : k ∉ d.keys) {entries : List (List K × V)} (some : entries ≠ [])
    (long : ∀ entry ∈ entries, entry.1 ≠ []) :
    putAll (entries.map fun entry => (k :: entry.1, entry.2)) d =
      d.append (.inner k (putAll entries .empty) .empty) := by
  cases entries with
  | nil => exact absurd rfl some
  | cons entry entries =>
    have first := put_fresh fresh (long entry List.mem_cons_self) entry.2
    have rest := putAll_last (e := Level.empty.put entry.1 entry.2) fresh entries
      fun other member => long other (List.mem_cons_of_mem _ member)
    unfold putAll at rest ⊢
    rw [List.map_cons, List.foldl_cons, first, List.foldl_cons]
    exact rest

theorem putAll_append (xs ys : List (List K × V)) (d : Level K V) :
    putAll (xs ++ ys) d = putAll ys (putAll xs d) := List.foldl_append

/-- By induction over the entries: put one after the other behind entries with other keys, the
    values of a dictionary bring its entries with them. -/
theorem putAll_leaves (solid : e.Solid) (apart : ∀ k ∈ e.keys, k ∉ d.keys) :
    putAll e.leaves d = d.append e := by
  induction e generalizing d with
  | empty => exact (append_empty d).symm
  | value key v rest ih =>
    have fresh : key ∉ d.keys := apart key List.mem_cons_self
    have first : d.put [key] v = d.append (.value key v .empty) := by
      rw [put, if_pos rfl]
      exact setEntry_fresh fresh (.inl v)
    have others := ih solid.2 (apart_last apart solid.1 (.inl v))
    simp only [cons] at others
    unfold putAll at others ⊢
    rw [leaves, List.foldl_cons, first, others, append_assoc]
    rfl
  | inner key level rest ihLevel ih =>
    obtain ⟨alone, some, solidLevel, solidRest⟩ := solid
    have fresh : key ∉ d.keys := apart key List.mem_cons_self
    have below : putAll level.leaves .empty = level :=
      ihLevel solidLevel fun k _ member => by cases member
    have first := putAll_fresh fresh some fun entry member => leaves_path member
    have others := ih solidRest (apart_last apart alone (.inr level))
    simp only [cons] at others
    rw [leaves, putAll_append, first, below, others, append_assoc]
    rfl

theorem putAll_empty (solid : e.Solid) : putAll e.leaves .empty = e :=
  putAll_leaves solid fun k _ member => by cases member

end Rebuild
end MultiLevel
