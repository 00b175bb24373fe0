import Mathlib.Data.List.Sort
import Mathlib.Order.Basic

/- A current item and a queue of items that follow it. Each item reads a scale of its own,
   and the next one takes over once the current one reads as far as the next one's key. -/
namespace Schedules
variable {α P : Type} [LinearOrder P] {key : α → P}

/-- The items in the order in which they are taken: the lowest key first, and of items with
    one key the one that was put first. -/
structure PriorityQueue (key : α → P) where
  items : List α
  sorted : items.Pairwise (key · ≤ key ·)

namespace PriorityQueue

@[ext] theorem ext {p q : PriorityQueue key} (items : p.items = q.items) : p = q := by
  cases p
  cases q
  simpa using items

instance [DecidableEq α] : DecidableEq (PriorityQueue key) :=
  fun p q => decidable_of_iff (p.items = q.items) ⟨ext, congrArg items⟩

def empty : PriorityQueue key := ⟨[], List.Pairwise.nil⟩

def insert (key : α → P) (a : α) : List α → List α
  | [] => [a]
  | b :: bs => if key a < key b then a :: b :: bs else b :: insert key a bs

theorem length_insert (a : α) (l : List α) : (insert key a l).length = l.length + 1 := by
  induction l with
  | nil => rfl
  | cons b l ih =>
    unfold insert
    split
    · rfl
    · simp [ih]

theorem mem_insert {a b : α} {l : List α} : b ∈ insert key a l ↔ b = a ∨ b ∈ l := by
  induction l with
  | nil => simp [insert]
  | cons c l ih =>
    unfold insert
    split
    · simp
    · simp [ih, or_left_comm]

theorem insert_perm (a : α) (l : List α) : (insert key a l).Perm (l ++ [a]) := by
  induction l with
  | nil => exact .refl _
  | cons b l ih =>
    unfold insert
    split
    · exact (List.perm_append_comm : ([a] ++ b :: l).Perm _)
    · exact ih.cons b

theorem insert_sorted (a : α) {l : List α} (sorted : l.Pairwise (key · ≤ key ·)) :
    (insert key a l).Pairwise (key · ≤ key ·) := by
  induction l with
  | nil => exact List.pairwise_singleton _ _
  | cons b l ih =>
    obtain ⟨least, rest⟩ := List.pairwise_cons.mp sorted
    unfold insert
    split
    · rename_i before
      refine List.pairwise_cons.mpr ⟨?_, sorted⟩
      intro c member
      rcases List.mem_cons.mp member with rfl | later
      · exact before.le
      · exact before.le.trans (least c later)
    · rename_i after
      refine List.pairwise_cons.mpr ⟨?_, ih rest⟩
      intro c member
      rcases mem_insert.mp member with rfl | later
      · exact not_lt.mp after
      · exact least c later

def put (q : PriorityQueue key) (a : α) : PriorityQueue key :=
  ⟨insert key a q.items, insert_sorted a q.sorted⟩

def topPriority (q : PriorityQueue key) : Option P := q.items.head?.map key

def pop (q : PriorityQueue key) : Option (α × PriorityQueue key) :=
  match q with
  | ⟨[], _⟩ => none
  | ⟨a :: rest, sorted⟩ => some (a, ⟨rest, (List.pairwise_cons.mp sorted).2⟩)

theorem insert_first {a : α} {l : List α} (first : ∀ b ∈ l, key a < key b) :
    insert key a l = a :: l := by
  cases l with
  | nil => rfl
  | cons b l => exact if_pos (first b List.mem_cons_self)

end PriorityQueue

structure Schedule (key : α → P) where
  current : α
  queue : PriorityQueue key

namespace Schedule
open PriorityQueue

@[ext] theorem ext {s t : Schedule key} (current : s.current = t.current)
    (items : s.queue.items = t.queue.items) : s = t := by
  cases s
  cases t
  simp only [mk.injEq]
  exact ⟨current, PriorityQueue.ext items⟩

instance [DecidableEq α] : DecidableEq (Schedule key) :=
  fun s t => decidable_of_iff (s.current = t.current ∧ s.queue = t.queue)
    ⟨fun same => ext same.1 (congrArg items same.2), fun same => same ▸ ⟨rfl, rfl⟩⟩

/-- Takes items off the queue while the first one is due by the reading of the current one. -/
def loop (key : α → P) (read : α → P) : α → List α → α × List α
  | current, [] => (current, [])
  | current, next :: rest =>
    if key next ≤ read current then loop key read next rest else (current, next :: rest)

/-- The items that the loop makes current, in turn. -/
def takenFrom (key : α → P) (read : α → P) : α → List α → List α
  | _, [] => []
  | current, next :: rest =>
    if key next ≤ read current then next :: takenFrom key read next rest else []

theorem loop_due {read : α → P} {current next : α} {rest : List α}
    (due : key next ≤ read current) :
    loop key read current (next :: rest) = loop key read next rest := if_pos due

theorem loop_later {read : α → P} {current next : α} {rest : List α}
    (later : read current < key next) :
    loop key read current (next :: rest) = (current, next :: rest) := if_neg (not_le.mpr later)

theorem taken_append (read : α → P) (current : α) (l : List α) :
    takenFrom key read current l ++ (loop key read current l).2 = l := by
  induction l generalizing current with
  | nil => rfl
  | cons next rest ih =>
    by_cases due : key next ≤ read current
    · simp [takenFrom, loop, due, ih next]
    · simp [takenFrom, loop, due]

theorem loop_current (read : α → P) (current : α) (l : List α) :
    (loop key read current l).1 = (takenFrom key read current l).getLastD current := by
  induction l generalizing current with
  | nil => rfl
  | cons next rest ih =>
    by_cases due : key next ≤ read current
    · rw [takenFrom, if_pos due, loop_due due, ih next, List.getLastD_cons]
    · simp [takenFrom, loop, due]

theorem loop_suffix (read : α → P) (current : α) (l : List α) :
    (loop key read current l).1 :: (loop key read current l).2 <:+ current :: l := by
  induction l generalizing current with
  | nil => exact List.suffix_refl _
  | cons next rest ih =>
    unfold loop
    split
    · exact (ih next).trans (List.suffix_cons current _)
    · exact List.suffix_refl _

theorem loop_sorted (read : α → P) (current : α) {l : List α}
    (sorted : l.Pairwise (key · ≤ key ·)) :
    (loop key read current l).2.Pairwise (key · ≤ key ·) := by
  rw [← taken_append read current l] at sorted
  exact (List.pairwise_append.mp sorted).2.1

def line (s : Schedule key) : List α := s.current :: s.queue.items

def promote (read : α → P) (s : Schedule key) : Schedule key where
  current := (loop key read s.current s.queue.items).1
  queue := ⟨(loop key read s.current s.queue.items).2, loop_sorted read s.current s.queue.sorted⟩

def taken (read : α → P) (s : Schedule key) : List α :=
  takenFrom key read s.current s.queue.items

def put (s : Schedule key) (a : α) : Schedule key := { s with queue := s.queue.put a }

def Settled (read : α → P) (s : Schedule key) : Prop :=
  ∀ a ∈ s.queue.items, read s.current < key a

theorem promote_suffix (read : α → P) (s : Schedule key) : (s.promote read).line <:+ s.line :=
  loop_suffix read s.current s.queue.items

theorem promote_line (read : α → P) (s : Schedule key) :
    s.line = s.current :: (s.taken read ++ (s.promote read).queue.items) :=
  congrArg (s.current :: ·) (taken_append read s.current s.queue.items).symm

instance (read : α → P) (s : Schedule key) : Decidable (s.Settled read) :=
  inferInstanceAs (Decidable (∀ a ∈ s.queue.items, read s.current < key a))

theorem taken_sorted (read : α → P) (s : Schedule key) :
    (s.taken read).Pairwise (key · ≤ key ·) := by
  have sorted := s.queue.sorted
  rw [← taken_append read s.current s.queue.items] at sorted
  exact (List.pairwise_append.mp sorted).1

theorem promote_due (read : α → P) {current next : α} {rest : List α}
    (sorted : (next :: rest).Pairwise (key · ≤ key ·)) (due : key next ≤ read current) :
    promote read ⟨current, ⟨next :: rest, sorted⟩⟩ =
      promote read ⟨next, ⟨rest, (List.pairwise_cons.mp sorted).2⟩⟩ := by
  have same : loop key read current (next :: rest) = loop key read next rest := loop_due due
  exact ext (congrArg Prod.fst same) (congrArg Prod.snd same)

theorem promote_later (read : α → P) {current next : α} {rest : List α}
    (sorted : (next :: rest).Pairwise (key · ≤ key ·)) (later : read current < key next) :
    promote read ⟨current, ⟨next :: rest, sorted⟩⟩ = ⟨current, ⟨next :: rest, sorted⟩⟩ := by
  have same : loop key read current (next :: rest) = (current, next :: rest) := loop_later later
  exact ext (congrArg Prod.fst same) (congrArg Prod.snd same)

theorem promote_length_le (read : α → P) (s : Schedule key) :
    (s.promote read).queue.items.length ≤ s.queue.items.length := by
  have whole : (takenFrom key read s.current s.queue.items ++ _).length = _ :=
    congrArg List.length (taken_append read s.current s.queue.items)
  rw [List.length_append] at whole
  change (loop key read s.current s.queue.items).2.length ≤ _
  omega

theorem promote_current {read : α → P} {s : Schedule key}
    (full : (s.promote read).queue.items.length = s.queue.items.length) :
    (s.promote read).current = s.current := by
  have whole : (takenFrom key read s.current s.queue.items ++ _).length = _ :=
    congrArg List.length (taken_append read s.current s.queue.items)
  rw [List.length_append] at whole
  change (loop key read s.current s.queue.items).2.length = _ at full
  have none : takenFrom key read s.current s.queue.items = [] :=
    List.eq_nil_of_length_eq_zero (by omega)
  change (loop key read s.current s.queue.items).1 = _
  rw [loop_current, none]
  rfl

theorem promote_settled (read : α → P) (s : Schedule key) : (s.promote read).Settled read := by
  obtain ⟨current, ⟨items, sorted⟩⟩ := s
  change ∀ a ∈ (loop key read current items).2, read (loop key read current items).1 < key a
  induction items generalizing current with
  | nil => simp [loop]
  | cons next rest ih =>
    obtain ⟨least, sorted⟩ := List.pairwise_cons.mp sorted
    by_cases due : key next ≤ read current
    · rw [loop_due due]
      exact ih next sorted
    · have later := not_le.mp due
      rw [loop_later later]
      intro a waiting
      rcases List.mem_cons.mp waiting with rfl | behind
      · exact later
      · exact later.trans_le (least a behind)

theorem promote_of_settled {read : α → P} {s : Schedule key} (settled : s.Settled read) :
    s.promote read = s := by
  obtain ⟨current, ⟨items, sorted⟩⟩ := s
  cases items with
  | nil => rfl
  | cons next rest =>
    have later : read current < key next := settled next List.mem_cons_self
    have stays : loop key read current (next :: rest) = (current, next :: rest) := loop_later later
    exact ext (congrArg Prod.fst stays) (congrArg Prod.snd stays)

/-- To promote now and once more later is to promote later, if no reading goes back. -/
theorem promote_promote {read read' : α → P} {s : Schedule key}
    (forward : ∀ a ∈ s.line, read a ≤ read' a) :
    (s.promote read).promote read' = s.promote read' := by
  obtain ⟨current, ⟨items, sorted⟩⟩ := s
  suffices same : loop key read' (loop key read current items).1 (loop key read current items).2 =
      loop key read' current items from ext (congrArg Prod.fst same) (congrArg Prod.snd same)
  induction items generalizing current with
  | nil => rfl
  | cons next rest ih =>
    by_cases due : key next ≤ read current
    · rw [loop_due due, loop_due (due.trans (forward current List.mem_cons_self))]
      exact ih next (List.pairwise_cons.mp sorted).2 fun a member =>
        forward a (List.mem_cons_of_mem current member)
    · rw [loop_later (not_le.mp due)]

theorem key_le_loop {read : α → P} {next : α} {rest : List α}
    (sorted : (next :: rest).Pairwise (key · ≤ key ·)) :
    key next ≤ key (loop key read next rest).1 := by
  have stays : (loop key read next rest).1 ∈ next :: rest :=
    (loop_suffix read next rest).subset List.mem_cons_self
  rcases List.mem_cons.mp stays with same | later
  · rw [same]
  · exact (List.pairwise_cons.mp sorted).1 _ later

/-- An item that belongs behind the one that is current after a promotion may as well have
    been put before it. -/
theorem promote_put {read read' : α → P} {s : Schedule key} {a : α}
    (forward : ∀ b ∈ s.line, read b ≤ read' b)
    (behind : key (s.promote read).current ≤ key a) :
    ((s.promote read).put a).promote read' = (s.put a).promote read' := by
  obtain ⟨current, ⟨items, sorted⟩⟩ := s
  change key (loop key read current items).1 ≤ key a at behind
  suffices same : loop key read' (loop key read current items).1
      (PriorityQueue.insert key a (loop key read current items).2) =
        loop key read' current (PriorityQueue.insert key a items) from
    ext (congrArg Prod.fst same) (congrArg Prod.snd same)
  induction items generalizing current with
  | nil => rfl
  | cons next rest ih =>
    by_cases due : key next ≤ read current
    · rw [loop_due due] at behind ⊢
      have after : ¬ key a < key next := not_lt.mpr ((key_le_loop sorted).trans behind)
      rw [PriorityQueue.insert, if_neg after,
        loop_due (due.trans (forward current List.mem_cons_self))]
      exact ih next (List.pairwise_cons.mp sorted).2
        (fun b member => forward b (List.mem_cons_of_mem current member)) behind
    · rw [loop_later (not_le.mp due)]

theorem promote_put_due {read : α → P} {s : Schedule key} {a : α} (settled : s.Settled read)
    (due : key a ≤ read s.current) :
    (s.put a).promote read = { s with current := a }.promote read := by
  have first : PriorityQueue.insert key a s.queue.items = a :: s.queue.items :=
    PriorityQueue.insert_first fun b waiting => due.trans_lt (settled b waiting)
  have same : loop key read s.current (PriorityQueue.insert key a s.queue.items) =
      loop key read a s.queue.items := by rw [first, loop_due due]
  exact ext (congrArg Prod.fst same) (congrArg Prod.snd same)

theorem taken_le {bound : P} (current : α) (l : List α) :
    ∀ a ∈ takenFrom key (fun _ => bound) current l, key a ≤ bound := by
  induction l generalizing current with
  | nil =>
    intro a mem
    cases mem
  | cons next rest ih =>
    intro a mem
    unfold takenFrom at mem
    split at mem
    · rename_i due
      rcases List.mem_cons.mp mem with rfl | later
      · exact due
      · exact ih next a later
    · cases mem

theorem promote_fixed (bound : P) (s : Schedule key) :
    (s.promote fun _ => bound).queue.items = s.queue.items.filter (bound < key ·) := by
  have none : (s.taken fun _ => bound).filter (bound < key ·) = [] := by
    apply List.filter_eq_nil_iff.mpr
    intro a mem
    simpa using taken_le s.current s.queue.items a mem
  have all : (s.promote fun _ => bound).queue.items.filter (bound < key ·) =
      (s.promote fun _ => bound).queue.items := by
    apply List.filter_eq_self.mpr
    intro a waiting
    simpa using promote_settled (fun _ => bound) s a waiting
  have whole := (List.cons.inj (promote_line (fun _ => bound) s)).2
  rw [whole, List.filter_append, none, all, List.nil_append]

/-- No item waits that belongs before the current one. -/
def Ordered (s : Schedule key) : Prop := s.line.Pairwise (key · ≤ key ·)

theorem promote_ordered (read : α → P) {s : Schedule key} (ordered : s.Ordered) :
    (s.promote read).Ordered :=
  ordered.sublist (promote_suffix read s).sublist

theorem current_le_promote (read : α → P) {s : Schedule key} (ordered : s.Ordered) :
    key s.current ≤ key (s.promote read).current := by
  have member : (s.promote read).current ∈ s.line :=
    (promote_suffix read s).subset List.mem_cons_self
  rcases List.mem_cons.mp member with same | later
  · rw [same]
  · exact (List.pairwise_cons.mp ordered).1 _ later

theorem promote_current_mem (read : α → P) (s : Schedule key) :
    (s.promote read).current ∈ s.current :: s.taken read := by
  change (loop key read s.current s.queue.items).1 ∈ _
  rw [loop_current]
  exact List.getLastD_mem_cons

theorem le_promote_current (read : α → P) {s : Schedule key} (ordered : s.Ordered) :
    ∀ a ∈ s.current :: s.taken read, key a ≤ key (s.promote read).current := by
  obtain ⟨current, ⟨items, sorted⟩⟩ := s
  change ∀ a ∈ current :: takenFrom key read current items,
    key a ≤ key (loop key read current items).1
  change (current :: items).Pairwise (key · ≤ key ·) at ordered
  induction items generalizing current with
  | nil =>
    intro a mem
    rw [List.mem_singleton.mp mem]
    exact le_refl _
  | cons next rest ih =>
    obtain ⟨least, sorted⟩ := List.pairwise_cons.mp ordered
    by_cases due : key next ≤ read current
    · rw [loop_due due, takenFrom, if_pos due]
      have later := ih next (List.pairwise_cons.mp sorted).2 sorted
      intro a mem
      rcases List.mem_cons.mp mem with rfl | taken
      · exact (least next List.mem_cons_self).trans (later next List.mem_cons_self)
      · exact later a taken
    · rw [loop_later (not_le.mp due), takenFrom, if_neg due]
      intro a mem
      rw [List.mem_singleton.mp mem]

theorem put_ordered {s : Schedule key} {a : α} (ordered : s.Ordered)
    (after : key s.current ≤ key a) : (s.put a).Ordered := by
  obtain ⟨least, sorted⟩ := List.pairwise_cons.mp ordered
  refine List.pairwise_cons.mpr ⟨?_, (s.queue.put a).sorted⟩
  intro b waiting
  rcases PriorityQueue.mem_insert.mp waiting with rfl | before
  · exact after
  · exact least b before

theorem replace_ordered {s : Schedule key} {a : α} (ordered : s.Ordered)
    (before : key a ≤ key s.current) : Ordered { s with current := a } := by
  obtain ⟨least, sorted⟩ := List.pairwise_cons.mp ordered
  exact List.pairwise_cons.mpr ⟨fun b waiting => before.trans (least b waiting), sorted⟩

theorem promote_unchanged {read : α → P} {s : Schedule key}
    (fresh : (s.promote read).current ∉ s.queue.items) : s.promote read = s := by
  rcases List.suffix_cons_iff.mp (promote_suffix read s) with same | shorter
  · exact ext (List.cons.inj same).1 (List.cons.inj same).2
  · exact (fresh (shorter.subset List.mem_cons_self)).elim

theorem put_settled {read : α → P} {s : Schedule key} {a : α} (settled : s.Settled read)
    (later : read s.current < key a) : (s.put a).Settled read := by
  intro b waiting
  rcases PriorityQueue.mem_insert.mp waiting with rfl | before
  · exact later
  · exact settled b before

theorem ne_replace {read : α → P} {s : Schedule key} {a : α} (earlier : key a < key s.current) :
    s ≠ promote read { s with current := a } := by
  intro equal
  have stays := promote_current (congrArg (·.queue.items.length) equal).symm
  have current : s.current = a := (congrArg Schedule.current equal).trans stays
  rw [current] at earlier
  exact lt_irrefl _ earlier

theorem put_ne_replace {read : α → P} {s : Schedule key} {a : α} :
    s.put a ≠ promote read { s with current := a } := by
  intro equal
  have shorter : (promote read { s with current := a }).queue.items.length ≤
    s.queue.items.length := promote_length_le read { s with current := a }
  have longer : (s.put a).queue.items.length = s.queue.items.length + 1 :=
    PriorityQueue.length_insert a s.queue.items
  rw [equal] at longer
  omega

/-- Items that are due, taken one by one, lead from one current item and queue to another. -/
inductive TakenTo (key : α → P) (read : α → P) : α → List α → α → List α → Prop
  | stays (current : α) (l : List α) : TakenTo key read current l current l
  | next {current next last : α} {rest left : List α} (due : key next ≤ read current)
      (on : TakenTo key read next rest last left) :
      TakenTo key read current (next :: rest) last left

/-- Some of the promotions that a reading allows lead from `s` to `t`. -/
def PartWay (read : α → P) (s t : Schedule key) : Prop :=
  TakenTo key read s.current s.queue.items t.current t.queue.items

section PartWay
variable {read read' : α → P} {s t : Schedule key} {a : α}

theorem partWay_refl (read : α → P) (s : Schedule key) : PartWay read s s := .stays _ _

theorem takenTo_loop {current last : α} {l left : List α}
    (way : TakenTo key read current l last left) :
    loop key read current l = loop key read last left := by
  induction way with
  | stays => rfl
  | next due _ ih => rw [loop_due due, ih]

theorem partWay_promote (way : PartWay read s t) : t.promote read = s.promote read := by
  have same := takenTo_loop way
  exact ext (congrArg Prod.fst same).symm (congrArg Prod.snd same).symm

theorem takenTo_suffix {current last : α} {l left : List α}
    (way : TakenTo key read current l last left) : last :: left <:+ current :: l := by
  induction way with
  | stays => exact List.suffix_refl _
  | next _ _ ih => exact ih.trans (List.suffix_cons _ _)

theorem takenTo_mono {current last : α} {l left : List α}
    (way : TakenTo key read current l last left)
    (forward : ∀ b ∈ current :: l, read b ≤ read' b) : TakenTo key read' current l last left := by
  induction way with
  | stays => exact .stays _ _
  | next due _ ih =>
    exact .next (due.trans (forward _ List.mem_cons_self))
      (ih fun b member => forward b (List.mem_cons_of_mem _ member))

theorem partWay_mono (forward : ∀ b ∈ s.line, read b ≤ read' b) (way : PartWay read s t) :
    PartWay read' s t := takenTo_mono way forward

theorem takenTo_key_le {next last : α} {rest left : List α}
    (way : TakenTo key read next rest last left)
    (sorted : (next :: rest).Pairwise (key · ≤ key ·)) : key next ≤ key last := by
  rcases List.mem_cons.mp ((takenTo_suffix way).subset List.mem_cons_self) with same | behind
  · rw [same]
  · exact (List.pairwise_cons.mp sorted).1 last behind

theorem takenTo_insert {current last : α} {l left : List α}
    (way : TakenTo key read current l last left) (sorted : l.Pairwise (key · ≤ key ·))
    (behind : key last ≤ key a) : TakenTo key read current (PriorityQueue.insert key a l) last
      (PriorityQueue.insert key a left) := by
  induction way with
  | stays => exact .stays _ _
  | next due on ih =>
    have passed := (takenTo_key_le on sorted).trans behind
    rw [PriorityQueue.insert, if_neg (not_lt.mpr passed)]
    exact .next due (ih (List.pairwise_cons.mp sorted).2 behind)

theorem partWay_put (way : PartWay read s t) (behind : key t.current ≤ key a) :
    PartWay read (s.put a) (t.put a) := takenTo_insert way s.queue.sorted behind

theorem takenTo_trans {current mid last : α} {l l' left : List α}
    (way : TakenTo key read current l mid l') (on : TakenTo key read mid l' last left) :
    TakenTo key read current l last left := by
  induction way with
  | stays => exact on
  | next due _ ih => exact .next due (ih on)

theorem partWay_trans {u : Schedule key} (way : PartWay read s t) (on : PartWay read t u) :
    PartWay read s u := takenTo_trans way on

/-- A promotion by another reading that takes none that is not due. -/
theorem partWay_taken (early : s.taken read' <+: s.taken read) :
    PartWay read s (s.promote read') := by
  obtain ⟨current, ⟨items, sorted⟩⟩ := s
  change TakenTo key read current items (loop key read' current items).1
    (loop key read' current items).2
  change takenFrom key read' current items <+: takenFrom key read current items at early
  clear sorted
  induction items generalizing current with
  | nil => exact .stays _ _
  | cons next rest ih =>
    by_cases due : key next ≤ read' current
    · rw [takenFrom, if_pos due] at early
      by_cases due' : key next ≤ read current
      · rw [takenFrom, if_pos due', List.cons_prefix_cons] at early
        rw [loop_due due]
        exact .next due' (ih next early.2)
      · rw [takenFrom, if_neg due'] at early
        cases List.prefix_nil.mp early
    · rw [loop_later (not_le.mp due)]
      exact .stays _ _

theorem partWay_replace (due : key a ≤ read s.current)
    (first : ∀ b ∈ s.queue.items, key a < key b) :
    PartWay read (s.put a) { s with current := a } := by
  have head : (s.put a).queue.items = a :: s.queue.items := PriorityQueue.insert_first first
  unfold PartWay
  rw [head]
  exact .next due (.stays _ _)

end PartWay

end Schedule
end Schedules
