import SCLOrkTools.Clock.Client

/- States that reach a member while its beats stand still. Whatever the order, the latest of
   those that are due becomes current and the others wait. -/
namespace SCLOrkClock
open Schedules

structure TakenIn (b : ℚ) (start : SCLOrkClockState) (states : List SCLOrkClockState)
    (c : Clock) : Prop where
  member : c.current ∈ start :: states
  origin : start.applyAtBeat ≤ c.current.applyAtBeat
  begun : c.current.applyAtBeat ≤ b
  latest : ∀ s ∈ start :: states, s.applyAtBeat ≤ b → s.applyAtBeat ≤ c.current.applyAtBeat
  waiting : c.queue.items.Perm (states.filter (b < ·.applyAtBeat))

theorem takenIn_start {b : ℚ} {c : Clock} (begun : c.current.applyAtBeat ≤ b)
    (empty : c.queue.items = []) : TakenIn b c.current [] c where
  member := List.mem_cons_self
  origin := le_refl _
  begun := begun
  latest := fun s mem _ => by rw [List.mem_singleton.mp mem]
  waiting := by rw [empty]; exact .refl _

theorem takenIn_prUpdate {b : ℚ} {start : SCLOrkClockState} {states : List SCLOrkClockState}
    {c : Clock} (taken : TakenIn b start states c) (s : SCLOrkClockState) :
    TakenIn b start (states ++ [s]) (c.prUpdate s fun _ => b) := by
  have begun := taken.begun
  have widen {t : SCLOrkClockState} (mem : t ∈ start :: states) : t ∈ start :: (states ++ [s]) := by
    rw [← List.cons_append]
    exact List.mem_append_left _ mem
  have split {t : SCLOrkClockState} (mem : t ∈ start :: (states ++ [s])) :
      t ∈ start :: states ∨ t = s := by
    rw [← List.cons_append] at mem
    exact (List.mem_append.mp mem).imp_right List.mem_singleton.mp
  by_cases kept : c.current.applyAtBeat ≤ s.applyAtBeat
  · by_cases due : s.applyAtBeat ≤ b
    · have clobbers : c.prUpdate s (fun _ => b) = { c with current := s } := by
        rw [Clock.prUpdate, if_pos kept, if_pos due]
      rw [clobbers]
      refine ⟨List.mem_cons_of_mem _ (List.mem_append_right _ List.mem_cons_self),
        taken.origin.trans kept, due, ?_, ?_⟩
      · intro t mem reached
        rcases split mem with old | rfl
        · exact (taken.latest t old reached).trans kept
        · exact le_refl _
      · rw [List.filter_append, List.filter_cons_of_neg (by simpa using due), List.filter_nil,
          List.append_nil]
        exact taken.waiting
    · have waits : c.prUpdate s (fun _ => b) = c.put s := by
        rw [Clock.prUpdate, if_pos kept, if_neg due]
      rw [waits]
      refine ⟨widen taken.member, taken.origin, begun, ?_, ?_⟩
      · intro t mem reached
        rcases split mem with old | rfl
        · exact taken.latest t old reached
        · exact absurd reached due
      · rw [List.filter_append, List.filter_cons_of_pos (by simpa using due), List.filter_nil]
        exact (PriorityQueue.insert_perm s c.queue.items).trans (taken.waiting.append_right [s])
  · have earlier := not_le.mp kept
    rw [prUpdate_dropped earlier]
    refine ⟨widen taken.member, taken.origin, begun, ?_, ?_⟩
    · intro t mem reached
      rcases split mem with old | rfl
      · exact taken.latest t old reached
      · exact earlier.le
    · rw [List.filter_append, List.filter_cons_of_neg (by simpa using earlier.le.trans begun),
        List.filter_nil, List.append_nil]
      exact taken.waiting

def Clock.takeIn (c : Clock) (b : ℚ) (states : List SCLOrkClockState) : Clock :=
  states.foldl (fun c s => c.prUpdate s fun _ => b) c

theorem takenIn_all {b : ℚ} {start : SCLOrkClockState} {past states : List SCLOrkClockState}
    {c : Clock} (taken : TakenIn b start past c) :
    TakenIn b start (past ++ states) (c.takeIn b states) := by
  induction states generalizing past c with
  | nil =>
    rw [List.append_nil]
    exact taken
  | cons s states ih =>
    have next := ih (takenIn_prUpdate taken s)
    rw [List.append_assoc] at next
    exact next

/-- Among the states that are due at the beat, none before the first one, this is the last. -/
def Latest (beat : ℚ) (start : SCLOrkClockState) (states : List SCLOrkClockState)
    (s : SCLOrkClockState) : Prop :=
  (s ∈ start :: states ∧ start.applyAtBeat ≤ s.applyAtBeat ∧ s.applyAtBeat ≤ beat) ∧
    ∀ t ∈ start :: states, start.applyAtBeat ≤ t.applyAtBeat → t.applyAtBeat ≤ beat →
      t.applyAtBeat ≤ s.applyAtBeat

theorem takenIn_ordered {b : ℚ} {start : SCLOrkClockState} {states : List SCLOrkClockState}
    {c : Clock} (taken : TakenIn b start states c) : c.Ordered := by
  refine List.pairwise_cons.mpr ⟨?_, c.queue.sorted⟩
  intro s waiting
  have listed := taken.waiting.mem_iff.mp waiting
  have later : b < s.applyAtBeat := by simpa using (List.mem_filter.mp listed).2
  exact taken.begun.trans later.le

theorem takenIn_advance {b b' : ℚ} (later : b ≤ b') {start : SCLOrkClockState}
    {states : List SCLOrkClockState} {c : Clock} (taken : TakenIn b start states c) :
    TakenIn b' start states (c.prAdvanceState fun _ => b') := by
  have ordered := takenIn_ordered taken
  have all : c.queue.items = c.taken (fun _ => b') ++ (c.promote fun _ => b').queue.items :=
    (List.cons.inj (Schedule.promote_line (fun _ => b') c)).2
  have inside {s : SCLOrkClockState} (mem : s ∈ c.current :: c.taken fun _ => b') :
      s ∈ start :: states ∧ s.applyAtBeat ≤ b' := by
    rcases List.mem_cons.mp mem with rfl | due
    · exact ⟨taken.member, taken.begun.trans later⟩
    · have waited : s ∈ c.queue.items := by
        rw [all]
        exact List.mem_append_left _ due
      have listed := (List.mem_filter.mp (taken.waiting.mem_iff.mp waited)).1
      exact ⟨List.mem_cons_of_mem _ listed, Schedule.taken_le c.current c.queue.items s due⟩
  have current := inside (Schedule.promote_current_mem (fun _ => b') c)
  have highest := Schedule.le_promote_current (fun _ => b') ordered
  have origin := taken.origin.trans (highest c.current List.mem_cons_self)
  refine ⟨current.1, origin, current.2, ?_, ?_⟩
  · intro s mem reached
    by_cases old : s.applyAtBeat ≤ b
    · exact (taken.latest s mem old).trans (highest c.current List.mem_cons_self)
    · rcases List.mem_cons.mp mem with rfl | listed
      · exact origin
      · have waited : s ∈ c.queue.items :=
          taken.waiting.mem_iff.mpr (List.mem_filter.mpr ⟨listed, by simpa using old⟩)
        rw [all] at waited
        rcases List.mem_append.mp waited with due | waits
        · exact highest s (List.mem_cons_of_mem _ due)
        · have beyond := Schedule.promote_settled (fun _ => b') c s waits
          exact absurd reached (not_le.mpr beyond)
  · change (c.promote fun _ => b').queue.items.Perm _
    rw [Schedule.promote_fixed]
    apply (taken.waiting.filter _).trans
    rw [List.filter_filter]
    apply List.Perm.of_eq
    apply List.filter_congr
    intro s _
    simpa using fun waits => later.trans_lt waits

theorem latest_unique {beat : ℚ} {start : SCLOrkClockState} {states : List SCLOrkClockState}
    (distinct : ((start :: states).map (·.applyAtBeat)).Nodup) {s t : SCLOrkClockState}
    (one : Latest beat start states s) (other : Latest beat start states t) : s = t := by
  obtain ⟨⟨mem, origin, reached⟩, last⟩ := one
  obtain ⟨⟨mem', origin', reached'⟩, last'⟩ := other
  have same := le_antisymm (last' s mem origin reached) (last t mem' origin' reached')
  exact List.inj_on_of_nodup_map distinct mem mem' same

section Settle
variable {c : Clock} {b b' : ℚ} {states order : List SCLOrkClockState}

theorem takeIn_advance (begun : c.current.applyAtBeat ≤ b) (empty : c.queue.items = [])
    (later : b ≤ b') (states : List SCLOrkClockState) :
    TakenIn b' c.current states ((c.takeIn b states).prAdvanceState fun _ => b') :=
  takenIn_advance later (takenIn_all (takenIn_start begun empty))

theorem takenIn_latest {d : Clock} (taken : TakenIn b' c.current order d)
    (any : order.Perm states) : Latest b' c.current states d.current := by
  have same {s : SCLOrkClockState} : s ∈ c.current :: order ↔ s ∈ c.current :: states :=
    (any.cons c.current).mem_iff
  refine ⟨⟨same.mp taken.member, taken.origin, taken.begun⟩, ?_⟩
  intro s mem _ reached
  exact taken.latest s (same.mpr mem) reached

/-- States taken in while the beats stand still, in any order, leave the same clock: the latest
    that is due is current and the ones for later beats wait. -/
theorem updates_any_order (begun : c.current.applyAtBeat ≤ b) (empty : c.queue.items = [])
    (distinct : ((c.current :: states).map (·.applyAtBeat)).Nodup) (later : b ≤ b')
    (any : order.Perm states) :
    Latest b' c.current states ((c.takeIn b order).prAdvanceState fun _ => b').current ∧
      ((c.takeIn b order).prAdvanceState fun _ => b').queue.items.Perm
        (states.filter (b' < ·.applyAtBeat)) ∧
      (c.takeIn b order).prAdvanceState (fun _ => b') =
        (c.takeIn b states).prAdvanceState fun _ => b' := by
  have one := takeIn_advance begun empty later order
  have other := takeIn_advance begun empty later states
  have waiting := one.waiting.trans (any.filter _)
  refine ⟨takenIn_latest one any, waiting, ?_⟩
  apply Schedule.ext
  · exact latest_unique distinct (takenIn_latest one any) (takenIn_latest other (.refl _))
  · refine List.Perm.eq_of_pairwise ?_ (PriorityQueue.sorted _) (PriorityQueue.sorted _)
      (waiting.trans other.waiting.symm)
    intro s t mem mem' before after
    have listed := (List.mem_filter.mp (waiting.mem_iff.mp mem)).1
    have listed' := (List.mem_filter.mp (other.waiting.mem_iff.mp mem')).1
    exact List.inj_on_of_nodup_map distinct (List.mem_cons_of_mem _ listed)
      (List.mem_cons_of_mem _ listed') (le_antisymm before after)

end Settle

def metronome : Clock := Clock.prInit (SCLOrkClockState.new "default" 0 1 4)

def fasterAt (beat : ℚ) : SCLOrkClockState := metronome.current.setTempoAtBeat 2 beat

theorem updates_any_order_metronome :
    Latest 12 metronome.current [fasterAt 3, fasterAt 8, fasterAt 20]
        ((metronome.takeIn 5 [fasterAt 20, fasterAt 3, fasterAt 8]).prAdvanceState
          fun _ => 12).current ∧
      ((metronome.takeIn 5 [fasterAt 20, fasterAt 3, fasterAt 8]).prAdvanceState
        fun _ => 12).queue.items.Perm
          ([fasterAt 3, fasterAt 8, fasterAt 20].filter (12 < ·.applyAtBeat)) ∧
      (metronome.takeIn 5 [fasterAt 20, fasterAt 3, fasterAt 8]).prAdvanceState (fun _ => 12) =
        (metronome.takeIn 5 [fasterAt 3, fasterAt 8, fasterAt 20]).prAdvanceState fun _ => 12 :=
  updates_any_order (by decide +kernel) rfl (by decide +kernel) (by decide +kernel)
    (by decide +kernel)

end SCLOrkClock
