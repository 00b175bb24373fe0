import Mathlib.Data.List.Chain
import SCLOrkTools.Clock.Client

/- The beat a cohort has reached, as a function of the server's time. A change is computed from
   the state that is current when it is issued. If that is not the state it will follow, the
   two need not meet, and a change that comes late moves beats that have passed. -/
namespace SCLOrkClock
open Schedules

def Meets (s next : SCLOrkClockState) : Prop :=
  next.applyAtTime = s.beats2secs next.applyAtBeat 0

instance (s next : SCLOrkClockState) : Decidable (Meets s next) :=
  inferInstanceAs (Decidable (_ = _))

theorem setTempoAtBeat_meets (s : SCLOrkClockState) (newTempo beats : ℚ) :
    Meets s (s.setTempoAtBeat newTempo beats) := rfl

theorem meets_reading {s next : SCLOrkClockState} (running : 0 < s.tempo) (meets : Meets s next) :
    beatAt next.applyAtTime s = next.applyAtBeat := by
  rw [meets, beatAt, SCLOrkClockState.secs2beats_beats2secs running.ne']

theorem own_reading (s : SCLOrkClockState) : beatAt s.applyAtTime s = s.applyAtBeat := by
  simp [beatAt, SCLOrkClockState.secs2beats]

theorem reading_between (s : SCLOrkClockState) (t u : ℚ) :
    beatAt u s - beatAt t s = s.tempo * (u - t) := by
  unfold beatAt SCLOrkClockState.secs2beats
  ring

theorem due_iff {s next : SCLOrkClockState} (running : 0 < s.tempo) (meets : Meets s next)
    (time : ℚ) : next.applyAtBeat ≤ beatAt time s ↔ next.applyAtTime ≤ time := by
  have passed := reading_between s next.applyAtTime time
  rw [meets_reading running meets] at passed
  constructor
  · intro due
    by_contra early
    have := mul_neg_of_pos_of_neg running (sub_neg.mpr (not_le.mp early))
    linarith
  · intro late
    have := mul_nonneg running.le (sub_nonneg.mpr late)
    linarith

/-- The beat a cohort has reached, once what is due is promoted. -/
def beatCount (c : Cohort) (time : ℚ) : ℚ := beatAt time (c.promote (beatAt time)).current

/-- Each state of the cohort meets the one that follows it. -/
structure Smooth (c : Cohort) : Prop where
  chain : c.line.IsChain Meets
  ordered : c.Ordered
  running : Running c

section BeatCount
open Schedule

theorem filter_none_before {s b : SCLOrkClockState} {l : List SCLOrkClockState}
    (first : s.applyAtBeat < b.applyAtBeat)
    (sorted : (b :: l).Pairwise (·.applyAtBeat ≤ ·.applyAtBeat)) :
    (b :: l).filter (fun r => r.applyAtBeat ≤ s.applyAtBeat) = [] := by
  apply List.filter_eq_nil_iff.mpr
  intro r member
  have beyond : s.applyAtBeat < r.applyAtBeat := by
    rcases List.mem_cons.mp member with rfl | behind
    · exact first
    · exact first.trans_le ((List.pairwise_cons.mp sorted).1 r behind)
  simpa using beyond

def reached (current : SCLOrkClockState) (l : List SCLOrkClockState) (time : ℚ) : ℚ :=
  beatAt time (loop SCLOrkClockState.applyAtBeat (beatAt time) current l).1

variable {current : SCLOrkClockState} {l : List SCLOrkClockState}

theorem reached_due {next : SCLOrkClockState} {time : ℚ}
    (due : next.applyAtBeat ≤ beatAt time current) :
    reached current (next :: l) time = reached next l time := by
  unfold reached
  rw [loop_due due]

theorem reached_later {next : SCLOrkClockState} {time : ℚ}
    (later : beatAt time current < next.applyAtBeat) :
    reached current (next :: l) time = beatAt time current := by
  unfold reached
  rw [loop_later later]

theorem reached_start (chain : (current :: l).IsChain Meets)
    (ordered : (current :: l).Pairwise (·.applyAtBeat ≤ ·.applyAtBeat)) :
    reached current l current.applyAtTime = current.applyAtBeat := by
  induction l generalizing current with
  | nil => exact own_reading current
  | cons next rest ih =>
    obtain ⟨meets, later⟩ := List.isChain_cons_cons.mp chain
    obtain ⟨least, sorted⟩ := List.pairwise_cons.mp ordered
    by_cases due : next.applyAtBeat ≤ beatAt current.applyAtTime current
    · have same : next.applyAtBeat = current.applyAtBeat :=
        le_antisymm (own_reading current ▸ due) (least next List.mem_cons_self)
      have time : next.applyAtTime = current.applyAtTime := by
        rw [meets, same]
        simp [SCLOrkClockState.beats2secs]
      rw [reached_due due, ← time, ← same]
      exact ih later sorted
    · rw [reached_later (not_le.mp due)]
      exact own_reading current

/-- The count never goes back, and never faster forward than the fastest tempo. -/
theorem reached_between (chain : (current :: l).IsChain Meets)
    (ordered : (current :: l).Pairwise (·.applyAtBeat ≤ ·.applyAtBeat))
    (running : ∀ s ∈ current :: l, 0 < s.tempo) {fastest t u : ℚ}
    (bound : ∀ s ∈ current :: l, s.tempo ≤ fastest) (order : t ≤ u) :
    0 ≤ reached current l u - reached current l t ∧
      reached current l u - reached current l t ≤ fastest * (u - t) := by
  have straight {s : SCLOrkClockState} (member : s ∈ current :: l) {t u : ℚ} (order : t ≤ u) :
      0 ≤ beatAt u s - beatAt t s ∧ beatAt u s - beatAt t s ≤ fastest * (u - t) := by
    rw [reading_between]
    exact ⟨mul_nonneg (running s member).le (sub_nonneg.mpr order),
      mul_le_mul_of_nonneg_right (bound s member) (sub_nonneg.mpr order)⟩
  induction l generalizing current t with
  | nil => exact straight List.mem_cons_self order
  | cons next rest ih =>
    obtain ⟨meets, later⟩ := List.isChain_cons_cons.mp chain
    obtain ⟨least, sorted⟩ := List.pairwise_cons.mp ordered
    have positive := running current List.mem_cons_self
    have beyond {t : ℚ} (order : t ≤ u) : 0 ≤ reached next rest u - reached next rest t ∧
        reached next rest u - reached next rest t ≤ fastest * (u - t) :=
      ih later sorted (fun s member => running s (List.mem_cons_of_mem current member))
        (fun s member => bound s (List.mem_cons_of_mem current member)) order
        fun member _ _ order => straight (List.mem_cons_of_mem current member) order
    have after {v : ℚ} (due : next.applyAtTime ≤ v) :
        reached current (next :: rest) v = reached next rest v :=
      reached_due ((due_iff positive meets v).mpr due)
    have before {v : ℚ} (early : v < next.applyAtTime) :
        reached current (next :: rest) v = beatAt v current :=
      reached_later (not_le.mp fun due => early.not_ge ((due_iff positive meets v).mp due))
    rcases lt_or_ge u next.applyAtTime with early | due
    · rw [before early, before (order.trans_lt early)]
      exact straight List.mem_cons_self order
    · rw [after due]
      rcases lt_or_ge t next.applyAtTime with early | past
      -- the switch falls between the two times: both counts pass through its beat
      · rw [before early]
        have first := straight List.mem_cons_self early.le
        have second := beyond due
        rw [reached_start later sorted] at second
        rw [meets_reading positive meets] at first
        constructor
        · linarith [first.1, second.1]
        · linarith [first.2, second.2]
      · rw [after past]
        exact beyond order

theorem beatCount_between {c : Cohort} (smooth : Smooth c) {fastest t u : ℚ}
    (bound : ∀ s ∈ c.line, s.tempo ≤ fastest) (order : t ≤ u) :
    0 ≤ beatCount c u - beatCount c t ∧ beatCount c u - beatCount c t ≤ fastest * (u - t) :=
  reached_between smooth.chain smooth.ordered smooth.running bound order

theorem le_reached (chain : (current :: l).IsChain Meets)
    (ordered : (current :: l).Pairwise (·.applyAtBeat ≤ ·.applyAtBeat))
    (running : ∀ s ∈ current :: l, 0 < s.tempo) {time : ℚ} (begun : current.applyAtTime ≤ time) :
    current.applyAtBeat ≤ reached current l time := by
  have positive := running current List.mem_cons_self
  induction l generalizing current with
  | nil =>
    have passed := reading_between current current.applyAtTime time
    rw [own_reading] at passed
    have forward := mul_nonneg positive.le (sub_nonneg.mpr begun)
    change current.applyAtBeat ≤ beatAt time current
    linarith
  | cons next rest ih =>
    obtain ⟨meets, later⟩ := List.isChain_cons_cons.mp chain
    obtain ⟨least, sorted⟩ := List.pairwise_cons.mp ordered
    have others : ∀ s ∈ next :: rest, 0 < s.tempo :=
      fun s member => running s (List.mem_cons_of_mem current member)
    by_cases due : next.applyAtBeat ≤ beatAt time current
    · rw [reached_due due]
      have started := (due_iff positive meets time).mp due
      exact (least next List.mem_cons_self).trans
        (ih later sorted others started (others next List.mem_cons_self))
    · rw [reached_later (not_le.mp due)]
      have passed := reading_between current current.applyAtTime time
      rw [own_reading] at passed
      have forward := mul_nonneg positive.le (sub_nonneg.mpr begun)
      linarith

theorem reading_met {s next : SCLOrkClockState} {time : ℚ} (running : 0 < s.tempo)
    (meets : Meets s next)
    (same : beatAt time s = next.applyAtBeat ∨ next.tempo = s.tempo) :
    beatAt time next = beatAt time s := by
  have before := reading_between s next.applyAtTime time
  have after := reading_between next next.applyAtTime time
  rw [meets_reading running meets] at before
  rw [own_reading] at after
  rcases same with there | steady
  · have still : s.tempo * (time - next.applyAtTime) = 0 := by linarith
    have now := (mul_eq_zero.mp still).resolve_left running.ne'
    rw [now, mul_zero] at after
    linarith
  · rw [steady] at after
    linarith

/-- A state that meets the one before it leaves the count as it is, if it is for a beat that has
    not passed or keeps the tempo. -/
theorem reached_insert {s : SCLOrkClockState} {time : ℚ}
    (chain : (current :: l).IsChain Meets)
    (ordered : (current :: l).Pairwise (·.applyAtBeat ≤ ·.applyAtBeat))
    (running : ∀ r ∈ current :: l, 0 < r.tempo)
    (follows : Meets ((l.filter fun r => r.applyAtBeat ≤ s.applyAtBeat).getLastD current) s)
    (inTime : reached current l time ≤ s.applyAtBeat ∨
      s.tempo = ((l.filter fun r => r.applyAtBeat ≤ s.applyAtBeat).getLastD current).tempo) :
    reached current (PriorityQueue.insert SCLOrkClockState.applyAtBeat s l) time =
      reached current l time := by
  induction l generalizing current with
  | nil =>
    by_cases due : s.applyAtBeat ≤ beatAt time current
    · have same : beatAt time current = s.applyAtBeat ∨ s.tempo = current.tempo :=
        inTime.imp_left fun passed => le_antisymm passed due
      exact (reached_due due).trans
        (reading_met (running current List.mem_cons_self) follows same)
    · exact reached_later (not_le.mp due)
  | cons b l ih =>
    obtain ⟨meets, later⟩ := List.isChain_cons_cons.mp chain
    have sorted := (List.pairwise_cons.mp ordered).2
    have positive := running current List.mem_cons_self
    have others : ∀ r ∈ b :: l, 0 < r.tempo :=
      fun r member => running r (List.mem_cons_of_mem current member)
    by_cases first : s.applyAtBeat < b.applyAtBeat
    · have none_before : (b :: l).filter (fun r => r.applyAtBeat ≤ s.applyAtBeat) = [] :=
        filter_none_before first sorted
      rw [none_before] at follows inTime
      rw [PriorityQueue.insert, if_pos first]
      by_cases due : s.applyAtBeat ≤ beatAt time current
      · have same : beatAt time current = s.applyAtBeat ∨ s.tempo = current.tempo := by
          refine inTime.imp_left fun passed => le_antisymm ?_ due
          -- had `b` come due, the count would have passed its beat
          by_cases due' : b.applyAtBeat ≤ beatAt time current
          · have begun := (due_iff positive meets time).mp due'
            rw [reached_due due'] at passed
            exact absurd ((le_reached later sorted others begun).trans passed) first.not_ge
          · rwa [reached_later (not_le.mp due')] at passed
        have alike := reading_met positive follows same
        rw [reached_due due]
        by_cases due' : b.applyAtBeat ≤ beatAt time current
        · rw [reached_due due', reached_due (alike ▸ due')]
        · rw [reached_later (not_le.mp due'), reached_later (alike ▸ not_le.mp due'), alike]
      · have waits := not_le.mp due
        rw [reached_later waits, reached_later (waits.trans first)]
    · have passed : b.applyAtBeat ≤ s.applyAtBeat := not_lt.mp first
      rw [List.filter_cons_of_pos (by simpa using passed), List.getLastD_cons] at follows inTime
      rw [PriorityQueue.insert, if_neg first]
      by_cases due : b.applyAtBeat ≤ beatAt time current
      · rw [reached_due due] at inTime
        rw [reached_due due, reached_due due]
        exact ih later sorted others follows inTime
      · rw [reached_later (not_le.mp due), reached_later (not_le.mp due)]

end BeatCount

def Cohort.before (c : Cohort) (s : SCLOrkClockState) : SCLOrkClockState :=
  (c.queue.items.filter fun r => r.applyAtBeat ≤ s.applyAtBeat).getLastD c.current

def Cohort.after (c : Cohort) (s : SCLOrkClockState) : Option SCLOrkClockState :=
  (c.queue.items.filter fun r => s.applyAtBeat < r.applyAtBeat).head?

/-- The state before the new one gets to its beat at the time it starts from, and under the
    new one the beat of the state after it is still reached at that one's time. The count is
    not past its beat, or the tempo stays. -/
def Cohort.FitsIn (c : Cohort) (s : SCLOrkClockState) (time : ℚ) : Prop :=
  Meets (c.before s) s ∧ (∀ next ∈ c.after s, Meets s next) ∧
    (beatCount c time ≤ s.applyAtBeat ∨ s.tempo = (c.before s).tempo)

/-- A new state that takes the place of the current one reads the same beat, if no waiting one
    has begun. -/
def Cohort.FitsFirst (c : Cohort) (s : SCLOrkClockState) (time : ℚ) : Prop :=
  (∀ next ∈ c.queue.items.head?, Meets s next ∧ s.applyAtBeat ≤ next.applyAtBeat) ∧
    ((∃ next ∈ c.queue.items.head?, next.applyAtTime ≤ time) ∨
      beatAt time s = beatAt time c.current)

/-- /clockChange leaves the states of the cohort meeting. -/
def Cohort.Fits (c : Cohort) (s : SCLOrkClockState) (time : ℚ) : Prop :=
  if s.applyAtBeat ≤ c.current.applyAtBeat then c.FitsFirst s time else c.FitsIn s time

/-- So does prUpdate, when this.beats reads `beats`. -/
def Clock.Fits (c : Clock) (s : SCLOrkClockState) (beats time : ℚ) : Prop :=
  if s.applyAtBeat ≥ c.current.applyAtBeat then
    if s.applyAtBeat ≤ beats then Cohort.FitsFirst c s time else Cohort.FitsIn c s time
  else True

instance (c : Cohort) (s : SCLOrkClockState) (time : ℚ) : Decidable (c.FitsIn s time) :=
  inferInstanceAs (Decidable (_ ∧ _ ∧ _))

instance (c : Cohort) (s : SCLOrkClockState) (time : ℚ) : Decidable (c.FitsFirst s time) :=
  inferInstanceAs (Decidable ((∀ next ∈ c.queue.items.head?,
    Meets s next ∧ s.applyAtBeat ≤ next.applyAtBeat) ∧
    ((∃ next ∈ c.queue.items.head?, next.applyAtTime ≤ time) ∨ _)))

instance (c : Cohort) (s : SCLOrkClockState) (time : ℚ) : Decidable (c.Fits s time) :=
  inferInstanceAs (Decidable (if s.applyAtBeat ≤ c.current.applyAtBeat then c.FitsFirst s time
    else c.FitsIn s time))

instance (c : Clock) (s : SCLOrkClockState) (beats time : ℚ) : Decidable (c.Fits s beats time) :=
  inferInstanceAs (Decidable (if s.applyAtBeat ≥ c.current.applyAtBeat then
    if s.applyAtBeat ≤ beats then Cohort.FitsFirst c s time else Cohort.FitsIn c s time
    else True))

theorem insert_chain {current s : SCLOrkClockState} {l : List SCLOrkClockState}
    (chain : (current :: l).IsChain Meets)
    (sorted : l.Pairwise (·.applyAtBeat ≤ ·.applyAtBeat))
    (follows : Meets ((l.filter fun r => r.applyAtBeat ≤ s.applyAtBeat).getLastD current) s)
    (leads : ∀ next ∈ (l.filter fun r => s.applyAtBeat < r.applyAtBeat).head?, Meets s next) :
    (current :: PriorityQueue.insert SCLOrkClockState.applyAtBeat s l).IsChain Meets := by
  induction l generalizing current with
  | nil => exact List.isChain_cons_cons.mpr ⟨follows, List.isChain_singleton s⟩
  | cons b l ih =>
    obtain ⟨meets, later⟩ := List.isChain_cons_cons.mp chain
    have rest := (List.pairwise_cons.mp sorted).2
    by_cases first : s.applyAtBeat < b.applyAtBeat
    · rw [filter_none_before first sorted] at follows
      rw [PriorityQueue.insert, if_pos first]
      have next : Meets s b := leads b (by simp [first])
      exact List.isChain_cons_cons.mpr ⟨follows, List.isChain_cons_cons.mpr ⟨next, later⟩⟩
    · have passed : b.applyAtBeat ≤ s.applyAtBeat := not_lt.mp first
      rw [List.filter_cons_of_pos (by simpa using passed), List.getLastD_cons] at follows
      rw [List.filter_cons_of_neg (by simpa using passed)] at leads
      rw [PriorityQueue.insert, if_neg first]
      exact List.isChain_cons_cons.mpr ⟨meets, ih later rest follows leads⟩

theorem promote_smooth {c : Cohort} (smooth : Smooth c) (read : SCLOrkClockState → ℚ) :
    Smooth (c.promote read) where
  chain := smooth.chain.suffix (Schedule.promote_suffix read c)
  ordered := Schedule.promote_ordered read smooth.ordered
  running := promote_running smooth.running read

variable {c : Cohort} {s : SCLOrkClockState} {time : ℚ}

theorem put_smooth (smooth : Smooth c) (positive : 0 < s.tempo)
    (after : c.current.applyAtBeat ≤ s.applyAtBeat) (fits : c.FitsIn s time) :
    Smooth (c.put s) where
  chain := insert_chain smooth.chain c.queue.sorted fits.1 fits.2.1
  ordered := Schedule.put_ordered smooth.ordered after
  running := put_running smooth.running positive

theorem replace_smooth (smooth : Smooth c) (positive : 0 < s.tempo) (fits : c.FitsFirst s time) :
    Smooth { c with current := s } := by
  refine ⟨?_, ?_, replace_running smooth.running positive⟩
  · refine List.isChain_cons.mpr ⟨fun next first => (fits.1 next first).1, ?_⟩
    exact smooth.chain.tail
  · refine List.pairwise_cons.mpr ⟨?_, c.queue.sorted⟩
    intro r waits
    cases queue : c.queue.items with
    | nil => simp [queue] at waits
    | cons next rest =>
      have first := (fits.1 next (by simp [queue])).2
      have sorted := c.queue.sorted
      rw [queue] at waits sorted
      rcases List.mem_cons.mp waits with rfl | behind
      · exact first
      · exact first.trans ((List.pairwise_cons.mp sorted).1 r behind)

theorem new_smooth (positive : 0 < s.tempo) : Smooth (Cohort.new s) :=
  ⟨List.isChain_singleton s, new_ordered s, new_running positive⟩

theorem accept_fits (fits : c.Fits s time) :
    c.FitsFirst s time ∧ c.accept s = { c with current := s } ∨
      c.FitsIn s time ∧ c.current.applyAtBeat ≤ s.applyAtBeat ∧ c.accept s = c.put s := by
  unfold Cohort.Fits at fits
  unfold Cohort.accept
  by_cases replaced : s.applyAtBeat ≤ c.current.applyAtBeat
  · rw [if_pos replaced] at fits
    exact .inl ⟨fits, if_pos replaced⟩
  · rw [if_neg replaced] at fits
    exact .inr ⟨fits, (not_le.mp replaced).le, if_neg replaced⟩

theorem prUpdate_fits {c : Clock} {beats : ℚ} (fits : c.Fits s beats time) :
    (c.prUpdate s fun _ => beats) = c ∨
      Cohort.FitsFirst c s time ∧ (c.prUpdate s fun _ => beats) = { c with current := s } ∨
      Cohort.FitsIn c s time ∧ c.current.applyAtBeat ≤ s.applyAtBeat ∧
        (c.prUpdate s fun _ => beats) = c.put s := by
  unfold Clock.Fits at fits
  unfold Clock.prUpdate
  by_cases kept : s.applyAtBeat ≥ c.current.applyAtBeat
  · rw [if_pos kept] at fits ⊢
    by_cases due : s.applyAtBeat ≤ beats
    · rw [if_pos due] at fits
      exact .inr (.inl ⟨fits, if_pos due⟩)
    · rw [if_neg due] at fits
      exact .inr (.inr ⟨fits, kept, if_neg due⟩)
  · exact .inl (if_neg kept)

theorem accept_smooth (smooth : Smooth c) (positive : 0 < s.tempo) (fits : c.Fits s time) :
    Smooth (c.accept s) := by
  rcases accept_fits fits with ⟨first, replaced⟩ | ⟨inside, later, queued⟩
  · rw [replaced]
    exact replace_smooth smooth positive first
  · rw [queued]
    exact put_smooth smooth positive later inside

theorem prUpdate_smooth {c : Clock} {beats : ℚ} (smooth : Smooth c) (positive : 0 < s.tempo)
    (fits : c.Fits s beats time) : Smooth (c.prUpdate s fun _ => beats) := by
  rcases prUpdate_fits fits with same | ⟨first, replaced⟩ | ⟨inside, later, queued⟩
  · rw [same]
    exact smooth
  · rw [replaced]
    exact replace_smooth smooth positive first
  · rw [queued]
    exact put_smooth smooth positive later inside

theorem replace_count (smooth : Smooth c) (positive : 0 < s.tempo) (fits : c.FitsFirst s time) :
    beatCount { c with current := s } time = beatCount c time := by
  obtain ⟨current, ⟨items, sorted⟩⟩ := c
  obtain ⟨leads, same⟩ := fits
  change reached s items time = reached current items time
  cases items with
  | nil =>
    rcases same with ⟨next, none, -⟩ | same
    · cases none
    · exact same
  | cons next rest =>
    obtain ⟨meets, -⟩ := leads next rfl
    have met := due_iff positive meets time
    obtain ⟨meets', -⟩ := List.isChain_cons_cons.mp smooth.chain
    have met' := due_iff (smooth.running current List.mem_cons_self) meets' time
    by_cases begun : next.applyAtTime ≤ time
    · rw [reached_due (met.mpr begun), reached_due (met'.mpr begun)]
    · rw [reached_later (not_le.mp fun due => begun (met.mp due)),
        reached_later (not_le.mp fun due => begun (met'.mp due))]
      rcases same with ⟨_, first, early⟩ | same
      · cases first
        exact absurd early begun
      · exact same

theorem put_count (smooth : Smooth c) (fits : c.FitsIn s time) :
    beatCount (c.put s) time = beatCount c time :=
  reached_insert smooth.chain smooth.ordered smooth.running fits.1 fits.2.2

theorem accept_count (smooth : Smooth c) (positive : 0 < s.tempo) (fits : c.Fits s time) :
    beatCount (c.accept s) time = beatCount c time := by
  rcases accept_fits fits with ⟨first, replaced⟩ | ⟨inside, -, queued⟩
  · rw [replaced]
    exact replace_count smooth positive first
  · rw [queued]
    exact put_count smooth inside

theorem prUpdate_count {c : Clock} {beats : ℚ} (smooth : Smooth c) (positive : 0 < s.tempo)
    (fits : c.Fits s beats time) :
    beatCount (c.prUpdate s fun _ => beats) time = beatCount c time := by
  rcases prUpdate_fits fits with same | ⟨first, replaced⟩ | ⟨inside, -, queued⟩
  · rw [same]
  · rw [replaced]
    exact replace_count smooth positive first
  · rw [queued]
    exact put_count smooth inside

theorem promote_count (c : Cohort) (time : ℚ) :
    beatCount (c.promote (beatAt time)) time = beatCount c time := by
  unfold beatCount
  rw [Schedule.promote_of_settled (Schedule.promote_settled (beatAt time) c)]

/-- A timer that is not early makes nothing current that the count has not passed. -/
theorem advance_count {c : Clock} {beats : ℚ} (punctual : c.Punctual beats time) :
    beatCount (c.prAdvanceState fun _ => beats) time = beatCount c time := by
  have same : (c.prAdvanceState fun _ => beats).promote (beatAt time) = c.promote (beatAt time) :=
    Schedule.partWay_promote (Schedule.partWay_taken punctual)
  exact congrArg (beatAt time ·.current) same

/-- Each state that a promotion makes current meets the one before it. -/
def Unbroken (c : Cohort) (read : SCLOrkClockState → ℚ) : Prop :=
  (c.current :: c.taken read).IsChain Meets

instance (c : Cohort) (read : SCLOrkClockState → ℚ) : Decidable (Unbroken c read) :=
  inferInstanceAs (Decidable (List.IsChain Meets _))

theorem smooth_unbroken (smooth : Smooth c) (read : SCLOrkClockState → ℚ) : Unbroken c read := by
  have whole : ((c.current :: c.taken read) ++ (c.promote read).queue.items).IsChain Meets := by
    have chain := smooth.chain
    rw [Schedule.promote_line read c] at chain
    exact chain
  exact whole.left_of_append

end SCLOrkClock
