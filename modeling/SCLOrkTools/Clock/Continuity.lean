import SCLOrkTools.Clock.BeatCount
import SCLOrkTools.Clock.Join

/- Runs of a server and its members in which every change fits the states that it comes between:
   no event moves the count of the cohort or of a member's clock. -/
namespace SCLOrkClock
open Schedules GuardedRun

def Request.Positive : Request → Prop
  | getAll => True
  | create s | change s => 0 < s.tempo

structure Member.Smooth (m : Member) : Prop where
  clock : ∀ c ∈ m.clock, SCLOrkClock.Smooth c
  told : ∀ u ∈ m.inbox, 0 < u.state.tempo
  asked : ∀ r ∈ m.outbox, r.Positive

structure Network.Smooth {ι : Type} (s : Network ι) : Prop where
  cohort : ∀ c ∈ s.cohort, SCLOrkClock.Smooth c
  member : ∀ i, (s.member i).Smooth

theorem told_more {m : Member} {updates : List Update} (smooth : m.Smooth)
    (positive : ∀ u ∈ updates, 0 < u.state.tempo) :
    Member.Smooth { m with inbox := m.inbox ++ updates } := by
  refine ⟨smooth.clock, ?_, smooth.asked⟩
  intro u member
  rcases List.mem_append.mp member with before | more
  · exact smooth.told u before
  · exact positive u more

theorem asked_more {m : Member} {r : Request} (smooth : m.Smooth) (positive : r.Positive) :
    Member.Smooth { m with outbox := m.outbox ++ [r] } := by
  refine ⟨smooth.clock, smooth.told, ?_⟩
  intro q member
  rcases List.mem_append.mp member with before | last
  · exact smooth.asked q before
  · rw [List.mem_singleton.mp last]
    exact positive

theorem broadcast_smooth {ι : Type} {s : Network ι} {updates : List Update} (smooth : s.Smooth)
    (positive : ∀ u ∈ updates, 0 < u.state.tempo) : (s.broadcast updates).Smooth := by
  refine ⟨smooth.cohort, ?_⟩
  intro i
  simp only [Network.broadcast]
  split
  · exact told_more (smooth.member i) positive
  · exact smooth.member i

theorem reply_positive {cohort : Option Cohort} {r : Request} {time : ℚ}
    {order : List SCLOrkClockState} (smooth : ∀ c ∈ cohort, Smooth c)
    (same : order.Perm (waiting cohort r time)) : ∀ u ∈ reply cohort r time order,
      0 < u.state.tempo := by
  have answered {c : Cohort} (groomed : Running c) (same : order.Perm c.queue.items) :
      ∀ u ∈ c.prSendState order, 0 < u.state.tempo := by
    intro u sent
    rcases List.mem_cons.mp sent with rfl | later
    · exact groomed _ List.mem_cons_self
    · obtain ⟨q, member, rfl⟩ := List.mem_map.mp later
      exact groomed q (List.mem_cons_of_mem _ (same.mem_iff.mp member))
  intro u sent
  cases cohort with
  | none => cases r <;> simp [reply] at sent
  | some c =>
    have groomed := (promote_smooth (smooth c rfl) (beatAt time)).running
    cases r with
    | getAll | create => exact answered groomed same u sent
    | change => simp [reply] at sent

theorem prSendAll_positive {cohort : Option Cohort} {r : Request} (positive : r.Positive) :
    ∀ u ∈ prSendAll cohort r, 0 < u.state.tempo := by
  intro u sent
  cases r with
  | getAll => cases cohort <;> simp [prSendAll] at sent
  | create state | change state =>
    cases cohort with
    | none | some c =>
      simp only [prSendAll, List.mem_singleton, List.not_mem_nil] at sent <;>
        (subst sent; exact positive)

def ServeFits (time : ℚ) : List Request → Option Cohort → Prop
  | .change state :: _, some c => c.Fits state time
  | _, _ => True

def DeliverFits (beats time : ℚ) : List Update → Option Clock → Prop
  | u :: _, some c => Clock.Fits c u.state beats time
  | _, _ => True

/-- Tempos are positive, what a cohort or a clock takes in fits, and no timer is early. -/
def Network.Fits {ι : Type} (s : Network ι) (e : Event ι) : Prop :=
  match e.act with
  | .new _ _ tempo _ | .setTempoAtBeat _ tempo _ => 0 < tempo
  | .serve i _ => ServeFits e.time (s.member i).outbox s.cohort
  | .deliver i beats => DeliverFits beats e.time (s.member i).inbox (s.member i).clock
  | .advance i beats => ∀ c ∈ (s.member i).clock, Clock.Punctual c beats e.time
  | _ => True

def ServeAgrees (time : ℚ) : List Request → Option Cohort → Prop
  | .change state :: _, some c => Unbroken (c.accept state) (beatAt time)
  | _ :: _, some c => Unbroken c (beatAt time)
  | _, _ => True

/-- The states that an event promotes agree on when they follow each other. -/
def Network.Agrees {ι : Type} (s : Network ι) (e : Event ι) : Prop :=
  match e.act with
  | .serve i _ => ServeAgrees e.time (s.member i).outbox s.cohort
  | .advance i beats => ∀ c ∈ (s.member i).clock, Unbroken c fun _ => beats
  | _ => True

theorem act_agrees {ι : Type} {s : Network ι} {a : Act ι} (smooth : s.Smooth)
    (fits : s.Fits ⟨a, s.now⟩) : s.Agrees ⟨a, s.now⟩ := by
  cases a with
  | connect | getAll | new | setTempoAtBeat | deliver => trivial
  | serve i order =>
    have positive := (smooth.member i).asked
    change ServeFits s.now (s.member i).outbox s.cohort at fits
    change ServeAgrees s.now (s.member i).outbox s.cohort
    cases keeps : s.cohort with
    | none => cases (s.member i).outbox with
      | nil => trivial
      | cons r rest => cases r <;> trivial
    | some c =>
      have before := smooth.cohort c keeps
      rw [keeps] at fits
      cases asks : (s.member i).outbox with
      | nil => trivial
      | cons r rest =>
        rw [asks] at fits positive
        cases r with
        | getAll | create => exact smooth_unbroken before _
        | change state =>
          have accepted := accept_smooth before (positive _ List.mem_cons_self) fits
          exact smooth_unbroken accepted _
  | advance i beats => exact fun c held => smooth_unbroken ((smooth.member i).clock c held) _

def Network.start {ι : Type} (now : ℚ) (timeDiff : ι → ℚ) : Network ι where
  now := now
  cohort := none
  member i := ⟨timeDiff i, false, none, [], []⟩

theorem start_smooth {ι : Type} (now : ℚ) (timeDiff : ι → ℚ) :
    (Network.start now timeDiff).Smooth := by
  refine ⟨fun _ keeps => (nomatch keeps), ?_⟩
  intro i
  constructor
  · intro c held
    cases held
  · intro u sent
    cases sent
  · intro r asked
    cases asked

variable {ι : Type} [DecidableEq ι]

theorem set_smooth {s : Network ι} {i : ι} {m : Member} (smooth : s.Smooth) (next : m.Smooth) :
    (s.set i m).Smooth := by
  refine ⟨smooth.cohort, ?_⟩
  intro j
  by_cases same : j = i
  · rw [same, set_member]
    exact next
  · rw [set_other s m same]
    exact smooth.member j

theorem handle_smooth {cohort : Option Cohort} {r : Request} {time : ℚ}
    (smooth : ∀ c ∈ cohort, Smooth c) (positive : r.Positive)
    (fits : ∀ c ∈ cohort, ∀ state, r = .change state → c.Fits state time) :
    ∀ c ∈ handle cohort r time, Smooth c := by
  intro d member
  cases cohort with
  | none =>
    cases r with
    | create state =>
      cases member
      exact new_smooth positive
    | getAll | change => cases member
  | some c =>
    cases r with
    | getAll | create =>
      cases member
      exact promote_smooth (smooth c rfl) _
    | change state =>
      cases member
      exact promote_smooth (accept_smooth (smooth c rfl) positive (fits c rfl state rfl)) _

theorem serve_smooth {s : Network ι} {i : ι} {r : Request} {rest : List Request}
    {order : List SCLOrkClockState} (smooth : s.Smooth) (asks : (s.member i).outbox = r :: rest)
    (same : order.Perm (waiting s.cohort r s.now))
    (fits : ∀ c ∈ s.cohort, ∀ state, r = .change state → c.Fits state s.now) :
    (s.serve i r rest order).Smooth := by
  have before := smooth.member i
  have positive := before.asked r (asks ▸ List.mem_cons_self)
  have more := told_more before (reply_positive smooth.cohort same)
  have later : ∀ q ∈ rest, q.Positive :=
    fun q member => before.asked q (asks ▸ List.mem_cons_of_mem r member)
  have answered : (s.set i ⟨(s.member i).timeDiff, (s.member i).connected, (s.member i).clock,
      (s.member i).inbox ++ reply s.cohort r s.now order, rest⟩).Smooth :=
    set_smooth smooth ⟨more.clock, more.told, later⟩
  exact ⟨handle_smooth smooth.cohort positive fits,
    (broadcast_smooth answered (prSendAll_positive positive)).member⟩

theorem newClock_smooth {clock : Option Clock} {cohortName : String}
    {tempo beatsPerBar timeDiff elapsed : ℚ} (before : ∀ c, clock = some c → Smooth c)
    (positive : 0 < tempo) :
    (∀ c, (newClock clock cohortName tempo beatsPerBar timeDiff elapsed).1 = some c → Smooth c) ∧
      ∀ r ∈ (newClock clock cohortName tempo beatsPerBar timeDiff elapsed).2, r.Positive := by
  cases clock with
  | none =>
    constructor
    · intro c made
      cases made
      exact new_smooth positive
    · intro r sent
      rw [List.mem_singleton.mp sent]
      exact positive
  | some d =>
    constructor
    · exact before
    · intro r sent
      cases sent

theorem clockUpdate_smooth {clock : Option Clock} {u : Update} {rest : List Update}
    {beats time : ℚ} (before : ∀ c, clock = some c → Smooth c) (positive : 0 < u.state.tempo)
    (fits : DeliverFits beats time (u :: rest) clock) (c : Clock)
    (taken : clockUpdate clock u.state (fun _ => beats) = some c) : Smooth c := by
  cases clock with
  | none =>
    cases taken
    exact new_smooth positive
  | some d =>
    cases taken
    exact prUpdate_smooth (before d rfl) positive fits

theorem act_smooth {s t : Network ι} {a : Act ι} (smooth : s.Smooth) (fits : s.Fits ⟨a, s.now⟩)
    (ran : s.act a = some t) : t.Smooth := by
  cases a with
  | connect i =>
    cases ran
    obtain ⟨clock, told, asked⟩ := smooth.member i
    exact set_smooth smooth ⟨clock, told, asked⟩
  | getAll i =>
    cases ran
    exact set_smooth smooth (asked_more (smooth.member i) trivial)
  | new i cohortName tempo beatsPerBar =>
    cases ran
    have before := smooth.member i
    obtain ⟨clock, sent⟩ := newClock_smooth before.clock fits
    refine set_smooth smooth ⟨clock, before.told, ?_⟩
    intro r asked
    rcases List.mem_append.mp asked with already | added
    · exact before.asked r already
    · exact sent r added
  | setTempoAtBeat i newTempo beats =>
    obtain ⟨c, held, rfl⟩ := Option.map_eq_some_iff.mp ran
    have positive : Request.Positive (c.setTempoAtBeat newTempo beats) := fits
    exact set_smooth smooth (asked_more (smooth.member i) positive)
  | serve i order =>
    simp only [Network.act] at ran
    simp only [Network.Fits] at fits
    split at ran
    · cases ran
    · rename_i r rest asks
      split at ran
      · rename_i same
        cases ran
        apply serve_smooth smooth asks same
        intro c keeps state change
        rw [asks, change, keeps] at fits
        exact fits
      · cases ran
  | deliver i =>
    simp only [Network.act] at ran
    simp only [Network.Fits] at fits
    split at ran
    · cases ran
    · rename_i u rest head
      cases ran
      have before := smooth.member i
      have positive := before.told u (head ▸ List.mem_cons_self)
      rw [head] at fits
      refine set_smooth smooth ⟨?_, ?_, before.asked⟩
      · exact clockUpdate_smooth before.clock positive fits
      · intro v later
        exact before.told v (head ▸ List.mem_cons_of_mem u later)
  | advance i =>
    obtain ⟨c, held, rfl⟩ := Option.map_eq_some_iff.mp ran
    have before := smooth.member i
    refine set_smooth smooth ⟨?_, before.told, before.asked⟩
    intro d made
    cases made
    exact promote_smooth (before.clock c held) _

def Network.schedule {ι : Type} (s : Network ι) : Option ι → Option Cohort
  | none => s.cohort
  | some i => (s.member i).clock

theorem schedule_smooth {ι : Type} {s : Network ι} {who : Option ι} {c : Cohort}
    (smooth : s.Smooth) (holds : s.schedule who = some c) : Smooth c := by
  cases who with
  | none => exact smooth.cohort c holds
  | some i => exact (smooth.member i).clock c holds

theorem handle_count {c : Cohort} {r : Request} {time : ℚ} (smooth : Smooth c)
    (positive : r.Positive) (fits : ∀ state, r = .change state → c.Fits state time) :
    ∃ d, handle (some c) r time = some d ∧ beatCount d time = beatCount c time := by
  cases r with
  | getAll | create => exact ⟨_, rfl, promote_count c time⟩
  | change state =>
    have accepted := accept_count smooth positive (fits state rfl)
    exact ⟨_, rfl, (promote_count _ time).trans accepted⟩

theorem act_cohort {s t : Network ι} {a : Act ι} (ran : s.act a = some t) :
    t.cohort = s.cohort ∨ ∃ i order r rest, a = .serve i order ∧
      (s.member i).outbox = r :: rest ∧ t.cohort = handle s.cohort r s.now := by
  cases a with
  | connect | getAll | new =>
    cases ran
    exact .inl rfl
  | setTempoAtBeat | advance =>
    obtain ⟨c, -, rfl⟩ := Option.map_eq_some_iff.mp ran
    exact .inl rfl
  | serve i order =>
    simp only [Network.act] at ran
    split at ran
    · cases ran
    · rename_i r rest asks
      split at ran
      · cases ran
        exact .inr ⟨i, order, r, rest, rfl, asks, rfl⟩
      · cases ran
  | deliver i beats =>
    simp only [Network.act] at ran
    split at ran
    · cases ran
    · cases ran
      exact .inl rfl

/-- No event moves the count of a cohort or a clock. -/
theorem act_count {s t : Network ι} {a : Act ι} {who : Option ι} {c : Cohort} (smooth : s.Smooth)
    (fits : s.Fits ⟨a, s.now⟩) (ran : s.act a = some t) (holds : s.schedule who = some c) :
    ∃ d, t.schedule who = some d ∧ beatCount d s.now = beatCount c s.now := by
  cases who with
  | none =>
    change s.cohort = some c at holds
    rcases act_cohort ran with same | ⟨i, order, r, rest, rfl, asks, handled⟩
    · exact ⟨c, same.trans holds, rfl⟩
    · rw [holds] at handled
      have positive := (smooth.member i).asked r (asks ▸ List.mem_cons_self)
      obtain ⟨d, made, same⟩ := handle_count (smooth.cohort c holds) positive (by
        intro state change
        change ServeFits s.now (s.member i).outbox s.cohort at fits
        rw [asks, change, holds] at fits
        exact fits)
      exact ⟨d, handled.trans made, same⟩
  | some j =>
    change (s.member j).clock = some c at holds
    obtain ⟨touches, -⟩ := act_touches ran j
    cases touches with
    | delivered head inbox clock =>
      rename_i u rest beats
      have positive := (smooth.member j).told u (head ▸ List.mem_cons_self)
      change DeliverFits beats s.now (s.member j).inbox (s.member j).clock at fits
      rw [head, holds] at fits
      rw [holds] at clock
      exact ⟨_, clock, prUpdate_count ((smooth.member j).clock c holds) positive fits⟩
    | advanced more inbox held clock =>
      cases holds.symm.trans held
      exact ⟨_, clock, advance_count (fits c holds)⟩
    | made other more inbox none_held clock =>
      rw [none_held] at holds
      cases holds
    | left other more inbox clock => exact ⟨c, clock.trans holds, rfl⟩

theorem step_now {s t : Network ι} {e : Event ι} (ran : s.step e = some t) :
    s.now ≤ e.time ∧ Network.act { s with now := e.time } e.act = some t ∧ t.now = e.time := by
  unfold Network.step at ran
  split at ran
  · rename_i passes
    refine ⟨passes, ran, ?_⟩
    cases e with
    | mk a time =>
      cases a with
      | connect i | getAll i | new i | setTempoAtBeat i | deliver i | advance i | serve i =>
        exact (act_touches ran i).2
  · cases ran

theorem step_smooth {s t : Network ι} {e : Event ι} (smooth : s.Smooth) (fits : s.Fits e)
    (ran : s.step e = some t) : t.Smooth := by
  obtain ⟨-, acted, -⟩ := step_now ran
  exact act_smooth (s := { s with now := e.time }) ⟨smooth.cohort, smooth.member⟩ fits acted

theorem run_now {s t : Network ι} {es : List (Event ι)} (ran : run Network.step s es = some t) :
    s.now ≤ t.now ∧ ∀ e ∈ es, s.now ≤ e.time := by
  induction es generalizing s with
  | nil =>
    cases ran
    exact ⟨le_refl _, fun e member => nomatch member⟩
  | cons e es ih =>
    obtain ⟨u, first, later⟩ := run_cons.mp ran
    obtain ⟨passes, -, now⟩ := step_now first
    obtain ⟨ends, others⟩ := ih later
    rw [now] at ends others
    refine ⟨passes.trans ends, ?_⟩
    intro f member
    rcases List.mem_cons.mp member with rfl | behind
    · exact passes
    · exact passes.trans (others f behind)

/-- What the schedule goes through in a run is not faster than this. -/
def Bounded (who : Option ι) (fastest : ℚ) (s : Network ι) (es : List (Event ι)) : Prop :=
  ∀ pre post t, es = pre ++ post → run Network.step s pre = some t →
    ∀ c ∈ t.schedule who, ∀ r ∈ c.line, r.tempo ≤ fastest

theorem run_count {s t : Network ι} {es : List (Event ι)} {who : Option ι} {c : Cohort}
    {fastest time later : ℚ} (smooth : s.Smooth) (fits : Along Network.step Network.Fits s es)
    (ran : run Network.step s es = some t) (holds : s.schedule who = some c)
    (bound : Bounded who fastest s es) (begins : ∀ e ∈ es, time ≤ e.time) (ends : t.now ≤ later)
    (order : time ≤ later) : ∃ d, t.schedule who = some d ∧
      0 ≤ beatCount d later - beatCount c time ∧
        beatCount d later - beatCount c time ≤ fastest * (later - time) := by
  induction es generalizing s c time with
  | nil =>
    cases ran
    have tempos := bound [] [] _ rfl rfl c holds
    exact ⟨c, holds, beatCount_between (schedule_smooth smooth holds) tempos order⟩
  | cons e es ih =>
    obtain ⟨u, first, rest⟩ := run_cons.mp ran
    obtain ⟨passes, acted, now⟩ := step_now first
    have begun := begins e List.mem_cons_self
    have still : e.time ≤ later := now ▸ (run_now rest).1.trans ends
    -- up to the event the count goes on as it did, and the event does not move it
    have tempos := bound [] (e :: es) s rfl rfl c holds
    have before := beatCount_between (schedule_smooth smooth holds) tempos begun
    obtain ⟨b, holds', same⟩ := act_count (s := { s with now := e.time })
      ⟨smooth.cohort, smooth.member⟩ fits.1 acted holds
    have others : Bounded who fastest u es := fun pre post v shape mid =>
      bound (e :: pre) post v (by rw [shape]; rfl) (run_cons.mpr ⟨u, first, mid⟩)
    obtain ⟨d, kept, forward, slow⟩ := ih (step_smooth smooth fits.1 first) (fits.2 u first) rest
      holds' others (fun f member => now ▸ (run_now rest).2 f member) still
    have same : beatCount b e.time = beatCount c e.time := same
    refine ⟨d, kept, ?_, ?_⟩
    · linarith [before.1]
    · linarith [before.2]

/-- In every run whose steps all fit, states that follow each other agree on when they do, and
    from any time on the count of a cohort or a clock never goes back or faster than its
    tempos. -/
theorem tempo_continuous {now : ℚ} {timeDiff : ι → ℚ} {es : List (Event ι)}
    (fits : Along Network.step Network.Fits (Network.start now timeDiff) es) :
    Along Network.step Network.Agrees (Network.start now timeDiff) es ∧
      ∀ pre mid post s t, es = pre ++ mid ++ post →
        run Network.step (Network.start now timeDiff) pre = some s →
        run Network.step s mid = some t → ∀ who c, s.schedule who = some c →
        ∀ fastest, Bounded who fastest s mid → ∀ time later, (∀ e ∈ mid, time ≤ e.time) →
        t.now ≤ later → time ≤ later → ∃ d, t.schedule who = some d ∧
          0 ≤ beatCount d later - beatCount c time ∧
            beatCount d later - beatCount c time ≤ fastest * (later - time) := by
  have always {t : Network ι} {pre : List (Event ι)}
      (along : Along Network.step Network.Fits (Network.start now timeDiff) pre)
      (ran : run Network.step (Network.start now timeDiff) pre = some t) : t.Smooth :=
    run_invariant Network.Smooth (fun _ _ _ => step_smooth) (start_smooth now timeDiff) along ran
  constructor
  · apply along_iff_prefixes.mpr
    intro pre e post shape mid ran
    subst shape
    obtain ⟨before, rest⟩ := along_append.mp fits
    have smooth := always before ran
    exact act_agrees (s := { mid with now := e.time }) ⟨smooth.cohort, smooth.member⟩
      (rest mid ran).1
  · intro pre mid post s t shape front ran who c holds fastest bound time later begins ends order
    subst shape
    obtain ⟨before, rest⟩ := along_append.mp (along_append.mp fits).1
    exact run_count (always before front) (rest s front) ran holds bound begins ends order

instance (time : ℚ) : ∀ requests cohort, Decidable (ServeFits time requests cohort)
  | .change state :: _, some c => inferInstanceAs (Decidable (c.Fits state time))
  | [], _ | .getAll :: _, _ | .create _ :: _, _ | .change _ :: _, none => isTrue trivial

instance (beats time : ℚ) : ∀ updates clock, Decidable (DeliverFits beats time updates clock)
  | u :: _, some c => inferInstanceAs (Decidable (Clock.Fits c u.state beats time))
  | [], _ | _ :: _, none => isTrue trivial

instance (s : Network ι) : ∀ e, Decidable (s.Fits e)
  | ⟨.new _ _ tempo _, _⟩ | ⟨.setTempoAtBeat _ tempo _, _⟩ =>
    inferInstanceAs (Decidable (0 < tempo))
  | ⟨.serve _ _, _⟩ => inferInstanceAs (Decidable (ServeFits _ _ _))
  | ⟨.deliver _ _, _⟩ => inferInstanceAs (Decidable (DeliverFits _ _ _ _))
  | ⟨.advance i beats, time⟩ => inferInstanceAs (Decidable (∀ c ∈ (s.member i).clock,
      Clock.Punctual c beats time))
  | ⟨.connect _, _⟩ | ⟨.getAll _, _⟩ => isTrue trivial

instance (time : ℚ) : ∀ requests cohort, Decidable (ServeAgrees time requests cohort)
  | .change state :: _, some c => inferInstanceAs (Decidable (Unbroken (c.accept state) _))
  | .getAll :: _, some c | .create _ :: _, some c => inferInstanceAs (Decidable (Unbroken c _))
  | [], _ | .getAll :: _, none | .create _ :: _, none | .change _ :: _, none => isTrue trivial

instance (s : Network ι) : ∀ e, Decidable (s.Agrees e)
  | ⟨.serve _ _, _⟩ => inferInstanceAs (Decidable (ServeAgrees _ _ _))
  | ⟨.advance i beats, _⟩ => inferInstanceAs (Decidable (∀ c ∈ (s.member i).clock,
      Unbroken c fun _ => beats))
  | ⟨.connect _, _⟩ | ⟨.getAll _, _⟩ | ⟨.new _ _ _ _, _⟩ | ⟨.setTempoAtBeat _ _ _, _⟩
  | ⟨.deliver _ _, _⟩ => isTrue trivial

def changing : List (Event Unit) :=
  [⟨.connect (), 0⟩, ⟨.new () "default" 1 4, 0⟩, ⟨.serve () [], 0⟩, ⟨.deliver () 0, 0⟩,
    ⟨.setTempoAtBeat () 2 10, 0⟩, ⟨.serve () [], 0⟩]

/-- The state for beat ten has begun when the member sets one for beat twenty. -/
def oneByOne : List (Event Unit) :=
  changing ++ [⟨.deliver () 0, 0⟩, ⟨.advance () 12, 11⟩, ⟨.setTempoAtBeat () 3 20, 11⟩,
    ⟨.serve () [], 12⟩, ⟨.deliver () 14, 12⟩, ⟨.getAll (), 16⟩, ⟨.serve () [], 16⟩]

theorem tempo_continuous_one_by_one :
    Along Network.step Network.Agrees (Network.start 0 fun _ => 0) oneByOne ∧
      ∀ pre mid post s t, oneByOne = pre ++ mid ++ post →
        run Network.step (Network.start 0 fun _ => 0) pre = some s →
        run Network.step s mid = some t → ∀ who c, s.schedule who = some c →
        ∀ fastest, Bounded who fastest s mid → ∀ time later, (∀ e ∈ mid, time ≤ e.time) →
        t.now ≤ later → time ≤ later → ∃ d, t.schedule who = some d ∧
          0 ≤ beatCount d later - beatCount c time ∧
            beatCount d later - beatCount c time ≤ fastest * (later - time) :=
  tempo_continuous (by decide +kernel)

/-- Tempos are positive, and set for beats that the clock has not passed. -/
def Network.Asks (s : Network ι) (e : Event ι) : Prop :=
  match e.act with
  | .new _ _ tempo _ => 0 < tempo
  | .setTempoAtBeat i tempo beats => 0 < tempo ∧
      ∀ c ∈ (s.member i).clock, beatAt e.time c.current ≤ beats
  | _ => True

instance (s : Network ι) : ∀ e, Decidable (s.Asks e)
  | ⟨.new _ _ tempo _, _⟩ => inferInstanceAs (Decidable (0 < tempo))
  | ⟨.setTempoAtBeat i tempo beats, time⟩ => inferInstanceAs (Decidable (0 < tempo ∧
      ∀ c ∈ (s.member i).clock, beatAt time c.current ≤ beats))
  | ⟨.connect _, _⟩ | ⟨.getAll _, _⟩ | ⟨.serve _ _, _⟩ | ⟨.deliver _ _, _⟩
  | ⟨.advance _ _, _⟩ => isTrue trivial

/-- The member sets the one for beat twenty while the one for beat ten waits. -/
def atOnce : List (Event Unit) :=
  changing ++ [⟨.setTempoAtBeat () 3 20, 0⟩, ⟨.serve () [], 0⟩, ⟨.getAll (), 16⟩,
    ⟨.serve () [], 16⟩]

def waitingTwo : Cohort := ((Cohort.new (atBeat 0 1)).put (atBeat 10 2)).put (atBeat 20 3)

/-- The state for beat twenty starts from twenty seconds and the one before it is there at
    fifteen: the cohort goes from beat eighteen back to beat five. -/
theorem pending_changes_jump :
    Along Network.step Network.Asks (Network.start 0 fun _ => 0) atOnce ∧
      ¬ Along Network.step Network.Agrees (Network.start 0 fun _ => 0) atOnce ∧
        ((run Network.step (Network.start 0 fun _ => 0) (atOnce.take 8)).bind
          (·.cohort)) = some waitingTwo ∧ beatCount waitingTwo 14 = 18 ∧
            beatCount waitingTwo 15 = 5 := by
  decide +kernel

end SCLOrkClock
