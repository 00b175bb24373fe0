import SCLOrkTools.Library.GuardedRun
import SCLOrkTools.Clock.Agreement

/- Requests that only ask for the state of a cohort groom it on the way. The server grooms
   after a change and not before it, so what the grooming left undone may be what the change
   is compared with. -/
namespace SCLOrkClock
open Schedules GuardedRun

/-- The change is for a later beat than the state that the next grooming makes current, or
    for its very beat, at which no other state of the cohort begins. -/
def Cohort.Follows (c : Cohort) (s : SCLOrkClockState) (time : ℚ) : Prop :=
  (c.prGroomState time).current.applyAtBeat < s.applyAtBeat ∨
    (c.prGroomState time).Forward s time ∧
      c.line.countP (fun r => r.applyAtBeat = s.applyAtBeat) ≤ 1

/-- Nothing has come due since the last grooming, or the change follows what has. -/
def Cohort.Steady (c : Cohort) (s : SCLOrkClockState) (time : ℚ) : Prop :=
  c.Settled (beatAt time) ∨ c.Follows s time

instance (c : Cohort) (s : SCLOrkClockState) (time : ℚ) : Decidable (c.Steady s time) :=
  inferInstanceAs (Decidable (_ ∨ _ ∨ _ ∧ _))

section Change
variable {c : Cohort} {s : SCLOrkClockState} {time : ℚ}

theorem follows_kept (follows : c.Follows s time) :
    (c.prGroomState time).current.applyAtBeat ≤ s.applyAtBeat := by
  rcases follows with later | ⟨later | ⟨same, -⟩, -⟩
  · exact later.le
  · exact later.le
  · exact same.le

theorem clockChange_follows (ordered : c.Ordered) (follows : c.Follows s time) :
    c.clockChange s time = (c.put s).promote (beatAt time) := by
  have kept := (Schedule.current_le_promote (beatAt time) ordered).trans (follows_kept follows)
  rcases kept.lt_or_eq with later | same
  · rw [Cohort.clockChange, Cohort.accept, if_neg (not_le.mpr later)]
    rfl
  -- the current state begins at the beat of the change, so no waiting one does
  · rcases follows with past | ⟨forward, alone⟩
    · exact (same.not_lt (lt_of_le_of_lt
        (Schedule.current_le_promote (beatAt time) ordered) past)).elim
    · have fresh : (c.prGroomState time).current ∉ c.queue.items := by
        intro waiting
        have begins : (c.prGroomState time).current.applyAtBeat = s.applyAtBeat :=
          le_antisymm (follows_kept (.inr ⟨forward, alone⟩))
            (same ▸ Schedule.current_le_promote (beatAt time) ordered)
        have two : 2 ≤ c.line.countP (fun r => r.applyAtBeat = s.applyAtBeat) := by
          rw [Schedule.line, List.countP_cons_of_pos (by simpa using same)]
          exact Nat.succ_le_succ (List.countP_pos_iff.mpr ⟨_, waiting, by simpa using begins⟩)
        omega
      have unchanged : c.prGroomState time = c := Schedule.promote_unchanged fresh
      have settled := Schedule.promote_settled (beatAt time) c
      change (c.prGroomState time).Settled (beatAt time) at settled
      rw [unchanged] at settled forward
      exact clockChange_forward settled forward

theorem clockChange_groomed (running : Running c) (ordered : c.Ordered) {before : ℚ}
    (order : before ≤ time) (steady : c.Steady s time) :
    (c.prGroomState before).clockChange s time = c.clockChange s time := by
  have forward := beatAt_mono running order
  rcases steady with settled | follows
  · have still : c.Settled (beatAt before) := fun r waiting =>
      (forward _ List.mem_cons_self).trans_lt (settled r waiting)
    rw [Cohort.prGroomState, Schedule.promote_of_settled still]
  · have again : (c.prGroomState before).prGroomState time = c.prGroomState time :=
      Schedule.promote_promote forward
    have groomed : (c.prGroomState before).Ordered := Schedule.promote_ordered _ ordered
    have follows' : (c.prGroomState before).Follows s time := by
      unfold Cohort.Follows
      rw [again]
      refine follows.imp_right fun ⟨ahead, alone⟩ => ⟨ahead, ?_⟩
      exact le_trans ((Schedule.promote_suffix _ c).sublist.countP_le) alone
    have behind : (c.prGroomState before).current.applyAtBeat ≤ s.applyAtBeat := by
      have := Schedule.current_le_promote (beatAt time) groomed
      exact this.trans (follows_kept follows')
    rw [clockChange_follows ordered follows, clockChange_follows groomed follows']
    exact Schedule.promote_put forward behind

end Change

def Request.isChange : Request → Bool
  | getAll | create _ => false
  | change _ => true

abbrev Arrival := Request × ℚ

def serve (cohort : Option Cohort) (arrivals : List Arrival) : Option Cohort :=
  arrivals.foldl (fun cohort a => handle cohort a.1 a.2) cohort

def Cohort.receive (c : Cohort) (a : Arrival) : Cohort :=
  match a.1 with
  | .getAll | .create _ => c.prGroomState a.2
  | .change s => c.clockChange s a.2

def Cohort.step (c : Cohort) (a : Arrival) : Option Cohort := some (c.receive a)

def Cohort.SteadyAt (c : Cohort) : Arrival → Prop
  | (.change s, time) => c.Steady s time
  | _ => True

instance (c : Cohort) : ∀ a, Decidable (c.SteadyAt a)
  | (.change s, time) => inferInstanceAs (Decidable (c.Steady s time))
  | (.getAll, _) | (.create _, _) => isTrue trivial

/-- The cohort without the queries, and with them: one may have been groomed since. -/
structure Echo (now : ℚ) (plain asked : Cohort) : Prop where
  running : Running plain
  ordered : plain.Ordered
  groomed : asked = plain ∨ ∃ before ≤ now, asked = plain.prGroomState before

theorem echo_query {now time : ℚ} {plain asked : Cohort} (echo : Echo now plain asked)
    (order : now ≤ time) : Echo time plain (asked.prGroomState time) := by
  refine ⟨echo.running, echo.ordered, Or.inr ⟨time, le_rfl, ?_⟩⟩
  rcases echo.groomed with rfl | ⟨before, past, rfl⟩
  · rfl
  · exact Schedule.promote_promote (beatAt_mono echo.running (past.trans order))

theorem echo_change {now time : ℚ} {plain asked : Cohort} {s : SCLOrkClockState}
    (echo : Echo now plain asked) (order : now ≤ time) (positive : 0 < s.tempo)
    (steady : plain.Steady s time) :
    Echo time (plain.clockChange s time) (asked.clockChange s time) := by
  refine ⟨promote_running (accept_running echo.running positive) _,
    Schedule.promote_ordered _ (accept_ordered s echo.ordered), Or.inl ?_⟩
  rcases echo.groomed with rfl | ⟨before, past, rfl⟩
  · rfl
  · exact clockChange_groomed echo.running echo.ordered (past.trans order) steady

theorem echo_end {now last : ℚ} {plain asked : Cohort} (echo : Echo now plain asked)
    (order : now ≤ last) : asked.prGroomState last = plain.prGroomState last := by
  rcases echo.groomed with rfl | ⟨before, past, rfl⟩
  · rfl
  · exact Schedule.promote_promote (beatAt_mono echo.running (past.trans order))

theorem serve_echo {arrivals : List Arrival} {now last : ℚ} {plain asked : Cohort}
    (echo : Echo now plain asked) (start : now ≤ last)
    (times : (now :: arrivals.map Prod.snd).Pairwise (· ≤ ·)) (ends : ∀ a ∈ arrivals, a.2 ≤ last)
    (positive : ∀ s time, (Request.change s, time) ∈ arrivals → 0 < s.tempo)
    (steady : Along Cohort.step Cohort.SteadyAt plain (arrivals.filter fun a => a.1.isChange)) :
    (serve (some asked) arrivals).map (fun c => c.prGroomState last) =
      (serve (some plain) (arrivals.filter fun a => a.1.isChange)).map
        fun c => c.prGroomState last := by
  induction arrivals generalizing now plain asked with
  | nil => exact congrArg some (echo_end echo start)
  | cons a rest ih =>
    obtain ⟨least, later⟩ := List.pairwise_cons.mp times
    have order : now ≤ a.2 := least a.2 List.mem_cons_self
    have rest_ends : ∀ b ∈ rest, b.2 ≤ last := fun b member =>
      ends b (List.mem_cons_of_mem a member)
    have rest_positive : ∀ s time, (Request.change s, time) ∈ rest → 0 < s.tempo :=
      fun s time member => positive s time (List.mem_cons_of_mem a member)
    have rest_start : a.2 ≤ last := ends a List.mem_cons_self
    obtain ⟨r, time⟩ := a
    cases r with
    | getAll | create =>
      exact ih (echo_query echo order) rest_start later rest_ends rest_positive steady
    | change s =>
      obtain ⟨now_steady, rest_steady⟩ := steady
      have next := echo_change echo order (positive s time List.mem_cons_self) now_steady
      exact ih next rest_start later rest_ends rest_positive (rest_steady _ rfl)

/-- Of a run whose changes are steady when nobody asks, queries change nothing. -/
theorem queries_harmless {c : Cohort} (ordered : c.Ordered) (running : Running c)
    {arrivals : List Arrival} {last : ℚ} (times : (arrivals.map Prod.snd).Pairwise (· ≤ ·))
    (ends : ∀ a ∈ arrivals, a.2 ≤ last)
    (positive : ∀ s time, (Request.change s, time) ∈ arrivals → 0 < s.tempo)
    (steady : Along Cohort.step Cohort.SteadyAt c (arrivals.filter fun a => a.1.isChange)) :
    (serve (some c) arrivals).map (fun c => c.prGroomState last) =
      (serve (some c) (arrivals.filter fun a => a.1.isChange)).map
        fun c => c.prGroomState last := by
  cases arrivals with
  | nil => rfl
  | cons a rest =>
    have echo : Echo a.2 c c := ⟨running, ordered, Or.inl rfl⟩
    have start : a.2 ≤ last := ends a List.mem_cons_self
    refine serve_echo echo start ?_ ends positive steady
    refine List.pairwise_cons.mpr ⟨?_, times⟩
    intro time member
    rcases List.mem_cons.mp member with rfl | later
    · exact le_rfl
    · exact (List.pairwise_cons.mp times).1 time later

theorem queries_harmless_created :
    (serve (some (Cohort.new (atBeat 0 1))) [(.change (atBeat 10 2), 1), (.getAll, 11),
        (.change (atBeat 12 3), 12)]).map (fun c => c.prGroomState 20) =
      (serve (some (Cohort.new (atBeat 0 1))) ([(.change (atBeat 10 2), 1), (.getAll, 11),
        (.change (atBeat 12 3), 12)].filter fun a => a.1.isChange)).map
          fun c => c.prGroomState 20 :=
by
  refine queries_harmless (new_ordered _) (new_running (by decide)) (by decide +kernel)
    (by decide +kernel) ?_ (by decide +kernel)
  intro s time member
  simp only [List.mem_cons, Prod.mk.injEq, Request.change.injEq, reduceCtorEq, false_and,
    false_or, List.not_mem_nil, or_false] at member
  rcases member with ⟨rfl, -⟩ | ⟨rfl, -⟩ <;> decide

/-- At fifteen seconds the change for beat ten is due. One for beat five is overtaken by it,
    unless somebody has asked for the clocks just before: then the one for beat ten is lost. -/
theorem query_loses_change :
    (serve (some (Cohort.new (atBeat 0 1))) [(.change (atBeat 10 2), 1), (.getAll, 15),
        (.change (atBeat 5 3), 15)]).map (fun c => c.prGroomState 15) ≠
      (serve (some (Cohort.new (atBeat 0 1))) ([(.change (atBeat 10 2), 1), (.getAll, 15),
        (.change (atBeat 5 3), 15)].filter fun a => a.1.isChange)).map
          fun c => c.prGroomState 15 := by
  decide +kernel

end SCLOrkClock
