import SCLOrkTools.Clock.Server

/- The loop of prGroomState with its queue operations, and what it leaves behind. -/
namespace SCLOrkClock
open Schedules

/-- The states that the loop pops, in turn, and the cohort it leaves. There is none if `fuel`
    turns are not enough. -/
def Cohort.groomLoop (elapsed : ℚ) : ℕ → Cohort → Option (List SCLOrkClockState × Cohort)
  | 0, _ => none
  | fuel + 1, c =>
    match c.queue.topPriority with
    | none => some ([], c)
    | some nextBeat =>
      if nextBeat ≤ c.current.secs2beats elapsed 0 then
        match c.queue.pop with
        | none => none
        | some (currentState, rest) =>
          (groomLoop elapsed fuel ⟨currentState, rest⟩).map fun (popped, groomed) =>
            (currentState :: popped, groomed)
      else some ([], c)

def Cohort.popped (c : Cohort) (elapsed : ℚ) : List SCLOrkClockState := c.taken (beatAt elapsed)

theorem groomLoop_ends (elapsed : ℚ) (c : Cohort) (fuel : ℕ)
    (enough : c.queue.items.length < fuel) :
    Cohort.groomLoop elapsed fuel c = some (c.popped elapsed, c.prGroomState elapsed) := by
  induction fuel generalizing c with
  | zero => omega
  | succ fuel ih =>
    obtain ⟨current, ⟨items, sorted⟩⟩ := c
    cases items with
    | nil => rfl
    | cons next rest =>
      by_cases due : next.applyAtBeat ≤ current.secs2beats elapsed 0
      · have inner := ih ⟨next, ⟨rest, (List.pairwise_cons.mp sorted).2⟩⟩
          (by simpa using enough)
        have front : Cohort.groomLoop elapsed (fuel + 1) ⟨current, ⟨next :: rest, sorted⟩⟩ =
            (Cohort.groomLoop elapsed fuel
              ⟨next, ⟨rest, (List.pairwise_cons.mp sorted).2⟩⟩).map fun (popped, groomed) =>
                (next :: popped, groomed) := if_pos due
        rw [front, inner, Option.map_some]
        have popped : Cohort.popped ⟨current, ⟨next :: rest, sorted⟩⟩ elapsed =
            next :: Cohort.popped ⟨next, ⟨rest, (List.pairwise_cons.mp sorted).2⟩⟩ elapsed :=
          if_pos due
        have groomed := Schedule.promote_due (beatAt elapsed) sorted due
        rw [popped, Cohort.prGroomState, Cohort.prGroomState, groomed]
      · have stays : Cohort.groomLoop elapsed (fuel + 1) ⟨current, ⟨next :: rest, sorted⟩⟩ =
            some ([], ⟨current, ⟨next :: rest, sorted⟩⟩) := if_neg due
        have none : Cohort.popped ⟨current, ⟨next :: rest, sorted⟩⟩ elapsed = [] := if_neg due
        have same := Schedule.promote_later (beatAt elapsed) sorted (not_le.mp due)
        rw [stays, none, Cohort.prGroomState, same]

structure Grooms (elapsed : ℚ) (c groomed : Cohort) (popped : List SCLOrkClockState) : Prop where
  ends : ∀ fuel, c.queue.items.length < fuel →
    Cohort.groomLoop elapsed fuel c = some (popped, groomed)
  all : c.queue.items = popped ++ groomed.queue.items
  inOrder : popped.Pairwise (·.applyAtBeat ≤ ·.applyAtBeat)
  last : groomed.current = popped.getLastD c.current
  later : ∀ s ∈ groomed.queue.items, groomed.current.secs2beats elapsed 0 < s.applyAtBeat

theorem grooms (elapsed : ℚ) (c : Cohort) :
    Grooms elapsed c (c.prGroomState elapsed) (c.popped elapsed) where
  ends := groomLoop_ends elapsed c
  all := (List.cons.inj (Schedule.promote_line (beatAt elapsed) c)).2
  inOrder := Schedule.taken_sorted (beatAt elapsed) c
  last := Schedule.loop_current (beatAt elapsed) c.current c.queue.items
  later := Schedule.promote_settled (beatAt elapsed) c

/-- Grooming early and once more later is grooming later. -/
theorem groom_exact (c : Cohort) (running : Running c) :
    (∀ time, Grooms time c (c.prGroomState time) (c.popped time)) ∧
      ∀ time later, time ≤ later →
        (c.prGroomState time).prGroomState later = c.prGroomState later := by
  constructor
  · intro time
    exact grooms time c
  · intro time later order
    exact Schedule.promote_promote (beatAt_mono running order)

def accelerating : Cohort :=
  let start := SCLOrkClockState.new "default" 0 1 4
  let twice := start.setTempoAtBeat 2 2
  ((Cohort.new start).put twice).put (twice.setTempoAtBeat 3 4)

theorem groom_exact_accelerating :
    Grooms 3 accelerating (accelerating.prGroomState 3) (accelerating.popped 3) ∧
      (accelerating.prGroomState 3).prGroomState 5 = accelerating.prGroomState 5 := by
  have running : Running accelerating :=
    put_running (put_running (new_running (by decide +kernel)) (by decide +kernel))
      (by decide +kernel)
  exact ⟨(groom_exact accelerating running).1 3,
    (groom_exact accelerating running).2 3 5 (by decide +kernel)⟩

end SCLOrkClock
