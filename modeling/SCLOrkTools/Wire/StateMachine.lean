import Mathlib.Data.List.Induction
import SCLOrkTools.Wire.Reaction

/- The life cycle of connectionState under arbitrary packets: most handlers look at the
   id of a packet and not at the state it finds. -/
namespace SCLOrkWire
open ConnectionState
variable {Args : Type}

def Wire.after (w : Wire Args) (es : List (Stimulus Args)) : Wire Args :=
  es.foldl (fun w s => (w.react s).wire) w

theorem after_append (w : Wire Args) (es fs : List (Stimulus Args)) :
    w.after (es ++ fs) = (w.after es).after fs := by
  simp [Wire.after, List.foldl_append]

theorem after_snoc (w : Wire Args) (es : List (Stimulus Args)) (s : Stimulus Args) :
    w.after (es ++ [s]) = ((w.after es).react s).wire := by
  simp [Wire.after, List.foldl_append]

/-- The changes of connectionState a wire should make, with the call or packet that makes
    those that open a connection. -/
def Allowed (s : Stimulus Args) (old new : ConnectionState) : Prop :=
  old = new ∨
  match new with
  | neverConnected => False
  | knocking => (old = neverConnected ∨ old = disconnected ∨ old = failureTimeout) ∧
      ∃ a, s = .call (.knock a)
  | connectionRequested => (old = neverConnected ∨ old = disconnected ∨ old = failureTimeout) ∧
      ∃ a, s = .call (.connect a)
  | connectionAccepted => (old = neverConnected ∨ old = knocking ∨ old = disconnected) ∧
      ∃ ip port id, s = .packet ip (.wireConnectRequest port id)
  | connected => old = connectionRequested ∨ old = connectionAccepted
  | disconnectRequested => old = connected
  | disconnected => old = connected ∨ old = disconnectRequested
  | failureTimeout => old = knocking ∨ old = connectionRequested ∨ old = connectionAccepted ∨
      old = connected ∨ old = disconnectRequested

def Opening (s : ConnectionState) : Prop := s = connectionRequested ∨ s = connectionAccepted
def Closed (s : ConnectionState) : Prop := s = disconnected ∨ s = failureTimeout

structure WellBehaved (w : Wire Args) (es : List (Stimulus Args)) : Prop where
  changes : ∀ pre s post, es = pre ++ s :: post →
    Allowed s (w.after pre).connectionState (w.after (pre ++ [s])).connectionState
  reconnects : ∀ pre mid post, es = pre ++ mid ++ post → Closed (w.after pre).connectionState →
    (w.after (pre ++ mid)).connectionState = connected →
    ∃ front back, mid = front ++ back ∧ Opening (w.after (pre ++ front)).connectionState
  clean : ∀ pre mid post, es = pre ++ mid ++ post → (w.after pre).connectionState = disconnected →
    (w.after (pre ++ mid)).connectionState = failureTimeout →
    ∃ front back, mid = front ++ back ∧
      ((w.after (pre ++ front)).connectionState = knocking ∨
        Opening (w.after (pre ++ front)).connectionState)

/-- A retry whose next timer calls onFail: keepGoing is no longer consulted. -/
def Wire.spent (w : Wire Args) (ref : Nat) : Prop :=
  ∃ r, w.retries[ref]? = some r ∧ r.scheduled = true ∧ r.maxRetries ≤ r.retries

/-- The packet or timer finds the wire in a state it is meant for. -/
def Timely (w : Wire Args) : Stimulus Args → Prop
  | .call _ => True
  | .timer ref => w.spent ref → w.connectionState ≠ disconnected
  | .packet _ p => w.heeds p →
    match p with
    | .wireConnectAccept _ _ | .wireConnectConfirm _ =>
      Opening w.connectionState ∨ w.connectionState = connected
    | .wireDisconnect _ | .wireDisconnectConfirm _ =>
      w.connectionState = connected ∨ w.connectionState = disconnectRequested ∨
        w.connectionState = disconnected
    | _ => True

/-- A wire that was never connected has made no retry and no address yet. -/
def Started (w : Wire Args) : Prop :=
  w.connectionState = neverConnected →
    w.retries = [] ∧ w.connectionRetry = none ∧ w.netAddr = none

theorem started_reacts {w : Wire Args} {s : Stimulus Args} {r : Reaction Args}
    (started : Started w) (reacts : Reacts w s r) : Started r.wire := by
  cases reacts with
  | idle => exact started
  | sendMsg connected | sendMsgNil connected => intro never; simp_all
  | prDropLine => exact started
  | sendOld | sendNext | sendAhead | ackBare => exact started
  | ackHeld =>
    intro never
    obtain ⟨retries, rest⟩ := started never
    exact ⟨by simp [Wire.stopRetry, retries], rest⟩
  | retryAgain found | retryDone found =>
    intro never
    have retries := (started never).1
    simp [retries] at found
  | retryFailed => intro never; simp [Wire.setRetry] at never
  | _ => intro never; simp at never

theorem started_after {w : Wire Args} (started : Started w) (es : List (Stimulus Args)) :
    Started (w.after es) := by
  induction es generalizing w with
  | nil => exact started
  | cons s es ih => exact ih (started_reacts started (react_reacts w s))

theorem allowed_call (w : Wire Args) (c : Call Args) :
    Allowed (.call c) w.connectionState (w.call c).wire.connectionState := by
  have reacts := call_reacts w c
  generalize w.call c = r at reacts
  cases reacts with
  | knock may => exact Or.inr (by simpa [mayOpen, or_assoc] using may)
  | connect may => exact Or.inr (by simpa [mayOpen, or_assoc] using may)
  | disconnect connected => exact Or.inr (by simpa using connected)
  | disconnectNil connected => exact Or.inr (by simpa using connected)
  | _ => exact Or.inl rfl

theorem timer_state (w : Wire Args) (ref : Nat) :
    (w.spent ref ∧ (w.retryFunction ref).wire.connectionState = failureTimeout) ∨
    (¬ w.spent ref ∧ (w.retryFunction ref).wire.connectionState = w.connectionState) := by
  unfold Wire.retryFunction Wire.spent
  cases found : w.retries[ref]? with
  | none => simp
  | some r =>
    by_cases scheduled : r.scheduled = true
    · by_cases left : r.retries < r.maxRetries
      · have unspent : ¬ r.maxRetries ≤ r.retries := by omega
        simp only [scheduled, left, ↓reduceIte]
        split <;> simp [Wire.setRetry, unspent]
      · simp [scheduled, left, Wire.setRetry, Nat.not_lt.mp left]
    · simp [scheduled]

theorem allowed_timer_iff {w : Wire Args} (started : Started w) (ref : Nat) :
    Allowed (.timer ref : Stimulus Args) w.connectionState
      (w.retryFunction ref).wire.connectionState ↔ Timely w (.timer ref) := by
  rcases timer_state w ref with ⟨spent, state⟩ | ⟨unspent, state⟩
  · have never : w.connectionState ≠ neverConnected := by
      intro never
      obtain ⟨r, found, _⟩ := spent
      simp [(started never).1] at found
    rw [state]
    simp only [Allowed, Timely]
    cases s : w.connectionState <;> simp_all
  · rw [state]
    exact ⟨fun _ spent => absurd spent unspent, fun _ => Or.inl rfl⟩

theorem allowed_packet_iff (w : Wire Args) (ip : Nat) (p : Packet Args) :
    Allowed (.packet ip p) w.connectionState (w.receive ip p).wire.connectionState ↔
      Timely w (.packet ip p) := by
  by_cases heeded : w.heeds p
  · rw [receive_heeded_state ip heeded]
    cases p with
    | wireKnock => exact heeded.elim
    | wireConnectRequest port id =>
      have may : w.connectionState = neverConnected ∨ w.connectionState = knocking ∨
          w.connectionState = disconnected := by
        simpa [mayAccept, or_assoc] using heeded.2
      simp [Allowed, Packet.outcome, Timely, may]
    | wireConnectAccept | wireConnectConfirm =>
      simp only [Allowed, Packet.outcome, Timely, heeded, Opening, true_imp_iff]
      tauto
    | wireDisconnect | wireDisconnectConfirm =>
      simp only [Allowed, Packet.outcome, Timely, heeded, true_imp_iff]
      tauto
    | wireSend | wireAck => simp [Allowed, Packet.outcome, Timely]
  · rw [receive_unheeded ip heeded]
    exact ⟨fun _ heeds => absurd heeds heeded, fun _ => Or.inl rfl⟩

theorem allowed_iff_timely {w : Wire Args} (started : Started w) (s : Stimulus Args) :
    Allowed s w.connectionState (w.react s).wire.connectionState ↔ Timely w s := by
  cases s with
  | call c => exact ⟨fun _ => trivial, fun _ => allowed_call w c⟩
  | timer ref => exact allowed_timer_iff started ref
  | packet ip p => exact allowed_packet_iff w ip p

/-- A set of states that allowed changes leave only through `exits` is left only there. -/
theorem stays_until {w : Wire Args} {inside exits : ConnectionState → Prop}
    (leaves : ∀ (s : Stimulus Args) old new, inside old → Allowed s old new →
      inside new ∨ exits new)
    {mid : List (Stimulus Args)} (start : inside w.connectionState)
    (allowed : ∀ pre s post, mid = pre ++ s :: post →
      Allowed s (w.after pre).connectionState (w.after (pre ++ [s])).connectionState) :
    inside (w.after mid).connectionState ∨
      ∃ front back, mid = front ++ back ∧ exits (w.after front).connectionState := by
  induction mid using List.reverseRecOn with
  | nil => exact Or.inl start
  | append_singleton mid s ih =>
    rcases ih (fun pre t post shape => allowed pre t (post ++ [s]) (by simp [shape])) with
      still | ⟨front, back, shape, out⟩
    · rcases leaves s _ _ still (allowed mid s [] rfl) with still | out
      · exact Or.inl still
      · exact Or.inr ⟨mid ++ [s], [], by simp, out⟩
    · exact Or.inr ⟨front, back ++ [s], by simp [shape], out⟩

theorem closed_leaves (s : Stimulus Args) (old new : ConnectionState)
    (inside : Closed old ∨ old = knocking) (allowed : Allowed s old new) :
    (Closed new ∨ new = knocking) ∨ Opening new := by
  cases new with
  | connected | disconnectRequested | neverConnected =>
    rcases inside with (rfl | rfl) | rfl <;> simp [Allowed] at allowed
  | _ => simp [Closed, Opening]

theorem disconnected_leaves (s : Stimulus Args) (old new : ConnectionState)
    (inside : old = disconnected) (allowed : Allowed s old new) :
    new = disconnected ∨ new = knocking ∨ Opening new := by
  cases new <;> simp_all [Allowed, Opening]

theorem wellBehaved_of_changes {w : Wire Args} {es : List (Stimulus Args)}
    (changes : ∀ pre s post, es = pre ++ s :: post →
      Allowed s (w.after pre).connectionState (w.after (pre ++ [s])).connectionState) :
    WellBehaved w es := by
  have middle : ∀ pre mid post, es = pre ++ mid ++ post → ∀ front s back,
      mid = front ++ s :: back → Allowed s ((w.after pre).after front).connectionState
        ((w.after pre).after (front ++ [s])).connectionState := by
    intro pre mid post shape front s back inner
    have step := changes (pre ++ front) s (back ++ post) (by simp [shape, inner])
    rw [List.append_assoc, after_append, after_append w pre] at step
    exact step
  refine ⟨changes, ?_, ?_⟩
  · intro pre mid post shape closed reached
    rcases stays_until closed_leaves (Or.inl closed) (middle pre mid post shape) with
      still | ⟨front, back, inner, out⟩
    · rw [← after_append, reached] at still
      simp [Closed] at still
    · exact ⟨front, back, inner, by rw [after_append]; exact out⟩
  · intro pre mid post shape start reached
    rcases stays_until disconnected_leaves start (middle pre mid post shape) with
      still | ⟨front, back, inner, out⟩
    · rw [← after_append, reached] at still
      cases still
    · exact ⟨front, back, inner, by rw [after_append]; exact out⟩

/-- Over every run of a new wire, under any packets, calls and timers. -/
theorem wellBehaved_iff_timely (receivePort id maxRetries bufferSize : Nat)
    (es : List (Stimulus Args)) :
    WellBehaved (Wire.new receivePort id maxRetries bufferSize) es ↔
      ∀ pre s post, es = pre ++ s :: post →
        Timely ((Wire.new receivePort id maxRetries bufferSize).after pre) s := by
  have started (pre : List (Stimulus Args)) :
      Started ((Wire.new receivePort id maxRetries bufferSize).after pre) :=
    started_after (fun _ => ⟨rfl, rfl, rfl⟩) pre
  constructor
  · intro behaved pre s post shape
    have change := behaved.changes pre s post shape
    rw [after_snoc] at change
    exact (allowed_iff_timely (started pre) s).mp change
  · intro timely
    apply wellBehaved_of_changes
    intro pre s post shape
    rw [after_snoc]
    exact (allowed_iff_timely (started pre) s).mpr (timely pre s post shape)

/-- Six timers exhaust a connect; the accept of that attempt arrives afterwards. -/
theorem late_accept_reconnects :
    ¬ WellBehaved (Wire.new 7666 27 5 32 : Wire Unit)
      [.call (.connect ⟨1, 7667⟩), .timer 0, .timer 0, .timer 0, .timer 0, .timer 0, .timer 0,
        .packet 1 (.wireConnectAccept 27 26)] := by
  intro behaved
  let attempt : List (Stimulus Unit) :=
    [.call (.connect ⟨1, 7667⟩), .timer 0, .timer 0, .timer 0, .timer 0, .timer 0, .timer 0]
  have change := behaved.changes attempt (.packet 1 (.wireConnectAccept 27 26)) [] rfl
  have before : ((Wire.new 7666 27 5 32).after attempt).connectionState = failureTimeout := by
    decide
  have reached : ((Wire.new 7666 27 5 32).after
      (attempt ++ [.packet 1 (.wireConnectAccept 27 26)])).connectionState = connected := by
    decide
  rw [before, reached] at change
  simp [Allowed] at change

end SCLOrkWire
