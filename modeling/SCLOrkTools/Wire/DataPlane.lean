import SCLOrkTools.Wire.Reaction

/- The serials and the receive ring of one wire: what the drain loop does, and which
   reactions move what. While fewer than 2^31 messages are sent, no serial wraps round. -/
namespace SCLOrkWire
open RingBuffer WrapInteger
variable {Args : Type}

def Inbox.round (b : Inbox Args) (messageArray : Args) : Inbox Args :=
  ⟨following b.receiveSerial,
    b.receiveBuffer.wrapPutInt (signed (following b.receiveSerial)) none,
    b.received ++ [messageArray]⟩

/-- Loop rule: what every round preserves holds when the loop stops. -/
theorem drain_invariant (inv : Inbox Args → Prop)
    (round : ∀ b m, inv b → b.waiting = some m → inv (b.round m)) (fuel : Nat) {b : Inbox Args}
    (start : inv b) : inv (b.drain fuel) := by
  induction fuel generalizing b with
  | zero => exact start
  | succ fuel ih =>
    simp only [Inbox.drain]
    cases slot : b.waiting with
    | none => exact start
    | some m => exact ih (round b m start slot)

/-- Each round empties an occupied slot, so as many rounds as there are slots suffice. -/
theorem drain_pending (fuel : Nat) {b : Inbox Args} (enough : b.receiveBuffer.occupied ≤ fuel) :
    (b.drain fuel).pending = false := by
  have taken {c : Inbox Args} {m : Args} (slot : c.waiting = some m) :
      (c.round m).receiveBuffer.occupied + 1 = c.receiveBuffer.occupied := occupied_take slot
  induction fuel generalizing b with
  | zero =>
    cases slot : b.waiting with
    | none => simp [Inbox.drain, Inbox.pending, slot]
    | some m =>
      have := taken slot
      omega
  | succ fuel ih =>
    simp only [Inbox.drain]
    cases slot : b.waiting with
    | none => simp [Inbox.pending, slot]
    | some m =>
      have := taken slot
      exact ih (b := b.round m) (by omega)

theorem drain_size (fuel : Nat) (b : Inbox Args) :
    (b.drain fuel).receiveBuffer.size = b.receiveBuffer.size :=
  drain_invariant (fun c => c.receiveBuffer.size = b.receiveBuffer.size)
    (fun c m same _ => by simpa [Inbox.round] using same) fuel rfl

def Wire.Sized (w : Wire Args) : Prop := w.receiveBuffer.size = w.bufferSize

theorem accepting_pending {w : Wire Args} (sized : w.Sized) (serial : Nat) (args : Args) :
    (w.accepting serial args).pending = false :=
  drain_pending _ (by
    have := occupied_le_size w.receiveBuffer
    rw [Wire.Sized] at sized
    dsimp only
    omega)

theorem accepting_size (w : Wire Args) (serial : Nat) (args : Args) :
    (w.accepting serial args).receiveBuffer.size = w.receiveBuffer.size :=
  drain_size _ _

def Logged (log : List Args) (serial : Nat) (args : Args) : Prop :=
  0 < serial ∧ log[serial - 1]? = some args

theorem logged_append {log : List Args} {serial : Nat} {args : Args} (more : List Args)
    (logged : Logged log serial args) : Logged (log ++ more) serial args := by
  refine ⟨logged.1, ?_⟩
  have inside : serial - 1 < log.length := by
    by_contra out
    have := logged.2
    rw [List.getElem?_eq_none (by omega)] at this
    cases this
  rw [List.getElem?_append_left inside]
  exact logged.2

theorem logged_le {log : List Args} {serial : Nat} {args : Args}
    (logged : Logged log serial args) : serial ≤ log.length := by
  by_contra out
  have := logged.2
  rw [List.getElem?_eq_none (by omega)] at this
  cases this

theorem take_logged {log : List Args} {n : Nat} {args : Args}
    (logged : Logged log (n + 1) args) : log.take (n + 1) = log.take n ++ [args] := by
  have here : log[n]? = some args := by simpa using logged.2
  rw [List.take_add_one, here]
  rfl

/-- The receive side agrees with the log: what it handed over is the first receiveSerial
    entries, and a slot of the window ahead holds the entry of its serial. `lo` is where
    the window starts. -/
structure Follows (log : List Args) (lo : Nat) (heard : List Args) (receiveSerial : Nat)
    (ring : WrapArray Args) : Prop where
  heard : heard = log.take receiveSerial
  bound : receiveSerial ≤ log.length
  ring : Holds (Logged log) lo ring

theorem follows_append {log heard : List Args} {lo receiveSerial : Nat} {ring : WrapArray Args}
    (more : List Args) (follows : Follows log lo heard receiveSerial ring) :
    Follows (log ++ more) lo heard receiveSerial ring where
  heard := by rw [List.take_append_of_le_length follows.bound]; exact follows.heard
  bound := by simpa using Nat.le_add_right_of_le follows.bound
  ring := holds_mono (fun _ _ => logged_append more) follows.ring

section Short
variable {log heard : List Args}

theorem follows_waiting {b : Inbox Args} (short : log.length < 2 ^ 31)
    (wide : 0 < b.receiveBuffer.size)
    (follows : Follows log (b.receiveSerial + 1) heard b.receiveSerial b.receiveBuffer) :
    b.waiting = b.receiveBuffer.wrapAt (b.receiveSerial + 1) := by
  have bound := follows.bound
  rw [Inbox.waiting, following_early (by omega)]
  by_cases last : b.receiveSerial + 1 = 2 ^ 31
  · have empty (i : Nat) : b.receiveBuffer.wrapAt i = none := by
      cases slot : b.receiveBuffer.wrapAt i with
      | none => rfl
      | some m =>
        obtain ⟨j, above, -, logged⟩ := holds_anywhere follows.ring wide slot
        have := logged_le logged
        omega
    rw [empty]
    exact empty _
  · rw [wrapAtInt_signed _ (by omega)]

/-- Loop rule for a wire that follows a short log: the next serial arrives, and the rounds
    after it are those of the serials that follow. -/
theorem accepting_invariant {w : Wire Args} {args : Args} (inv : Inbox Args → Prop)
    (short : log.length < 2 ^ 31) (sized : w.Sized) (wide : 0 < w.bufferSize)
    (follows : Follows log (w.receiveSerial + 2) heard w.receiveSerial w.receiveBuffer)
    (logged : Logged log (following w.receiveSerial) args)
    (start : inv ⟨w.receiveSerial + 1, w.receiveBuffer, [args]⟩)
    (round : ∀ c : Inbox Args, ∀ m, inv c → w.receiveSerial < c.receiveSerial →
      c.receiveBuffer.size = w.bufferSize →
      inv ⟨c.receiveSerial + 1, c.receiveBuffer.wrapPut (c.receiveSerial + 1) none,
        c.received ++ [m]⟩) :
    let b := w.accepting (following w.receiveSerial) args
    inv b ∧ w.receiveSerial < b.receiveSerial ∧
      b.receiveBuffer.wrapAt (b.receiveSerial + 1) = none ∧
      Follows log (b.receiveSerial + 2) (heard ++ b.received) b.receiveSerial b.receiveBuffer := by
  intro b
  have next : following w.receiveSerial = w.receiveSerial + 1 :=
    following_early (Nat.lt_of_le_of_lt follows.bound short)
  rw [next] at logged
  have loop : (inv b ∧ w.receiveSerial < b.receiveSerial) ∧
      Follows log (b.receiveSerial + 1) (heard ++ b.received) b.receiveSerial b.receiveBuffer ∧
      b.receiveBuffer.size = w.bufferSize := by
    refine drain_invariant (fun c => (inv c ∧ w.receiveSerial < c.receiveSerial) ∧
      Follows log (c.receiveSerial + 1) (heard ++ c.received) c.receiveSerial c.receiveBuffer ∧
      c.receiveBuffer.size = w.bufferSize) ?_ _ ?_
    · intro c m ⟨⟨holds, later⟩, agrees, size⟩ slot
      rw [follows_waiting short (by omega) agrees] at slot
      have entry : Logged log (c.receiveSerial + 1) m :=
        agrees.ring _ m (Nat.le_refl _) (by omega) slot
      have last := logged_le entry
      have plain : c.round m = ⟨c.receiveSerial + 1,
          c.receiveBuffer.wrapPut (c.receiveSerial + 1) none, c.received ++ [m]⟩ := by
        rw [Inbox.round, following_early (by omega), wrapPutInt_signed _ _ (by omega)]
      have emptied := holds_put (v := none) agrees.ring (Nat.le_refl _) (by omega)
        (fun x none => by cases none)
      rw [plain]
      refine ⟨⟨round c m holds later size, by dsimp only; omega⟩, ⟨?_, last, ?_⟩,
        by simpa using size⟩
      · dsimp only
        rw [take_logged entry, ← agrees.heard, List.append_assoc]
      · exact holds_slide emptied (wrapAt_wrapPut_self _ _ _ (by omega))
    · rw [next]
      refine ⟨⟨start, Nat.lt_succ_self _⟩, ⟨?_, logged_le logged, follows.ring⟩, sized⟩
      rw [take_logged logged, ← follows.heard]
  obtain ⟨⟨holds, later⟩, agrees, size⟩ := loop
  have stopped : b.receiveBuffer.wrapAt (b.receiveSerial + 1) = none := by
    have done := accepting_pending sized (following w.receiveSerial) args
    rw [← follows_waiting short (by omega) agrees]
    simpa [Inbox.pending] using done
  exact ⟨holds, later, stopped, agrees.heard, agrees.bound, holds_slide agrees.ring stopped⟩

theorem follows_accepting {w : Wire Args} {args : Args} (short : log.length < 2 ^ 31)
    (sized : w.Sized) (wide : 0 < w.bufferSize)
    (follows : Follows log (w.receiveSerial + 2) heard w.receiveSerial w.receiveBuffer)
    (logged : Logged log (following w.receiveSerial) args) :
    let b := w.accepting (following w.receiveSerial) args
    w.receiveSerial < b.receiveSerial ∧
      Follows log (b.receiveSerial + 2) (heard ++ b.received) b.receiveSerial b.receiveBuffer := by
  have loop := accepting_invariant (fun _ => True) short sized wide follows logged trivial
    fun _ _ _ _ _ => trivial
  exact ⟨loop.2.1, loop.2.2.2⟩

end Short

def Arrived (serial : Nat) (receiveSerial : Nat) (ring : WrapArray Args) : Prop :=
  serial ≤ receiveSerial ∨
  (receiveSerial + 2 ≤ serial ∧ serial ≤ receiveSerial + 1 + ring.size ∧
    (ring.wrapAt serial).isSome = true)

theorem arrived_accepting {log heard : List Args} {w : Wire Args} {serial : Nat} {args : Args}
    (short : log.length < 2 ^ 31) (sized : w.Sized) (wide : 0 < w.bufferSize)
    (follows : Follows log (w.receiveSerial + 2) heard w.receiveSerial w.receiveBuffer)
    (logged : Logged log (following w.receiveSerial) args)
    (arrived : Arrived serial w.receiveSerial w.receiveBuffer) :
    let b := w.accepting (following w.receiveSerial) args
    Arrived serial b.receiveSerial b.receiveBuffer := by
  intro b
  have size : b.receiveBuffer.size = w.receiveBuffer.size := accepting_size w _ args
  have loop := accepting_invariant (fun c => serial ≤ c.receiveSerial ∨
    (c.receiveBuffer.wrapAt serial).isSome = true) short sized wide follows logged
  rcases arrived with old | ⟨above, below, waiting⟩
  · have later : w.receiveSerial < b.receiveSerial :=
      (follows_accepting short sized wide follows logged).1
    exact Or.inl (by omega)
  obtain ⟨there, (later : w.receiveSerial < b.receiveSerial), stopped, -⟩ := loop (Or.inr waiting)
      fun c m there later ring => by
    rcases there with old | held
    · exact Or.inl (by dsimp only; omega)
    · by_cases done : serial ≤ c.receiveSerial + 1
      · exact Or.inl done
      · have window : w.receiveSerial + 2 ≤ c.receiveSerial + 1 ∧
            c.receiveSerial + 1 < w.receiveSerial + 2 + c.receiveBuffer.size := by
          rw [Wire.Sized] at sized
          omega
        right
        rw [wrapAt_wrapPut_window _ _ window (by rw [Wire.Sized] at sized; omega),
          if_neg (by omega)]
        exact held
  rcases there with old | held
  · exact Or.inl old
  · by_cases done : serial ≤ b.receiveSerial
    · exact Or.inl done
    · have other : serial ≠ b.receiveSerial + 1 := by
        intro same
        rw [same, stopped] at held
        cases held
      exact Or.inr ⟨by omega, by omega, held⟩

/-- A heeded accept or confirm: the packets that reset the data plane. -/
def Resets (w : Wire Args) : Stimulus Args → Prop
  | .packet _ (.wireConnectAccept responderId initiatorId) =>
    w.heeds (.wireConnectAccept responderId initiatorId)
  | .packet _ (.wireConnectConfirm initiatorId) => w.heeds (.wireConnectConfirm initiatorId)
  | _ => False

structure Wire.Fresh (w : Wire Args) : Prop where
  sendSerial : w.sendSerial = 0
  sendAckSerial : w.sendAckSerial = 0
  receiveSerial : w.receiveSerial = 0
  receiveBuffer : w.receiveBuffer = WrapArray.clear w.bufferSize

/- What moves the serials of a wire whose resets find nothing to reset. -/
section Steady
variable {w : Wire Args} {s : Stimulus Args} {r : Reaction Args}

theorem reacts_sendSerial (reacts : Reacts w s r) (unused : Resets w s → w.sendSerial = 0)
    (short : w.sendSerial + (w.accepted s).length < 2 ^ 31) :
    r.wire.sendSerial = w.sendSerial + (w.accepted s).length := by
  cases reacts with
  | idle refused => simp [refused]
  | sendMsg connected | sendMsgNil connected =>
    have next : following w.sendSerial = w.sendSerial + 1 := following_early (by omega)
    simp [Wire.accepted, connected, Wire.idle, next]
  | connectAccept listens retry =>
    have nothing := unused ⟨listens, rfl, by simp [retry]⟩
    simp [Wire.accepted, nothing]
  | connectConfirm listens retry =>
    have nothing := unused ⟨listens, rfl, by simp [retry]⟩
    simp [Wire.accepted, nothing]
  | _ => simp [Wire.accepted, Wire.idle, Wire.stopRetry, Wire.setRetry]

theorem reacts_sendAckSerial (reacts : Reacts w s r) (steady : Resets w s → w.Fresh) :
    r.wire.sendAckSerial = w.sendAckSerial ∨
    (r.wire.sendAckSerial = following w.sendAckSerial ∧
      ∃ ip, s = .packet ip (.wireAck (some w.id) (following w.sendAckSerial))) := by
  cases reacts with
  | connectAccept listens retry =>
    have fresh := steady ⟨listens, rfl, by simp [retry]⟩
    simp [fresh.sendAckSerial]
  | connectConfirm listens retry =>
    have fresh := steady ⟨listens, rfl, by simp [retry]⟩
    simp [fresh.sendAckSerial]
  | ackBare | ackHeld => exact Or.inr ⟨rfl, _, rfl⟩
  | _ => exact Or.inl (by simp [Wire.idle, Wire.stopRetry, Wire.setRetry])

theorem reacts_receive (reacts : Reacts w s r) (steady : Resets w s → w.Fresh) :
    (r.wire.receiveSerial = w.receiveSerial ∧ r.wire.receiveBuffer = w.receiveBuffer ∧
      r.received = []) ∨
    (∃ ip args, s = .packet ip (.wireSend (some w.id) (following w.receiveSerial) args) ∧
      r.wire.receiveSerial = (w.accepting (following w.receiveSerial) args).receiveSerial ∧
      r.wire.receiveBuffer = (w.accepting (following w.receiveSerial) args).receiveBuffer ∧
      r.received = (w.accepting (following w.receiveSerial) args).received) ∨
    (∃ ip serial args, s = .packet ip (.wireSend (some w.id) serial args) ∧
      signed w.receiveSerial < signed serial ∧ serial ≠ following w.receiveSerial ∧
      r.wire.receiveSerial = w.receiveSerial ∧
      r.wire.receiveBuffer = w.receiveBuffer.wrapPutInt (signed serial) (some args) ∧
      r.received = []) := by
  cases reacts with
  | connectAccept listens retry =>
    have fresh := steady ⟨listens, rfl, by simp [retry]⟩
    simp [fresh.receiveSerial, fresh.receiveBuffer, Wire.stopRetry]
  | connectConfirm listens retry =>
    have fresh := steady ⟨listens, rfl, by simp [retry]⟩
    simp [fresh.receiveSerial, fresh.receiveBuffer, Wire.stopRetry]
  | sendNext => exact Or.inr (Or.inl ⟨_, _, rfl, rfl, rfl, rfl⟩)
  | sendAhead listens later ahead =>
    exact Or.inr (Or.inr ⟨_, _, _, rfl, later, ahead, rfl, rfl, rfl⟩)
  | _ => exact Or.inl (by simp [Wire.idle, Wire.stopRetry, Wire.setRetry])

theorem sized_reacts (reacts : Reacts w s r) (sized : w.Sized) : r.wire.Sized := by
  cases reacts with
  | sendNext => simpa [Wire.Sized, accepting_size] using sized
  | sendAhead => simpa [Wire.Sized] using sized
  | connectAccept | connectConfirm => simp [Wire.Sized, Wire.stopRetry]
  | _ => simpa [Wire.Sized, Wire.idle, Wire.stopRetry, Wire.setRetry] using sized

theorem reacts_follows {log heard : List Args} (reacts : Reacts w s r)
    (steady : Resets w s → w.Fresh) (short : log.length < 2 ^ 31)
    (follows : Follows log (w.receiveSerial + 2) heard w.receiveSerial w.receiveBuffer)
    (data : ∀ ip id serial args, s = .packet ip (.wireSend id serial args) →
      Logged log serial args) :
    (r.wire.receiveSerial = w.receiveSerial ∧ r.wire.receiveBuffer = w.receiveBuffer ∧
      r.received = []) ∨
    (∃ args, Logged log (following w.receiveSerial) args ∧
      r.wire.receiveSerial = (w.accepting (following w.receiveSerial) args).receiveSerial ∧
      r.wire.receiveBuffer = (w.accepting (following w.receiveSerial) args).receiveBuffer ∧
      r.received = (w.accepting (following w.receiveSerial) args).received) ∨
    (∃ ip serial args, s = .packet ip (.wireSend (some w.id) serial args) ∧
      Logged log serial args ∧ w.receiveSerial + 1 < serial ∧
      r.wire.receiveSerial = w.receiveSerial ∧
      r.wire.receiveBuffer = w.receiveBuffer.wrapPut serial (some args) ∧ r.received = []) := by
  have bound := follows.bound
  rcases reacts_receive reacts steady with same | ⟨ip, args, arrives, moved⟩ |
    ⟨ip, serial, args, arrives, later, ahead, same, ring, quiet⟩
  · exact Or.inl same
  · exact Or.inr (Or.inl ⟨args, data ip _ _ args arrives, moved⟩)
  · have logged := data ip _ _ args arrives
    have last := logged_le logged
    rw [signed_lt (by omega) (by omega)] at later
    rw [following_early (by omega)] at ahead
    rw [wrapPutInt_signed _ _ (by omega)] at ring
    exact Or.inr (Or.inr ⟨ip, serial, args, arrives, logged, by omega, same, ring, quiet⟩)

theorem arrived_reacts {log heard : List Args} (reacts : Reacts w s r)
    (steady : Resets w s → w.Fresh) (short : log.length < 2 ^ 31) (sized : w.Sized)
    (wide : 0 < w.bufferSize)
    (follows : Follows log (w.receiveSerial + 2) heard w.receiveSerial w.receiveBuffer)
    (data : ∀ ip id serial args, s = .packet ip (.wireSend id serial args) →
      Logged log serial args) {serial : Nat}
    (arrived : Arrived serial w.receiveSerial w.receiveBuffer) :
    Arrived serial r.wire.receiveSerial r.wire.receiveBuffer := by
  rcases reacts_follows reacts steady short follows data with ⟨same, ring, _⟩ |
    ⟨args, logged, serial, ring, _⟩ | ⟨_, ahead, args, _, _, _, same, ring, _⟩
  · rw [same, ring]
    exact arrived
  · rw [serial, ring]
    exact arrived_accepting short sized wide follows logged arrived
  · rw [same, ring]
    rcases arrived with old | ⟨above, below, held⟩
    · exact Or.inl old
    · refine Or.inr ⟨above, by simpa using below, ?_⟩
      rw [wrapAt_wrapPut _ _ _ _ (by rw [sized]; exact wide)]
      split
      · rfl
      · exact held

end Steady

theorem send_arrived {log heard : List Args} {w : Wire Args} (listens : w.listening = true)
    (short : log.length < 2 ^ 31) (sized : w.Sized) (wide : 0 < w.bufferSize)
    (follows : Follows log (w.receiveSerial + 2) heard w.receiveSerial w.receiveBuffer) (ip : Nat)
    {serial : Nat} {args : Args} (logged : Logged log serial args)
    (window : serial ≤ w.receiveSerial + 1 + w.bufferSize) :
    let r := w.receive ip (.wireSend (some w.id) serial args)
    Arrived serial r.wire.receiveSerial r.wire.receiveBuffer := by
  have bound := follows.bound
  have last := logged_le logged
  have next : following w.receiveSerial = w.receiveSerial + 1 := following_early (by omega)
  have order : signed serial ≤ signed w.receiveSerial ↔ serial ≤ w.receiveSerial :=
    signed_le (by omega) (by omega)
  simp only [Wire.receive, listens, ↓reduceIte, Wire.sendOSCFunc]
  by_cases old : signed serial ≤ signed w.receiveSerial
  · simp only [old, ↓reduceIte]
    exact Or.inl (order.mp old)
  · by_cases here : serial = following w.receiveSerial
    · subst here
      have later : w.receiveSerial < (w.accepting (following w.receiveSerial) args).receiveSerial :=
        (follows_accepting short sized wide follows logged).1
      simp only [old, ↓reduceIte]
      exact Or.inl (by rw [next] at later ⊢; exact later)
    · simp only [old, here, ↓reduceIte]
      rw [order] at old
      rw [Wire.Sized] at sized
      rw [wrapPutInt_signed _ _ (by omega)]
      refine Or.inr ⟨by omega, ?_, ?_⟩
      · rw [size_wrapPut, sized]
        exact window
      · rw [wrapAt_wrapPut_self _ _ _ (by omega)]
        rfl

end SCLOrkWire
