import SCLOrkTools.Wire.Channel

/- The start of a session. The accept and the confirm both reset the serials of the wire
   that gets them, and data may already be on its way when they arrive. -/
namespace SCLOrkWire
open GuardedRun RingBuffer WrapInteger
variable {Args : Type}

structure Forward (old new : Wire Args) : Prop where
  sendSerial : signed old.sendSerial ≤ signed new.sendSerial
  sendAckSerial : signed old.sendAckSerial ≤ signed new.sendAckSerial
  receiveSerial : signed old.receiveSerial ≤ signed new.receiveSerial

structure SessionSound (start : World Side Args) (es : List (Event Side Args)) : Prop where
  forward : ∀ pre e post w next, es = pre ++ e :: post → start.run pre = some w →
    w.step e = some next → ∀ i, Forward (w.wires i) (next.wires i)
  delivered : ∀ pre post w, es = pre ++ post → start.run pre = some w → ∀ x, Delivered w x

structure Linked (w : World Side Args) : Prop where
  honest : Honest w
  paired : Paired w
  channel : ∀ x, Channel w x

theorem linked_new (r : Roster Side) (wide : ∀ i, 0 < r.bufferSize i) :
    Linked (World.new r : World Side Args) where
  honest := honest_new r
  paired := paired_new r
  channel x := channel_of_fresh (fun i => ⟨rfl, rfl, rfl, rfl⟩) wide (fun q mem => by cases mem)
    rfl rfl rfl

/-- Each step of a session: only these two wires, every reset finds its wire fresh, no data
    arrives from beyond the ring, and no message takes a serial that has wrapped round. -/
structure Orderly (w : World Side Args) (e : Event Side Args) : Prop where
  between : Between w e
  fresh : ResetsFresh w e
  window : ∀ i, InWindow i w e
  unwrapped : ∀ i, Unwrapped i w e

theorem linked_step {w next : World Side Args} {e : Event Side Args} (linked : Linked w)
    (orderly : Orderly w e) (step : w.step e = some next) : Linked next where
  honest := honest_step linked.honest step
  paired := paired_step linked.paired linked.honest orderly.between step
  channel x := channel_step (linked.channel x) linked.paired orderly.between orderly.fresh
    (orderly.window x.other) (orderly.unwrapped x) step

theorem step_heard {w next : World Side Args} {e : Event Side Args} (between : Between w e)
    (step : w.step e = some next) (i : Side) : w.heard i <+: next.heard i := by
  rcases step_cases step (between_settled between) with thins | ⟨v, j, s, thins, -, rfl⟩
  · have same : next.heard i = w.heard i := congrFun thins.heard i
    exact same ▸ List.prefix_rfl
  · rw [← thins.heard]
    by_cases here : i = j
    · rw [here, act_heard_self]
      exact List.prefix_append _ _
    · have same := act_heard_ne v j s here
      exact same ▸ List.prefix_rfl

theorem step_sendAckSerial {w next : World Side Args} {e : Event Side Args}
    (between : Between w e) (fresh : ResetsFresh w e) (step : w.step e = some next) (i : Side) :
    (next.wires i).sendAckSerial = (w.wires i).sendAckSerial ∨
      (next.wires i).sendAckSerial = following (w.wires i).sendAckSerial := by
  rcases step_cases step (between_settled between) with thins | ⟨v, j, s, thins, cause, rfl⟩
  · exact Or.inl (by rw [thins.wires])
  · rw [← thins.wires]
    by_cases here : i = j
    · subst here
      rw [act_wires_self]
      have steady : Resets (v.wires i) s → (v.wires i).Fresh := by
        rw [thins.wires]
        exact fresh_of_cause fresh cause
      exact (reacts_sendAckSerial (react_reacts _ s) steady).imp_right And.left
    · exact Or.inl (by rw [act_wires_ne _ _ _ here])

theorem forward_step {w next : World Side Args} {e : Event Side Args} (linked : Linked w)
    (orderly : Orderly w e) (step : w.step e = some next) (i : Side) :
    Forward (w.wires i) (next.wires i) := by
  have after := linked_step linked orderly step
  have sending := linked.channel i
  have sending' := after.channel i
  have receiving := linked.channel i.other
  have receiving' := after.channel i.other
  obtain ⟨-, count, acked, sent⟩ := channel_delivers sending
  obtain ⟨-, -, acked', sent'⟩ := channel_delivers sending'
  have heard := (channel_delivers receiving).2
  have heard' := (channel_delivers receiving').2
  rw [other_other] at heard heard'
  refine ⟨?_, ?_, ?_⟩
  · have grown := congrArg List.length (step_passed orderly.between step i)
    rw [List.length_append] at grown
    have short := sending'.short
    have := sending.count
    have := sending'.count
    exact (signed_le (by omega) (by omega)).mpr (by omega)
  · have short := sending.short
    have short' := sending'.short
    have := sending.count
    have := sending'.count
    have moved := step_sendAckSerial orderly.between orderly.fresh step i
    rw [following_early (by omega)] at moved
    exact (signed_le (by omega) (by omega)).mpr (by omega)
  · have grown := (step_heard orderly.between step i).length_le
    have short := receiving.short
    have short' := receiving'.short
    have := receiving.count
    have := receiving'.count
    exact (signed_le (by omega) (by omega)).mpr (by omega)

/-- Over every run from two new wires. -/
theorem session_start (r : Roster Side) (wide : ∀ i, 0 < r.bufferSize i)
    (es : List (Event Side Args)) (orderly : Along World.step Orderly (World.new r) es) :
    SessionSound (World.new r) es := by
  have linked (pre post : List (Event Side Args)) (w : World Side Args) (shape : es = pre ++ post)
      (ran : (World.new r).run pre = some w) : Linked w := by
    rw [shape, along_append] at orderly
    exact run_invariant Linked (fun _ _ _ => linked_step) (linked_new r wide) orderly.1 ran
  constructor
  · intro pre e post w next shape ran step i
    have here := along_iff_prefixes.mp orderly pre e post shape w ran
    exact forward_step (linked pre (e :: post) w shape ran) here step i
  · intro pre post w shape ran x
    exact channel_delivered ((linked pre post w shape ran).channel x)

section Decide
variable [DecidableEq Args]

instance (w : Wire Args) : Decidable w.Fresh :=
  decidable_of_iff (w.sendSerial = 0 ∧ w.sendAckSerial = 0 ∧ w.receiveSerial = 0 ∧
      w.receiveBuffer = WrapArray.clear w.bufferSize)
    ⟨fun ⟨a, b, c, d⟩ => ⟨a, b, c, d⟩, fun ⟨a, b, c, d⟩ => ⟨a, b, c, d⟩⟩

instance (w : Wire Args) : ∀ s, Decidable (Resets w s)
  | .packet _ (.wireConnectAccept responderId initiatorId) =>
    inferInstanceAs (Decidable (w.heeds (.wireConnectAccept responderId initiatorId)))
  | .packet _ (.wireConnectConfirm initiatorId) =>
    inferInstanceAs (Decidable (w.heeds (.wireConnectConfirm initiatorId)))
  | .call _ | .timer _ | .packet _ (.wireKnock _ _) | .packet _ (.wireConnectRequest _ _)
  | .packet _ (.wireSend _ _ _) | .packet _ (.wireAck _ _) | .packet _ (.wireDisconnect _)
  | .packet _ (.wireDisconnectConfirm _) => isFalse id

instance (w : World Side Args) : ∀ e, Decidable (ResetsFresh w e)
  | .deliver i n => inferInstanceAs (Decidable (∀ d ∈ w.inFlight[n]?, d.dest = w.address i →
      Resets (w.wires i) (.packet (w.ip d.source) d.packet) → (w.wires i).Fresh))
  | .call _ _ | .timer _ _ | .lose _ | .duplicate _ | .bind _ | .unbind _ | .knocked _ _ =>
    isTrue trivial

instance (w : World Side Args) (e : Event Side Args) : Decidable (Orderly w e) :=
  decidable_of_iff (Between w e ∧ ResetsFresh w e ∧ (∀ i, InWindow i w e) ∧ ∀ i, Unwrapped i w e)
    ⟨fun ⟨a, b, c, d⟩ => ⟨a, b, c, d⟩, fun ⟨a, b, c, d⟩ => ⟨a, b, c, d⟩⟩

end Decide

theorem session_start_confirmed : SessionSound (World.new duo)
    [.call .a (.connect ⟨2, 7666⟩), .deliver .b 0, .deliver .a 0, .duplicate 0, .deliver .b 0,
      .deliver .b 0, .call .a (.sendMsg 10), .call .b (.sendMsg 20), .deliver .b 0,
      .deliver .a 0] :=
  session_start duo (fun i => by cases i <;> decide) _ (by decide)

/-- The first message overtakes the confirm, which then resets the responder; the message is
    retransmitted and handed over once more. -/
theorem confirm_resets_responder : ¬ SessionSound (World.new duo)
    [.call .a (.connect ⟨2, 7666⟩), .deliver .b 0, .deliver .a 0, .call .a (.sendMsg 10),
      .deliver .b 1, .deliver .b 0, .timer .a 1, .deliver .b 1] := by
  intro sound
  let es : List (Event Side Nat) :=
    [.call .a (.connect ⟨2, 7666⟩), .deliver .b 0, .deliver .a 0, .call .a (.sendMsg 10),
      .deliver .b 1, .deliver .b 0, .timer .a 1, .deliver .b 1]
  have ends : ((World.new duo).run es).map (fun w =>
      (w.heard .b, w.passed .a, (w.wires .b).receiveSerial)) = some ([10, 10], [10], 1) := by
    decide
  obtain ⟨w, ran, shape⟩ := Option.map_eq_some_iff.mp ends
  simp only [Prod.mk.injEq] at shape
  have count := (sound.delivered es [] w rfl ran .a).count
  simp [Side.other, shape, signed] at count

end SCLOrkWire
