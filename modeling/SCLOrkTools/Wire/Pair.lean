import SCLOrkTools.Wire.DataPlane
import SCLOrkTools.Wire.World

/- Two wires that talk to each other only. -/
namespace SCLOrkWire
open GuardedRun
variable {Args : Type}

inductive Side where
  | a | b
  deriving DecidableEq, Repr

def Side.other : Side → Side
  | .a => .b
  | .b => .a

@[simp] theorem other_other (i : Side) : i.other.other = i := by cases i <;> rfl
@[simp] theorem other_ne (i : Side) : i.other ≠ i := by cases i <;> simp [Side.other]
@[simp] theorem ne_other (i : Side) : i ≠ i.other := (other_ne i).symm

theorem side_cases (i j : Side) : j = i ∨ j = i.other := by
  cases i <;> cases j <;> simp [Side.other]

def Packet.isKnock : Packet Args → Bool
  | .wireKnock _ _ => true
  | _ => false

instance {P : Side → Prop} [DecidablePred P] : Decidable (∀ i, P i) :=
  decidable_of_iff (P .a ∧ P .b) ⟨fun ⟨a, b⟩ => by rintro (_ | _) <;> assumption,
    fun each => ⟨each .a, each .b⟩⟩

/-- Each wire sends to the other, its knocks excepted: these go to a bound port. -/
structure Paired (w : World Side Args) : Prop where
  apart : w.address .a ≠ w.address .b
  netAddr : ∀ i a, (w.wires i).netAddr = some a → a = w.address i.other
  retries : ∀ i, ∀ r ∈ (w.wires i).retries, r.request.message.isKnock = false →
    r.netAddr = w.address i.other
  flights : ∀ d ∈ w.inFlight, d.packet.isKnock = false → d.dest = w.address d.source.other

theorem address_injective {w : World Side Args} (paired : Paired w) {i j : Side}
    (same : w.address i = w.address j) : i = j := by
  have apart := paired.apart
  cases i <;> cases j <;> simp_all

theorem source_other {w : World Side Args} (paired : Paired w) {d : Datagram Side Args} {i : Side}
    (mem : d ∈ w.inFlight) (dest : d.dest = w.address i) (packet : d.packet.isKnock = false) :
    d.source = i.other := by
  have there := address_injective paired ((paired.flights d mem packet).symm.trans dest)
  rw [← there, other_other]

theorem paired_thins {v w : World Side Args} (paired : Paired w) (thins : Thins v w) :
    Paired v := by
  refine ⟨?_, ?_, ?_, ?_⟩
  · rw [thins_address thins, thins_address thins]; exact paired.apart
  · intro i a addr
    rw [thins.wires] at addr; rw [thins_address thins]; exact paired.netAddr i a addr
  · intro i r mem knock
    rw [thins.wires] at mem; rw [thins_address thins]; exact paired.retries i r mem knock
  · intro d mem knock
    rw [thins_address thins]; exact paired.flights d (thins.inFlight mem) knock

/-- The addresses that a stimulus brings are the other wire's. -/
def Toward (w : World Side Args) (i : Side) : Stimulus Args → Prop
  | .call (.connect a) => a = w.address i.other
  | .packet ip (.wireConnectRequest returnPort _) => ⟨ip, returnPort⟩ = w.address i.other
  | _ => True

theorem toward_thins {v w : World Side Args} (thins : Thins v w) {i : Side} {s : Stimulus Args}
    (toward : Toward w i s) : Toward v i s := by
  unfold Toward at toward ⊢
  rw [thins_address thins]
  exact toward

theorem makes_toward {w : World Side Args} (paired : Paired w) {i : Side} {s : Stimulus Args}
    (toward : Toward w i s) {a : NetAddr} {q : Request Args} (makes : Makes (w.wires i) s a q)
    (knock : q.message.isKnock = false) : a = w.address i.other := by
  cases makes with
  | knock => simp [Request.message, Packet.isKnock] at knock
  | connect => exact toward
  | send _ addr | disconnect _ addr => exact paired.netAddr i _ addr
  | accept => exact toward

theorem replies_toward {w : World Side Args} (paired : Paired w) {i : Side} {s : Stimulus Args}
    {a : NetAddr} {p : Packet Args} (replies : Replies (w.wires i) s a p) :
    a = w.address i.other := by
  cases replies with
  | confirm _ _ addr | ack _ addr | disconnectConfirm _ addr => exact paired.netAddr i _ addr

theorem reacts_netAddr {w : Wire Args} {s : Stimulus Args} {r : Reaction Args}
    (reacts : Reacts w s r) : r.wire.netAddr = w.netAddr ∨
      (∃ a, s = .call (.connect a) ∧ r.wire.netAddr = some a) ∨
      (∃ ip port id, s = .packet ip (.wireConnectRequest port id) ∧
        r.wire.netAddr = some ⟨ip, port⟩) := by
  cases reacts with
  | connect => exact Or.inr (Or.inl ⟨_, rfl, by simp⟩)
  | connectRequest => exact Or.inr (Or.inr ⟨_, _, _, rfl, by simp⟩)
  | _ => exact Or.inl (by simp [Wire.idle, Wire.stopRetry, Wire.setRetry])

theorem paired_act {w : World Side Args} (paired : Paired w) {i : Side} {s : Stimulus Args}
    (toward : Toward w i s) : Paired (w.act i s) := by
  have reacts := react_reacts (w.wires i) s
  refine ⟨?_, ?_, ?_, ?_⟩
  · simpa using paired.apart
  · intro j a addr
    rw [act_address]
    by_cases here : j = i
    · subst here
      rw [act_wires_self] at addr
      rcases reacts_netAddr reacts with same | ⟨b, rfl, now⟩ | ⟨ip, port, id, rfl, now⟩
      · exact paired.netAddr j a (same ▸ addr)
      · rw [now, Option.some.injEq] at addr
        exact addr ▸ toward
      · rw [now, Option.some.injEq] at addr
        exact addr ▸ toward
    · rw [act_wires_ne _ _ _ here] at addr
      exact paired.netAddr j a addr
  · intro j r mem knock
    rw [act_address]
    by_cases here : j = i
    · subst here
      rw [act_wires_self] at mem
      rcases reacts_retries reacts r mem with ⟨old, there, request, addr, -⟩ | makes
      · rw [addr]
        exact paired.retries j old there (request ▸ knock)
      · exact makes_toward paired toward makes knock
    · rw [act_wires_ne _ _ _ here] at mem
      exact paired.retries j r mem knock
  · intro d mem knock
    rw [act_address]
    rcases (mem_act_inFlight w i s).mp mem with old | ⟨out, sent, rfl⟩
    · exact paired.flights d old knock
    · rcases reacts_sends reacts out sent with ⟨old, there, _, rfl⟩ | ⟨q, makes, message⟩ | replies
      · exact paired.retries i old there knock
      · exact makes_toward paired toward makes (message ▸ knock)
      · exact replies_toward paired replies

/-- No wire is bound anew, and connect is called for the other wire only. -/
def Between (w : World Side Args) : Event Side Args → Prop
  | .call i (.connect a) => a = w.address i.other
  | .knocked _ _ => False
  | _ => True

theorem between_settled {w : World Side Args} {e : Event Side Args} (between : Between w e) :
    ∀ j n, e ≠ .knocked j n := by
  rintro j n rfl
  exact between

theorem toward_of_cause {w : World Side Args} (paired : Paired w) (honest : Honest w)
    {e : Event Side Args} {i : Side} {s : Stimulus Args} (cause : Cause w e i s)
    (between : Between w e) : Toward w i s := by
  cases cause with
  | call _ c =>
    cases c with
    | connect a => exact between
    | _ => trivial
  | timer => trivial
  | deliver found dest =>
    rename_i n d
    have mem := List.mem_of_getElem? found
    cases packet : d.packet with
    | wireConnectRequest returnPort responderId =>
      have source := source_other paired mem dest (by rw [packet]; rfl)
      have names := honest.flights d mem
      rw [packet] at names
      simp [Toward, World.address, names.1, source]
    | _ => trivial

theorem paired_step {w next : World Side Args} {e : Event Side Args} (paired : Paired w)
    (honest : Honest w) (between : Between w e) (step : w.step e = some next) : Paired next := by
  rcases step_cases step (between_settled between) with thins | ⟨v, i, s, thins, cause, rfl⟩
  · exact paired_thins paired thins
  · exact paired_act (paired_thins paired thins)
      (toward_thins thins (toward_of_cause paired honest cause between))

instance (w : World Side Args) : ∀ e, Decidable (Between w e)
  | .call i (.connect a) => inferInstanceAs (Decidable (a = w.address i.other))
  | .knocked _ _ => isFalse id
  | .call _ (.knock _) | .call _ (.sendMsg _) | .call _ .disconnect | .call _ .prDropLine
  | .timer _ _ | .deliver _ _ | .lose _ | .duplicate _ | .bind _ | .unbind _ => isTrue trivial

theorem paired_new (r : Roster Side) : Paired (World.new r : World Side Args) := by
  refine ⟨?_, ?_, ?_, ?_⟩
  · intro same
    cases r.addresses same
  · intro i a addr
    cases addr
  · intro i q mem
    cases mem
  · intro d mem
    cases mem

theorem paired_run (r : Roster Side) {es : List (Event Side Args)} {w : World Side Args}
    (between : Along World.step Between (World.new r) es) (ran : (World.new r).run es = some w) :
    Honest w ∧ Paired w :=
  run_invariant (fun w : World Side Args => Honest w ∧ Paired w)
    (fun _ _ _ ⟨honest, paired⟩ between step =>
      ⟨honest_step honest step, paired_step paired honest between step⟩)
    ⟨honest_new r, paired_new r⟩ between ran

end SCLOrkWire
