import Mathlib.Data.Fintype.Basic
import SCLOrkTools.Wire.DataPlane
import SCLOrkTools.Wire.PeerBinding

/- Several sessions of the same wires. A packet names its receiver and not its session, so
   what is left of one session can reach into the next. The messages here carry, as part
   of their contents, who passed them to sendMsg and in which session. -/
namespace SCLOrkWire
open GuardedRun RingBuffer WrapInteger
variable {ι Args : Type}

structure Payload (ι Args : Type) where
  sender : ι
  session : Option Nat
  args : Args
  deriving DecidableEq

/-- `i` and `j` are the two wires of session `x`. -/
def Party (parties : List (ι × ι)) (x : Nat) (i j : ι) : Prop :=
  parties[x]? = some (i, j) ∨ parties[x]? = some (j, i)

theorem party_symm {parties : List (ι × ι)} {x : Nat} {i j : ι} (party : Party parties x i j) :
    Party parties x j i := Or.symm party

theorem party_append {parties : List (ι × ι)} {x : Nat} {i j : ι} (more : List (ι × ι))
    (party : Party parties x i j) : Party (parties ++ more) x i j := by
  have keep {p : ι × ι} (found : parties[x]? = some p) : (parties ++ more)[x]? = some p := by
    rw [List.getElem?_append_left (List.getElem?_eq_some_iff.mp found).1]
    exact found
  exact party.imp keep keep

def Datagram.origin (d : Datagram ι (Payload ι Args)) : Option Nat :=
  match d.packet with
  | .wireSend _ _ t => t.session
  | _ => d.session

theorem party_unique {parties : List (ι × ι)} {x : Nat} {i j k : ι} (one : Party parties x i j)
    (two : Party parties x i k) : j = k := by
  rcases one with one | one <;> rcases two with two | two <;>
    · rw [one, Option.some.injEq, Prod.mk.injEq] at two
      simp_all

def Packet.isPlain : Packet Args → Bool
  | .wireSend _ _ _ | .wireAck _ _ | .wireDisconnect _ | .wireDisconnectConfirm _ => true
  | _ => false

def Packet.target : Packet Args → Option Nat
  | .wireSend id _ _ | .wireAck id _ | .wireDisconnect id | .wireDisconnectConfirm id => id
  | _ => none

/-- The message was passed to sendMsg by the peer of wire `i`, in the session `i` is in. -/
def Current (w : World ι (Payload ι Args)) (i : ι) (t : Payload ι Args) : Prop :=
  ∃ x, w.session i = some x ∧ t.session = some x ∧ Party w.parties x i t.sender

def Foreign (w : World ι (Payload ι Args)) (i : ι) (d : Datagram ι (Payload ι Args)) : Prop :=
  ∀ x, w.session i = some x → d.origin ≠ some x

section Run
variable [DecidableEq ι]

structure Isolated (start : World ι (Payload ι Args)) (es : List (Event ι (Payload ι Args))) :
    Prop where
  payloads : ∀ pre e post w next, es = pre ++ e :: post → start.run pre = some w →
    w.step e = some next → ∀ i, ∃ fresh, next.heard i = w.heard i ++ fresh ∧
      ∀ t ∈ fresh, Current w i t
  packets : ∀ pre i n post w next d, es = pre ++ .deliver i n :: post → start.run pre = some w →
    w.inFlight[n]? = some d → d.packet.isPlain = true → Foreign w i d →
    w.step (.deliver i n) = some next → next.wires i = w.wires i

/-- What the client passes to sendMsg says who passes it and in which session. -/
def Labelled (w : World ι (Payload ι Args)) (e : Event ι (Payload ι Args)) : Prop :=
  ∀ i t, e = .call i (.sendMsg t) → t.sender = i ∧ t.session = w.session i

end Run

def Wire.InTouch (w : Wire Args) : Prop :=
  w.connectionState = .connected ∨ w.connectionState = .disconnectRequested

def Within (w : World ι Args) (i j : ι) : Prop :=
  ∃ x ∈ w.session i, w.session j = some x ∧ Party w.parties x i j

theorem within_symm {w : World ι Args} {i j : ι} (within : Within w i j) : Within w j i := by
  obtain ⟨x, here, there, party⟩ := within
  exact ⟨x, there, here, party_symm party⟩

/-- Nothing is left of what wire `i` has had to do with others: no plain packet from it or to it
    is in flight or up for retransmission, no wire in touch has it as its peer, and its ring
    holds no message. -/
structure Over (w : World ι Args) (i : ι) : Prop where
  flights : ∀ d ∈ w.inFlight, d.packet.isPlain = true →
    d.source ≠ i ∧ d.packet.target ≠ some (w.wires i).id
  retries : ∀ j, ∀ r ∈ (w.wires j).retries, r.scheduled = true →
    r.request.message.isPlain = true → j ≠ i ∧ r.request.message.target ≠ some (w.wires i).id
  peers : ∀ j, (w.wires j).InTouch → (w.wires j).selfId ≠ some (w.wires i).id
  ring : (w.wires i).receiveBuffer.isEmpty = true

/-- A handshake that keeps sessions apart: what a wire leaves for another session is over, and
    whoever it comes into touch with is in its session. -/
def Apart (w : World ι Args) (i : ι) (d : Datagram ι Args) : Prop :=
  match d.packet with
  | .wireConnectRequest _ _ => Over w i
  | .wireConnectAccept _ _ =>
    (∃ x ∈ d.session, w.session d.source = some x ∧ w.parties[x]? = some (d.source, i)) ∧
      (w.session i = d.session ∨ Over w i)
  | .wireConnectConfirm _ => ∃ j, Within w i j
  | _ => True

def Guarded (w : World ι Args) : Event ι Args → Prop
  | .call i (.knock _) | .call i (.connect _) =>
    (w.wires i).connectionState.mayOpen = true → Over w i
  | .deliver i n => ∀ d ∈ w.inFlight[n]?, d.dest = w.address i → (w.wires i).heeds d.packet →
    Apart w i d
  | _ => True

section Reaction
variable {w : Wire Args} {s : Stimulus Args} {r : Reaction Args}

theorem heeded_target {p : Packet Args} (heeds : w.heeds p) (plain : p.isPlain = true) :
    p.target = some w.id := by
  cases p with
  | wireSend | wireAck => exact heeds.2
  | wireDisconnect | wireDisconnectConfirm => exact heeds.2.1
  | wireKnock | wireConnectRequest | wireConnectAccept | wireConnectConfirm => cases plain

theorem plain_of_target {p : Packet Args} {id : Nat} (target : p.target = some id) :
    p.isPlain = true := by
  cases p <;> first | rfl | cases target

theorem accepting_every {P : Args → Prop} {serial : Nat} {args : Args}
    (ring : Every P w.receiveBuffer) (meets : P args) :
    Every P (w.accepting serial args).receiveBuffer ∧
      ∀ t ∈ (w.accepting serial args).received, P t := by
  refine drain_invariant (fun b => Every P b.receiveBuffer ∧ ∀ t ∈ b.received, P t) ?_ _
    ⟨ring, fun t mem => List.mem_singleton.mp mem ▸ meets⟩
  rintro b m ⟨every, handed⟩ slot
  refine ⟨every_put every (fun x none => by cases none), fun t mem => ?_⟩
  rcases List.mem_append.mp mem with old | last
  · exact handed t old
  · rw [List.mem_singleton.mp last]
    exact every _ m slot

theorem reacts_every {P : Args → Prop} (reacts : Reacts w s r) (ring : Every P w.receiveBuffer)
    (data : ∀ ip serial t, s = .packet ip (.wireSend (some w.id) serial t) → w.listening = true →
      P t) : Every P r.wire.receiveBuffer ∧ ∀ t ∈ r.received, P t := by
  cases reacts with
  | connectAccept | connectConfirm =>
    exact ⟨by simpa [Wire.stopRetry] using every_clear P _, by simp [Wire.idle]⟩
  | sendNext listens => exact accepting_every ring (data _ _ _ rfl listens)
  | sendAhead listens =>
    exact ⟨every_put ring fun x put => Option.some.inj put ▸ data _ _ _ rfl listens, by simp⟩
  | _ => exact ⟨by simpa [Wire.idle, Wire.stopRetry, Wire.setRetry] using ring, by simp [Wire.idle]⟩

theorem reacts_touch (reacts : Reacts w s r) (touch : r.wire.InTouch) : w.InTouch ∨ Resets w s := by
  cases reacts with
  | connectAccept listens retry | connectConfirm listens retry =>
    exact Or.inr ⟨listens, rfl, by simp [retry]⟩
  | knock | connect | connectRequest | disconnectPacket | disconnectConfirm | retryFailed =>
    simp [Wire.InTouch, Wire.idle, Wire.setRetry] at touch
  | disconnect connected | disconnectNil connected => exact Or.inl (Or.inl connected)
  | _ => exact Or.inl touch

theorem reacts_selfId (reacts : Reacts w s r) : r.wire.selfId = w.selfId ∨
    (∃ ip port id, s = .packet ip (.wireConnectRequest port id) ∧
      w.heeds (.wireConnectRequest port id) ∧ r.wire.selfId = some id) ∨
    (∃ ip id, s = .packet ip (.wireConnectAccept w.id id) ∧
      w.heeds (.wireConnectAccept w.id id) ∧ r.wire.selfId = some id) := by
  cases reacts with
  | connectRequest listens may =>
    exact Or.inr (Or.inl ⟨_, _, _, rfl, ⟨listens, may⟩, by simp⟩)
  | connectAccept listens retry =>
    exact Or.inr (Or.inr ⟨_, _, rfl, ⟨listens, rfl, by simp [retry]⟩, by simp⟩)
  | _ => exact Or.inl (by simp [Wire.idle, Wire.stopRetry, Wire.setRetry])

theorem reacts_unused (reacts : Reacts w s r)
    (unused : r.wire.connectionState = .neverConnected) : w.connectionState = .neverConnected := by
  cases reacts with
  | knock | connect | disconnect | disconnectNil | connectRequest => simp at unused
  | connectAccept | connectConfirm | disconnectPacket | disconnectConfirm => simp at unused
  | retryFailed => simp [Wire.idle, Wire.setRetry] at unused
  | _ => exact unused

end Reaction

/-- A packet of wire `j` for wire `i` is of the session that both are in. -/
structure Belongs (w : World ι (Payload ι Args)) (j i : ι) (p : Packet (Payload ι Args)) :
    Prop where
  within : Within w j i
  label : ∀ id serial t, p = .wireSend id serial t → t.sender = j ∧ t.session = w.session j

/-- A wire in a session carries the id of the other wire of that session. -/
def Named (w : World ι (Payload ι Args)) (i : ι) : Prop :=
  ∀ x, w.session i = some x →
    ∃ j, Party w.parties x i j ∧ (w.wires i).selfId = some (w.wires j).id

/-- Sessions do not overlap. The wire `moved` is about to act in a session it may have entered
    just now. -/
structure Tidy (moved : Option ι) (w : World ι (Payload ι Args)) : Prop where
  flights : ∀ d ∈ w.inFlight, ∀ i, d.packet.target = some (w.wires i).id →
    Belongs w d.source i d.packet ∧ d.session = w.session d.source
  retries : ∀ j, ∀ r ∈ (w.wires j).retries, r.scheduled = true → ∀ i,
    r.request.message.target = some (w.wires i).id → Belongs w j i r.request.message
  rings : ∀ i, Every (Current w i) (w.wires i).receiveBuffer
  peers : ∀ j, moved ≠ some j → (w.wires j).InTouch →
    ∃ i, (w.wires j).selfId = some (w.wires i).id ∧ Within w j i
  named : ∀ i, moved ≠ some i → Named w i
  unused : ∀ i, moved ≠ some i → (w.wires i).connectionState = .neverConnected →
    w.session i = none

section Settled
variable {w : World ι (Payload ι Args)} {i : ι}

theorem tidy_peer (tidy : Tidy none w) (touch : (w.wires i).InTouch) :
    ∃ j, (w.wires i).selfId = some (w.wires j).id ∧ Within w i j :=
  tidy.peers i (by simp) touch

theorem tidy_named (tidy : Tidy none w) (i : ι) : Named w i :=
  tidy.named i (by simp)

theorem tidy_unused (tidy : Tidy none w)
    (unused : (w.wires i).connectionState = .neverConnected) : w.session i = none :=
  tidy.unused i (by simp) unused

end Settled

/-- `v` has the wires and no other datagrams than `w`, and remembers at least its sessions;
    only the wire `moved` may have changed session. -/
structure Recorded (moved : Option ι) (v w : World ι (Payload ι Args)) : Prop where
  thins : Thins v w
  parties : ∃ more, v.parties = w.parties ++ more
  session : ∀ j, moved ≠ some j → v.session j = w.session j

section Recorded
variable {moved : Option ι} {v w : World ι (Payload ι Args)}

theorem within_recorded (recorded : Recorded moved v w) {i j : ι} (here : moved ≠ some i)
    (there : moved ≠ some j) (within : Within w i j) : Within v i j := by
  obtain ⟨more, parties⟩ := recorded.parties
  obtain ⟨x, one, two, party⟩ := within
  exact ⟨x, (recorded.session i here).trans one, (recorded.session j there).trans two,
    parties ▸ party_append more party⟩

theorem belongs_recorded (recorded : Recorded moved v w) {i j : ι} {p : Packet (Payload ι Args)}
    (here : moved ≠ some j) (there : moved ≠ some i) (belongs : Belongs w j i p) :
    Belongs v j i p where
  within := within_recorded recorded here there belongs.within
  label id serial t same := by
    rw [recorded.session j here]
    exact belongs.label id serial t same

theorem tidy_recorded (tidy : Tidy none w) (recorded : Recorded moved v w)
    (ended : ∀ k ∈ moved, Over w k) : Tidy moved v := by
  have other {i : ι} (apart : ∀ k ∈ moved, i ≠ k) : moved ≠ some i :=
    fun same => apart i same rfl
  have stays (j : ι) : moved ≠ some j → v.session j = w.session j := recorded.session j
  constructor
  · intro d mem i target
    rw [recorded.thins.wires] at target
    have there := recorded.thins.inFlight mem
    have source := other fun k moves => ((ended k moves).flights d there (plain_of_target target)).1
    have dest : moved ≠ some i := other fun k moves same =>
      ((ended k moves).flights d there (plain_of_target target)).2 (same ▸ target)
    obtain ⟨belongs, session⟩ := tidy.flights d there i target
    exact ⟨belongs_recorded recorded source dest belongs, session.trans (stays _ source).symm⟩
  · intro j r mem scheduled i target
    rw [recorded.thins.wires] at mem target
    have source := other fun k moves =>
      ((ended k moves).retries j r mem scheduled (plain_of_target target)).1
    have dest : moved ≠ some i := other fun k moves same =>
      ((ended k moves).retries j r mem scheduled (plain_of_target target)).2 (same ▸ target)
    exact belongs_recorded recorded source dest (tidy.retries j r mem scheduled i target)
  · intro i
    rw [recorded.thins.wires]
    by_cases here : moved = some i
    · exact every_empty (ended i here).ring
    · intro n t held
      obtain ⟨more, parties⟩ := recorded.parties
      obtain ⟨x, session, label, party⟩ := tidy.rings i n t held
      exact ⟨x, (stays i here).trans session, label, parties ▸ party_append more party⟩
  · intro j here touch
    rw [recorded.thins.wires] at touch ⊢
    obtain ⟨i, self, within⟩ := tidy_peer tidy touch
    have there : moved ≠ some i := other fun k moves same =>
      (ended k moves).peers j touch (same ▸ self)
    exact ⟨i, self, within_recorded recorded here there within⟩
  · intro i here x session
    obtain ⟨more, parties⟩ := recorded.parties
    obtain ⟨j, party, self⟩ := tidy_named tidy i x ((stays i here).symm.trans session)
    exact ⟨j, parties ▸ party_append more party, by rw [recorded.thins.wires]; exact self⟩
  · intro i here unused
    rw [recorded.thins.wires] at unused
    exact (stays i here).trans (tidy_unused tidy unused)

theorem recorded_of_same (thins : Thins v w) (parties : v.parties = w.parties)
    (session : v.session = w.session) : Recorded none v w :=
  ⟨thins, ⟨[], by simp [parties]⟩, fun j _ => by rw [session]⟩

theorem tidy_weaken {moved : Option ι} (tidy : Tidy none w) : Tidy moved w :=
  { tidy with
    peers := fun _ _ => tidy_peer tidy
    named := fun i _ => tidy_named tidy i
    unused := fun _ _ => tidy_unused tidy }

end Recorded

section Act
variable [DecidableEq ι]

theorem tidy_act {v : World ι (Payload ι Args)} {i : ι} {s : Stimulus (Payload ι Args)}
    (tidy : Tidy (some i) v)
    (made : ∀ a q, Makes (v.wires i) s a q → ∀ m, q.message.target = some (v.wires m).id →
      Belongs v i m q.message)
    (replied : ∀ a p, Replies (v.wires i) s a p → ∀ m, p.target = some (v.wires m).id →
      Belongs v i m p)
    (data : ∀ ip serial t, s = .packet ip (.wireSend (some (v.wires i).id) serial t) →
      (v.wires i).listening = true → Current v i t)
    (peer : ((v.wires i).react s).wire.InTouch →
      ∃ m, ((v.wires i).react s).wire.selfId = some (v.wires m).id ∧ Within v i m)
    (named : ∀ x, v.session i = some x → ∃ j, Party v.parties x i j ∧
      ((v.wires i).react s).wire.selfId = some (v.wires j).id)
    (unused : ((v.wires i).react s).wire.connectionState = .neverConnected →
      v.session i = none) : Tidy none (v.act i s) := by
  have reacts := react_reacts (v.wires i) s
  have moved {j : ι} (other : j ≠ i) : some i ≠ some j :=
    fun same => other (Option.some.inj same).symm
  -- sessions and parties are those of `v`, so that what belongs there belongs here
  have belongs {j m : ι} {p : Packet (Payload ι Args)} (before : Belongs v j m p) :
      Belongs (v.act i s) j m p := ⟨before.within, before.label⟩
  constructor
  · intro d mem m target
    rw [act_id] at target
    rcases (mem_act_inFlight v i s).mp mem with old | ⟨out, sent, rfl⟩
    · obtain ⟨before, session⟩ := tidy.flights d old m target
      exact ⟨belongs before, session⟩
    · refine ⟨belongs ?_, rfl⟩
      dsimp only at target ⊢
      rcases reacts_sends reacts out sent with ⟨old, there, ⟨scheduled, -⟩, rfl⟩ |
        ⟨q, new, message⟩ | reply
      · exact tidy.retries i old there scheduled m target
      · rw [message] at target ⊢
        exact made _ q new m target
      · exact replied _ _ reply m target
  · intro j r mem scheduled m target
    rw [act_id] at target
    apply belongs
    by_cases here : j = i
    · subst here
      rw [act_wires_self] at mem
      rcases reacts_retries reacts r mem with ⟨old, there, request, -, kept⟩ | new
      · rw [request] at target ⊢
        exact tidy.retries j old there (kept scheduled) m target
      · exact made _ _ new m target
    · rw [act_wires_ne _ _ _ here] at mem
      exact tidy.retries j r mem scheduled m target
  · intro j
    by_cases here : j = i
    · subst here
      rw [act_wires_self]
      exact (reacts_every reacts (tidy.rings j) data).1
    · rw [act_wires_ne _ _ _ here]
      exact tidy.rings j
  · intro j _ touch
    by_cases here : j = i
    · subst here
      rw [act_wires_self] at touch ⊢
      obtain ⟨m, self, within⟩ := peer touch
      exact ⟨m, by rw [act_id]; exact self, within⟩
    · rw [act_wires_ne _ _ _ here] at touch ⊢
      obtain ⟨m, self, within⟩ := tidy.peers j (moved here) touch
      exact ⟨m, by rw [act_id]; exact self, within⟩
  · intro j _ x session
    by_cases here : j = i
    · subst here
      obtain ⟨k, party, self⟩ := named x session
      exact ⟨k, party, by rw [act_wires_self, act_id]; exact self⟩
    · obtain ⟨k, party, self⟩ := tidy.named j (moved here) x session
      exact ⟨k, party, by rw [act_wires_ne _ _ _ here, act_id]; exact self⟩
  · intro j _ now
    by_cases here : j = i
    · subst here
      rw [act_wires_self] at now
      exact unused now
    · rw [act_wires_ne _ _ _ here] at now
      exact tidy.unused j (moved here) now

omit [DecidableEq ι] in
theorem named_peer {w : World ι (Payload ι Args)} {i j : ι} (named : Named w i)
    (within : Within w i j) : (w.wires i).selfId = some (w.wires j).id := by
  obtain ⟨x, session, -, party⟩ := within
  obtain ⟨k, partner, self⟩ := named x session
  rw [self, party_unique party partner]

theorem tidy_stays {v : World ι (Payload ι Args)} {i : ι} {s : Stimulus (Payload ι Args)}
    (distinct : Distinct v) (tidy : Tidy none v)
    (self : ((v.wires i).react s).wire.selfId = (v.wires i).selfId)
    (label : ∀ t, s = .call (.sendMsg t) → t.sender = i ∧ t.session = v.session i)
    (replied : ∀ a p, Replies (v.wires i) s a p → ∀ m, p.target = some (v.wires m).id →
      Belongs v i m p)
    (data : ∀ ip serial t, s = .packet ip (.wireSend (some (v.wires i).id) serial t) →
      (v.wires i).listening = true → Current v i t)
    (resets : Resets (v.wires i) s → ∃ m, Within v i m) : Tidy none (v.act i s) := by
  have reacts := react_reacts (v.wires i) s
  have peer {m : ι} (touch : (v.wires i).InTouch)
      (known : (v.wires i).selfId = some (v.wires m).id) : Within v i m := by
    obtain ⟨k, self, within⟩ := tidy_peer tidy touch
    rw [self, Option.some.injEq] at known
    exact distinct.ids k m known ▸ within
  apply tidy_act (tidy_weaken tidy) ?_ replied data
  · intro touch
    rw [self]
    rcases reacts_touch reacts touch with before | reset
    · exact tidy_peer tidy before
    · obtain ⟨m, within⟩ := resets reset
      exact ⟨m, named_peer (tidy_named tidy i) within, within⟩
  · intro x session
    rw [self]
    exact tidy_named tidy i x session
  · intro now
    exact tidy_unused tidy (reacts_unused reacts now)
  · intro a q new m target
    cases new with
    | send connected =>
      refine ⟨peer (Or.inl connected) target, fun id serial t same => ?_⟩
      simp only [Request.message, Packet.wireSend.injEq] at same
      obtain ⟨-, -, rfl⟩ := same
      exact label _ rfl
    | disconnect connected =>
      exact ⟨peer (Or.inl connected) target, by simp [Request.message]⟩
    | knock | connect | accept => cases target

theorem opening_cases (w : World ι (Payload ι Args)) (i : ι) (c : Call (Payload ι Args)) :
    w.opening i c = w ∨
    (Recorded (some i) (w.opening i c) w ∧ (w.opening i c).session i = none ∧
      (∃ a, c = .knock a ∨ c = .connect a) ∧ (w.wires i).connectionState.mayOpen = true) := by
  have opened (v : World ι (Payload ι Args))
      (shape : v = { w with session := Function.update w.session i none }) :
      Recorded (some i) v w ∧ v.session i = none := by
    subst shape
    refine ⟨⟨⟨rfl, rfl, rfl, rfl, List.Subset.refl _⟩, ⟨[], by simp⟩, fun j other => ?_⟩, by simp⟩
    exact Function.update_of_ne (fun same => other (by rw [same])) _ _
  cases c with
  | knock a | connect a =>
    simp only [World.opening]
    split
    · rename_i may
      obtain ⟨recorded, none⟩ := opened _ rfl
      exact Or.inr ⟨recorded, none, ⟨a, by simp⟩, may⟩
    · exact Or.inl rfl
  | _ => exact Or.inl rfl

theorem tidy_call {w : World ι (Payload ι Args)} {i : ι} {c : Call (Payload ι Args)}
    (distinct : Distinct w) (tidy : Tidy none w) (labelled : Labelled w (.call i c))
    (guarded : Guarded w (.call i c)) : Tidy none ((w.opening i c).act i (.call c)) := by
  rcases opening_cases w i c with same | ⟨recorded, none, ⟨a, opens⟩, may⟩
  · rw [same]
    apply tidy_stays distinct tidy
    · rcases reacts_selfId (react_reacts (w.wires i) (.call c)) with
        same | ⟨_, _, _, ⟨⟩, _⟩ | ⟨_, _, ⟨⟩, _⟩
      exact same
    · rintro t ⟨⟩
      exact labelled i t rfl
    · rintro a p ⟨⟩
    · rintro ip serial t ⟨⟩
    · exact fun reset => reset.elim
  · have ended : Over w i := by
      rcases opens with rfl | rfl <;> exact guarded may
    have wires := recorded.thins.wires
    have moved := tidy_recorded tidy recorded fun k same => Option.some.inj same ▸ ended
    have away : ¬ ((w.wires i).react (.call c)).wire.InTouch := by
      rcases opens with rfl | rfl <;>
        simp [Wire.react, Wire.call, Wire.knock, Wire.connect, may, Wire.InTouch]
    apply tidy_act moved
    · intro a q new m target
      rcases opens with rfl | rfl <;> cases new <;> cases target
    · rintro a p ⟨⟩
    · rintro ip serial t ⟨⟩
    · rw [wires]
      exact fun touch => absurd touch away
    · intro x session
      rw [none] at session
      cases session
    · exact fun _ => none

theorem tidy_timer {w : World ι (Payload ι Args)} {i : ι} {ref : Nat} (distinct : Distinct w)
    (tidy : Tidy none w) : Tidy none (w.act i (.timer ref)) := by
  apply tidy_stays distinct tidy
  · rcases reacts_selfId (react_reacts (w.wires i) (.timer ref)) with
      same | ⟨_, _, _, ⟨⟩, _⟩ | ⟨_, _, ⟨⟩, _⟩
    exact same
  · rintro t ⟨⟩
  · rintro a p ⟨⟩
  · rintro ip serial t ⟨⟩
  · exact fun reset => reset.elim

theorem joining_cases (v : World ι (Payload ι Args)) (i : ι) (d : Datagram ι (Payload ι Args)) :
    (v.joining i d = v ∧
      (∀ port id, d.packet = .wireConnectRequest port id → ¬ (v.wires i).heeds d.packet) ∧
      ∀ rid iid, d.packet = .wireConnectAccept rid iid → ¬ (v.wires i).heeds d.packet) ∨
    (∃ port id, d.packet = .wireConnectRequest port id ∧ (v.wires i).heeds d.packet ∧
      v.joining i d = { v with
        session := Function.update v.session i (some v.parties.length)
        parties := v.parties ++ [(i, d.source)] }) ∨
    (∃ rid iid, d.packet = .wireConnectAccept rid iid ∧ (v.wires i).heeds d.packet ∧
      v.joining i d = { v with
        session := Function.update v.session i
          (d.session.filter fun x => v.parties[x]? = some (d.source, i)) }) := by
  unfold World.joining
  by_cases heeds : (v.wires i).heeds d.packet
  · rw [if_pos heeds]
    cases packet : d.packet with
    | wireConnectRequest port id => exact Or.inr (Or.inl ⟨port, id, rfl, packet ▸ heeds, rfl⟩)
    | wireConnectAccept rid iid => exact Or.inr (Or.inr ⟨rid, iid, rfl, packet ▸ heeds, rfl⟩)
    | _ => exact Or.inl ⟨rfl, by simp, by simp⟩
  · rw [if_neg heeds]
    exact Or.inl ⟨rfl, fun _ _ _ => heeds, fun _ _ _ => heeds⟩

section Deliver
variable {w : World ι (Payload ι Args)} {i : ι} {n : Nat} {d : Datagram ι (Payload ι Args)}

omit [DecidableEq ι] in
theorem heeded_belongs (tidy : Tidy none w) (mem : d ∈ w.inFlight)
    (heeds : (w.wires i).heeds d.packet) (plain : d.packet.isPlain = true) :
    Belongs w d.source i d.packet ∧ d.session = w.session d.source :=
  tidy.flights d mem i (heeded_target heeds plain)

omit [DecidableEq ι] in
theorem belongs_current {serial : Nat} {id : Option Nat} {t : Payload ι Args}
    (belongs : Belongs w d.source i d.packet) (packet : d.packet = .wireSend id serial t) :
    Current w i t := by
  obtain ⟨x, source, session, party⟩ := belongs.within
  obtain ⟨sender, label⟩ := belongs.label id serial t packet
  exact ⟨x, session, label.trans source, sender ▸ party_symm party⟩

theorem tidy_within (distinct : Distinct w) (tidy : Tidy none w) (mem : d ∈ w.inFlight)
    (confirmed : ∀ id, d.packet = .wireConnectConfirm id → (w.wires i).heeds d.packet →
      ∃ m, Within w i m)
    (noRequest : ∀ port id, d.packet = .wireConnectRequest port id → ¬ (w.wires i).heeds d.packet)
    (noAccept : ∀ rid iid, d.packet = .wireConnectAccept rid iid →
      ¬ (w.wires i).heeds d.packet) :
    Tidy none ((w.drop n).act i (.packet (w.ip d.source) d.packet)) := by
  have drops : Tidy none (w.drop n) :=
    tidy_recorded tidy (recorded_of_same (thins_drop w n) rfl rfl) (by simp)
  -- an answer goes to the peer that the packet comes from
  have answer (heeds : (w.wires i).heeds d.packet)
      (plain : d.packet.isPlain = true) {p : Packet (Payload ι Args)} {m : ι}
      (target : (w.wires i).selfId = some (w.wires m).id)
      (control : ∀ id serial t, p ≠ .wireSend id serial t) : Belongs (w.drop n) i m p := by
    have within := within_symm (heeded_belongs tidy mem heeds plain).1.within
    have self := named_peer (tidy_named tidy i) within
    rw [target, Option.some.injEq] at self
    exact ⟨distinct.ids m d.source self ▸ within, fun id serial t same =>
      absurd same (control id serial t)⟩
  have apart : Distinct (w.drop n) :=
    distinct_congr (w := w) ⟨fun _ => rfl, fun _ => rfl⟩ distinct
  apply tidy_stays apart drops
  · rcases reacts_selfId (react_reacts ((w.drop n).wires i) _) with
      same | ⟨ip, port, id, same, heeds, _⟩ | ⟨ip, id, same, heeds, _⟩
    · exact same
    · obtain ⟨-, packet⟩ := Stimulus.packet.inj same
      exact absurd (packet ▸ heeds) (noRequest port id packet)
    · obtain ⟨-, packet⟩ := Stimulus.packet.inj same
      exact absurd (packet ▸ heeds) (noAccept _ id packet)
  · rintro t ⟨⟩
  · intro a p reply m target
    generalize stimulus : Stimulus.packet (w.ip d.source) d.packet = s at reply
    cases reply with
    | confirm => cases target
    | ack listens =>
      obtain ⟨-, packet⟩ := Stimulus.packet.inj stimulus
      exact answer (by rw [packet]; exact ⟨listens, rfl⟩) (by rw [packet]; rfl) target
        (by simp)
    | disconnectConfirm listens addr =>
      obtain ⟨-, packet⟩ := Stimulus.packet.inj stimulus
      have addressed : (w.wires i).netAddr ≠ none := by
        simpa [World.drop] using addr ▸ Option.some_ne_none _
      exact answer (by rw [packet]; exact ⟨listens, rfl, addressed⟩) (by rw [packet]; rfl) target
        (by simp)
  · intro ip serial t same listens
    obtain ⟨-, packet⟩ := Stimulus.packet.inj same
    have heeds : (w.wires i).heeds d.packet := by rw [packet]; exact ⟨listens, rfl⟩
    exact belongs_current (w := w) (heeded_belongs tidy mem heeds (by rw [packet]; rfl)).1 packet
  · intro resets
    cases packet : d.packet with
    | wireConnectAccept rid iid =>
      rw [packet] at resets
      exact absurd (packet ▸ resets) (noAccept rid iid packet)
    | wireConnectConfirm id =>
      rw [packet] at resets
      exact confirmed id packet (packet ▸ resets)
    | _ =>
      rw [packet] at resets
      exact resets.elim

theorem tidy_request {port id : Nat} (honest : Honest w) (tidy : Tidy none w)
    (mem : d ∈ w.inFlight) (packet : d.packet = .wireConnectRequest port id) (ended : Over w i)
    (heeds : (w.wires i).heeds d.packet) :
    Tidy none (World.act { w.drop n with
      session := Function.update w.session i (some w.parties.length)
      parties := w.parties ++ [(i, d.source)] } i (.packet (w.ip d.source) d.packet)) := by
  have names := honest.flights d mem
  rw [packet] at names heeds
  have recorded : Recorded (some i) { w.drop n with
      session := Function.update w.session i (some w.parties.length)
      parties := w.parties ++ [(i, d.source)] } w := by
    refine ⟨⟨rfl, rfl, rfl, rfl, List.eraseIdx_subset⟩, ⟨_, rfl⟩, ?_⟩
    intro j other
    exact Function.update_of_ne (fun same => other (by rw [same])) _ _
  have moved := tidy_recorded tidy recorded fun k same => Option.some.inj same ▸ ended
  have state := receive_heeded_state (w.ip d.source) heeds
  rw [packet]
  apply tidy_act moved
  · intro a q new m target
    cases new with
    | accept => cases target
  · rintro a p ⟨⟩
  · rintro ip serial t ⟨⟩
  · intro touch
    simp only [Wire.InTouch, Wire.react, World.drop] at touch
    rw [state] at touch
    simp [Packet.outcome] at touch
  · intro x session
    simp only [Function.update_self, Option.some.injEq] at session
    refine ⟨d.source, Or.inl (by simp [← session]), ?_⟩
    simp [Wire.react, Wire.receive, Wire.connectRequestOSCFunc, heeds.1, heeds.2, names.2,
      World.drop]
  · intro unused
    simp only [Wire.react, World.drop] at unused
    rw [state] at unused
    cases unused

theorem tidy_accept {rid iid : Nat} (honest : Honest w) (tidy : Tidy none w)
    (mem : d ∈ w.inFlight) (packet : d.packet = .wireConnectAccept rid iid) (apart : Apart w i d)
    (heeds : (w.wires i).heeds d.packet) :
    Tidy none (World.act { w.drop n with
      session := Function.update w.session i
        (d.session.filter fun x => w.parties[x]? = some (d.source, i)) } i
      (.packet (w.ip d.source) d.packet)) := by
  have names := honest.flights d mem
  rw [packet] at names heeds
  simp only [Apart, packet] at apart
  obtain ⟨⟨x, session, source, parties⟩, left⟩ := apart
  have joins : (d.session.filter fun x => w.parties[x]? = some (d.source, i)) = some x := by
    rw [Option.mem_def.mp session, Option.filter_some]
    simp [parties]
  rw [joins]
  generalize shape : ({ w.drop n with
    session := Function.update w.session i (some x) } : World ι (Payload ι Args)) = v
  have thins : Thins v w := shape ▸ ⟨rfl, rfl, rfl, rfl, List.eraseIdx_subset⟩
  have parted : v.parties = w.parties := by rw [← shape]; rfl
  have here : v.session i = some x := by rw [← shape]; simp
  have there : v.session d.source = some x := by
    rw [← shape]
    by_cases same : d.source = i
    · simp [same]
    · simp [same, source]
  have moved : Tidy (some i) v := by
    rcases left with same | ended
    · have still : v.session = w.session := by
        rw [← shape]
        exact Function.update_eq_self_iff.mpr (same.trans session).symm
      exact tidy_weaken (tidy_recorded tidy (recorded_of_same thins parted still) (by simp))
    · refine tidy_recorded tidy ⟨thins, ⟨[], by simp [parted]⟩, fun j other => ?_⟩
        fun k same => Option.some.inj same ▸ ended
      rw [← shape]
      exact Function.update_of_ne (fun same => other (by rw [same])) _ _
  obtain ⟨listens, rfl, retry⟩ := heeds
  obtain ⟨ref, retry⟩ := Option.ne_none_iff_exists'.mp retry
  have own : iid = (w.wires d.source).id := names
  have self : ((v.wires i).react (.packet (w.ip d.source) d.packet)).wire.selfId =
      some (v.wires d.source).id := by
    rw [thins.wires, packet]
    simp [Wire.react, Wire.receive, Wire.connectAcceptOSCFunc, listens, retry, own]
  have state := receive_heeded_state (w := w.wires i) (w.ip d.source)
    (p := .wireConnectAccept (w.wires i).id iid) ⟨listens, rfl, by simp [retry]⟩
  have within : Within v i d.source := ⟨x, here, there, Or.inr (parted ▸ parties)⟩
  rw [packet] at self ⊢
  apply tidy_act moved
  · rintro a q ⟨⟩
  · intro a p reply m target
    generalize stimulus : Stimulus.packet (w.ip d.source) _ = s at reply
    cases reply with
    | confirm => cases target
    | ack | disconnectConfirm => cases stimulus
  · rintro ip serial t ⟨⟩
  · exact fun _ => ⟨d.source, self, within⟩
  · intro y session
    rw [here, Option.some.injEq] at session
    exact ⟨d.source, session ▸ Or.inr (parted ▸ parties), self⟩
  · intro unused
    rw [thins.wires] at unused
    simp only [Wire.react] at unused
    rw [state] at unused
    cases unused

theorem tidy_deliver (honest : Honest w) (distinct : Distinct w) (tidy : Tidy none w)
    (guarded : Guarded w (.deliver i n)) (found : w.inFlight[n]? = some d)
    (dest : d.dest = w.address i) :
    Tidy none (((w.drop n).joining i d).act i (.packet (w.ip d.source) d.packet)) := by
  have mem := List.mem_of_getElem? found
  have apart := guarded d (Option.mem_def.mpr found) dest
  rcases joining_cases (w.drop n) i d with ⟨same, noRequest, noAccept⟩ |
    ⟨port, id, packet, heeds, joined⟩ | ⟨rid, iid, packet, heeds, joined⟩
  · rw [same]
    refine tidy_within distinct tidy mem (fun id packet heeds => ?_) noRequest noAccept
    simpa [Apart, packet] using apart heeds
  · rw [joined]
    have ended : Over w i := by simpa [Apart, packet] using apart heeds
    exact tidy_request honest tidy mem packet ended heeds
  · rw [joined]
    exact tidy_accept honest tidy mem packet (apart heeds) heeds

end Deliver

theorem tidy_made {w v : World ι (Payload ι Args)} {j : ι} (tidy : Tidy none w)
    (unused : (w.wires j).connectionState = .neverConnected)
    (wires : v.wires = Function.update w.wires j (Wire.new (w.wires j).receivePort (w.wires j).id
      (w.wires j).maxRetries (w.wires j).bufferSize))
    (flights : v.inFlight ⊆ w.inFlight) (parties : v.parties = w.parties)
    (session : v.session = Function.update w.session j none) : Tidy none v := by
  have ids (k : ι) : (v.wires k).id = (w.wires k).id := by
    by_cases here : k = j <;> simp [wires, here, Wire.new]
  have sessions : v.session = w.session := by
    rw [session]
    exact Function.update_eq_self_iff.mpr (tidy_unused tidy unused).symm
  have other {k : ι} (there : k ≠ j) : v.wires k = w.wires k := by
    simp [wires, there]
  have within {i k : ι} (before : Within w i k) : Within v i k := by
    rw [Within, sessions, parties]
    exact before
  have belongs {i k : ι} {p : Packet (Payload ι Args)} (before : Belongs w i k p) :
      Belongs v i k p := ⟨within before.within, sessions ▸ before.label⟩
  constructor
  · intro d mem k target
    rw [ids] at target
    obtain ⟨before, label⟩ := tidy.flights d (flights mem) k target
    exact ⟨belongs before, sessions ▸ label⟩
  · intro i r mem scheduled k target
    rw [ids] at target
    by_cases here : i = j
    · simp [wires, here, Wire.new] at mem
    · rw [other here] at mem
      exact belongs (tidy.retries i r mem scheduled k target)
  · intro k
    by_cases here : k = j
    · simp only [wires, here, Function.update_self]
      exact every_clear _ _
    · rw [other here]
      intro n t held
      obtain ⟨x, now, label, party⟩ := tidy.rings k n t held
      exact ⟨x, sessions ▸ now, label, parties ▸ party⟩
  · intro k _ touch
    by_cases here : k = j
    · simp [Wire.InTouch, wires, here, Wire.new] at touch
    · rw [other here] at touch ⊢
      obtain ⟨i, self, before⟩ := tidy_peer tidy touch
      exact ⟨i, by rw [ids]; exact self, within before⟩
  · intro k _ x now
    rw [sessions] at now
    by_cases here : k = j
    · rw [here, tidy_unused tidy unused] at now
      cases now
    · obtain ⟨i, party, self⟩ := tidy_named tidy k x now
      exact ⟨i, parties ▸ party, by rw [other here, ids]; exact self⟩
  · intro k _ never
    rw [sessions]
    by_cases here : k = j
    · rw [here]
      exact tidy_unused tidy unused
    · rw [other here] at never
      exact tidy_unused tidy never

theorem tidy_knocked {w next : World ι (Payload ι Args)} {j : ι} {n : Nat} (tidy : Tidy none w)
    (step : w.step (.knocked j n) = some next) : Tidy none next := by
  obtain ⟨d, _, answered⟩ := Option.bind_eq_some_iff.mp step
  obtain ⟨returnPort, id, serial, _, _, unused, rfl⟩ := answerKnock_cases answered
  have made : Tidy none { w.drop n with
      wires := Function.update w.wires j (Wire.new (w.wires j).receivePort (w.wires j).id
        (w.wires j).maxRetries (w.wires j).bufferSize)
      portSerial := serial
      session := Function.update w.session j none } :=
    tidy_made tidy unused rfl List.eraseIdx_subset rfl rfl
  apply tidy_act (tidy_weaken made)
  · intro a q new m target
    cases new with
    | connect => cases target
  · rintro a p ⟨⟩
  · rintro ip serial t ⟨⟩
  · intro touch
    simp [Wire.InTouch, Wire.react, Wire.call, Wire.connect, Wire.new, ConnectionState.mayOpen]
      at touch
  · intro x session
    simp at session
  · simp

theorem tidy_step {w next : World ι (Payload ι Args)} {e : Event ι (Payload ι Args)}
    (honest : Honest w) (distinct : Distinct w) (tidy : Tidy none w) (labelled : Labelled w e)
    (guarded : Guarded w e) (step : w.step e = some next) : Tidy none next := by
  have same {v : World ι (Payload ι Args)} (thins : Thins v w) (parties : v.parties = w.parties)
      (session : v.session = w.session) : Tidy none v :=
    tidy_recorded tidy (recorded_of_same thins parties session) (by simp)
  cases e with
  | call i c => exact Option.some.inj step ▸ tidy_call distinct tidy labelled guarded
  | timer i ref => exact Option.some.inj step ▸ tidy_timer distinct tidy
  | deliver i n =>
    obtain ⟨d, found, step⟩ := Option.bind_eq_some_iff.mp step
    split at step
    · rename_i dest
      exact Option.some.inj step ▸ tidy_deliver honest distinct tidy guarded found dest
    · cases step
  | lose n =>
    simp only [World.step] at step
    split at step
    · exact Option.some.inj step ▸ same (thins_drop w n) rfl rfl
    · cases step
  | duplicate n =>
    obtain ⟨d, found, rfl⟩ := Option.map_eq_some_iff.mp step
    exact same ⟨rfl, rfl, rfl, rfl, by simpa using List.mem_of_getElem? found⟩ rfl rfl
  | bind a =>
    exact Option.some.inj step ▸ same ⟨rfl, rfl, rfl, rfl, List.Subset.refl _⟩ rfl rfl
  | unbind a =>
    exact Option.some.inj step ▸ same ⟨rfl, rfl, rfl, rfl, List.Subset.refl _⟩ rfl rfl
  | knocked j n => exact tidy_knocked tidy step

theorem fresh_current {w next : World ι (Payload ι Args)} {e : Event ι (Payload ι Args)}
    (tidy : Tidy none w) (step : w.step e = some next) (i : ι) :
    ∃ fresh, next.heard i = w.heard i ++ fresh ∧ ∀ t ∈ fresh, Current w i t := by
  by_cases settled : ∀ j n, e ≠ .knocked j n
  · rcases step_cases step settled with thins | ⟨v, k, s, thins, cause, rfl⟩
    · exact ⟨[], by simp [thins.heard], by simp⟩
    by_cases here : i = k
    · subst here
      refine ⟨_, by rw [act_heard_self, thins.heard], ?_⟩
      rw [thins.wires]
      refine (reacts_every (react_reacts (w.wires i) s) (tidy.rings i) ?_).2
      rintro ip serial t rfl listens
      obtain ⟨n, d, -, found, -, -, packet⟩ := delivered_of_cause cause
      have heeds : (w.wires i).heeds d.packet := by rw [packet]; exact ⟨listens, rfl⟩
      exact belongs_current (heeded_belongs tidy (List.mem_of_getElem? found) heeds
        (by rw [packet]; rfl)).1 packet
    · exact ⟨[], by rw [act_heard_ne _ _ _ here, thins.heard, List.append_nil], by simp⟩
  · simp only [not_forall, not_not] at settled
    obtain ⟨j, n, rfl⟩ := settled
    obtain ⟨d, _, answered⟩ := Option.bind_eq_some_iff.mp step
    obtain ⟨_, _, _, _, _, _, rfl⟩ := answerKnock_cases answered
    refine ⟨[], ?_, by simp⟩
    by_cases here : i = j
    · subst here
      simp [Wire.react, Wire.call, Wire.connect, Wire.new, ConnectionState.mayOpen, World.drop]
    · rw [act_heard_ne _ _ _ here, List.append_nil]
      rfl

theorem foreign_unchanged {w next : World ι (Payload ι Args)} {i : ι} {n : Nat}
    {d : Datagram ι (Payload ι Args)} (tidy : Tidy none w) (found : w.inFlight[n]? = some d)
    (plain : d.packet.isPlain = true) (foreign : Foreign w i d)
    (step : w.step (.deliver i n) = some next) : next.wires i = w.wires i := by
  simp only [World.step, found, Option.bind_some] at step
  split at step
  · rw [← Option.some.inj step, act_wires_self, (thins_joining (thins_drop w n) i d).wires]
    by_cases heeds : (w.wires i).heeds d.packet
    · obtain ⟨belongs, session⟩ :=
        heeded_belongs tidy (List.mem_of_getElem? found) heeds plain
      obtain ⟨x, source, here, -⟩ := belongs.within
      refine absurd ?_ (foreign x here)
      unfold Datagram.origin
      split
      · rename_i id serial t packet
        exact (belongs.label id serial t packet).2.trans source
      · exact session.trans source
    · rw [Wire.react, receive_unheeded _ heeds]
      rfl
  · cases step

/-- Over every run of any number of wires whose sessions do not overlap. -/
theorem session_isolation (r : Roster ι) {es : List (Event ι (Payload ι Args))}
    (labelled : Along World.step Labelled (World.new r) es)
    (guarded : Along World.step Guarded (World.new r) es) : Isolated (World.new r) es := by
  have reached : ∀ pre post w, es = pre ++ post → (World.new r).run pre = some w →
      Tidy none w := by
    intro pre post w shape ran
    have along := along_and labelled guarded
    rw [shape, along_append] at along
    have start : Tidy none (World.new r : World ι (Payload ι Args)) := by
      refine ⟨?_, ?_, fun i => every_clear _ _, ?_, ?_, fun _ _ _ => rfl⟩
      · intro d mem
        cases mem
      · intro j q mem
        cases mem
      · intro j _ touch
        simp [Wire.InTouch, World.new, Roster.wire, Wire.new] at touch
      · intro i _ x session
        cases session
    refine (run_invariant (fun w : World ι (Payload ι Args) =>
      Honest w ∧ Distinct w ∧ Tidy none w) ?_ ⟨honest_new r,
        ⟨fun i j same => r.ids same, fun i j same => r.addresses same⟩, start⟩ along.1 ran).2.2
    rintro v e next ⟨honest, distinct, tidy⟩ ⟨labelled, guarded⟩ step
    exact ⟨honest_step honest step, distinct_congr (names_step step) distinct,
      tidy_step honest distinct tidy labelled guarded step⟩
  constructor
  · intro pre e post w next shape ran step i
    exact fresh_current (reached pre (e :: post) w shape ran) step i
  · intro pre i n post w next d shape ran found plain foreign step
    exact foreign_unchanged (reached pre (.deliver i n :: post) w shape ran) found plain foreign
      step

end Act

section Decide
variable [DecidableEq ι]

instance (w : Wire Args) : Decidable w.InTouch :=
  inferInstanceAs (Decidable (_ ∨ _))

instance (w : World ι Args) (i j : ι) : Decidable (Within w i j) :=
  inferInstanceAs (Decidable (∃ x ∈ w.session i, w.session j = some x ∧ (_ ∨ _)))

instance [Fintype ι] (w : World ι Args) (i : ι) : Decidable (Over w i) :=
  decidable_of_iff
    ((∀ d ∈ w.inFlight, d.packet.isPlain = true →
        d.source ≠ i ∧ d.packet.target ≠ some (w.wires i).id) ∧
      (∀ j, ∀ r ∈ (w.wires j).retries, r.scheduled = true → r.request.message.isPlain = true →
        j ≠ i ∧ r.request.message.target ≠ some (w.wires i).id) ∧
      (∀ j, (w.wires j).InTouch → (w.wires j).selfId ≠ some (w.wires i).id) ∧
      (w.wires i).receiveBuffer.isEmpty = true)
    ⟨fun ⟨a, b, c, d⟩ => ⟨a, b, c, d⟩, fun ⟨a, b, c, d⟩ => ⟨a, b, c, d⟩⟩

instance [Fintype ι] (w : World ι Args) (i : ι) (d : Datagram ι Args) :
    Decidable (Apart w i d) := by
  unfold Apart
  split <;> infer_instance

instance [Fintype ι] (w : World ι Args) : ∀ e, Decidable (Guarded w e)
  | .call i (.knock _) | .call i (.connect _) =>
    inferInstanceAs (Decidable ((w.wires i).connectionState.mayOpen = true → Over w i))
  | .deliver i n => inferInstanceAs (Decidable (∀ d ∈ w.inFlight[n]?, d.dest = w.address i →
      (w.wires i).heeds d.packet → Apart w i d))
  | .call _ (.sendMsg _) | .call _ .disconnect | .call _ .prDropLine
  | .timer _ _ | .lose _ | .duplicate _ | .bind _ | .unbind _ | .knocked _ _ => isTrue trivial

instance (w : World ι (Payload ι Args)) : ∀ e, Decidable (Labelled w e)
  | .call i (.sendMsg t) =>
    decidable_of_iff (t.sender = i ∧ t.session = w.session i) (by simp [Labelled])
  | .call _ (.knock _) | .call _ (.connect _) | .call _ .disconnect | .call _ .prDropLine
  | .timer _ _ | .deliver _ _ | .lose _ | .duplicate _ | .bind _ | .unbind _ | .knocked _ _ =>
    isTrue (by simp [Labelled])

end Decide

def twin : Roster (Fin 2) where
  ip _ := 1
  receivePort i := 7666 + i
  id i := 26 + i
  maxRetries _ := 5
  bufferSize _ := 2
  listening _ := true
  addresses i j same := by
    simp only [NetAddr.mk.injEq] at same
    omega
  ids i j same := by
    dsimp only at same
    omega

/-- Two sessions in which every message arrives in its own. -/
theorem session_isolation_twice : Isolated (World.new twin)
    [.call 0 (.connect ⟨1, 7667⟩), .deliver 1 0, .deliver 0 0, .deliver 1 0,
      .call 0 (.sendMsg ⟨0, some 0, 10⟩), .deliver 1 0, .deliver 0 0, .call 0 .disconnect,
      .deliver 1 0, .deliver 0 0, .timer 0 1, .timer 0 2, .call 0 (.connect ⟨1, 7667⟩),
      .deliver 1 0, .deliver 0 0, .deliver 1 0, .call 0 (.sendMsg ⟨0, some 1, 20⟩),
      .deliver 1 0] :=
  session_isolation twin (by decide +kernel) (by decide +kernel)

def crossing : List (Event (Fin 2) (Payload (Fin 2) Nat)) :=
  [.call 0 (.connect ⟨1, 7667⟩), .deliver 1 0, .deliver 0 0, .deliver 1 0,
    .call 0 (.sendMsg ⟨0, some 0, 10⟩), .lose 0, .call 0 .disconnect, .deliver 1 0,
    .deliver 0 0, .call 0 (.connect ⟨1, 7667⟩), .deliver 1 0, .deliver 0 0, .deliver 1 0,
    .timer 0 1]

/-- The retry of an unanswered message outlives its session: the next one counts acks from
    zero again, so the retry goes on and its message is handed over there. -/
theorem leftover_retry_crosses :
    Along World.step Labelled (World.new twin) (crossing ++ [.deliver 1 0]) ∧
    ¬ Isolated (World.new twin) (crossing ++ [.deliver 1 0]) := by
  refine ⟨by decide +kernel, ?_⟩
  intro isolated
  have before : ((World.new twin).run crossing).map (fun w => (w.heard 1, w.session 1)) =
      some ([], some 1) := by decide +kernel
  have after : ((World.new twin).run (crossing ++ [.deliver 1 0])).map (fun w => w.heard 1) =
      some [⟨0, some 0, 10⟩] := by decide +kernel
  obtain ⟨next, whole, heard⟩ := Option.map_eq_some_iff.mp after
  obtain ⟨w, ran, step⟩ := run_snoc.mp whole
  rw [World.run, ran, Option.map_some, Option.some.injEq, Prod.mk.injEq] at before
  obtain ⟨fresh, grown, current⟩ := isolated.payloads crossing _ [] w next rfl ran step 1
  rw [heard, before.1, List.nil_append] at grown
  obtain ⟨x, session, tag, _⟩ := current ⟨0, some 0, 10⟩ (grown ▸ List.mem_singleton.mpr rfl)
  rw [before.2] at session
  exact absurd (session.trans tag.symm) (by simp)

end SCLOrkWire
