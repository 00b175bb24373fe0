import Mathlib.Logic.Function.Basic
import SCLOrkTools.Library.GuardedRun
import SCLOrkTools.Wire.Reaction

/- Any number of wires and the datagrams between them. A datagram in flight can be
   delivered, lost or duplicated, and they arrive in any order. -/
namespace SCLOrkWire
open GuardedRun
variable {ι Args : Type}

structure Datagram (ι Args : Type) where
  source : ι
  dest : NetAddr
  packet : Packet Args
  session : Option Nat

/-- `bound` are the addresses bind listens on and `portSerial` the next port it gives out,
    by machine. The last four fields are history that no handler reads: the messages each
    client passed to sendMsg while connected and those its onMessageReceived was handed,
    the handshake each wire is in, and the responder and initiator of every handshake. -/
structure World (ι Args : Type) where
  wires : ι → Wire Args
  ip : ι → Nat
  portSerial : Nat → Nat
  bound : List NetAddr
  inFlight : List (Datagram ι Args)
  passed : ι → List Args
  heard : ι → List Args
  session : ι → Option Nat
  parties : List (ι × ι)

/-- Wires with distinct ids, each with an address of its own. Those that bind has yet to
    make are not listening. -/
structure Roster (ι : Type) where
  ip : ι → Nat
  receivePort : ι → Nat
  id : ι → Nat
  maxRetries : ι → Nat
  bufferSize : ι → Nat
  listening : ι → Bool
  addresses : Function.Injective fun i => NetAddr.mk (ip i) (receivePort i)
  ids : Function.Injective id

def Roster.wire (r : Roster ι) (i : ι) : Wire Args :=
  { Wire.new (r.receivePort i) (r.id i) (r.maxRetries i) (r.bufferSize i) with
    listening := r.listening i }

def World.new (r : Roster ι) : World ι Args where
  wires := r.wire
  ip := r.ip
  portSerial := fun _ => 9000
  bound := []
  inFlight := []
  passed := fun _ => []
  heard := fun _ => []
  session := fun _ => none
  parties := []

def World.address (w : World ι Args) (i : ι) : NetAddr := ⟨w.ip i, (w.wires i).receivePort⟩

instance (w : Wire Args) (p : Packet Args) : Decidable (w.heeds p) := by
  cases p <;> simp only [Wire.heeds] <;> infer_instance

def World.drop (w : World ι Args) (n : Nat) : World ι Args :=
  { w with inFlight := w.inFlight.eraseIdx n }

/-- `v` differs from `w` only in which copies of the datagrams of `w` it still carries, in
    what bind listens to and in the record of sessions. -/
structure Thins (v w : World ι Args) : Prop where
  wires : v.wires = w.wires
  ip : v.ip = w.ip
  passed : v.passed = w.passed
  heard : v.heard = w.heard
  inFlight : v.inFlight ⊆ w.inFlight

theorem thins_refl (w : World ι Args) : Thins w w := ⟨rfl, rfl, rfl, rfl, List.Subset.refl _⟩

theorem thins_drop (w : World ι Args) (n : Nat) : Thins (w.drop n) w :=
  ⟨rfl, rfl, rfl, rfl, List.eraseIdx_subset⟩

theorem thins_address {v w : World ι Args} (thins : Thins v w) (i : ι) :
    v.address i = w.address i := by
  simp [World.address, thins.wires, thins.ip]

variable [DecidableEq ι]

def World.act (w : World ι Args) (i : ι) (s : Stimulus Args) : World ι Args :=
  let r := (w.wires i).react s
  { w with
    wires := Function.update w.wires i r.wire
    inFlight := w.inFlight ++ r.sends.map fun out => ⟨i, out.1, out.2, w.session i⟩
    passed := Function.update w.passed i (w.passed i ++ (w.wires i).accepted s)
    heard := Function.update w.heard i (w.heard i ++ r.received) }

/-- A wire leaves its session when it knocks or connects again. -/
def World.opening (w : World ι Args) (i : ι) : Call Args → World ι Args
  | .knock _ | .connect _ =>
    if (w.wires i).connectionState.mayOpen then
      { w with session := Function.update w.session i none }
    else w
  | _ => w

/-- Accepting a request founds a session, and its accept brings the initiator into it. An
    accept that a retry sends in some later session brings its receiver into none. -/
def World.joining (w : World ι Args) (i : ι) (d : Datagram ι Args) : World ι Args :=
  if (w.wires i).heeds d.packet then
    match d.packet with
    | .wireConnectRequest _ _ =>
      { w with
        session := Function.update w.session i (some w.parties.length)
        parties := w.parties ++ [(i, d.source)] }
    | .wireConnectAccept _ _ =>
      { w with
        session := Function.update w.session i
          (d.session.filter fun x => w.parties[x]? = some (d.source, i)) }
    | _ => w
  else w

/-- The knock handler of bind: a new wire on the next port connects back. -/
def World.answerKnock (w : World ι Args) (j : ι) (d : Datagram ι Args) : Option (World ι Args) :=
  match d.packet with
  | .wireKnock returnPort _ =>
    let old := w.wires j
    if d.dest ∈ w.bound ∧ d.dest.addr = w.ip j ∧ old.receivePort = w.portSerial (w.ip j) ∧
        old.listening = false ∧ old.connectionState = .neverConnected then
      let wire : Wire Args := Wire.new old.receivePort old.id old.maxRetries old.bufferSize
      let w := { w with
        wires := Function.update w.wires j wire
        portSerial := Function.update w.portSerial (w.ip j) (w.portSerial (w.ip j) + 1)
        session := Function.update w.session j none }
      some (w.act j (.call (.connect ⟨w.ip d.source, returnPort⟩)))
    else none
  | _ => none

inductive Event (ι Args : Type) where
  | call (i : ι) (c : Call Args)
  | timer (i : ι) (ref : Nat)
  | deliver (i : ι) (n : Nat)
  | lose (n : Nat)
  | duplicate (n : Nat)
  | bind (a : NetAddr)
  | unbind (a : NetAddr)
  | knocked (j : ι) (n : Nat)

def World.step (w : World ι Args) : Event ι Args → Option (World ι Args)
  | .call i c => some ((w.opening i c).act i (.call c))
  | .timer i ref => some (w.act i (.timer ref))
  | .deliver i n =>
    w.inFlight[n]?.bind fun d =>
      if d.dest = w.address i then
        some (((w.drop n).joining i d).act i (.packet (w.ip d.source) d.packet))
      else none
  | .lose n => if n < w.inFlight.length then some (w.drop n) else none
  | .duplicate n => w.inFlight[n]?.map fun d => { w with inFlight := w.inFlight ++ [d] }
  | .bind a => some { w with bound := a :: w.bound }
  | .unbind a => some { w with bound := w.bound.filter (· ≠ a) }
  | .knocked j n => w.inFlight[n]?.bind fun d => (w.drop n).answerKnock j d

abbrev World.run (w : World ι Args) (es : List (Event ι Args)) : Option (World ι Args) :=
  GuardedRun.run World.step w es

section Act
variable (w : World ι Args) (i : ι) (s : Stimulus Args)

@[simp] theorem act_wires_self : (w.act i s).wires i = ((w.wires i).react s).wire := by
  simp [World.act]
theorem act_wires_ne {j : ι} (other : j ≠ i) : (w.act i s).wires j = w.wires j := by
  simp [World.act, other]
@[simp] theorem act_heard_self :
    (w.act i s).heard i = w.heard i ++ ((w.wires i).react s).received := by simp [World.act]
theorem act_heard_ne {j : ι} (other : j ≠ i) : (w.act i s).heard j = w.heard j := by
  simp [World.act, other]
@[simp] theorem act_passed_self :
    (w.act i s).passed i = w.passed i ++ (w.wires i).accepted s := by simp [World.act]
theorem act_passed_ne {j : ι} (other : j ≠ i) : (w.act i s).passed j = w.passed j := by
  simp [World.act, other]
@[simp] theorem act_ip : (w.act i s).ip = w.ip := rfl
@[simp] theorem act_session : (w.act i s).session = w.session := rfl
@[simp] theorem act_parties : (w.act i s).parties = w.parties := rfl

theorem act_constants (j : ι) : ((w.act i s).wires j).id = (w.wires j).id ∧
    ((w.act i s).wires j).receivePort = (w.wires j).receivePort ∧
    ((w.act i s).wires j).maxRetries = (w.wires j).maxRetries ∧
    ((w.act i s).wires j).bufferSize = (w.wires j).bufferSize := by
  by_cases same : j = i
  · subst same; simp
  · simp [act_wires_ne w i s same]

@[simp] theorem act_id (j : ι) : ((w.act i s).wires j).id = (w.wires j).id :=
  (act_constants w i s j).1
@[simp] theorem act_receivePort (j : ι) :
    ((w.act i s).wires j).receivePort = (w.wires j).receivePort := (act_constants w i s j).2.1
@[simp] theorem act_maxRetries (j : ι) :
    ((w.act i s).wires j).maxRetries = (w.wires j).maxRetries := (act_constants w i s j).2.2.1
@[simp] theorem act_bufferSize (j : ι) :
    ((w.act i s).wires j).bufferSize = (w.wires j).bufferSize := (act_constants w i s j).2.2.2
@[simp] theorem act_address (j : ι) : (w.act i s).address j = w.address j := by
  simp [World.address]

theorem mem_act_inFlight {d : Datagram ι Args} : d ∈ (w.act i s).inFlight ↔
    d ∈ w.inFlight ∨ ∃ out ∈ ((w.wires i).react s).sends, d = ⟨i, out.1, out.2, w.session i⟩ := by
  simp [World.act, eq_comm]

end Act

theorem thins_opening (w : World ι Args) (i : ι) (c : Call Args) : Thins (w.opening i c) w := by
  cases c with
  | knock | connect =>
    simp only [World.opening]
    split
    · exact ⟨rfl, rfl, rfl, rfl, List.Subset.refl _⟩
    · exact thins_refl w
  | _ => exact thins_refl w

theorem thins_joining {v w : World ι Args} (thins : Thins v w) (i : ι) (d : Datagram ι Args) :
    Thins (v.joining i d) w := by
  obtain ⟨wires, ip, passed, heard, inFlight⟩ := thins
  unfold World.joining
  split
  · split <;> exact ⟨wires, ip, passed, heard, inFlight⟩
  · exact ⟨wires, ip, passed, heard, inFlight⟩

/-- Which wire an event stirs, and how. -/
inductive Cause (w : World ι Args) : Event ι Args → ι → Stimulus Args → Prop where
  | call (i : ι) (c : Call Args) : Cause w (.call i c) i (.call c)
  | timer (i : ι) (ref : Nat) : Cause w (.timer i ref) i (.timer ref)
  | deliver {i : ι} {n : Nat} {d : Datagram ι Args} (found : w.inFlight[n]? = some d)
      (dest : d.dest = w.address i) :
      Cause w (.deliver i n) i (.packet (w.ip d.source) d.packet)

omit [DecidableEq ι] in
theorem delivered_of_cause {w : World ι Args} {e : Event ι Args} {i : ι} {ip : Nat}
    {p : Packet Args} (cause : Cause w e i (.packet ip p)) :
    ∃ n d, e = .deliver i n ∧ w.inFlight[n]? = some d ∧ d.dest = w.address i ∧
      ip = w.ip d.source ∧ d.packet = p := by
  generalize stimulus : Stimulus.packet ip p = s at cause
  cases cause with
  | call | timer => cases stimulus
  | deliver found dest =>
    simp only [Stimulus.packet.injEq] at stimulus
    exact ⟨_, _, rfl, found, dest, stimulus.1, stimulus.2.symm⟩

theorem step_cases {w next : World ι Args} {e : Event ι Args} (step : w.step e = some next)
    (settled : ∀ j n, e ≠ .knocked j n) :
    Thins next w ∨ ∃ v i s, Thins v w ∧ Cause w e i s ∧ next = v.act i s := by
  cases e with
  | call i c =>
    simp only [World.step, Option.some.injEq] at step
    exact Or.inr ⟨_, i, _, thins_opening w i c, .call i c, step.symm⟩
  | timer i ref =>
    simp only [World.step, Option.some.injEq] at step
    exact Or.inr ⟨w, i, _, thins_refl w, .timer i ref, step.symm⟩
  | deliver i n =>
    obtain ⟨d, found, step⟩ := Option.bind_eq_some_iff.mp step
    split at step
    · rename_i dest
      simp only [Option.some.injEq] at step
      exact Or.inr ⟨_, i, _, thins_joining (thins_drop w n) i d, .deliver found dest, step.symm⟩
    · cases step
  | lose n =>
    simp only [World.step] at step
    split at step
    · simp only [Option.some.injEq] at step
      exact Or.inl (step ▸ thins_drop w n)
    · cases step
  | duplicate n =>
    obtain ⟨d, found, rfl⟩ := Option.map_eq_some_iff.mp step
    refine Or.inl ⟨rfl, rfl, rfl, rfl, ?_⟩
    simpa using List.mem_of_getElem? found
  | bind a =>
    simp only [World.step, Option.some.injEq] at step
    subst step
    exact Or.inl ⟨rfl, rfl, rfl, rfl, List.Subset.refl _⟩
  | unbind a =>
    simp only [World.step, Option.some.injEq] at step
    subst step
    exact Or.inl ⟨rfl, rfl, rfl, rfl, List.Subset.refl _⟩
  | knocked j n => exact absurd rfl (settled j n)

/-- Requests and accepts carry the port and the id of the wire that made them. -/
def NamesItself (w : Wire Args) : Packet Args → Prop
  | .wireConnectRequest returnPort responderId => returnPort = w.receivePort ∧ responderId = w.id
  | .wireConnectAccept _ initiatorId => initiatorId = w.id
  | _ => True

omit [DecidableEq ι] in
theorem namesItself_congr {v w : Wire Args} (port : v.receivePort = w.receivePort)
    (id : v.id = w.id) (p : Packet Args) : NamesItself v p ↔ NamesItself w p := by
  cases p <;> simp [NamesItself, port, id]

omit [DecidableEq ι] in
theorem reacts_names {w : Wire Args} {s : Stimulus Args} {r : Reaction Args}
    (names : ∀ q ∈ w.retries, NamesItself w q.request.message) (reacts : Reacts w s r) :
    (∀ q ∈ r.wire.retries, NamesItself w q.request.message) ∧
      ∀ out ∈ r.sends, NamesItself w out.2 := by
  have made {a : NetAddr} {q : Request Args} (makes : Makes w s a q) :
      NamesItself w q.message := by
    cases makes <;> simp [NamesItself, Request.message]
  constructor
  · intro q mem
    rcases reacts_retries reacts q mem with ⟨old, here, same, _⟩ | makes
    · rw [same]
      exact names old here
    · exact made makes
  · intro out mem
    rcases reacts_sends reacts out mem with ⟨old, here, _, rfl⟩ | ⟨q, makes, message⟩ | replies
    · exact names old here
    · rw [message]
      exact made makes
    · generalize out.2 = packet at replies
      cases replies <;> trivial

structure Honest (w : World ι Args) : Prop where
  retries : ∀ i, ∀ r ∈ (w.wires i).retries, NamesItself (w.wires i) r.request.message
  flights : ∀ d ∈ w.inFlight, NamesItself (w.wires d.source) d.packet

omit [DecidableEq ι] in
theorem honest_thins {v w : World ι Args} (honest : Honest w) (thins : Thins v w) : Honest v := by
  constructor
  · intro i r mem
    rw [thins.wires] at mem ⊢; exact honest.retries i r mem
  · intro d mem
    rw [thins.wires]; exact honest.flights d (thins.inFlight mem)

theorem honest_act {w : World ι Args} (honest : Honest w) (i : ι) (s : Stimulus Args) :
    Honest (w.act i s) := by
  have names := reacts_names (honest.retries i) (react_reacts (w.wires i) s)
  have same (j : ι) (p : Packet Args) :
      NamesItself ((w.act i s).wires j) p ↔ NamesItself (w.wires j) p :=
    namesItself_congr (act_receivePort w i s j) (act_id w i s j) p
  constructor
  · intro j r mem
    rw [same]
    by_cases here : j = i
    · subst here
      rw [act_wires_self] at mem
      exact names.1 r mem
    · rw [act_wires_ne w i s here] at mem
      exact honest.retries j r mem
  · intro d mem
    rw [same]
    rcases (mem_act_inFlight w i s).mp mem with old | ⟨out, sent, rfl⟩
    · exact honest.flights d old
    · exact names.2 out sent

omit [DecidableEq ι] in
theorem honest_new (r : Roster ι) : Honest (World.new r : World ι Args) :=
  ⟨fun i q mem => by simp [World.new, Roster.wire, Wire.new] at mem,
    fun d mem => by simp [World.new] at mem⟩

theorem answerKnock_cases {w next : World ι Args} {j : ι} {d : Datagram ι Args}
    (answered : w.answerKnock j d = some next) : ∃ returnPort id serial,
      d.packet = .wireKnock returnPort id ∧
      (w.wires j).listening = false ∧ (w.wires j).connectionState = .neverConnected ∧
      next = ({ w with
        wires := Function.update w.wires j (Wire.new (w.wires j).receivePort (w.wires j).id
          (w.wires j).maxRetries (w.wires j).bufferSize)
        portSerial := serial
        session := Function.update w.session j none }).act j
          (.call (.connect ⟨w.ip d.source, returnPort⟩)) := by
  unfold World.answerKnock at answered
  split at answered
  · rename_i returnPort id packet
    dsimp only at answered
    split at answered
    · rename_i may
      exact ⟨returnPort, id, _, packet, may.2.2.2.1, may.2.2.2.2, (Option.some.inj answered).symm⟩
    · cases answered
  · cases answered

theorem honest_step {w next : World ι Args} {e : Event ι Args} (honest : Honest w)
    (step : w.step e = some next) : Honest next := by
  by_cases settled : ∀ j n, e ≠ .knocked j n
  · rcases step_cases step settled with thins | ⟨v, i, s, thins, _, rfl⟩
    · exact honest_thins honest thins
    · exact honest_act (honest_thins honest thins) i s
  · simp only [not_forall, not_not] at settled
    obtain ⟨j, n, rfl⟩ := settled
    obtain ⟨d, _, answered⟩ := Option.bind_eq_some_iff.mp step
    obtain ⟨returnPort, id, serial, _, _, _, rfl⟩ := answerKnock_cases answered
    refine honest_act ⟨?_, ?_⟩ j _
    · intro i r mem
      by_cases here : i = j
      · subst here; simp [Wire.new] at mem
      · simp only [ne_eq, here, not_false_eq_true, Function.update_of_ne] at mem ⊢
        exact honest.retries i r mem
    · intro d mem
      have named := honest.flights d ((thins_drop w n).inFlight mem)
      refine (namesItself_congr ?_ ?_ _).mpr named <;>
        (by_cases here : d.source = j <;> simp [here, World.drop, Wire.new])

end SCLOrkWire
