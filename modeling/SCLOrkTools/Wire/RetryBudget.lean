import SCLOrkTools.Wire.DataPlane

/- How much of its budget the retry of a message has used, seen from the wire that sends. -/
namespace SCLOrkWire
open RingBuffer WrapInteger
variable {Args : Type}

/-- The retry at `k` is that of the message with this serial. -/
def Wire.SendsAt (w : Wire Args) (k serial : Nat) (r : SendRetry Args) : Prop :=
  w.retries[k]? = some r ∧ ∃ id args, r.request = .send id serial args

def Request.shakes : Request Args → Bool
  | .connect _ _ | .accept _ _ => true
  | _ => false

/-- Every message has a retry, older messages older ones. A retry that has sent once more
    waits for the very next ack, and `pending` says that this ack is on its way. -/
structure Budgeted (w : Wire Args) (peer : Nat) (pending : Prop) : Prop where
  budgets : ∀ r ∈ w.retries, r.maxRetries = w.maxRetries
  kinds : ∀ k r, w.retries[k]? = some r →
    (∃ serial, w.SendsAt k serial r) ∨ (r.request.shakes = true ∧ r.retries = 0)
  peers : ∀ k serial r, w.SendsAt k serial r → ∃ args, r.request = .send (some peer) serial args
  within : ∀ k serial r, w.SendsAt k serial r → 0 < serial ∧ serial ≤ w.sendSerial
  covered : ∀ serial, 0 < serial → serial ≤ w.sendSerial → ∃ k r, w.SendsAt k serial r
  ordered : ∀ k serial r k' serial' r', w.SendsAt k serial r → w.SendsAt k' serial' r' →
    serial < serial' → k < k'
  done : ∀ k serial r, w.SendsAt k serial r → r.scheduled = false → serial ≤ w.sendAckSerial
  once : ∀ k serial r, w.SendsAt k serial r → r.retries ≤ 1 ∧
    (r.retries = 1 → serial ≤ w.sendAckSerial ∨ (serial = w.sendAckSerial + 1 ∧ pending))
  unused : w.connectionState ≠ .connected → w.sendSerial = 0
  acked : w.sendAckSerial ≤ w.sendSerial
  short : w.sendSerial < 2 ^ 31

theorem sendsAt_serial {w : Wire Args} {k serial serial' : Nat} {r r' : SendRetry Args}
    (one : w.SendsAt k serial r) (two : w.SendsAt k serial' r') : serial = serial' ∧ r = r' := by
  obtain ⟨found, id, args, request⟩ := one
  obtain ⟨found', id', args', request'⟩ := two
  have same : r = r' := Option.some.inj (found.symm.trans found')
  rw [same, request'] at request
  exact ⟨(Request.send.inj request).2.1.symm, same⟩

theorem budgeted_new {w : Wire Args} {peer : Nat} {pending : Prop} (retries : w.retries = [])
    (sendSerial : w.sendSerial = 0) (sendAckSerial : w.sendAckSerial = 0) :
    Budgeted w peer pending := by
  have none {k serial : Nat} {r : SendRetry Args} (sends : w.SendsAt k serial r) : False := by
    simp [Wire.SendsAt, retries] at sends
  constructor
  · intro r mem
    rw [retries] at mem
    cases mem
  · intro k r found
    rw [retries] at found
    cases found
  · intro k serial r sends
    exact (none sends).elim
  · intro k serial r sends
    exact (none sends).elim
  · intro serial pos le
    omega
  · intro k serial r k' serial' r' sends
    exact (none sends).elim
  · intro k serial r sends
    exact (none sends).elim
  · intro k serial r sends
    exact (none sends).elim
  · intro _
    exact sendSerial
  · omega
  · omega

section Same
variable {w v : Wire Args} {peer : Nat} {pending later : Prop}

structure SameBudget (v w : Wire Args) : Prop where
  maxRetries : v.maxRetries = w.maxRetries
  retries : v.retries.map SendRetry.stop = w.retries.map SendRetry.stop
  sendSerial : v.sendSerial = w.sendSerial

theorem sameBudget_symm (same : SameBudget v w) : SameBudget w v :=
  ⟨same.maxRetries.symm, same.retries.symm, same.sendSerial.symm⟩

theorem found_same (same : SameBudget v w) {k : Nat} {r : SendRetry Args}
    (found : v.retries[k]? = some r) : ∃ q, w.retries[k]? = some q ∧ q.request = r.request ∧
      q.retries = r.retries ∧ q.scheduled = r.scheduled ∧ q.maxRetries = r.maxRetries := by
  have stopped := congrArg (·[k]?) same.retries
  simp only [List.getElem?_map, found, Option.map_some] at stopped
  obtain ⟨q, there, eq⟩ := Option.map_eq_some_iff.mp stopped.symm
  simp only [SendRetry.stop, SendRetry.mk.injEq] at eq
  exact ⟨q, there, eq.2.1, eq.2.2.2.1, eq.2.2.2.2.2, eq.2.2.1⟩

theorem sendsAt_same (same : SameBudget v w) {k serial : Nat} {r : SendRetry Args}
    (sends : v.SendsAt k serial r) : ∃ q, w.SendsAt k serial q ∧ q.request = r.request ∧
      q.retries = r.retries ∧ q.scheduled = r.scheduled := by
  obtain ⟨found, id, args, request⟩ := sends
  obtain ⟨q, there, same, retries, scheduled, _⟩ := found_same same found
  exact ⟨q, ⟨there, id, args, same.trans request⟩, same, retries, scheduled⟩

theorem budgeted_carry (budgeted : Budgeted w peer pending)
    (budgets : ∀ r ∈ v.retries, r.maxRetries = v.maxRetries)
    (kinds : ∀ k r, v.retries[k]? = some r →
      (∃ serial, v.SendsAt k serial r) ∨ (r.request.shakes = true ∧ r.retries = 0))
    (back : ∀ {k serial r}, v.SendsAt k serial r → ∃ q, w.SendsAt k serial q ∧
      q.request = r.request ∧ q.retries = r.retries ∧ q.scheduled = r.scheduled)
    (forth : ∀ {k serial q}, w.SendsAt k serial q → ∃ r, v.SendsAt k serial r)
    (sendSerial : v.sendSerial = w.sendSerial)
    (acks : w.sendAckSerial ≤ v.sendAckSerial ∨ w.sendSerial = 0)
    (acked : v.sendAckSerial ≤ v.sendSerial)
    (keep : v.sendAckSerial = w.sendAckSerial → pending → later)
    (unused : v.connectionState ≠ .connected → v.sendSerial = 0) : Budgeted v peer later := by
  -- with nothing sent there is no retry to speak of
  have forward {k serial : Nat} {q : SendRetry Args} (sends : w.SendsAt k serial q) :
      w.sendAckSerial ≤ v.sendAckSerial := by
    have := budgeted.within k serial q sends
    omega
  refine ⟨budgets, kinds, ?_, ?_, ?_, ?_, ?_, ?_, unused, acked, sendSerial ▸ budgeted.short⟩
  · intro k serial r sends
    obtain ⟨q, there, request, _⟩ := back sends
    rw [← request]
    exact budgeted.peers k serial q there
  · intro k serial r sends
    obtain ⟨q, there, _⟩ := back sends
    rw [sendSerial]
    exact budgeted.within k serial q there
  · intro serial pos le
    rw [sendSerial] at le
    obtain ⟨k, q, there⟩ := budgeted.covered serial pos le
    obtain ⟨r, here⟩ := forth there
    exact ⟨k, r, here⟩
  · intro k serial r k' serial' r' one two less
    obtain ⟨q, there, _⟩ := back one
    obtain ⟨q', there', _⟩ := back two
    exact budgeted.ordered k serial q k' serial' q' there there' less
  · intro k serial r sends off
    obtain ⟨q, there, _, _, scheduled⟩ := back sends
    exact Nat.le_trans (budgeted.done k serial q there (scheduled.trans off)) (forward there)
  · intro k serial r sends
    obtain ⟨q, there, _, retries, _⟩ := back sends
    obtain ⟨le, resent⟩ := budgeted.once k serial q there
    have grown := forward there
    rw [← retries]
    refine ⟨le, ?_⟩
    intro one
    rcases resent one with old | ⟨next, onTheWay⟩
    · exact Or.inl (by omega)
    · by_cases moved : v.sendAckSerial = w.sendAckSerial
      · exact Or.inr ⟨by omega, keep moved onTheWay⟩
      · exact Or.inl (by omega)

theorem budgeted_same (budgeted : Budgeted w peer pending) (same : SameBudget v w)
    (acks : w.sendAckSerial ≤ v.sendAckSerial ∨ w.sendSerial = 0)
    (acked : v.sendAckSerial ≤ v.sendSerial)
    (keep : v.sendAckSerial = w.sendAckSerial → pending → later)
    (unused : v.connectionState ≠ .connected → v.sendSerial = 0) : Budgeted v peer later := by
  apply budgeted_carry budgeted _ _ (sendsAt_same same) _ same.sendSerial acks acked keep unused
  · intro r mem
    obtain ⟨k, bound, at_k⟩ := List.getElem_of_mem mem
    obtain ⟨q, there, _, _, _, budget⟩ :=
      found_same same ((List.getElem?_eq_getElem bound).trans (congrArg some at_k))
    rw [← budget, same.maxRetries]
    exact budgeted.budgets q (List.mem_of_getElem? there)
  · intro k r found
    obtain ⟨q, there, request, retries, _, _⟩ := found_same same found
    rcases budgeted.kinds k q there with ⟨serial, _, id, args, send⟩ | ⟨shakes, zero⟩
    · exact Or.inl ⟨serial, found, id, args, request ▸ send⟩
    · exact Or.inr ⟨request ▸ shakes, retries ▸ zero⟩
  · intro k serial q there
    obtain ⟨r, here, _⟩ := sendsAt_same (sameBudget_symm same) there
    exact ⟨r, here⟩

end Same

theorem stopRetry_map_stop (w : Wire Args) (ref : Nat) :
    (w.stopRetry ref).retries.map SendRetry.stop = w.retries.map SendRetry.stop := by
  refine List.ext_getElem? ?_
  intro k
  simp only [Wire.stopRetry, List.getElem?_map, List.getElem?_modify]
  cases w.retries[k]? with
  | none => rfl
  | some r =>
    simp only [Option.map_eq_map, Option.map_some]
    split <;> rfl

section Push
variable {w v : Wire Args} {peer : Nat} {pending later : Prop} {a : NetAddr} {q : Request Args}

theorem sendsAt_push (pushed : v.retries = w.retries ++ [SendRetry.new a q w.maxRetries])
    {k serial : Nat} {r : SendRetry Args} :
    v.SendsAt k serial r ↔ w.SendsAt k serial r ∨ (k = w.retries.length ∧
      r = SendRetry.new a q w.maxRetries ∧ ∃ id args, q = .send id serial args) := by
  unfold Wire.SendsAt
  rw [pushed]
  by_cases old : k < w.retries.length
  · rw [List.getElem?_append_left old]
    constructor
    · exact Or.inl
    · rintro (here | ⟨rfl, _⟩)
      · exact here
      · omega
  · rw [List.getElem?_append_right (by omega), List.getElem?_eq_none (Nat.not_lt.mp old)]
    by_cases last : k = w.retries.length
    · subst last
      simp only [Nat.sub_self, List.getElem?_cons_zero, Option.some.injEq]
      constructor
      · rintro ⟨rfl, id, args, request⟩
        exact Or.inr ⟨trivial, rfl, id, args, request⟩
      · rintro (⟨none, _⟩ | ⟨_, rfl, id, args, request⟩)
        · cases none
        · exact ⟨rfl, id, args, request⟩
    · rw [List.getElem?_eq_none (by simp; omega)]
      simp [last]

theorem budgets_push (budgeted : Budgeted w peer pending)
    (pushed : v.retries = w.retries ++ [SendRetry.new a q w.maxRetries])
    (maxRetries : v.maxRetries = w.maxRetries) : ∀ r ∈ v.retries, r.maxRetries = v.maxRetries := by
  intro r mem
  rw [pushed] at mem
  rcases List.mem_append.mp mem with old | last
  · rw [maxRetries]
    exact budgeted.budgets r old
  · rw [List.mem_singleton.mp last, maxRetries]
    rfl

theorem kinds_push (budgeted : Budgeted w peer pending)
    (pushed : v.retries = w.retries ++ [SendRetry.new a q w.maxRetries])
    (kind : q.shakes = true ∨ ∃ id serial args, q = .send id serial args) :
    ∀ k r, v.retries[k]? = some r →
      (∃ serial, v.SendsAt k serial r) ∨ (r.request.shakes = true ∧ r.retries = 0) := by
  intro k r found
  by_cases old : k < w.retries.length
  · have there : w.retries[k]? = some r := by
      rw [pushed, List.getElem?_append_left old] at found
      exact found
    rcases budgeted.kinds k r there with ⟨serial, sends⟩ | shakes
    · exact Or.inl ⟨serial, (sendsAt_push pushed).mpr (Or.inl sends)⟩
    · exact Or.inr shakes
  · have bound := (List.getElem?_eq_some_iff.mp found).1
    have last : k = w.retries.length := by
      rw [pushed] at bound
      simp only [List.length_append, List.length_singleton] at bound
      omega
    rw [pushed, last] at found
    simp only [List.getElem?_concat_length, Option.some.injEq] at found
    subst found
    rcases kind with shakes | ⟨id, serial, args, send⟩
    · exact Or.inr ⟨shakes, rfl⟩
    · exact Or.inl ⟨serial, (sendsAt_push pushed).mpr (Or.inr ⟨last, rfl, id, args, send⟩)⟩

theorem budgeted_shake (budgeted : Budgeted w peer pending)
    (pushed : v.retries = w.retries ++ [SendRetry.new a q w.maxRetries]) (shakes : q.shakes = true)
    (maxRetries : v.maxRetries = w.maxRetries) (sendSerial : v.sendSerial = w.sendSerial)
    (acks : v.sendAckSerial = w.sendAckSerial) (keep : pending → later)
    (unused : v.connectionState ≠ .connected → v.sendSerial = 0) : Budgeted v peer later := by
  have only {k serial : Nat} {r : SendRetry Args} :
      v.SendsAt k serial r ↔ w.SendsAt k serial r := by
    rw [sendsAt_push pushed]
    constructor
    · rintro (old | ⟨_, _, id, args, send⟩)
      · exact old
      · simp [send, Request.shakes] at shakes
    · exact Or.inl
  apply budgeted_carry budgeted (budgets_push budgeted pushed maxRetries)
    (kinds_push budgeted pushed (Or.inl shakes)) _ _ sendSerial (Or.inl (Nat.le_of_eq acks.symm))
    (by rw [acks, sendSerial]; exact budgeted.acked) (fun _ => keep) unused
  · intro k serial r sends
    exact ⟨r, only.mp sends, rfl, rfl, rfl⟩
  · intro k serial r sends
    exact ⟨r, only.mpr sends⟩

theorem budgeted_send {args : Args} (budgeted : Budgeted w peer pending)
    (pushed : v.retries = w.retries ++
      [SendRetry.new a (.send (some peer) (w.sendSerial + 1) args) w.maxRetries])
    (maxRetries : v.maxRetries = w.maxRetries) (sendSerial : v.sendSerial = w.sendSerial + 1)
    (short : w.sendSerial + 1 < 2 ^ 31) (acks : v.sendAckSerial = w.sendAckSerial)
    (keep : pending → later) (connected : v.connectionState = .connected) :
    Budgeted v peer later := by
  have only {k serial : Nat} {r : SendRetry Args} : v.SendsAt k serial r ↔
      w.SendsAt k serial r ∨ (k = w.retries.length ∧ serial = w.sendSerial + 1 ∧
        r = SendRetry.new a (.send (some peer) (w.sendSerial + 1) args) w.maxRetries) := by
    rw [sendsAt_push pushed]
    refine or_congr Iff.rfl ⟨?_, ?_⟩
    · rintro ⟨here, shape, id, args', send⟩
      exact ⟨here, (Request.send.inj send).2.1.symm, shape⟩
    · rintro ⟨here, rfl, shape⟩
      exact ⟨here, shape, _, _, rfl⟩
  have before {k serial : Nat} {r : SendRetry Args} (sends : w.SendsAt k serial r) :
      k < w.retries.length := (List.getElem?_eq_some_iff.mp sends.1).1
  refine ⟨budgets_push budgeted pushed maxRetries,
    kinds_push budgeted pushed (Or.inr ⟨_, _, _, rfl⟩), ?_, ?_, ?_, ?_, ?_, ?_,
    fun away => absurd connected away, ?_, sendSerial ▸ short⟩
  · intro k serial r sends
    rcases only.mp sends with old | ⟨_, rfl, rfl⟩
    · exact budgeted.peers k serial r old
    · exact ⟨args, rfl⟩
  · intro k serial r sends
    rw [sendSerial]
    rcases only.mp sends with old | ⟨_, rfl, _⟩
    · have := budgeted.within k serial r old
      omega
    · omega
  · intro serial pos le
    rw [sendSerial] at le
    by_cases newest : serial = w.sendSerial + 1
    · exact ⟨_, _, only.mpr (Or.inr ⟨rfl, newest, rfl⟩)⟩
    · obtain ⟨k, r, sends⟩ := budgeted.covered serial pos (by omega)
      exact ⟨k, r, only.mpr (Or.inl sends)⟩
  · intro k serial r k' serial' r' one two less
    rcases only.mp one with old | ⟨_, rfl, _⟩ <;> rcases only.mp two with old' | ⟨rfl, rfl, _⟩
    · exact budgeted.ordered k serial r k' serial' r' old old' less
    · exact before old
    · have := budgeted.within k' serial' r' old'
      omega
    · omega
  · intro k serial r sends off
    rw [acks]
    rcases only.mp sends with old | ⟨_, _, rfl⟩
    · exact budgeted.done k serial r old off
    · cases off
  · intro k serial r sends
    rw [acks]
    rcases only.mp sends with old | ⟨_, _, rfl⟩
    · obtain ⟨le, resent⟩ := budgeted.once k serial r old
      exact ⟨le, fun one => (resent one).imp id fun ⟨next, now⟩ => ⟨next, keep now⟩⟩
    · exact ⟨Nat.zero_le 1, fun one => by cases one⟩
  · rw [acks, sendSerial]
    exact Nat.le_succ_of_le budgeted.acked

end Push

/-- A timer that fires in turn: every older retry that is still scheduled has fired more. -/
def Wire.InTurn (w : Wire Args) (ref : Nat) : Prop :=
  ∀ r ∈ w.retries[ref]?, ∀ k, k < ref → ∀ q ∈ w.retries[k]?, q.scheduled = true →
    r.retries < q.retries

section Timer
variable {w : Wire Args} {peer ref : Nat} {pending later : Prop}

theorem keepGoing_send {id : Option Nat} {serial : Nat} {args : Args} {r : SendRetry Args}
    (budgeted : Budgeted w peer pending) (sends : w.SendsAt ref serial r) :
    w.keepGoing (.send id serial args) = decide (w.sendAckSerial < serial) := by
  have within := (budgeted.within ref serial r sends).2
  have acked := budgeted.acked
  have short := budgeted.short
  rw [Wire.keepGoing, decide_eq_decide]
  exact signed_lt (by omega) (by omega)

/-- The oldest message without an ack is the next one when its timer fires in turn and no ack
    is on its way. -/
theorem turn_is_next {serial : Nat} {r : SendRetry Args} (budgeted : Budgeted w peer pending)
    (turn : w.InTurn ref) (quiet : ¬ pending) (sends : w.SendsAt ref serial r)
    (unanswered : w.sendAckSerial < serial) : serial = w.sendAckSerial + 1 := by
  by_contra later
  obtain ⟨pos, le⟩ := budgeted.within ref serial r sends
  obtain ⟨k, q, before⟩ := budgeted.covered (serial - 1) (by omega) (by omega)
  have older := budgeted.ordered k (serial - 1) q ref serial r before sends (by omega)
  cases scheduled : q.scheduled with
  | false =>
    have := budgeted.done k _ q before scheduled
    omega
  | true =>
    have more := turn r (Option.mem_def.mpr sends.1) k older q (Option.mem_def.mpr before.1)
      scheduled
    obtain ⟨le_one, resent⟩ := budgeted.once k _ q before
    rcases resent (by omega) with old | ⟨_, onTheWay⟩
    · omega
    · exact quiet onTheWay

/-- A retry that has sent once more has been answered when nothing is on its way. -/
theorem spent_is_answered {serial : Nat} {r : SendRetry Args} (budgeted : Budgeted w peer pending)
    (quiet : ¬ pending) (sends : w.SendsAt ref serial r) (unanswered : w.sendAckSerial < serial) :
    r.retries = 0 := by
  obtain ⟨le, resent⟩ := budgeted.once ref serial r sends
  by_contra used
  rcases resent (by omega) with old | ⟨_, onTheWay⟩
  · omega
  · exact quiet onTheWay

theorem sendsAt_set {r r' : SendRetry Args} (found : w.retries[ref]? = some r)
    (request : r'.request = r.request) {k serial : Nat} {q : SendRetry Args} :
    (w.setRetry ref r').SendsAt k serial q ↔
      (k ≠ ref ∧ w.SendsAt k serial q) ∨ (k = ref ∧ q = r' ∧ w.SendsAt ref serial r) := by
  have bound := (List.getElem?_eq_some_iff.mp found).1
  unfold Wire.SendsAt Wire.setRetry
  by_cases here : k = ref
  · subst here
    simp only [List.getElem?_set_self bound, Option.some.injEq, ne_eq, not_true_eq_false, false_and,
      true_and, false_or, found]
    constructor
    · rintro ⟨rfl, id, args, send⟩
      exact ⟨rfl, id, args, request ▸ send⟩
    · rintro ⟨rfl, id, args, send⟩
      exact ⟨rfl, id, args, request.trans send⟩
  · simp [List.getElem?_set_ne (Ne.symm here), here]

theorem budgeted_set {r r' : SendRetry Args} (budgeted : Budgeted w peer pending)
    (found : w.retries[ref]? = some r) (request : r'.request = r.request)
    (maxRetries : r'.maxRetries = r.maxRetries)
    (shakes : r.request.shakes = true → r'.retries = 0) (keep : pending → later)
    (sends : ∀ serial, w.SendsAt ref serial r →
      (r'.scheduled = false → serial ≤ w.sendAckSerial) ∧ r'.retries ≤ 1 ∧
      (r'.retries = 1 → serial ≤ w.sendAckSerial ∨ (serial = w.sendAckSerial + 1 ∧ later))) :
    Budgeted (w.setRetry ref r') peer later := by
  have only {k serial : Nat} {q : SendRetry Args} : (w.setRetry ref r').SendsAt k serial q ↔
      (k ≠ ref ∧ w.SendsAt k serial q) ∨ (k = ref ∧ q = r' ∧ w.SendsAt ref serial r) :=
    sendsAt_set found request
  have old {k serial : Nat} {q : SendRetry Args} (now : (w.setRetry ref r').SendsAt k serial q) :
      ∃ p, w.SendsAt k serial p ∧ q.request = p.request := by
    rcases only.mp now with ⟨_, there⟩ | ⟨rfl, rfl, there⟩
    · exact ⟨q, there, rfl⟩
    · exact ⟨r, there, request⟩
  refine ⟨?_, ?_, ?_, ?_, ?_, ?_, ?_, ?_, budgeted.unused, budgeted.acked, budgeted.short⟩
  · intro q mem
    rcases List.mem_or_eq_of_mem_set mem with there | rfl
    · exact budgeted.budgets q there
    · rw [maxRetries]
      exact budgeted.budgets r (List.mem_of_getElem? found)
  · intro k q here
    by_cases at_ref : k = ref
    · subst at_ref
      have same : r' = q := by
        have bound := (List.getElem?_eq_some_iff.mp found).1
        simpa [Wire.setRetry, List.getElem?_set_self bound] using here
      rcases budgeted.kinds k r found with ⟨serial, _, id, args, send⟩ | ⟨shake, _⟩
      · exact Or.inl ⟨serial, here, id, args, same ▸ request.trans send⟩
      · exact Or.inr ⟨by rw [← same, request]; exact shake, same ▸ shakes shake⟩
    · rw [Wire.setRetry, List.getElem?_set_ne (Ne.symm at_ref)] at here
      rcases budgeted.kinds k q here with ⟨serial, there⟩ | shake
      · exact Or.inl ⟨serial, only.mpr (Or.inl ⟨at_ref, there⟩)⟩
      · exact Or.inr shake
  · intro k serial q now
    obtain ⟨p, there, same⟩ := old now
    rw [same]
    exact budgeted.peers k serial p there
  · intro k serial q now
    obtain ⟨p, there, _⟩ := old now
    exact budgeted.within k serial p there
  · intro serial pos le
    obtain ⟨k, p, there⟩ := budgeted.covered serial pos le
    by_cases at_ref : k = ref
    · subst at_ref
      have same : p = r := Option.some.inj (there.1.symm.trans found)
      exact ⟨k, r', only.mpr (Or.inr ⟨rfl, rfl, same ▸ there⟩)⟩
    · exact ⟨k, p, only.mpr (Or.inl ⟨at_ref, there⟩)⟩
  · intro k serial q k' serial' q' one two less
    obtain ⟨p, there, _⟩ := old one
    obtain ⟨p', there', _⟩ := old two
    exact budgeted.ordered k serial p k' serial' p' there there' less
  · intro k serial q now off
    rcases only.mp now with ⟨_, there⟩ | ⟨rfl, rfl, there⟩
    · exact budgeted.done k serial q there off
    · exact (sends serial there).1 off
  · intro k serial q now
    rcases only.mp now with ⟨_, there⟩ | ⟨rfl, rfl, there⟩
    · obtain ⟨le, resent⟩ := budgeted.once k serial q there
      exact ⟨le, fun one => (resent one).imp_right (And.imp_right keep)⟩
    · exact (sends serial there).2

theorem budgeted_done {r r' : SendRetry Args} (budgeted : Budgeted w peer pending)
    (found : w.retries[ref]? = some r) (request : r'.request = r.request)
    (maxRetries : r'.maxRetries = r.maxRetries) (retries : r'.retries = r.retries)
    (keep : pending → later) (going : w.keepGoing r.request = false) :
    Budgeted (w.setRetry ref r') peer later := by
  refine budgeted_set budgeted found request maxRetries ?_ keep ?_
  · intro shake
    rw [retries]
    rcases budgeted.kinds ref r found with ⟨_, _, _, _, send⟩ | ⟨_, zero⟩
    · simp [send, Request.shakes] at shake
    · exact zero
  · intro serial sends
    obtain ⟨id, args, send⟩ := sends.2
    have answered : serial ≤ w.sendAckSerial := by
      simpa [send, keepGoing_send budgeted sends] using going
    rw [retries]
    exact ⟨fun _ => answered, (budgeted.once ref serial r sends).1, fun _ => Or.inl answered⟩

theorem budgeted_again {serial : Nat} {r r' : SendRetry Args} (budgeted : Budgeted w peer pending)
    (sends : w.SendsAt ref serial r) (next : serial = w.sendAckSerial + 1)
    (request : r'.request = r.request) (maxRetries : r'.maxRetries = r.maxRetries)
    (first : r'.retries = 1) (scheduled : r'.scheduled = true) (keep : pending → later)
    (now : later) : Budgeted (w.setRetry ref r') peer later := by
  refine budgeted_set budgeted sends.1 request maxRetries ?_ keep ?_
  · intro shake
    obtain ⟨id, args, send⟩ := sends.2
    simp [send, Request.shakes] at shake
  · intro serial' sends'
    obtain ⟨rfl, _⟩ := sendsAt_serial sends sends'
    refine ⟨?_, Nat.le_of_eq first, fun _ => Or.inr ⟨next, now⟩⟩
    intro off
    rw [scheduled] at off
    cases off

/-- A timer that fires in turn, with nothing on its way, fails nothing: it finishes its retry
    or sends the one message whose ack comes next. -/
theorem budgeted_timer (budgeted : Budgeted w peer pending) (enough : 2 ≤ w.maxRetries)
    (turn : w.InTurn ref) (quiet : ¬ pending) (connected : w.connectionState = .connected)
    (resent : ∀ a args, (a, Packet.wireSend (some peer) (w.sendAckSerial + 1) args) ∈
      (w.retryFunction ref).sends → later) :
    (w.retryFunction ref).wire.connectionState = .connected ∧
    (∀ out ∈ (w.retryFunction ref).sends, ∃ id serial args, out.2 = .wireSend id serial args) ∧
    Budgeted (w.retryFunction ref).wire peer later := by
  have onward : pending → later := fun onTheWay => absurd onTheWay quiet
  have unchanged : Budgeted w peer later :=
    budgeted_same budgeted ⟨rfl, rfl, rfl⟩ (Or.inl (Nat.le_refl _)) budgeted.acked
      (fun _ => onward) budgeted.unused
  cases retries : w.retries[ref]? with
  | none =>
    simp only [Wire.retryFunction, retries]
    exact ⟨connected, by simp, unchanged⟩
  | some r =>
    have budget := budgeted.budgets r (List.mem_of_getElem? retries)
    simp only [Wire.retryFunction, retries] at resent ⊢
    by_cases scheduled : r.scheduled = true
    · rw [if_pos scheduled] at resent ⊢
      have used : r.retries < r.maxRetries := by
        rcases budgeted.kinds ref r retries with ⟨serial, sends⟩ | ⟨_, zero⟩
        · have := (budgeted.once ref serial r sends).1
          omega
        · omega
      rw [if_pos used] at resent ⊢
      cases going : w.keepGoing r.request with
      | false =>
        exact ⟨connected, by simp, budgeted_done budgeted retries rfl rfl rfl onward going⟩
      | true =>
        simp only [going, ↓reduceIte] at resent ⊢
        rcases budgeted.kinds ref r retries with ⟨serial, sends⟩ | ⟨shake, _⟩
        · obtain ⟨args, send⟩ := budgeted.peers ref serial r sends
          have unanswered : w.sendAckSerial < serial := by
            simpa [send, keepGoing_send budgeted sends] using going
          have next := turn_is_next budgeted turn quiet sends unanswered
          have first := spent_is_answered budgeted quiet sends unanswered
          have now : later := resent r.netAddr args (by simp [send, Request.message, next])
          refine ⟨connected, ?_, ?_⟩
          · intro out mem
            rw [List.mem_singleton.mp mem, send]
            exact ⟨_, _, _, rfl⟩
          · exact budgeted_again budgeted sends next rfl rfl (congrArg (· + 1) first) scheduled
              onward now
        · cases request : r.request <;>
            simp [request, Request.shakes, Wire.keepGoing, connected] at shake going
    · rw [if_neg scheduled]
      exact ⟨connected, by simp, unchanged⟩

end Timer

section Reaction
variable {w : Wire Args} {s : Stimulus Args} {peer : Nat} {pending later : Prop}

/-- The calls and packets of a session that nobody ends. -/
def Shaking : Stimulus Args → Prop
  | .call (.connect _) | .call (.sendMsg _) | .packet _ (.wireConnectRequest _ _)
  | .packet _ (.wireConnectAccept _ _) | .packet _ (.wireConnectConfirm _)
  | .packet _ (.wireSend _ _ _) | .packet _ (.wireAck _ _) => True
  | _ => False

theorem budgeted_react (budgeted : Budgeted w peer pending) (shaking : Shaking s)
    (linked : w.connectionState = .connected → w.netAddr ≠ none ∧ w.selfId = some peer)
    (resets : Resets w s → w.connectionState ≠ .connected)
    (short : w.sendSerial + (w.accepted s).length < 2 ^ 31)
    (genuine : ∀ ip id serial, s = .packet ip (.wireAck id serial) → serial ≤ w.sendSerial)
    (keep : (w.react s).wire.sendAckSerial = w.sendAckSerial → pending → later) :
    Budgeted (w.react s).wire peer later := by
  have reacts := react_reacts w s
  have acked := budgeted.acked
  have next : following w.sendAckSerial = w.sendAckSerial + 1 :=
    following_early (Nat.lt_of_le_of_lt acked budgeted.short)
  generalize w.react s = r at reacts keep
  have stay {v : Wire Args} (same : SameBudget v w) (acks : v.sendAckSerial = w.sendAckSerial)
      (keep : v.sendAckSerial = w.sendAckSerial → pending → later)
      (state : v.connectionState = w.connectionState) : Budgeted v peer later :=
    budgeted_same budgeted same (Or.inl (Nat.le_of_eq acks.symm))
      (by rw [acks, same.sendSerial]; exact acked) keep fun away => by
        rw [same.sendSerial]
        exact budgeted.unused (state ▸ away)
  have reset {v : Wire Args} (away : w.connectionState ≠ .connected) (same : v.retries.map
      SendRetry.stop = w.retries.map SendRetry.stop) (budget : v.maxRetries = w.maxRetries)
      (serial : v.sendSerial = 0) (ack : v.sendAckSerial = 0)
      (state : v.connectionState = .connected)
      (keep : v.sendAckSerial = w.sendAckSerial → pending → later) : Budgeted v peer later := by
    have nothing := budgeted.unused away
    exact budgeted_same budgeted ⟨budget, same, serial.trans nothing.symm⟩ (Or.inr nothing)
      (by omega) keep fun gone => absurd state gone
  cases reacts with
  | idle => exact stay ⟨rfl, rfl, rfl⟩ rfl keep rfl
  | knock | disconnect | disconnectNil | prDropLine => exact shaking.elim
  | disconnectPacket | disconnectConfirm => exact shaking.elim
  | retryAgain | retryDone | retryFailed => exact shaking.elim
  | connect may =>
    rename_i a
    have nothing : w.sendSerial = 0 := budgeted.unused fun now => by
      rw [now] at may
      cases may
    exact budgeted_shake (a := a) (q := .connect w.receivePort w.id) budgeted (by simp) rfl
      (by simp) (by simp) (by simp) (keep (by simp)) fun _ => by simpa using nothing
  | sendMsg connected addr =>
    obtain ⟨_, self⟩ := linked connected
    have last : w.sendSerial + 1 < 2 ^ 31 := by simpa [Wire.accepted, connected] using short
    have later : following w.sendSerial = w.sendSerial + 1 := following_early (by omega)
    rw [self, later] at keep ⊢
    exact budgeted_send budgeted rfl rfl rfl last rfl (keep rfl) connected
  | sendMsgNil connected addr => exact absurd addr (linked connected).1
  | connectRequest listens may =>
    rename_i ip returnPort responderId
    have nothing : w.sendSerial = 0 := budgeted.unused fun now => by
      rw [now] at may
      cases may
    exact budgeted_shake (a := ⟨ip, returnPort⟩) (q := .accept responderId w.id) budgeted (by simp)
      rfl (by simp) (by simp) (by simp) (keep (by simp)) fun _ => by simpa using nothing
  | connectAccept listens retry =>
    refine reset (resets ⟨listens, rfl, by simp [retry]⟩) ?_ ?_ ?_ ?_ ?_ keep
    · simpa using stopRetry_map_stop w _
    · simp [Wire.stopRetry]
    · simp
    · simp
    · simp
  | connectConfirm listens retry =>
    refine reset (resets ⟨listens, rfl, by simp [retry]⟩) ?_ ?_ ?_ ?_ ?_ keep
    · simpa using stopRetry_map_stop w _
    · simp [Wire.idle, Wire.stopRetry]
    · simp
    · simp
    · simp
  | sendOld | sendNext | sendAhead => exact stay ⟨rfl, rfl, rfl⟩ rfl keep rfl
  | ackBare =>
    have sent := genuine _ _ _ rfl
    rw [next] at sent keep ⊢
    exact budgeted_same budgeted ⟨rfl, rfl, rfl⟩ (Or.inl (Nat.le_succ _)) sent keep
      budgeted.unused
  | ackHeld =>
    have sent := genuine _ _ _ rfl
    rw [next] at sent keep ⊢
    exact budgeted_same budgeted ⟨rfl, stopRetry_map_stop w _, rfl⟩ (Or.inl (Nat.le_succ _)) sent
      keep budgeted.unused

end Reaction

end SCLOrkWire
