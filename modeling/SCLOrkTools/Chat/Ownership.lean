import Mathlib.Data.List.Range
import SCLOrkTools.Chat.Membership

/- Who owns the messages of the chat server: each one it allocates is in the ring or has been
   freed. The first message of all stays behind when its slot is used again, and so does a
   chat message with an argument of another type. -/
namespace SCLOrkChat
open RingBuffer GuardedRun

/-- The handle is that of the message at position i, one of those the ring holds. -/
def Server.Holds (s : Server) (handle i : Nat) : Prop :=
  s.messageSerial ≤ i + kMessageArraySize ∧ i < s.messageSerial ∧
    ∃ e ∈ s.slots.wrapAt i, e.message.handle = handle

/-- Every message allocated is in one slot of the ring, or it has been freed once. -/
def Server.Balanced (s : Server) : Prop :=
  ∀ handle < s.allocated, (∃! i, s.Holds handle i) ∧ handle ∉ s.freed ∨
    (∀ i, ¬ s.Holds handle i) ∧ s.freed.count handle = 1

def Abandons (c : Packet × Moment) : Prop :=
  getCommandNamed c.1.path = .kSendMessage ∧ c.1.args.all Arg.supported = false

instance (c : Packet × Moment) : Decidable (Abandons c) := inferInstanceAs (Decidable (_ ∧ _))

def handles (es : List Entry) : List Nat := es.map (·.message.handle)

def Server.displaced (s : Server) : List Nat :=
  if s.log.length > kMessageArraySize then
    handles s.log[s.log.length - kMessageArraySize]?.toList
  else []

def Server.overwritten (s : Server) : List Nat :=
  handles ((s.log.take (s.log.length - kMessageArraySize)).drop 1)

/-- All that can happen to a message without getting lost: it is queued, or it is sent and
    freed at once. -/
inductive Kept : Server → Server → Prop
  | idle {s t : Server} (allocated : t.allocated = s.allocated) (freed : t.freed = s.freed)
      (log : t.log = s.log) : Kept s t
  | queue {s t : Server} (path : String) (args : List Arg)
      (allocated : t.allocated = s.allocated + 1) (freed : t.freed = s.freed ++ s.displaced)
      (log : t.log = s.log ++ [⟨path, ⟨s.allocated, args⟩⟩]) : Kept s t
  | reply {s t : Server} (allocated : t.allocated = s.allocated + 1)
      (freed : t.freed = s.freed ++ [s.allocated]) (log : t.log = s.log) : Kept s t

abbrev Keeps : Server → Server → Prop := Relation.ReflTransGen Kept

theorem queued_freed {s : Server} (logged : Logged s) (path : String) (message : Message) :
    (s.queued path message).freed = s.freed ++ s.displaced := by
  by_cases full : s.log.length > kMessageArraySize
  · have positive : 0 < kMessageArraySize := by decide
    have slot : s.slots.wrapAt s.log.length = s.log[s.log.length - kMessageArraySize]? := by
      have same := wrapAt_add_size s.slots (s.log.length - kMessageArraySize)
      rw [logged.size, Nat.sub_add_cancel (Nat.le_of_lt full)] at same
      rw [same]
      exact logged.ring.2 _ (Nat.le_refl _) (by omega)
    simp only [Server.queued, Server.displaced, full, if_true, slot, handles]
    cases s.log[s.log.length - kMessageArraySize]? <;> rfl
  · simp only [Server.queued, Server.displaced, full, if_false, List.append_nil]

theorem kept_queued {s t u : Server} (logged : Logged s) {path : String} {args : List Arg}
    (queued : u = s.messageNew.queued path ⟨s.allocated, args⟩)
    (allocated : t.allocated = u.allocated) (freed : t.freed = u.freed) (log : t.log = u.log) :
    Kept s t := by
  subst queued
  refine .queue path args allocated ?_ log
  rw [freed]
  exact queued_freed (logged_messageNew logged) path _

theorem sweepOne_keeps {s t : Server} (logged : Logged s) {cutTime userID : Int}
    (ran : s.sweepOne cutTime userID = .ok t) : Kept s t := by
  rcases sweepOne_cases logged ran with ⟨-, rfl⟩ | ⟨-, -, rfl⟩ | ⟨-, name, -, -, rfl⟩
  · exact .idle rfl rfl rfl
  · exact .idle rfl rfl rfl
  · exact kept_queued logged rfl rfl rfl rfl

theorem sweep_keeps {s t : Server} (logged : Logged s) {cutTime : Int} {order : List Int}
    (ran : s.sweep cutTime order = .ok t) : Keeps s t := by
  induction order generalizing s with
  | nil =>
    cases ran
    exact .refl
  | cons userID order ih =>
    obtain ⟨mid, first, rest⟩ := bind_ok ran
    have logged' := logged_moves logged (sweepOne_moves logged first)
    exact .head (sweepOne_keeps logged first) (ih logged' rest)

theorem step_keeps {s t : Server} {c : Packet × Moment} (logged : Logged s)
    (step : s.step c = some t) :
    if Abandons c then t = s.messageNew else Keeps s t := by
  obtain ⟨-, sent, ran⟩ := step_cases step
  cases handle_cases logged ran with
  | signIn command name userID args room =>
    have named : Logged { s with
        userSerial := userID, nameMap := s.nameMap.insert userID name } :=
      logged_same logged rfl rfl rfl
    have idle : Kept s { s with
        userSerial := userID, nameMap := s.nameMap.insert userID name } := .idle rfl rfl rfl
    rw [if_neg (by simp [Abandons, command])]
    exact .head idle (.single (kept_queued named rfl rfl rfl rfl))
  | getAllClients command =>
    rw [if_neg (by simp [Abandons, command])]
    exact .single (.reply rfl rfl rfl)
  | getMessages command userID messageID args reply swept =>
    have pinged : Logged (s.ping userID c.2.now) := logged_same logged rfl rfl rfl
    have idle : Kept s (s.ping userID c.2.now) := .idle rfl rfl rfl
    rw [if_neg (by simp [Abandons, command])]
    exact .head idle (sweep_keeps pinged swept)
  | sendMessage command whole room =>
    rw [if_neg (by simp [Abandons, whole])]
    exact .single (kept_queued logged rfl rfl rfl rfl)
  | abandoned command strange => rw [if_pos ⟨command, strange⟩]
  | changeName command userID name args room =>
    have named : Logged { s with nameMap := s.nameMap.insert userID name } :=
      logged_same logged rfl rfl rfl
    have idle : Kept s { s with nameMap := s.nameMap.insert userID name } := .idle rfl rfl rfl
    rw [if_neg (by simp [Abandons, command])]
    exact .head idle (.single (kept_queued named rfl rfl rfl rfl))
  | signOut command userID name args named room =>
    rw [if_neg (by simp [Abandons, command])]
    exact .single (kept_queued logged rfl rfl rfl rfl)
  | ignored unfit =>
    have finished : ¬ Abandons c := by
      rintro ⟨command, -⟩
      rw [command] at unfit
      exact unfit
    rw [if_neg finished]

/-- The ledger: what has been freed, and every message by what became of it. -/
structure Ledger (s : Server) (replies abandoned : List Nat) : Prop where
  freed : s.freed.Perm (s.overwritten ++ replies)
  allocated : (handles s.log ++ replies ++ abandoned).Perm (List.range s.allocated)

theorem ledger_new (timeout M : Int) : Ledger (Server.new timeout M) [] [] where
  freed := by simp [Server.new, Server.overwritten, handles]
  allocated := by simp [Server.new, handles]

theorem overwritten_snoc {s t : Server} {e : Entry} (log : t.log = s.log ++ [e]) :
    t.overwritten = s.overwritten ++ s.displaced := by
  have longer : t.log.length = s.log.length + 1 := by rw [log, List.length_append]; rfl
  have positive : 0 < kMessageArraySize := by decide
  unfold Server.overwritten Server.displaced handles
  by_cases full : s.log.length > kMessageArraySize
  · have next : t.log.length - kMessageArraySize = s.log.length - kMessageArraySize + 1 := by omega
    have inside : s.log.length - kMessageArraySize < s.log.length := by omega
    have old : 1 ≤ (s.log.take (s.log.length - kMessageArraySize)).length := by
      rw [List.length_take]
      omega
    rw [if_pos full, next, log, List.take_append_of_le_length (by omega), List.take_add_one,
      List.drop_append_of_le_length old, List.map_append]
  · have none {es : List Entry} {n : Nat} (few : n ≤ 1) : (es.take n).drop 1 = [] := by
      apply List.drop_eq_nil_of_le
      rw [List.length_take]
      omega
    rw [if_neg full, none (by omega), none (by omega), List.append_nil]

theorem ledger_kept {s t : Server} {replies abandoned : List Nat}
    (ledger : Ledger s replies abandoned) (kept : Kept s t) :
    ∃ replies', Ledger t replies' abandoned := by
  cases kept with
  | idle allocated freed log =>
    refine ⟨replies, ?_, ?_⟩
    · rw [freed, Server.overwritten, log]
      exact ledger.freed
    · rw [allocated, log]
      exact ledger.allocated
  | queue path args allocated freed log =>
    refine ⟨replies, ?_, ?_⟩
    · rw [freed, overwritten_snoc log, List.append_assoc]
      apply (ledger.freed.append_right _).trans
      rw [List.append_assoc]
      exact List.Perm.append_left _ List.perm_append_comm
    · rw [allocated, log, List.range_succ]
      apply List.Perm.trans _ (ledger.allocated.append_right [s.allocated])
      simp only [handles, List.map_append, List.map_cons, List.map_nil, List.append_assoc]
      apply List.Perm.append_left
      rw [← List.append_assoc replies]
      exact List.perm_append_comm
  | reply allocated freed log =>
    refine ⟨replies ++ [s.allocated], ?_, ?_⟩
    · rw [freed, Server.overwritten, log, ← List.append_assoc]
      exact ledger.freed.append_right _
    · rw [allocated, log, List.range_succ]
      apply List.Perm.trans _ (ledger.allocated.append_right [s.allocated])
      simp only [List.append_assoc]
      apply List.Perm.append_left
      apply List.Perm.append_left
      exact List.perm_append_comm

theorem ledger_abandoned {s : Server} {replies abandoned : List Nat}
    (ledger : Ledger s replies abandoned) :
    Ledger s.messageNew replies (abandoned ++ [s.allocated]) where
  freed := ledger.freed
  allocated := by
    change (handles s.log ++ replies ++ (abandoned ++ [s.allocated])).Perm
      (List.range (s.allocated + 1))
    rw [List.range_succ, ← List.append_assoc]
    exact ledger.allocated.append_right _

theorem ledger_keeps {s t : Server} {replies abandoned : List Nat}
    (ledger : Ledger s replies abandoned) (keeps : Keeps s t) :
    ∃ replies', Ledger t replies' abandoned := by
  induction keeps with
  | refl => exact ⟨replies, ledger⟩
  | tail _ kept ih =>
    obtain ⟨between, ledger⟩ := ih
    exact ledger_kept ledger kept

theorem run_ledger {timeout M : Int} {s : Server} {cs : List (Packet × Moment)}
    (ran : (Server.new timeout M).run cs = some s) :
    ∃ replies abandoned, Ledger s replies abandoned ∧
      (abandoned = [] ↔ ∀ c ∈ cs, ¬ Abandons c) := by
  have kept := run_keeps_history (fun past s => Logged s ∧ ∃ replies abandoned,
    Ledger s replies abandoned ∧ (abandoned = [] ↔ ∀ c ∈ past, ¬ Abandons c)) ?_
    ⟨logged_new timeout M, [], [], ledger_new timeout M, by simp⟩ ran
  · exact kept.2
  · rintro past s c t ⟨logged, replies, abandoned, ledger, tidy⟩ step
    refine ⟨logged_moves logged (step_moves logged step), ?_⟩
    have accounts := step_keeps logged step
    by_cases given_up : Abandons c
    · rw [if_pos given_up] at accounts
      subst accounts
      refine ⟨replies, abandoned ++ [s.allocated], ledger_abandoned ledger, ?_⟩
      apply iff_of_false (by simp)
      intro tidy
      exact tidy c (List.mem_append_right _ List.mem_cons_self) given_up
    · rw [if_neg given_up] at accounts
      obtain ⟨replies', ledger'⟩ := ledger_keeps ledger accounts
      refine ⟨replies', abandoned, ledger', ?_⟩
      rw [tidy, List.forall_mem_append, List.forall_mem_singleton]
      exact (and_iff_left given_up).symm

section Balance
variable {s : Server} {replies abandoned : List Nat}

theorem holds_iff (logged : Logged s) {handle i : Nat} : s.Holds handle i ↔
    s.log.length ≤ i + kMessageArraySize ∧ (handles s.log)[i]? = some handle := by
  unfold Server.Holds handles
  rw [logged.serial, List.getElem?_map]
  constructor
  · rintro ⟨recent, below, e, at_slot, rfl⟩
    have inside : i < s.log.length := by omega
    rw [logged.ring.2 i (by omega) inside] at at_slot
    have found : s.log[i]? = some e := at_slot
    exact ⟨by omega, by rw [found]; rfl⟩
  · rintro ⟨recent, found⟩
    obtain ⟨e, at_i, rfl⟩ := Option.map_eq_some_iff.mp found
    obtain ⟨inside, -⟩ := List.getElem?_eq_some_iff.mp at_i
    refine ⟨by omega, by omega, e, ?_, rfl⟩
    exact (logged.ring.2 i (by omega) inside).trans at_i

theorem ledger_nodup (ledger : Ledger s replies abandoned) :
    (handles s.log ++ replies ++ abandoned).Nodup :=
  ledger.allocated.nodup_iff.mpr List.nodup_range

theorem overwritten_nil (few : s.log.length ≤ kMessageArraySize) : s.overwritten = [] := by
  simp [Server.overwritten, handles, Nat.sub_eq_zero_of_le few]

theorem balanced_of_few (logged : Logged s) (ledger : Ledger s replies [])
    (few : s.log.length ≤ kMessageArraySize) : s.Balanced := by
  intro handle below
  have nodup := ledger_nodup ledger
  rw [List.append_nil] at nodup
  obtain ⟨once, alone, apart⟩ := List.nodup_append.mp nodup
  have freed : s.freed.Perm replies := by
    have whole := ledger.freed
    rwa [overwritten_nil few, List.nil_append] at whole
  have member : handle ∈ handles s.log ++ replies := by
    have listed := ledger.allocated.mem_iff.mpr (List.mem_range.mpr below)
    rwa [List.append_nil] at listed
  rcases List.mem_append.mp member with logged_handle | replied
  · obtain ⟨i, inside, at_i⟩ := List.getElem_of_mem logged_handle
    have found : (handles s.log)[i]? = some handle := by
      rw [List.getElem?_eq_getElem inside, at_i]
    refine Or.inl ⟨⟨i, (holds_iff logged).mpr ⟨by omega, found⟩, ?_⟩, ?_⟩
    · intro j held
      have again := ((holds_iff logged).mp held).2
      obtain ⟨bound, at_j⟩ := List.getElem?_eq_some_iff.mp again
      exact (List.Nodup.getElem_inj_iff once).mp (at_j.trans at_i.symm)
    · intro gone
      exact apart handle logged_handle handle (freed.mem_iff.mp gone) rfl
  · refine Or.inr ⟨?_, ?_⟩
    · intro i held
      have there := List.mem_of_getElem? ((holds_iff logged).mp held).2
      exact apart handle there handle replied rfl
    · rw [freed.count_eq]
      exact List.count_eq_one_of_mem alone replied

theorem overwritten_subset : s.overwritten ⊆ handles s.log := by
  intro handle there
  obtain ⟨e, mem, rfl⟩ := List.mem_map.mp there
  exact List.mem_map_of_mem (List.mem_of_mem_take (List.mem_of_mem_drop mem))

theorem freed_mem (ledger : Ledger s replies abandoned) {handle : Nat}
    (once : s.freed.count handle = 1) : handle ∈ s.overwritten ∨ handle ∈ replies := by
  have gone : handle ∈ s.freed := List.count_pos_iff.mp (by omega)
  exact List.mem_append.mp (ledger.freed.mem_iff.mp gone)

theorem allocated_mem (ledger : Ledger s replies abandoned) {handle : Nat}
    (listed : handle ∈ handles s.log ++ replies ++ abandoned) : handle < s.allocated :=
  List.mem_range.mp (ledger.allocated.mem_iff.mp listed)

theorem abandoned_lost (logged : Logged s) (ledger : Ledger s replies abandoned) {handle : Nat}
    (given_up : handle ∈ abandoned) : ¬ s.Balanced := by
  intro balanced
  obtain ⟨-, -, apart⟩ := List.nodup_append.mp (ledger_nodup ledger)
  have nowhere : handle ∉ handles s.log ++ replies := fun there =>
    apart handle there handle given_up rfl
  rcases balanced handle (allocated_mem ledger (List.mem_append_right _ given_up)) with held | freed
  · obtain ⟨⟨i, here, -⟩, -⟩ := held
    have found := List.mem_of_getElem? ((holds_iff logged).mp here).2
    exact nowhere (List.mem_append_left _ found)
  · rcases freed_mem ledger freed.2 with old | replied
    · exact nowhere (List.mem_append_left _ (overwritten_subset old))
    · exact nowhere (List.mem_append_right _ replied)

theorem first_lost (logged : Logged s) (ledger : Ledger s replies abandoned)
    (full : kMessageArraySize < s.log.length) : ¬ s.Balanced := by
  intro balanced
  obtain ⟨once, -, apart⟩ := List.nodup_append.mp (List.nodup_append.mp (ledger_nodup ledger)).1
  obtain ⟨first, rest, shape⟩ := List.exists_cons_of_length_pos (l := s.log) (by omega)
  have there : first.message.handle ∈ handles s.log := by simp [handles, shape]
  have only : first.message.handle ∉ handles rest := by
    rw [handles, shape] at once
    exact (List.nodup_cons.mp once).1
  have later : s.overwritten ⊆ handles rest := by
    intro handle old
    obtain ⟨e, mem, rfl⟩ := List.mem_map.mp old
    rw [shape, List.drop_take, List.drop_one, List.tail_cons] at mem
    exact List.mem_map_of_mem (List.mem_of_mem_take mem)
  have below := allocated_mem ledger (List.mem_append_left _ (List.mem_append_left replies there))
  rcases balanced _ below with held | freed
  · obtain ⟨⟨i, here, -⟩, -⟩ := held
    obtain ⟨recent, found⟩ := (holds_iff logged).mp here
    cases i with
    | zero => omega
    | succ i =>
      rw [handles, shape] at found
      exact only (List.mem_of_getElem? found)
  · rcases freed_mem ledger freed.2 with old | replied
    · exact only (later old)
    · exact apart _ there _ replied rfl

end Balance

section Run
variable {timeout M : Int} {s : Server} {cs : List (Packet × Moment)}

theorem unbalanced_of_full (ran : (Server.new timeout M).run cs = some s)
    (full : kMessageArraySize < s.messageSerial) : ¬ s.Balanced := by
  have logged := (run_logged ran).1
  have serial := logged.serial
  obtain ⟨replies, abandoned, ledger, -⟩ := run_ledger ran
  exact first_lost logged ledger (by omega)

theorem unbalanced_of_abandons (ran : (Server.new timeout M).run cs = some s)
    {c : Packet × Moment} (mem : c ∈ cs) (given_up : Abandons c) : ¬ s.Balanced := by
  obtain ⟨replies, abandoned, ledger, tidy⟩ := run_ledger ran
  have some_lost : abandoned ≠ [] := fun none => tidy.mp none c mem given_up
  obtain ⟨handle, lost⟩ := List.exists_mem_of_ne_nil abandoned some_lost
  exact abandoned_lost (run_logged ran).1 ledger lost

/-- The ledger balances exactly as long as no slot of the ring was used again and no chat
    message was given up. -/
theorem balanced_iff (ran : (Server.new timeout M).run cs = some s) :
    s.Balanced ↔ s.messageSerial ≤ kMessageArraySize ∧ ∀ c ∈ cs, ¬ Abandons c := by
  constructor
  · intro balanced
    constructor
    · by_contra full
      exact unbalanced_of_full ran (by omega) balanced
    · intro c mem given_up
      exact unbalanced_of_abandons ran mem given_up balanced
  · rintro ⟨few, whole⟩
    have logged := (run_logged ran).1
    have serial := logged.serial
    obtain ⟨replies, abandoned, ledger, tidy⟩ := run_ledger ran
    have none := tidy.mpr whole
    subst none
    exact balanced_of_few logged ledger (by omega)

end Run

theorem balanced_visited : visited.Balanced ↔
    visited.messageSerial ≤ kMessageArraySize ∧ ∀ c ∈ visit, ¬ Abandons c :=
  balanced_iff visited_ran

def oddMessage : Packet × Moment :=
  (⟨"/chatSendMessage", [.int 1, .string "hm", .other 'f']⟩, ⟨0, []⟩)

def chatter : List (Packet × Moment) :=
  List.replicate 129 (⟨"/chatSendMessage", [.int 1, .string "hm"]⟩, ⟨0, []⟩)

/-- The server does not free what it has built of the odd message, nor message 0 when message
    128 takes its slot. -/
theorem messages_leak :
    (∃ s, (Server.new 10 3).run [oddMessage] = some s ∧ ¬ s.Balanced) ∧
      ∃ s, (Server.new 10 3).run chatter = some s ∧ ¬ s.Balanced := by
  have odd : ∃ s, (Server.new 10 3).run [oddMessage] = some s :=
    Option.isSome_iff_exists.mp (by decide +kernel)
  have wrapped : ∃ s, (Server.new 10 3).run chatter = some s ∧
      kMessageArraySize < s.messageSerial := by decide +kernel
  obtain ⟨s, ran⟩ := odd
  obtain ⟨t, wraps, full⟩ := wrapped
  exact ⟨⟨s, ran, unbalanced_of_abandons ran List.mem_cons_self (by decide)⟩,
    ⟨t, wraps, unbalanced_of_full wraps full⟩⟩

end SCLOrkChat
