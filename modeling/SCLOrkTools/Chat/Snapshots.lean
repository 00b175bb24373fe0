import SCLOrkTools.Chat.Membership
import SCLOrkTools.Chat.Replication

/- The log replayed over a snapshot of the name map. Changes that the snapshot already shows
   may be replayed over it once more. -/
namespace SCLOrkChat
open GuardedRun KeyedLog

def Entry.serial (e : Entry) : Option Int :=
  match e.message.args with
  | .int serial :: _ => some serial
  | _ => none

def Server.changesFrom (s : Server) (first : Nat) : List Entry :=
  s.log.filter fun e => e.path = "/chatChangeClient" ∧ e.serial.any ((first : Int) ≤ ·)

/-- The rules of the client's changeClientFunc without its serial filter. -/
def Client.applyRule (c : Client) (e : Entry) : Client :=
  match e.message.args with
  | [.int _, .string changeType, .int id, .string userName] => c.applyChange changeType id userName
  | _ => c

def Client.replay (c : Client) (es : List Entry) : Client := es.foldl Client.applyRule c

theorem moves_extend {s t : Server} (moves : Moves s t) : s.log <+: t.log := by
  induction moves with
  | refl => exact List.prefix_refl _
  | tail _ move ih =>
    apply ih.trans
    cases move with
    | idle cap names serial slots log => exact log ▸ List.prefix_rfl
    | chat args room => exact List.prefix_append _ _
    | put type kind userID name room => exact List.prefix_append _ _
    | erase type kind userID name room => exact List.prefix_append _ _

theorem run_moves {s t : Server} {cs : List (Packet × Moment)} (logged : Logged s)
    (ran : s.run cs = some t) : Moves s t := by
  have kept := run_keeps (fun u => Logged u ∧ Moves s u) ?_ ⟨logged, .refl⟩ ran
  · exact kept.2
  · intro u c v inv step
    have moves := step_moves inv.1 step
    exact ⟨logged_moves inv.1 moves, inv.2.trans moves⟩

theorem changesFrom_eq {s : Server} (mirrored : Mirrored s) (first : Nat) :
    s.changesFrom first = (s.log.drop first).filter (·.path = "/chatChangeClient") := by
  have serial {i : Nat} {e : Entry} (found : s.log[i]? = some e) : e.serial = some (i : Int) := by
    have told := mirrored.told i e found
    cases told <;> rfl
  have older : (s.log.take first).filter
      (fun e => e.path = "/chatChangeClient" ∧ e.serial.any ((first : Int) ≤ ·)) = [] := by
    apply List.filter_eq_nil_iff.mpr
    intro e mem
    obtain ⟨i, bound, at_i⟩ := List.getElem_of_mem mem
    have below : i < first := by
      rw [List.length_take] at bound
      omega
    have found : s.log[i]? = some e := by
      rw [← List.getElem?_take_of_lt below, List.getElem?_eq_getElem bound, at_i]
    simp [serial found, below]
  have newer : (s.log.drop first).filter
      (fun e => e.path = "/chatChangeClient" ∧ e.serial.any ((first : Int) ≤ ·)) =
        (s.log.drop first).filter (·.path = "/chatChangeClient") := by
    apply List.filter_congr
    intro e mem
    obtain ⟨i, bound, at_i⟩ := List.getElem_of_mem mem
    have found : s.log[first + i]? = some e := by
      rw [← List.getElem?_drop, List.getElem?_eq_getElem bound, at_i]
    simp [serial found]
  unfold Server.changesFrom
  conv_lhs => rw [← List.take_append_drop first s.log]
  rw [List.filter_append, older, newer, List.nil_append]

theorem applyRule_names {i : Int} {e : Entry} (told : Told i e)
    (change : e.path = "/chatChangeClient") (c : Client) (u : Int) :
    (c.applyRule e).nameMap.lookup u = (e.writes u).getD (c.nameMap.lookup u) := by
  cases told with
  | chat handle args => simp at change
  | put handle type kind userID name =>
    have rule : c.applyRule ⟨"/chatChangeClient", ⟨handle, changeClient i type userID name⟩⟩ =
      c.applyChange type userID name := rfl
    rw [rule, applyChange_put kind, writes_put kind]
    exact lookup_insert_user c.nameMap userID name u
  | erase handle type kind userID name =>
    have rule : c.applyRule ⟨"/chatChangeClient", ⟨handle, changeClient i type userID name⟩⟩ =
      c.applyChange type userID name := rfl
    rw [rule, applyChange_erase kind, writes_erase kind]
    exact lookup_erase_user c.nameMap userID u

theorem replay_names {es : List Entry}
    (changes : ∀ e ∈ es, e.path = "/chatChangeClient" ∧ ∃ i : Int, Told i e) (c : Client)
    (u : Int) : (c.replay es).nameMap.lookup u =
      (latest Entry.writes u es).getD (c.nameMap.lookup u) := by
  induction es generalizing c with
  | nil => rfl
  | cons e es ih =>
    obtain ⟨change, i, told⟩ := changes e List.mem_cons_self
    have rest := ih (fun f mem => changes f (List.mem_cons_of_mem e mem)) (c.applyRule e)
    have turn : c.replay (e :: es) = (c.applyRule e).replay es := rfl
    rw [turn, rest, applyRule_names told change c u]
    simp only [latest]
    cases latest Entry.writes u es <;> rfl

theorem run_mirrored {timeout M : Int} {s : Server} {cs : List (Packet × Moment)}
    (ran : (Server.new timeout M).run cs = some s) : Logged s ∧ Mirrored s := by
  refine run_keeps (fun s => Logged s ∧ Mirrored s) ?_
    ⟨logged_new timeout M, mirrored_new timeout M⟩ ran
  rintro s c t ⟨logged, mirrored⟩ step
  have moves := step_moves logged step
  exact ⟨logged_moves logged moves, mirrored_moves logged mirrored moves⟩

/-- The changes from any serial up to that of a snapshot on, replayed over the snapshot,
    lead to the name map the server has now. -/
theorem replay_over_snapshot {timeout M : Int} {snapshot s : Server}
    {before after : List (Packet × Moment)}
    (taken : (Server.new timeout M).run before = some snapshot)
    (ran : snapshot.run after = some s) {first : Nat} (overlap : first ≤ snapshot.messageSerial)
    (c : Client) (same : c.nameMap = snapshot.nameMap) :
    ∀ u, (c.replay (s.changesFrom first)).nameMap.lookup u = s.nameMap.lookup u := by
  intro u
  obtain ⟨logged, mirrored⟩ := run_mirrored taken
  have now : (Server.new timeout M).run (before ++ after) = some s :=
    run_append.mpr ⟨snapshot, taken, ran⟩
  have mirrored' := (run_mirrored now).2
  obtain ⟨newer, extended⟩ := moves_extend (run_moves logged ran)
  have front : s.log.take snapshot.log.length = snapshot.log := by
    rw [← extended, List.take_left]
  have shorter : first ≤ snapshot.log.length := by
    have := logged.serial
    omega
  rw [changesFrom_eq mirrored', replay_names]
  · rw [latest_filter, same, mirrored.names u, mirrored'.names u,
      ← latest_overlap shorter u s.log, front]
    · cases latest Entry.writes u (s.log.drop first) <;> rfl
    · intro e mem other
      have silent : e.path ≠ "/chatChangeClient" := by simpa using other
      simp [Entry.writes, silent]
  · intro e mem
    obtain ⟨inside, change⟩ := List.mem_filter.mp mem
    obtain ⟨i, bound, at_i⟩ := List.getElem_of_mem (List.mem_of_mem_drop inside)
    refine ⟨by simpa using change, i, ?_⟩
    rw [← at_i]
    exact mirrored'.told i _ (List.getElem?_eq_getElem bound)

def sequel : List (Packet × Moment) :=
  [(⟨"/chatSignIn", [.string "bob"]⟩, ⟨3, []⟩),
    (⟨"/chatChangeName", [.int 2, .string "bo"]⟩, ⟨4, []⟩)]

def returned : Server := (visited.run sequel).get (by decide +kernel)

theorem returned_ran : visited.run sequel = some returned := (Option.some_get _).symm

/-- The snapshot shows all of Ann's visit, and her change of names and her leaving are heard
    once more. -/
theorem replay_over_visited :
    ({ Client.new with nameMap := visited.nameMap }.replay
      (returned.changesFrom 1)).nameMap.lookup 1 = none ∧
    ({ Client.new with nameMap := visited.nameMap }.replay
      (returned.changesFrom 1)).nameMap.lookup 2 = some "bo" := by
  have overlap : 1 ≤ visited.messageSerial := by decide +kernel
  have agree := replay_over_snapshot visited_ran returned_ran overlap
    { Client.new with nameMap := visited.nameMap } rfl
  exact ⟨(agree 1).trans (by decide +kernel), (agree 2).trans (by decide +kernel)⟩

end SCLOrkChat
