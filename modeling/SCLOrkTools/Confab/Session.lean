import SCLOrkTools.Confab.Callbacks
import SCLOrkTools.Confab.Commands

/- SuperCollider and the confab process next to it. Commands and replies are datagrams between the
   two, which may be lost and may overtake each other; one command is carried out at a time. A
   datagram has the number of the request that it belongs to, which nobody reads. -/
section Session
open GuardedRun OrderedStores ByteStrings Confab
namespace SCLOrkConfab

def Object.argument : Object OscString → OscArgument
  | .integer n => .int32 n.toInt
  | .symbol text => .string text
  | .string _ text => .string text

def Object.ofArgument : OscArgument → Option (Object OscString)
  | .int32 value => some (.integer (BitVec.ofInt 32 value))
  | .string text => some (.symbol text)
  | .blob _ | .other => none

def Request.address : Request OscString → String
  | .addAssetFile => "/assetAddFile"
  | .addAssetString => "/assetAddString"
  | .findAssetById _ => "/assetFind"
  | .findAssetByName _ => "/assetFindName"
  | .loadAssetById _ => "/assetLoad"
  | .createList _ => "/listAdd"
  | .findListByName _ => "/listFind"
  | .getListNext _ => "/listNext"

/-- The key is followed by what the method is given besides it. -/
def command (r : Request OscString) (key : Object OscString) (more : List OscArgument) :
    OscMessage where
  addressPattern := ascii r.address
  arguments :=
    match r with
    | .addAssetFile | .addAssetString | .getListNext _ => key.argument :: more
    | _ => [key.argument]

def Message.address : Message → String
  | assetAdded => "/assetAdded"
  | assetError => "/assetError"
  | assetFound => "/assetFound"
  | assetLoaded => "/assetLoaded"
  | listFound => "/listFound"
  | listError => "/listError"
  | listItems => "/listItems"

def Message.named (address : OscString) : Option Message :=
  [assetAdded, assetError, assetFound, assetLoaded, listFound, listError, listItems].find?
    fun m => ascii m.address = address

structure Session where
  confab : Confab OscString
  commands : List (Nat × OscMessage)
  replies : List (Nat × OscMessage)
  handler : OscHandler

def Session.start (handler : OscHandler) : Session := ⟨Confab.start, [], [], handler⟩

abbrev Issue := Request OscString × List OscArgument

/-- What the requests from a number on send. -/
def Confab.commandsFrom (c : Confab OscString) (first : Nat) (more : List (List OscArgument)) :
    List (Nat × OscMessage) :=
  ((c.requests.drop first).zip more).mapIdx fun i ((r, key), more) =>
    (first + i, command r key more)

/-- `serve` takes one command from the way and carries it out, with whatever the server has then;
    `deliver` hands one reply to its OSCFunc, and `script` is what the callback does. -/
inductive Happening where
  | call (issue : Issue)
  | serve (i : Nat) (s : Surroundings) (posting : Posting) (fuel : Nat)
  | deliver (i : Nat) (script : List Issue)
  | loseCommand (i : Nat)
  | loseReply (i : Nat)

section Steps
variable (packs : Nat → OscString → List OscArgument → Bool) (codec : Base64.Codec)
  (verifiers : Verifiers) (schemas : Schemas) (host : ByteOrder) (XXH64 : List Byte → UInt64)

def Session.serve (v : Session) (i : Nat) (s : Surroundings) (posting : Posting) (fuel : Nat) :
    Option Session :=
  v.commands[i]?.bind fun (n, message) =>
    let commands := v.commands.eraseIdx i
    match processMessage message with
    | none => some { v with commands := commands }
    | some task =>
      (v.handler.perform packs codec verifiers schemas host XXH64 s posting fuel task).map
        fun (sent, handler) =>
          { v with
            commands := commands
            replies := v.replies ++ sent.map fun reply => (n, reply)
            handler := handler }

def Session.heard (v : Session) (i : Nat) : Option (Nat × Message × Object OscString) :=
  v.replies[i]?.bind fun (n, reply) =>
    (Message.named reply.addressPattern).bind fun m =>
      (reply.arguments.head?.bind Object.ofArgument).map fun key => (n, m, key)

def Session.deliver (v : Session) (i : Nat) (script : List Issue) : Session :=
  match v.heard i with
  | none => { v with replies := v.replies.eraseIdx i }
  | some (n, m, key) =>
    let confab := (v.confab.answered n).receive n key (script.map Prod.fst) m
    { v with
      confab := confab
      commands := v.commands ++
        confab.commandsFrom v.confab.requests.length (script.map Prod.snd)
      replies := v.replies.eraseIdx i }

def Session.step (v : Session) : Happening → Option Session
  | .call (r, more) =>
    let confab := v.confab.request r
    some { v with
      confab := confab
      commands := v.commands ++ confab.commandsFrom v.confab.requests.length [more] }
  | .serve i s posting fuel =>
    v.serve packs codec verifiers schemas host XXH64 i s posting fuel
  | .deliver i script => if i < v.replies.length then some (v.deliver i script) else none
  | .loseCommand i =>
    if i < v.commands.length then some { v with commands := v.commands.eraseIdx i } else none
  | .loseReply i =>
    if i < v.replies.length then some { v with replies := v.replies.eraseIdx i } else none

end Steps

/-- The id is spelled as confab spells it, if confab takes it for a key at all. -/
def Request.Spelled : Request OscString → Prop
  | .findAssetById id | .loadAssetById id => ∀ text, id.argument = .string text →
      stringToKey text.bytes ≠ 0 → keyToString (stringToKey text.bytes) = text.bytes
  | .getListNext listId => ∀ text, listId.argument = .string text →
      keyToString (stringToKey text.bytes) = text.bytes
  | _ => True

def Session.event (v : Session) : Happening → Option (Event OscString)
  | .call (r, _) => some (.call r)
  | .deliver i script => (v.heard i).map fun (n, m, _) => .response n m (script.map Prod.fst)
  | _ => none

def Happening.issues : Happening → List Issue
  | .call issue => [issue]
  | .deliver _ script => script
  | _ => []

/-- Ids are spelled as confab spells them, and the requests are uncontested. -/
structure Session.Plain (v : Session) (h : Happening) : Prop where
  spelled : ∀ issue ∈ h.issues, issue.1.Spelled
  uncontested : ∀ e ∈ v.event h, Uncontested v.confab e

def Request.parse (arguments : List OscArgument) : Request OscString → Option Task
  | .addAssetFile => (assetAddFile arguments).map .addAssetFile
  | .addAssetString => (assetAddString arguments).map .addAssetString
  | .findAssetById _ => (assetFind arguments).map .findAsset
  | .findAssetByName _ => (nameArgument arguments).map .findNamedAsset
  | .loadAssetById _ => (assetLoad arguments).map .loadAsset
  | .createList _ => (nameArgument arguments).map .addList
  | .findListByName _ => (nameArgument arguments).map .findList
  | .getListNext _ => (listNext arguments).map fun (key, token) => .nextList key token

theorem process_parse (r : Request OscString) (arguments : List OscArgument) :
    processMessage ⟨ascii r.address, arguments⟩ = r.parse arguments := by
  cases r <;> simp +decide [processMessage, Request.address, Request.parse]

theorem named_address (m : Message) : Message.named (ascii m.address) = some m := by
  cases m <;> decide

section Tasks
variable {r : Request OscString} {key : Object OscString} {more : List OscArgument} {task : Task}

theorem ofArgument_argument (key : Object OscString) :
    Object.ofArgument key.argument = some key.received := by
  cases key with
  | integer n => simp [Object.argument, Object.ofArgument, Object.received]
  | symbol text | string address text => rfl

theorem received_text {key : Object OscString} {text : OscString}
    (argument : key.argument = .string text) : key.received = .symbol text := by
  have received := ofArgument_argument key
  rw [argument] at received
  exact (Option.some.inj received).symm

theorem ofArgument_received {argument : OscArgument} {key : Object OscString}
    (heard : Object.ofArgument argument = some key) : key.received = key := by
  cases argument with
  | int32 value | string text =>
    cases heard
    rfl
  | blob | other => cases heard

theorem ofArgument_key (k : UInt64) {text : OscString} :
    Object.ofArgument (keyArgument k) = some (.symbol text) ↔ keyToString k = text.bytes := by
  have plain : (OscString.ofBytes (keyToString k)).bytes = keyToString k := cString_keyToString k
  constructor
  · intro same
    simp only [keyArgument, Object.ofArgument, Option.some.injEq, Object.symbol.injEq] at same
    rw [← plain, same]
  · intro same
    have equal : OscString.ofBytes (keyToString k) = text := oscString_ext (plain.trans same)
    rw [keyArgument, Object.ofArgument, equal]

theorem recognised_iff {id : Object OscString} {text : OscString}
    (argument : id.argument = .string text) :
    Object.ofArgument (keyArgument (stringToKey text.bytes)) = some id.received ↔
      keyToString (stringToKey text.bytes) = text.bytes := by
  rw [received_text argument, ofArgument_key]

theorem assetFind_parsed {id : Object OscString} {k : UInt64}
    (parsed : assetFind [id.argument] = some k) :
    ∃ text, id.argument = .string text ∧ stringToKey text.bytes = k ∧ k ≠ 0 := by
  unfold assetFind at parsed
  split at parsed
  · rename_i text shape
    dsimp only at parsed
    split at parsed
    · cases parsed
    · rename_i nonzero
      cases parsed
      exact ⟨text, (List.cons.inj shape).1, rfl, nonzero⟩
  · cases parsed

theorem nameArgument_parsed {name : Object OscString} {text : OscString}
    (parsed : nameArgument [name.argument] = some text) :
    Object.ofArgument (.string text) = some name.received := by
  unfold nameArgument at parsed
  split at parsed
  · rename_i shape
    cases parsed
    rw [← (List.cons.inj shape).1]
    exact ofArgument_argument name
  · cases parsed

/-- What the command of a request is parsed to is answered by messages for the request, and they
    come under its key if its id is spelled as confab spells it, and only then. -/
structure Request.Leads (r : Request OscString) (key : Object OscString) (task : Task) : Prop where
  requested : Object.ofArgument task.requested = some key.received ↔ r.Spelled
  answers : ∀ address ∈ task.answers, ∃ m, Message.named (ascii address) = some m ∧
    m.answers r = true

theorem spelled_id {id : Object OscString} {k : UInt64} {text : OscString}
    (argument : id.argument = .string text) (key : stringToKey text.bytes = k) (nonzero : k ≠ 0) :
    (∀ text, id.argument = .string text → stringToKey text.bytes ≠ 0 →
      keyToString (stringToKey text.bytes) = text.bytes) ↔
      Object.ofArgument (keyArgument k) = some id.received := by
  subst key
  rw [recognised_iff argument]
  constructor
  · intro spelled
    exact spelled text argument nonzero
  · intro same other shape _
    rw [argument] at shape
    cases shape
    exact same

theorem answers_one {m : Message} (answers : m.answers r = true) :
    ∀ address ∈ [m.address], ∃ m, Message.named (ascii address) = some m ∧ m.answers r = true := by
  intro address mem
  rw [List.mem_singleton.mp mem]
  exact ⟨m, named_address m, answers⟩

theorem answers_two {m n : Message} (first : m.answers r = true) (second : n.answers r = true) :
    ∀ address ∈ [m.address, n.address], ∃ m, Message.named (ascii address) = some m ∧
      m.answers r = true := by
  intro address mem
  rcases List.mem_cons.mp mem with rfl | mem
  · exact ⟨m, named_address m, first⟩
  · exact answers_one second address mem

theorem command_leads {serial : BitVec 32} (keyed : key = r.key serial)
    (parsed : processMessage (command r key more) = some task) : r.Leads key task := by
  subst keyed
  replace parsed : r.parse (command r (r.key serial) more).arguments = some task :=
    (process_parse r _).symm.trans parsed
  cases r with
  | addAssetFile =>
    obtain ⟨c, parses, rfl⟩ := Option.map_eq_some_iff.mp parsed
    obtain ⟨_, _, _, whole, -⟩ := addFile_parsed parses
    have serialNumber : OscArgument.int32 serial.toInt = .int32 c.serialNumber :=
      (List.cons.inj whole.arguments).1
    refine ⟨iff_of_true ?_ trivial, answers_one (m := .assetAdded) rfl⟩
    rw [Task.requested, ← serialNumber]
    exact ofArgument_argument (.integer serial)
  | addAssetString =>
    obtain ⟨c, parses, rfl⟩ := Option.map_eq_some_iff.mp parsed
    obtain ⟨_, _, _, whole, -⟩ := addString_parsed parses
    have serialNumber : OscArgument.int32 serial.toInt = .int32 c.serialNumber :=
      (List.cons.inj whole.arguments).1
    refine ⟨iff_of_true ?_ trivial, answers_one (m := .assetAdded) rfl⟩
    rw [Task.requested, ← serialNumber]
    exact ofArgument_argument (.integer serial)
  | findAssetById id =>
    obtain ⟨k, parses, rfl⟩ := Option.map_eq_some_iff.mp parsed
    obtain ⟨text, argument, key, nonzero⟩ := assetFind_parsed parses
    exact ⟨(spelled_id argument key nonzero).symm,
      answers_two (m := .assetFound) (n := .assetError) rfl rfl⟩
  | loadAssetById id =>
    obtain ⟨k, parses, rfl⟩ := Option.map_eq_some_iff.mp parsed
    obtain ⟨text, argument, key, nonzero⟩ := assetFind_parsed parses
    exact ⟨(spelled_id argument key nonzero).symm, answers_one (m := .assetLoaded) rfl⟩
  | findAssetByName name =>
    obtain ⟨text, parses, rfl⟩ := Option.map_eq_some_iff.mp parsed
    exact ⟨iff_of_true (nameArgument_parsed parses) trivial,
      answers_two (m := .assetFound) (n := .assetError) rfl rfl⟩
  | createList name | findListByName name =>
    obtain ⟨text, parses, rfl⟩ := Option.map_eq_some_iff.mp parsed
    exact ⟨iff_of_true (nameArgument_parsed parses) trivial,
      answers_two (m := .listFound) (n := .listError) rfl rfl⟩
  | getListNext listId =>
    obtain ⟨⟨k, token⟩, parses, rfl⟩ := Option.map_eq_some_iff.mp parsed
    unfold listNext at parses
    split at parses
    · rename_i text tokenText rest shape
      have argument : listId.argument = .string text := (List.cons.inj shape).1
      cases parses
      refine ⟨(recognised_iff argument).trans ?_, answers_one (m := .listItems) rfl⟩
      constructor
      · intro same other shape'
        rw [argument] at shape'
        cases shape'
        exact same
      · intro spelled
        exact spelled text argument
    · cases parses

end Tasks

/-- Every datagram belongs to a request that awaits its answer, and no two to the same one. -/
structure Session.Wired (v : Session) : Prop where
  nodup : ((v.commands ++ v.replies).map Prod.fst).Nodup
  awaited : ∀ p ∈ v.commands ++ v.replies, p.1 ∈ v.confab.awaiting
  spelled : ∀ r key, (r, key) ∈ v.confab.requests → r.Spelled ∧ ∃ serial, key = r.key serial
  commands : ∀ n message, (n, message) ∈ v.commands → ∃ r key more,
    v.confab.requests[n]? = some (r, key) ∧ message = command r key more
  replies : ∀ n reply, (n, reply) ∈ v.replies → ∃ r key m,
    v.confab.requests[n]? = some (r, key) ∧ Message.named reply.addressPattern = some m ∧
      m.answers r = true ∧ reply.arguments.head?.bind Object.ofArgument = some key.received

/-- What further requests, all of them spelled well, make of the callbacks. -/
structure Extends (c d : Confab OscString) : Prop where
  requests : c.requests <+: d.requests
  awaiting : ∀ n, n ∈ d.awaiting ↔
    n ∈ c.awaiting ∨ c.requests.length ≤ n ∧ n < d.requests.length
  spelled : ∀ r key, (r, key) ∈ d.requests → (r, key) ∈ c.requests ∨
    r.Spelled ∧ ∃ serial, key = r.key serial

section Extends
variable {c d e : Confab OscString}

theorem extends_same (requests : d.requests = c.requests) (awaiting : d.awaiting = c.awaiting) :
    Extends c d := by
  refine ⟨requests ▸ List.prefix_rfl, ?_, ?_⟩
  · intro n
    rw [awaiting, requests]
    exact (or_iff_left (by omega)).symm
  · intro r key mem
    exact Or.inl (requests ▸ mem)

theorem extends_trans (first : Extends c d) (second : Extends d e) : Extends c e := by
  have shorter := first.requests.length_le
  have longer := second.requests.length_le
  refine ⟨first.requests.trans second.requests, ?_, ?_⟩
  · intro n
    rw [second.awaiting, first.awaiting, or_assoc]
    exact or_congr_right (by omega)
  · intro r key mem
    rcases second.spelled r key mem with old | new
    · exact first.spelled r key old
    · exact Or.inr new

theorem extends_request {r : Request OscString} (spelled : r.Spelled) :
    Extends c (c.request r) := by
  refine ⟨?_, ?_, ?_⟩
  · rw [request_requests]
    exact List.prefix_append _ _
  · intro n
    rw [request_awaiting, request_length, List.mem_append, List.mem_singleton]
    exact or_congr_right (by omega)
  · intro s key mem
    rw [request_requests] at mem
    rcases List.mem_append.mp mem with old | new
    · exact Or.inl old
    · cases List.mem_singleton.mp new
      exact Or.inr ⟨spelled, c.addSerial, rfl⟩

theorem extends_requestAll {script : List (Request OscString)} (spelled : ∀ r ∈ script, r.Spelled) :
    Extends c (c.requestAll script) := by
  induction script generalizing c with
  | nil => exact extends_same rfl rfl
  | cons r script ih =>
    exact extends_trans (extends_request (spelled r List.mem_cons_self))
      (ih fun s mem => spelled s (List.mem_cons_of_mem r mem))

theorem extends_callBack {table : CallbackMap} {removesFirst removesLast : Bool} {n : Nat}
    {key : Object OscString} {script : List (Request OscString)}
    (spelled : ∀ r ∈ script, r.Spelled) :
    Extends c (Confab.callBack table removesFirst removesLast c n key script) := by
  unfold Confab.callBack
  split
  · exact extends_same rfl rfl
  · rename_i callback _
    have opened : Extends c (if removesFirst then c.removeAt (table, key) else c) := by
      split <;> exact extends_same rfl rfl
    have called : Extends c { (if removesFirst then c.removeAt (table, key) else c) with
        invoked := (if removesFirst then c.removeAt (table, key) else c).invoked ++
          [(callback, n)] } := extends_trans opened (extends_same rfl rfl)
    have asked := extends_trans called (extends_requestAll spelled)
    dsimp only
    split
    · exact extends_trans asked (extends_same rfl rfl)
    · exact asked

theorem mem_commandsFrom {first n : Nat} {more : List (List OscArgument)} {message : OscMessage}
    (mem : (n, message) ∈ d.commandsFrom first more) : first ≤ n ∧ n < d.requests.length ∧
      ∃ r key more, d.requests[n]? = some (r, key) ∧ message = command r key more := by
  obtain ⟨i, bound, at_i⟩ := List.mem_iff_getElem.mp mem
  simp only [Confab.commandsFrom, List.getElem_mapIdx, List.getElem_zip, List.getElem_drop,
    Prod.mk.injEq] at at_i
  obtain ⟨rfl, rfl⟩ := at_i
  simp only [Confab.commandsFrom, List.length_mapIdx, List.length_zip, List.length_drop] at bound
  refine ⟨Nat.le_add_right first i, by omega, _, _, _, ?_, rfl⟩
  exact List.getElem?_eq_getElem (by omega)

theorem commandsFrom_nodup (first : Nat) (more : List (List OscArgument)) :
    ((d.commandsFrom first more).map Prod.fst).Nodup := by
  rw [List.nodup_iff_injective_getElem]
  intro i j same
  simp [Confab.commandsFrom] at same
  exact Fin.ext same

end Extends

section Wired
variable {v : Session}

theorem wired_start (handler : OscHandler) : (Session.start handler).Wired where
  nodup := List.nodup_nil
  awaited := nofun
  spelled := nofun
  commands := nofun
  replies := nofun

theorem wired_dropCommand (wired : v.Wired) (i : Nat) :
    Session.Wired { v with commands := v.commands.eraseIdx i } := by
  have fewer : (v.commands.eraseIdx i ++ v.replies).Sublist (v.commands ++ v.replies) :=
    (List.eraseIdx_sublist v.commands i).append_right v.replies
  exact { wired with
    nodup := (fewer.map Prod.fst).nodup wired.nodup
    awaited := fun p mem => wired.awaited p (fewer.mem mem)
    commands := fun n message mem =>
      wired.commands n message ((List.eraseIdx_sublist v.commands i).mem mem) }

theorem wired_dropReply (wired : v.Wired) (i : Nat) :
    Session.Wired { v with replies := v.replies.eraseIdx i } := by
  have fewer : (v.commands ++ v.replies.eraseIdx i).Sublist (v.commands ++ v.replies) :=
    (List.Sublist.refl v.commands).append (List.eraseIdx_sublist v.replies i)
  exact { wired with
    nodup := (fewer.map Prod.fst).nodup wired.nodup
    awaited := fun p mem => wired.awaited p (fewer.mem mem)
    replies := fun n reply mem =>
      wired.replies n reply ((List.eraseIdx_sublist v.replies i).mem mem) }

theorem wired_number (wired : v.Wired) {p : Nat × OscMessage} (mem : p ∈ v.commands ++ v.replies) :
    p.1 < v.confab.requests.length := by
  rcases List.mem_append.mp mem with sent | replied
  · obtain ⟨r, key, more, found, -⟩ := wired.commands p.1 p.2 sent
    exact (List.getElem?_eq_some_iff.mp found).1
  · obtain ⟨r, key, m, found, -⟩ := wired.replies p.1 p.2 replied
    exact (List.getElem?_eq_some_iff.mp found).1

theorem wired_issue (wired : v.Wired) {d : Confab OscString} (extended : Extends v.confab d)
    (more : List (List OscArgument)) : Session.Wired { v with
      confab := d
      commands := v.commands ++ d.commandsFrom v.confab.requests.length more } := by
  have old {n : Nat} {p : Request OscString × Object OscString}
      (found : v.confab.requests[n]? = some p) : d.requests[n]? = some p := by
    obtain ⟨rest, same⟩ := extended.requests
    rw [← same, List.getElem?_append_left (List.getElem?_eq_some_iff.mp found).1]
    exact found
  have apart : ((v.commands ++ v.replies) ++
      d.commandsFrom v.confab.requests.length more).map Prod.fst |>.Nodup := by
    rw [List.map_append]
    refine List.Nodup.append wired.nodup (commandsFrom_nodup _ more) ?_
    intro n before after
    obtain ⟨p, mem, rfl⟩ := List.mem_map.mp before
    obtain ⟨⟨n, message⟩, new, same⟩ := List.mem_map.mp after
    have earlier := wired_number wired mem
    have later := (mem_commandsFrom new).1
    dsimp only at same
    omega
  refine ⟨?_, ?_, ?_, ?_, ?_⟩
  · refine (List.Perm.nodup_iff (List.Perm.map Prod.fst ?_)).mp apart
    exact (List.append_assoc _ _ _).symm ▸ (List.perm_append_comm.append_left _).trans
      (by rw [List.append_assoc])
  · intro p mem
    rw [extended.awaiting]
    rcases List.mem_append.mp mem with sent | replied
    · rcases List.mem_append.mp sent with before | after
      · exact Or.inl (wired.awaited p (List.mem_append_left _ before))
      · have numbered := mem_commandsFrom (show (p.1, p.2) ∈ _ from after)
        exact Or.inr ⟨numbered.1, numbered.2.1⟩
    · exact Or.inl (wired.awaited p (List.mem_append_right _ replied))
  · intro r key mem
    rcases extended.spelled r key mem with before | after
    · exact wired.spelled r key before
    · exact after
  · intro n message mem
    rcases List.mem_append.mp mem with before | after
    · obtain ⟨r, key, more, found, same⟩ := wired.commands n message before
      exact ⟨r, key, more, old found, same⟩
    · exact (mem_commandsFrom after).2.2
  · intro n reply mem
    obtain ⟨r, key, m, found, rest⟩ := wired.replies n reply mem
    exact ⟨r, key, m, old found, rest⟩

end Wired

section Runs
variable {packs : Nat → OscString → List OscArgument → Bool} {codec : Base64.Codec}
  {verifiers : Verifiers} {schemas : Schemas} {host : ByteOrder} {XXH64 : List Byte → UInt64}
  {v next : Session}

theorem taken_perm {α : Type} {xs : List α} {x : α} {i : Nat} (taken : xs[i]? = some x)
    (ys : List α) : (xs ++ ys).Perm (x :: (xs.eraseIdx i ++ ys)) := by
  obtain ⟨bound, rfl⟩ := List.getElem?_eq_some_iff.mp taken
  exact (List.getElem_cons_eraseIdx_perm bound).symm.append_right ys

theorem wired_serve {i : Nat} {s : Surroundings} {posting : Posting} {fuel : Nat} (wired : v.Wired)
    (served : v.serve packs codec verifiers schemas host XXH64 i s posting fuel = some next) :
    next.Wired ∧ next.confab = v.confab := by
  obtain ⟨⟨n, message⟩, taken, served⟩ := Option.bind_eq_some_iff.mp served
  dsimp only at served
  split at served
  · cases served
    exact ⟨wired_dropCommand wired i, rfl⟩
  · rename_i task parsed
    obtain ⟨⟨sent, handler⟩, performed, rfl⟩ := Option.map_eq_some_iff.mp served
    refine ⟨?_, rfl⟩
    have answered := perform_answered performed
    have mem : (n, message) ∈ v.commands := List.mem_of_getElem? taken
    obtain ⟨r, key, more, found, rfl⟩ := wired.commands n message mem
    obtain ⟨spelled, serial, keyed⟩ := wired.spelled r key (List.mem_of_getElem? found)
    have leads := command_leads keyed parsed
    have kept := wired_dropCommand wired i
    -- The number of the command is free for its reply, since no other datagram has it.
    have fewer : ((v.commands.eraseIdx i ++
        (v.replies ++ sent.map fun reply => (n, reply))).map Prod.fst).Nodup := by
      have one : ((sent.map fun reply => (n, reply)).map Prod.fst).Sublist [n] := by
        match sent, answered.once with
        | [], _ => exact List.nil_sublist [n]
        | [reply], _ => exact List.Sublist.refl [n]
      have whole := taken_perm taken v.replies
      rw [List.map_append, List.map_append, ← List.append_assoc, ← List.map_append]
      refine (one.append_left _).nodup ((List.Perm.nodup_iff ?_).mp wired.nodup)
      exact (whole.map Prod.fst).trans (@List.perm_append_comm _ [n] _)
    refine { kept with nodup := fewer, awaited := ?_, replies := ?_ }
    · intro p among
      rw [← List.append_assoc] at among
      rcases List.mem_append.mp among with before | after
      · exact kept.awaited p before
      · obtain ⟨reply, -, rfl⟩ := List.mem_map.mp after
        exact wired.awaited (n, command r key more) (List.mem_append_left _ mem)
    · intro k reply among
      rcases List.mem_append.mp among with before | after
      · exact kept.replies k reply before
      · obtain ⟨_, sends, same⟩ := List.mem_map.mp after
        cases same
        obtain ⟨address, known, path⟩ := answered.address reply sends
        obtain ⟨m, named, answers⟩ := leads.answers address known
        refine ⟨r, key, m, found, by rw [path, named], answers, ?_⟩
        rw [answered.requested reply sends]
        exact leads.requested.mpr spelled

theorem wired_heard {i n : Nat} {m : Message} {key : Object OscString} (wired : v.Wired)
    (heard : v.heard i = some (n, m, key)) : ∃ r asked, v.confab.requests[n]? = some (r, asked) ∧
      m.answers r = true ∧ key = asked.received ∧ n ∈ v.confab.awaiting ∧
      ∀ p ∈ v.commands ++ v.replies.eraseIdx i, p.1 ≠ n := by
  obtain ⟨⟨k, reply⟩, taken, heard⟩ := Option.bind_eq_some_iff.mp heard
  obtain ⟨other, named, heard⟩ := Option.bind_eq_some_iff.mp heard
  obtain ⟨first, received, same⟩ := Option.map_eq_some_iff.mp heard
  cases same
  have mem : (n, reply) ∈ v.replies := List.mem_of_getElem? taken
  obtain ⟨r, asked, m', found, named', answers, received'⟩ := wired.replies n reply mem
  rw [named] at named'
  cases named'
  rw [received] at received'
  cases received'
  refine ⟨r, asked, found, answers, rfl, wired.awaited (n, reply) (List.mem_append_right _ mem), ?_⟩
  have order := (List.perm_append_comm.trans (taken_perm taken v.commands)).trans
    (List.perm_append_comm.cons (n, reply))
  have nodup := ((order.map Prod.fst).nodup_iff).mp wired.nodup
  intro p among same
  exact (List.nodup_cons.mp nodup).1 (List.mem_map.mpr ⟨p, among, same⟩)

theorem wired_deliver {i : Nat} {script : List Issue} (wired : v.Wired)
    (spelled : ∀ issue ∈ script, issue.1.Spelled) : (v.deliver i script).Wired ∧
      ((v.heard i = none ∧ (v.deliver i script).confab = v.confab) ∨
        ∃ n m key, v.heard i = some (n, m, key) ∧
          v.confab.step (.response n m (script.map Prod.fst)) =
            some (v.deliver i script).confab) := by
  cases heard : v.heard i with
  | none =>
    have same : v.deliver i script = { v with replies := v.replies.eraseIdx i } := by
      rw [Session.deliver, heard]
    rw [same]
    exact ⟨wired_dropReply wired i, Or.inl ⟨rfl, rfl⟩⟩
  | some found =>
    obtain ⟨n, m, key⟩ := found
    obtain ⟨r, asked, request, answers, rfl, awaited, others⟩ := wired_heard wired heard
    have after : v.deliver i script = { v with
        confab := (v.confab.answered n).receive n asked.received (script.map Prod.fst) m
        commands := v.commands ++
          ((v.confab.answered n).receive n asked.received (script.map Prod.fst) m).commandsFrom
            v.confab.requests.length (script.map Prod.snd)
        replies := v.replies.eraseIdx i } := by
      rw [Session.deliver, heard]
    have dropped := wired_dropReply wired i
    have answered : Session.Wired { v with
        confab := v.confab.answered n, replies := v.replies.eraseIdx i } := by
      refine { dropped with awaited := ?_ }
      intro p mem
      exact (List.mem_erase_of_ne (others p mem)).mpr (dropped.awaited p mem)
    have extended : Extends (v.confab.answered n)
        ((v.confab.answered n).receive n asked.received (script.map Prod.fst) m) := by
      rw [receive_eq answers]
      apply extends_callBack
      intro s mem
      obtain ⟨issue, inside, rfl⟩ := List.mem_map.mp mem
      exact spelled issue inside
    rw [after]
    refine ⟨wired_issue answered extended _, Or.inr ⟨n, m, _, rfl, ?_⟩⟩
    simp only [Confab.step, request]
    exact if_pos ⟨awaited, answers⟩

/-- Each step of the session is one of the callbacks, or leaves them as they are. -/
theorem wired_step {h : Happening} (wired : v.Wired)
    (spelled : ∀ issue ∈ h.issues, issue.1.Spelled)
    (step : v.step packs codec verifiers schemas host XXH64 h = some next) : next.Wired ∧
      match v.event h with
      | none => next.confab = v.confab
      | some e => v.confab.step e = some next.confab := by
  cases h with
  | call issue =>
    cases step
    exact ⟨wired_issue wired (extends_request (spelled issue List.mem_cons_self)) _, rfl⟩
  | serve i s posting fuel => exact wired_serve wired step
  | deliver i script =>
    simp only [Session.step] at step
    split at step
    · cases step
      obtain ⟨after, ⟨unheard, same⟩ | ⟨n, m, key, heard, stepped⟩⟩ := wired_deliver wired spelled
      · refine ⟨after, ?_⟩
        rw [Session.event, unheard]
        exact same
      · refine ⟨after, ?_⟩
        rw [Session.event, heard]
        exact stepped
    · cases step
  | loseCommand i =>
    simp only [Session.step] at step
    split at step
    · cases step
      exact ⟨wired_dropCommand wired i, rfl⟩
    · cases step
  | loseReply i =>
    simp only [Session.step] at step
    split at step
    · cases step
      exact ⟨wired_dropReply wired i, rfl⟩
    · cases step

/-- As long as ids are spelled as confab spells them and requests are uncontested, a callback has
    been called once, with the answer to its own request, if that answer has been delivered, and
    not at all before, whatever has been lost or overtaken on the way. -/
theorem callbacks_answered {handler : OscHandler} {hs : List Happening}
    (plain : Along (Session.step packs codec verifiers schemas host XXH64) Session.Plain
      (Session.start handler) hs)
    (ran : run (Session.step packs codec verifiers schemas host XXH64) (Session.start handler) hs =
      some v) : Proper v.confab := by
  have kept := run_invariant (fun v : Session => v.Wired ∧ v.confab.Good) ?_
    ⟨wired_start handler, good_start⟩ plain ran
  · exact kept.2.log
  · rintro v h next ⟨wired, good⟩ plain step
    obtain ⟨after, stepped⟩ := wired_step wired plain.spelled step
    refine ⟨after, ?_⟩
    have uncontested := plain.uncontested
    cases happens : v.event h with
    | none =>
      rw [happens] at stepped
      exact stepped ▸ good
    | some e =>
      rw [happens] at stepped
      exact good_step good (uncontested e happens) stepped

/-- Whatever confab sends for a request is handled as an answer to such a request. It comes under
    the symbol for the key of the request if and only if that is spelled as confab spells it, and
    under the key itself if that is no String besides. -/
theorem reply_found_iff {r : Request OscString} {serial : BitVec 32} {more : List OscArgument}
    {task : Task} (parsed : processMessage (command r (r.key serial) more) = some task)
    {o after : OscHandler} {s : Surroundings} {posting : Posting} {fuel : Nat}
    {sent : List OscMessage} (performed : o.perform packs codec verifiers schemas host XXH64 s
      posting fuel task = some (sent, after)) {reply : OscMessage} (sends : reply ∈ sent) :
    (∃ m, Message.named reply.addressPattern = some m ∧ m.answers r = true) ∧
      (reply.arguments.head?.bind Object.ofArgument = some (r.key serial).received ↔
        r.Spelled) ∧
      (reply.arguments.head?.bind Object.ofArgument = some (r.key serial) ↔
        r.Spelled ∧ (r.key serial).received = r.key serial) := by
  have answered := perform_answered performed
  have leads := command_leads rfl parsed
  obtain ⟨address, known, path⟩ := answered.address reply sends
  rw [answered.requested reply sends, path]
  refine ⟨leads.answers address known, leads.requested, ?_⟩
  constructor
  · intro found
    have symbol := ofArgument_received found
    exact ⟨leads.requested.mp (found.trans (congrArg some symbol.symm)), symbol⟩
  · rintro ⟨spelled, symbol⟩
    exact (leads.requested.mpr spelled).trans (congrArg some symbol)

def postsList (key : UInt64) : Posting := ⟨fun _ => none, fun _ => none, fun _ => some key⟩

/-- The list 7, asked for without its leading zeros. -/
theorem reply_found_iff_seven :
    ∃ reply ∈ nextList (fun _ _ _ => true) .little pageServer 7 0,
      reply.arguments.head?.bind Object.ofArgument ≠ some (.symbol (ascii "7")) := by
  obtain ⟨reply, sends⟩ : ∃ reply, reply ∈ nextList (fun _ _ _ => true) .little pageServer 7 0 :=
    List.exists_mem_of_ne_nil _ (by decide +kernel)
  refine ⟨reply, sends, fun found => ?_⟩
  have asked : processMessage (command (.getListNext (.symbol (ascii "7")))
      (Request.key 0 (.getListNext (.symbol (ascii "7")))) [.string (ascii "0")]) =
        some (.nextList 7 0) := by rfl
  have performed : (pageHandler slashedCache).perform (fun _ _ _ => true) Base64.codec pageVerifiers
      flatbuffers .little byteHash pageSurroundings (postsList 7) 0 (.nextList 7 0) =
        some (nextList (fun _ _ _ => true) .little pageServer 7 0, _) := rfl
  have spelled := (reply_found_iff asked performed sends).2.1.mp found
  exact absurd (spelled (ascii "7") rfl) (by decide)

theorem plain_quiet {h : Happening} (quiet : h.issues = []) : v.Plain h := by
  refine ⟨fun issue mem => by simp [quiet] at mem, ?_⟩
  intro e happens
  cases h with
  | call issue => cases quiet
  | serve | loseCommand | loseReply => cases happens
  | deliver i script =>
    change script = [] at quiet
    subst quiet
    obtain ⟨⟨n, m, key⟩, -, rfl⟩ := Option.map_eq_some_iff.mp happens
    exact ⟨trivial, fun _ _ _ => trivial⟩

end Runs

def listing : List Happening :=
  [.call (.createList (.symbol (ascii "l")), []),
    .serve 0 pageSurroundings (postsList 7) 0, .deliver 0 []]

def listed : Session :=
  (run (Session.step (fun _ _ _ => true) Base64.codec pageVerifiers flatbuffers .little byteHash)
    (Session.start (pageHandler slashedCache)) listing).get (by decide +kernel)

theorem callbacks_answered_listed : Proper listed.confab := by
  have ran : run (Session.step (fun _ _ _ => true) Base64.codec pageVerifiers flatbuffers .little
      byteHash) (Session.start (pageHandler slashedCache)) listing = some listed :=
    (Option.some_get _).symm
  refine callbacks_answered ?_ ran
  refine ⟨⟨?_, ?_⟩, fun _ _ => ⟨plain_quiet rfl, fun _ _ => ⟨plain_quiet rfl, fun _ _ => trivial⟩⟩⟩
  · intro issue mem
    rw [List.mem_singleton.mp mem]
    trivial
  · intro e mem
    cases mem
    exact ⟨rfl, fun n waits => by cases waits.1⟩

example : listed.confab.invoked = [(0, 0)] := by decide +kernel

end SCLOrkConfab
end Session
