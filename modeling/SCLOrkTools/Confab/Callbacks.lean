import Mathlib.Data.List.Nodup
import Mathlib.Logic.Function.Basic
import SCLOrkTools.Library.GuardedRun

/- The callbacks of the class SCLOrkConfab. A callback is known by the number of the request that
   registered it, and whatever it does is a list of further requests. -/
namespace SCLOrkConfab
open GuardedRun
variable {Text : Type} [DecidableEq Text]

/-- Objects that are passed as keys. The dictionaries tell objects apart by identity: a symbol is
    the same object everywhere, a string is one of its own. -/
inductive Object (Text : Type) where
  | integer (n : BitVec 32)
  | symbol (text : Text)
  | string (address : Nat) (text : Text)
  deriving DecidableEq

/-- What comes back in a message: strings arrive as symbols. -/
def Object.received : Object Text → Object Text
  | .string _ text => .symbol text
  | key => key

inductive CallbackMap where
  | addCallbackMap
  | findCallbackMap
  | loadCallbackMap
  | listCallbackMap
  deriving DecidableEq

abbrev Slot (Text : Type) := CallbackMap × Object Text

inductive Request (Text : Type) where
  | addAssetFile
  | addAssetString
  | findAssetById (id : Object Text)
  | findAssetByName (name : Object Text)
  | loadAssetById (id : Object Text)
  | createList (name : Object Text)
  | findListByName (name : Object Text)
  | getListNext (listId : Object Text)

/-- `callbacks` are the four dictionaries. The last three fields are history: the requests with
    their keys, those that have not been answered, and, whenever a callback was called, its number
    and that of the request whose answer it was called with. -/
structure Confab (Text : Type) where
  addSerial : BitVec 32
  callbacks : Slot Text → Option Nat
  requests : List (Request Text × Object Text)
  awaiting : List Nat
  invoked : List (Nat × Nat)

def Confab.start : Confab Text := ⟨1, fun _ => none, [], [], []⟩

def Confab.put (c : Confab Text) (table : CallbackMap) (r : Request Text) (key : Object Text) :
    Confab Text :=
  { c with
    callbacks := Function.update c.callbacks (table, key) (some c.requests.length)
    requests := c.requests ++ [(r, key)]
    awaiting := c.awaiting ++ [c.requests.length] }

section Requests
variable (c : Confab Text)

def Confab.addAssetFile : Confab Text :=
  { c.put .addCallbackMap .addAssetFile (.integer c.addSerial) with addSerial := c.addSerial + 1 }

def Confab.addAssetString : Confab Text :=
  { c.put .addCallbackMap .addAssetString (.integer c.addSerial) with
    addSerial := c.addSerial + 1 }

def Confab.findAssetById (id : Object Text) : Confab Text :=
  c.put .findCallbackMap (.findAssetById id) id

def Confab.findAssetByName (name : Object Text) : Confab Text :=
  c.put .findCallbackMap (.findAssetByName name) name

def Confab.loadAssetById (id : Object Text) : Confab Text :=
  c.put .loadCallbackMap (.loadAssetById id) id

def Confab.createList (name : Object Text) : Confab Text :=
  c.put .listCallbackMap (.createList name) name

def Confab.findListByName (name : Object Text) : Confab Text :=
  c.put .listCallbackMap (.findListByName name) name

def Confab.getListNext (listId : Object Text) : Confab Text :=
  c.put .listCallbackMap (.getListNext listId) listId

def Confab.request : Request Text → Confab Text
  | .addAssetFile => c.addAssetFile
  | .addAssetString => c.addAssetString
  | .findAssetById id => c.findAssetById id
  | .findAssetByName name => c.findAssetByName name
  | .loadAssetById id => c.loadAssetById id
  | .createList name => c.createList name
  | .findListByName name => c.findListByName name
  | .getListNext listId => c.getListNext listId

end Requests

def Confab.requestAll (c : Confab Text) (script : List (Request Text)) : Confab Text :=
  script.foldl Confab.request c

def Confab.removeAt (c : Confab Text) (slot : Slot Text) : Confab Text :=
  { c with callbacks := Function.update c.callbacks slot none }

/-- The callback that is found is called with the answer to the request `n`, and `script` is what
    it does. Its entry is removed before that, after that or not at all. -/
def Confab.callBack (table : CallbackMap) (removesFirst removesLast : Bool) (c : Confab Text)
    (n : Nat) (key : Object Text) (script : List (Request Text)) : Confab Text :=
  match c.callbacks (table, key) with
  | none => c
  | some callback =>
    let c := if removesFirst then c.removeAt (table, key) else c
    let c := { c with invoked := c.invoked ++ [(callback, n)] }.requestAll script
    if removesLast then c.removeAt (table, key) else c

section Handlers
variable (c : Confab Text) (n : Nat) (key : Object Text) (script : List (Request Text))

def Confab.assetAddedFunc : Confab Text := callBack .addCallbackMap true false c n key script
def Confab.assetErrorFunc : Confab Text := callBack .findCallbackMap false true c n key script
def Confab.assetFoundFunc : Confab Text := callBack .findCallbackMap false true c n key script
def Confab.assetLoadedFunc : Confab Text := callBack .loadCallbackMap false true c n key script
def Confab.listFoundFunc : Confab Text := callBack .listCallbackMap false true c n key script
def Confab.listErrorFunc : Confab Text := callBack .listCallbackMap false false c n key script
def Confab.listItemsFunc : Confab Text := callBack .listCallbackMap false false c n key script

end Handlers

inductive Message where
  | assetAdded
  | assetError
  | assetFound
  | assetLoaded
  | listFound
  | listError
  | listItems
  deriving DecidableEq

def Message.answers : Message → Request Text → Bool
  | assetAdded, .addAssetFile | assetAdded, .addAssetString => true
  | assetError, .findAssetById _ | assetError, .findAssetByName _ => true
  | assetFound, .findAssetById _ | assetFound, .findAssetByName _ => true
  | assetLoaded, .loadAssetById _ => true
  | listFound, .createList _ | listFound, .findListByName _ => true
  | listError, .createList _ | listError, .findListByName _ | listError, .getListNext _ => true
  | listItems, .getListNext _ => true
  | _, _ => false

def Confab.receive (c : Confab Text) (n : Nat) (key : Object Text)
    (script : List (Request Text)) : Message → Confab Text
  | .assetAdded => c.assetAddedFunc n key script
  | .assetError => c.assetErrorFunc n key script
  | .assetFound => c.assetFoundFunc n key script
  | .assetLoaded => c.assetLoadedFunc n key script
  | .listFound => c.listFoundFunc n key script
  | .listError => c.listErrorFunc n key script
  | .listItems => c.listItemsFunc n key script

inductive Event (Text : Type) where
  | call (r : Request Text)
  | response (n : Nat) (m : Message) (script : List (Request Text))

def Confab.answered (c : Confab Text) (n : Nat) : Confab Text :=
  { c with awaiting := c.awaiting.erase n }

/-- Every request is answered once, with its own key. -/
def Confab.step (c : Confab Text) : Event Text → Option (Confab Text)
  | .call r => some (c.request r)
  | .response n m script =>
    match c.requests[n]? with
    | none => none
    | some (r, key) =>
      if n ∈ c.awaiting ∧ m.answers r then some ((c.answered n).receive n key.received script m)
      else none

/-- The callbacks of the answered requests were called once each, with the answer to their own
    request, and the others have not been called. -/
def Proper (c : Confab Text) : Prop :=
  ∀ n < c.requests.length,
    c.invoked.filter (·.1 = n) = if n ∈ c.awaiting then [] else [(n, n)]

instance (c : Confab Text) : Decidable (Proper c) :=
  inferInstanceAs (Decidable (∀ n < c.requests.length, _ = ite _ _ _))

def Request.table : Request Text → CallbackMap
  | .addAssetFile | .addAssetString => .addCallbackMap
  | .findAssetById _ | .findAssetByName _ => .findCallbackMap
  | .loadAssetById _ => .loadCallbackMap
  | .createList _ | .findListByName _ | .getListNext _ => .listCallbackMap

def Request.key (addSerial : BitVec 32) : Request Text → Object Text
  | .addAssetFile | .addAssetString => .integer addSerial
  | .findAssetById key | .findAssetByName key | .loadAssetById key | .createList key
  | .findListByName key | .getListNext key => key

def Message.removesFirst : Message → Bool
  | assetAdded => true
  | _ => false

def Message.removesLast : Message → Bool
  | assetError | assetFound | assetLoaded | listFound => true
  | assetAdded | listError | listItems => false

def Confab.slot (c : Confab Text) (r : Request Text) : Slot Text := (r.table, r.key c.addSerial)

/-- An answer to the request `n` has yet to come, and will be looked up in that slot. -/
def Confab.Waits (c : Confab Text) (n : Nat) (slot : Slot Text) : Prop :=
  n ∈ c.awaiting ∧ ∃ r key, c.requests[n]? = some (r, key) ∧ slot = (r.table, key.received)

/-- The key is no string, and nobody waits for an answer with it in the same dictionary. -/
def Confab.Free (c : Confab Text) (r : Request Text) : Prop :=
  (r.key c.addSerial).received = r.key c.addSerial ∧ ∀ n, ¬ c.Waits n (c.slot r)

def Confab.FreeAll : Confab Text → List (Request Text) → Prop
  | _, [] => True
  | c, r :: script => c.Free r ∧ (c.request r).FreeAll script

def Confab.Spares (slot : Slot Text) : Confab Text → List (Request Text) → Prop
  | _, [] => True
  | c, r :: script => c.slot r ≠ slot ∧ (c.request r).Spares slot script

/-- Requests are free when they are made, and a callback whose entry is removed when it returns
    makes none for that entry. -/
def Uncontested (c : Confab Text) : Event Text → Prop
  | .call r => c.Free r
  | .response n m script => (c.answered n).FreeAll script ∧
    (m.removesLast = true → ∀ slot, c.Waits n slot → (c.answered n).Spares slot script)

theorem request_callbacks (c : Confab Text) (r : Request Text) :
    (c.request r).callbacks = Function.update c.callbacks (c.slot r) (some c.requests.length) := by
  cases r <;> rfl

theorem request_requests (c : Confab Text) (r : Request Text) :
    (c.request r).requests = c.requests ++ [(r, r.key c.addSerial)] := by
  cases r <;> rfl

theorem request_awaiting (c : Confab Text) (r : Request Text) :
    (c.request r).awaiting = c.awaiting ++ [c.requests.length] := by
  cases r <;> rfl

theorem request_invoked (c : Confab Text) (r : Request Text) :
    (c.request r).invoked = c.invoked := by
  cases r <;> rfl

theorem receive_eq {m : Message} {r : Request Text} (answers : m.answers r = true)
    (c : Confab Text) (n : Nat) (key : Object Text) (script : List (Request Text)) :
    c.receive n key script m =
      Confab.callBack r.table m.removesFirst m.removesLast c n key script := by
  cases m <;> cases r <;> first | rfl | cases answers

section Waiting
variable {c d : Confab Text} {r : Request Text} {n : Nat} {slot : Slot Text}

theorem waits_old (old : n < c.requests.length) :
    (c.request r).Waits n slot ↔ c.Waits n slot := by
  have other : n ≠ c.requests.length := by omega
  simp [Confab.Waits, request_awaiting, request_requests, other, List.getElem?_append_left old]

theorem waits_new : (c.request r).Waits c.requests.length slot ↔
    slot = (r.table, (r.key c.addSerial).received) := by
  simp [Confab.Waits, request_awaiting, request_requests]

omit [DecidableEq Text] in
theorem waits_made (waits : c.Waits n slot) : n < c.requests.length := by
  obtain ⟨-, r, key, found, -⟩ := waits
  exact (List.getElem?_eq_some_iff.mp found).1

theorem waits_request (waits : (c.request r).Waits n slot) : c.Waits n slot ∨
    (n = c.requests.length ∧ slot = (r.table, (r.key c.addSerial).received)) := by
  have made := waits_made waits
  rw [request_requests, List.length_append, List.length_singleton] at made
  by_cases old : n < c.requests.length
  · exact Or.inl ((waits_old old).mp waits)
  · have new : n = c.requests.length := by omega
    subst new
    exact Or.inr ⟨rfl, waits_new.mp waits⟩

theorem response_cases {m : Message} {script : List (Request Text)}
    (stepped : c.step (.response n m script) = some d) : ∃ slot, c.Waits n slot ∧
      d = Confab.callBack slot.1 m.removesFirst m.removesLast (c.answered n) n slot.2 script := by
  simp only [Confab.step] at stepped
  split at stepped
  · cases stepped
  rename_i r key found
  split at stepped
  case isFalse => cases stepped
  rename_i enabled
  cases stepped
  exact ⟨_, ⟨enabled.1, r, key, found, rfl⟩, receive_eq enabled.2 _ n _ script⟩

structure SameRequests (c d : Confab Text) : Prop where
  addSerial : c.addSerial = d.addSerial
  requests : c.requests = d.requests
  awaiting : c.awaiting = d.awaiting

theorem same_request (same : SameRequests c d) (r : Request Text) :
    SameRequests (c.request r) (d.request r) := by
  obtain ⟨addSerial, requests, awaiting⟩ := same
  refine ⟨?_, ?_, ?_⟩
  · cases r <;> simp [Confab.request, Confab.addAssetFile, Confab.addAssetString,
      Confab.findAssetById, Confab.findAssetByName, Confab.loadAssetById, Confab.createList,
      Confab.findListByName, Confab.getListNext, Confab.put, addSerial]
  · rw [request_requests, request_requests, addSerial, requests]
  · rw [request_awaiting, request_awaiting, requests, awaiting]

omit [DecidableEq Text] in
theorem waits_same (same : SameRequests c d) : c.Waits n slot ↔ d.Waits n slot := by
  unfold Confab.Waits
  rw [same.requests, same.awaiting]

theorem freeAll_same {script : List (Request Text)} (same : SameRequests c d) :
    c.FreeAll script ↔ d.FreeAll script := by
  induction script generalizing c d with
  | nil => exact Iff.rfl
  | cons r script ih =>
    refine and_congr ?_ (ih (same_request same r))
    unfold Confab.Free Confab.slot
    rw [same.addSerial]
    exact and_congr_right' (forall_congr' fun n => not_congr (waits_same same))

theorem spares_same {script : List (Request Text)} (same : SameRequests c d) :
    c.Spares slot script ↔ d.Spares slot script := by
  induction script generalizing c d with
  | nil => exact Iff.rfl
  | cons r script ih =>
    refine and_congr ?_ (ih (same_request same r))
    unfold Confab.slot
    rw [same.addSerial]

end Waiting
section Runs
variable {c : Confab Text} {r : Request Text} {n : Nat} {slot : Slot Text}

/-- Every entry that will be looked up is the one that was put there for it. -/
structure Confab.Good (c : Confab Text) : Prop where
  nodup : c.awaiting.Nodup
  made : ∀ n ∈ c.awaiting, n < c.requests.length
  held : ∀ slot n, c.callbacks slot = some n → n < c.requests.length
  called : ∀ p ∈ c.invoked, p.1 < c.requests.length
  entry : ∀ n slot, c.Waits n slot → c.callbacks slot = some n
  log : Proper c

omit [DecidableEq Text] in
theorem good_start : (Confab.start : Confab Text).Good where
  nodup := List.nodup_nil
  made := nofun
  held := nofun
  called := nofun
  entry _ _ waits := absurd waits.1 List.not_mem_nil
  log := nofun

theorem request_length (c : Confab Text) (r : Request Text) :
    (c.request r).requests.length = c.requests.length + 1 := by
  rw [request_requests, List.length_append, List.length_singleton]

theorem good_request (good : c.Good) (free : c.Free r) : (c.request r).Good where
  nodup := by
    have fresh : c.requests.length ∉ c.awaiting := by
      intro mem
      exact Nat.lt_irrefl _ (good.made _ mem)
    rw [request_awaiting]
    exact List.Nodup.append good.nodup (List.nodup_singleton _) (by simpa using fresh)
  made := by
    intro n mem
    rw [request_awaiting] at mem
    rw [request_length]
    rcases List.mem_append.mp mem with old | new
    · exact Nat.lt_succ_of_lt (good.made n old)
    · rw [List.mem_singleton.mp new]
      exact Nat.lt_succ_self _
  held := by
    intro slot n there
    rw [request_callbacks] at there
    rw [request_length]
    by_cases same : slot = c.slot r
    · rw [same, Function.update_self] at there
      cases there
      exact Nat.lt_succ_self _
    · rw [Function.update_of_ne same] at there
      exact Nat.lt_succ_of_lt (good.held slot n there)
  called := by
    intro p mem
    rw [request_invoked] at mem
    rw [request_length]
    exact Nat.lt_succ_of_lt (good.called p mem)
  entry := by
    intro n slot waits
    rw [request_callbacks]
    rcases waits_request waits with old | ⟨rfl, rfl⟩
    · have other : slot ≠ c.slot r := by
        intro same
        exact free.2 n (same ▸ old)
      rw [Function.update_of_ne other]
      exact good.entry n slot old
    · rw [free.1]
      exact Function.update_self _ _ _
  log := by
    intro n below
    rw [request_length] at below
    rw [request_invoked, request_awaiting]
    by_cases new : n = c.requests.length
    · subst new
      rw [if_pos (by simp), List.filter_eq_nil_iff]
      intro p mem same
      have earlier := good.called p mem
      simp only [decide_eq_true_eq] at same
      omega
    · rw [good.log n (by omega)]
      simp [new]

theorem good_requestAll {script : List (Request Text)} (good : c.Good)
    (free : c.FreeAll script) : (c.requestAll script).Good := by
  induction script generalizing c with
  | nil => exact good
  | cons r script ih => exact ih (good_request good free.1) free.2

theorem good_removeAt (good : c.Good) (alone : ∀ n, ¬ c.Waits n slot) :
    (c.removeAt slot).Good := by
  constructor
  · exact good.nodup
  · exact good.made
  · intro other n there
    by_cases same : other = slot
    · rw [same] at there
      simp [Confab.removeAt] at there
    · simp only [Confab.removeAt, Function.update_of_ne same] at there
      exact good.held other n there
  · exact good.called
  · intro n other waits
    have apart : other ≠ slot := by
      intro same
      exact alone n (same ▸ waits)
    simp only [Confab.removeAt, Function.update_of_ne apart]
    exact good.entry n other waits
  · exact good.log

/-- The state in which the callback of `n` starts, before its entry is removed. -/
def Confab.called (c : Confab Text) (n : Nat) : Confab Text :=
  { c.answered n with invoked := c.invoked ++ [(n, n)] }

omit [DecidableEq Text] in
theorem waits_called {k : Nat} {other : Slot Text} (waiting : (c.called n).Waits k other) :
    c.Waits k other := ⟨List.mem_of_mem_erase waiting.1, waiting.2⟩

omit [DecidableEq Text] in
theorem good_called (good : c.Good) (waits : c.Waits n slot) : (c.called n).Good where
  nodup := good.nodup.erase n
  made := by
    intro k mem
    exact good.made k (List.mem_of_mem_erase mem)
  held := good.held
  called := by
    intro p mem
    rcases List.mem_append.mp mem with old | new
    · exact good.called p old
    · rw [List.mem_singleton.mp new]
      exact good.made n waits.1
  entry := by
    intro k other waiting
    exact good.entry k other (waits_called waiting)
  log := by
    intro k below
    change (c.invoked ++ [(n, n)]).filter _ = if k ∈ c.awaiting.erase n then [] else _
    rw [List.filter_append, good.log k below]
    by_cases same : k = n
    · subst same
      simp [waits.1, good.nodup.not_mem_erase]
    · have others : k ∈ c.awaiting.erase n ↔ k ∈ c.awaiting := List.mem_erase_of_ne same
      simp [others, Ne.symm same]

omit [DecidableEq Text] in
theorem called_alone (good : c.Good) (waits : c.Waits n slot) (k : Nat) :
    ¬ (c.called n).Waits k slot := by
  intro waiting
  have here := good.entry k slot (waits_called waiting)
  rw [good.entry n slot waits] at here
  cases here
  exact good.nodup.not_mem_erase waiting.1

theorem spares_alone {script : List (Request Text)} (alone : ∀ n, ¬ c.Waits n slot)
    (free : c.FreeAll script) (spares : c.Spares slot script) (n : Nat) :
    ¬ (c.requestAll script).Waits n slot := by
  induction script generalizing c with
  | nil => exact alone n
  | cons r script ih =>
    apply ih _ free.2 spares.2
    intro n waits
    rcases waits_request waits with old | ⟨-, same⟩
    · exact alone n old
    · rw [free.1.1] at same
      exact spares.1 same.symm

theorem good_response {m : Message} {script : List (Request Text)} {next : Confab Text}
    (good : c.Good) (stepped : c.step (.response n m script) = some next) :
    ∃ slot began, c.Waits n slot ∧ began.Good ∧ SameRequests began (c.answered n) ∧
      (∀ k, ¬ began.Waits k slot) ∧
      next = if m.removesLast then (began.requestAll script).removeAt slot
        else began.requestAll script := by
  obtain ⟨slot, waits, rfl⟩ := response_cases stepped
  have start := good_called good waits
  have alone := called_alone good waits
  have here : (c.answered n).callbacks slot = some n := good.entry n slot waits
  rw [Confab.callBack, here]
  cases m.removesFirst with
  | true => exact ⟨_, _, waits, good_removeAt start alone, ⟨rfl, rfl, rfl⟩, alone, rfl⟩
  | false => exact ⟨_, _, waits, start, ⟨rfl, rfl, rfl⟩, alone, rfl⟩

theorem good_step {e : Event Text} {next : Confab Text} (good : c.Good)
    (uncontested : Uncontested c e) (stepped : c.step e = some next) : next.Good := by
  cases e with
  | call r =>
    cases stepped
    exact good_request good uncontested
  | response n m script =>
    obtain ⟨slot, began, waits, start, same, alone, rfl⟩ := good_response good stepped
    have free := (freeAll_same same).mpr uncontested.1
    have final := good_requestAll start free
    split
    case isTrue removes =>
      have spares := (spares_same same).mpr (uncontested.2 removes slot waits)
      exact good_removeAt final (spares_alone alone free spares)
    case isFalse => exact final

end Runs

section Lost
variable {c : Confab Text} {r : Request Text} {n : Nat} {slot : Slot Text}

/-- The callback of `n` has not been called with its answer, and cannot be found any more. -/
structure Confab.Lost (c : Confab Text) (n : Nat) : Prop where
  made : n < c.requests.length
  uncalled : (n, n) ∉ c.invoked
  gone : ∀ slot, c.Waits n slot → c.callbacks slot ≠ some n

theorem lost_request (lost : c.Lost n) (r : Request Text) : (c.request r).Lost n where
  made := by
    rw [request_length]
    exact Nat.lt_succ_of_lt lost.made
  uncalled := by
    rw [request_invoked]
    exact lost.uncalled
  gone := by
    intro slot waits
    rw [request_callbacks]
    by_cases same : slot = c.slot r
    · rw [same, Function.update_self]
      intro new
      cases new
      exact Nat.lt_irrefl _ lost.made
    · rw [Function.update_of_ne same]
      exact lost.gone slot ((waits_old lost.made).mp waits)

theorem lost_requestAll (lost : c.Lost n) (script : List (Request Text)) :
    (c.requestAll script).Lost n := by
  induction script generalizing c with
  | nil => exact lost
  | cons r script ih => exact ih (lost_request lost r)

theorem lost_removeAt (lost : c.Lost n) (slot : Slot Text) : (c.removeAt slot).Lost n where
  made := lost.made
  uncalled := lost.uncalled
  gone := by
    intro other waits there
    by_cases same : other = slot
    · rw [same] at there
      simp [Confab.removeAt] at there
    · simp only [Confab.removeAt, Function.update_of_ne same] at there
      exact lost.gone other waits there

omit [DecidableEq Text] in
theorem lost_answered (lost : c.Lost n) (k : Nat) : (c.answered k).Lost n where
  made := lost.made
  uncalled := lost.uncalled
  gone := by
    intro other waiting
    exact lost.gone other ⟨List.mem_of_mem_erase waiting.1, waiting.2⟩

omit [DecidableEq Text] in
theorem lost_called {k : Nat} (lost : c.Lost n) (waits : c.Waits k slot) {found : Nat}
    (here : c.callbacks slot = some found) :
    Confab.Lost { c.answered k with invoked := c.invoked ++ [(found, k)] } n where
  made := lost.made
  uncalled := by
    intro mem
    rcases List.mem_append.mp mem with before | now
    · exact lost.uncalled before
    · cases List.mem_singleton.mp now
      exact lost.gone slot waits here
  gone := (lost_answered lost k).gone

theorem lost_step {e : Event Text} {next : Confab Text} (lost : c.Lost n)
    (stepped : c.step e = some next) : next.Lost n := by
  cases e with
  | call r =>
    cases stepped
    exact lost_request lost r
  | response k m script =>
    obtain ⟨slot, waits, rfl⟩ := response_cases stepped
    rw [Confab.callBack]
    split
    · exact lost_answered lost k
    · rename_i callback here
      have start := lost_called lost waits here
      cases m.removesFirst <;> cases m.removesLast
      · exact lost_requestAll start script
      · exact lost_removeAt (lost_requestAll start script) _
      · exact lost_requestAll (lost_removeAt start _) script
      · exact lost_removeAt (lost_requestAll (lost_removeAt start _) script) _

omit [DecidableEq Text] in
theorem waits_unique {other : Slot Text} (waits : c.Waits n slot) (too : c.Waits n other) :
    slot = other := by
  obtain ⟨-, r, key, found, rfl⟩ := waits
  obtain ⟨-, r', key', found', rfl⟩ := too
  rw [found] at found'
  cases found'
  rfl

omit [DecidableEq Text] in
theorem good_uncalled (good : c.Good) (waits : c.Waits n slot) : (n, n) ∉ c.invoked := by
  intro mem
  have none_yet := good.log n (waits_made waits)
  rw [if_pos waits.1] at none_yet
  have some_call : (n, n) ∈ c.invoked.filter (·.1 = n) := List.mem_filter.mpr ⟨mem, by simp⟩
  rw [none_yet] at some_call
  cases some_call

/-- A request that is not free loses its own callback or that of the request it collides with. -/
theorem lost_of_not_free (good : c.Good) (taken : ¬ c.Free r) : ∃ n, (c.request r).Lost n := by
  by_cases symbol : (r.key c.addSerial).received = r.key c.addSerial
  · obtain ⟨n, waits⟩ : ∃ n, c.Waits n (c.slot r) := by
      by_contra nobody
      exact taken ⟨symbol, fun n waits => nobody ⟨n, waits⟩⟩
    have old := waits_made waits
    refine ⟨n, ?_, ?_, ?_⟩
    · rw [request_length]
      exact Nat.lt_succ_of_lt old
    · rw [request_invoked]
      exact good_uncalled good waits
    · intro slot waiting
      rw [waits_unique ((waits_old old).mp waiting) waits, request_callbacks, Function.update_self]
      intro same
      cases same
      exact Nat.lt_irrefl _ old
  · refine ⟨c.requests.length, ?_, ?_, ?_⟩
    · rw [request_length]
      exact Nat.lt_succ_self _
    · intro mem
      rw [request_invoked] at mem
      exact Nat.lt_irrefl _ (good.called _ mem)
    · intro slot waiting there
      have other : ((r.table, (r.key c.addSerial).received) : Slot Text) ≠ c.slot r := by
        intro same
        exact symbol (Prod.ext_iff.mp same).2
      rw [waits_new.mp waiting, request_callbacks, Function.update_of_ne other] at there
      exact Nat.lt_irrefl _ (good.held _ _ there)

theorem lost_of_not_freeAll {script : List (Request Text)} (good : c.Good)
    (taken : ¬ c.FreeAll script) : ∃ n, (c.requestAll script).Lost n := by
  induction script generalizing c with
  | nil => exact absurd trivial taken
  | cons r script ih =>
    by_cases free : c.Free r
    · exact ih (good_request good free) fun rest => taken ⟨free, rest⟩
    · obtain ⟨n, lost⟩ := lost_of_not_free good free
      exact ⟨n, lost_requestAll lost script⟩

theorem waits_requestAll (waits : c.Waits n slot) (script : List (Request Text)) :
    (c.requestAll script).Waits n slot := by
  induction script generalizing c with
  | nil => exact waits
  | cons r script ih => exact ih ((waits_old (waits_made waits)).mpr waits)

theorem waits_of_not_spares {script : List (Request Text)} (free : c.FreeAll script)
    (hits : ¬ c.Spares slot script) : ∃ n, (c.requestAll script).Waits n slot := by
  induction script generalizing c with
  | nil => exact absurd trivial hits
  | cons r script ih =>
    by_cases same : c.slot r = slot
    · refine ⟨c.requests.length, waits_requestAll (waits_new.mpr ?_) script⟩
      rw [free.1.1, ← same]
      rfl
    · exact ih free.2 fun rest => hits ⟨same, rest⟩

theorem lost_of_removeAt (good : c.Good) (waits : c.Waits n slot) :
    (c.removeAt slot).Lost n := by
  have uncalled : (n, n) ∉ c.invoked := good_uncalled good waits
  refine ⟨waits_made waits, uncalled, ?_⟩
  intro other waiting
  have same : other = slot := waits_unique (c := c) waiting waits
  simp [same, Confab.removeAt]

theorem lost_of_contested {e : Event Text} {next : Confab Text} (good : c.Good)
    (stepped : c.step e = some next) (contested : ¬ Uncontested c e) : ∃ n, next.Lost n := by
  cases e with
  | call r =>
    cases stepped
    exact lost_of_not_free good contested
  | response n m script =>
    obtain ⟨slot, began, waits, start, same, -, rfl⟩ := good_response good stepped
    by_cases free : began.FreeAll script
    · have reuses : ¬ (m.removesLast = true → ∀ slot, c.Waits n slot →
          (c.answered n).Spares slot script) :=
        fun spares => contested ⟨(freeAll_same same).mp free, spares⟩
      push Not at reuses
      obtain ⟨removes, other, waiting, hits⟩ := reuses
      rw [waits_unique waiting waits] at hits
      obtain ⟨k, again⟩ :=
        waits_of_not_spares free fun spares => hits ((spares_same same).mp spares)
      rw [if_pos removes]
      exact ⟨k, lost_of_removeAt (good_requestAll start free) again⟩
    · obtain ⟨k, lost⟩ := lost_of_not_freeAll start free
      refine ⟨k, ?_⟩
      split
      · exact lost_removeAt lost slot
      · exact lost

theorem lost_run {events : List (Event Text)} {last : Confab Text} (good : c.Good)
    (ran : run Confab.step c events = some last)
    (contested : ¬ Along Confab.step Uncontested c events) : ∃ n, last.Lost n := by
  induction events generalizing c with
  | nil => exact absurd trivial contested
  | cons e events ih =>
    obtain ⟨next, stepped, rest⟩ := run_cons.mp ran
    by_cases now : Uncontested c e
    · apply ih (good_step good now stepped) rest
      intro later
      apply contested
      refine ⟨now, ?_⟩
      intro other same
      rw [stepped] at same
      cases same
      exact later
    · obtain ⟨n, lost⟩ := lost_of_contested good stepped now
      exact ⟨n, run_keeps (Confab.Lost · n) (fun _ _ _ => lost_step) lost rest⟩

end Lost

/-- As long as no step is contested, every callback is called as it should be. Once all requests
    are answered, that is only so if no step was contested. -/
theorem callbacks_iff {events : List (Event Text)} {c : Confab Text}
    (ran : run Confab.step Confab.start events = some c) :
    (Along Confab.step Uncontested Confab.start events → Proper c) ∧
    (c.awaiting = [] → Proper c → Along Confab.step Uncontested Confab.start events) := by
  constructor
  · intro uncontested
    exact (run_invariant Confab.Good (fun _ _ _ => good_step) good_start uncontested ran).log
  · intro complete proper
    by_contra contested
    obtain ⟨n, lost⟩ := lost_run good_start ran contested
    have once := proper n lost.made
    rw [complete, if_neg List.not_mem_nil] at once
    have called : (n, n) ∈ c.invoked.filter (·.1 = n) := once ▸ List.mem_singleton_self _
    exact lost.uncalled (List.mem_of_mem_filter called)

/-- The same key in two dictionaries, and a request that a callback makes. -/
theorem callbacks_two_maps : Along Confab.step Uncontested Confab.start [
    .call (.findAssetById (.symbol "a")),
    .call (.loadAssetById (.symbol "a")),
    .response 1 .assetLoaded [.findListByName (.symbol "l")],
    .response 0 .assetFound [],
    .response 2 .listFound []] :=
  (callbacks_iff rfl).2 rfl (by decide)

/-- A callback asks for its own key again, and loses the entry for that when it returns. -/
theorem renewed_callback_lost : ¬ ∀ (events : List (Event String)) (c : Confab String),
    run Confab.step Confab.start events = some c → c.awaiting = [] → Proper c := by
  intro always
  have proper := always [
    .call (.findAssetById (.symbol "a")),
    .response 0 .assetFound [.findAssetById (.symbol "a")],
    .response 1 .assetFound []] _ rfl rfl
  exact absurd proper (by decide)

end SCLOrkConfab
