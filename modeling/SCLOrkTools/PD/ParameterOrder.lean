import Mathlib.Data.List.Induction
import SCLOrkTools.Library.Ranks
import SCLOrkTools.PD.Slices

/- The numbers that the parameters of a voice get, and the views that are laid out by them. A
   name that is given twice takes two numbers and one entry. -/
namespace SCLOrkPD
open Ranks

section Between
variable {l : List Token} {t : Token}

theorem not_between_nil : ¬ BetweenArguments [] := by
  rintro ⟨l, comma, gap, shape, -⟩
  simp at shape

theorem between_counts (counts : t.ignored = false) :
    BetweenArguments (l ++ [t]) ↔ t.type = .comma ∧ nesting l = 1 := by
  constructor
  · rintro ⟨m, comma, gap, shape, type, level, all⟩
    rcases List.eq_nil_or_concat' gap with rfl | ⟨gap, last, rfl⟩
    · obtain ⟨rfl, same⟩ := List.append_inj' shape rfl
      cases same
      exact ⟨type, level⟩
    · have longer : l ++ [t] = (m ++ comma :: gap) ++ [last] := by simpa using shape
      cases (List.append_inj' longer rfl).2
      have ignored := all t (by simp)
      rw [counts] at ignored
      cases ignored
  · rintro ⟨comma, level⟩
    exact between_comma comma level

theorem between_ignored (ignored : t.ignored = true) :
    BetweenArguments (l ++ [t]) ↔ BetweenArguments l := by
  constructor
  · rintro ⟨m, comma, gap, shape, type, level, all⟩
    rcases List.eq_nil_or_concat' gap with rfl | ⟨gap, last, rfl⟩
    · cases (List.append_inj' shape rfl).2
      have other := ignored_type ignored
      rw [type] at other
      simp at other
    · have longer : l ++ [t] = (m ++ comma :: gap) ++ [last] := by simpa using shape
      refine ⟨m, comma, gap, (List.append_inj' longer rfl).1, type, level, ?_⟩
      intro u member
      exact all u (by simp [member])
  · intro between
    exact between_gap between ignored

/-- From the last token back to the first that counts. -/
def endsBetween : List Token → Bool
  | [] => false
  | t :: l => if t.ignored then endsBetween l else decide (t.type = .comma ∧ nesting l.reverse = 1)

theorem endsBetween_iff : endsBetween l.reverse = true ↔ BetweenArguments l := by
  induction l using List.reverseRecOn with
  | nil => simp [endsBetween, not_between_nil]
  | append_singleton l t ih =>
    rw [List.reverse_append, List.reverse_singleton, List.singleton_append, endsBetween]
    cases counts : t.ignored with
    | true => simp [between_ignored counts, ih]
    | false => simp [between_counts counts]

instance : DecidablePred BetweenArguments := fun _ => decidable_of_iff _ endsBetween_iff

end Between

section Names

def parameterNamesFrom (before : List Token) : List Token → List (List Char)
  | [] => []
  | t :: rest =>
    if BetweenArguments before ∧ t.type = .symbol then
      t.string :: parameterNamesFrom (before ++ [t]) rest
    else parameterNamesFrom (before ++ [t]) rest

def parameterNames (ts : List Token) : List (List Char) := parameterNamesFrom [] ts

theorem parameterNamesFrom_snoc (before l : List Token) (t : Token) :
    parameterNamesFrom before (l ++ [t]) = parameterNamesFrom before l ++
      if BetweenArguments (before ++ l) ∧ t.type = .symbol then [t.string] else [] := by
  induction l generalizing before with
  | nil =>
    rw [List.nil_append, List.append_nil, parameterNamesFrom, parameterNamesFrom]
    split <;> rfl
  | cons u l ih =>
    have next := ih (before ++ [u])
    rw [List.append_assoc, List.singleton_append] at next
    rw [List.cons_append, parameterNamesFrom, parameterNamesFrom, next]
    split <;> rfl

theorem parameterNames_snoc (l : List Token) (t : Token) : parameterNames (l ++ [t]) =
    parameterNames l ++ if BetweenArguments l ∧ t.type = .symbol then [t.string] else [] :=
  parameterNamesFrom_snoc [] l t

end Names

section Quiet
variable {pre : List Token} {p : Parser} {t : Token}

/-- The tokens so far end behind a comma between arguments in these states only. -/
def Quiet (pre : List Token) (p : Parser) : Prop :=
  match p.state with
  | .parameterSpace | .parameterValue | .playQuantArg | .error => True
  | _ => ¬ BetweenArguments pre

theorem quiet_of_not (other : ¬ BetweenArguments pre) : Quiet pre p := by
  unfold Quiet
  cases p.state with
  | parameterSpace | parameterValue | playQuantArg | error => trivial
  | start | openPbindef | getName | nameComma | parameterNameComma | parameterValueStatement
  | closePdef | chaining | playChain | playClockName | playClockNameComma | playQuantColon
  | playQuantValue | playClose | quantChain | quantValue | done => exact other

theorem read_state_ignored (ignored : t.ignored = true) : (p.read t).state = p.state := by
  rw [read_ignored ignored, Parser.accumulate_state, Parser.append_state]

theorem read_state_counts (counts : t.ignored = false) :
    (p.read t).state = ((p.append t).transition t).state := by
  rw [read_counts counts, Parser.accumulate_state]

theorem quiet_comma (stage : Stage pre p) (counts : t.ignored = false) (comma : t.type = .comma) :
    Quiet (pre ++ [t]) (p.read t) := by
  have shut : t.opens = false := by simp [Token.opens, comma]
  have plain : t.closes = false := by simp [Token.closes, comma]
  unfold Quiet
  rw [read_state_counts counts]
  unfold Parser.transition
  cases state : p.state with
  | parameterValueStatement =>
    unfold Stage at stage
    rw [state] at stage
    by_cases one : p.parenDepth = 1
    · simp [state, shut, plain, comma, one, Parser.toState]
    · have deep : ¬ nesting pre = 1 := by
        rw [stage.2.1]
        exact one
      simp [state, shut, plain, comma, one, Parser.toState, between_counts counts, deep]
  | start | openPbindef | getName | nameComma | parameterSpace | parameterNameComma
  | parameterValue | closePdef | chaining | playChain | playClockName | playClockNameComma
  | playQuantArg | playQuantColon | playQuantValue | playClose | quantChain | quantValue | done
  | error => simp [state, shut, comma, Parser.toState]

theorem quiet_read (stage : Stage pre p) (quiet : Quiet pre p) :
    Quiet (pre ++ [t]) (p.read t) := by
  cases counts : t.ignored with
  | true =>
    unfold Quiet at quiet ⊢
    rw [read_state_ignored counts, between_ignored counts]
    exact quiet
  | false =>
    by_cases comma : t.type = .comma
    · exact quiet_comma stage counts comma
    · apply quiet_of_not
      intro between
      exact comma ((between_counts counts).mp between).1

end Quiet

section Pending
variable {pre : List Token} {p : Parser} {t : Token}

/-- A name that has been read and whose value has not been recorded. -/
def Parser.pending (p : Parser) : List (List Char) :=
  match p.state with
  | .parameterNameComma | .parameterValue | .parameterValueStatement => [p.parameterName]
  | _ => []

def Parser.brings (p : Parser) (t : Token) : List (List Char) :=
  if p.state = .parameterSpace ∧ t.type = .symbol then [t.string] else []

theorem read_error (error : p.state = .error) : (p.read t).state = .error := by
  cases counts : t.ignored with
  | true => rw [read_state_ignored counts, error]
  | false =>
    rw [read_state_counts counts]
    unfold Parser.transition
    rw [Parser.append_state, error]
    rfl

theorem names_read (stage : Stage pre p) (quiet : Quiet pre p)
    (goesOn : (p.read t).state ≠ .error) :
    parameterNames (pre ++ [t]) = parameterNames pre ++ p.brings t := by
  rw [parameterNames_snoc]
  unfold Parser.brings
  congr 1
  by_cases symbol : t.type = .symbol
  · have counts : t.ignored = false := by simp [Token.ignored, symbol]
    have shut : t.opens = false := by simp [Token.opens, symbol]
    rw [read_state_counts counts] at goesOn
    unfold Parser.transition at goesOn
    unfold Quiet at quiet
    unfold Stage at stage
    cases state : p.state with
    | parameterSpace =>
      rw [state] at stage
      simp [symbol, stage.2.2]
    | parameterValue | playQuantArg | error =>
      simp [state, symbol, shut, Parser.toState] at goesOn
    | start | openPbindef | getName | nameComma | parameterNameComma | parameterValueStatement
    | closePdef | chaining | playChain | playClockName | playClockNameComma | playQuantColon
    | playQuantValue | playClose | quantChain | quantValue | done =>
      rw [state] at quiet
      have silent : ¬ BetweenArguments pre := quiet
      simp [silent]
  · simp [symbol]

@[simp] theorem pending_append : (p.append t).pending = p.pending := rfl

@[simp] theorem pending_accumulate : (p.accumulate t).pending = p.pending := by
  simp [Parser.pending]

theorem brings_ignored (ignored : t.ignored = true) : p.brings t = [] := by
  apply if_neg
  rintro ⟨-, symbol⟩
  simp [Token.ignored, symbol] at ignored

theorem pending_statement (state : p.state = .parameterValueStatement)
    (counts : t.ignored = false) :
    p.pending = (if p.Ends t then [p.parameterName] else []) ++ (p.transition t).pending := by
  have one : p.pending = [p.parameterName] := by simp [Parser.pending, state]
  rw [one]
  unfold Parser.transition Parser.Ends
  simp only [state, counts, true_and]
  cases opens : t.opens with
  | true => simp [Parser.pending]
  | false =>
    cases closes : t.closes with
    | true =>
      by_cases more : 1 < p.parenDepth
      · have deep : ¬ p.parenDepth ≤ 1 := by omega
        simp [more, deep, Parser.pending, Parser.toState]
      · have last : p.parenDepth ≤ 1 := by omega
        simp [more, last, Parser.pending, Parser.toState]
    | false =>
      by_cases comma : t.type = .comma
      · by_cases outer : p.parenDepth = 1 <;>
          simp [comma, outer, Parser.pending, Parser.toState]
      · simp [comma, Parser.pending, Parser.toState]

/-- A name is pending from the token that brings it to the end of its value. -/
theorem pending_read (goesOn : (p.read t).state ≠ .error) :
    p.pending ++ p.brings t =
      (if p.Ends t then [p.parameterName] else []) ++ (p.read t).pending := by
  cases counts : t.ignored with
  | true =>
    rw [brings_ignored counts, if_neg (Parser.ends_ignored counts), read_ignored counts]
    simp
  | false =>
    rw [read_state_counts counts] at goesOn
    rw [read_counts counts, pending_accumulate]
    cases state : p.state with
    | parameterValueStatement =>
      have none : p.brings t = [] := by simp [Parser.brings, state]
      rw [none, List.append_nil]
      exact pending_statement (p := p.append t) state counts
    | parameterSpace =>
      have inside : ¬ p.Ends t := Parser.ends_elsewhere (by simp [state])
      rw [if_neg inside]
      unfold Parser.transition
      by_cases symbol : t.type = .symbol
      · simp [Parser.brings, Parser.pending, state, symbol]
      · by_cases close : t.type = .closeParen ∧ p.parenDepth = 1 <;>
          simp [Parser.brings, Parser.pending, Parser.toState, state, symbol, close]
    | parameterNameComma =>
      have inside : ¬ p.Ends t := Parser.ends_elsewhere (by simp [state])
      rw [if_neg inside]
      unfold Parser.transition at goesOn ⊢
      by_cases comma : t.type = .comma
      · simp [Parser.brings, Parser.pending, Parser.toState, state, comma]
      · simp [Parser.toState, state, comma] at goesOn
    | parameterValue =>
      have inside : ¬ p.Ends t := Parser.ends_elsewhere (by simp [state])
      rw [if_neg inside]
      unfold Parser.transition at goesOn ⊢
      cases opens : t.opens with
      | true => simp [Parser.brings, Parser.pending, state]
      | false =>
        by_cases starts : t.type ∈ [TokenType.number, .string, .global, .className, .ratio]
        · simp only [List.mem_cons, List.not_mem_nil, or_false] at starts
          simp [Parser.brings, Parser.pending, Parser.toState, state, starts]
        · simp only [List.mem_cons, List.not_mem_nil, or_false] at starts
          simp [Parser.toState, state, opens, starts] at goesOn
    | start | openPbindef | getName | nameComma | closePdef | chaining | playChain | playClockName
    | playClockNameComma | playQuantArg | playQuantColon | playQuantValue | playClose | quantChain
    | quantValue | done | error =>
      have inside : ¬ p.Ends t := Parser.ends_elsewhere (by simp [state])
      have none : p.brings t = [] := by simp [Parser.brings, state]
      have before : p.pending = [] := by simp [Parser.pending, state]
      rw [if_neg inside, none, before]
      unfold Parser.transition
      rw [Parser.append_state, state]
      simp only []
      (repeat' split) <;> rfl

end Pending
section Log
variable {pre : List Token} {p : Parser} {t : Token} {log : List (Sigma fun _ : List Char => Value)}

/-- Every value that has been recorded, the newest first, under the names of the source. -/
structure Logged (pre : List Token) (p : Parser) (log : List (Sigma fun _ : List Char => Value)) :
    Prop where
  params : p.voice.params = log.toAList
  order : p.parameterOrder = log.length
  numbered : Numbered Value.order log
  names : p.state ≠ .error → parameterNames pre = log.keys.reverse ++ p.pending

theorem logged_init (ts : List Token) : Logged [] (Parser.init ts) [] where
  params := rfl
  order := rfl
  numbered := numbered_nil
  names _ := rfl

theorem logged_read (stage : Stage pre p) (quiet : Quiet pre p) (logged : Logged pre p log) :
    ∃ log', Logged (pre ++ [t]) (p.read t) log' := by
  have names (goesOn : (p.read t).state ≠ .error) : parameterNames (pre ++ [t]) =
      log.keys.reverse ++ (if p.Ends t then [p.parameterName] else []) ++ (p.read t).pending := by
    have earlier : p.state ≠ .error := fun error => goesOn (read_error error)
    rw [names_read stage quiet goesOn, logged.names earlier, List.append_assoc,
      pending_read goesOn, List.append_assoc]
  obtain ⟨params, order⟩ := Parser.read_recorded (p := p) (t := t)
  by_cases ends : p.Ends t
  · rw [if_pos ends] at params order
    refine ⟨⟨p.parameterName, p.parameterValueTokens, p.parameterValueString,
      p.parameterOrder⟩ :: log, ?_, ?_, numbered_cons logged.numbered logged.order, ?_⟩
    · rw [params, AList.toAList_cons, ← logged.params]
      rfl
    · rw [order, logged.order, List.length_cons]
    · intro goesOn
      rw [names goesOn, if_pos ends, List.keys_cons, List.reverse_cons]
  · rw [if_neg ends] at params order
    refine ⟨log, params.trans logged.params, order.trans logged.order, logged.numbered, ?_⟩
    intro goesOn
    rw [names goesOn, if_neg ends, List.append_nil]

theorem logged_run (rest : List Token) (stage : Stage pre p) (quiet : Quiet pre p)
    (logged : Logged pre p log) :
    ∃ log', Logged (pre ++ rest) (rest.foldl Parser.read p) log' := by
  induction rest generalizing pre p log with
  | nil =>
    rw [List.append_nil]
    exact ⟨log, logged⟩
  | cons t rest ih =>
    obtain ⟨log', next⟩ := logged_read (t := t) stage quiet logged
    have whole := ih (stage_read stage) (quiet_read stage quiet) next
    rw [List.append_assoc] at whole
    exact whole

/-- The parameters of a voice are what was recorded for the names of the source in turn. -/
theorem accepted_log {ts : List Token} {voice : Voice} (accepted : newFromTokens ts = some voice) :
    ∃ log : List (Sigma fun _ : List Char => Value), voice.params = log.toAList ∧
      Numbered Value.order log ∧ parameterNames ts = log.keys.reverse := by
  obtain ⟨done, rfl⟩ := newFromTokens_some.mp accepted
  obtain ⟨log, logged⟩ := logged_run ts (stage_init ts) not_between_nil (logged_init ts)
  refine ⟨log, logged.params, logged.numbered, ?_⟩
  have names : (setFromTokens ts).state ≠ .error →
      parameterNames ts = log.keys.reverse ++ (setFromTokens ts).pending := logged.names
  rcases done with state | state
  · simpa [state, Parser.pending] using names
  · simpa [state, Parser.pending] using names

end Log

section Views

structure VoiceUI where
  voiceNameText : Option (List Char)
  bufnumText : List Char
  voiceCodeText : List Char
  parameterViews : List (List Char × Option Value)

def bufnum : List Char := "\\bufnum".toList
def instrument : List Char := "\\instrument".toList

/-- The buffer and the instrument have no view of their own. -/
def viewed (paramName : List Char) : Option (List Char) :=
  if paramName = bufnum ∨ paramName = instrument then none else some paramName

/-- None if a message fails: nil has no string, and an array no cell outside its size. The
    entries come in the order in which the dictionary runs through them. -/
def prRebuildVoiceUI (currentVoice : Voice) (entries : List (Sigma fun _ : List Char => Value)) :
    Option VoiceUI :=
  match currentVoice.params.lookup bufnum with
  | none => none
  | some value =>
    let orderedParamNames := fill (fun e => e.2.order) (fun e => viewed e.1) entries
      (some (List.replicate currentVoice.params.entries.length none))
    orderedParamNames.map fun orderedParamNames =>
      { voiceNameText := currentVoice.name
        bufnumText := value.string
        voiceCodeText := currentVoice.string
        parameterViews := orderedParamNames.reduceOption.map fun paramName =>
          (paramName, currentVoice.params.lookup paramName) }

/-- Whatever the order of the dictionary, there is a view for every parameter but the buffer and
    the instrument, in the order of the source. -/
def ShowsInOrder (ts : List Token) (voice : Voice) : Prop :=
  ∀ entries, voice.params.entries.Perm entries →
    ∃ ui, prRebuildVoiceUI voice entries = some ui ∧
      ui.parameterViews = ((parameterNames ts).filterMap viewed).map fun paramName =>
        (paramName, voice.params.lookup paramName)

theorem nodup_names {ts : List Token} {log : List (Sigma fun _ : List Char => Value)}
    (names : parameterNames ts = log.keys.reverse) :
    (parameterNames ts).Nodup ↔ log.NodupKeys := by
  rw [names, List.nodup_reverse]
  rfl

theorem names_mem {ts : List Token} {voice : Voice} (accepted : newFromTokens ts = some voice)
    (name : List Char) : (voice.params.lookup name).isSome ↔ name ∈ parameterNames ts := by
  obtain ⟨log, params, -, names⟩ := accepted_log accepted
  rw [AList.lookup_isSome, params, mem_toAList, names, List.mem_reverse]

theorem order_dense_iff {ts : List Token} {voice : Voice}
    (accepted : newFromTokens ts = some voice) :
    Dense Value.order voice.params ↔ (parameterNames ts).Nodup := by
  obtain ⟨log, params, numbered, names⟩ := accepted_log accepted
  rw [params, dense_iff numbered, nodup_names names]

theorem shows_of_nodup {ts : List Token} {voice : Voice}
    (accepted : newFromTokens ts = some voice) (distinct : (parameterNames ts).Nodup)
    (buffer : bufnum ∈ parameterNames ts) : ShowsInOrder ts voice := by
  intro entries perm
  obtain ⟨value, found⟩ := Option.isSome_iff_exists.mp ((names_mem accepted bufnum).mpr buffer)
  obtain ⟨log, params, numbered, names⟩ := accepted_log accepted
  have whole : voice.params.entries = log := by
    rw [params]
    exact entries_toAList_of_nodup ((nodup_names names).mp distinct)
  have size : log.reverse.length = voice.params.entries.length := by rw [whole, List.length_reverse]
  have numbers : log.reverse.map (fun e => e.2.order) = List.range log.reverse.length := by
    unfold Numbered at numbered
    rw [List.map_reverse, numbered, List.reverse_reverse, List.length_reverse]
  have order : log.reverse.Perm entries := (List.reverse_perm log).trans (whole ▸ perm)
  have filled : fill (fun e => e.2.order) (fun e => viewed e.1) entries
      (some (List.replicate log.reverse.length none)) =
        some (log.reverse.map fun e => viewed e.1) := fill_full numbers order
  rw [size] at filled
  have shown : (log.reverse.map fun e => viewed e.1).reduceOption =
      (parameterNames ts).filterMap viewed := by
    change List.filterMap id _ = _
    rw [names, List.keys, ← List.map_reverse, List.filterMap_map, List.filterMap_map]
    rfl
  unfold prRebuildVoiceUI
  simp only [found, filled, Option.map_some, shown]
  exact ⟨_, rfl, rfl⟩

/-- The numbers are dense exactly when no name is given twice, and the views then come out as they
    should exactly when the buffer, whose text is shown first, is among the names. -/
theorem order_dense_shows_iff {ts : List Token} {voice : Voice}
    (accepted : newFromTokens ts = some voice) :
    (Dense Value.order voice.params ↔ (parameterNames ts).Nodup) ∧
      (Dense Value.order voice.params ∧ ShowsInOrder ts voice ↔
        (parameterNames ts).Nodup ∧ bufnum ∈ parameterNames ts) := by
  refine ⟨order_dense_iff accepted, ?_⟩
  constructor
  · rintro ⟨dense, shows⟩
    refine ⟨(order_dense_iff accepted).mp dense, ?_⟩
    obtain ⟨ui, rebuilt, -⟩ := shows voice.params.entries (List.Perm.refl _)
    rw [← names_mem accepted]
    cases found : voice.params.lookup bufnum with
    | some value => rfl
    | none =>
      unfold prRebuildVoiceUI at rebuilt
      simp [found] at rebuilt
  · rintro ⟨distinct, buffer⟩
    exact ⟨(order_dense_iff accepted).mpr distinct, shows_of_nodup accepted distinct buffer⟩

def numberParameters (names : List String) : List Token :=
  [ofText .className "Pbindef", ofText .openParen "(", ofText .symbol "\\a"] ++
    names.flatMap (fun name => [ofText .comma ",", ofText .symbol name, ofText .comma ",",
      ofText .number "1"]) ++ [ofText .closeParen ")"]

theorem order_dense_shows_two :
    ∃ voice, newFromTokens (numberParameters ["\\bufnum", "\\x"]) = some voice ∧
      Dense Value.order voice.params ∧
        ShowsInOrder (numberParameters ["\\bufnum", "\\x"]) voice := by
  have accepted := newFromTokens_some.mpr
    ⟨(by decide +kernel : (setFromTokens (numberParameters ["\\bufnum", "\\x"])).state = .done ∨
      (setFromTokens (numberParameters ["\\bufnum", "\\x"])).state = .closePdef), rfl⟩
  exact ⟨_, accepted, (order_dense_shows_iff accepted).2.mpr
    ⟨by decide +kernel, by decide +kernel⟩⟩

/-- A name that is given twice: two entries, the second with number two, and no view. -/
theorem order_repeated :
    ∃ voice, newFromTokens (numberParameters ["\\bufnum", "\\x", "\\x"]) = some voice ∧
      ¬ Dense Value.order voice.params ∧ prRebuildVoiceUI voice voice.params.entries = none := by
  refine ⟨_, newFromTokens_some.mpr ⟨by decide +kernel, rfl⟩, ?_, ?_⟩
  · decide +kernel
  · exact Option.isNone_iff_eq_none.mp (by decide +kernel)

end Views
end SCLOrkPD
