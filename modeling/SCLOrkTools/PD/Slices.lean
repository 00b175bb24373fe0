import Mathlib.Algebra.BigOperators.Group.List.Basic
import Mathlib.Algebra.Ring.Int.Defs
import SCLOrkTools.PD.Voice

/- What is recorded for a parameter, against the tokens themselves: where brackets open and close
   says where a value ends, whatever state the automaton is in. -/
namespace SCLOrkPD

section Pieces

def Token.nest (t : Token) : Int := if t.opens then 1 else if t.closes then -1 else 0

def nesting (ts : List Token) : Int := (ts.map Token.nest).sum

/-- The token ends the value that the tokens before it end with: a comma between the arguments
    of the Pbindef, or the bracket that closes it. -/
def Stops (before : List Token) (t : Token) : Prop :=
  t.type = .comma ∧ nesting before = 1 ∨ t.closes = true ∧ nesting (before ++ [t]) = 0

def BetweenArguments (ts : List Token) : Prop :=
  ∃ l comma gap, ts = l ++ comma :: gap ∧ comma.type = .comma ∧ nesting l = 1 ∧
    ∀ t ∈ gap, Token.ignored t = true

structure Piece where
  before : List Token
  nameToken : Token
  gap : List Token
  comma : Token
  gap' : List Token
  value : List Token

namespace Piece

def named (c : Piece) : List Token := c.before ++ c.nameToken :: c.gap
def front (c : Piece) : List Token := c.named ++ c.comma :: c.gap'
def whole (c : Piece) : List Token := c.front ++ c.value

structure Named (c : Piece) (name : List Char) : Prop where
  place : BetweenArguments c.before
  symbol : c.nameToken.type = .symbol
  string : c.nameToken.string = name
  gap : ∀ t ∈ c.gap, t.ignored = true

structure Fronted (c : Piece) (name : List Char) : Prop where
  named : c.Named name
  comma : c.comma.type = .comma
  gap : ∀ t ∈ c.gap', t.ignored = true

/-- The value starts with a token that counts, and nothing in it stops it. -/
structure Filled (c : Piece) (name : List Char) : Prop where
  fronted : c.Fronted name
  first : ∃ t rest, c.value = t :: rest ∧ t.ignored = false
  inner : ∀ pre t post, c.value = pre ++ t :: post → ¬ Stops (c.front ++ pre) t

end Piece

/-- The value of a parameter is a slice of the tokens. -/
def RecordedAs (ts : List Token) (name : List Char) (value : Value) : Prop :=
  ∃ (c : Piece) (stop : Token) (after : List Token), c.Filled name ∧
    ts = c.whole ++ stop :: after ∧ Stops c.whole stop ∧
      value.tokens = c.value ∧ value.string = concatenated c.value

end Pieces

section Nesting
variable {t : Token}

@[simp] theorem nesting_nil : nesting [] = 0 := rfl

@[simp] theorem nesting_append (l m : List Token) : nesting (l ++ m) = nesting l + nesting m := by
  simp [nesting]

@[simp] theorem nesting_cons (l : List Token) : nesting (t :: l) = t.nest + nesting l := by
  simp [nesting]

theorem nest_opens (opens : t.opens = true) : t.nest = 1 := by
  simp [Token.nest, opens]

theorem nest_closes (shut : t.opens = false) (closes : t.closes = true) : t.nest = -1 := by
  simp [Token.nest, shut, closes]

theorem nest_other (shut : t.opens = false) (plain : t.closes = false) : t.nest = 0 := by
  simp [Token.nest, shut, plain]

theorem nest_of_type {type : TokenType} (same : t.type = type)
    (other : type ∉ [TokenType.openParen, .openBracket, .closeParen, .closeBracket]) :
    t.nest = 0 := by
  subst same
  simp only [List.mem_cons, List.not_mem_nil, or_false, not_or] at other
  simp [Token.nest, Token.opens, Token.closes, other]

theorem ignored_type (ignored : t.ignored = true) :
    t.type ∉ [TokenType.openParen, .openBracket, .closeParen, .closeBracket, .comma] := by
  have one : t.type = .whitespace ∨ t.type = .lineComment ∨ t.type = .blockComment :=
    of_decide_eq_true ignored
  rcases one with type | type | type
  · simp [type]
  · simp [type]
  · simp [type]

theorem nest_ignored (ignored : t.ignored = true) : t.nest = 0 := by
  have other := ignored_type ignored
  apply nest_of_type rfl
  intro bracket
  apply other
  simp only [List.mem_cons, List.not_mem_nil, or_false] at bracket ⊢
  tauto

theorem ignored_not_stops {before : List Token} (ignored : t.ignored = true) :
    ¬ Stops before t := by
  have other := ignored_type ignored
  simp only [List.mem_cons, List.not_mem_nil, or_false, not_or] at other
  rintro (⟨comma, -⟩ | ⟨closes, -⟩)
  · exact other.2.2.2.2 comma
  · rcases (of_decide_eq_true closes : t.type = .closeParen ∨ t.type = .closeBracket) with
      type | type
    · exact other.2.2.1 type
    · exact other.2.2.2.1 type

end Nesting

section Growth
variable {c : Piece} {name : List Char} {t : Token}

theorem ignored_snoc {gap : List Token} (all : ∀ u ∈ gap, u.ignored = true)
    (ignored : t.ignored = true) : ∀ u ∈ gap ++ [t], u.ignored = true := by
  intro u member
  rcases List.mem_append.mp member with earlier | last
  · exact all u earlier
  · rw [List.mem_singleton.mp last]
    exact ignored

theorem between_comma {l : List Token} (comma : t.type = .comma) (level : nesting l = 1) :
    BetweenArguments (l ++ [t]) :=
  ⟨l, t, [], rfl, comma, level, by simp⟩

theorem between_gap {l : List Token} (between : BetweenArguments l) (ignored : t.ignored = true) :
    BetweenArguments (l ++ [t]) := by
  obtain ⟨m, comma, gap, rfl, type, level, all⟩ := between
  exact ⟨m, comma, gap ++ [t], by simp, type, level, ignored_snoc all ignored⟩

theorem named_gap (named : c.Named name) (ignored : t.ignored = true) :
    Piece.Named { c with gap := c.gap ++ [t] } name := by
  refine ⟨named.place, named.symbol, named.string, ?_⟩
  exact ignored_snoc named.gap ignored

theorem fronted_gap (fronted : c.Fronted name) (ignored : t.ignored = true) :
    Piece.Fronted { c with gap' := c.gap' ++ [t] } name := by
  refine ⟨⟨fronted.named.place, fronted.named.symbol, fronted.named.string, fronted.named.gap⟩,
    fronted.comma, ?_⟩
  exact ignored_snoc fronted.gap ignored

theorem fronted_of_named (named : c.Named name) (comma : t.type = .comma) :
    Piece.Fronted { c with comma := t, gap' := [] } name :=
  ⟨⟨named.place, named.symbol, named.string, named.gap⟩, comma, by simp⟩

theorem filled_first (fronted : c.Fronted name) (counts : t.ignored = false)
    (goesOn : ¬ Stops c.front t) : Piece.Filled { c with value := [t] } name := by
  refine ⟨⟨⟨fronted.named.place, fronted.named.symbol, fronted.named.string, fronted.named.gap⟩,
    fronted.comma, fronted.gap⟩, ⟨t, [], rfl, counts⟩, ?_⟩
  intro pre u post shape
  rcases List.cons_eq_append_iff.mp shape with ⟨rfl, same⟩ | ⟨rest, rfl, same⟩
  · cases same
    simpa [Piece.front, Piece.named] using goesOn
  · simp at same

theorem filled_next (filled : c.Filled name) (goesOn : ¬ Stops c.whole t) :
    Piece.Filled { c with value := c.value ++ [t] } name := by
  obtain ⟨fronted, ⟨first, rest, shape, counts⟩, inner⟩ := filled
  refine ⟨⟨⟨fronted.named.place, fronted.named.symbol, fronted.named.string, fronted.named.gap⟩,
    fronted.comma, fronted.gap⟩, ⟨first, rest ++ [t], by simp [shape], counts⟩, ?_⟩
  intro pre u post split
  rcases List.eq_nil_or_concat' post with rfl | ⟨init, last, rfl⟩
  · obtain ⟨same, one⟩ := List.append_inj' split rfl
    cases one
    rw [← same]
    exact goesOn
  · have longer : c.value ++ [t] = (pre ++ u :: init) ++ [last] := by simpa using split
    exact inner pre u init (List.append_inj' longer rfl).1

end Growth

/-- What the tokens so far are, in each state up to the end of the Pbindef. -/
def Stage (pre : List Token) (p : Parser) : Prop :=
  match p.state with
  | .start | .openPbindef => p.parenDepth = 0 ∧ nesting pre = 0
  | .getName | .nameComma => p.parenDepth = 1 ∧ nesting pre = 1
  | .parameterSpace => p.parenDepth = 1 ∧ nesting pre = 1 ∧ BetweenArguments pre
  | .parameterNameComma => p.parenDepth = 1 ∧ nesting pre = 1 ∧
      ∃ c : Piece, c.Named p.parameterName ∧ pre = c.named
  | .parameterValue => p.parenDepth = 1 ∧ nesting pre = 1 ∧
      ∃ c : Piece, c.Fronted p.parameterName ∧ pre = c.front
  | .parameterValueStatement => 1 ≤ p.parenDepth ∧ nesting pre = p.parenDepth ∧
      ∃ c : Piece, c.Filled p.parameterName ∧ pre = c.whole ∧
        p.parameterValueTokens = c.value ∧ p.parameterValueString = concatenated c.value
  | _ => True

section Steps
variable {pre : List Token} {p : Parser} {t : Token}

theorem read_ignored (ignored : t.ignored = true) : p.read t = (p.append t).accumulate t := by
  simp [Parser.read, ignored]

theorem read_counts (counts : t.ignored = false) :
    p.read t = ((p.append t).transition t).accumulate t := by
  simp [Parser.read, counts]

theorem concatenated_snoc (l : List Token) (t : Token) :
    concatenated (l ++ [t]) = concatenated l ++ t.string := by
  simp [concatenated]

theorem stage_ignored (stage : Stage pre p) (ignored : t.ignored = true) :
    Stage (pre ++ [t]) (p.read t) := by
  have flat : nesting (pre ++ [t]) = nesting pre := by simp [nest_ignored ignored]
  rw [read_ignored ignored]
  unfold Stage at stage ⊢
  simp only [Parser.accumulate_state, Parser.append_state, Parser.accumulate_parenDepth,
    Parser.append_parenDepth, flat, Parser.accumulate_parameterName]
  cases state : p.state with
  | start | openPbindef | getName | nameComma =>
    rw [state] at stage
    exact stage
  | parameterSpace =>
    rw [state] at stage
    obtain ⟨depth, level, between⟩ := stage
    exact ⟨depth, level, between_gap between ignored⟩
  | parameterNameComma =>
    rw [state] at stage
    obtain ⟨depth, level, c, named, rfl⟩ := stage
    exact ⟨depth, level, _, named_gap named ignored, by simp [Piece.named]⟩
  | parameterValue =>
    rw [state] at stage
    obtain ⟨depth, level, c, fronted, rfl⟩ := stage
    exact ⟨depth, level, _, fronted_gap fronted ignored, by simp [Piece.front, Piece.named]⟩
  | parameterValueStatement =>
    rw [state] at stage
    obtain ⟨depth, level, c, filled, rfl, tokens, string⟩ := stage
    refine ⟨depth, level, _, filled_next filled (ignored_not_stops ignored), ?_, ?_, ?_⟩
    · simp [Piece.whole, Piece.front, Piece.named]
    · simp [Parser.accumulate, state, Parser.append, tokens]
    · simp [Parser.accumulate, state, Parser.append, string, concatenated_snoc]
  | closePdef | chaining | playChain | playClockName | playClockNameComma | playQuantArg
  | playQuantColon | playQuantValue | playClose | quantChain | quantValue | done | error =>
    trivial

theorem stage_outside {q : Parser} (outside : q.state.inside = false) : Stage pre q := by
  unfold Stage
  cases state : q.state with
  | start | openPbindef | getName | nameComma | parameterSpace | parameterNameComma
  | parameterValue | parameterValueStatement =>
    rw [state] at outside
    cases outside
  | closePdef | chaining | playChain | playClockName | playClockNameComma | playQuantArg
  | playQuantColon | playQuantValue | playClose | quantChain | quantValue | done | error =>
    trivial

theorem stage_error {q : Parser} : Stage pre ((q.toState .error).accumulate t) :=
  stage_outside (by simp [Parser.toState, State.inside])

theorem stage_value {c : Piece} {q : Parser} (filled : c.Filled q.parameterName)
    (goesOn : ¬ Stops c.whole t) (tokens : q.parameterValueTokens = c.value)
    (string : q.parameterValueString = concatenated c.value)
    (state : q.state = .parameterValueStatement) (positive : 1 ≤ q.parenDepth)
    (level : nesting c.whole + t.nest = q.parenDepth) :
    Stage (c.whole ++ [t]) (q.accumulate t) := by
  unfold Stage
  rw [Parser.accumulate_state, state]
  refine ⟨by simpa using positive, by simpa using level, _,
    (Parser.accumulate_parameterName (p := q)).symm ▸ filled_next filled goesOn, ?_, ?_, ?_⟩
  · simp [Piece.whole, Piece.front, Piece.named]
  · simp [Parser.accumulate, state, tokens]
  · simp [Parser.accumulate, state, string, concatenated_snoc]

theorem stage_first {c : Piece} {q : Parser} (fronted : c.Fronted q.parameterName)
    (counts : t.ignored = false) (goesOn : ¬ Stops c.front t) (tokens : q.parameterValueTokens = [])
    (string : q.parameterValueString = []) (state : q.state = .parameterValueStatement)
    (positive : 1 ≤ q.parenDepth) (level : nesting c.front + t.nest = q.parenDepth) :
    Stage (c.front ++ [t]) (q.accumulate t) := by
  unfold Stage
  rw [Parser.accumulate_state, state]
  refine ⟨by simpa using positive, by simpa using level, _,
    (Parser.accumulate_parameterName (p := q)).symm ▸ filled_first fronted counts goesOn,
    ?_, ?_, ?_⟩
  · simp [Piece.whole, Piece.front, Piece.named]
  · simp [Parser.accumulate, state, tokens]
  · simp [Parser.accumulate, state, string, concatenated]

theorem opens_not_stops {before : List Token} (opens : t.opens = true) : ¬ Stops before t := by
  have type : t.type = .openParen ∨ t.type = .openBracket := of_decide_eq_true opens
  rintro (⟨comma, -⟩ | ⟨closes, -⟩)
  · simp [comma] at type
  · have type' : t.type = .closeParen ∨ t.type = .closeBracket := of_decide_eq_true closes
    rcases type with type | type
    · simp [type] at type'
    · simp [type] at type'

theorem stage_statement (stage : Stage pre p) (state : p.state = .parameterValueStatement)
    (counts : t.ignored = false) : Stage (pre ++ [t]) (p.read t) := by
  unfold Stage at stage
  rw [state] at stage
  obtain ⟨positive, level, c, filled, rfl, tokens, string⟩ := stage
  rw [read_counts counts]
  unfold Parser.transition
  simp only [Parser.append_state, state]
  split
  · rename_i opens
    refine stage_value filled (opens_not_stops opens) tokens string rfl ?_ ?_
    · change 1 ≤ p.parenDepth + 1
      omega
    · rw [level, nest_opens opens]
      rfl
  · rename_i shut
    split
    · rename_i closes
      have nest := nest_closes (by simpa using shut) closes
      split
      · rename_i more
        have open_ : p.parenDepth - 1 > 0 := more
        refine stage_value filled ?_ tokens string rfl ?_ ?_
        · rintro (⟨comma, -⟩ | ⟨-, ended⟩)
          · simp [Token.closes, comma] at closes
          · rw [nesting_append, nesting_cons, nesting_nil, level, nest] at ended
            omega
        · change 1 ≤ p.parenDepth - 1
          omega
        · rw [level, nest]
          rfl
      · exact stage_outside (by simp [Parser.toState, State.inside])
    · rename_i plain
      have nest := nest_other (by simpa using shut) (by simpa using plain)
      split
      · rename_i comma
        split
        · rename_i one
          have depth : p.parenDepth = 1 := one
          have between := between_comma comma (level.trans depth)
          unfold Stage
          simp [Parser.toState, Parser.record, depth, level, nest, between]
        · rename_i other
          refine stage_value filled ?_ tokens string rfl positive ?_
          · rintro (⟨-, ended⟩ | ⟨closes, -⟩)
            · rw [level] at ended
              exact other ended
            · exact plain closes
          · rw [level, nest, add_zero]
            rfl
      · rename_i noComma
        refine stage_value filled ?_ tokens string rfl positive ?_
        · rintro (⟨comma, -⟩ | ⟨closes, -⟩)
          · exact noComma comma
          · exact plain closes
        · rw [level, nest, add_zero]
          rfl

theorem stage_value_start (stage : Stage pre p) (state : p.state = .parameterValue)
    (counts : t.ignored = false) : Stage (pre ++ [t]) (p.read t) := by
  unfold Stage at stage
  rw [state] at stage
  obtain ⟨depth, level, c, fronted, rfl⟩ := stage
  rw [read_counts counts]
  unfold Parser.transition
  simp only [Parser.append_state, state]
  split
  · rename_i opens
    refine stage_first fronted counts (opens_not_stops opens) rfl rfl rfl ?_ ?_
    · change 1 ≤ p.parenDepth + 1
      omega
    · change nesting c.front + t.nest = p.parenDepth + 1
      rw [level, depth, nest_opens opens]
  · split
    · rename_i starts
      have flat : t.nest = 0 := nest_of_type rfl fun bracket => by
        simp only [List.mem_cons, List.not_mem_nil, or_false] at starts bracket
        rcases bracket with type | type | type | type <;> simp [type] at starts
      refine stage_first fronted counts ?_ rfl rfl rfl ?_ ?_
      · rintro (⟨comma, -⟩ | ⟨closes, -⟩)
        · simp [comma] at starts
        · have type : t.type = .closeParen ∨ t.type = .closeBracket := of_decide_eq_true closes
          rcases type with type | type <;> simp [type] at starts
      · change 1 ≤ p.parenDepth
        omega
      · change nesting c.front + t.nest = p.parenDepth
        rw [level, depth, flat]
        rfl
    · exact stage_error

theorem stage_head (stage : Stage pre p)
    (state : p.state ∈ [State.start, .openPbindef, .getName, .nameComma])
    (counts : t.ignored = false) : Stage (pre ++ [t]) (p.read t) := by
  unfold Stage at stage
  rw [read_counts counts]
  unfold Parser.transition
  simp only [List.mem_cons, List.not_mem_nil, or_false] at state
  rcases state with state | state | state | state
  · rw [state] at stage
    simp only [Parser.append_state, state]
    split
    · rename_i opening
      unfold Stage
      simp [Parser.toState, stage, nest_of_type opening.1]
    · exact stage_error
  · rw [state] at stage
    simp only [Parser.append_state, state]
    split
    · rename_i opening
      have opens : t.opens = true := by simp [Token.opens, opening.1]
      unfold Stage
      simp [stage, nest_opens opens]
    · exact stage_error
  · rw [state] at stage
    simp only [Parser.append_state, state]
    split
    · rename_i symbol
      unfold Stage
      simp [stage, nest_of_type symbol]
    · exact stage_error
  · rw [state] at stage
    simp only [Parser.append_state, state]
    split
    · rename_i comma
      unfold Stage
      simp [Parser.toState, stage, nest_of_type comma, between_comma comma stage.2]
    · split
      · exact stage_outside (by simp [State.inside])
      · exact stage_error

theorem stage_space (stage : Stage pre p) (state : p.state = .parameterSpace)
    (counts : t.ignored = false) : Stage (pre ++ [t]) (p.read t) := by
  unfold Stage at stage
  rw [state] at stage
  obtain ⟨depth, level, between⟩ := stage
  rw [read_counts counts]
  unfold Parser.transition
  simp only [Parser.append_state, state]
  split
  · rename_i symbol
    have named : Piece.Named ⟨pre, t, [], t, [], []⟩ t.string := ⟨between, symbol, rfl, by simp⟩
    unfold Stage
    simp only [Parser.accumulate_state, Parser.accumulate_parenDepth,
      Parser.accumulate_parameterName]
    exact ⟨depth, by simp [level, nest_of_type symbol], _, named, rfl⟩
  · split
    · exact stage_outside (by simp [State.inside])
    · exact stage_error

theorem stage_name (stage : Stage pre p) (state : p.state = .parameterNameComma)
    (counts : t.ignored = false) : Stage (pre ++ [t]) (p.read t) := by
  unfold Stage at stage
  rw [state] at stage
  obtain ⟨depth, level, c, named, rfl⟩ := stage
  rw [read_counts counts]
  unfold Parser.transition
  simp only [Parser.append_state, state]
  split
  · rename_i comma
    unfold Stage
    simp only [Parser.toState, Parser.accumulate_state, Parser.accumulate_parenDepth,
      Parser.accumulate_parameterName]
    exact ⟨depth, by simp [level, nest_of_type comma], _, fronted_of_named named comma, rfl⟩
  · exact stage_error

theorem stage_counts (stage : Stage pre p) (counts : t.ignored = false) :
    Stage (pre ++ [t]) (p.read t) := by
  cases state : p.state with
  | start | openPbindef | getName | nameComma => exact stage_head stage (by simp [state]) counts
  | parameterSpace => exact stage_space stage state counts
  | parameterNameComma => exact stage_name stage state counts
  | parameterValue => exact stage_value_start stage state counts
  | parameterValueStatement => exact stage_statement stage state counts
  | closePdef | chaining | playChain | playClockName | playClockNameComma | playQuantArg
  | playQuantColon | playQuantValue | playClose | quantChain | quantValue | done | error =>
    rw [read_counts counts]
    apply stage_outside
    rw [Parser.accumulate_state]
    exact (Parser.transition_outside (by simp [state, State.inside])).1

theorem stage_read (stage : Stage pre p) : Stage (pre ++ [t]) (p.read t) := by
  cases counts : t.ignored with
  | true => exact stage_ignored stage counts
  | false => exact stage_counts stage counts

theorem recorded_stage (stage : Stage pre p) (ends : p.Ends t) :
    RecordedAs (pre ++ [t]) p.parameterName
      ⟨p.parameterValueTokens, p.parameterValueString, p.parameterOrder⟩ := by
  obtain ⟨state, -, shut, stops⟩ := ends
  unfold Stage at stage
  rw [state] at stage
  obtain ⟨positive, level, c, filled, rfl, tokens, string⟩ := stage
  refine ⟨c, t, [], filled, rfl, ?_, tokens, string⟩
  rcases stops with ⟨closes, last⟩ | ⟨-, comma, one⟩
  · right
    refine ⟨closes, ?_⟩
    rw [nesting_append, nesting_cons, nesting_nil, level, nest_closes shut closes]
    omega
  · left
    exact ⟨comma, level.trans one⟩

theorem recorded_append {name : List Char} {value : Value} (recorded : RecordedAs pre name value)
    (rest : List Token) : RecordedAs (pre ++ rest) name value := by
  obtain ⟨c, stop, after, filled, rfl, stops, tokens, string⟩ := recorded
  exact ⟨c, stop, after ++ rest, filled, by simp, stops, tokens, string⟩

/-- Everything that is recorded stands among the tokens so far. -/
def Recorded (pre : List Token) (p : Parser) : Prop :=
  ∀ name value, p.voice.params.lookup name = some value → RecordedAs pre name value

theorem recorded_read (stage : Stage pre p) (recorded : Recorded pre p) :
    Recorded (pre ++ [t]) (p.read t) := by
  intro name value found
  rw [Parser.read_recorded.1] at found
  by_cases ends : p.Ends t
  · rw [if_pos ends] at found
    change (p.voice.params.insert _ _).lookup name = some value at found
    by_cases same : name = p.parameterName
    · subst same
      rw [AList.lookup_insert] at found
      cases found
      exact recorded_stage stage ends
    · rw [AList.lookup_insert_ne same] at found
      exact recorded_append (recorded name value found) [t]
  · rw [if_neg ends] at found
    exact recorded_append (recorded name value found) [t]

/-- By induction over the tokens still to read: the stage and what is recorded are kept. -/
theorem recorded_run (rest : List Token) (stage : Stage pre p) (recorded : Recorded pre p) :
    Recorded (pre ++ rest) (rest.foldl Parser.read p) := by
  induction rest generalizing pre p with
  | nil =>
    rw [List.append_nil]
    exact recorded
  | cons t rest ih =>
    have next := ih (stage_read stage) (recorded_read (t := t) stage recorded)
    rw [List.append_assoc] at next
    exact next

theorem stage_init (ts : List Token) : Stage [] (Parser.init ts) := ⟨rfl, rfl⟩

theorem recorded_init (ts : List Token) : Recorded [] (Parser.init ts) := by
  intro name value found
  cases found

end Steps

/-- The string of a voice is that of its tokens, and rebuilding it changes nothing. Each
    parameter is recorded with the tokens from the first that counts behind the comma after its
    name to the comma or the bracket that ends the argument. -/
theorem newFromTokens_preserves (ts : List Token) (voice : Voice)
    (accepted : newFromTokens ts = some voice) :
    voice.string = concatenated ts ∧ voice.rebuildString = voice ∧
      ∀ name value, voice.params.lookup name = some value → RecordedAs ts name value := by
  obtain ⟨-, rfl⟩ := newFromTokens_some.mp accepted
  obtain ⟨string, tokens⟩ := setFromTokens_text ts
  refine ⟨string, ?_, recorded_run ts (stage_init ts) (recorded_init ts)⟩
  have same : concatenated (setFromTokens ts).voice.tokens = (setFromTokens ts).voice.string := by
    rw [tokens, string]
  unfold Voice.rebuildString
  rw [same]

def ofText (type : TokenType) (string : String) : Token :=
  { offset := 0, string := string.toList, length := string.length, type := type }

/-- The tokens of a Pbindef with one parameter, whose value has a comma and a space in brackets
    and a comment behind them. -/
def listValue : List Token :=
  [ofText .className "Pbindef", ofText .openParen "(", ofText .symbol "\\a", ofText .comma ",",
    ofText .whitespace " ", ofText .symbol "\\x", ofText .comma ",", ofText .whitespace " ",
    ofText .openBracket "[", ofText .number "1", ofText .comma ",", ofText .whitespace " ",
    ofText .number "2", ofText .closeBracket "]", ofText .whitespace " ",
    ofText .blockComment "/* v */", ofText .closeParen ")", ofText .semiColon ";"]

theorem newFromTokens_listValue :
    ∃ voice, newFromTokens listValue = some voice ∧
      voice.string = "Pbindef(\\a, \\x, [1, 2] /* v */);".toList ∧ voice.rebuildString = voice ∧
        ∃ value, voice.params.lookup "\\x".toList = some value ∧
          value.string = "[1, 2] /* v */".toList ∧
            RecordedAs listValue "\\x".toList value := by
  have accepted : newFromTokens listValue = some (setFromTokens listValue).voice :=
    newFromTokens_some.mpr ⟨by decide +kernel, rfl⟩
  obtain ⟨string, rebuilt, recorded⟩ := newFromTokens_preserves listValue _ accepted
  refine ⟨_, accepted, string.trans (by decide +kernel), rebuilt, ?_⟩
  have found : (setFromTokens listValue).voice.params.lookup "\\x".toList =
      some ⟨(listValue.drop 8).take 8, "[1, 2] /* v */".toList, 0⟩ := by decide +kernel
  exact ⟨_, found, rfl, recorded _ _ found⟩

end SCLOrkPD
