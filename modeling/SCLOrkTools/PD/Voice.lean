import Mathlib.Data.List.AList
import SCLOrkTools.PD.Tokenizer

/- A voice is read from the tokens of a Pbindef statement by an automaton with a counter of open
   brackets. What it skips and what it records is kept as it stands in the source. -/
namespace SCLOrkPD

inductive State where
  | start
  | openPbindef
  | getName
  | nameComma
  | parameterSpace
  | parameterNameComma
  | parameterValue
  | parameterValueStatement
  | closePdef
  | chaining
  | playChain
  | playClockName
  | playClockNameComma
  | playQuantArg
  | playQuantColon
  | playQuantValue
  | playClose
  | quantChain
  | quantValue
  | done
  | error
  deriving DecidableEq

structure Value where
  tokens : List Token
  string : List Char
  order : Nat
  deriving DecidableEq

abbrev Params := AList fun _ : List Char => Value

structure Voice where
  name : Option (List Char)
  params : Params
  string : List Char
  clockName : Option (List Char)
  clockQuant : Option Int
  quant : Option Int
  tokens : List Token

def concatenated (tokens : List Token) : List Char := tokens.flatMap Token.string

def Voice.rebuildString (v : Voice) : Voice := { v with string := concatenated v.tokens }

/-- The number that a string starts with. -/
def asInteger (string : List Char) : Int :=
  let digits (l : List Char) : Int :=
    (l.takeWhile (between '0' '9')).foldl (fun n c => 10 * n + (c.toNat - '0'.toNat : Nat)) 0
  match string with
  | '-' :: rest => - digits rest
  | '+' :: rest => digits rest
  | rest => digits rest

structure Parser where
  voice : Voice
  state : State
  parameterName : List Char
  parameterValueString : List Char
  parameterValueTokens : List Token
  parameterOrder : Nat
  parenDepth : Int

namespace Token

def ignored (t : Token) : Bool :=
  decide (t.type = .whitespace ∨ t.type = .lineComment ∨ t.type = .blockComment)

def opens (t : Token) : Bool := decide (t.type = .openParen ∨ t.type = .openBracket)

def closes (t : Token) : Bool := decide (t.type = .closeParen ∨ t.type = .closeBracket)

end Token

namespace Parser

def toState (p : Parser) (state : State) : Parser := { p with state := state }

/-- The value that has been read goes under the name of the parameter. -/
def record (p : Parser) : Parser :=
  { p with
    voice := { p.voice with
      params := p.voice.params.insert p.parameterName
        ⟨p.parameterValueTokens, p.parameterValueString, p.parameterOrder⟩ }
    parameterOrder := p.parameterOrder + 1 }

/-- The switch over the states, for a token that is neither whitespace nor a comment. -/
def transition (p : Parser) (token : Token) : Parser :=
  match p.state with
  | .error => p.toState .error
  | .start =>
    if token.type = .className ∧ token.string = ['P', 'b', 'i', 'n', 'd', 'e', 'f'] then
      p.toState .openPbindef
    else p.toState .error
  | .openPbindef =>
    if token.type = .openParen ∧ p.parenDepth = 0 then
      { p with parenDepth := 1, state := .getName }
    else p.toState .error
  | .getName =>
    if token.type = .symbol then
      { p with voice := { p.voice with name := some token.string }, state := .nameComma }
    else p.toState .error
  | .nameComma =>
    if token.type = .comma then p.toState .parameterSpace
    else if token.type = .closeParen ∧ p.parenDepth = 1 then
      { p with parenDepth := 0, state := .closePdef }
    else p.toState .error
  | .parameterSpace =>
    if token.type = .symbol then
      { p with parameterName := token.string, state := .parameterNameComma }
    else if token.type = .closeParen ∧ p.parenDepth = 1 then
      { p with parenDepth := 0, state := .closePdef }
    else p.toState .error
  | .parameterNameComma =>
    if token.type = .comma then p.toState .parameterValue else p.toState .error
  | .parameterValue =>
    let p : Parser := { p with parameterValueString := [], parameterValueTokens := [] }
    if token.opens then
      { p with parenDepth := p.parenDepth + 1, state := .parameterValueStatement }
    else if token.type ∈ [.number, .string, .global, .className, .ratio] then
      p.toState .parameterValueStatement
    else p.toState .error
  | .parameterValueStatement =>
    if token.opens then
      { p with parenDepth := p.parenDepth + 1, state := .parameterValueStatement }
    else if token.closes then
      let p : Parser := { p with parenDepth := p.parenDepth - 1 }
      if p.parenDepth > 0 then p.toState .parameterValueStatement
      else p.record.toState .closePdef
    else if token.type = .comma then
      if p.parenDepth = 1 then p.record.toState .parameterSpace
      else p.toState .parameterValueStatement
    else p.toState .parameterValueStatement
  | .closePdef =>
    if token.type = .semiColon then p.toState .done
    else if token.type = .dot then p.toState .chaining
    else p.toState .error
  | .chaining =>
    if token.type = .identifier then
      if token.string = ['p', 'l', 'a', 'y'] then p.toState .playChain
      else if token.string = ['q', 'u', 'a', 'n', 't'] then p.toState .quantChain
      else p.toState .error
    else p.toState .error
  | .playChain =>
    if token.type = .openParen then
      { p with parenDepth := p.parenDepth + 1, state := .playClockName }
    else p.toState .error
  | .playClockName =>
    if token.type = .global ∨ token.type = .identifier then
      { p with voice := { p.voice with clockName := some token.string }
               state := .playClockNameComma }
    else p.toState .error
  | .playClockNameComma =>
    if token.type = .comma then p.toState .playQuantArg
    else if token.type = .closeParen then
      { p with parenDepth := p.parenDepth - 1, state := .closePdef }
    else p.toState .error
  | .playQuantArg =>
    if token.type = .identifier ∧ token.string = ['q', 'u', 'a', 'n', 't'] then
      p.toState .playQuantColon
    else p.toState .error
  | .playQuantColon =>
    if token.type = .colon then p.toState .playQuantValue else p.toState .error
  | .playQuantValue =>
    if token.type = .number then
      { p with voice := { p.voice with clockQuant := some (asInteger token.string) }
               state := .playClose }
    else p.toState .error
  | .playClose =>
    if token.type = .closeParen then p.toState .closePdef else p.toState .error
  | .quantChain =>
    if token.type = .assignment then p.toState .quantValue else p.toState .error
  | .quantValue =>
    if token.type = .number then
      { p with voice := { p.voice with quant := some (asInteger token.string) }
               state := .closePdef }
    else p.toState .error
  | .done => p.toState .error

def append (p : Parser) (token : Token) : Parser :=
  { p with voice := { p.voice with string := p.voice.string ++ token.string } }

/-- The value grows by the tokens after which it is still being read. -/
def accumulate (p : Parser) (token : Token) : Parser :=
  if p.state = .parameterValueStatement then
    { p with
      parameterValueString := p.parameterValueString ++ token.string
      parameterValueTokens := p.parameterValueTokens ++ [token] }
  else p

/-- One turn of the loop over the tokens. -/
def read (p : Parser) (token : Token) : Parser :=
  let p := p.append token
  (if token.ignored then p else p.transition token).accumulate token

def init (tokenList : List Token) : Parser where
  voice :=
    { name := none, params := ∅, string := [], clockName := none, clockQuant := none
      quant := none, tokens := tokenList }
  state := .start
  parameterName := []
  parameterValueString := []
  parameterValueTokens := []
  parameterOrder := 0
  parenDepth := 0

end Parser

def setFromTokens (tokenList : List Token) : Parser :=
  tokenList.foldl Parser.read (Parser.init tokenList)

def newFromTokens (tokenList : List Token) : Option Voice :=
  let p := setFromTokens tokenList
  if p.state = .done ∨ p.state = .closePdef then some p.voice else none

theorem newFromTokens_some {ts : List Token} {voice : Voice} : newFromTokens ts = some voice ↔
    ((setFromTokens ts).state = .done ∨ (setFromTokens ts).state = .closePdef) ∧
      (setFromTokens ts).voice = voice := by
  unfold newFromTokens
  simp

def State.inside : State → Bool
  | start | openPbindef | getName | nameComma | parameterSpace | parameterNameComma
  | parameterValue | parameterValueStatement => true
  | _ => false

namespace Parser
variable {p : Parser} {t : Token}

@[simp] theorem append_state : (p.append t).state = p.state := rfl
@[simp] theorem append_parenDepth : (p.append t).parenDepth = p.parenDepth := rfl
@[simp] theorem append_parameterName : (p.append t).parameterName = p.parameterName := rfl
@[simp] theorem append_params : (p.append t).voice.params = p.voice.params := rfl

@[simp] theorem accumulate_voice : (p.accumulate t).voice = p.voice := by
  unfold accumulate
  split <;> rfl

@[simp] theorem accumulate_state : (p.accumulate t).state = p.state := by
  unfold accumulate
  split <;> rfl

@[simp] theorem accumulate_parenDepth : (p.accumulate t).parenDepth = p.parenDepth := by
  unfold accumulate
  split <;> rfl

@[simp] theorem accumulate_parameterName : (p.accumulate t).parameterName = p.parameterName := by
  unfold accumulate
  split <;> rfl

@[simp] theorem accumulate_parameterOrder :
    (p.accumulate t).parameterOrder = p.parameterOrder := by
  unfold accumulate
  split <;> rfl

theorem transition_text : (p.transition t).voice.string = p.voice.string ∧
    (p.transition t).voice.tokens = p.voice.tokens := by
  unfold transition
  cases p.state <;> simp only [] <;> (repeat' split) <;> exact ⟨rfl, rfl⟩

theorem read_text : (p.read t).voice.string = p.voice.string ++ t.string ∧
    (p.read t).voice.tokens = p.voice.tokens := by
  unfold read
  rw [accumulate_voice]
  split
  · exact ⟨rfl, rfl⟩
  · exact transition_text

theorem transition_outside (outside : p.state.inside = false) :
    (p.transition t).state.inside = false ∧
      (p.transition t).voice.params = p.voice.params ∧
        (p.transition t).parameterOrder = p.parameterOrder := by
  unfold transition
  cases state : p.state with
  | start | openPbindef | getName | nameComma | parameterSpace | parameterNameComma
  | parameterValue | parameterValueStatement =>
    rw [state] at outside
    cases outside
  | closePdef | chaining | playChain | playClockName | playClockNameComma | playQuantArg
  | playQuantColon | playQuantValue | playClose | quantChain | quantValue | done | error =>
    simp only []
    (repeat' split) <;> exact ⟨rfl, rfl, rfl⟩

def Ends (p : Parser) (t : Token) : Prop :=
  p.state = .parameterValueStatement ∧ t.ignored = false ∧ t.opens = false ∧
    (t.closes = true ∧ p.parenDepth ≤ 1 ∨
      t.closes = false ∧ t.type = .comma ∧ p.parenDepth = 1)

instance (p : Parser) (t : Token) : Decidable (p.Ends t) :=
  inferInstanceAs (Decidable (_ ∧ _ ∧ _ ∧ _))

theorem ends_ignored (ignored : t.ignored = true) : ¬ p.Ends t := by
  rintro ⟨-, other, -⟩
  rw [ignored] at other
  cases other

theorem ends_elsewhere (other : p.state ≠ .parameterValueStatement) : ¬ p.Ends t :=
  fun ends => other ends.1

theorem transition_recorded (counts : t.ignored = false) :
    (p.transition t).voice.params = (if p.Ends t then p.record.voice.params else p.voice.params) ∧
      (p.transition t).parameterOrder =
        if p.Ends t then p.parameterOrder + 1 else p.parameterOrder := by
  cases state : p.state with
  | parameterValueStatement =>
    unfold transition Ends
    simp only [state, counts, true_and]
    cases opens : t.opens with
    | true => simp
    | false =>
      cases closes : t.closes with
      | true =>
        by_cases more : 1 < p.parenDepth
        · have deep : ¬ p.parenDepth ≤ 1 := by omega
          simp [more, deep, toState]
        · have last : p.parenDepth ≤ 1 := by omega
          simp [more, last, toState, record]
      | false =>
        by_cases comma : t.type = .comma
        · by_cases one : p.parenDepth = 1 <;> simp [comma, one, toState, record]
        · simp [comma, toState]
  | start | openPbindef | getName | nameComma | parameterSpace | parameterNameComma
  | parameterValue | closePdef | chaining | playChain | playClockName | playClockNameComma
  | playQuantArg | playQuantColon | playQuantValue | playClose | quantChain | quantValue | done
  | error =>
    have goesOn : ¬ p.Ends t := ends_elsewhere (by simp [state])
    unfold transition
    simp only [state, if_neg goesOn]
    (repeat' split) <;> exact ⟨rfl, rfl⟩

theorem read_recorded :
    (p.read t).voice.params = (if p.Ends t then p.record.voice.params else p.voice.params) ∧
      (p.read t).parameterOrder =
        if p.Ends t then p.parameterOrder + 1 else p.parameterOrder := by
  unfold read
  cases counts : t.ignored with
  | true => simp [if_neg (ends_ignored (p := p) counts), append]
  | false =>
    have recorded := transition_recorded (p := p.append t) counts
    simp only [Bool.false_eq_true, if_false, accumulate_voice, accumulate_parameterOrder]
    by_cases ends : p.Ends t
    · have ends' : (p.append t).Ends t := ends
      rw [if_pos ends', if_pos ends'] at recorded
      rw [if_pos ends, if_pos ends]
      exact recorded
    · have goesOn : ¬ (p.append t).Ends t := ends
      rw [if_neg goesOn, if_neg goesOn] at recorded
      rw [if_neg ends, if_neg ends]
      exact recorded

end Parser

theorem setFromTokens_text (ts : List Token) :
    (setFromTokens ts).voice.string = concatenated ts ∧
      (setFromTokens ts).voice.tokens = ts := by
  have whole (p : Parser) (rest : List Token) :
      (rest.foldl Parser.read p).voice.string = p.voice.string ++ concatenated rest ∧
        (rest.foldl Parser.read p).voice.tokens = p.voice.tokens := by
    induction rest generalizing p with
    | nil => simp [concatenated]
    | cons t rest ih =>
      obtain ⟨text, kept⟩ := ih (p.read t)
      rw [List.foldl_cons, text, kept, Parser.read_text.1, Parser.read_text.2]
      simp [concatenated]
  exact whole (Parser.init ts) ts

end SCLOrkPD
