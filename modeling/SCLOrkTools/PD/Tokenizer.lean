import Mathlib.Algebra.BigOperators.Group.List.Basic
import Mathlib.Algebra.GroupWithZero.Nat
import SCLOrkTools.Library.Regexp

/- The tokenizer of SCLOrkPDPreset. A string is its characters, one byte each. The search for
   regular expressions is outside the sources and is an argument. -/
namespace SCLOrkPD
open Regexps Regexp

inductive TokenType where
  | whitespace
  | lineComment
  | blockComment
  | symbol
  | openParen
  | closeParen
  | string
  | ratio
  | number
  | openBracket
  | closeBracket
  | identifier
  | global
  | className
  | dot
  | comma
  | identityComparison
  | equality
  | assignment
  | colon
  | semiColon
  | forwardSlash
  | asterisk
  | hyphen
  | plus
  deriving DecidableEq

structure Token where
  offset : Nat
  string : List Char
  length : Nat
  type : TokenType
  deriving DecidableEq

section Patterns

def oneOf (cs : List Char) : Regexp Char := .chars fun c => decide (c ∈ cs)
def noneOf (cs : List Char) : Regexp Char := .chars fun c => decide (c ∉ cs)

def between (first last c : Char) : Bool := decide (first ≤ c) && decide (c ≤ last)

def digit : Regexp Char := .chars (between '0' '9')
def lower : Regexp Char := .chars (between 'a' 'z')
def upper : Regexp Char := .chars (between 'A' 'Z')

def wordChar : Regexp Char :=
  .chars fun c => between 'A' 'Z' c || between 'a' 'z' c || between '0' '9' c || decide (c = '_')

def decimal : List (Regexp Char) :=
  [opt (oneOf ['-', '+']), Regexp.plus digit, opt (lit '.'), star digit]

def blanks : Regexp Char := star (oneOf [' ', '\t'])

def comment : Regexp Char :=
  concat [lit '/', lit '*', star (alt (noneOf ['*']) (seq (lit '*') (noneOf ['/']))), lit '*',
    lit '/']

/-- In the order in which they are tried. -/
def patterns : List (Regexp Char × TokenType) :=
  [(Regexp.plus (oneOf [' ', '\t', '\n']), .whitespace),
    (concat [lit '/', lit '/', star (noneOf ['\n']), lit '\n'], .lineComment),
    (comment, .blockComment),
    (seq (lit '\\') (Regexp.plus wordChar), .symbol),
    (concat [lit '\'', star (noneOf ['\'']), lit '\''], .symbol),
    (lit '(', .openParen),
    (lit ')', .closeParen),
    (concat [lit '"', star (noneOf ['"']), lit '"'], .string),
    (concat (decimal ++ [blanks, lit '/', blanks] ++ decimal), .ratio),
    (concat decimal, .number),
    (lit '[', .openBracket),
    (lit ']', .closeBracket),
    (seq (Regexp.plus lower) (star wordChar), .identifier),
    (seq (lit '~') (Regexp.plus wordChar), .global),
    (seq (Regexp.plus upper) (Regexp.plus wordChar), .className),
    (lit '.', .dot),
    (lit ',', .comma),
    (concat [lit '=', lit '=', lit '='], .identityComparison),
    (concat [lit '=', lit '='], .equality),
    (lit '=', .assignment),
    (lit ':', .colon),
    (lit ';', .semiColon),
    (lit '/', .forwardSlash),
    (lit '*', .asterisk),
    (lit '-', .hyphen),
    (lit '+', .plus)]

end Patterns

section Tokenize
variable (engine : Engine Char) (string : List Char)

/-- The first of the cases that finds a match at the offset. -/
def firstMatch (offset : Nat) : List (Regexp Char × TokenType) → Option Token
  | [] => none
  | (pattern, type) :: rest =>
    match engine.findRegexpAt string pattern offset with
    | some (found, length) => some ⟨offset, found, length, type⟩
    | none => firstMatch offset rest

def nextToken (offset : Nat) : Option Token := firstMatch engine string offset patterns

/-- The loop, for `fuel` turns at most. -/
def tokenizeFrom : Nat → Nat → List Token → Option (Option (List Token))
  | 0, _, _ => none
  | fuel + 1, offset, tokens =>
    if offset < string.length then
      match nextToken engine string offset with
      | none => some none
      | some node => tokenizeFrom fuel (offset + node.length) (tokens ++ [node])
    else some (some tokens)

/-- None if the loop is not done yet, and some of none where the source returns nil. -/
def tokenize (fuel : Nat) : Option (Option (List Token)) := tokenizeFrom engine string fuel 0 []

end Tokenize

/-- Tokens that are the string, cut into pieces. -/
structure Lossless (string : List Char) (tokens : List Token) : Prop where
  text : tokens.flatMap Token.string = string
  offsets : ∀ before token after, tokens = before ++ token :: after →
    token.offset = (before.map Token.length).sum
  lengths : ∀ token ∈ tokens, token.length = token.string.length

section Loop
variable {engine : Engine Char} {string : List Char} {offset : Nat}

/-- What a token is that a turn of the loop makes. -/
structure Token.Reads (node : Token) (string : List Char) (offset : Nat)
    (cases : List (Regexp Char × TokenType)) : Prop where
  position : node.offset = offset
  size : node.length = node.string.length
  front : node.string <+: string.drop offset
  pattern : ∃ p ∈ cases, p.2 = node.type ∧ Matches p.1 node.string

theorem firstMatch_reads {cases : List (Regexp Char × TokenType)} {node : Token}
    (found : firstMatch engine string offset cases = some node) :
    node.Reads string offset cases := by
  induction cases with
  | nil => cases found
  | cons p rest ih =>
    unfold firstMatch at found
    split at found
    · rename_i text length here
      cases found
      obtain ⟨long, front, matched⟩ := engine.sound here
      exact ⟨rfl, long.symm, front, p, List.mem_cons_self, rfl, matched⟩
    · obtain ⟨offset, length, front, q, member, type, matched⟩ := ih found
      exact ⟨offset, length, front, q, List.mem_cons_of_mem p member, type, matched⟩

theorem patterns_consume : ∀ p ∈ patterns, p.1.nullable = false := by decide

theorem nextToken_positive {node : Token} (found : nextToken engine string offset = some node) :
    0 < node.length := by
  obtain ⟨-, length, -, p, member, -, matched⟩ := firstMatch_reads found
  rw [length]
  apply List.length_pos_of_ne_nil
  intro none
  rw [none] at matched
  have consumes := patterns_consume p member
  rw [nullable_of_matches matched] at consumes
  cases consumes

theorem take_front {u : List Char} (front : u <+: string.drop offset) :
    string.take (offset + u.length) = string.take offset ++ u := by
  rw [List.take_add, ← List.prefix_iff_eq_take.mp front]

/-- The tokens so far are the part of the string before the offset. -/
structure Covers (string : List Char) (offset : Nat) (tokens : List Token) : Prop where
  lossless : Lossless (string.take offset) tokens
  bound : offset ≤ string.length
  sum : (tokens.map Token.length).sum = offset

theorem covers_start : Covers string 0 [] where
  lossless := by
    refine ⟨rfl, ?_, by simp⟩
    intro before token after shape
    simp at shape
  bound := Nat.zero_le _
  sum := rfl

theorem covers_next {tokens : List Token} {node : Token} (covers : Covers string offset tokens)
    (found : nextToken engine string offset = some node) :
    Covers string (offset + node.length) (tokens ++ [node]) := by
  have reads := firstMatch_reads found
  have bound := reads.front.length_le
  rw [List.length_drop, ← reads.size] at bound
  constructor
  · constructor
    · rw [reads.size, take_front reads.front, List.flatMap_append, covers.lossless.text]
      simp
    · intro before token after shape
      rcases List.eq_nil_or_concat' after with rfl | ⟨init, last, rfl⟩
      · obtain ⟨same, one⟩ := List.append_inj' shape rfl
        cases one
        rw [← same, covers.sum]
        exact reads.position
      · have longer : tokens ++ [node] = (before ++ token :: init) ++ [last] := by
          simpa using shape
        exact covers.lossless.offsets before token init (List.append_inj' longer rfl).1
    · intro token member
      rcases List.mem_append.mp member with earlier | last
      · exact covers.lossless.lengths token earlier
      · rw [List.mem_singleton.mp last]
        exact reads.size
  · have := covers.bound
    omega
  · simp [covers.sum]

theorem tokenizeFrom_ends {tokens : List Token} (covers : Covers string offset tokens) :
    ∃ result, (∀ fuel, string.length - offset < fuel →
        tokenizeFrom engine string fuel offset tokens = some result) ∧
      ∀ all, result = some all → Lossless string all := by
  induction left : string.length - offset using Nat.strongRecOn
    generalizing offset tokens with
  | ind left' ih =>
    by_cases more : offset < string.length
    · cases found : nextToken engine string offset with
      | none =>
        refine ⟨none, ?_, ?_⟩
        · intro fuel enough
          obtain ⟨fuel, rfl⟩ := Nat.exists_eq_add_one_of_ne_zero (by omega : fuel ≠ 0)
          rw [tokenizeFrom, if_pos more, found]
        · intro all none
          cases none
      | some node =>
        have positive := nextToken_positive found
        obtain ⟨result, ends, lossless⟩ := ih _ (by omega) (covers_next covers found) rfl
        refine ⟨result, ?_, lossless⟩
        intro fuel enough
        obtain ⟨fuel, rfl⟩ := Nat.exists_eq_add_one_of_ne_zero (by omega : fuel ≠ 0)
        rw [tokenizeFrom, if_pos more, found]
        exact ends fuel (by omega)
    · refine ⟨some tokens, ?_, ?_⟩
      · intro fuel enough
        obtain ⟨fuel, rfl⟩ := Nat.exists_eq_add_one_of_ne_zero (by omega : fuel ≠ 0)
        rw [tokenizeFrom, if_neg more]
      · intro all same
        cases same
        have whole : string.take offset = string :=
          List.take_of_length_le (Nat.le_of_not_lt more)
        rw [← whole]
        exact covers.lossless

/-- The tokenizer returns for every string, and the tokens it returns are the string. -/
theorem tokenize_lossless (engine : Engine Char) (string : List Char) :
    ∃ fuel result, (∀ more, fuel ≤ more → tokenize engine string more = some result) ∧
      ∀ tokens, result = some tokens → Lossless string tokens := by
  obtain ⟨result, ends, lossless⟩ := @tokenizeFrom_ends engine string 0 [] covers_start
  refine ⟨string.length + 1, result, ?_, lossless⟩
  intro more enough
  exact ends more (by omega)

end Loop

/-- The text "Pbind, // note" and a line end. -/
def snippet : List Char :=
  ['P', 'b', 'i', 'n', 'd', ',', ' ', '/', '/', ' ', 'n', 'o', 't', 'e', '\n']

theorem tokenize_lossless_snippet :
    ∃ fuel result, (∀ more, fuel ≤ more → tokenize backtracking snippet more = some result) ∧
      ∀ tokens, result = some tokens → Lossless snippet tokens :=
  tokenize_lossless backtracking snippet

example : (tokenize backtracking snippet 9).map (·.map (·.map Token.type)) =
    some (some [.className, .comma, .whitespace, .lineComment]) := by decide +kernel

end SCLOrkPD
