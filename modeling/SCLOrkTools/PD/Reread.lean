import SCLOrkTools.PD.Preset

/- The text of a voice in the window is tokenized and read anew before it is played. Cut out of its
   file, it gives the tokens that it was cut from, and so the same voice. -/
namespace SCLOrkPD
open Regexps

section Moving
variable (start : Nat)

def Token.moved (t : Token) : Token := { t with offset := t.offset - start }

def Value.moved (value : Value) : Value := { value with tokens := value.tokens.map (·.moved start) }

theorem moved_keys (entries : List (Sigma fun _ : List Char => Value)) :
    (entries.map fun e => (⟨e.1, e.2.moved start⟩ : Sigma fun _ : List Char => Value)).keys =
      entries.keys := by
  simp [List.keys, Function.comp_def]

def movedParams (params : Params) : Params where
  entries := params.entries.map fun e => ⟨e.1, e.2.moved start⟩
  nodupKeys := by
    rw [List.NodupKeys, moved_keys]
    exact params.nodupKeys

/-- The name, the string, the clock and the quants are those of the voice. -/
def Voice.moved (voice : Voice) : Voice :=
  { voice with
    params := movedParams start voice.params
    tokens := voice.tokens.map (·.moved start) }

def Parser.moved (p : Parser) : Parser :=
  { p with
    voice := p.voice.moved start
    parameterValueTokens := p.parameterValueTokens.map (·.moved start) }

/-- prAttemptRebuildFromEditedString up to the voice, none of which is an error. -/
def rebuildFromEditedString (engine : Engine Char) (string : List Char) (fuel : Nat) :
    Option (Option Voice) :=
  (tokenize engine string fuel).map fun tokens => tokens.bind newFromTokens

/-- The tokens are what the loop reads from an offset on. -/
def ReadsOn (engine : Engine Char) (string : List Char) : Nat → List Token → Prop
  | _, [] => True
  | offset, t :: ts =>
    nextToken engine string offset = some t ∧ ReadsOn engine string (offset + t.length) ts

end Moving

section Parsing
variable {start : Nat} {p : Parser} {t : Token}

theorem movedParams_insert (params : Params) (name : List Char) (value : Value) :
    movedParams start (params.insert name value) =
      (movedParams start params).insert name (value.moved start) := by
  apply AList.ext
  simp only [movedParams, AList.entries_insert, List.map_cons, List.kerase, List.eraseP_map]
  rfl

@[simp] theorem moved_state : (p.moved start).state = p.state := rfl
@[simp] theorem moved_parenDepth : (p.moved start).parenDepth = p.parenDepth := rfl
@[simp] theorem moved_type : (t.moved start).type = t.type := rfl
@[simp] theorem moved_string : (t.moved start).string = t.string := rfl
@[simp] theorem moved_ignored : (t.moved start).ignored = t.ignored := rfl
@[simp] theorem moved_opens : (t.moved start).opens = t.opens := rfl
@[simp] theorem moved_closes : (t.moved start).closes = t.closes := rfl

theorem moved_record : (p.moved start).record = p.record.moved start := by
  simp only [Parser.record, Parser.moved, Voice.moved, movedParams_insert]
  rfl

theorem moved_transition :
    (p.moved start).transition (t.moved start) = (p.transition t).moved start := by
  unfold Parser.transition
  cases state : p.state with
  | parameterValueStatement =>
    simp only [moved_state, state, moved_opens, moved_closes, moved_type, moved_parenDepth]
    by_cases opens : t.opens = true
    · simp only [opens, if_true]
      rfl
    · by_cases closes : t.closes = true
      · by_cases deep : p.parenDepth - 1 > 0
        · simp only [opens, closes, deep, if_true]
          rfl
        · simp only [opens, closes, deep, if_true, if_false]
          exact congrArg (fun q : Parser => q.toState .closePdef) (moved_record (p := { p with
            state := .parameterValueStatement, parenDepth := p.parenDepth - 1 }))
      · by_cases comma : t.type = .comma
        · by_cases level : p.parenDepth = 1
          · simp only [opens, closes, comma, level, if_true]
            exact congrArg (fun q : Parser => q.toState .parameterSpace) moved_record
          · simp only [opens, closes, comma, level, if_true, if_false]
            rfl
        · simp only [opens, closes, comma, if_false]
          rfl
  | start | openPbindef | getName | nameComma | parameterSpace | parameterNameComma
  | parameterValue | closePdef | chaining | playChain | playClockName | playClockNameComma
  | playQuantArg | playQuantColon | playQuantValue | playClose | quantChain | quantValue | done
  | error =>
    simp only [moved_state, state, apply_ite (Parser.moved start)]
    rfl

theorem moved_accumulate :
    (p.moved start).accumulate (t.moved start) = (p.accumulate t).moved start := by
  unfold Parser.accumulate
  rw [moved_state]
  split
  · simp [Parser.moved]
  · rfl

theorem moved_read : (p.moved start).read (t.moved start) = (p.read t).moved start := by
  unfold Parser.read
  have appended : (p.moved start).append (t.moved start) = (p.append t).moved start := rfl
  dsimp only
  rw [appended, moved_ignored]
  split
  · exact moved_accumulate
  · rw [moved_transition, moved_accumulate]

theorem moved_run (ts : List Token) (p : Parser) :
    (ts.map (·.moved start)).foldl Parser.read (p.moved start) =
      (ts.foldl Parser.read p).moved start := by
  induction ts generalizing p with
  | nil => rfl
  | cons t ts ih => rw [List.map_cons, List.foldl_cons, List.foldl_cons, moved_read, ih]

theorem newFromTokens_moved (ts : List Token) :
    newFromTokens (ts.map (·.moved start)) = (newFromTokens ts).map (Voice.moved start) := by
  have read : setFromTokens (ts.map (·.moved start)) = (setFromTokens ts).moved start :=
    moved_run ts (Parser.init ts)
  unfold newFromTokens
  dsimp only
  rw [read, moved_state]
  split <;> rfl

end Parsing

section Tokens
variable {engine : Engine Char} {string text rest : List Char} {start offset : Nat}

theorem readsOn_append {ts us : List Token} :
    ReadsOn engine string offset (ts ++ us) ↔ ReadsOn engine string offset ts ∧
      ReadsOn engine string (offset + (ts.map Token.length).sum) us := by
  induction ts generalizing offset with
  | nil => simp [ReadsOn]
  | cons t ts ih => simp [ReadsOn, ih, and_assoc, Nat.add_assoc]

theorem tokenizeFrom_reads {fuel : Nat} {tokens all : List Token}
    (read : tokenizeFrom engine string fuel offset tokens = some (some all)) :
    ∃ ts, all = tokens ++ ts ∧ ReadsOn engine string offset ts ∧
      string.length ≤ offset + (ts.map Token.length).sum := by
  induction fuel generalizing offset tokens with
  | zero => cases read
  | succ fuel ih =>
    rw [tokenizeFrom] at read
    split at read
    · split at read
      · cases read
      · rename_i node found
        obtain ⟨ts, rfl, reads, whole⟩ := ih read
        refine ⟨node :: ts, by simp, ⟨found, reads⟩, ?_⟩
        rwa [List.map_cons, List.sum_cons, ← Nat.add_assoc]
    · cases read
      exact ⟨[], by simp, trivial, by simp; omega⟩

theorem reads_tokenizeFrom {fuel : Nat} {ts : List Token} (tokens : List Token)
    (reads : ReadsOn engine string offset ts)
    (whole : string.length ≤ offset + (ts.map Token.length).sum) (enough : ts.length < fuel) :
    tokenizeFrom engine string fuel offset tokens = some (some (tokens ++ ts)) := by
  induction ts generalizing fuel offset tokens with
  | nil =>
    obtain ⟨fuel, rfl⟩ := Nat.exists_eq_add_one_of_ne_zero (by omega : fuel ≠ 0)
    simp only [List.map_nil, List.sum_nil] at whole
    rw [tokenizeFrom, if_neg (by omega), List.append_nil]
  | cons t ts ih =>
    obtain ⟨found, reads⟩ := reads
    obtain ⟨fuel, rfl⟩ := Nat.exists_eq_add_one_of_ne_zero (by omega : fuel ≠ 0)
    have positive := nextToken_positive found
    have token := firstMatch_reads found
    have bound := token.front.length_le
    rw [List.length_drop, ← token.size] at bound
    simp only [List.map_cons, List.sum_cons, List.length_cons] at whole enough
    rw [tokenizeFrom, if_pos (by omega), found]
    simpa using ih (tokens ++ [t]) reads (by omega) (by omega : ts.length < fuel)

theorem tokenize_text {fuel : Nat} {tokens : List Token}
    (read : tokenize engine string fuel = some (some tokens)) : Lossless string tokens := by
  obtain ⟨ts, same, reads, whole⟩ := tokenizeFrom_reads read
  rw [List.nil_append] at same
  subst same
  obtain ⟨result, ends, lossless⟩ := @tokenizeFrom_ends engine string 0 [] covers_start
  have enough : tokens.length < string.length + tokens.length + 1 := by omega
  have again := reads_tokenizeFrom [] reads whole enough
  rw [List.nil_append] at again
  exact lossless tokens (Option.some.inj ((ends _ (by omega)).symm.trans again))

/-- What the loop reads inside a part of the text, it reads in that part alone. -/
theorem firstMatch_cut {k : Nat} {cases : List (Regexp Char × TokenType)} {t : Token}
    (alone : engine.Local) (part : string.drop start = text ++ rest)
    (found : firstMatch engine string (start + k) cases = some t)
    (inside : k + t.length ≤ text.length) :
    firstMatch engine text k cases = some (t.moved start) := by
  have ahead : string.drop (start + k) = text.drop k ++ rest := by
    rw [← List.drop_drop, part, List.drop_append_of_le_length (by omega)]
  induction cases with
  | nil => cases found
  | cons case cases ih =>
    obtain ⟨pattern, type⟩ := case
    rw [firstMatch, alone.before, ahead] at found
    rw [firstMatch, alone.before]
    split at found
    · rename_i u n here
      cases found
      have short : n ≤ (text.drop k).length := by
        rw [List.length_drop]
        exact Nat.le_sub_of_add_le' inside
      rw [alone.behind here short]
      simp [Token.moved]
    · rename_i none
      rw [alone.nothing none]
      exact ih found

theorem readsOn_cut {k : Nat} {ts : List Token} (alone : engine.Local)
    (part : string.drop start = text ++ rest) (reads : ReadsOn engine string (start + k) ts)
    (inside : k + (ts.map Token.length).sum ≤ text.length) :
    ReadsOn engine text k (ts.map (·.moved start)) := by
  induction ts generalizing k with
  | nil => trivial
  | cons t ts ih =>
    simp only [List.map_cons, List.sum_cons] at inside
    refine ⟨firstMatch_cut alone part reads.1 (by omega), ih ?_ ?_⟩
    · have later := reads.2
      rwa [Nat.add_assoc] at later
    · change k + t.length + _ ≤ _
      omega

theorem concatenated_length {ts : List Token}
    (lengths : ∀ t ∈ ts, t.length = t.string.length) :
    (concatenated ts).length = (ts.map Token.length).sum := by
  rw [concatenated, List.length_flatMap]
  exact congrArg List.sum (List.map_congr_left fun t mem => (lengths t mem).symm)

theorem tokenize_part {fuel : Nat} {before part after : List Token} (alone : engine.Local)
    (read : tokenize engine string fuel = some (some (before ++ part ++ after))) :
    ∃ start, ∀ more, part.length < more → tokenize engine (concatenated part) more =
      some (some (part.map (·.moved start))) := by
  have lossless := tokenize_text read
  obtain ⟨ts, same, reads, -⟩ := tokenizeFrom_reads read
  rw [List.nil_append] at same
  rw [← same, List.append_assoc, readsOn_append] at reads
  have sizes : ∀ t ∈ before ++ part, t.length = t.string.length :=
    fun t mem => lossless.lengths t (List.mem_append_left after mem)
  have front := concatenated_length fun t mem => sizes t (List.mem_append_left part mem)
  have size := concatenated_length fun t mem => sizes t (List.mem_append_right before mem)
  have cut : string.drop (before.map Token.length).sum =
      concatenated part ++ concatenated after := by
    have text : string = concatenated before ++ (concatenated part ++ concatenated after) := by
      rw [← lossless.text]
      simp [concatenated]
    rw [text, ← front, List.drop_left]
  refine ⟨(before.map Token.length).sum, fun more enough => ?_⟩
  have inner := readsOn_cut (k := 0) alone cut (by
    have here := (readsOn_append.mp reads.2).1
    rwa [Nat.zero_add] at here) (by omega)
  refine reads_tokenizeFrom [] inner ?_ (by rwa [List.length_map])
  rw [List.map_map]
  exact (Nat.le_of_eq size).trans (Nat.le_add_left _ _)

end Tokens

/-- Playing a voice whose text is as it was in its file reads the same voice again. -/
theorem voice_reread {engine : Engine Char} (alone : engine.Local) {fileString : List Char}
    {fuel : Nat} {preset : Preset}
    (read : newFromFile engine fileString fuel = some (some preset)) {voice : Voice}
    (mem : voice ∈ preset.voices) :
    ∃ start enough, ∀ more, enough ≤ more →
      rebuildFromEditedString engine voice.string more = some (some (voice.moved start)) := by
  obtain ⟨result, tokenized, from_tokens⟩ := Option.map_eq_some_iff.mp read
  obtain ⟨tokens, rfl, presets⟩ := Option.bind_eq_some_iff.mp from_tokens
  obtain ⟨stretches, rest, cuts, accepted, -⟩ := presetFrom_iff.mp presets
  have among : some voice ∈ stretches.map fun c => newFromTokens c.statement :=
    accepted ▸ List.mem_map.mpr ⟨voice, mem, rfl⟩
  obtain ⟨c, inside, accepts⟩ := List.mem_map.mp among
  obtain ⟨earlier, later, rfl⟩ := List.append_of_mem inside
  have shape : tokens = (earlier.flatMap Stretch.tokens ++ c.gap) ++ c.statement ++
      (later.flatMap Stretch.tokens ++ rest) := by
    rw [cuts.whole]
    simp [Stretch.tokens]
  subst shape
  obtain ⟨start, again⟩ := tokenize_part alone tokenized
  have text : voice.string = concatenated c.statement := by
    obtain ⟨-, rfl⟩ := newFromTokens_some.mp accepts
    exact (setFromTokens_text c.statement).1
  refine ⟨start, c.statement.length + 1, fun more enough => ?_⟩
  rw [rebuildFromEditedString, text, again more enough, Option.map_some, Option.bind_some,
    newFromTokens_moved, accepts, Option.map_some]

/-- A comment and a voice with one parameter, and its text. -/
def demoVoice : List Char := "Pbindef(\\a, \\b, 1);".toList

def demoFile : List Char := "// Most recent year sampled: 1987\n".toList ++ demoVoice

def demoPreset : Preset :=
  ((newFromFile backtracking demoFile 20).get (by decide +kernel)).get (by decide +kernel)

theorem voice_reread_demo : ∃ voice ∈ demoPreset.voices, voice.string = demoVoice ∧
    ∃ start enough, ∀ more, enough ≤ more →
      rebuildFromEditedString backtracking demoVoice more = some (some (voice.moved start)) := by
  have read : newFromFile backtracking demoFile 20 = some (some demoPreset) := by
    rw [demoPreset, Option.some_get, Option.some_get]
  have texts : demoPreset.voices.map Voice.string = [demoVoice] := by decide +kernel
  obtain ⟨voice, mem, text⟩ := List.mem_map.mp (texts ▸ List.mem_singleton_self demoVoice)
  exact ⟨voice, mem, text, text ▸ voice_reread backtracking_local read mem⟩

end SCLOrkPD
