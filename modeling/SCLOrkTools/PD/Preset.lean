import Mathlib.Data.List.Induction
import SCLOrkTools.Library.GuardedRun
import SCLOrkTools.PD.Voice

/- A preset is read from a file. The statements that define its voices are cut out of the tokens,
   and everything else in the file is passed over but for the year of the samples. -/
namespace SCLOrkPD
open GuardedRun Regexps

structure Preset where
  year : Option Int
  voices : List Voice

section Reading

def isPbindef (t : Token) : Bool :=
  decide (t.type = .className ∧ t.string = ['P', 'b', 'i', 'n', 'd', 'e', 'f'])

def blank (c : Char) : Bool := decide (c ∈ [' ', '\t', '\n', '\x0b', '\x0c', '\r'])

def sampledYear (t : Token) : Option Int :=
  if t.type = .lineComment ∧ ("// Most recent year sampled:".toList <+: t.string ∨
      "// Most recent voice sampled:".toList <+: t.string) then
    (t.string.splitOn ' ')[5]?.map fun word => asInteger (word.dropWhile blank)
  else none

structure PresetReader where
  openVoice : Option (List Token)
  voices : List Voice
  year : Option Int

/-- One turn of the loop. None where newFromFile returns nil. -/
def PresetReader.read (r : PresetReader) (token : Token) : Option PresetReader :=
  match r.openVoice with
  | some openVoice =>
    if token.type = .semiColon then
      (newFromTokens (openVoice ++ [token])).map fun newVoice =>
        { r with openVoice := none, voices := r.voices ++ [newVoice] }
    else some { r with openVoice := some (openVoice ++ [token]) }
  | none => some
    { r with
      openVoice := if isPbindef token then some [token] else none
      year := (sampledYear token).or r.year }

/-- A Pbindef that does not end is an error. -/
def presetFrom (tokens : List Token) : Option Preset :=
  (run PresetReader.read ⟨none, [], none⟩ tokens).bind fun r =>
    match r.openVoice with
    | none => some ⟨r.year, r.voices⟩
    | some _ => none

/-- None if the tokenizer is not done yet, and some of none where the source returns nil. -/
def newFromFile (engine : Engine Char) (fileString : List Char) (fuel : Nat) :
    Option (Option Preset) :=
  (tokenize engine fileString fuel).map fun tokens => tokens.bind presetFrom

end Reading

section Cutting

structure Stretch where
  gap : List Token
  statement : List Token

def Stretch.tokens (c : Stretch) : List Token := c.gap ++ c.statement

structure Stretch.Cut (c : Stretch) : Prop where
  passed : ∀ t ∈ c.gap, isPbindef t = false
  statement : ∃ first body last, c.statement = first :: body ++ [last] ∧ isPbindef first = true ∧
    (∀ t ∈ body, t.type ≠ .semiColon) ∧ last.type = .semiColon

structure Cuts (tokens : List Token) (stretches : List Stretch) (rest : List Token) : Prop where
  whole : tokens = stretches.flatMap Stretch.tokens ++ rest
  cut : ∀ c ∈ stretches, c.Cut
  passed : ∀ t ∈ rest, isPbindef t = false

def lastYear (tokens : List Token) : Option Int := (tokens.filterMap sampledYear).getLast?

def passedOver (stretches : List Stretch) (rest : List Token) : List Token :=
  stretches.flatMap Stretch.gap ++ rest

end Cutting

section Turns
variable {r next : PresetReader} {t : Token}

theorem lastYear_append (ts us : List Token) :
    lastYear (ts ++ us) = (lastYear us).or (lastYear ts) := by
  unfold lastYear
  rw [List.filterMap_append, List.getLast?_append]

theorem lastYear_cons (t : Token) (ts : List Token) :
    lastYear (t :: ts) = (lastYear ts).or (sampledYear t) := by
  rw [← List.singleton_append, lastYear_append]
  cases year : sampledYear t <;> simp [lastYear, year]

theorem pbindef_type (opens : isPbindef t = true) : t.type = .className :=
  (of_decide_eq_true opens).1

theorem read_inside {openVoice : List Token} (inside : r.openVoice = some openVoice) :
    r.read t =
      if t.type = .semiColon then
        (newFromTokens (openVoice ++ [t])).map fun newVoice =>
          { r with openVoice := none, voices := r.voices ++ [newVoice] }
      else some { r with openVoice := some (openVoice ++ [t]) } := by
  rw [PresetReader.read, inside]

theorem read_outside (outside : r.openVoice = none) :
    r.read t = some
      { r with
        openVoice := if isPbindef t then some [t] else none
        year := (sampledYear t).or r.year } := by
  rw [PresetReader.read, outside]

theorem run_passed {gap : List Token} (outside : r.openVoice = none)
    (passed : ∀ t ∈ gap, isPbindef t = false) :
    run PresetReader.read r gap = some { r with year := (lastYear gap).or r.year } := by
  induction gap generalizing r with
  | nil => rfl
  | cons t gap ih =>
    obtain ⟨plain, passed⟩ := List.forall_mem_cons.mp passed
    have turn := read_outside (t := t) outside
    rw [if_neg (by simp [plain])] at turn
    refine run_cons.mpr ⟨_, turn, ?_⟩
    rw [ih rfl passed, lastYear_cons, Option.or_assoc, outside]

theorem run_inside {body openVoice : List Token} (inside : r.openVoice = some openVoice)
    (goes_on : ∀ t ∈ body, t.type ≠ .semiColon) :
    run PresetReader.read r body = some { r with openVoice := some (openVoice ++ body) } := by
  induction body generalizing r openVoice with
  | nil => rw [List.append_nil, ← inside]; rfl
  | cons t body ih =>
    obtain ⟨plain, goes_on⟩ := List.forall_mem_cons.mp goes_on
    have turn := read_inside (t := t) inside
    rw [if_neg plain] at turn
    refine run_cons.mpr ⟨_, turn, ?_⟩
    rw [ih rfl goes_on, List.append_assoc]
    rfl

theorem run_statement {first last : Token} {body : List Token} (outside : r.openVoice = none)
    (opens : isPbindef first = true) (goes_on : ∀ t ∈ body, t.type ≠ .semiColon)
    (ends : last.type = .semiColon) :
    run PresetReader.read r (first :: body ++ [last]) =
      (newFromTokens (first :: body ++ [last])).map fun newVoice =>
        { r with voices := r.voices ++ [newVoice] } := by
  have plain : sampledYear first = none := by
    rw [sampledYear, if_neg]
    rintro ⟨comment, -⟩
    cases (pbindef_type opens).symm.trans comment
  have starts := read_outside (t := first) outside
  rw [if_pos opens, plain, Option.none_or] at starts
  have collects := run_inside (r := { r with openVoice := some [first] }) rfl goes_on
  have closes := read_inside (r := { r with openVoice := some (first :: body) }) (t := last) rfl
  rw [if_pos ends] at closes
  rw [outside]
  ext next
  rw [run_snoc]
  constructor
  · rintro ⟨mid, ran, closed⟩
    obtain ⟨_, started, ran⟩ := run_cons.mp ran
    cases starts.symm.trans started
    cases collects.symm.trans ran
    exact closes ▸ closed
  · intro closed
    exact ⟨_, run_cons.mpr ⟨_, starts, collects⟩, closes.trans closed⟩

theorem run_stretch {c : Stretch} (outside : r.openVoice = none) (cut : c.Cut) :
    run PresetReader.read r c.tokens = (newFromTokens c.statement).map fun newVoice =>
      { r with voices := r.voices ++ [newVoice], year := (lastYear c.gap).or r.year } := by
  obtain ⟨first, body, last, shape, opens, goes_on, ends⟩ := cut.statement
  have gap := run_passed outside cut.passed
  have statement := run_statement (r := { r with year := (lastYear c.gap).or r.year }) outside opens
    goes_on ends
  rw [← shape] at statement
  ext next
  rw [Stretch.tokens, run_append]
  constructor
  · rintro ⟨mid, ran, read⟩
    cases gap.symm.trans ran
    exact statement ▸ read
  · intro read
    exact ⟨_, gap, statement.trans read⟩

theorem run_stretches {stretches : List Stretch} (outside : r.openVoice = none)
    (cut : ∀ c ∈ stretches, c.Cut) :
    run PresetReader.read r (stretches.flatMap Stretch.tokens) = some next ↔
      ∃ voices, stretches.map (fun c => newFromTokens c.statement) = voices.map some ∧
        next = { r with
          voices := r.voices ++ voices
          year := (lastYear (stretches.flatMap Stretch.gap)).or r.year } := by
  induction stretches generalizing r with
  | nil =>
    constructor
    · rintro ⟨⟩
      exact ⟨[], rfl, by simp [lastYear]⟩
    · rintro ⟨voices, none, rfl⟩
      cases voices with
      | nil => simp [run, lastYear]
      | cons => cases none
  | cons c stretches ih =>
    obtain ⟨here, cut⟩ := List.forall_mem_cons.mp cut
    have stretch := run_stretch outside here
    rw [List.flatMap_cons, run_append]
    constructor
    · rintro ⟨mid, ran, rest⟩
      obtain ⟨voice, accepted, rfl⟩ := Option.map_eq_some_iff.mp (stretch.symm.trans ran)
      obtain ⟨voices, others, rfl⟩ := (ih (by exact outside) cut).mp rest
      refine ⟨voice :: voices, by simp [accepted, others], ?_⟩
      simp [lastYear_append, Option.or_assoc]
    · rintro ⟨voices, accepted, rfl⟩
      cases voices with
      | nil => cases accepted
      | cons voice voices =>
        obtain ⟨accepted, others⟩ := List.cons.inj accepted
        refine ⟨_, stretch.trans (congrArg _ accepted), (ih (by exact outside) cut).mpr
          ⟨voices, others, ?_⟩⟩
        simp [lastYear_append, Option.or_assoc]

end Turns

section Cutting
variable {tokens rest : List Token} {stretches : List Stretch}

theorem cuts_or_open (tokens : List Token) : ∃ stretches rest,
    Cuts tokens stretches rest ∨ ∃ gap first body, Cuts (stretches.flatMap Stretch.tokens ++ gap)
      stretches gap ∧ rest = gap ++ first :: body ∧ isPbindef first = true ∧
        (∀ t ∈ body, t.type ≠ .semiColon) ∧ tokens = stretches.flatMap Stretch.tokens ++ rest := by
  induction tokens using List.reverseRecOn with
  | nil => exact ⟨[], [], .inl ⟨rfl, nofun, nofun⟩⟩
  | append_singleton tokens t ih =>
    obtain ⟨stretches, rest, cuts | ⟨gap, first, body, cuts, rfl, opens, goes_on, shape⟩⟩ := ih
    · cases opens : isPbindef t with
      | true =>
        refine ⟨stretches, rest ++ [t], .inr ⟨rest, t, [], ?_, rfl, opens, nofun, ?_⟩⟩
        · exact ⟨rfl, cuts.cut, cuts.passed⟩
        · rw [cuts.whole, List.append_assoc]
      | false =>
        refine ⟨stretches, rest ++ [t], .inl ⟨?_, cuts.cut, ?_⟩⟩
        · rw [cuts.whole, List.append_assoc]
        · intro u mem
          rcases List.mem_append.mp mem with earlier | last
          · exact cuts.passed u earlier
          · rw [List.mem_singleton.mp last, opens]
    · by_cases ends : t.type = .semiColon
      · refine ⟨stretches ++ [⟨gap, first :: body ++ [t]⟩], [], .inl ⟨?_, ?_, nofun⟩⟩
        · simp [shape, Stretch.tokens]
        · intro c mem
          rcases List.mem_append.mp mem with earlier | last
          · exact cuts.cut c earlier
          · rw [List.mem_singleton.mp last]
            exact ⟨cuts.passed, first, body, t, rfl, opens, goes_on, ends⟩
      · refine ⟨stretches, gap ++ first :: body ++ [t], .inr ⟨gap, first, body ++ [t], cuts, ?_,
          opens, ?_, ?_⟩⟩
        · simp
        · intro u mem
          rcases List.mem_append.mp mem with earlier | last
          · exact goes_on u earlier
          · exact List.mem_singleton.mp last ▸ ends
        · rw [shape, List.append_assoc]

/-- A preset is the voices of the statements in a file, and the year that it tells last outside
    them. A file with a statement that is no voice, or that does not end, is none. -/
theorem presetFrom_iff {preset : Preset} : presetFrom tokens = some preset ↔
    ∃ stretches rest, Cuts tokens stretches rest ∧
      stretches.map (fun c => newFromTokens c.statement) = preset.voices.map some ∧
      preset.year = lastYear (passedOver stretches rest) := by
  constructor
  · intro read
    obtain ⟨r, ran, closed⟩ := Option.bind_eq_some_iff.mp read
    obtain ⟨stretches, rest, cuts | ⟨gap, first, body, cuts, rfl, opens, goes_on, shape⟩⟩ :=
      cuts_or_open tokens
    · rw [cuts.whole, run_append] at ran
      obtain ⟨mid, front, back⟩ := ran
      obtain ⟨voices, accepted, rfl⟩ := (run_stretches rfl cuts.cut).mp front
      cases (run_passed rfl cuts.passed).symm.trans back
      cases closed
      exact ⟨stretches, rest, cuts, accepted, by simp [passedOver, lastYear_append]⟩
    · rw [shape, run_append] at ran
      obtain ⟨mid, front, back⟩ := ran
      obtain ⟨voices, -, rfl⟩ := (run_stretches rfl cuts.cut).mp front
      obtain ⟨_, passed, back⟩ := run_append.mp back
      cases (run_passed rfl cuts.passed).symm.trans passed
      obtain ⟨_, starts, back⟩ := run_cons.mp back
      rw [read_outside rfl, if_pos opens] at starts
      cases starts
      cases (run_inside rfl goes_on).symm.trans back
      cases closed
  · rintro ⟨stretches, rest, cuts, accepted, year⟩
    have front := (run_stretches (r := ⟨none, [], none⟩) rfl cuts.cut).mpr ⟨_, accepted, rfl⟩
    have ran := run_append.mpr ⟨_, front, run_passed rfl cuts.passed⟩
    rw [← cuts.whole] at ran
    refine Option.bind_eq_some_iff.mpr ⟨_, ran, ?_⟩
    cases preset
    simp only [passedOver, lastYear_append] at year
    simp [year]

theorem voices_text {preset : Preset}
    (accepted : stretches.map (fun c => newFromTokens c.statement) = preset.voices.map some) :
    preset.voices.map Voice.string = stretches.map fun c => concatenated c.statement := by
  have each {c : Stretch} {voice : Voice} (accepted : newFromTokens c.statement = some voice) :
      voice.string = concatenated c.statement := by
    obtain ⟨-, rfl⟩ := newFromTokens_some.mp accepted
    exact (setFromTokens_text c.statement).1
  generalize preset.voices = voices at accepted ⊢
  induction stretches generalizing voices with
  | nil =>
    cases voices with
    | nil => rfl
    | cons => cases accepted
  | cons c stretches ih =>
    cases voices with
    | nil => cases accepted
    | cons voice voices =>
      obtain ⟨here, others⟩ := List.cons.inj accepted
      rw [List.map_cons, List.map_cons, each here, ih voices others]

end Cutting

/-- A file is read to its end, whatever is in it. It makes a preset exactly if each statement in it
    makes a voice, and then it is these voices and what stands between them. -/
theorem newFromFile_iff (engine : Engine Char) (fileString : List Char) :
    ∃ fuel result, (∀ more, fuel ≤ more → newFromFile engine fileString more = some result) ∧
      ∀ preset, result = some preset ↔ ∃ tokens stretches rest,
        tokenize engine fileString fuel = some (some tokens) ∧ Cuts tokens stretches rest ∧
        stretches.map (fun c => newFromTokens c.statement) = preset.voices.map some ∧
        preset.voices.map Voice.string = stretches.map (fun c => concatenated c.statement) ∧
        preset.year = lastYear (passedOver stretches rest) ∧
        fileString = stretches.flatMap (fun c => concatenated c.gap ++ concatenated c.statement) ++
          concatenated rest := by
  obtain ⟨result, ends, lossless⟩ := @tokenizeFrom_ends engine fileString 0 [] covers_start
  have whole := ends (fileString.length + 1) (by omega)
  refine ⟨fileString.length + 1, result.bind presetFrom, ?_, fun preset => ?_⟩
  · intro more enough
    rw [newFromFile, tokenize, ends more (by omega), Option.map_some]
  · constructor
    · intro read
      obtain ⟨tokens, rfl, read⟩ := Option.bind_eq_some_iff.mp read
      obtain ⟨stretches, rest, cuts, accepted, year⟩ := presetFrom_iff.mp read
      refine ⟨tokens, stretches, rest, whole, cuts, accepted, voices_text accepted, year, ?_⟩
      rw [← (lossless tokens rfl).text, cuts.whole, List.flatMap_append, List.flatMap_assoc]
      simp [Stretch.tokens, concatenated]
    · rintro ⟨tokens, stretches, rest, read, cuts, accepted, -, year, -⟩
      cases whole.symm.trans read
      exact presetFrom_iff.mpr ⟨stretches, rest, cuts, accepted, year⟩

end SCLOrkPD
