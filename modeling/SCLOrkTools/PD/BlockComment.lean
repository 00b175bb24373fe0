import Mathlib.Algebra.Group.Nat.Even
import SCLOrkTools.PD.Tokenizer

/- Comments between a slash with a star and a star with a slash. The pattern takes each star of
   the body together with the character behind it. -/
namespace SCLOrkPD
open Regexps Regexp

/-- What may stand in the body, by one turn of its star. -/
def bodyTurn : Regexp Char := alt (noneOf ['*']) (seq (lit '*') (noneOf ['/']))

/-- The rest of the pattern behind the opening. -/
def bodyAndClose : Regexp Char := concat [star bodyTurn, lit '*', lit '/']

theorem matches_lit {c : Char} {t : List Char} : Matches (lit c) t ↔ t = [c] := by
  rw [lit, matches_chars]
  constructor
  · rintro ⟨d, rfl, same⟩
    rw [of_decide_eq_true same]
  · rintro rfl
    exact ⟨c, rfl, decide_eq_true rfl⟩

theorem matches_noneOf {cs t : List Char} : Matches (noneOf cs) t ↔ ∃ c, t = [c] ∧ c ∉ cs := by
  simp [noneOf, matches_chars]

theorem matches_bodyTurn {t : List Char} :
    Matches bodyTurn t ↔
      (∃ c, t = [c] ∧ c ≠ '*') ∨ ∃ c, t = ['*', c] ∧ c ≠ '/' := by
  rw [bodyTurn, matches_alt, matches_noneOf, matches_seq]
  constructor
  · rintro (⟨c, rfl, other⟩ | ⟨u, v, rfl, first, second⟩)
    · exact Or.inl ⟨c, rfl, by simpa using other⟩
    · obtain ⟨c, rfl, other⟩ := matches_noneOf.mp second
      rw [matches_lit.mp first]
      exact Or.inr ⟨c, rfl, by simpa using other⟩
  · rintro (⟨c, rfl, other⟩ | ⟨c, rfl, other⟩)
    · exact Or.inl ⟨c, rfl, by simpa using other⟩
    · exact Or.inr ⟨['*'], [c], rfl, matches_lit.mpr rfl,
        matches_noneOf.mpr ⟨c, rfl, by simpa using other⟩⟩

theorem matches_close {t : List Char} :
    Matches (concat [lit '*', lit '/']) t ↔ t = ['*', '/'] := by
  change Matches (seq (lit '*') (lit '/')) t ↔ _
  rw [matches_seq]
  constructor
  · rintro ⟨u, v, rfl, first, second⟩
    rw [matches_lit.mp first, matches_lit.mp second]
    rfl
  · rintro rfl
    exact ⟨['*'], ['/'], rfl, matches_lit.mpr rfl, matches_lit.mpr rfl⟩

theorem matches_bodyAndClose {t : List Char} :
    Matches bodyAndClose t ↔ t = ['*', '/'] ∨
      (∃ c t', t = c :: t' ∧ c ≠ '*' ∧ Matches bodyAndClose t') ∨
        ∃ c t', t = '*' :: c :: t' ∧ c ≠ '/' ∧ Matches bodyAndClose t' := by
  have parts {t : List Char} : Matches bodyAndClose t ↔
      ∃ u v, t = u ++ v ∧ Matches (star bodyTurn) u ∧ v = ['*', '/'] := by
    change Matches (seq (star bodyTurn) (concat [lit '*', lit '/'])) t ↔ _
    simp only [matches_seq, matches_close]
  constructor
  · intro matched
    obtain ⟨u, v, rfl, body, close⟩ := parts.mp matched
    rcases matches_star.mp body with rfl | ⟨first, rest, rfl, -, turn, more⟩
    · exact Or.inl close
    · have after : Matches bodyAndClose (rest ++ v) := parts.mpr ⟨rest, v, rfl, more, close⟩
      rcases matches_bodyTurn.mp turn with ⟨c, rfl, other⟩ | ⟨c, rfl, other⟩
      · exact Or.inr (Or.inl ⟨c, rest ++ v, rfl, other, after⟩)
      · exact Or.inr (Or.inr ⟨c, rest ++ v, rfl, other, after⟩)
  · rintro (rfl | ⟨c, t', rfl, other, after⟩ | ⟨c, t', rfl, other, after⟩)
    · exact parts.mpr ⟨[], _, rfl, .stop, rfl⟩
    · obtain ⟨u, v, rfl, body, close⟩ := parts.mp after
      exact parts.mpr ⟨c :: u, v, rfl,
        .turn (matches_bodyTurn.mpr (Or.inl ⟨c, rfl, other⟩)) body, close⟩
    · obtain ⟨u, v, rfl, body, close⟩ := parts.mp after
      exact parts.mpr ⟨'*' :: c :: u, v, rfl,
        .turn (matches_bodyTurn.mpr (Or.inr ⟨c, rfl, other⟩)) body, close⟩

/-- The length of what is read up to a close. After a star that is not the second character of
    a turn, `pending` is true. -/
def closeFrom : Bool → List Char → Option Nat
  | _, [] => none
  | false, c :: l => (closeFrom (decide (c = '*')) l).map (· + 1)
  | true, c :: l => if c = '/' then some 1 else (closeFrom false l).map (· + 1)

theorem closeFrom_plain {c : Char} (other : c ≠ '*') (l : List Char) :
    closeFrom false (c :: l) = (closeFrom false l).map (· + 1) := by
  simp [closeFrom, other]

theorem closeFrom_pair {c : Char} (other : c ≠ '/') (l : List Char) :
    closeFrom false ('*' :: c :: l) = (closeFrom false l).map (· + 2) := by
  simp [closeFrom, other, Function.comp_def]

theorem closeFrom_close (l : List Char) : closeFrom false ('*' :: '/' :: l) = some 2 := by
  simp [closeFrom]

theorem not_starts_nil {n : Nat} : ¬ bodyAndClose.StartsWith [] n := by
  rintro ⟨-, matched⟩
  rw [List.take_nil] at matched
  rcases matches_bodyAndClose.mp matched with none | ⟨c, t, none, -⟩ | ⟨c, t, none, -⟩
  · cases none
  · cases none
  · cases none

theorem starts_plain {c : Char} (other : c ≠ '*') {l : List Char} {n : Nat} :
    bodyAndClose.StartsWith (c :: l) n ↔ ∃ m, bodyAndClose.StartsWith l m ∧ m + 1 = n := by
  constructor
  · rintro ⟨bound, matched⟩
    cases n with
    | zero => exact absurd ⟨Nat.zero_le 0, matched⟩ not_starts_nil
    | succ m =>
      rw [List.take_succ_cons] at matched
      refine ⟨m, ⟨by simpa using bound, ?_⟩, rfl⟩
      rcases matches_bodyAndClose.mp matched with close | ⟨d, t, shape, -, after⟩ | ⟨d, t, shape, -⟩
      · exact absurd (List.cons.inj close).1 other
      · rw [(List.cons.inj shape).2]
        exact after
      · exact absurd (List.cons.inj shape).1 other
  · rintro ⟨m, ⟨bound, matched⟩, rfl⟩
    refine ⟨by simpa using bound, ?_⟩
    exact matches_bodyAndClose.mpr (Or.inr (Or.inl ⟨c, _, List.take_succ_cons, other, matched⟩))

theorem not_starts_star {n : Nat} : ¬ bodyAndClose.StartsWith ['*'] n := by
  rintro ⟨bound, matched⟩
  cases n with
  | zero => exact not_starts_nil ⟨Nat.zero_le 0, matched⟩
  | succ n =>
    rw [List.take_succ_cons, List.take_nil] at matched
    rcases matches_bodyAndClose.mp matched with close | ⟨c, t, shape, other, -⟩ | ⟨c, t, shape, -⟩
    · cases close
    · exact other (List.cons.inj shape).1.symm
    · cases shape

theorem starts_star {c : Char} {l : List Char} {n : Nat} :
    bodyAndClose.StartsWith ('*' :: c :: l) n ↔
      c = '/' ∧ n = 2 ∨ c ≠ '/' ∧ ∃ m, bodyAndClose.StartsWith l m ∧ m + 2 = n := by
  constructor
  · rintro ⟨bound, matched⟩
    match n with
    | 0 => exact absurd ⟨Nat.zero_le 0, matched⟩ not_starts_nil
    | 1 => exact absurd ⟨by simp, matched⟩ (@not_starts_star 1)
    | m + 2 =>
      rw [List.take_succ_cons, List.take_succ_cons] at matched
      rcases matches_bodyAndClose.mp matched with close | ⟨d, t, shape, other, -⟩ |
        ⟨d, t, shape, other, after⟩
      · obtain ⟨same, empty⟩ := List.cons.inj (List.cons.inj close).2
        have none : m = 0 := by
          have := congrArg List.length empty
          rw [List.length_take_of_le (by simpa using bound)] at this
          exact this
        exact Or.inl ⟨same, by rw [none]⟩
      · exact absurd (List.cons.inj shape).1.symm other
      · obtain ⟨same, rest⟩ := List.cons.inj (List.cons.inj shape).2
        rw [same]
        exact Or.inr ⟨other, m, ⟨by simpa using bound, rest ▸ after⟩, rfl⟩
  · rintro (⟨rfl, rfl⟩ | ⟨other, m, ⟨bound, matched⟩, rfl⟩)
    · exact ⟨by simp, matches_bodyAndClose.mpr (Or.inl rfl)⟩
    · refine ⟨by simpa using bound, ?_⟩
      exact matches_bodyAndClose.mpr (Or.inr (Or.inr ⟨c, _, rfl, other, matched⟩))

theorem startsWith_iff (l : List Char) (n : Nat) :
    bodyAndClose.StartsWith l n ↔ closeFrom false l = some n := by
  induction size : l.length using Nat.strongRecOn generalizing l n with
  | ind size' ih =>
    match l with
    | [] => simp [not_starts_nil, closeFrom]
    | c :: l =>
      rw [List.length_cons] at size
      by_cases star : c = '*'
      · subst star
        match l with
        | [] => simp [not_starts_star, closeFrom]
        | c :: l =>
          rw [List.length_cons] at size
          rw [starts_star]
          by_cases slash : c = '/'
          · subst slash
            simp [closeFrom_close, eq_comm]
          · rw [closeFrom_pair slash, Option.map_eq_some_iff]
            simp only [slash, false_and, ne_eq, not_false_eq_true, true_and, false_or,
              ih l.length (by omega) l _ rfl]
      · rw [starts_plain star, closeFrom_plain star, Option.map_eq_some_iff]
        simp only [ih l.length (by omega) l _ rfl]

def stars (l : List Char) : Nat := (l.reverse.takeWhile fun c => decide (c = '*')).length

theorem stars_replicate (k : Nat) : stars (List.replicate k '*') = k := by
  simp [stars]

theorem stars_other {c : Char} (other : c ≠ '*') (front l : List Char) :
    stars (front ++ c :: l) = stars l := by
  simp only [stars, List.reverse_append, List.reverse_cons, List.append_assoc,
    List.singleton_append, List.takeWhile_append, List.takeWhile_cons, other, decide_false]
  split
  · rename_i whole
    simp [whole]
  · rfl

theorem closeFrom_positive {pending : Bool} {l : List Char} {n : Nat}
    (closes : closeFrom pending l = some n) : 0 < n := by
  cases l with
  | nil => cases closes
  | cons c l =>
    cases pending with
    | false =>
      obtain ⟨m, -, rfl⟩ := Option.map_eq_some_iff.mp closes
      omega
    | true =>
      rw [closeFrom] at closes
      split at closes
      · cases closes
        omega
      · obtain ⟨m, -, rfl⟩ := Option.map_eq_some_iff.mp closes
        omega

theorem closeFrom_star (k : Nat) (l : List Char) :
    closeFrom (decide (k % 2 = 1)) ('*' :: l) =
      (closeFrom (decide ((k + 1) % 2 = 1)) l).map (· + 1) := by
  by_cases odd : k % 2 = 1
  · have even : ¬ (k + 1) % 2 = 1 := by omega
    simp [closeFrom, odd, even]
  · have odd' : (k + 1) % 2 = 1 := by omega
    simp [closeFrom, odd, odd']

theorem closeFrom_other {c : Char} {k : Nat} (other : c ≠ '*') (open_ : 0 < k → c ≠ '/')
    (l : List Char) :
    closeFrom (decide (k % 2 = 1)) (c :: l) = (closeFrom false l).map (· + 1) := by
  by_cases odd : k % 2 = 1
  · have plain : c ≠ '/' := open_ (by omega)
    simp [closeFrom, odd, plain]
  · simp [closeFrom, odd, other]

/-- A body without a close ends where the first close is exactly when the stars in front of that
    are taken in pairs. -/
theorem closeFrom_iff {k : Nat} {body rest : List Char}
    (inside : ¬ ['*', '/'] <:+: List.replicate k '*' ++ body) :
    closeFrom (decide (k % 2 = 1)) (body ++ '*' :: '/' :: rest) = some (body.length + 2) ↔
      Even (stars (List.replicate k '*' ++ body)) := by
  induction body generalizing k with
  | nil =>
    rw [List.append_nil, stars_replicate, List.nil_append, closeFrom_star, Nat.even_iff]
    by_cases odd : k % 2 = 1
    · have even : ¬ (k + 1) % 2 = 1 := by omega
      have longer : (closeFrom false ('/' :: rest)).map (· + 1) ≠ some 2 := by
        intro closes
        rw [closeFrom_plain (by decide), Option.map_map] at closes
        obtain ⟨m, found, two⟩ := Option.map_eq_some_iff.mp closes
        have := closeFrom_positive found
        simp only [Function.comp_apply] at two
        omega
      simp only [decide_eq_false even]
      exact iff_of_false longer (by omega)
    · have odd' : (k + 1) % 2 = 1 := by omega
      simp only [decide_eq_true odd']
      exact iff_of_true rfl (by omega)
  | cons c body ih =>
    rw [List.cons_append, List.length_cons]
    by_cases star : c = '*'
    · subst star
      have shape : List.replicate k '*' ++ '*' :: body = List.replicate (k + 1) '*' ++ body := by
        rw [List.replicate_succ']
        simp
      rw [shape] at inside ⊢
      rw [closeFrom_star, ← ih inside, Option.map_eq_some_iff]
      simp
    · have open_ : 0 < k → c ≠ '/' := by
        rintro positive rfl
        obtain ⟨k, rfl⟩ := Nat.exists_eq_add_one_of_ne_zero positive.ne'
        rw [List.replicate_succ'] at inside
        exact inside ⟨List.replicate k '*', body, by simp⟩
      have inside' : ¬ ['*', '/'] <:+: List.replicate 0 '*' ++ body := by
        intro found
        exact inside (found.trans ⟨List.replicate k '*' ++ [c], [], by simp⟩)
      have stars_body := ih inside'
      rw [closeFrom_other star open_, stars_other star, Option.map_eq_some_iff]
      simpa using stars_body

theorem matches_comment {t : List Char} :
    Matches comment t ↔ ∃ t', t = '/' :: '*' :: t' ∧ Matches bodyAndClose t' := by
  change Matches (seq (lit '/') (seq (lit '*') bodyAndClose)) t ↔ _
  constructor
  · intro matched
    obtain ⟨u, v, rfl, slash, more⟩ := matches_seq.mp matched
    obtain ⟨w, t', rfl, star, after⟩ := matches_seq.mp more
    rw [matches_lit.mp slash, matches_lit.mp star]
    exact ⟨t', rfl, after⟩
  · rintro ⟨t', rfl, after⟩
    exact .seq (matches_lit.mpr rfl) (.seq (matches_lit.mpr rfl) after)

section Turn
variable {engine : Engine Char} {string : List Char} {offset : Nat} {l : List Char}

theorem whitespace_elsewhere (here : string.drop offset = '/' :: '*' :: l) :
    engine.findRegexpAt string (Regexp.plus (oneOf [' ', '\t', '\n'])) offset = none := by
  by_contra found
  obtain ⟨⟨t, n⟩, found⟩ := Option.ne_none_iff_exists'.mp found
  obtain ⟨-, front, matched⟩ := engine.sound found
  obtain ⟨u, v, rfl, blank, -⟩ := matches_plus.mp matched
  obtain ⟨c, rfl, inside⟩ := matches_chars.mp blank
  rw [here] at front
  have slash : c = '/' := (List.cons_prefix_cons.mp front).1
  rw [slash] at inside
  exact absurd inside (by decide)

theorem lineComment_elsewhere (here : string.drop offset = '/' :: '*' :: l) :
    engine.findRegexpAt string (concat [lit '/', lit '/', star (noneOf ['\n']), lit '\n'])
      offset = none := by
  by_contra found
  obtain ⟨⟨t, n⟩, found⟩ := Option.ne_none_iff_exists'.mp found
  obtain ⟨-, front, matched⟩ := engine.sound found
  obtain ⟨u, v, rfl, first, more⟩ := matches_seq.mp matched
  obtain ⟨w, v, rfl, second, -⟩ := matches_seq.mp more
  rw [here, matches_lit.mp first, matches_lit.mp second] at front
  have same : '/' = '*' := (List.cons_prefix_cons.mp (List.cons_prefix_cons.mp front).2).1
  exact absurd same (by decide)

theorem findComment_iff (complete : engine.Complete)
    (here : string.drop offset = '/' :: '*' :: l) {t : List Char} {n : Nat} :
    engine.findRegexpAt string comment offset = some (t, n) ↔
      ∃ m, closeFrom false l = some m ∧ n = m + 2 ∧ t = '/' :: '*' :: l.take m := by
  have only {t : List Char} (front : t <+: '/' :: '*' :: l) (matched : Matches comment t) :
      ∃ m, closeFrom false l = some m ∧ t.length = m + 2 ∧ t = '/' :: '*' :: l.take m := by
    obtain ⟨t', rfl, body⟩ := matches_comment.mp matched
    have inner : t' <+: l := (List.cons_prefix_cons.mp (List.cons_prefix_cons.mp front).2).2
    have taken := List.prefix_iff_eq_take.mp inner
    refine ⟨t'.length, (startsWith_iff l t'.length).mp ⟨inner.length_le, taken ▸ body⟩, by simp, ?_⟩
    rw [← taken]
  constructor
  · intro found
    obtain ⟨size, front, matched⟩ := engine.sound found
    rw [here] at front
    obtain ⟨m, closes, long, shape⟩ := only front matched
    exact ⟨m, closes, size.symm.trans long, shape⟩
  · rintro ⟨m, closes, rfl, rfl⟩
    obtain ⟨bound, body⟩ := (startsWith_iff l m).mpr closes
    have matched : Matches comment ('/' :: '*' :: l.take m) := matches_comment.mpr ⟨_, rfl, body⟩
    cases found : engine.findRegexpAt string comment offset with
    | none =>
      have front : '/' :: '*' :: l.take m <+: string.drop offset := by
        rw [here]
        exact List.cons_prefix_cons.mpr ⟨rfl, List.cons_prefix_cons.mpr ⟨rfl, List.take_prefix m l⟩⟩
      exact absurd matched (complete string comment offset found _ front)
    | some other =>
      obtain ⟨size, front, matched'⟩ := engine.sound found
      rw [here] at front
      obtain ⟨m', closes', long, shape⟩ := only front matched'
      rw [closes] at closes'
      cases closes'
      rw [← long, ← shape, size]

/-- The tokens of the cases behind the one for comments have other types. -/
theorem firstMatch_other {cases : List (Regexp Char × TokenType)} {node : Token}
    (others : ∀ p ∈ cases, p.2 ≠ .blockComment)
    (found : firstMatch engine string offset cases = some node) : node.type ≠ .blockComment := by
  obtain ⟨p, member, type, -⟩ := (firstMatch_reads found).pattern
  rw [← type]
  exact others p member

theorem nextToken_comment (here : string.drop offset = '/' :: '*' :: l) :
    nextToken engine string offset =
      match engine.findRegexpAt string comment offset with
      | some (found, length) => some ⟨offset, found, length, .blockComment⟩
      | none => firstMatch engine string offset (patterns.drop 3) := by
  change firstMatch engine string offset ((_, .whitespace) :: (_, .lineComment) ::
    (comment, .blockComment) :: patterns.drop 3) = _
  cases found : engine.findRegexpAt string comment offset with
  | none => simp only [firstMatch, whitespace_elsewhere here, lineComment_elsewhere here, found]
  | some text =>
    simp only [firstMatch, whitespace_elsewhere here, lineComment_elsewhere here, found]

/-- A comment is one token exactly when an even number of stars stands before the star that
    closes it. -/
theorem blockComment_iff {body rest : List Char} (complete : engine.Complete)
    (here : string.drop offset = '/' :: '*' :: (body ++ '*' :: '/' :: rest))
    (first : ¬ ['*', '/'] <:+: body ++ ['*']) :
    nextToken engine string offset =
        some ⟨offset, '/' :: '*' :: (body ++ ['*', '/']), body.length + 4, .blockComment⟩ ↔
      Even (stars body) := by
  have inside : ¬ ['*', '/'] <:+: List.replicate 0 '*' ++ body := by
    intro found
    exact first (found.trans ⟨[], ['*'], by simp⟩)
  have whole : (body ++ '*' :: '/' :: rest).take (body.length + 2) = body ++ ['*', '/'] := by
    rw [List.take_length_add_append]
    rfl
  have ends := @closeFrom_iff 0 body rest inside
  rw [List.replicate_zero, List.nil_append] at ends
  rw [← ends, nextToken_comment here]
  constructor
  · intro token
    cases found : engine.findRegexpAt string comment offset with
    | none =>
      rw [found] at token
      exact absurd rfl (firstMatch_other (by decide) token)
    | some other =>
      obtain ⟨m, closes, long, -⟩ := (findComment_iff complete here).mp found
      rw [found] at token
      simp only [Option.some.injEq, Token.mk.injEq] at token
      have size : m = body.length + 2 := by omega
      rw [← size]
      exact closes
  · intro closes
    have found := (findComment_iff complete here).mpr ⟨body.length + 2, closes, rfl, rfl⟩
    rw [found, whole]

end Turn

/-- The comment "/* a **/", with a star in front of the one that closes it. -/
def starred : List Char := ['/', '*', ' ', 'a', ' ', '*', '*', '/']

/-- The comment "/* a ***/", with two of them. -/
def twiceStarred : List Char := ['/', '*', ' ', 'a', ' ', '*', '*', '*', '/']

theorem blockComment_iff_starred :
    (nextToken backtracking starred 0 = some ⟨0, starred, 8, .blockComment⟩ ↔
      Even (stars [' ', 'a', ' ', '*'])) ∧
    nextToken backtracking twiceStarred 0 = some ⟨0, twiceStarred, 9, .blockComment⟩ := by
  constructor
  · exact @blockComment_iff backtracking starred 0 [' ', 'a', ' ', '*'] [] backtracking_complete
      rfl (by decide)
  · have even : Even (stars [' ', 'a', ' ', '*', '*']) := by decide
    exact (@blockComment_iff backtracking twiceStarred 0 [' ', 'a', ' ', '*', '*'] []
      backtracking_complete rfl (by decide)).mpr even

/-- The comment "/***/" is a slash, three stars and a slash to the tokenizer. -/
theorem blockComment_missed :
    ¬ ∀ (engine : Engine Char) (string body rest : List Char) (offset : Nat), engine.Complete →
      string.drop offset = '/' :: '*' :: (body ++ '*' :: '/' :: rest) →
        ¬ ['*', '/'] <:+: body ++ ['*'] →
          nextToken engine string offset =
            some ⟨offset, '/' :: '*' :: (body ++ ['*', '/']), body.length + 4, .blockComment⟩ := by
  intro always
  have token := always backtracking ['/', '*', '*', '*', '/'] ['*'] [] 0 backtracking_complete rfl
    (by decide)
  exact absurd token (by decide +kernel)

end SCLOrkPD
