import SCLOrkTools.Confab.CacheManager

/- The names of cache files: how download and checkCache put them together, and how they are taken
   apart again. -/
namespace Confab
open ByteStrings

def fileKey (path : Path) : UInt64 := stringToKey (stemExtension path).1

/-- An extension begins with its dot, and is no path. -/
def IsExtension (fileExtension : List Byte) : Prop :=
  fileExtension = [] ∨ fileExtension.head? = some 46 ∧ 47 ∉ fileExtension

section Slashes

theorem collapse_cons_cons (x y : Byte) (rest : Path) :
    collapse (x :: y :: rest) =
      if x = 47 ∧ y = 47 then collapse (y :: rest) else x :: collapse (y :: rest) := by
  rw [collapse]
  simp

/-- Two slashes that meet between the strings are the only ones that would be missed. -/
theorem collapse_append {a b : Path} (apart : a.getLast? ≠ some 47 ∨ b.head? ≠ some 47) :
    collapse (a ++ b) = collapse a ++ collapse b := by
  induction a with
  | nil => rfl
  | cons x a ih =>
    cases a with
    | nil =>
      have kept : ¬ (x = 47 ∧ b.head? = some 47) := by
        rintro ⟨rfl, slash⟩
        exact apart.elim (absurd rfl) (absurd slash)
      simp [collapse, kept]
    | cons y a =>
      have rest := ih (by simpa using apart)
      change collapse (x :: y :: (a ++ b)) = _
      change collapse (y :: (a ++ b)) = _ at rest
      rw [collapse_cons_cons, collapse_cons_cons, rest]
      by_cases double : x = 47 ∧ y = 47
      · rw [if_pos double, if_pos double]
      · rw [if_neg double, if_neg double]
        rfl

theorem collapse_plain {s : Path} (plain : 47 ∉ s) : collapse s = s := by
  induction s with
  | nil => rfl
  | cons x s ih =>
    obtain ⟨first, rest⟩ := not_or.mp (fun mem => plain (List.mem_cons.mpr mem))
    rw [collapse, if_neg fun slash => first slash.1.symm, ih rest]

theorem collapse_getLast (c : Path) : (collapse c).getLast? = c.getLast? := by
  induction c with
  | nil => rfl
  | cons x c ih =>
    cases c with
    | nil => simp [collapse]
    | cons y c =>
      rw [collapse_cons_cons, List.getLast?_cons_cons]
      split
      · exact ih
      · cases shape : collapse (y :: c) with
        | nil =>
          rw [shape] at ih
          exact absurd (List.getLast?_eq_none_iff.mp ih.symm) (List.cons_ne_nil y c)
        | cons z rest => rw [List.getLast?_cons_cons, ← shape, ih]

theorem collapse_slash (c : Path) :
    collapse (c ++ [47]) = if c.getLast? = some 47 then collapse c else collapse c ++ [47] := by
  split
  · rename_i slash
    obtain ⟨front, rfl⟩ := List.getLast?_eq_some_iff.mp slash
    clear slash
    induction front with
    | nil => rfl
    | cons x front ih =>
      cases front with
      | nil =>
        change collapse (x :: 47 :: [47]) = collapse (x :: 47 :: [])
        have double : collapse (47 :: [47]) = collapse [47] := rfl
        rw [collapse_cons_cons x, collapse_cons_cons x, double]
      | cons y front =>
        change collapse (x :: y :: (front ++ [47] ++ [47])) = collapse (x :: y :: (front ++ [47]))
        rw [collapse_cons_cons, collapse_cons_cons]
        change collapse (y :: (front ++ [47] ++ [47])) = collapse (y :: (front ++ [47])) at ih
        rw [ih]
  · rename_i open_end
    exact collapse_append (.inl open_end)

end Slashes
section Keys

theorem keyToString_inj {key other : UInt64} :
    keyToString key = keyToString other ↔ key = other := by
  constructor
  · intro same
    rw [← stringToKey_keyToString key, same, stringToKey_keyToString]
  · rintro rfl
    rfl

theorem keyToString_plain (key : UInt64) : 47 ∉ keyToString key ∧ 46 ∉ keyToString key := by
  have digits : ∀ d, d < 16 → hexDigit d ≠ 47 ∧ hexDigit d ≠ 46 := by decide
  constructor
  · intro mem
    obtain ⟨d, small, same⟩ := mem_keyToString mem
    exact (digits d small).1 same.symm
  · intro mem
    obtain ⟨d, small, same⟩ := mem_keyToString mem
    exact (digits d small).2 same.symm

end Keys
section Names
variable {m : CacheManager} {key other : UInt64} {fileExtension otherExtension : List Byte}

theorem digits_last (key : UInt64) : (keyToString key).getLast? ≠ some 47 := by
  intro slash
  exact (keyToString_plain key).1 (List.mem_of_getLast? slash)

theorem digits_first (key : UInt64) (rest : List Byte) :
    (keyToString key ++ rest).head? ≠ some 47 := by
  intro slash
  obtain ⟨a, tail, shape⟩ : ∃ a tail, keyToString key = a :: tail := ⟨_, _, rfl⟩
  rw [shape, List.cons_append, List.head?_cons] at slash
  apply (keyToString_plain key).1
  rw [shape, Option.some.inj slash]
  exact List.mem_cons_self

theorem collapse_name (key : UInt64) (fileExtension : List Byte) :
    collapse (keyToString key ++ fileExtension) = keyToString key ++ collapse fileExtension := by
  rw [collapse_append (.inl (digits_last key)), collapse_plain (keyToString_plain key).1]

theorem filePath_eq : m.filePath key fileExtension =
    collapse (m.cachePath ++ [47]) ++ (keyToString key ++ collapse fileExtension) := by
  have split : m.cachePath ++ (47 :: (keyToString key ++ fileExtension)) =
      (m.cachePath ++ [47]) ++ (keyToString key ++ fileExtension) := by simp
  rw [CacheManager.filePath, split, collapse_append (.inr (digits_first key _)), collapse_name]

theorem hitPath_eq : m.hitPath key fileExtension =
    collapse m.cachePath ++ (keyToString key ++ collapse fileExtension) := by
  rw [CacheManager.hitPath, collapse_append (.inr (digits_first key _)), collapse_name]

theorem hitPath_slash (slash : m.cachePath.getLast? = some 47) :
    m.hitPath key fileExtension = m.filePath key fileExtension := by
  rw [hitPath_eq, filePath_eq, collapse_slash, if_pos slash]

/-- checkCache puts the path together that download has written to only where the path of the
    directory ends with a slash. -/
theorem hitPath_eq_filePath_iff :
    m.hitPath key otherExtension = m.filePath key fileExtension ↔
      m.cachePath.getLast? = some 47 ∧
        m.filePath key otherExtension = m.filePath key fileExtension := by
  constructor
  · intro same
    have slash : m.cachePath.getLast? = some 47 := by
      by_contra open_end
      rw [hitPath_eq, filePath_eq, collapse_slash, if_neg open_end, List.append_assoc] at same
      have names := List.append_cancel_left same
      apply digits_first key (collapse otherExtension)
      rw [names]
      rfl
    exact ⟨slash, (hitPath_slash slash).symm.trans same⟩
  · rintro ⟨slash, same⟩
    rw [hitPath_slash slash, same]

theorem filePath_key (same : m.filePath key fileExtension = m.filePath other otherExtension) :
    key = other ∧ collapse fileExtension = collapse otherExtension := by
  rw [filePath_eq, filePath_eq] at same
  have names := List.append_cancel_left same
  obtain ⟨keys, extensions⟩ := List.append_inj names
    (by rw [keyToString_length, keyToString_length])
  exact ⟨keyToString_inj.mp keys, extensions⟩

theorem filename_filePath (plain : 47 ∉ fileExtension) :
    filename (m.filePath key fileExtension) = keyToString key ++ fileExtension := by
  obtain ⟨front, ends⟩ : ∃ front, collapse (m.cachePath ++ [47]) = front ++ [47] := by
    apply List.getLast?_eq_some_iff.mp
    rw [collapse_getLast]
    simp
  have name : ∀ b ∈ (keyToString key ++ fileExtension).reverse, decide (b.val ≠ 47) = true := by
    intro b mem
    apply decide_eq_true
    intro slash
    obtain rfl : b = 47 := Fin.ext slash
    rcases List.mem_append.mp (List.mem_reverse.mp mem) with digit | rest
    · exact (keyToString_plain key).1 digit
    · exact plain rest
  have reversed : (front ++ [47] ++ (keyToString key ++ fileExtension)).reverse =
      (keyToString key ++ fileExtension).reverse ++ 47 :: front.reverse := by simp
  rw [filePath_eq, collapse_plain plain, ends, filename, reversed,
    List.takeWhile_append_of_pos name, List.takeWhile_cons_of_neg (by decide), List.append_nil,
    List.reverse_reverse]

theorem name_not_dots (key : UInt64) (fileExtension : List Byte) :
    (keyToString key ++ fileExtension).map Fin.val ≠ [46] ∧
      (keyToString key ++ fileExtension).map Fin.val ≠ [46, 46] := by
  have long : 16 ≤ ((keyToString key ++ fileExtension).map Fin.val).length := by
    simp [keyToString_length]
  constructor
  · intro same
    rw [same] at long
    exact absurd long (by decide)
  · intro same
    rw [same] at long
    exact absurd long (by decide)

theorem no_dot {s : List Byte} (plain : 46 ∉ s) : s.all (·.val ≠ 46) = true := by
  apply List.all_eq_true.mpr
  intro b mem
  apply decide_eq_true
  intro dot
  obtain rfl : b = 46 := Fin.ext dot
  exact plain mem

theorem stemExtension_dot (rest : List Byte) (plain : 47 ∉ rest) :
    ∃ n, n ≤ rest.length ∧ stemExtension (m.filePath key (46 :: rest)) =
        (keyToString key ++ (46 :: rest).take n, (46 :: rest).drop n) ∧
      (46 ∉ rest → n = 0) := by
  have name : filename (m.filePath key (46 :: rest)) = keyToString key ++ 46 :: rest :=
    filename_filePath (by simp [plain])
  have dots := name_not_dots key (46 :: rest)
  have dotted : (keyToString key ++ 46 :: rest).all (·.val ≠ 46) = false := by
    apply List.all_eq_false.mpr
    exact ⟨46, by simp, by decide⟩
  have reversed : (keyToString key ++ 46 :: rest).reverse =
      rest.reverse ++ 46 :: (keyToString key).reverse := by simp
  have stops : (keyToString key ++ 46 :: rest).reverse.takeWhile (·.val ≠ 46) =
      rest.reverse.takeWhile (·.val ≠ 46) := by
    rw [reversed, List.takeWhile_append]
    split
    · rename_i whole
      rw [List.takeWhile_cons_of_neg (by decide), List.append_nil]
      exact (((List.takeWhile_prefix _).eq_of_length whole)).symm
    · rfl
  obtain ⟨afterDot, count⟩ : ∃ n, (rest.reverse.takeWhile (·.val ≠ 46)).length = n := ⟨_, rfl⟩
  have within : afterDot ≤ rest.length := by
    rw [← count, ← @List.length_reverse _ rest]
    exact (List.takeWhile_prefix _).length_le
  have length : (keyToString key ++ 46 :: rest).length = 16 + (rest.length + 1) := by
    simp [keyToString_length]
  have place : 16 + (rest.length + 1) - (afterDot + 1) =
      (keyToString key).length + (rest.length - afterDot) := by
    rw [keyToString_length]
    omega
  refine ⟨rest.length - afterDot, Nat.sub_le _ _, ?_, ?_⟩
  · unfold stemExtension
    simp only [name, dots, dotted, stops, false_or, count, length, place,
      List.take_length_add_append, List.drop_length_add_append]
    rfl
  · intro single
    have whole : rest.reverse.takeWhile (·.val ≠ 46) = rest.reverse := by
      apply List.takeWhile_eq_self_iff.mpr
      intro b mem
      apply decide_eq_true
      intro dot
      obtain rfl : b = 46 := Fin.ext dot
      exact single (List.mem_reverse.mp mem)
    rw [whole, List.length_reverse] at count
    omega

theorem stemExtension_bare : stemExtension (m.filePath key []) = (keyToString key, []) := by
  have name : filename (m.filePath key []) = keyToString key := by
    have plain := @filename_filePath m key [] List.not_mem_nil
    rwa [List.append_nil] at plain
  unfold stemExtension
  simp only [name]
  rw [if_pos (.inr (.inr (no_dot (keyToString_plain key).2)))]

theorem fileKey_filePath (extension : IsExtension fileExtension) :
    fileKey (m.filePath key fileExtension) = key := by
  rcases extension with rfl | ⟨dot, plain⟩
  · rw [fileKey, stemExtension_bare, stringToKey_keyToString]
  · obtain ⟨rest, rfl⟩ := List.head?_eq_some_iff.mp dot
    obtain ⟨n, -, apart, -⟩ := @stemExtension_dot m key rest (by simpa using plain)
    rw [fileKey, apart]
    apply stringToKey_append
    cases n with
    | zero => exact .inl rfl
    | succ n => exact .inr rfl

theorem stemExtension_filePath (extension : IsExtension fileExtension)
    (single : 46 ∉ fileExtension.tail) :
    stemExtension (m.filePath key fileExtension) = (keyToString key, fileExtension) := by
  rcases extension with rfl | ⟨dot, plain⟩
  · exact stemExtension_bare
  · obtain ⟨rest, rfl⟩ := List.head?_eq_some_iff.mp dot
    obtain ⟨n, -, apart, first⟩ := @stemExtension_dot m key rest (by simpa using plain)
    rw [apart, first single, List.take_zero, List.append_nil, List.drop_zero]

end Names

end Confab
