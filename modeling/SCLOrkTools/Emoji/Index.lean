import SCLOrkTools.Emoji.Trie

/- What the trie holds once it has been built: for every part of a word the characters whose
   descriptions have it, and at every node their number at or below. -/
namespace SCLOrkEmoji
open MultiLevel Level

section Shape
variable {d : Trie}

structure Node (d : Trie) : Prop where
  distinct : d.keys.Nodup
  leaf : ∀ k v, d.find k = some (.inl v) → k = countKey ∧ v = .count (d.total weight) ∨
    k = matchKey ∧ ∃ set : Finset Symbol, v = .matched set ∧ set.Nonempty
  letter : ∀ k e, d.find k = some (.inr e) →
    (∃ c : Char, c.isAlphanum = true ∧ k = [c]) ∧ 0 < e.total weight
  next : plusOne (d.atPath [countKey]) = .count (d.total weight + 1)

/-- A node with a count, and every node below as well. -/
inductive Grown : Trie → Prop where
  | mk {d : Trie} (node : Node d) (count : countKey ∈ d.keys)
      (below : ∀ k e, d.find k = some (.inr e) → Grown e) : Grown d

structure Growing (d : Trie) : Prop where
  node : Node d
  below : ∀ k e, d.find k = some (.inr e) → Grown e

theorem Grown.growing (grown : Grown d) : Growing d := by
  cases grown with
  | mk node count below => exact ⟨node, below⟩

theorem Grown.node (grown : Grown d) : Node d := grown.growing.node

theorem growing_empty : Growing .empty where
  node :=
    { distinct := List.nodup_nil
      leaf := fun k v found => by cases found
      letter := fun k e found => by cases found
      next := rfl }
  below k e found := by cases found

theorem Growing.child (growing : Growing d) (k : Symbol) : Growing (d.child k) := by
  unfold Level.child
  cases found : d.find k with
  | none => exact growing_empty
  | some item =>
    cases item with
    | inl v => exact growing_empty
    | inr level => exact (growing.below k level found).growing

theorem letter_ne_match (c : Char) : [c] ≠ matchKey := by simp [matchKey]
theorem letter_ne_count (c : Char) : [c] ≠ countKey := by simp [countKey]
theorem match_ne_count : matchKey ≠ countKey := by decide

theorem Node.no_value (node : Node d) (c : Char) (v : Leaf) : d.find [c] ≠ some (.inl v) := by
  intro found
  rcases node.leaf _ v found with ⟨same, -⟩ | ⟨same, -⟩
  · exact letter_ne_count c same
  · exact letter_ne_match c same

theorem Node.inner_ne_match (node : Node d) (e : Trie) :
    d.find matchKey ≠ some (.inr e) := by
  intro found
  obtain ⟨⟨c, -, same⟩, -⟩ := node.letter _ e found
  exact letter_ne_match c same.symm

theorem Node.inner_ne_count (node : Node d) (e : Trie) :
    d.find countKey ≠ some (.inr e) := by
  intro found
  obtain ⟨⟨c, -, same⟩, -⟩ := node.letter _ e found
  exact letter_ne_count c same.symm

theorem Node.count_leaf (node : Node d) {v : Leaf} (found : d.find countKey = some (.inl v)) :
    v = .count (d.total weight) := by
  rcases node.leaf _ v found with ⟨-, shape⟩ | ⟨other, -⟩
  · exact shape
  · exact absurd other match_ne_count.symm

theorem Node.match_leaf (node : Node d) {v : Leaf} (found : d.find matchKey = some (.inl v)) :
    ∃ set : Finset Symbol, v = .matched set ∧ set.Nonempty := by
  rcases node.leaf _ v found with ⟨other, -⟩ | ⟨-, shape⟩
  · exact absurd other match_ne_count
  · exact shape

theorem Grown.count (grown : Grown d) :
    d.find countKey = some (.inl (.count (d.total weight))) := by
  cases grown with
  | mk node count below =>
    obtain ⟨item, found⟩ := Option.isSome_iff_exists.mp (find_isSome.mpr count)
    cases item with
    | inl v =>
      cases node.count_leaf found
      exact found
    | inr e => exact absurd found (node.inner_ne_count e)

def spell (word : List Char) : List Symbol := word.map fun c => [c]

theorem Growing.open_spell (growing : Growing d) (word : List Char) : Open d (spell word) := by
  induction word generalizing d with
  | nil => trivial
  | cons c word ih => exact ⟨growing.node.no_value c, ih (growing.child [c])⟩

def matching (d : Trie) (path : List Symbol) : Finset Symbol :=
  (matchSet (d.atPath (path ++ [matchKey]))).getD ∅

theorem matching_cons (k : Symbol) (path : List Symbol) :
    matching d (k :: path) = matching (d.child k) path := by
  rw [matching, List.cons_append, atPath_child (snoc_ne_nil path matchKey), matching]

end Shape

section Bump
variable {d : Trie} {uniChar : Symbol}

def counted (d : Trie) : Trie := d.setEntry countKey (.inl (plusOne (d.atPath [countKey])))

/-- A character joins a match set, and every count on the way grows by one. -/
def bump (uniChar : Symbol) : List Char → Trie → Trie
  | [], d => counted (d.setEntry matchKey (.inl (.matched (insert uniChar (matching d [])))))
  | c :: word, d => counted (d.setEntry [c] (.inr (bump uniChar word (d.child [c]))))

/-- The loop of the script and the count of the root behind it, as one loop. -/
def climbAll (path : List Symbol) : Nat → Trie → Trie
  | 0, d => counted d
  | n + 1, d =>
    let here := path.take (n + 1) ++ [countKey]
    climbAll path n (d.put here (plusOne (d.atPath here)))

theorem climbAll_succ (path : List Symbol) (n : Nat) (d : Trie) : climbAll path (n + 1) d =
    climbAll path n (d.put (path.take (n + 1) ++ [countKey])
      (plusOne (d.atPath (path.take (n + 1) ++ [countKey])))) := rfl

theorem climb_counted (path : List Symbol) (n : Nat) (d : Trie) :
    counted (climb [] path n d) = climbAll path n d := by
  induction n generalizing d with
  | zero => rfl
  | succ n ih =>
    rw [climb, climbAll_succ]
    exact ih _

theorem climbAll_cons (k : Symbol) (path : List Symbol) (n : Nat)
    (noValue : ∀ v, d.find k ≠ some (.inl v)) : climbAll (k :: path) (n + 1) d =
      counted (d.setEntry k (.inr (climbAll path n (d.child k)))) := by
  induction n generalizing d with
  | zero =>
    rw [climbAll_succ, climbAll, climbAll]
    simp only [List.take_succ_cons, List.take_zero, List.singleton_append]
    rw [put_child (List.cons_ne_nil _ _) noValue, atPath_child (List.cons_ne_nil _ _), put_one]
    rfl
  | succ n ih =>
    have long : path.take (n + 1) ++ [countKey] ≠ [] := snoc_ne_nil _ countKey
    rw [climbAll_succ (k :: path), climbAll_succ path]
    simp only [List.take_succ_cons, List.cons_append]
    rw [put_child long noValue, atPath_child long, ih (setEntry_open d k _), child_setEntry,
      setEntry_twice]

theorem climbAll_bump (uniChar : Symbol) (word : List Char) (clear : Open d (spell word)) :
    climbAll (spell word) (spell word).length (d.put (spell word ++ [matchKey])
      (.matched (insert uniChar (matching d (spell word))))) = bump uniChar word d := by
  induction word generalizing d with
  | nil =>
    rw [spell, List.map_nil, List.nil_append, List.length_nil, climbAll, put_one]
    rfl
  | cons c word ih =>
    have long : spell word ++ [matchKey] ≠ [] := snoc_ne_nil _ matchKey
    have below := ih clear.2
    change climbAll ([c] :: spell word) ((spell word).length + 1)
      (d.put ([c] :: (spell word ++ [matchKey])) (.matched (insert uniChar
        (matching d ([c] :: spell word))))) = _
    rw [put_child long clear.1, climbAll_cons _ _ _ (setEntry_open d [c] _), child_setEntry,
      setEntry_twice, matching_cons, below]
    rfl

theorem wordPath_spell (word : List Char) :
    wordPath word = spell (word.filter Char.isAlphanum) := rfl

theorem addWord_bump (growing : Growing d) (uniChar : Symbol) (word : List Char) :
    addWord [] uniChar d word =
      if word.filter Char.isAlphanum = [] then d
      else if uniChar ∈ matching d (wordPath word) then d
      else bump uniChar (word.filter Char.isAlphanum) d := by
  have clear := growing.open_spell (word.filter Char.isAlphanum)
  have bumped := climbAll_bump uniChar _ clear
  rw [← wordPath_spell] at bumped clear
  have none : wordPath word = [] ↔ word.filter Char.isAlphanum = [] := by
    simp [wordPath]
  unfold addWord
  simp only [List.nil_append, none]
  split
  · rfl
  · cases found : matchSet (d.atPath (wordPath word ++ [matchKey])) with
    | none =>
      have set : matching d (wordPath word) = ∅ := by rw [matching, found]; rfl
      simp only [set] at bumped ⊢
      simp only [if_true, Option.getD_none, Finset.notMem_empty, if_false]
      rw [put_twice clear, ← bumped, ← climb_counted]
      rfl
    | some set =>
      have same : matching d (wordPath word) = set := by rw [matching, found]; rfl
      simp only [same] at bumped ⊢
      simp only [reduceCtorEq, if_false, Option.getD_some]
      split
      · rfl
      · rw [← bumped, ← climb_counted]
        rfl

end Bump
section Growth
variable {d : Trie} {uniChar : Symbol}

theorem find_counted (d : Trie) (k : Symbol) : (counted d).find k =
    if countKey = k then some (.inl (plusOne (d.atPath [countKey]))) else d.find k := by
  rw [counted, find_setEntry]

theorem Node.total_counted {d' : Trie} (node : Node d)
    (same : d'.find countKey = d.find countKey) :
    (counted d').total weight = d'.total weight := by
  have sum := total_setEntry weight d' countKey (.inl (plusOne (d'.atPath [countKey])))
  have light : ∀ item, weight (plusOne item) = 0 := by
    intro item
    unfold plusOne
    split <;> rfl
  have old : entryTotal weight (d'.find countKey) = 0 := by
    rw [same]
    cases found : d.find countKey with
    | none => rfl
    | some item =>
      cases item with
      | inl v =>
        cases node.count_leaf found
        rfl
      | inr e => exact absurd found (node.inner_ne_count e)
  rw [old] at sum
  simp only [entryTotal, light] at sum
  exact sum

theorem Growing.counted_grown (growing : Growing d) {k : Symbol} {item : Leaf ⊕ Trie}
    (other : k ≠ countKey) (more : (d.setEntry k item).total weight = d.total weight + 1)
    (leaf : ∀ v, item = .inl v → k = matchKey ∧
      ∃ set : Finset Symbol, v = .matched set ∧ set.Nonempty)
    (letter : ∀ e, item = .inr e →
      (∃ c : Char, c.isAlphanum = true ∧ k = [c]) ∧ 0 < e.total weight ∧ Grown e) :
    Grown (counted (d.setEntry k item)) ∧
      (counted (d.setEntry k item)).total weight = d.total weight + 1 := by
  have count : (d.setEntry k item).atPath [countKey] = d.atPath [countKey] := by
    rw [atPath, atPath, find_setEntry, if_neg other]
  have same : (d.setEntry k item).find countKey = d.find countKey := by
    rw [find_setEntry, if_neg other]
  have total := (growing.node.total_counted same).trans more
  have next : plusOne ((d.setEntry k item).atPath [countKey]) = .count (d.total weight + 1) := by
    rw [count, growing.node.next]
  have found (j : Symbol) : (counted (d.setEntry k item)).find j =
      if countKey = j then some (.inl (.count (d.total weight + 1)))
      else if k = j then some item else d.find j := by
    rw [find_counted, find_setEntry, next]
  refine ⟨.mk ⟨nodup_setEntry (nodup_setEntry growing.node.distinct), ?_, ?_, ?_⟩ ?_ ?_, total⟩
  · intro j v here
    rw [found] at here
    split at here
    · rename_i isCount
      cases here
      exact .inl ⟨isCount.symm, by rw [total]⟩
    · rename_i notCount
      right
      split at here
      · rename_i isNew
        cases here
        obtain ⟨key, set, shape, some⟩ := leaf v rfl
        exact ⟨isNew.symm.trans key, set, shape, some⟩
      · rcases growing.node.leaf j v here with ⟨isCount, -⟩ | old
        · exact absurd isCount.symm notCount
        · exact old
  · intro j e here
    rw [found] at here
    split at here
    · cases here
    · split at here
      · rename_i isNew
        cases here
        obtain ⟨key, positive, -⟩ := letter e rfl
        exact ⟨isNew ▸ key, positive⟩
      · exact growing.node.letter j e here
  · rw [atPath, found, if_pos rfl, total]
    rfl
  · exact mem_keys_of_find (by rw [found, if_pos rfl])
  · intro j e here
    rw [found] at here
    split at here
    · cases here
    · split at here
      · cases here
        exact (letter e rfl).2.2
      · exact growing.below j e here

/-- By induction on the word: a new character makes every total on the way one larger. -/
theorem Growing.bump_grown (growing : Growing d) (word : List Char)
    (letters : ∀ c ∈ word, c.isAlphanum = true) (fresh : uniChar ∉ matching d (spell word)) :
    Grown (bump uniChar word d) ∧ (bump uniChar word d).total weight = d.total weight + 1 := by
  induction word generalizing d with
  | nil =>
    have sum := total_setEntry weight d matchKey
      (.inl (.matched (insert uniChar (matching d []))))
    have old : entryTotal weight (d.find matchKey) = (matching d []).card := by
      rw [matching, List.nil_append, atPath]
      cases found : d.find matchKey with
      | none => rfl
      | some item =>
        cases item with
        | inl v =>
          obtain ⟨set, rfl, -⟩ := growing.node.match_leaf found
          rfl
        | inr e => exact absurd found (growing.node.inner_ne_match e)
    have card : (insert uniChar (matching d [])).card = (matching d []).card + 1 :=
      Finset.card_insert_of_notMem fresh
    rw [old] at sum
    simp only [entryTotal, weight, card] at sum
    refine growing.counted_grown match_ne_count (by omega) ?_ ?_
    · rintro v ⟨⟩
      exact ⟨rfl, _, rfl, Finset.insert_nonempty _ _⟩
    · intro e same
      cases same
  | cons c word ih =>
    have below := ih (growing.child [c]) (fun b member => letters b (List.mem_cons_of_mem c member))
      (by rw [← matching_cons]; exact fresh)
    have sum := total_setEntry weight d [c]
      (.inr (bump uniChar word (d.child [c])))
    have old : entryTotal weight (d.find [c]) = (d.child [c]).total weight := by
      rw [Level.child]
      cases found : d.find [c] with
      | none => rfl
      | some item =>
        cases item with
        | inl v => exact absurd found (growing.node.no_value c v)
        | inr e => rfl
    rw [old] at sum
    simp only [entryTotal] at sum
    refine growing.counted_grown (letter_ne_count c) (by omega) ?_ ?_
    · intro v same
      cases same
    · rintro e ⟨⟩
      exact ⟨⟨c, letters c List.mem_cons_self, rfl⟩, by omega, below.1⟩

theorem matching_nil (e : Trie) (same : e.find matchKey = d.find matchKey) :
    matching e [] = matching d [] := by
  rw [matching, matching, List.nil_append, atPath, atPath, same]

theorem child_counted (d : Trie) (c : Char) : (counted d).child [c] = d.child [c] :=
  child_setEntry_ne (letter_ne_count c).symm _

theorem matching_bump (word other : List Char) (d : Trie) :
    matching (bump uniChar word d) (spell other) =
      if other = word then insert uniChar (matching d (spell word))
      else matching d (spell other) := by
  induction word generalizing d other with
  | nil =>
    cases other with
    | nil =>
      have found : (bump uniChar [] d).find matchKey =
          some (.inl (.matched (insert uniChar (matching d [])))) := by
        rw [bump, find_counted, if_neg match_ne_count.symm, find_setEntry, if_pos rfl]
      rw [if_pos rfl, spell, List.map_nil, matching, List.nil_append, atPath, found]
      rfl
    | cons b other =>
      rw [if_neg (List.cons_ne_nil _ _)]
      change matching _ ([b] :: spell other) = matching d ([b] :: spell other)
      rw [matching_cons, matching_cons, bump, child_counted,
        child_setEntry_ne (letter_ne_match b).symm]
  | cons c word ih =>
    cases other with
    | nil =>
      rw [if_neg (List.cons_ne_nil _ _).symm]
      apply matching_nil
      rw [bump, find_counted, if_neg match_ne_count.symm, find_setEntry,
        if_neg (letter_ne_match c)]
    | cons b other =>
      change matching _ ([b] :: spell other) =
        if b :: other = c :: word then insert uniChar (matching d ([c] :: spell word))
        else matching d ([b] :: spell other)
      rw [matching_cons, matching_cons, matching_cons, bump, child_counted]
      by_cases same : b = c
      · subst same
        rw [child_setEntry, ih]
        simp
      · have differ : [c] ≠ [b] := fun eq => same (List.cons.inj eq).1.symm
        rw [child_setEntry_ne differ, if_neg fun eq => same (List.cons.inj eq).1]

end Growth

section Loops
variable {d : Trie} {R : Symbol → List Char → Prop}

structure Holds (R : Symbol → List Char → Prop) (d : Trie) : Prop where
  grown : Grown d
  sets : ∀ uniChar word, uniChar ∈ matching d (spell word) ↔ word ≠ [] ∧ R uniChar word

theorem Holds.word (holds : Holds R d) (uniChar : Symbol) (word : List Char) :
    Holds (fun c part => R c part ∨ c = uniChar ∧ word.filter Char.isAlphanum = part)
      (addWord [] uniChar d word) := by
  have turn := addWord_bump holds.grown.growing uniChar word
  rw [wordPath_spell] at turn
  by_cases none : word.filter Char.isAlphanum = []
  · rw [if_pos none] at turn
    rw [turn]
    refine ⟨holds.grown, ?_⟩
    intro c part
    rw [holds.sets, none]
    grind
  · rw [if_neg none] at turn
    by_cases known : uniChar ∈ matching d (spell (word.filter Char.isAlphanum))
    · rw [if_pos known] at turn
      rw [turn]
      refine ⟨holds.grown, ?_⟩
      intro c part
      have already := ((holds.sets _ _).mp known).2
      rw [holds.sets]
      grind
    · rw [if_neg known] at turn
      rw [turn]
      refine ⟨(holds.grown.growing.bump_grown _ ?_ known).1, ?_⟩
      · intro c member
        exact (List.mem_filter.mp member).2
      · intro c part
        rw [matching_bump]
        by_cases same : part = word.filter Char.isAlphanum
        · rw [if_pos same, Finset.mem_insert, holds.sets]
          grind
        · rw [if_neg same, holds.sets]
          grind

theorem Holds.congr {S : Symbol → List Char → Prop} (holds : Holds R d)
    (same : ∀ c part, R c part ↔ S c part) : Holds S d :=
  ⟨holds.grown, fun c part => by rw [holds.sets, same]⟩

theorem Holds.words (holds : Holds R d) (uniChar : Symbol) (words : List (List Char)) :
    Holds (fun c part => R c part ∨
      c = uniChar ∧ ∃ word ∈ words, word.filter Char.isAlphanum = part)
      (words.foldl (addWord [] uniChar) d) := by
  induction words generalizing d R with
  | nil => exact holds.congr fun c part => by simp
  | cons word words ih =>
    refine (ih (holds.word uniChar word)).congr ?_
    intro c part
    simp only [List.mem_cons, exists_eq_or_imp]
    tauto

theorem Holds.chars (descMap : Descriptions) (includeChars : List Symbol) (holds : Holds R d) :
    Holds (fun c part => R c part ∨ c ∈ includeChars ∧ HasPart descMap c part)
      (includeChars.foldl (addChar descMap []) d) := by
  induction includeChars generalizing d R with
  | nil => exact holds.congr fun c part => by simp
  | cons uniChar includeChars ih =>
    have first : Holds (fun c part => R c part ∨ c = uniChar ∧ HasPart descMap uniChar part)
        (addChar descMap [] d uniChar) := by
      unfold addChar
      cases found : descMap.lookup uniChar with
      | none =>
        apply holds.congr
        intro c part
        simp [HasPart, found]
      | some description =>
        apply (holds.words uniChar _).congr
        intro c part
        simp [HasPart, found]
    refine (ih first).congr ?_
    intro c part
    simp only [List.mem_cons]
    constructor
    · rintro ((old | ⟨rfl, has⟩) | later)
      · exact .inl old
      · exact .inr ⟨.inl rfl, has⟩
      · exact .inr ⟨.inr later.1, later.2⟩
    · rintro (old | ⟨rfl | later, has⟩)
      · exact .inl (.inl old)
      · exact .inl (.inr ⟨rfl, has⟩)
      · exact .inr ⟨later, has⟩

theorem holds_start : Holds (fun _ _ => False) (Level.empty.put [countKey] (.count 0)) := by
  have entry (k : Symbol) : (Level.empty.put [countKey] (Leaf.count 0)).find k =
      if countKey = k then some (.inl (.count 0)) else none := by
    rw [put_one, find_setEntry]
    rfl
  refine ⟨.mk ⟨List.nodup_singleton _, ?_, ?_, rfl⟩ List.mem_cons_self ?_, ?_⟩
  · intro k v found
    rw [entry] at found
    split at found
    · rename_i same
      cases found
      exact .inl ⟨same.symm, rfl⟩
    · cases found
  · intro k e found
    rw [entry] at found
    split at found <;> cases found
  · intro k e found
    rw [entry] at found
    split at found <;> cases found
  · intro uniChar word
    cases word with
    | nil => simp [matching, spell, atPath, entry, match_ne_count.symm, matchSet]
    | cons c word =>
      change uniChar ∈ matching _ ([c] :: spell word) ↔ _
      have none : (Level.empty.put [countKey] (Leaf.count 0)).child [c] = .empty := by
        rw [Level.child, entry, if_neg (letter_ne_count c).symm]
      rw [matching_cons, none, matching, atPath_empty]
      simp [matchSet]

/-- Whatever the order of the characters: the trie is well formed, and the match set of a word
    has the characters with that word among the parts of their descriptions. -/
theorem buildTrie_holds {descMap : Descriptions} {includeChars : List Symbol}
    (order : includeChars.Perm descMap.keys) :
    Holds (HasPart descMap) (buildTrie descMap [] includeChars .empty) := by
  refine (holds_start.chars descMap includeChars).congr ?_
  intro c part
  constructor
  · rintro (none | ⟨-, has⟩)
    · exact none.elim
    · exact has
  · intro has
    obtain ⟨description, found, -⟩ := id has
    have known : c ∈ descMap := AList.lookup_isSome.mp (by rw [found]; rfl)
    exact .inr ⟨order.mem_iff.mpr known, has⟩

end Loops

section Arrangement
variable {d e : Trie}

theorem Grown.arranged (grown : Grown d) (arranged : Arranged d e) : Grown e := by
  induction grown generalizing e with
  | mk node count below ih =>
    rename_i d
    have keys := arranged.keys_perm
    have total : d.total weight = e.total weight := arranged.total_eq
    have found (k : Symbol) := arranged.find_same node.distinct k
    refine .mk ⟨keys.nodup_iff.mp node.distinct, ?_, ?_, ?_⟩ (keys.mem_iff.mp count) ?_
    · intro k v here
      rw [← total]
      exact node.leaf k v (sameEntry_value (here ▸ found k))
    · intro k level here
      obtain ⟨old, there, same⟩ := sameEntry_inner (here ▸ found k)
      rw [← same.total_eq]
      exact node.letter k old there
    · have own := (Grown.mk node count below).count
      have same := found countKey
      rw [own] at same
      rw [← total, atPath, value_sameEntry same]
      rfl
    · intro k level here
      obtain ⟨old, there, same⟩ := sameEntry_inner (here ▸ found k)
      exact ih k old there same

theorem matching_arranged (grown : Grown d) (arranged : Arranged d e) (word : List Char) :
    matching e (spell word) = matching d (spell word) := by
  induction word generalizing d e with
  | nil =>
    apply matching_nil
    have same := arranged.find_same grown.node.distinct matchKey
    cases here : e.find matchKey with
    | none =>
      rw [here] at same
      exact (sameEntry_none same).symm
    | some item =>
      rw [here] at same
      cases item with
      | inl v => exact (sameEntry_value same).symm
      | inr level => exact absurd here ((grown.arranged arranged).node.inner_ne_match level)
  | cons c word ih =>
    change matching e ([c] :: spell word) = matching d ([c] :: spell word)
    rw [matching_cons, matching_cons, Level.child, Level.child]
    have same := arranged.find_same grown.node.distinct [c]
    cases here : e.find [c] with
    | none =>
      rw [here] at same
      rw [sameEntry_none same]
    | some item =>
      rw [here] at same
      cases item with
      | inl v => rw [sameEntry_value same]
      | inr level =>
        obtain ⟨old, there, below⟩ := sameEntry_inner same
        rw [there]
        exact ih (grown.growing.below _ old there) below

theorem Holds.arranged {R : Symbol → List Char → Prop} (holds : Holds R d)
    (arranged : Arranged d e) : Holds R e := by
  refine ⟨holds.grown.arranged arranged, ?_⟩
  intro uniChar word
  rw [matching_arranged holds.grown arranged]
  exact holds.sets uniChar word

end Arrangement

section Listing
variable {d : Trie}

theorem mem_indexed_find (distinct : d.keys.Nodup) (word : List Char) (set : Finset Symbol) :
    (word, set) ∈ indexed d ↔
      (∃ k v, d.find k = some (.inl v) ∧ (word, set) ∈ matchesAt k v) ∨
        ∃ k e rest, d.find k = some (.inr e) ∧ word = k ++ rest ∧ (rest, set) ∈ indexed e := by
  induction d with
  | empty => simp [indexed, find]
  | value key v others ih =>
    obtain ⟨fresh, distinct⟩ := List.nodup_cons.mp distinct
    rw [indexed, List.mem_append, ih distinct]
    constructor
    · rintro (here | ⟨k, w, found, listed⟩ | ⟨k, e, rest, found, shape, listed⟩)
      · exact .inl ⟨key, v, by rw [find, if_pos rfl], here⟩
      · exact .inl ⟨k, w, by rw [find, if_neg (ne_of_find fresh found), found], listed⟩
      · exact .inr ⟨k, e, rest, by rw [find, if_neg (ne_of_find fresh found), found], shape, listed⟩
    · rintro (⟨k, w, found, listed⟩ | ⟨k, e, rest, found, shape, listed⟩)
      · rw [find] at found
        split at found
        · rename_i same
          cases found
          subst same
          exact .inl listed
        · exact .inr (.inl ⟨k, w, found, listed⟩)
      · rw [find] at found
        split at found
        · cases found
        · exact .inr (.inr ⟨k, e, rest, found, shape, listed⟩)
  | inner key node others _ ih =>
    obtain ⟨fresh, distinct⟩ := List.nodup_cons.mp distinct
    rw [indexed, List.mem_append, ih distinct]
    constructor
    · rintro (here | ⟨k, w, found, listed⟩ | ⟨k, e, rest, found, shape, listed⟩)
      · obtain ⟨⟨rest, below⟩, listed, same⟩ := List.mem_map.mp here
        cases same
        exact .inr ⟨key, node, rest, by rw [find, if_pos rfl], rfl, listed⟩
      · exact .inl ⟨k, w, by rw [find, if_neg (ne_of_find fresh found), found], listed⟩
      · exact .inr ⟨k, e, rest, by rw [find, if_neg (ne_of_find fresh found), found], shape, listed⟩
    · rintro (⟨k, w, found, listed⟩ | ⟨k, e, rest, found, shape, listed⟩)
      · rw [find] at found
        split at found
        · cases found
        · exact .inr (.inl ⟨k, w, found, listed⟩)
      · rw [find] at found
        split at found
        · rename_i same
          cases found
          subst same
          exact .inl (List.mem_map.mpr ⟨(rest, set), listed, by rw [shape]⟩)
        · exact .inr (.inr ⟨k, e, rest, found, shape, listed⟩)

theorem mem_matchesAt {k : Symbol} {v : Leaf} {word : List Char} {set : Finset Symbol} :
    (word, set) ∈ matchesAt k v ↔ k = matchKey ∧ word = [] ∧ v = .matched set := by
  cases v with
  | count n => simp [matchesAt]
  | matched s =>
    rw [matchesAt]
    split
    · rename_i same
      simp [same, eq_comm]
    · rename_i other
      simp [other]

theorem Grown.indexed_here (grown : Grown d) (set : Finset Symbol) :
    ([], set) ∈ indexed d ↔ set.Nonempty ∧ matching d [] = set := by
  rw [mem_indexed_find grown.node.distinct, matching, List.nil_append, atPath]
  constructor
  · rintro (⟨k, v, found, listed⟩ | ⟨k, e, rest, found, shape, -⟩)
    · obtain ⟨rfl, -, rfl⟩ := mem_matchesAt.mp listed
      obtain ⟨s, same, some⟩ := grown.node.match_leaf found
      cases same
      rw [found]
      exact ⟨some, rfl⟩
    · obtain ⟨⟨c, -, rfl⟩, -⟩ := grown.node.letter k e found
      cases shape
  · rintro ⟨some, same⟩
    left
    cases found : d.find matchKey with
    | none =>
      rw [found] at same
      exact absurd same.symm some.ne_empty
    | some item =>
      cases item with
      | inl v =>
        obtain ⟨s, rfl, -⟩ := grown.node.match_leaf found
        rw [found] at same
        change s = set at same
        exact ⟨matchKey, _, found, mem_matchesAt.mpr ⟨rfl, rfl, by rw [same]⟩⟩
      | inr e => exact absurd found (grown.node.inner_ne_match e)

theorem Grown.indexed_below (grown : Grown d) (c : Char) (word : List Char)
    (set : Finset Symbol) : (c :: word, set) ∈ indexed d ↔
      ∃ e, d.find [c] = some (.inr e) ∧ (word, set) ∈ indexed e := by
  rw [mem_indexed_find grown.node.distinct]
  constructor
  · rintro (⟨k, v, -, listed⟩ | ⟨k, e, rest, found, shape, listed⟩)
    · cases (mem_matchesAt.mp listed).2.1
    · obtain ⟨⟨b, -, rfl⟩, -⟩ := grown.node.letter k e found
      cases shape
      exact ⟨e, found, listed⟩
  · rintro ⟨e, found, listed⟩
    exact .inr ⟨[c], e, word, found, rfl, listed⟩

/-- By induction on the word: what is listed for a trie are its match sets. -/
theorem Grown.mem_indexed (grown : Grown d) (word : List Char) (set : Finset Symbol) :
    (word, set) ∈ indexed d ↔ set.Nonempty ∧ matching d (spell word) = set := by
  induction word generalizing d with
  | nil => exact grown.indexed_here set
  | cons c word ih =>
    change _ ↔ set.Nonempty ∧ matching d ([c] :: spell word) = set
    rw [grown.indexed_below, matching_cons, Level.child]
    constructor
    · rintro ⟨e, found, listed⟩
      rw [found]
      exact (ih (grown.growing.below _ e found)).mp listed
    · rintro ⟨some, same⟩
      cases found : d.find [c] with
      | none =>
        rw [found] at same
        simp only [matching, atPath_empty] at same
        exact absurd same.symm some.ne_empty
      | some item =>
        cases item with
        | inl v => exact absurd found (grown.node.no_value c v)
        | inr e =>
          rw [found] at same
          exact ⟨e, rfl, (ih (grown.growing.below _ e found)).mpr ⟨some, same⟩⟩

theorem Holds.mem_indexed {R : Symbol → List Char → Prop} (holds : Holds R d) (word : List Char)
    (set : Finset Symbol) : (word, set) ∈ indexed d ↔
      word ≠ [] ∧ (∃ c, R c word) ∧ ∀ c, c ∈ set ↔ R c word := by
  rw [holds.grown.mem_indexed]
  constructor
  · rintro ⟨⟨c, member⟩, rfl⟩
    obtain ⟨long, has⟩ := (holds.sets c word).mp member
    refine ⟨long, ⟨c, has⟩, ?_⟩
    intro b
    rw [holds.sets]
    exact and_iff_right long
  · rintro ⟨long, ⟨c, has⟩, same⟩
    refine ⟨⟨c, (same c).mpr has⟩, ?_⟩
    ext b
    rw [holds.sets, same]
    exact and_iff_right long

end Listing
end SCLOrkEmoji
