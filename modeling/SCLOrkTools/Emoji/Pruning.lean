import SCLOrkTools.Emoji.Index

/- The second pass, against the flattened trie: chains of nodes with one way on become one key.
   Words and match sets stay, siblings part at their first letter, and counts stay true. -/
namespace SCLOrkEmoji
open MultiLevel Level

section Flattened

def squeeze : Turn → Trie → Symbol × Trie
  | _, .empty => ([], .empty)
  | .continuation, .value _ _ rest => squeeze .continuation rest
  | .continuation, .inner key node _ =>
    let below := squeeze (turn node) node
    (key ++ below.1, below.2)
  | .base, .value key leaf rest => ([], .value key leaf (squeeze .base rest).2)
  | .base, .inner key node rest =>
    let below := squeeze (turn node) node
    ([], .inner (key ++ below.1) below.2 (squeeze .base rest).2)
  | .terminating, .value key leaf rest => ([], .value key leaf (squeeze .terminating rest).2)
  | .terminating, .inner _ _ rest => ([], (squeeze .terminating rest).2)

/-- What siblings differ in: search keys in their first letter, the others in the whole key. -/
def label (key : Symbol) : Symbol := if searches key then key.take 1 else key

def Siblings (d : Trie) : Prop := (d.keys.map label).Nodup

def Counts (d : Trie) : Prop := d.find countKey = some (.inl (.count (d.total weight)))

structure Squeezed (node : Trie) (extra : Symbol) (d : Trie) : Prop where
  index : indexed node = (indexed d).map fun e => (extra ++ e.1, e.2)
  total : d.total weight = node.total weight
  counts : Counts d
  siblings : Siblings d
  solid : d.Solid
  inside : d.Inside fun e => Siblings e ∧ Counts e
  puts : ∀ path key finalTrie,
    (pruneEntries (turn node) node ⟨path ++ [key], finalTrie⟩).finalTrie =
      putAll (d.leaves.map fun e => (path ++ (key ++ extra) :: e.1, e.2)) finalTrie

def Copied (way : Turn) : Trie → Prop
  | .empty => True
  | .value key _ rest => searches key = false ∧ key ∉ rest.keys ∧ Copied way rest
  | .inner key node rest =>
    way = .base ∧ (∃ c : Char, c.isAlphanum = true ∧ key = [c]) ∧ key ∉ rest.keys ∧
      Squeezed node (squeeze (turn node) node).1 (squeeze (turn node) node).2 ∧ Copied way rest

end Flattened

section Copies
variable {way : Turn} {d : Trie}

theorem squeeze_copied_key (copies : way ≠ .continuation) (d : Trie) : (squeeze way d).1 = [] := by
  induction d with
  | empty => rfl
  | value key leaf rest ih => cases way <;> first | exact absurd rfl copies | rfl
  | inner key node rest _ ih => cases way <;> first | exact absurd rfl copies | rfl

theorem squeeze_value (copies : way ≠ .continuation) (key : Symbol) (leaf : Leaf) (rest : Trie) :
    (squeeze way (.value key leaf rest)).2 = .value key leaf (squeeze way rest).2 := by
  cases way with
  | continuation => exact absurd rfl copies
  | base | terminating => rfl

theorem searches_letter {c : Char} (letter : c.isAlphanum = true) (rest : Symbol) :
    searches (c :: rest) = true := by
  have other : c ≠ '_' := by
    rintro rfl
    exact absurd letter (by decide)
  simp [searches, other]

theorem label_letter {c : Char} (letter : c.isAlphanum = true) (rest : Symbol) :
    label (c :: rest) = [c] := by
  rw [label, if_pos (searches_letter letter rest), List.take_succ_cons, List.take_zero]

theorem label_other {key : Symbol} (other : searches key = false) : label key = key := by
  rw [label, other]
  rfl

theorem copied_keys (copies : way ≠ .continuation) (copied : Copied way d) :
    (squeeze way d).2.keys.map label = d.keys := by
  induction d with
  | empty => rfl
  | value key leaf rest ih =>
    rw [squeeze_value copies, keys, List.map_cons, label_other copied.1, ih copied.2.2, keys]
  | inner key node rest _ ih =>
    obtain ⟨rfl, ⟨c, letter, rfl⟩, -, -, others⟩ := copied
    change label ([c] ++ _) :: (squeeze .base rest).2.keys.map label = [c] :: rest.keys
    rw [List.singleton_append, label_letter letter, ih others]

theorem copied_index (copies : way ≠ .continuation) (copied : Copied way d) :
    indexed (squeeze way d).2 = indexed d := by
  induction d with
  | empty => rfl
  | value key leaf rest ih => rw [squeeze_value copies, indexed, indexed, ih copied.2.2]
  | inner key node rest _ ih =>
    obtain ⟨rfl, -, -, below, others⟩ := copied
    change (indexed (squeeze (turn node) node).2).map
      (fun e => ((key ++ (squeeze (turn node) node).1) ++ e.1, e.2)) ++
        indexed (squeeze .base rest).2 = _
    rw [indexed, ih others, below.index, List.map_map]
    simp [Function.comp_def]

theorem copied_total (copies : way ≠ .continuation) (copied : Copied way d) :
    (squeeze way d).2.total weight = d.total weight := by
  induction d with
  | empty => rfl
  | value key leaf rest ih => rw [squeeze_value copies, total, total, ih copied.2.2]
  | inner key node rest _ ih =>
    obtain ⟨rfl, -, -, below, others⟩ := copied
    change (squeeze (turn node) node).2.total weight + (squeeze .base rest).2.total weight = _
    rw [total, ih others, below.total]

theorem copied_count (copies : way ≠ .continuation) (copied : Copied way d) :
    (squeeze way d).2.find countKey = d.find countKey := by
  induction d with
  | empty => rfl
  | value key leaf rest ih => rw [squeeze_value copies, find, find, ih copied.2.2]
  | inner key node rest _ ih =>
    obtain ⟨rfl, ⟨c, letter, rfl⟩, -, -, others⟩ := copied
    have other (l : Symbol) : c :: l ≠ countKey := by
      intro same
      have first : c = '_' := (List.cons.inj same).1
      rw [first] at letter
      exact absurd letter (by decide)
    change (Level.inner ([c] ++ _) _ _).find countKey = _
    rw [find, find, List.singleton_append, if_neg (other _), if_neg (other _), ih others]

theorem copied_solid (copies : way ≠ .continuation) (copied : Copied way d) :
    (squeeze way d).2.Solid := by
  induction d with
  | empty => trivial
  | value key leaf rest ih =>
    rw [squeeze_value copies]
    refine ⟨?_, ih copied.2.2⟩
    intro member
    apply copied.2.1
    rw [← copied_keys copies copied.2.2, ← label_other copied.1]
    exact List.mem_map_of_mem member
  | inner key node rest _ ih =>
    obtain ⟨rfl, ⟨c, letter, rfl⟩, fresh, below, others⟩ := copied
    refine ⟨?_, leaves_ne_of_keys below.solid ?_, below.solid, ih others⟩
    · intro member
      apply fresh
      rw [← copied_keys copies others, ← label_letter letter (squeeze (turn node) node).1]
      exact List.mem_map_of_mem member
    · exact List.ne_nil_of_mem (mem_keys_of_find below.counts)

theorem copied_inside (copies : way ≠ .continuation) (copied : Copied way d) :
    (squeeze way d).2.Inside fun e => Siblings e ∧ Counts e := by
  induction d with
  | empty => trivial
  | value key leaf rest ih =>
    rw [squeeze_value copies]
    exact ih copied.2.2
  | inner key node rest _ ih =>
    obtain ⟨rfl, -, -, below, others⟩ := copied
    exact ⟨⟨below.siblings, below.counts⟩, below.inside, ih others⟩

/-- By induction over the entries: the loop puts what the flattened node holds, in its order. -/
theorem copied_puts (copies : way ≠ .continuation) (copied : Copied way d) (path : List Symbol)
    (finalTrie : Trie) : pruneEntries way d ⟨path, finalTrie⟩ =
      ⟨path, putAll ((squeeze way d).2.leaves.map fun e => (path ++ e.1, e.2)) finalTrie⟩ := by
  induction d generalizing finalTrie with
  | empty => cases way <;> rfl
  | value key leaf rest ih =>
    have turned : pruneEntries way (.value key leaf rest) ⟨path, finalTrie⟩ =
        pruneEntries way rest ⟨path, finalTrie.put (path ++ [key]) leaf⟩ := by
      cases way with
      | continuation => exact absurd rfl copies
      | terminating => rfl
      | base =>
        rw [pruneEntries, copied.1]
        rfl
    rw [turned, ih copied.2.2, squeeze_value copies, leaves, List.map_cons]
    rfl
  | inner key node rest _ ih =>
    obtain ⟨rfl, ⟨c, letter, rfl⟩, -, below, others⟩ := copied
    rw [pruneEntries]
    simp only [searches_letter letter, if_true]
    rw [ih others, below.puts]
    change _ = Pruning.mk path (putAll (List.map _ (((squeeze (turn node) node).2.leaves.map _) ++
      (squeeze .base rest).2.leaves)) finalTrie)
    rw [List.map_append, putAll_append, List.map_map]
    rfl

end Copies
section Nodes
variable {d : Trie} {way : Turn}

theorem copied_of_find (distinct : d.keys.Nodup)
    (leaf : ∀ k v, d.find k = some (.inl v) → searches k = false)
    (below : ∀ k e, d.find k = some (.inr e) →
      way = .base ∧ (∃ c : Char, c.isAlphanum = true ∧ k = [c]) ∧
        Squeezed e (squeeze (turn e) e).1 (squeeze (turn e) e).2) : Copied way d := by
  induction d with
  | empty => trivial
  | value key v rest ih =>
    obtain ⟨fresh, distinct⟩ := List.nodup_cons.mp distinct
    have later {k : Symbol} {item} (found : rest.find k = some item) :
        (Level.value key v rest).find k = some item := by
      rw [find, if_neg (ne_of_find fresh found), found]
    refine ⟨leaf key v (by rw [find, if_pos rfl]), fresh, ih distinct ?_ ?_⟩
    · intro k w found
      exact leaf k w (later found)
    · intro k e found
      exact below k e (later found)
  | inner key node rest _ ih =>
    obtain ⟨fresh, distinct⟩ := List.nodup_cons.mp distinct
    have later {k : Symbol} {item} (found : rest.find k = some item) :
        (Level.inner key node rest).find k = some item := by
      rw [find, if_neg (ne_of_find fresh found), found]
    obtain ⟨base, letter, squeezed⟩ := below key node (by rw [find, if_pos rfl])
    refine ⟨base, letter, fresh, squeezed, ih distinct ?_ ?_⟩
    · intro k w found
      exact leaf k w (later found)
    · intro k e found
      exact below k e (later found)

theorem Node.leaf_searches (node : Node d) {k : Symbol} {v : Leaf}
    (found : d.find k = some (.inl v)) : searches k = false := by
  rcases node.leaf k v found with ⟨rfl, -⟩ | ⟨rfl, -⟩ <;> rfl

theorem base_of_keys {j k l : Symbol} (differ : [j, k, l].Nodup) (first : j ∈ d.keys)
    (second : k ∈ d.keys) (third : l ∈ d.keys) : turn d = .base := by
  have sub : [j, k, l].Subperm d.keys := List.subperm_of_subset differ (by
    intro x member
    simp only [List.mem_cons, List.not_mem_nil, or_false] at member
    rcases member with rfl | rfl | rfl
    · exact first
    · exact second
    · exact third)
  have size : 2 < d.size := sub.length_le
  exact if_pos size

theorem Grown.base_of_match (grown : Grown d) {k : Symbol} {e : Trie}
    (found : d.find k = some (.inr e)) (matched : d.find matchKey ≠ none) : turn d = .base := by
  obtain ⟨⟨c, -, rfl⟩, -⟩ := grown.node.letter k e found
  have differ : [countKey, matchKey, [c]].Nodup := by
    simp [(letter_ne_match c).symm, (letter_ne_count c).symm, match_ne_count.symm]
  exact base_of_keys differ (mem_keys_of_find grown.count)
    (find_isSome.mp (Option.isSome_iff_ne_none.mpr matched)) (mem_keys_of_find found)

theorem Grown.copied (grown : Grown d) (copies : turn d ≠ .continuation)
    (below : ∀ k e, d.find k = some (.inr e) →
      Squeezed e (squeeze (turn e) e).1 (squeeze (turn e) e).2) : Copied (turn d) d := by
  apply copied_of_find grown.node.distinct
  · intro k v found
    exact grown.node.leaf_searches found
  · intro k e found
    refine ⟨?_, (grown.node.letter k e found).1, below k e found⟩
    by_cases matched : d.find matchKey = none
    · by_contra other
      apply copies
      unfold turn at other ⊢
      grind
    · exact grown.base_of_match found matched

theorem Copied.squeezed (copied : Copied (turn d) d) (grown : Grown d)
    (copies : turn d ≠ .continuation) :
    Squeezed d (squeeze (turn d) d).1 (squeeze (turn d) d).2 := by
  rw [squeeze_copied_key copies]
  refine ⟨?_, copied_total copies copied, ?_, ?_, copied_solid copies copied,
    copied_inside copies copied, ?_⟩
  · rw [copied_index copies copied]
    simp
  · unfold Counts
    rw [copied_count copies copied, copied_total copies copied, grown.count]
  · unfold Siblings
    rw [copied_keys copies copied]
    exact grown.node.distinct
  · intro path key finalTrie
    rw [copied_puts copies copied]
    simp

theorem continuation_small (onward : turn d = .continuation) :
    d.size ≤ 2 ∧ d.find matchKey = none := by
  unfold turn at onward
  grind

theorem Grown.continuation (grown : Grown d) (positive : 0 < d.total weight)
    (onward : turn d = .continuation) : ∃ (k : Symbol) (e : Trie) (v : Leaf),
      d.find k = some (.inr e) ∧ (∃ n, v = .count n) ∧
        (d = .value countKey v (.inner k e .empty) ∨
          d = .inner k e (.value countKey v .empty)) := by
  obtain ⟨small, noMatch⟩ := continuation_small onward
  have leaf (k : Symbol) (v : Leaf) (found : d.find k = some (.inl v)) :
      k = countKey ∧ ∃ n, v = .count n := by
    rcases grown.node.leaf k v found with ⟨key, shape⟩ | ⟨rfl, -⟩
    · exact ⟨key, _, shape⟩
    · rw [noMatch] at found
      cases found
  have letter (k : Symbol) (e : Trie) (found : d.find k = some (.inr e)) : k ≠ countKey := by
    rintro rfl
    exact grown.node.inner_ne_count e found
  have count : countKey ∈ d.keys := mem_keys_of_find grown.count
  have distinct := grown.node.distinct
  cases d with
  | empty => cases count
  | value k v rest =>
    obtain ⟨rfl, n, rfl⟩ := leaf k v (by rw [find, if_pos rfl])
    cases rest with
    | empty => simp [total, weight] at positive
    | value j w rest =>
      have other : countKey ≠ j := by
        rintro rfl
        simp [keys] at distinct
      exact absurd (leaf j w (by rw [find, if_neg other, find, if_pos rfl])).1 other.symm
    | inner j e rest =>
      have other : countKey ≠ j := by
        rintro rfl
        simp [keys] at distinct
      cases rest with
      | empty =>
        exact ⟨j, e, _, by rw [find, if_neg other, find, if_pos rfl], ⟨n, rfl⟩, .inl rfl⟩
      | value | inner => simp [size, keys] at small
  | inner k e rest =>
    have other := letter k e (by rw [find, if_pos rfl])
    cases rest with
    | empty => simp [keys, Ne.symm other] at count
    | value j w rest =>
      cases rest with
      | empty =>
        have differ : k ≠ j := by
          rintro rfl
          simp [keys] at distinct
        obtain ⟨rfl, n, rfl⟩ := leaf j w (by rw [find, if_neg differ, find, if_pos rfl])
        exact ⟨k, e, _, by rw [find, if_pos rfl], ⟨n, rfl⟩, .inr rfl⟩
      | value | inner => simp [size, keys] at small
    | inner j f rest =>
      have differ : k ≠ j := by
        rintro rfl
        simp [keys] at distinct
      have other' := letter j f (by rw [find, if_neg differ, find, if_pos rfl])
      cases rest with
      | empty => simp [keys, Ne.symm other, Ne.symm other'] at count
      | value | inner => simp [size, keys] at small

theorem coalesce_last (path : List Symbol) (last key : Symbol) (finalTrie : Trie) :
    Pruning.coalesce ⟨path ++ [last], finalTrie⟩ key = ⟨path ++ [last ++ key], finalTrie⟩ := by
  simp [Pruning.coalesce]

theorem Squeezed.extend {node e : Trie} {extra k : Symbol} (squeezed : Squeezed node extra e)
    (index : indexed d = (indexed node).map fun e => (k ++ e.1, e.2))
    (total : d.total weight = node.total weight)
    (puts : ∀ path key finalTrie,
      (pruneEntries (turn d) d ⟨path ++ [key], finalTrie⟩).finalTrie =
        (pruneEntries (turn node) node ⟨path ++ [key ++ k], finalTrie⟩).finalTrie) :
    Squeezed d (k ++ extra) e := by
  refine ⟨?_, squeezed.total.trans total.symm, squeezed.counts, squeezed.siblings, squeezed.solid,
    squeezed.inside, ?_⟩
  · rw [index, squeezed.index, List.map_map]
    simp [Function.comp_def]
  · intro path key finalTrie
    rw [puts, squeezed.puts, List.append_assoc]

/-- By induction over the trie: every node below the root becomes what is said. -/
theorem Grown.squeezed (grown : Grown d) (positive : 0 < d.total weight) :
    Squeezed d (squeeze (turn d) d).1 (squeeze (turn d) d).2 := by
  induction grown with
  | mk node count below ih =>
    rename_i d
    have grown : Grown d := .mk node count below
    have inner (k : Symbol) (e : Trie) (found : d.find k = some (.inr e)) :
        Squeezed e (squeeze (turn e) e).1 (squeeze (turn e) e).2 :=
      ih k e found (node.letter k e found).2
    by_cases onward : turn d = .continuation
    · obtain ⟨k, e, v, found, ⟨n, rfl⟩, shape⟩ := grown.continuation positive onward
      have other : k ≠ countKey := by
        rintro rfl
        exact node.inner_ne_count e found
      have step := inner k e found
      rw [onward]
      rcases shape with rfl | rfl
      · refine step.extend (by simp [indexed, matchesAt]) (by simp [total, weight]) ?_
        intro path key finalTrie
        rw [onward, pruneEntries, pruneEntries, if_neg other, coalesce_last]
        rfl
      · refine step.extend (by simp [indexed, matchesAt]) (by simp [total, weight]) ?_
        intro path key finalTrie
        rw [onward, pruneEntries, if_neg other, coalesce_last]
        rfl
    · exact (grown.copied onward inner).squeezed grown onward

end Nodes

section Root
variable {d : Trie}

/-- From a root with two ways on, the pass leaves the flattened trie. -/
theorem Grown.pruned (grown : Grown d) (base : turn d = .base) :
    prunedTrie d = (squeeze .base d).2 ∧ Squeezed d [] (squeeze .base d).2 := by
  have copies : turn d ≠ .continuation := by rw [base]; decide
  have copied := grown.copied copies fun k e found =>
    (grown.growing.below k e found).squeezed (grown.node.letter k e found).2
  have squeezed := copied.squeezed grown copies
  rw [squeeze_copied_key copies, base] at squeezed
  refine ⟨?_, squeezed⟩
  have puts := copied_puts copies copied [] .empty
  rw [base] at puts
  rw [prunedTrie, pruneTrie, base, puts]
  simp only [List.nil_append, List.map_id']
  exact putAll_empty squeezed.solid

theorem Holds.root {R : Symbol → List Char → Prop} (holds : Holds R d) {a b : Char}
    {v w : List Char} {x y : Symbol} (differ : a ≠ b) (first : R x (a :: v))
    (second : R y (b :: w)) : turn d = .base := by
  have way {c : Char} {rest : List Char} {z : Symbol} (has : R z (c :: rest)) : [c] ∈ d.keys := by
    have member : z ∈ matching d ([c] :: spell rest) :=
      (holds.sets z (c :: rest)).mpr ⟨List.cons_ne_nil _ _, has⟩
    apply find_isSome.mp
    rw [Option.isSome_iff_ne_none]
    intro none
    rw [matching_cons, Level.child, none, matching, atPath_empty] at member
    simp [matchSet] at member
  have distinct : [countKey, [a], [b]].Nodup := by
    simp [(letter_ne_count a).symm, (letter_ne_count b).symm, differ]
  exact base_of_keys distinct (mem_keys_of_find holds.grown.count) (way first) (way second)

theorem Siblings.pairwise (siblings : Siblings d) :
    d.keys.Pairwise fun j k => j ≠ k ∧
      (searches j = true → searches k = true → j.head? ≠ k.head?) := by
  refine (List.pairwise_map.mp siblings).imp ?_
  intro j k differ
  refine ⟨fun same => differ (by rw [same]), ?_⟩
  intro jSearches kSearches same
  apply differ
  rw [label, label, if_pos jSearches, if_pos kSearches]
  cases j <;> cases k <;> simp_all

/-- For descriptions with two words that start differently, whatever the order of the characters
    and of the keys at every node: the pruned trie has the words and match sets of the built one,
    which are the parts of words in the descriptions, siblings differ in their first letter, and
    the count of every node is the size of all match sets at or below. -/
theorem prunedTrie_keeps_index (descMap : Descriptions) (includeChars : List Symbol)
    (uniTrie : Trie) (order : includeChars.Perm descMap.keys)
    (arranged : Arranged (buildTrie descMap [] includeChars .empty) uniTrie)
    (starts : ∃ x y a b v w, a ≠ b ∧ HasPart descMap x (a :: v) ∧ HasPart descMap y (b :: w)) :
    (indexed (prunedTrie uniTrie)).Perm (indexed uniTrie) ∧
      (∀ word set, (word, set) ∈ indexed uniTrie ↔
        word ≠ [] ∧ (∃ c, HasPart descMap c word) ∧ ∀ c, c ∈ set ↔ HasPart descMap c word) ∧
      ∀ path node, (prunedTrie uniTrie).levelAt path = some node →
        (node.keys.Pairwise fun j k => j ≠ k ∧
          (searches j = true → searches k = true → j.head? ≠ k.head?)) ∧
        node.atPath [countKey] = some (.count (node.total weight)) := by
  have holds := (buildTrie_holds order).arranged arranged
  obtain ⟨x, y, a, b, v, w, differ, first, second⟩ := starts
  obtain ⟨result, squeezed⟩ := holds.grown.pruned (holds.root differ first second)
  rw [result]
  refine ⟨?_, fun word set => holds.mem_indexed word set, ?_⟩
  · have index := squeezed.index
    simp only [List.nil_append, List.map_id'] at index
    rw [index]
  · intro path node found
    obtain ⟨siblings, counts⟩ :=
      squeezed.inside.levelAt ⟨squeezed.siblings, squeezed.counts⟩ found
    exact ⟨siblings.pairwise, (atPath_one node countKey _).mpr counts⟩

def animals : Descriptions :=
  List.toAList [⟨['1'], "ox".toList⟩, ⟨['2'], "cat (ox)".toList⟩, ⟨['3'], "cats".toList⟩]

def animalTrie : Trie := buildTrie animals [] animals.keys .empty

theorem prunedTrie_animals :
    (prunedTrie animalTrie).leaves.map (fun e => e.1.map String.ofList) =
      [["_count"], ["ox", "_match"], ["ox", "_count"], ["cat", "_match"], ["cat", "_count"],
        ["cat", "s", "_match"], ["cat", "s", "_count"]] ∧
    (indexed (prunedTrie animalTrie)).Perm (indexed animalTrie) ∧
      (prunedTrie animalTrie).atPath [countKey] =
        some (.count ((prunedTrie animalTrie).total weight)) := by
  have starts : ∃ x y a b v w, a ≠ b ∧ HasPart animals x (a :: v) ∧ HasPart animals y (b :: w) :=
    ⟨['1'], ['2'], 'o', 'c', ['x'], ['a', 't'], by decide,
      ⟨"ox".toList, by decide, "ox".toList, by decide, by decide⟩,
      ⟨"cat (ox)".toList, by decide, "cat".toList, by decide, by decide⟩⟩
  obtain ⟨index, -, nodes⟩ := prunedTrie_keeps_index animals animals.keys animalTrie
    (List.Perm.refl _) (Arranged.refl _) starts
  exact ⟨by decide +kernel, index, (nodes [] _ rfl).2⟩

end Root
end SCLOrkEmoji
