import SCLOrkTools.Emoji.Pruning

/- How the flattened trie is laid out, whatever the order of its entries: every node has a count,
   matches only under their own key, and below each key the words that begin with it. -/
namespace SCLOrkEmoji
open MultiLevel Level

section Kinds
variable {d e : Trie}

def Kinds : Trie → Prop
  | .empty => True
  | .value key leaf rest =>
    (searches key = false ∧ (key = matchKey ↔ matchSet (some leaf) ≠ none)) ∧ Kinds rest
  | .inner key _ rest => (∃ c letters, c.isAlphanum = true ∧ key = c :: letters) ∧ Kinds rest

theorem kinds_of_find (distinct : d.keys.Nodup)
    (leaf : ∀ k v, d.find k = some (.inl v) →
      searches k = false ∧ (k = matchKey ↔ matchSet (some v) ≠ none))
    (below : ∀ k e, d.find k = some (.inr e) →
      (∃ c letters, c.isAlphanum = true ∧ k = c :: letters) ∧ Kinds e ∧ e.Inside Kinds) :
    Kinds d ∧ d.Inside Kinds := by
  induction d with
  | empty => exact ⟨trivial, trivial⟩
  | value key v rest ih =>
    obtain ⟨fresh, distinct⟩ := List.nodup_cons.mp distinct
    have later {k : Symbol} {item} (found : rest.find k = some item) :
        (Level.value key v rest).find k = some item := by
      rw [find, if_neg (ne_of_find fresh found), found]
    obtain ⟨kinds, inside⟩ := ih distinct (fun k w found => leaf k w (later found))
      (fun k e found => below k e (later found))
    exact ⟨⟨leaf key v (by rw [find, if_pos rfl]), kinds⟩, inside⟩
  | inner key node rest _ ih =>
    obtain ⟨fresh, distinct⟩ := List.nodup_cons.mp distinct
    have later {k : Symbol} {item} (found : rest.find k = some item) :
        (Level.inner key node rest).find k = some item := by
      rw [find, if_neg (ne_of_find fresh found), found]
    obtain ⟨kinds, inside⟩ := ih distinct (fun k w found => leaf k w (later found))
      (fun k e found => below k e (later found))
    obtain ⟨letter, node, inNode⟩ := below key node (by rw [find, if_pos rfl])
    exact ⟨⟨letter, kinds⟩, node, inNode, inside⟩

theorem Grown.kinds (grown : Grown d) : Kinds d ∧ d.Inside Kinds := by
  induction grown with
  | mk node count below ih =>
    apply kinds_of_find node.distinct
    · intro k v found
      refine ⟨node.leaf_searches found, ?_⟩
      rcases node.leaf k v found with ⟨rfl, rfl⟩ | ⟨rfl, set, rfl, -⟩
      · simp [matchSet, match_ne_count.symm]
      · simp [matchSet]
    · intro k e found
      obtain ⟨⟨c, letter, rfl⟩, -⟩ := node.letter k e found
      exact ⟨⟨c, [], letter, rfl⟩, ih _ e found⟩

theorem squeeze_kinds (kinds : Kinds d) (inside : d.Inside Kinds) (way : Turn) :
    Kinds (squeeze way d).2 ∧ (squeeze way d).2.Inside Kinds := by
  induction d generalizing way with
  | empty => cases way <;> exact ⟨trivial, trivial⟩
  | value key v rest ih =>
    obtain ⟨here, kinds⟩ := kinds
    cases way with
    | continuation => exact ih kinds inside .continuation
    | base | terminating =>
      obtain ⟨others, below⟩ := ih kinds inside _
      exact ⟨⟨here, others⟩, below⟩
  | inner key node rest ihNode ih =>
    obtain ⟨⟨c, letters, letter, rfl⟩, kinds⟩ := kinds
    obtain ⟨node, inNode, inside⟩ := inside
    cases way with
    | continuation => exact ihNode node inNode _
    | terminating => exact ih kinds inside .terminating
    | base =>
      obtain ⟨others, below⟩ := ih kinds inside .base
      obtain ⟨under, inUnder⟩ := ihNode node inNode (turn _)
      exact ⟨⟨⟨c, _, letter, rfl⟩, others⟩, under, inUnder, below⟩

theorem Kinds.arranged (arranged : Arranged d e) (kinds : Kinds d) : Kinds e := by
  induction arranged with
  | refl d => exact kinds
  | value key v _ ih => exact ⟨kinds.1, ih kinds.2⟩
  | inner key _ _ _ ih => exact ⟨kinds.1, ih kinds.2⟩
  | swap j k item item' d =>
    cases item with
    | inl v => cases item' <;> exact ⟨kinds.2.1, kinds.1, kinds.2.2⟩
    | inr level => cases item' <;> exact ⟨kinds.2.1, kinds.1, kinds.2.2⟩
  | trans _ _ first second => exact second (first kinds)

structure Laid (d : Trie) : Prop where
  kinds : Kinds d
  siblings : Siblings d
  counts : Counts d

theorem Siblings.distinct (siblings : Siblings d) : d.keys.Nodup := List.Nodup.of_map _ siblings

theorem Laid.arranged (laid : Laid d) (arranged : Arranged d e) : Laid e where
  kinds := laid.kinds.arranged arranged
  siblings := (arranged.keys_perm.map label).nodup_iff.mp laid.siblings
  counts := by
    have same := arranged.find_same laid.siblings.distinct countKey
    rw [laid.counts] at same
    unfold Counts
    rw [value_sameEntry same, ← arranged.total_eq]

theorem Squeezed.laid {node : Trie} {extra : Symbol} (squeezed : Squeezed node extra d)
    (kinds : Kinds d) (inside : d.Inside Kinds) : Laid d ∧ d.Inside Laid := by
  refine ⟨⟨kinds, squeezed.siblings, squeezed.counts⟩, ?_⟩
  refine (squeezed.inside.both inside).imp ?_
  rintro e ⟨⟨siblings, counts⟩, kinds⟩
  exact ⟨kinds, siblings, counts⟩

end Kinds

section Index
variable {d root : Trie} {s : List Char}

theorem indexed_arranged {d e : Trie} (arranged : Arranged d e) :
    (indexed d).Perm (indexed e) := by
  induction arranged with
  | refl d => exact List.Perm.refl _
  | value key v _ ih => exact ih.append_left _
  | inner key _ _ level ih => exact (level.map _).append ih
  | swap j k item item' d =>
    cases item with
    | inl v => cases item' <;> exact List.perm_append_comm_assoc _ _ _
    | inr level => cases item' <;> exact List.perm_append_comm_assoc _ _ _
  | trans _ _ first second => exact first.trans second

def here (d : Trie) : Option (Finset Symbol) := matchSet (d.atPath [matchKey])

def branches : Trie → List (Symbol × Trie)
  | .empty => []
  | .value _ _ rest => branches rest
  | .inner key node rest => (key, node) :: branches rest

/-- The label of the entry that a word is found behind. -/
def entry : List Char → Symbol
  | [] => matchKey
  | c :: _ => [c]

theorem here_value (key : Symbol) (leaf : Leaf) (rest : Trie) : here (.value key leaf rest) =
    if key = matchKey then matchSet (some leaf) else here rest := by
  by_cases same : key = matchKey
  · simp [here, atPath, find, same]
  · simp [here, atPath, find, same]

theorem here_inner {key : Symbol} (other : key ≠ matchKey) (node rest : Trie) :
    here (.inner key node rest) = here rest := by
  unfold here
  rw [atPath, atPath, find, if_neg other]

theorem here_fresh (fresh : matchKey ∉ d.keys) : here d = none := by
  unfold here
  rw [atPath, find_none.mpr fresh]
  rfl

theorem letter_ne_matchKey {c : Char} (letter : c.isAlphanum = true) (letters : Symbol) :
    c :: letters ≠ matchKey := by
  intro same
  rw [(List.cons.inj same).1] at letter
  exact absurd letter (by decide)

theorem matchesAt_kind {key : Symbol} {leaf : Leaf}
    (kind : key = matchKey ↔ matchSet (some leaf) ≠ none) : matchesAt key leaf =
      if key = matchKey then (matchSet (some leaf)).toList.map (fun set => ([], set)) else [] := by
  cases leaf with
  | count n => simp [matchesAt, matchSet]
  | matched set => rfl

theorem indexed_split (kinds : Kinds d) (distinct : d.keys.Nodup) :
    (indexed d).Perm ((here d).toList.map (fun set => ([], set)) ++
      (branches d).flatMap fun b => (indexed b.2).map fun p => (b.1 ++ p.1, p.2)) := by
  induction d with
  | empty => exact List.Perm.refl _
  | value key leaf rest ih =>
    obtain ⟨⟨-, kind⟩, kinds⟩ := kinds
    obtain ⟨fresh, distinct⟩ := List.nodup_cons.mp distinct
    have others := ih kinds distinct
    rw [indexed, here_value, matchesAt_kind kind]
    by_cases same : key = matchKey
    · subst same
      rw [here_fresh fresh] at others
      rw [if_pos rfl, if_pos rfl]
      exact others.append_left _
    · rw [if_neg same, if_neg same]
      exact others
  | inner key node rest _ ih =>
    obtain ⟨⟨c, letters, letter, rfl⟩, kinds⟩ := kinds
    have others := ih kinds (List.nodup_cons.mp distinct).2
    rw [indexed, here_inner (letter_ne_matchKey letter letters), branches, List.flatMap_cons]
    exact (others.append_left _).trans (List.perm_append_comm_assoc _ _ _)

theorem label_matchKey : label matchKey = matchKey := label_other rfl

theorem entry_mem {word : List Char} {set : Finset Symbol} (kinds : Kinds d)
    (listed : (word, set) ∈ indexed d) : entry word ∈ d.keys.map label := by
  induction d with
  | empty => cases listed
  | value key leaf rest ih =>
    rcases List.mem_append.mp listed with own | other
    · obtain ⟨rfl, rfl, -⟩ := mem_matchesAt.mp own
      exact List.mem_cons.mpr (.inl label_matchKey.symm)
    · exact List.mem_cons_of_mem _ (ih kinds.2 other)
  | inner key node rest _ ih =>
    obtain ⟨⟨c, letters, letter, rfl⟩, kinds⟩ := kinds
    rcases List.mem_append.mp listed with own | other
    · obtain ⟨p, -, same⟩ := List.mem_map.mp own
      cases same
      exact List.mem_cons.mpr (.inl (label_letter letter letters).symm)
    · exact List.mem_cons_of_mem _ (ih kinds other)

theorem indexed_words (kinds : Kinds d) (siblings : Siblings d) (inside : d.Inside Laid) :
    ((indexed d).map Prod.fst).Nodup := by
  induction d with
  | empty => exact List.nodup_nil
  | value key leaf rest ih =>
    obtain ⟨⟨-, kind⟩, kinds⟩ := kinds
    obtain ⟨fresh, siblings⟩ := List.nodup_cons.mp siblings
    rw [indexed, List.map_append]
    refine List.nodup_append.mpr ⟨?_, ih kinds siblings inside, ?_⟩
    · rw [matchesAt_kind kind]
      split
      · cases matchSet (some leaf) <;> simp
      · simp
    · intro w own v other same
      obtain ⟨⟨word, set⟩, listed, rfl⟩ := List.mem_map.mp own
      obtain ⟨⟨word', set'⟩, listed', rfl⟩ := List.mem_map.mp other
      obtain ⟨rfl, rfl, -⟩ := mem_matchesAt.mp listed
      change [] = word' at same
      subst same
      rw [label_matchKey] at fresh
      exact fresh (entry_mem kinds listed')
  | inner key node rest ihNode ih =>
    obtain ⟨⟨c, letters, letter, rfl⟩, kinds⟩ := kinds
    obtain ⟨fresh, siblings⟩ := List.nodup_cons.mp siblings
    obtain ⟨laid, inNode, inside⟩ := inside
    rw [indexed, List.map_append, List.map_map]
    refine List.nodup_append.mpr ⟨?_, ih kinds siblings inside, ?_⟩
    · have below := ihNode laid.kinds laid.siblings inNode
      have longer := below.map (List.append_right_injective (c :: letters))
      rwa [List.map_map] at longer
    · intro w own v other same
      obtain ⟨p, -, rfl⟩ := List.mem_map.mp own
      obtain ⟨⟨word', set'⟩, listed', rfl⟩ := List.mem_map.mp other
      change c :: (letters ++ p.1) = word' at same
      subst same
      rw [label_letter letter] at fresh
      exact fresh (entry_mem kinds listed')

theorem branch_key {b : Symbol × Trie} (kinds : Kinds d) (branch : b ∈ branches d) :
    ∃ c letters, c.isAlphanum = true ∧ b.1 = c :: letters := by
  induction d with
  | empty => cases branch
  | value key leaf rest ih => exact ih kinds.2 branch
  | inner key node rest _ ih =>
    rcases List.mem_cons.mp branch with rfl | other
    · exact kinds.1
    · exact ih kinds.2 other

theorem branches_keys (d : Trie) : ((branches d).map Prod.fst).Sublist d.keys := by
  induction d with
  | empty => exact List.Sublist.refl _
  | value key leaf rest ih => exact ih.cons _
  | inner key node rest _ ih => exact ih.cons_cons _

theorem branch_laid {b : Symbol × Trie} (inside : d.Inside Laid) (branch : b ∈ branches d) :
    Laid b.2 ∧ b.2.Inside Laid := by
  induction d with
  | empty => cases branch
  | value key leaf rest ih => exact ih inside branch
  | inner key node rest _ ih =>
    rcases List.mem_cons.mp branch with rfl | other
    · exact ⟨inside.1, inside.2.1⟩
    · exact ih inside.2.2 other

theorem Laid.branch_index (laid : Laid d) {b : Symbol × Trie} (branch : b ∈ branches d)
    (word : List Char) (set : Finset Symbol) :
    (word, set) ∈ indexed b.2 ↔ (b.1 ++ word, set) ∈ indexed d := by
  rw [(indexed_split laid.kinds laid.siblings.distinct).mem_iff, List.mem_append]
  obtain ⟨c, letters, letter, key⟩ := branch_key laid.kinds branch
  constructor
  · intro listed
    exact .inr (List.mem_flatMap.mpr ⟨b, branch, List.mem_map.mpr ⟨_, listed, rfl⟩⟩)
  · rintro (own | below)
    · obtain ⟨own, -, same⟩ := List.mem_map.mp own
      rw [key] at same
      cases same
    · obtain ⟨b', branch', listed⟩ := List.mem_flatMap.mp below
      obtain ⟨p, listed, same⟩ := List.mem_map.mp listed
      obtain ⟨c', letters', letter', key'⟩ := branch_key laid.kinds branch'
      obtain ⟨words, rfl⟩ := Prod.mk.inj same
      have first : c' = c := by
        rw [key, key'] at words
        exact (List.cons.inj words).1
      have labels : label b'.1 = label b.1 := by
        rw [key, key', label_letter letter, label_letter letter', first]
      have distinct : ((branches d).map fun b => label b.1).Nodup := by
        have part := (branches_keys d).map label
        rw [List.map_map] at part
        exact laid.siblings.sublist part
      cases List.inj_on_of_nodup_map distinct branch' branch labels
      rwa [← List.append_cancel_left words]

theorem total_indexed {β : Type} (kinds : Kinds d) (inside : d.Inside Laid)
    (f : List Char × Finset Symbol → List β)
    (sizes : ∀ p ∈ indexed d, (f p).length = p.2.card) :
    d.total weight = ((indexed d).flatMap f).length := by
  induction d generalizing f with
  | empty => rfl
  | value key leaf rest ih =>
    obtain ⟨⟨-, kind⟩, kinds⟩ := kinds
    obtain ⟨own, others⟩ := List.forall_mem_append.mp sizes
    rw [total, indexed, List.flatMap_append, List.length_append, ih kinds inside f others]
    congr 1
    cases leaf with
    | count n => rfl
    | matched set =>
      have same : key = matchKey := kind.mpr (by simp [matchSet])
      have listed : matchesAt key (.matched set) = [([], set)] := by simp [matchesAt, same]
      rw [listed] at own ⊢
      rw [List.flatMap_singleton, own _ List.mem_cons_self]
      rfl
  | inner key node rest ihNode ih =>
    obtain ⟨laid, inNode, inside⟩ := inside
    obtain ⟨own, others⟩ := List.forall_mem_append.mp sizes
    rw [total, indexed, List.flatMap_append, List.length_append, ih kinds.2 inside f others,
      List.flatMap_map, ihNode laid.kinds inNode (fun p => f (key ++ p.1, p.2)) fun p listed =>
        own _ (List.mem_map_of_mem listed)]

theorem Laid.solid (distinct : d.keys.Nodup) (inside : d.Inside Laid) : d.Solid := by
  induction d with
  | empty => trivial
  | value key leaf rest ih =>
    obtain ⟨fresh, distinct⟩ := List.nodup_cons.mp distinct
    exact ⟨fresh, ih distinct inside⟩
  | inner key node rest ihNode ih =>
    obtain ⟨fresh, distinct⟩ := List.nodup_cons.mp distinct
    obtain ⟨laid, inNode, inside⟩ := inside
    have solid := ihNode laid.siblings.distinct inNode
    have some : node.keys ≠ [] := List.ne_nil_of_mem (mem_keys_of_find laid.counts)
    exact ⟨fresh, leaves_ne_of_keys solid some, solid, ih distinct inside⟩

/-- A node of the trie that is reached by the keys of the string. -/
structure Within (root d : Trie) (s : List Char) : Prop where
  laid : Laid d
  inside : d.Inside Laid
  index : ∀ word set, (word, set) ∈ indexed d ↔ (s ++ word, set) ∈ indexed root

theorem Within.below (within : Within root d s) {b : Symbol × Trie} (branch : b ∈ branches d) :
    Within root b.2 (s ++ b.1) := by
  obtain ⟨laid, inside⟩ := branch_laid within.inside branch
  refine ⟨laid, inside, fun word set => ?_⟩
  rw [within.laid.branch_index branch, within.index, List.append_assoc]

end Index

end SCLOrkEmoji
