import SCLOrkTools.Emoji.Layout
import SCLOrkTools.Emoji.Menu

/- What the menus offer. Whatever has been opened so far, every part of a word in the descriptions
   stands in one place: it is offered already or waits behind a menu that is there to be opened. -/
namespace SCLOrkEmoji
open MultiLevel Level

section Reading
variable {e : Emoji}

abbrev Offer := List Char × List Char × Option Symbol

def Actions.own (word : List Char) : Actions → List Offer
  | .nil => []
  | .action string picked rest => (word, string, picked) :: own word rest
  | .separator rest => own word rest
  | .more _ page rest => own word page ++ own word rest
  | .menu _ _ _ _ _ rest => own word rest

def Actions.tops : Actions → List (Trie × List Char)
  | .nil => []
  | .action _ _ rest | .separator rest => tops rest
  | .more _ page rest => tops page ++ tops rest
  | .menu trieNode searchString _ _ _ rest => (trieNode, searchString) :: tops rest

def Actions.offered (word : List Char) : Actions → List Offer
  | .nil => []
  | .action string picked rest => (word, string, picked) :: offered word rest
  | .separator rest => offered word rest
  | .more _ page rest => offered word page ++ offered word rest
  | .menu _ searchString _ _ actions rest => offered searchString actions ++ offered word rest

def Actions.unopened : Actions → List (Trie × List Char)
  | .nil => []
  | .action _ _ rest | .separator rest => unopened rest
  | .more _ page rest => unopened page ++ unopened rest
  | .menu trieNode searchString _ isPopulated actions rest =>
    if isPopulated then unopened actions ++ unopened rest
    else (trieNode, searchString) :: unopened rest

def Actions.menus : Actions → List ((Trie × List Char) × List Char)
  | .nil => []
  | .action _ _ rest | .separator rest => menus rest
  | .more _ page rest => menus page ++ menus rest
  | .menu trieNode searchString string _ actions rest =>
    ((trieNode, searchString), string) :: (menus actions ++ menus rest)

/-- The menu with all menus below as they were before they were shown. -/
def Actions.closed : Actions → Actions
  | .nil => .nil
  | .action string picked rest => .action string picked (closed rest)
  | .separator rest => .separator (closed rest)
  | .more string page rest => .more string (closed page) (closed rest)
  | .menu trieNode searchString string _ _ rest =>
    .menu trieNode searchString string false .nil (closed rest)

/-- Every menu has been filled once or not at all. -/
def Actions.Filled (e : Emoji) : Actions → Prop
  | .nil => True
  | .action _ _ rest | .separator rest => Filled e rest
  | .more _ page rest => Filled e page ∧ Filled e rest
  | .menu trieNode searchString string isPopulated actions rest =>
    string = title trieNode searchString ∧
      (if isPopulated then actions.closed = e.prPopulate trieNode searchString
        else actions = .nil) ∧ Filled e actions ∧ Filled e rest

theorem own_closed (word : List Char) (a : Actions) : a.closed.own word = a.own word := by
  induction a with
  | nil => rfl
  | action string picked rest ih => rw [Actions.closed, Actions.own, Actions.own, ih]
  | separator rest ih => rw [Actions.closed, Actions.own, Actions.own, ih]
  | more string page rest ihPage ih => rw [Actions.closed, Actions.own, Actions.own, ihPage, ih]
  | menu trieNode searchString string isPopulated actions rest _ ih =>
    rw [Actions.closed, Actions.own, Actions.own, ih]

theorem tops_closed (a : Actions) : a.closed.tops = a.tops := by
  induction a with
  | nil => rfl
  | action string picked rest ih => rw [Actions.closed, Actions.tops, Actions.tops, ih]
  | separator rest ih => rw [Actions.closed, Actions.tops, Actions.tops, ih]
  | more string page rest ihPage ih =>
    rw [Actions.closed, Actions.tops, Actions.tops, ihPage, ih]
  | menu trieNode searchString string isPopulated actions rest _ ih =>
    rw [Actions.closed, Actions.tops, Actions.tops, ih]

theorem own_addActions (descMap : AList fun _ : List Char => Symbol) (word : List Char) (i : Nat)
    (strings : List (List Char)) (behind : Actions) :
    (addActions descMap i strings behind).own word =
      strings.map (fun string => (word, string, descMap.lookup string)) ++ behind.own word := by
  induction strings generalizing i behind with
  | nil => rfl
  | cons string strings ih =>
    rw [addActions]
    split
    · simp [Actions.own, ih]
    · simp [Actions.own, ih]

theorem tops_addActions (descMap : AList fun _ : List Char => Symbol) (i : Nat)
    (strings : List (List Char)) (behind : Actions) :
    (addActions descMap i strings behind).tops = behind.tops := by
  induction strings generalizing i behind with
  | nil => rfl
  | cons string strings ih =>
    rw [addActions]
    split
    · simp [Actions.tops, ih]
    · simp [Actions.tops, ih]

theorem fresh_addActions (descMap : AList fun _ : List Char => Symbol) (i : Nat)
    (strings : List (List Char)) {behind : Actions} (closed : behind.closed = behind)
    (filled : behind.Filled e) : (addActions descMap i strings behind).closed =
      addActions descMap i strings behind ∧ (addActions descMap i strings behind).Filled e := by
  induction strings generalizing i behind with
  | nil => exact ⟨closed, filled⟩
  | cons string strings ih =>
    obtain ⟨page, inPage⟩ := ih (i + 1) (show Actions.nil.closed = .nil from rfl) trivial
    obtain ⟨line, inLine⟩ := ih (i + 1) closed filled
    rw [addActions]
    split
    · exact ⟨by simp [Actions.closed, closed, page], inPage, filled⟩
    · exact ⟨by simp [Actions.closed, line], inLine⟩

theorem own_addMenus (d : Trie) (s word : List Char) (keys : List Symbol) :
    (addMenus d s keys).own word = [] := by
  induction keys with
  | nil => rfl
  | cons key keys ih =>
    rw [addMenus]
    split
    · exact ih
    · exact ih

theorem tops_addMenus (d : Trie) (s : List Char) (keys : List Symbol) :
    (addMenus d s keys).tops =
      keys.filterMap fun key => (nodeAt d key).map fun node => (node, s ++ key) := by
  induction keys with
  | nil => rfl
  | cons key keys ih =>
    rw [addMenus, List.filterMap_cons]
    cases nodeAt d key with
    | none => exact ih
    | some node =>
      simp only [Actions.tops, ih]
      rfl

theorem fresh_addMenus (e : Emoji) (d : Trie) (s : List Char) (keys : List Symbol) :
    (addMenus d s keys).closed = addMenus d s keys ∧ (addMenus d s keys).Filled e := by
  induction keys with
  | nil => exact ⟨rfl, trivial⟩
  | cons key keys ih =>
    rw [addMenus]
    split
    · exact ih
    · exact ⟨by rw [Actions.closed, ih.1], rfl, rfl, trivial, ih.2⟩

theorem fresh_prPopulate (e : Emoji) (d : Trie) (s : List Char) :
    (e.prPopulate d s).closed = e.prPopulate d s ∧ (e.prPopulate d s).Filled e := by
  obtain ⟨closed, filled⟩ := fresh_addMenus e d s (e.sort d.keys)
  unfold Emoji.prPopulate
  simp only
  split
  · exact ⟨closed, filled⟩
  · exact fresh_addActions _ _ _ (by rw [Actions.closed, closed]) filled

theorem show_closed (e : Emoji) (a : Actions) (path : List Nat) :
    (e.aboutToShow a path).closed = a.closed := by
  fun_induction e.aboutToShow a path <;> simp_all [Actions.closed]

theorem show_nil (e : Emoji) (path : List Nat) : e.aboutToShow .nil path = .nil := by
  cases path <;> rfl

theorem show_filled {a : Actions} (path : List Nat) (filled : a.Filled e) :
    (e.aboutToShow a path).Filled e := by
  fun_induction e.aboutToShow a path with
  | case1 string picked rest i path ih => exact ih filled
  | case2 rest i path ih => exact ih filled
  | case3 string page rest path ih => exact ⟨ih filled.1, filled.2⟩
  | case4 string page rest i path ih => exact ⟨filled.1, ih filled.2⟩
  | case5 trieNode searchString string isPopulated actions rest =>
    obtain ⟨title, content, below, others⟩ := filled
    obtain ⟨closed, fresh⟩ := fresh_prPopulate e trieNode searchString
    refine ⟨title, ?_, ?_, others⟩
    · cases isPopulated with
      | false => exact closed
      | true => exact content
    · cases isPopulated with
      | false => exact fresh
      | true => exact below
  | case6 trieNode searchString string isPopulated actions rest path _ ih =>
    obtain ⟨title, content, below, others⟩ := filled
    refine ⟨title, ?_, ih below, others⟩
    cases isPopulated with
    | false =>
      change actions = .nil at content
      rw [content, show_nil]
      rfl
    | true => exact (show_closed e actions path).trans content
  | case7 trieNode searchString string isPopulated actions rest i path ih =>
    obtain ⟨title, content, below, others⟩ := filled
    exact ⟨title, content, below, ih others⟩
  | case8 => exact filled

end Reading

section Pages
variable {e : Emoji} {a : Actions}

def Actions.lines : Actions → Nat
  | .nil => 0
  | .action _ _ rest => lines rest + 1
  | .separator rest | .more _ _ rest | .menu _ _ _ _ _ rest => lines rest

def Actions.Paged : Actions → Prop
  | .nil => True
  | .action _ _ rest | .separator rest => Paged rest
  | .more _ page rest => page.lines ≤ 25 ∧ Paged page ∧ Paged rest
  | .menu _ _ _ _ actions rest => actions.lines ≤ 25 ∧ Paged actions ∧ Paged rest

theorem addActions_paged (descMap : AList fun _ : List Char => Symbol) (i : Nat)
    (strings : List (List Char)) {behind : Actions} (paged : behind.Paged) :
    (addActions descMap i strings behind).Paged ∧ (addActions descMap i strings behind).lines ≤
      (if i = 0 then 25 else (25 - i % 25) % 25) + behind.lines := by
  induction strings generalizing i behind with
  | nil => exact ⟨paged, Nat.le_add_left _ _⟩
  | cons string strings ih =>
    obtain ⟨inPage, page⟩ := ih (i + 1) (show Actions.nil.Paged from trivial)
    obtain ⟨inLine, line⟩ := ih (i + 1) paged
    rw [addActions]
    simp only [Nat.succ_ne_zero, if_false, Actions.lines] at page line
    split
    · rename_i turn
      refine ⟨⟨?_, inPage, paged⟩, ?_⟩
      · simp only [Actions.lines]
        omega
      · simp only [Actions.lines]
        omega
    · refine ⟨inLine, ?_⟩
      simp only [Actions.lines]
      split <;> omega

theorem addMenus_paged (d : Trie) (s : List Char) (keys : List Symbol) :
    (addMenus d s keys).Paged ∧ (addMenus d s keys).lines = 0 := by
  induction keys with
  | nil => exact ⟨trivial, rfl⟩
  | cons key keys ih =>
    rw [addMenus]
    split
    · exact ih
    · exact ⟨⟨Nat.zero_le _, trivial, ih.1⟩, ih.2⟩

theorem prPopulate_paged (e : Emoji) (d : Trie) (s : List Char) :
    (e.prPopulate d s).Paged ∧ (e.prPopulate d s).lines ≤ 25 := by
  obtain ⟨paged, none⟩ := addMenus_paged d s (e.sort d.keys)
  unfold Emoji.prPopulate
  simp only
  split
  · exact ⟨paged, by omega⟩
  · rename_i set found
    have pages := addActions_paged (describeAll e (e.array s set)) 0
      (e.sort ((e.array s set).map e.describe))
      (show (Actions.separator (addMenus d s (e.sort d.keys))).Paged from paged)
    simpa [Actions.lines, none] using pages

theorem show_paged {a : Actions} (path : List Nat) (paged : a.Paged) :
    (e.aboutToShow a path).Paged ∧ (e.aboutToShow a path).lines = a.lines := by
  fun_induction e.aboutToShow a path with
  | case1 string picked rest i path ih =>
    obtain ⟨below, same⟩ := ih paged
    exact ⟨below, by rw [Actions.lines, Actions.lines, same]⟩
  | case2 rest i path ih => exact ih paged
  | case3 string page rest path ih =>
    obtain ⟨below, same⟩ := ih paged.2.1
    exact ⟨⟨by rw [same]; exact paged.1, below, paged.2.2⟩, rfl⟩
  | case4 string page rest i path ih =>
    obtain ⟨below, same⟩ := ih paged.2.2
    exact ⟨⟨paged.1, paged.2.1, below⟩, same⟩
  | case5 trieNode searchString string isPopulated actions rest =>
    obtain ⟨few, inside, others⟩ := paged
    obtain ⟨fresh, full⟩ := prPopulate_paged e trieNode searchString
    cases isPopulated with
    | false => exact ⟨⟨full, fresh, others⟩, rfl⟩
    | true => exact ⟨⟨few, inside, others⟩, rfl⟩
  | case6 trieNode searchString string isPopulated actions rest path _ ih =>
    obtain ⟨few, inside, others⟩ := paged
    obtain ⟨below, same⟩ := ih inside
    exact ⟨⟨by rw [same]; exact few, below, others⟩, rfl⟩
  | case7 trieNode searchString string isPopulated actions rest i path ih =>
    obtain ⟨few, inside, others⟩ := paged
    obtain ⟨below, same⟩ := ih others
    exact ⟨⟨few, inside, below⟩, same⟩
  | case8 => exact ⟨paged, rfl⟩

theorem shown_paged (e : Emoji) (trie : Trie) (shows : List (List Nat)) :
    (e.shown trie shows).Paged := by
  obtain ⟨fresh, full⟩ := prPopulate_paged e trie []
  have start : (e.newRoot trie).Paged := ⟨full, fresh, trivial⟩
  unfold Emoji.shown
  induction shows using List.reverseRecOn with
  | nil => exact start
  | append_singleton shows path ih =>
    rw [List.foldl_append]
    exact (show_paged path ih).1

end Pages

section Picks
variable {e : Emoji} {d : Trie} {s : List Char}

/-- An array has the characters of its set, each once. -/
def Emoji.Arrays (e : Emoji) : Prop :=
  ∀ s set, (∀ c ∈ set, c ∈ e.map) →
    (e.array s set).Nodup ∧ ∀ c, c ∈ e.array s set ↔ c ∈ set

/-- The words at or below a node with the characters that have them. -/
def Emoji.finds (e : Emoji) (b : Trie × List Char) : List (List Char × Symbol) :=
  (indexed b.1).flatMap fun p => (e.array (b.2 ++ p.1) p.2).map fun c => (b.2 ++ p.1, c)

def Emoji.offer (e : Emoji) (found : List Char × Symbol) : Offer :=
  (found.1, e.describe found.2, some found.2)

def Emoji.picks (e : Emoji) (b : Trie × List Char) : List Offer := (e.finds b).map e.offer

theorem last_word {xs ys c c' : List Char} (plain : ' ' ∉ c) (plain' : ' ' ∉ c')
    (same : xs ++ ' ' :: c = ys ++ ' ' :: c') : c = c' := by
  have front (zs : List Char) {w : List Char} (plain : ' ' ∉ w) :
      ((zs ++ ' ' :: w).reverse).takeWhile (fun a => a != ' ') = w.reverse := by
    have letters : ∀ a ∈ w.reverse, (a != ' ') = true := by
      intro a member
      rw [bne_iff_ne]
      rintro rfl
      exact plain (List.mem_reverse.mp member)
    rw [List.reverse_append, List.reverse_cons, List.append_assoc,
      List.takeWhile_append_of_pos letters]
    simp
  have reversed := front xs plain
  rw [same, front ys plain'] at reversed
  exact (List.reverse_inj.mp reversed).symm

theorem describe_inj {c c' : Symbol} (plain : ' ' ∉ c) (plain' : ' ' ∉ c')
    (same : e.describe c = e.describe c') : c = c' := by
  unfold Emoji.describe at same
  have colon : ": ".toList = [':'] ++ [' '] := rfl
  simp only [colon, ← List.append_assoc] at same
  rw [List.append_assoc, List.append_assoc _ [' ']] at same
  exact last_word plain plain' same

theorem lookup_describeAll {items : List Symbol} (plain : ∀ c ∈ items, ' ' ∉ c) {item : Symbol}
    (member : item ∈ items) : (describeAll e items).lookup (e.describe item) = some item := by
  induction items using List.reverseRecOn with
  | nil => cases member
  | append_singleton items last ih =>
    unfold describeAll at ih ⊢
    rw [List.foldl_append, List.foldl_cons, List.foldl_nil]
    by_cases same : e.describe item = e.describe last
    · rw [same, AList.lookup_insert,
        describe_inj (plain item member) (plain last (by simp)) same]
    · rw [AList.lookup_insert_ne same]
      apply ih fun c earlier => plain c (by simp [earlier])
      rcases List.mem_append.mp member with earlier | here
      · exact earlier
      · exact absurd (by rw [List.mem_singleton.mp here]) same

theorem sort_perm (e : Emoji) (strings : List (List Char)) : (e.sort strings).Perm strings :=
  List.perm_insertionSort _ _

theorem branches_nodeAt (kinds : Kinds d) (distinct : d.keys.Nodup) :
    d.keys.filterMap (fun key => (nodeAt d key).map fun node => (node, s ++ key)) =
      (branches d).map fun b => (b.2, s ++ b.1) := by
  have later {key : Symbol} {rest : Trie} (fresh : key ∉ rest.keys) (item : Leaf ⊕ Trie) :
      rest.keys.filterMap (fun j => (nodeAt (cons key item rest) j).map fun n => (n, s ++ j)) =
        rest.keys.filterMap fun j => (nodeAt rest j).map fun n => (n, s ++ j) := by
    apply List.filterMap_congr
    intro j member
    have other : key ≠ j := fun same => fresh (same ▸ member)
    rw [nodeAt, nodeAt, find_cons, if_neg other]
  induction d with
  | empty => rfl
  | value key leaf rest ih =>
    obtain ⟨fresh, distinct⟩ := List.nodup_cons.mp distinct
    have none : nodeAt (value key leaf rest) key = none := by simp [nodeAt, find]
    rw [keys, List.filterMap_cons, none, branches, ← ih kinds.2 distinct]
    exact later fresh (.inl leaf)
  | inner key node rest _ ih =>
    obtain ⟨⟨c, letters, letter, rfl⟩, kinds⟩ := kinds
    obtain ⟨fresh, distinct⟩ := List.nodup_cons.mp distinct
    have found : nodeAt (inner (c :: letters) node rest) (c :: letters) = some node := by
      simp [nodeAt, find, searches_letter letter]
    rw [keys, List.filterMap_cons, found, branches, List.map_cons, ← ih kinds distinct]
    exact congrArg (_ :: ·) (later fresh (.inr node))

theorem tops_prPopulate (laid : Laid d) :
    (e.prPopulate d s).tops.Perm ((branches d).map fun b => (b.2, s ++ b.1)) := by
  have menus : (addMenus d s (e.sort d.keys)).tops.Perm
      ((branches d).map fun b => (b.2, s ++ b.1)) := by
    rw [tops_addMenus, ← branches_nodeAt laid.kinds laid.siblings.distinct]
    exact (sort_perm e d.keys).filterMap _
  unfold Emoji.prPopulate
  simp only
  split
  · exact menus
  · rw [tops_addActions]
    exact menus

theorem own_prPopulate (plain : ∀ set, here d = some set → ∀ c ∈ e.array s set, ' ' ∉ c) :
    ((e.prPopulate d s).own s).Perm ((here d).toList.flatMap fun set =>
      (e.array s set).map fun c => e.offer (s, c)) := by
  unfold Emoji.prPopulate
  simp only
  cases found : matchSet (d.atPath [matchKey]) with
  | none => simp [here, found, own_addMenus]
  | some set =>
    have words := plain set found
    have sorted := sort_perm e ((e.array s set).map e.describe)
    simp only [own_addActions, Actions.own, own_addMenus, List.append_nil, here, found,
      Option.toList_some, List.flatMap_singleton]
    refine (sorted.map _).trans ?_
    rw [List.map_map]
    refine List.Perm.of_eq (List.map_congr_left fun c member => ?_)
    simp [Emoji.offer, lookup_describeAll words member]

theorem picks_prPopulate (laid : Laid d)
    (plain : ∀ set, here d = some set → ∀ c ∈ e.array s set, ' ' ∉ c) :
    (e.picks (d, s)).Perm
      ((e.prPopulate d s).own s ++ (e.prPopulate d s).tops.flatMap e.picks) := by
  have split := (indexed_split laid.kinds laid.siblings.distinct).flatMap_right fun p =>
    (e.array (s ++ p.1) p.2).map fun c => e.offer (s ++ p.1, c)
  have below := (tops_prPopulate (e := e) (s := s) laid).flatMap_right e.picks
  refine List.Perm.trans (List.Perm.of_eq ?_) (split.trans ?_)
  · simp [Emoji.picks, Emoji.finds, List.map_flatMap, Function.comp_def]
  · rw [List.flatMap_append]
    refine List.Perm.append ?_ (List.Perm.trans (List.Perm.of_eq ?_) below.symm)
    · refine List.Perm.trans (List.Perm.of_eq ?_) (own_prPopulate plain).symm
      simp [List.flatMap_map]
    · simp [Emoji.picks, Emoji.finds, List.map_flatMap, List.flatMap_map, List.flatMap_assoc,
        Function.comp_def]

end Picks

section Offers
variable {e : Emoji} {d root : Trie} {s : List Char} {P : Trie × List Char → Prop}

theorem menus_hold (below : ∀ d s, P (d, s) → ∀ b ∈ (e.prPopulate d s).tops, P b) {a : Actions}
    (filled : a.Filled e) (holds : ∀ b ∈ a.tops, P b) :
    ∀ m ∈ a.menus, P m.1 ∧ m.2 = title m.1.1 m.1.2 := by
  induction a with
  | nil => exact fun m none => by cases none
  | action string picked rest ih => exact ih filled holds
  | separator rest ih => exact ih filled holds
  | more string page rest ihPage ih =>
    obtain ⟨first, second⟩ := List.forall_mem_append.mp holds
    exact List.forall_mem_append.mpr ⟨ihPage filled.1 first, ih filled.2 second⟩
  | menu trieNode searchString string isPopulated actions rest ihActions ih =>
    obtain ⟨rfl, content, inside, others⟩ := filled
    obtain ⟨here, holds⟩ := List.forall_mem_cons.mp holds
    refine List.forall_mem_cons.mpr ⟨⟨here, rfl⟩, List.forall_mem_append.mpr ⟨?_, ih others holds⟩⟩
    apply ihActions inside
    cases isPopulated with
    | false =>
      rw [show actions = .nil from content]
      exact fun b none => by cases none
    | true =>
      rw [← tops_closed, show actions.closed = _ from content]
      exact below trieNode searchString here

/-- By induction over the menu: whatever has been opened, all that can be picked is offered now or
    waits behind a menu that has not been opened. -/
theorem offered_unopened (below : ∀ d s, P (d, s) → ∀ b ∈ (e.prPopulate d s).tops, P b)
    (splits : ∀ d s, P (d, s) → (e.picks (d, s)).Perm
      ((e.prPopulate d s).own s ++ (e.prPopulate d s).tops.flatMap e.picks))
    {a : Actions} (filled : a.Filled e) (holds : ∀ b ∈ a.tops, P b) (word : List Char) :
    (a.offered word ++ a.unopened.flatMap e.picks).Perm
      (a.own word ++ a.tops.flatMap e.picks) := by
  induction a generalizing word with
  | nil => exact List.Perm.refl _
  | action string picked rest ih => exact (ih filled holds word).cons _
  | separator rest ih => exact ih filled holds word
  | more string page rest ihPage ih =>
    obtain ⟨first, second⟩ := List.forall_mem_append.mp holds
    have page := ihPage filled.1 first word
    have others := ih filled.2 second word
    rw [List.perm_iff_count] at page others ⊢
    intro x
    have page := page x
    have others := others x
    simp only [Actions.offered, Actions.unopened, Actions.own, Actions.tops, List.flatMap_append,
      List.count_append] at page others ⊢
    omega
  | menu trieNode searchString string isPopulated actions rest ihActions ih =>
    obtain ⟨-, content, inside, others⟩ := filled
    obtain ⟨here, holds⟩ := List.forall_mem_cons.mp holds
    have others := ih others holds word
    cases isPopulated with
    | false =>
      rw [show actions = .nil from content]
      rw [List.perm_iff_count] at others ⊢
      intro x
      have others := others x
      simp only [Actions.offered, Actions.unopened, Actions.own, Actions.tops, List.flatMap_cons,
        List.count_append, List.nil_append, Bool.false_eq_true, if_false] at others ⊢
      omega
    | true =>
      have content : actions.closed = e.prPopulate trieNode searchString := content
      have tops : actions.tops = (e.prPopulate trieNode searchString).tops := by
        rw [← tops_closed, content]
      have own : actions.own searchString =
          (e.prPopulate trieNode searchString).own searchString := by
        rw [← own_closed, content]
      have all := ihActions inside (tops ▸ below trieNode searchString here) searchString
      rw [own, tops] at all
      have all := all.trans (splits trieNode searchString here).symm
      rw [List.perm_iff_count] at all others ⊢
      intro x
      have all := all x
      have others := others x
      simp only [Actions.offered, Actions.unopened, Actions.own, Actions.tops, List.flatMap_cons,
        List.flatMap_append, List.count_append, if_true] at all others ⊢
      omega

def Emoji.Indexes (e : Emoji) (root : Trie) : Prop :=
  ∀ word set, (word, set) ∈ indexed root ↔
    word ≠ [] ∧ (∃ c, HasPart e.map c word) ∧ ∀ c, c ∈ set ↔ HasPart e.map c word

theorem part_known {c : Symbol} {word : List Char} (has : HasPart e.map c word) : c ∈ e.map := by
  obtain ⟨description, found, -⟩ := has
  exact AList.lookup_isSome.mp (by rw [found]; rfl)

theorem Emoji.Indexes.listed (indexes : e.Indexes root) {word : List Char} {c : Symbol}
    (long : word ≠ []) (has : HasPart e.map c word) :
    ∃ set, (word, set) ∈ indexed root ∧ c ∈ set := by
  classical
  refine ⟨e.map.keys.toFinset.filter (HasPart e.map · word), (indexes _ _).mpr ?_, ?_⟩
  · refine ⟨long, ⟨c, has⟩, fun b => ?_⟩
    rw [Finset.mem_filter, List.mem_toFinset]
    exact and_iff_right_of_imp part_known
  · rw [Finset.mem_filter, List.mem_toFinset]
    exact ⟨part_known has, has⟩

theorem Emoji.Arrays.of_index (arrays : e.Arrays) (indexes : e.Indexes root)
    (within : Within root d s) {word : List Char} {set : Finset Symbol}
    (listed : (word, set) ∈ indexed d) (string : List Char) :
    (e.array string set).Nodup ∧ ∀ c, c ∈ e.array string set ↔ c ∈ set := by
  have same := ((indexes _ _).mp ((within.index word set).mp listed)).2.2
  exact arrays string set fun c member => part_known ((same c).mp member)

theorem mem_finds (arrays : e.Arrays) (indexes : e.Indexes root) (within : Within root d s)
    (word : List Char) (c : Symbol) :
    (word, c) ∈ e.finds (d, s) ↔ s <+: word ∧ word ≠ [] ∧ HasPart e.map c word := by
  unfold Emoji.finds
  simp only [List.mem_flatMap, List.mem_map, Prod.mk.injEq, Prod.exists]
  constructor
  · rintro ⟨rest, set, listed, b, member, rfl, rfl⟩
    obtain ⟨long, -, same⟩ := (indexes _ _).mp ((within.index rest set).mp listed)
    have here := ((arrays.of_index indexes within listed _).2 b).mp member
    exact ⟨List.prefix_append _ _, long, (same b).mp here⟩
  · rintro ⟨⟨rest, rfl⟩, long, has⟩
    obtain ⟨set, listed, member⟩ := indexes.listed long has
    have listed := (within.index rest set).mpr listed
    exact ⟨rest, set, listed, c, ((arrays.of_index indexes within listed _).2 c).mpr member, rfl,
      rfl⟩

theorem finds_nodup (arrays : e.Arrays) (indexes : e.Indexes root) (within : Within root d s) :
    (e.finds (d, s)).Nodup := by
  have words := indexed_words within.laid.kinds within.laid.siblings within.inside
  refine List.nodup_flatMap.mpr ⟨fun p listed => ?_, ?_⟩
  · have array := (arrays.of_index indexes within listed (s ++ p.1)).1
    exact array.map fun b c same => (Prod.mk.inj same).2
  · refine (List.pairwise_map.mp words).imp ?_
    intro p q differ x first second
    obtain ⟨b, -, rfl⟩ := List.mem_map.mp first
    obtain ⟨c, -, same⟩ := List.mem_map.mp second
    exact differ (List.append_cancel_left (Prod.mk.inj same).1).symm

theorem finds_length (arrays : e.Arrays) (indexes : e.Indexes root) (within : Within root d s) :
    (e.finds (d, s)).length = d.total weight := by
  refine (total_indexed within.laid.kinds within.inside _ fun p listed => ?_).symm
  obtain ⟨once, all⟩ := arrays.of_index indexes within listed (s ++ p.1)
  have same : (e.array (s ++ p.1) p.2).toFinset = p.2 := by
    ext c
    rw [List.mem_toFinset, all]
  rw [List.length_map, ← List.toFinset_card_of_nodup once, same]

theorem title_within (arrays : e.Arrays) (indexes : e.Indexes root) (within : Within root d s) :
    title d s = sized s (e.finds (d, s)).length := by
  have count := (atPath_one d countKey _).mpr within.laid.counts
  rw [title, count, finds_length arrays indexes within]

theorem Within.tops (within : Within root d s) : ∀ b ∈ (e.prPopulate d s).tops,
    Within root b.1 b.2 ∧ s.length < b.2.length := by
  intro b top
  obtain ⟨branch, there, rfl⟩ := List.mem_map.mp ((tops_prPopulate within.laid).mem_iff.mp top)
  obtain ⟨c, letters, -, key⟩ := branch_key within.laid.kinds there
  exact ⟨within.below there, by simp [key]⟩

theorem Within.plain (arrays : e.Arrays) (indexes : e.Indexes root) (within : Within root d s)
    (letters : ∀ c ∈ e.map, ' ' ∉ c) :
    ∀ set, here d = some set → ∀ c ∈ e.array s set, ' ' ∉ c := by
  intro set found c member
  have listed : ([], set) ∈ indexed d := by
    rw [(indexed_split within.laid.kinds within.laid.siblings.distinct).mem_iff, found]
    simp
  have same := ((indexes _ _).mp ((within.index [] set).mp listed)).2.2
  have here := ((arrays.of_index indexes within listed s).2 c).mp member
  exact letters c (part_known ((same c).mp here))

end Offers

section Opening
variable {e : Emoji} {trie : Trie} {a : Actions}

theorem unopened_closed (closed : a.closed = a) : a.unopened = a.tops := by
  induction a with
  | nil => rfl
  | action string picked rest ih => exact ih (by simpa [Actions.closed] using closed)
  | separator rest ih => exact ih (by simpa [Actions.closed] using closed)
  | more string page rest ihPage ih =>
    obtain ⟨first, second⟩ : page.closed = page ∧ rest.closed = rest := by
      simpa [Actions.closed] using closed
    rw [Actions.unopened, Actions.tops, ihPage first, ih second]
  | menu trieNode searchString string isPopulated actions rest _ ih =>
    simp only [Actions.closed, Actions.menu.injEq, true_and] at closed
    obtain ⟨rfl, -, closed⟩ := closed
    rw [Actions.unopened, if_neg Bool.false_ne_true, Actions.tops, ih closed]

theorem unopened_menus {m : Trie × List Char} (waits : m ∈ a.unopened) :
    ∃ string, (m, string) ∈ a.menus := by
  induction a with
  | nil => cases waits
  | action string picked rest ih => exact ih waits
  | separator rest ih => exact ih waits
  | more string page rest ihPage ih =>
    rcases List.mem_append.mp waits with first | second
    · obtain ⟨title, there⟩ := ihPage first
      exact ⟨title, List.mem_append_left _ there⟩
    · obtain ⟨title, there⟩ := ih second
      exact ⟨title, List.mem_append_right _ there⟩
  | menu trieNode searchString string isPopulated actions rest ihActions ih =>
    have behind (later : m ∈ rest.unopened) : ∃ title, (m, title) ∈
        (Actions.menu trieNode searchString string isPopulated actions rest).menus := by
      obtain ⟨title, there⟩ := ih later
      exact ⟨title, List.mem_cons_of_mem _ (List.mem_append_right _ there)⟩
    cases isPopulated with
    | false =>
      rcases List.mem_cons.mp waits with rfl | later
      · exact ⟨string, List.mem_cons_self⟩
      · exact behind later
    | true =>
      rcases List.mem_append.mp waits with inside | later
      · obtain ⟨title, there⟩ := ihActions inside
        exact ⟨title, List.mem_cons_of_mem _ (List.mem_append_left _ there)⟩
      · exact behind later

theorem show_unopened (e : Emoji) {m : Trie × List Char} (waits : m ∈ a.unopened) :
    ∃ i path others, a.unopened.Perm (m :: others) ∧
      (e.aboutToShow a (i :: path)).unopened.Perm ((e.prPopulate m.1 m.2).tops ++ others) := by
  induction a with
  | nil => cases waits
  | action string picked rest ih =>
    obtain ⟨i, path, others, before, after⟩ := ih waits
    exact ⟨i + 1, path, others, before, after⟩
  | separator rest ih =>
    obtain ⟨i, path, others, before, after⟩ := ih waits
    exact ⟨i + 1, path, others, before, after⟩
  | more string page rest ihPage ih =>
    rcases List.mem_append.mp waits with first | second
    · obtain ⟨i, path, others, before, after⟩ := ihPage first
      refine ⟨0, i :: path, others ++ rest.unopened, before.append_right _, ?_⟩
      rw [← List.append_assoc]
      exact after.append_right _
    · obtain ⟨i, path, others, before, after⟩ := ih second
      refine ⟨i + 1, path, page.unopened ++ others, ?_, ?_⟩
      · exact (before.append_left _).trans List.perm_middle
      · exact (after.append_left _).trans (List.perm_append_comm_assoc _ _ _)
  | menu trieNode searchString string isPopulated actions rest ihActions ih =>
    cases isPopulated with
    | false =>
      rcases List.mem_cons.mp waits with rfl | later
      · refine ⟨0, [], rest.unopened, List.Perm.refl _, List.Perm.of_eq ?_⟩
        rw [← unopened_closed (fresh_prPopulate e _ _).1]
        rfl
      · obtain ⟨i, path, others, before, after⟩ := ih later
        refine ⟨i + 1, path, (trieNode, searchString) :: others, ?_, ?_⟩
        · exact (before.cons _).trans (List.Perm.swap _ _ _)
        · exact (after.cons _).trans List.perm_middle.symm
    | true =>
      rcases List.mem_append.mp waits with inside | later
      · obtain ⟨i, path, others, before, after⟩ := ihActions inside
        refine ⟨0, i :: path, others ++ rest.unopened, before.append_right _, ?_⟩
        rw [← List.append_assoc]
        exact after.append_right _
      · obtain ⟨i, path, others, before, after⟩ := ih later
        refine ⟨i + 1, path, actions.unopened ++ others, ?_, ?_⟩
        · exact (before.append_left _).trans List.perm_middle
        · exact (after.append_left _).trans (List.perm_append_comm_assoc _ _ _)

structure Picking (e : Emoji) (trie : Trie) (a : Actions) : Prop where
  filled : a.Filled e
  closed : a.closed = (e.newRoot trie).closed

theorem picking_root (e : Emoji) (trie : Trie) : Picking e trie (e.newRoot trie) := by
  obtain ⟨closed, filled⟩ := fresh_prPopulate e trie []
  exact ⟨⟨rfl, closed, filled, trivial⟩, rfl⟩

theorem Picking.show (picking : Picking e trie a) (path : List Nat) :
    Picking e trie (e.aboutToShow a path) :=
  ⟨show_filled path picking.filled, (show_closed e a path).trans picking.closed⟩

theorem Picking.shows (picking : Picking e trie a) (shows : List (List Nat)) :
    Picking e trie (shows.foldl e.aboutToShow a) := by
  induction shows generalizing a with
  | nil => exact picking
  | cons path shows ih => exact ih (picking.show path)

theorem Picking.tops (picking : Picking e trie a) : a.tops = [(trie, [])] := by
  rw [← tops_closed, picking.closed]
  rfl

theorem Picking.own (picking : Picking e trie a) (word : List Char) : a.own word = [] := by
  rw [← own_closed, picking.closed]
  rfl

end Opening

section Runs
variable {e : Emoji} {trie : Trie} {a : Actions}

/-- What the picker needs of the trie and the map that it has loaded. -/
structure Loaded (e : Emoji) (trie : Trie) : Prop where
  arrays : e.Arrays
  indexes : e.Indexes trie
  letters : ∀ c ∈ e.map, ' ' ∉ c
  root : Within trie trie []

theorem Loaded.accounts (loaded : Loaded e trie) (picking : Picking e trie a) :
    (a.offered [] ++ a.unopened.flatMap e.picks).Perm (e.picks (trie, [])) := by
  have all := offered_unopened (P := fun b => Within trie b.1 b.2)
    (fun d s within b top => (within.tops b top).1)
    (fun d s within => picks_prPopulate within.laid
      (within.plain loaded.arrays loaded.indexes loaded.letters)) picking.filled (by
        rw [picking.tops]
        simpa using loaded.root) []
  rw [picking.own, picking.tops] at all
  simpa using all

theorem Loaded.menus (loaded : Loaded e trie) (picking : Picking e trie a) :
    ∀ m ∈ a.menus, Within trie m.1.1 m.1.2 ∧ m.2 = title m.1.1 m.1.2 :=
  menus_hold (P := fun b => Within trie b.1 b.2)
    (fun d s within b top => (within.tops b top).1) picking.filled (by
      rw [picking.tops]
      simpa using loaded.root)

theorem offer_inj : Function.Injective e.offer := by
  rintro ⟨word, c⟩ ⟨word', c'⟩ same
  obtain ⟨rfl, rest⟩ := Prod.mk.inj same
  obtain ⟨-, picked⟩ := Prod.mk.inj rest
  cases picked
  rfl

theorem Loaded.picks_nodup (loaded : Loaded e trie) : (e.picks (trie, [])).Nodup :=
  (finds_nodup loaded.arrays loaded.indexes loaded.root).map offer_inj

/-- By induction on the letters that are left: behind a menu that waits, every word is offered
    after some more shows. -/
theorem Loaded.reaches (loaded : Loaded e trie) (picking : Picking e trie a)
    {m : Trie × List Char} {word : List Char} {c : Symbol} (waits : m ∈ a.unopened)
    (found : (word, c) ∈ e.finds m) : ∃ more : List (List Nat),
      e.offer (word, c) ∈ (more.foldl e.aboutToShow a).offered [] := by
  induction left : word.length - m.2.length using Nat.strongRecOn generalizing a m with
  | ind n ih =>
    obtain ⟨title, there⟩ := unopened_menus waits
    have within := (loaded.menus picking _ there).1
    obtain ⟨i, path, others, before, after⟩ := show_unopened e waits
    have picking' := picking.show (i :: path)
    have whole : e.offer (word, c) ∈ e.picks (trie, []) := by
      rw [← (loaded.accounts picking).mem_iff]
      exact List.mem_append_right _ (List.mem_flatMap.mpr ⟨m, waits, List.mem_map_of_mem found⟩)
    rw [← (loaded.accounts picking').mem_iff, List.mem_append] at whole
    rcases whole with offered | later
    · exact ⟨[i :: path], offered⟩
    · obtain ⟨b, waits', picked⟩ := List.mem_flatMap.mp later
      rcases List.mem_append.mp (after.mem_iff.mp waits') with top | other
      · have found' : (word, c) ∈ e.finds b := by
          obtain ⟨q, found, same⟩ := List.mem_map.mp picked
          rwa [← offer_inj same]
        obtain ⟨below, longer⟩ := within.tops b top
        have longer : m.2.length < b.2.length := longer
        have short := ((mem_finds loaded.arrays loaded.indexes below word c).mp found').1.length_le
        obtain ⟨more, offered⟩ :=
          ih (word.length - b.2.length) (by omega) picking' waits' found' rfl
        exact ⟨(i :: path) :: more, offered⟩
      · have once := (loaded.accounts picking).nodup_iff.mpr loaded.picks_nodup
        have behind := (List.nodup_append.mp once).2.1
        rw [(before.flatMap_right e.picks).nodup_iff, List.flatMap_cons,
          List.nodup_append] at behind
        exact absurd rfl (behind.2.2 _ (List.mem_map_of_mem found) _
          (List.mem_flatMap.mpr ⟨b, other, picked⟩))

theorem Emoji.Indexes.arranged {d : Trie} (indexes : e.Indexes d) (arranged : Arranged d trie) :
    e.Indexes trie := by
  intro word set
  rw [← (indexed_arranged arranged).mem_iff, indexes]

/-- What the script writes and the class loads is what the picker needs. -/
theorem loaded_of_script {includeChars : List Symbol} {uniTrie finalTrie : Trie}
    (order : includeChars.Perm e.map.keys)
    (arranged : Arranged (buildTrie e.map [] includeChars .empty) uniTrie)
    (starts : ∃ x y a b v w, a ≠ b ∧ HasPart e.map x (a :: v) ∧ HasPart e.map y (b :: w))
    (written : Arranged (prunedTrie uniTrie) finalTrie)
    (loads : Arranged (prLoadTrie finalTrie) trie) (arrays : e.Arrays)
    (letters : ∀ c ∈ e.map, ' ' ∉ c) : Loaded e trie := by
  have holds := (buildTrie_holds order).arranged arranged
  obtain ⟨x, y, a, b, v, w, differ, first, second⟩ := starts
  obtain ⟨result, squeezed⟩ := holds.grown.pruned (holds.root differ first second)
  obtain ⟨kinds, inside⟩ := holds.grown.kinds
  obtain ⟨kinds, inside⟩ := squeeze_kinds kinds inside .base
  obtain ⟨laid, below⟩ := squeezed.laid kinds inside
  rw [result] at written
  have laid := laid.arranged written
  have below := Inside.arranged (fun same laid => Laid.arranged laid same) written below
  rw [prLoadTrie, putAll_empty (Laid.solid laid.siblings.distinct below)] at loads
  have indexes : e.Indexes (squeeze .base uniTrie).2 := by
    intro word set
    have index := squeezed.index
    simp only [List.nil_append, List.map_id'] at index
    rw [← index, holds.mem_indexed]
  exact
    { arrays := arrays
      indexes := (indexes.arranged written).arranged loads
      letters := letters
      root :=
        { laid := laid.arranged loads
          inside := Inside.arranged (fun same laid => Laid.arranged laid same) loads below
          index := fun word set => Iff.rfl } }

/-- From the descriptions through the two passes, the file and the loaded class to the menus, in
    whatever order sets and dictionaries come and whichever menus have been shown: no character is
    offered twice under a word, what is offered under a word has it among the parts of its
    description, whatever has it can be reached, no page has more than 25 matches, and the number
    in the title of a menu is the number of words with a character that begin with its search
    string. -/
theorem picker_offers {includeChars : List Symbol} {uniTrie finalTrie : Trie}
    (order : includeChars.Perm e.map.keys)
    (arranged : Arranged (buildTrie e.map [] includeChars .empty) uniTrie)
    (starts : ∃ x y a b v w, a ≠ b ∧ HasPart e.map x (a :: v) ∧ HasPart e.map y (b :: w))
    (written : Arranged (prunedTrie uniTrie) finalTrie)
    (loads : Arranged (prLoadTrie finalTrie) trie) (arrays : e.Arrays)
    (letters : ∀ c ∈ e.map, ' ' ∉ c) (shows : List (List Nat)) :
    ((e.shown trie shows).offered []).Nodup ∧
      (∀ o ∈ (e.shown trie shows).offered [], ∃ word c, word ≠ [] ∧ HasPart e.map c word ∧
        o = (word, e.describe c, some c)) ∧
      (∀ word c, word ≠ [] → HasPart e.map c word → ∃ more,
        (word, e.describe c, some c) ∈ (e.shown trie (shows ++ more)).offered []) ∧
      (e.shown trie shows).Paged ∧
      ∀ m ∈ (e.shown trie shows).menus, ∃ found : Finset (List Char × Symbol),
        (∀ word c, (word, c) ∈ found ↔ m.1.2 <+: word ∧ word ≠ [] ∧ HasPart e.map c word) ∧
          m.2 = sized m.1.2 found.card := by
  have loaded := loaded_of_script order arranged starts written loads arrays letters
  have picking := (picking_root e trie).shows shows
  have accounts := loaded.accounts picking
  have finds := mem_finds arrays loaded.indexes loaded.root
  refine ⟨?_, ?_, ?_, shown_paged e trie shows, ?_⟩
  · exact (List.nodup_append.mp (accounts.nodup_iff.mpr loaded.picks_nodup)).1
  · intro o offered
    have picked := accounts.mem_iff.mp (List.mem_append_left _ offered)
    obtain ⟨⟨word, c⟩, found, rfl⟩ := List.mem_map.mp picked
    obtain ⟨-, long, has⟩ := (finds word c).mp found
    exact ⟨word, c, long, has, rfl⟩
  · intro word c long has
    have picked : e.offer (word, c) ∈ e.picks (trie, []) :=
      List.mem_map_of_mem ((finds word c).mpr ⟨List.nil_prefix, long, has⟩)
    simp only [Emoji.shown, List.foldl_append]
    rcases List.mem_append.mp (accounts.mem_iff.mpr picked) with offered | later
    · exact ⟨[], offered⟩
    · obtain ⟨m, waits, behind⟩ := List.mem_flatMap.mp later
      obtain ⟨q, found, same⟩ := List.mem_map.mp behind
      cases offer_inj same
      exact loaded.reaches picking waits found
  · intro m there
    obtain ⟨within, string⟩ := loaded.menus picking m there
    refine ⟨(e.finds m.1).toFinset, fun word c => ?_, ?_⟩
    · rw [List.mem_toFinset]
      exact mem_finds arrays loaded.indexes within word c
    · rw [string, title_within arrays loaded.indexes within,
        List.toFinset_card_of_nodup (finds_nodup arrays loaded.indexes within)]

def animalEmoji : Emoji where
  map := animals
  array _ set := animals.keys.filter fun c => c ∈ set
  before a b := decide (a.length ≤ b.length)

theorem picker_offers_cats : ∃ more, ("cats".toList, "cats: 3".toList, some ['3']) ∈
    (animalEmoji.shown (prLoadTrie (prunedTrie animalTrie)) ([[0, 0], [0, 1]] ++ more)).offered
      [] := by
  have starts : ∃ x y a b v w, a ≠ b ∧ HasPart animals x (a :: v) ∧ HasPart animals y (b :: w) :=
    ⟨['1'], ['2'], 'o', 'c', ['x'], ['a', 't'], by decide,
      ⟨"ox".toList, by decide, "ox".toList, by decide, by decide⟩,
      ⟨"cat (ox)".toList, by decide, "cat".toList, by decide, by decide⟩⟩
  have arrays : animalEmoji.Arrays := by
    intro s set known
    refine ⟨List.Nodup.filter _ (by decide), fun c => ?_⟩
    change c ∈ animals.keys.filter (fun c => decide (c ∈ set)) ↔ _
    rw [List.mem_filter, decide_eq_true_iff]
    exact and_iff_right_of_imp (known c)
  have letters : ∀ c ∈ animals, ' ' ∉ c := by
    intro c member
    have known : c ∈ animals.keys := member
    revert c
    decide
  obtain ⟨-, -, reached, -⟩ := picker_offers (e := animalEmoji) (List.Perm.refl _)
    (Arranged.refl animalTrie) starts (Arranged.refl _) (Arranged.refl _) arrays letters
    [[0, 0], [0, 1]]
  exact reached "cats".toList ['3'] (by decide)
    ⟨"cats".toList, by decide, "cats".toList, by decide, by decide⟩

end Runs

end SCLOrkEmoji
