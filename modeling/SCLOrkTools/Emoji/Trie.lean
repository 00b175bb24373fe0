import Mathlib.Data.List.AList
import Mathlib.Data.Finset.Card
import SCLOrkTools.Library.MultiLevel

/- The search trie of the emoji script. Words of the descriptions are laid out letter by letter,
   and then the nodes on which nothing branches are flattened. -/
namespace SCLOrkEmoji
open MultiLevel Level

abbrev Symbol := List Char

inductive Leaf where
  | matched (set : Finset Symbol)
  | count (n : Nat)
  deriving DecidableEq

abbrev Trie := Level Symbol Leaf

def matchKey : Symbol := ['_', 'm', 'a', 't', 'c', 'h']
def countKey : Symbol := ['_', 'c', 'o', 'u', 'n', 't']

/-- What key.asString[0] tells: the other keys start with an underscore. -/
def searches (key : Symbol) : Bool := decide (key.head? ≠ some '_')

def weight : Leaf → Nat
  | .matched set => set.card
  | .count _ => 0

section Build

abbrev Descriptions := AList fun _ : Symbol => List Char

def wordPath (word : List Char) : List Symbol :=
  (word.filter Char.isAlphanum).map fun c => [c]

def plusOne : Option Leaf → Leaf
  | some (.count n) => .count (n + 1)
  | _ => .count 1

/-- From the whole path up, one key less at a time, until no key is left. -/
def climb (basePath path : List Symbol) : Nat → Trie → Trie
  | 0, uniTrie => uniTrie
  | n + 1, uniTrie =>
    let here := basePath ++ path.take (n + 1) ++ [countKey]
    climb basePath path n (uniTrie.put here (plusOne (uniTrie.atPath here)))

def matchSet : Option Leaf → Option (Finset Symbol)
  | some (.matched set) => some set
  | _ => none

def addWord (basePath : List Symbol) (uniChar : Symbol) (uniTrie : Trie) (word : List Char) :
    Trie :=
  let path := wordPath word
  if path = [] then uniTrie
  else
    let leaf := basePath ++ path ++ [matchKey]
    let found := matchSet (uniTrie.atPath leaf)
    let uniTrie := if found = none then uniTrie.put leaf (.matched ∅) else uniTrie
    let set := found.getD ∅
    if uniChar ∈ set then uniTrie
    else
      let uniTrie := uniTrie.put leaf (.matched (insert uniChar set))
      let uniTrie := climb basePath path path.length uniTrie
      let root := basePath ++ [countKey]
      -- The base count is there from the start, so it is never nil.
      uniTrie.put root (plusOne (uniTrie.atPath root))

def addChar (descMap : Descriptions) (basePath : List Symbol) (uniTrie : Trie)
    (uniChar : Symbol) : Trie :=
  match descMap.lookup uniChar with
  | none => uniTrie
  | some description => (description.splitOn ' ').foldl (addWord basePath uniChar) uniTrie

/-- The characters come in the order in which their set runs through them. -/
def buildTrie (descMap : Descriptions) (basePath includeChars : List Symbol) (uniTrie : Trie) :
    Trie :=
  includeChars.foldl (addChar descMap basePath) (uniTrie.put (basePath ++ [countKey]) (.count 0))

end Build

section Prune

inductive Turn where
  | base
  | terminating
  | continuation
  deriving DecidableEq

def turn (uniNode : Trie) : Turn :=
  if uniNode.size > 2 then .base
  else if uniNode.find matchKey ≠ none then .terminating
  else .continuation

structure Pruning where
  prunePath : List Symbol
  finalTrie : Trie

def Pruning.copy (s : Pruning) (key : Symbol) (leaf : Leaf) : Pruning :=
  { s with finalTrie := s.finalTrie.put (s.prunePath ++ [key]) leaf }

/-- The last cell of the array grows by the key. An array without cells stays. -/
def Pruning.coalesce (s : Pruning) (key : Symbol) : Pruning :=
  match s.prunePath.getLast? with
  | none => s
  | some last => { s with prunePath := s.prunePath.dropLast ++ [last ++ key] }

/-- The loop over the entries of a node, in any order. A call for a search key at a base node gets
    an array of its own; a call at a continuation works on the caller's. -/
def pruneEntries : Turn → Trie → Pruning → Pruning
  | _, .empty, s => s
  | .base, .value key leaf rest, s =>
    pruneEntries .base rest (if searches key then s else s.copy key leaf)
  | .base, .inner key node rest, s =>
    let below := pruneEntries (turn node) node ⟨s.prunePath ++ [key], s.finalTrie⟩
    pruneEntries .base rest (if searches key then ⟨s.prunePath, below.finalTrie⟩ else s)
  | .terminating, .value key leaf rest, s => pruneEntries .terminating rest (s.copy key leaf)
  -- With a match and a count there is no room for a third entry.
  | .terminating, .inner _ _ rest, s => pruneEntries .terminating rest s
  -- The only other value is the count.
  | .continuation, .value _ _ rest, s => pruneEntries .continuation rest s
  | .continuation, .inner key node rest, s =>
    pruneEntries .continuation rest
      (if key = countKey then s else pruneEntries (turn node) node (s.coalesce key))

def pruneTrie (uniNode : Trie) (prunePath : List Symbol) (finalTrie : Trie) : Pruning :=
  pruneEntries (turn uniNode) uniNode ⟨prunePath, finalTrie⟩

/-- What the script writes out after the two passes. -/
def prunedTrie (uniTrie : Trie) : Trie := (pruneTrie uniTrie [] .empty).finalTrie

end Prune

section Meaning

def matchesAt (key : Symbol) : Leaf → List (List Char × Finset Symbol)
  | .matched set => if key = matchKey then [([], set)] else []
  | .count _ => []

def indexed : Trie → List (List Char × Finset Symbol)
  | .empty => []
  | .value key leaf rest => matchesAt key leaf ++ indexed rest
  | .inner key node rest => (indexed node).map (fun e => (key ++ e.1, e.2)) ++ indexed rest

/-- The word is what a word of the description leaves of letters and digits. -/
def HasPart (descMap : Descriptions) (uniChar : Symbol) (part : List Char) : Prop :=
  ∃ description, descMap.lookup uniChar = some description ∧
    ∃ word ∈ description.splitOn ' ', word.filter Char.isAlphanum = part

end Meaning
end SCLOrkEmoji
