import Mathlib.Data.List.Sort
import SCLOrkTools.Emoji.Pruning

/- The menus of the emoji picker. What the script wrote is put together again, and a menu is
   filled with its matches and the menus below it when it is about to be shown. -/
namespace SCLOrkEmoji
open MultiLevel Level

section Menus

/-- The generated file puts the values one after the other. -/
def prLoadTrie (finalTrie : Trie) : Trie := putAll finalTrie.leaves .empty

/-- The class with its map loaded, the order that each literal array was written in and the
    order that strings are sorted in. -/
structure Emoji where
  map : Descriptions
  array : List Char → Finset Symbol → List Symbol
  before : List Char → List Char → Bool

/-- What a menu has been filled with. Pages of more matches are menus of their own. -/
inductive Actions where
  | nil
  | action (string : List Char) (picked : Option Symbol) (rest : Actions)
  | separator (rest : Actions)
  | more (string : List Char) (page rest : Actions)
  | menu (trieNode : Trie) (searchString string : List Char) (isPopulated : Bool)
      (actions rest : Actions)
  deriving DecidableEq

/-- Every character of a match set has a description. -/
def Emoji.describe (e : Emoji) (item : Symbol) : List Char :=
  (e.map.lookup item).getD [] ++ ": ".toList ++ item

def sized (string : List Char) (n : Nat) : List Char :=
  string ++ " (".toList ++ Nat.toDigits 10 n ++ [')']

def title (trieNode : Trie) (searchString : List Char) : List Char :=
  match trieNode.atPath [countKey] with
  | some (.count n) => sized searchString n
  | _ => searchString ++ " (nil)".toList

/-- The loop over matchList from the index on. What is added to this menu after the loop stands
    behind the first of the pages. -/
def addActions (descMap : AList fun _ : List Char => Symbol) :
    Nat → List (List Char) → Actions → Actions
  | _, [], behind => behind
  | i, string :: strings, behind =>
    if i % 25 = 0 ∧ i > 0 then
      .more (sized "more..".toList (strings.length + 1))
        (.action string (descMap.lookup string) (addActions descMap (i + 1) strings .nil)) behind
    else .action string (descMap.lookup string) (addActions descMap (i + 1) strings behind)

def nodeAt (trieNode : Trie) (key : Symbol) : Option Trie :=
  match trieNode.find key with
  | some (.inr node) => if searches key then some node else none
  | _ => none

def addMenus (trieNode : Trie) (searchString : List Char) : List Symbol → Actions
  | [] => .nil
  | key :: keys =>
    match nodeAt trieNode key with
    | none => addMenus trieNode searchString keys
    | some node =>
      .menu node (searchString ++ key) (title node (searchString ++ key)) false .nil
        (addMenus trieNode searchString keys)

def Emoji.sort (e : Emoji) (strings : List (List Char)) : List (List Char) :=
  strings.insertionSort fun a b => e.before a b

def describeAll (e : Emoji) (items : List Symbol) : AList fun _ : List Char => Symbol :=
  items.foldl (fun descMap item => descMap.insert (e.describe item) item) ∅

def Emoji.prPopulate (e : Emoji) (trieNode : Trie) (searchString : List Char) : Actions :=
  let menus := addMenus trieNode searchString (e.sort trieNode.keys)
  match matchSet (trieNode.atPath [matchKey]) with
  | none => menus
  | some set =>
    let items := e.array searchString set
    addActions (describeAll e items) 0 (e.sort (items.map e.describe)) (.separator menus)

def Emoji.newRoot (e : Emoji) (trie : Trie) : Actions :=
  .menu trie [] (title trie []) true (e.prPopulate trie []) .nil

/-- The menu at a position is about to be shown: the path counts the actions of each menu. -/
def Emoji.aboutToShow (e : Emoji) : Actions → List Nat → Actions
  | .action string picked rest, (i + 1) :: path =>
    .action string picked (e.aboutToShow rest (i :: path))
  | .separator rest, (i + 1) :: path => .separator (e.aboutToShow rest (i :: path))
  | .more string page rest, 0 :: path => .more string (e.aboutToShow page path) rest
  | .more string page rest, (i + 1) :: path =>
    .more string page (e.aboutToShow rest (i :: path))
  | .menu trieNode searchString string isPopulated actions rest, [0] =>
    .menu trieNode searchString string true
      (if isPopulated then actions else e.prPopulate trieNode searchString) rest
  | .menu trieNode searchString string isPopulated actions rest, 0 :: path =>
    .menu trieNode searchString string isPopulated (e.aboutToShow actions path) rest
  | .menu trieNode searchString string isPopulated actions rest, (i + 1) :: path =>
    .menu trieNode searchString string isPopulated actions (e.aboutToShow rest (i :: path))
  | actions, _ => actions

def Emoji.shown (e : Emoji) (trie : Trie) (shows : List (List Nat)) : Actions :=
  shows.foldl e.aboutToShow (e.newRoot trie)

end Menus

end SCLOrkEmoji
