import PrefixLogic.Binary64.Text
import PrefixLogic.Error
import PrefixLogic.Token.Basic

namespace PrefixLogic

/-- What cannot be taken apart: a number, a name or one of the two truth values. -/
inductive Atom where
  | constant (value : Binary64)
  | symbol (name : String)
  | truth (value : Bool)
deriving DecidableEq

namespace Atom

/-- The truth value that a word spells, in full or by its first letter, in
    either case. -/
def spelledTruth? (chars : List Char) : Option Bool :=
  let folded := String.ofList (chars.map Char.toLower)
  if folded = "true" ∨ folded = "t" then some true
  else if folded = "false" ∨ folded = "f" then some false
  else none

/-- The atom of a token. Whatever is no number and spells no truth value is a
    symbol, a parenthesis too. -/
def ofToken : Token → Atom
  | .number numeral => .constant numeral.value
  | token =>
    match spelledTruth? token.chars with
    | some value => .truth value
    | none => .symbol token.text

/-- What an atom is called where a list was needed. -/
def kind : Atom → String
  | .constant _ => "constant"
  | .symbol _ => "symbol"
  | .truth true => "true"
  | .truth false => "false"

def text : Atom → String
  | .constant value => "Constant(" ++ value.text ++ ")"
  | .symbol name => "Symbol(" ++ name ++ ")"
  | .truth true => "True"
  | .truth false => "False"

/-- Atoms are compared as they are, and constants as numbers. -/
def same : Atom → Atom → Bool
  | .constant x, .constant y => x.same y
  | a, b => a == b

end Atom

/-- A symbolic expression. A list is a chain of pairs that ends in the empty
    list; a chain may also end in an atom, and is then no list. -/
inductive Tree where
  | atom (value : Atom)
  | empty
  | pair (head tail : Tree)
deriving DecidableEq

namespace Tree

/-- The list of the given trees. -/
def ofList (items : List Tree) : Tree :=
  items.foldr .pair .empty

/-- The trees that a list holds. A chain that ends in an atom is refused with
    the kind of that atom. -/
def items : Tree → Except SyntaxError (List Tree)
  | .empty => .ok []
  | .atom value => .error (.notAList value.kind)
  | .pair head tail => tail.items.map (head :: ·)

/-- Whether a chain ends in the empty list. -/
def isProper : Tree → Bool
  | .empty => true
  | .atom _ => false
  | .pair _ tail => tail.isProper

def isAtom : Tree → Bool
  | .atom _ => true
  | _ => false

def kind : Tree → String
  | .atom value => value.kind
  | .empty => "empty list"
  | .pair .. => "pair"

mutual

/-- The written form of a tree: a list shows its items, and a chain that is no
    list shows pair after pair. -/
def text : Tree → String
  | .atom value => value.text
  | .empty => "Empty"
  | .pair head tail =>
    if tail.isProper then "List(" ++ head.text ++ tail.itemsText ++ ")"
    else "Pair(" ++ head.text ++ " . " ++ tail.text ++ ")"

/-- The items of a list, each behind a space. -/
def itemsText : Tree → String
  | .pair head tail => " " ++ head.text ++ tail.itemsText
  | _ => ""

end

/-- Equality of trees, where constants are compared as numbers. -/
def same : Tree → Tree → Bool
  | .atom a, .atom b => a.same b
  | .empty, .empty => true
  | .pair head tail, .pair head' tail' => head.same head' && tail.same tail'
  | _, _ => false

@[simp] theorem items_ofList (trees : List Tree) : (ofList trees).items = .ok trees := by
  induction trees with
  | nil => rfl
  | cons tree rest ih => rw [ofList, List.foldr_cons, ← ofList, items, ih]; rfl

/-- A tree that has items is the list of them. -/
theorem eq_ofList_of_items {tree : Tree} {trees : List Tree} (hitems : tree.items = .ok trees) :
    tree = ofList trees := by
  induction tree generalizing trees with
  | atom value => cases hitems
  | empty => cases hitems; rfl
  | pair head tail _ ih =>
    rw [items] at hitems
    cases htail : tail.items with
    | error e => rw [htail] at hitems; cases hitems
    | ok rest =>
      rw [htail] at hitems
      cases hitems
      rw [ofList, List.foldr_cons, ← ofList, ← ih htail]

/-- An item is smaller than its list. -/
theorem sizeOf_lt_of_mem_items {tree item : Tree} {trees : List Tree}
    (hitems : tree.items = .ok trees) (hmem : item ∈ trees) : sizeOf item < sizeOf tree := by
  rw [eq_ofList_of_items hitems]
  clear hitems
  induction trees with
  | nil => cases hmem
  | cons first rest ih =>
    rw [ofList, List.foldr_cons, ← ofList, Tree.pair.sizeOf_spec]
    rcases List.mem_cons.mp hmem with rfl | hrest
    · omega
    · have := ih hrest
      omega

end Tree

end PrefixLogic
