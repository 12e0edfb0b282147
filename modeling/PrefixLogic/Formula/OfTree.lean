import PrefixLogic.Formula.Operator
import PrefixLogic.Tree.Basic

namespace PrefixLogic

/-- The names of symbols, joined into one. The first item that is no symbol is
    reported. -/
def joinSymbols : List Tree → Except SyntaxError String
  | [] => .ok ""
  | .atom (.symbol name) :: rest => (joinSymbols rest).map (name ++ ·)
  | other :: _ => .error (.invalidComponent other.text)

/-- The operator's name that the head of a list spells: a symbol spells itself,
    and a list of symbols spells them all together. -/
def operatorName (head : Tree) : Except SyntaxError String :=
  match head with
  | .atom (.symbol name) => .ok name
  | .pair .. => head.items.bind joinSymbols
  | other => .error (.invalidComponent other.text)

/-- The name in the place of a variable. -/
def boundName (operator : String) : Tree → Except SyntaxError String
  | .atom (.symbol name) => .ok name
  | other => .error (.notASymbol operator other.text)

/-- The outermost step of reading a tree as a formula, with everything below it
    still unread. -/
inductive Layer where
  | leaf (formula : Formula)
  /-- A list of one element, whose parentheses mean nothing. -/
  | group (element : Tree)
  | not (operand : Tree)
  | binary (connective : Connective) (left right : Tree)
  | set (name : String) (binding : Tree)
  | letIn (name : String) (binding body : Tree)

namespace Layer

/-- The trees that are read on, in the order in which they are read. -/
def operands : Layer → List Tree
  | .leaf _ => []
  | .group element => [element]
  | .not operand => [operand]
  | .binary _ left right => [left, right]
  | .set _ binding => [binding]
  | .letIn _ binding body => [binding, body]

/-- An operator over its terms. `name` is the spelling that messages show. -/
def ofOperator (name : String) (operator : Operator) (terms : List Tree) :
    Except SyntaxError Layer :=
  match operator, terms with
  | .not, [operand] => .ok (.not operand)
  | .binary connective, [left, right] => .ok (.binary connective left right)
  | .set, [place, binding] => (boundName name place).map (.set · binding)
  | .letIn, [place, binding, body] => (boundName name place).map (.letIn · binding body)
  | _, _ => .error (.wrongTermCount name terms.length)

/-- A name over terms. Four terms or more are too many for whatever the name may
    spell. -/
def ofTerms (name : String) (terms : List Tree) : Except SyntaxError Layer :=
  if 3 < terms.length then .error (.unknownOperator name)
  else
    match Operator.ofName? name with
    | none => .error (.wrongTermCount name terms.length)
    | some operator => ofOperator name operator terms

/-- A constant is a truth value if it is one or zero, and nothing otherwise. -/
def ofConstant (value : Binary64) : Formula :=
  if value.isOne then .literal true
  else if value.isZero then .literal false
  else .null

/-- The outermost step of a list's items. -/
def ofItems : List Tree → Except SyntaxError Layer
  | [] => .ok (.leaf .null)
  | [element] => .ok (.group element)
  | head :: terms => (operatorName head).bind (ofTerms · terms)

def ofTree : Tree → Except SyntaxError Layer
  | .atom (.truth value) => .ok (.leaf (.literal value))
  | .atom (.constant value) => .ok (.leaf (ofConstant value))
  | .atom (.symbol name) => .ok (.leaf (.ref name))
  | .empty => .ok (.leaf .null)
  | .pair head tail => (Tree.pair head tail).items.bind ofItems

theorem operands_subset_of_ofOperator {name : String} {operator : Operator} {terms : List Tree}
    {layer : Layer} (hlayer : ofOperator name operator terms = .ok layer) :
    layer.operands ⊆ terms := by
  have hbound : ∀ {place : Tree} {f : String → Layer},
      (boundName name place).map f = .ok layer → ∃ bound, layer = f bound := by
    intro place f hmap
    cases hname : boundName name place with
    | error e => rw [hname] at hmap; cases hmap
    | ok bound => rw [hname] at hmap; cases hmap; exact ⟨bound, rfl⟩
  rw [ofOperator.eq_def] at hlayer
  split at hlayer
  · cases hlayer; simp [operands]
  · cases hlayer; simp [operands]
  · obtain ⟨bound, rfl⟩ := hbound hlayer; simp [operands]
  · obtain ⟨bound, rfl⟩ := hbound hlayer; simp [operands]
  · cases hlayer

/-- Everything that is read on is smaller than the tree it belongs to. -/
theorem sizeOf_lt_of_mem_operands {tree operand : Tree} {layer : Layer}
    (hlayer : ofTree tree = .ok layer) (hmem : operand ∈ layer.operands) :
    sizeOf operand < sizeOf tree := by
  rw [ofTree.eq_def] at hlayer
  split at hlayer
  · cases hlayer; cases hmem
  · cases hlayer; cases hmem
  · cases hlayer; cases hmem
  · cases hlayer; cases hmem
  · rename_i head tail
    cases hitems : (Tree.pair head tail).items with
    | error e => rw [hitems] at hlayer; cases hlayer
    | ok items =>
      rw [hitems] at hlayer
      refine Tree.sizeOf_lt_of_mem_items hitems ?_
      change ofItems items = .ok layer at hlayer
      rw [ofItems.eq_def] at hlayer
      split at hlayer
      · cases hlayer; cases hmem
      · cases hlayer; exact hmem
      · rename_i first terms _
        cases hname : operatorName first with
        | error e => rw [hname] at hlayer; cases hlayer
        | ok name =>
          rw [hname] at hlayer
          change ofTerms name terms = .ok layer at hlayer
          rw [ofTerms] at hlayer
          split at hlayer
          · cases hlayer
          · split at hlayer
            · cases hlayer
            · exact List.mem_cons_of_mem _ (operands_subset_of_ofOperator hlayer hmem)

end Layer

namespace Formula

set_option linter.unusedVariables false in
/-- The formula that a tree spells. The outermost step is checked first and its
    operands from left to right after it, so the first fault is reported. -/
def ofTree (tree : Tree) : Except SyntaxError Formula :=
  match hlayer : Layer.ofTree tree with
  | .error error => .error error
  | .ok (.leaf formula) => .ok formula
  | .ok (.group element) => ofTree element
  | .ok (.not operand) => (ofTree operand).map .not
  | .ok (.binary connective left right) =>
    match ofTree left with
    | .error error => .error error
    | .ok left => (ofTree right).map (.binary connective left)
  | .ok (.set name binding) => (ofTree binding).map (.set name)
  | .ok (.letIn name binding body) =>
    match ofTree binding with
    | .error error => .error error
    | .ok binding => (ofTree body).map (.letIn name binding)
termination_by sizeOf tree
decreasing_by
  all_goals exact Layer.sizeOf_lt_of_mem_operands hlayer (by simp [Layer.operands])

/-- The formula of a tree as an equation on its outermost step. -/
theorem ofTree_eq (tree : Tree) :
    ofTree tree =
      match Layer.ofTree tree with
      | .error error => .error error
      | .ok (.leaf formula) => .ok formula
      | .ok (.group element) => ofTree element
      | .ok (.not operand) => (ofTree operand).map .not
      | .ok (.binary connective left right) =>
        match ofTree left with
        | .error error => .error error
        | .ok left => (ofTree right).map (.binary connective left)
      | .ok (.set name binding) => (ofTree binding).map (.set name)
      | .ok (.letIn name binding body) =>
        match ofTree binding with
        | .error error => .error error
        | .ok binding => (ofTree body).map (.letIn name binding) := by
  rw [ofTree]
  split <;> rename_i hlayer <;> rw [hlayer]

/-- The formula that a list spells; an atom is no list. -/
def ofListTree (tree : Tree) : Except SyntaxError Formula :=
  match tree with
  | .atom value => .error (.notAList value.kind)
  | tree => ofTree tree

end Formula

end PrefixLogic
