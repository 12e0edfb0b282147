import PrefixLogic.Formula.Basic

namespace PrefixLogic

/-- What may stand at the head of a list. -/
inductive Operator where
  | not
  | binary (connective : Connective)
  | set
  | letIn
deriving DecidableEq

namespace Operator

def all : List Operator :=
  [.not, .binary .and, .binary .or, .binary .implies, .binary .iff, .set, .letIn]

/-- The spellings of an operator. No two operators share one. -/
def aliases : Operator → List String
  | .not => ["not", "N", "~", "[-]", "!"]
  | .binary .and => ["and", "K", "&", "[*]"]
  | .binary .or => ["or", "A", "||", "[+]"]
  | .binary .implies => ["implies", "imp", "C", "=>"]
  | .binary .iff => ["iff", "E", "<=>"]
  | .set => ["set"]
  | .letIn => ["let"]

/-- How many terms an operator takes. -/
def arity : Operator → Nat
  | .not => 1
  | .binary _ => 2
  | .set => 2
  | .letIn => 3

/-- The operator that a name spells. -/
def ofName? (name : String) : Option Operator :=
  all.find? fun operator => operator.aliases.contains name

theorem mem_all (operator : Operator) : operator ∈ all := by
  cases operator with
  | binary connective => cases connective <;> decide
  | _ => decide

/-- A name that resolves is one of the operator's spellings. -/
theorem mem_aliases_of_ofName? {name : String} {operator : Operator}
    (hresolve : ofName? name = some operator) : name ∈ operator.aliases := by
  have hcontains := List.find?_some hresolve
  simpa using hcontains

/-- Every spelling of an operator resolves to it. -/
theorem ofName?_of_mem_aliases {name : String} {operator : Operator}
    (hmem : name ∈ operator.aliases) : ofName? name = some operator := by
  have hall : ∀ operator ∈ all, ∀ name ∈ operator.aliases, ofName? name = some operator := by
    decide
  exact hall operator (mem_all operator) name hmem

end Operator

end PrefixLogic
