namespace PrefixLogic

/-- How two truth values are joined into one. -/
inductive Connective where
  | and
  | or
  | implies
  | iff
deriving DecidableEq

namespace Connective

def apply : Connective → Bool → Bool → Bool
  | .and, left, right => left && right
  | .or, left, right => left || right
  | .implies, left, right => !left || right
  | .iff, left, right => left == right

/-- The name of a connective in the written form of a formula. -/
def label : Connective → String
  | .and => "And"
  | .or => "Or"
  | .implies => "Implies"
  | .iff => "Iff"

end Connective

/-- A formula of propositional logic whose evaluation may also bind names.
    `null` is the formula without a meaning. -/
inductive Formula where
  | ref (name : String)
  | literal (value : Bool)
  | not (operand : Formula)
  | binary (connective : Connective) (left right : Formula)
  | letIn (name : String) (binding body : Formula)
  | set (name : String) (binding : Formula)
  | null
deriving DecidableEq

namespace Formula

def isNull : Formula → Bool
  | .null => true
  | _ => false

/-- The connective of a formula and what it joins, if that is its outermost step. -/
def asBinary? : Formula → Option (Connective × Formula × Formula)
  | .binary connective left right => some (connective, left, right)
  | _ => none

def text : Formula → String
  | .ref name => "Reference(" ++ name ++ ")"
  | .literal true => "BoolLiteral(true)"
  | .literal false => "BoolLiteral(false)"
  | .not operand => "Not(" ++ operand.text ++ ")"
  | .binary connective left right =>
    connective.label ++ "(" ++ left.text ++ ", " ++ right.text ++ ")"
  | .letIn name binding body =>
    "Let(" ++ name ++ ", " ++ binding.text ++ ", " ++ body.text ++ ")"
  | .set name binding => "Set(" ++ name ++ ", " ++ binding.text ++ ")"
  | .null => "Null"

end Formula

end PrefixLogic
