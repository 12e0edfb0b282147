import PrefixLogic.Formula.Eval
import PrefixLogic.Formula.OfTree
import PrefixLogic.Tree.Reader

namespace PrefixLogic

/-- All that is learnt from a line that has a value. -/
structure Interpretation where
  tree : Tree
  formula : Formula
  value : Bool

/-- Reads a line and evaluates what it spells. An environment is left behind in
    every case: a line that cannot be read leaves it as it was, and one without
    a value keeps what was set on the way. -/
def interpretLine (line : List Char) (env : Environment) :
    Except LineError Interpretation × Environment :=
  match Tree.ofText line with
  | .error error => (.error (.reading error), env)
  | .ok tree =>
    match Formula.ofTree tree with
    | .error error => (.error (.reading error), env)
    | .ok formula =>
      match formula.eval env with
      | (.error error, env) => (.error (.evaluating error), env)
      | (.ok value, env) => (.ok ⟨tree, formula, value⟩, env)

/-- The written form of a truth value. -/
def truthText : Bool → String
  | true => "true"
  | false => "false"

end PrefixLogic
