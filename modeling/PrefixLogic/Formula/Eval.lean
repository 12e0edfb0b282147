import PrefixLogic.Environment
import PrefixLogic.Error
import PrefixLogic.Formula.Basic

namespace PrefixLogic

/-- What evaluation leads to: a truth value or an error, and in both cases the
    environment as it is left. -/
abbrev Evaluation := Except EvaluationError Bool × Environment

/-- What goes on behind an evaluation that has a value, as a list. Behind an error nothing
    does. -/
def Evaluation.onwards {α : Type} (evaluation : Evaluation) (next : Bool → Environment → List α) :
    List α :=
  match evaluation with
  | (.ok value, env) => next value env
  | (.error _, _) => []

namespace Formula

/-- Evaluates a formula. Both sides of a connective are always evaluated, the
    left one first, because either may bind names. What is set stays bound. A
    name that `letIn` binds is unbound again behind the body, whether or not it
    was bound before and whether or not the body has a value. -/
def eval : Formula → Environment → Evaluation
  | .literal value, env => (.ok value, env)
  | .ref name, env =>
    match env.get? name with
    | some value => (.ok value, env)
    | none => (.error (.undefined name), env)
  | .not operand, env =>
    match operand.eval env with
    | (.ok value, env) => (.ok !value, env)
    | (.error error, env) => (.error error, env)
  | .binary connective left right, env =>
    match left.eval env with
    | (.error error, env) => (.error error, env)
    | (.ok x, env) =>
      match right.eval env with
      | (.error error, env) => (.error error, env)
      | (.ok y, env) => (.ok (connective.apply x y), env)
  | .set name binding, env =>
    match binding.eval env with
    | (.error error, env) => (.error error, env)
    | (.ok value, env) => (.ok value, env.insert name value)
  | .letIn name binding body, env =>
    match binding.eval env with
    | (.error error, env) => (.error error, env)
    | (.ok value, env) =>
      match body.eval (env.insert name value) with
      | (result, env) => (result, env.erase name)
  | .null, env => (.error .null, env)

end Formula

end PrefixLogic
