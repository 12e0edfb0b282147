import PrefixLogic.Output

namespace PrefixLogic

/-- How much a record of the log matters, from most to least. -/
inductive Severity where
  | error
  | warn
  | info
  | debug
  | trace

namespace Severity

end Severity

/-- What is told to the log. -/
structure Record where
  severity : Severity
  message : String

/-- A log: the line that it writes for a record, if it writes one. -/
abbrev Log := Record → Option String

def Log.outputs (log : Log) (records : List Record) : List Output :=
  (records.filterMap log).map .logged

/-- The records of an evaluation: what is bound, and what is released behind a body. -/
def Formula.records : Formula → Environment → List Record
  | .ref _, _ => []
  | .literal _, _ => []
  | .null, _ => []
  | .not operand, env => operand.records env
  | .binary _ left right, env =>
    left.records env ++ (left.eval env).onwards fun _ between => right.records between
  | .set name binding, env =>
    binding.records env ++ (binding.eval env).onwards fun value _ =>
      [⟨.trace, "set " ++ name ++ " = " ++ truthText value⟩]
  | .letIn name binding body, env =>
    binding.records env ++ (binding.eval env).onwards fun value after =>
      -- The name is released behind a body that fails as well.
      ⟨.trace, "let " ++ name ++ " = " ++ truthText value⟩ ::
        (body.records (after.insert name value) ++ [⟨.trace, "let " ++ name ++ " released"⟩])

/-- The records of a line, each told as soon as there is what it shows. -/
def lineRecords (line : List Char) (env : Environment) : List Record :=
  match Tree.ofText line with
  | .error _ => []
  | .ok tree =>
    ⟨.debug, "read: " ++ tree.text⟩ ::
      match Formula.ofTree tree with
      | .error _ => []
      | .ok formula =>
        ⟨.debug, "built: " ++ formula.text⟩ ::
          (formula.records env ++ (formula.eval env).onwards fun value _ =>
            [⟨.debug, "value: " ++ truthText value⟩])

end PrefixLogic
