import Mathlib.Data.List.TakeWhile
import PrefixLogic.Proofs.Text.Trimming
import PrefixLogic.Script

namespace PrefixLogic.Script

/-- A line with a value, and the environment that it is interpreted in. -/
structure Step where
  line : List Char
  before : Environment
  interpretation : Interpretation

/-- A line without a value, and the environment that it is interpreted in. -/
structure Failure where
  line : List Char
  before : Environment
  error : LineError

/-- All that is interpreted in a run over some lines: those with a value and, where the
    run ends early, the line that ends it. -/
structure Trace where
  steps : List Step
  failure : Option Failure

namespace Trace

/-- A trace with a step more at its start. -/
def after (step : Step) (trace : Trace) : Trace :=
  ⟨step :: trace.steps, trace.failure⟩

/-- The lines that are interpreted. -/
def lines (trace : Trace) : List (List Char) :=
  trace.steps.map Step.line ++ trace.failure.toList.map Failure.line

/-- The value of the last step, if there is one. -/
def lastValue? (trace : Trace) : Option Bool :=
  trace.steps.getLast?.map fun step => step.interpretation.value

/-- What a run comes to: the error that ends it early, or else its last value. -/
def result (trace : Trace) : Except LineError (Option Bool) :=
  match trace.failure with
  | some failure => .error failure.error
  | none => .ok trace.lastValue?

end Trace

end PrefixLogic.Script
