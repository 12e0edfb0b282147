import PrefixLogic.Command
import PrefixLogic.Proofs.Log
import PrefixLogic.Proofs.Script.Trace

namespace PrefixLogic

namespace Script

/-- What the result of a run puts on the standard error. -/
def complained : Except LineError (Option Bool) → String
  | .ok _ => ""
  | .error error => "Error: " ++ error.message ++ "\n"

/-- The code that a run with a result ends with. -/
def exitCode : Except LineError (Option Bool) → Nat
  | .ok _ => 0
  | .error _ => 1

namespace Trace

variable (trace : Trace) (display : Display)

/-- A report on each step, and a complaint about the line that fails. -/
def transcript : Transcript :=
  ⟨trace.steps.flatMap (fun step => step.interpretation.reports display) ++
      trace.failure.toList.map fun failure => failure.error.complaint,
    exitCode trace.result⟩

end Trace

end Script

namespace Command

open Script

end Command

end PrefixLogic
