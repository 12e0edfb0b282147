import PrefixLogic.Line

namespace PrefixLogic

/-- One piece of what a run writes. Prompts and reports go to the standard
    output, and complaints and the log to the standard error. -/
inductive Output where
  | prompt
  | report (line : String)
  | complaint (line : String)
  | logged (line : String)
deriving DecidableEq

namespace Output

/-- The text of the prompt, behind which the cursor stays. -/
def promptText : String := "LPL >> "

def stdout : Output → String
  | .prompt => promptText
  | .report line => line ++ "\n"
  | _ => ""

def stderr : Output → String
  | .complaint line => line ++ "\n"
  | .logged line => line ++ "\n"
  | _ => ""

end Output

/-- What is shown of a line besides its value. -/
structure Display where
  tree : Bool
  formula : Bool
deriving DecidableEq

/-- The reports on a line: its tree and its formula if they are asked for, and
    always its value. -/
def Interpretation.reports (interpretation : Interpretation) (display : Display) : List Output :=
  (if display.tree then [.report interpretation.tree.text] else []) ++
  (if display.formula then [.report interpretation.formula.text] else []) ++
  [.report (truthText interpretation.value)]

/-- The complaint about a line that fails. -/
def LineError.complaint (error : LineError) : Output :=
  .complaint ("Error: " ++ error.message)

/-- All that a run writes, and the code that it ends with. -/
structure Transcript where
  outputs : List Output
  code : Nat

namespace Transcript

def stdout (transcript : Transcript) : String :=
  String.join (transcript.outputs.map Output.stdout)

def stderr (transcript : Transcript) : String :=
  String.join (transcript.outputs.map Output.stderr)

end Transcript

end PrefixLogic
