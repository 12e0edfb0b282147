import PrefixLogic.Line
import PrefixLogic.Text.Lines

namespace PrefixLogic.Script

/-- Whether a line of a script is not interpreted: a blank line, or a comment. -/
def isSkippable (line : List Char) : Bool :=
  match Text.trim line with
  | [] => true
  | c :: _ => c == ';'

/-- The lines of a script that are interpreted, as they stand in it. -/
def codeLines (source : List Char) : List (List Char) :=
  (Text.lines source).filter fun line => !isSkippable line

/-- The value of the last of some lines, each interpreted in the environment that
    the one before it leaves. Without a line it is the value given, and the
    first line that fails ends the run. -/
def lastValue (lines : List (List Char)) (env : Environment) (value : Option Bool) :
    Except LineError (Option Bool) :=
  match lines with
  | [] => .ok value
  | line :: rest =>
    match interpretLine line env with
    | (.error error, _) => .error error
    | (.ok interpretation, env) => lastValue rest env (some interpretation.value)

/-- The value of a script, if it has a line to give it one. -/
def result (source : List Char) : Except LineError (Option Bool) :=
  lastValue (codeLines source) .empty none

/-- What is printed of the result of a script. -/
def printed : Except LineError (Option Bool) → String
  | .ok (some value) => truthText value ++ "\n"
  | _ => ""

end PrefixLogic.Script
