import PrefixLogic.Log
import PrefixLogic.Text.Blank

namespace PrefixLogic.Session

/-- The line that ends a session. -/
def quit : List Char := ['q', 'u', 'i', 't']

/-- The answer to a line and the environment behind it, or nothing if the line
    ends the session. An empty line is answered by silence, and one that fails
    by a complaint. What the log gets comes first. -/
def reply? (log : Log) (display : Display) (env : Environment) (line : List Char) :
    Option (List Output × Environment) :=
  let line := Text.trim line
  if line = quit then none
  else if line = [] then some ([], env)
  else
    let logged := log.outputs (lineRecords line env)
    match interpretLine line env with
    | (.ok interpretation, env) => some (logged ++ interpretation.reports display, env)
    | (.error error, env) => some (logged ++ [error.complaint], env)

/-- The complaint about input that is no text. -/
def undecodable : Output :=
  .complaint "stream did not contain valid UTF-8"

/-- What a session does about a line: it ends with a code, or it answers and goes on with
    an environment. -/
inductive Next where
  | ended (outputs : List Output) (code : Nat)
  | answered (outputs : List Output) (env : Environment)

/-- A line that cannot be decoded stands as `none` and ends the session with a complaint. -/
def next (log : Log) (display : Display) (env : Environment) : Option (List Char) → Next
  | none => .ended [undecodable] 1
  | some line =>
    match reply? log display env line with
    | none => .ended [] 0
    | some (outputs, env) => .answered outputs env

/-- How a session goes: what it writes, its code, and the environment at its end. -/
structure Course where
  transcript : Transcript
  env : Environment

/-- A course with more output before it. -/
def Course.after (outputs : List Output) (course : Course) : Course :=
  ⟨⟨outputs ++ course.transcript.outputs, course.transcript.code⟩, course.env⟩

/-- Answers lines until one of them ends the session or there are no more. Each
    is prompted for, and so is the end of the input. -/
def run (log : Log) (display : Display) (lines : List (Option (List Char)))
    (env : Environment) : Course :=
  match lines with
  | [] => ⟨⟨[.prompt], 0⟩, env⟩
  | line :: rest =>
    match next log display env line with
    | .ended outputs code => ⟨⟨.prompt :: outputs, code⟩, env⟩
    | .answered outputs env => (run log display rest env).after (.prompt :: outputs)

end PrefixLogic.Session
