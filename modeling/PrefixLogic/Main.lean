import PrefixLogic.Arguments

namespace PrefixLogic.Command

/-- Writes a piece of output to its stream. -/
def emit (output : Output) : IO Unit := do
  (← IO.getStdout).putStr output.stdout
  (← IO.getStderr).putStr output.stderr

/-- Reads up to and including the next line feed. -/
partial def readBytes (stream : IO.FS.Stream) (line : ByteArray) : IO ByteArray := do
  let next ← stream.read 1
  if next.isEmpty then return line
  let line := line ++ next
  if next[0]! == 10 then return line
  readBytes stream line

/-- Holds a session, prompting for each line before it is read. -/
partial def converse (log : Log) (display : Display) (stream : IO.FS.Stream)
    (env : Environment) : IO UInt32 := do
  emit .prompt
  (← IO.getStdout).flush
  match inputLines (← readBytes stream .empty).toList with
  | [] => return 0
  | line :: _ =>
    match Session.next log display env line with
    | .ended outputs code =>
      outputs.forM emit
      return code.toUInt32
    | .answered outputs env =>
      outputs.forM emit
      converse log display stream env

/-- The bytes of a file, if there are any to be had. -/
def readFile? (path : String) : IO (Option (List UInt8)) := do
  try
    return some (← IO.FS.readBinFile path).toList
  catch _ => return none

/-- The log is kept at warnings, and no record matters that much. -/
def host : Host IO where
  readArguments := readArguments
  log := fun _ => none
  readFile := readFile?

end PrefixLogic.Command

open PrefixLogic.Command in
def main (arguments : List String) : IO UInt32 := do
  match ← start host arguments with
  | .done transcript =>
    transcript.outputs.forM emit
    return transcript.code.toUInt32
  | .session display => converse host.log display (← IO.getStdin) .empty
