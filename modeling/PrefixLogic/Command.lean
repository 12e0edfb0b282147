import PrefixLogic.Script
import PrefixLogic.Session

namespace PrefixLogic.Command

/-- What the arguments of the program say. -/
structure Arguments where
  fromFile : Bool
  display : Display
  contents : Option String

/-- What is said without any arguments. -/
def Arguments.default : Arguments :=
  ⟨false, ⟨false, false⟩, none⟩

/-- The arguments that are said by being there. -/
inductive Flag where
  | file
  | showTree
  | showFormula

namespace Flag

/-- The ways to write a flag. -/
def spellings : Flag → List String
  | .file => ["-f", "--file"]
  | .showTree => ["--show-sexpr"]
  | .showFormula => ["--show-ast"]

def isSet (said : Arguments) : Flag → Bool
  | .file => said.fromFile
  | .showTree => said.display.tree
  | .showFormula => said.display.formula

def set (said : Arguments) : Flag → Arguments
  | .file => { said with fromFile := true }
  | .showTree => { said with display.tree := true }
  | .showFormula => { said with display.formula := true }

end Flag

/-- What the program finds around it. Arguments are read as what they say, or as all that
    is written where they start no run. The log is kept at warnings unless more is asked
    for. A file may be found, with its bytes, by an effect. -/
structure Host (m : Type → Type) where
  readArguments : List String → Except Transcript Arguments
  log : Log
  readFile : String → m (Option (List UInt8))

/-- Interprets the lines of a script one after the other and reports on each. The
    first that fails ends the run with a complaint. -/
def runLines (log : Log) (display : Display) (lines : List (List Char)) (env : Environment) :
    Transcript :=
  match lines with
  | [] => ⟨[], 0⟩
  | line :: rest =>
    let logged := log.outputs (lineRecords line env)
    match interpretLine line env with
    | (.error error, _) => ⟨logged ++ [error.complaint], 1⟩
    | (.ok interpretation, env) =>
      let later := runLines log display rest env
      ⟨logged ++ (interpretation.reports display ++ later.outputs), later.code⟩

def runScript (log : Log) (display : Display) (source : List Char) : Transcript :=
  runLines log display (Script.codeLines source) .empty

/-- The transcript for a file that cannot be read as text. -/
def unreadable (path : String) : Transcript :=
  ⟨[.complaint ("Failed to read the input file '" ++ path ++ "'. Perhaps this file does not exist?")], 1⟩

/-- The text that bytes encode in UTF-8, if they do. -/
def decode? (bytes : List UInt8) : Option (List Char) :=
  (String.fromUTF8? ⟨bytes.toArray⟩).map String.toList

/-- The lines of a standard input, each decoded by itself. -/
def inputLines (input : List UInt8) : List (Option (List Char)) :=
  (Text.splitLines 10 13 input).map decode?

/-- The script in a file, given the bytes of the file if it can be read. -/
def runFile (log : Log) (display : Display) (path : String) (bytes : Option (List UInt8)) :
    Transcript :=
  match bytes.bind decode? with
  | none => unreadable path
  | some source => runScript log display source

/-- How the program starts: it is done with all that it writes, or a session is to be
    held. -/
inductive Start where
  | done (transcript : Transcript)
  | session (display : Display)

/-- Contents are a script, or the path of one; without contents a session is held,
    whatever the flags say of files. -/
def start {m : Type → Type} [Monad m] (host : Host m) (arguments : List String) : m Start :=
  match host.readArguments arguments with
  | .error transcript => pure (.done transcript)
  | .ok said =>
    match said.contents with
    | none => pure (.session said.display)
    | some contents =>
      if said.fromFile then do
        let bytes ← host.readFile contents
        return .done (runFile host.log said.display contents bytes)
      else pure (.done (runScript host.log said.display contents.toList))

/-- The whole program, given its arguments, the bytes of its standard input and what is
    known of the files. -/
def run (host : Host Id) (arguments : List String) (input : List UInt8) : Transcript :=
  match start host arguments with
  | .done transcript => transcript
  | .session display => (Session.run host.log display (inputLines input) .empty).transcript

end PrefixLogic.Command
