import PrefixLogic.Command

namespace PrefixLogic.Command

/-- Why arguments do not start a run. -/
inductive Stop where
  | usage
  | version
  | help

def Flag.all : List Flag :=
  [.file, .showTree, .showFormula]

def Flag.ofSpelling? (spelling : String) : Option Flag :=
  Flag.all.find? fun flag => spelling ∈ flag.spellings

namespace Arguments

/-- A flag may be given once, and two flags start no run. -/
def addFlag (said : Arguments) (spelling : String) : Except Stop Arguments :=
  if spelling ∈ ["-V", "--version"] then .error .version
  else if spelling ∈ ["-h", "--help"] then .error .help
  else
    match Flag.ofSpelling? spelling with
    | none => .error .usage
    | some flag => if flag.isSet said then .error .usage else .ok (flag.set said)

/-- The flags behind one dash, a letter each, from left to right. -/
def addLetters (said : Arguments) : List Char → Except Stop Arguments
  | [] => .ok said
  | letter :: rest =>
    match said.addFlag (String.ofList ['-', letter]) with
    | .error stop => .error stop
    | .ok said => said.addLetters rest

/-- Takes an argument that is no flag, of which there may be one. -/
def addContents (said : Arguments) (argument : String) : Except Stop Arguments :=
  match said.contents with
  | none => .ok { said with contents := some argument }
  | some _ => .error .usage

/-- Arguments behind the mark that ends the flags. -/
def addPlain (said : Arguments) : List String → Except Stop Arguments
  | [] => .ok said
  | argument :: rest =>
    match said.addContents argument with
    | .error stop => .error stop
    | .ok said => said.addPlain rest

/-- One argument in front of that mark. A dash alone and the empty argument are no
    flags. -/
def addArgument (said : Arguments) (argument : String) : Except Stop Arguments :=
  match argument.toList with
  | '-' :: '-' :: _ => said.addFlag argument
  | '-' :: letter :: letters => said.addLetters (letter :: letters)
  | _ => said.addContents argument

/-- Arguments from left to right; the first that stops the reading decides. -/
def add (said : Arguments) : List String → Except Stop Arguments
  | [] => .ok said
  | argument :: rest =>
    if argument = "--" then said.addPlain rest
    else
      match said.addArgument argument with
      | .error stop => .error stop
      | .ok said => said.add rest

end Arguments

def usageText : String := "Usage: proplisp [OPTIONS] [CONTENTS]"

def helpText : String :=
  "A lisp-flavored propositional logic interpreter\n\n" ++
  usageText ++ "\n\n" ++
  "Arguments:\n" ++
  "  [CONTENTS]  Script to run. Starts an interactive session when omitted\n\n" ++
  "Options:\n" ++
  "  -f, --file        Tells proplisp to read CONTENTS as a file path instead of a script\n" ++
  "      --show-sexpr  Prints the symbolic expression read from each line\n" ++
  "      --show-ast    Prints the logic expression built from each line\n" ++
  "  -h, --help        Print help\n" ++
  "  -V, --version     Print version"

/-- What is written where no run starts. -/
def Stop.transcript : Stop → Transcript
  | .usage => ⟨[.complaint usageText], 2⟩
  | .version => ⟨[.report "proplisp 0.1.0"], 0⟩
  | .help => ⟨[.report helpText], 0⟩

/-- How the executable reads its arguments. -/
def readArguments (arguments : List String) : Except Transcript Arguments :=
  (Arguments.default.add arguments).mapError Stop.transcript

end PrefixLogic.Command
