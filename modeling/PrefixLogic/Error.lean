namespace PrefixLogic

/-- Why a text is not a formula. Payloads are texts as they are shown, because
    nothing but the message looks at them. -/
inductive SyntaxError where
  /-- Parentheses do not pair up. -/
  | unbalanced
  /-- A buffer does not have the shape of one expression. -/
  | malformed (buffer : String)
  /-- A token stands behind a complete expression. -/
  | unexpectedToken (token : String)
  /-- A character belongs to no token. The lexer finds a place for every
      character, so reading never ends this way. -/
  | unrecognised (text : String)
  /-- A chain of pairs, or an atom, stands where a list is needed. -/
  | notAList (kind : String)
  /-- A part of an operator's name is not a symbol. -/
  | invalidComponent (component : String)
  /-- An operator of that name does not take that many terms, or there is none. -/
  | wrongTermCount (operator : String) (terms : Nat)
  /-- There are more terms than any operator takes. -/
  | unknownOperator (operator : String)
  /-- What is to be bound is not a symbol. -/
  | notASymbol (operator found : String)
deriving DecidableEq

/-- Why a formula has no value. -/
inductive EvaluationError where
  | undefined (name : String)
  | null
deriving DecidableEq

/-- Why a line has no value. -/
inductive LineError where
  | reading (error : SyntaxError)
  | evaluating (error : EvaluationError)
deriving DecidableEq

def SyntaxError.message : SyntaxError → String
  | .unbalanced => "Syntax error: Unbalanced parentheses."
  | .malformed buffer => "Syntax error: Invalid s-expression syntax: \"" ++ buffer ++ "\"."
  | .unexpectedToken token => "Syntax error: Unexpected token: \"" ++ token ++ "\"."
  | .unrecognised text => "Syntax error: Unrecognised input: \"" ++ text ++ "\"."
  | .notAList kind => "Syntax error: " ++ kind ++ " cannot be converted to list form."
  | .invalidComponent component => "Syntax error: Invalid operator component: " ++ component ++ "."
  | .wrongTermCount operator terms =>
    "Syntax error: Incorrect number of terms (" ++ terms.repr ++ ") provided for operation " ++
      operator ++ "."
  | .unknownOperator operator => "Syntax error: Unknown operator provided: " ++ operator ++ "."
  | .notASymbol operator found =>
    "Syntax error: Expected a symbol to bind in " ++ operator ++ ", found " ++ found ++ "."

def EvaluationError.message : EvaluationError → String
  | .undefined name => "Evaluation error: undefined symbol: " ++ name
  | .null => "Evaluation error: attempted null evaluation"

def LineError.message : LineError → String
  | .reading error => error.message
  | .evaluating error => error.message

end PrefixLogic
