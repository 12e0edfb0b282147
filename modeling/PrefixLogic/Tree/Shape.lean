import PrefixLogic.Text.Alphanumeric
import PrefixLogic.Text.Blank
import PrefixLogic.Token.Basic

namespace PrefixLogic.Text

/-- Whether there are as many opening parentheses as closing ones, in whatever
    order they stand. -/
def isBalanced (buffer : List Char) : Bool :=
  buffer.count '(' == buffer.count ')'

/-- Whether a buffer can be one expression: with a parenthesis in it, or all in
    one piece. -/
def isExpressionShaped (buffer : List Char) : Bool :=
  buffer.any Token.isParenthesis || !buffer.any isSpace

/-- Whether a buffer is longer than one character and has neither a letter nor a
    number nor a parenthesis. -/
def isGlyphRun (buffer : List Char) : Bool :=
  buffer.all (fun c => !isAlphanumeric c && !Token.isParenthesis c) && 1 < buffer.length

end PrefixLogic.Text
