import PrefixLogic.Numeral
import PrefixLogic.Text.Blank
import PrefixLogic.Text.Bytes

namespace PrefixLogic

/-- What a text is made of. Words, operators and parentheses know their
    characters, and a number knows how it was written. -/
inductive Token where
  | number (numeral : Numeral)
  | word (chars : List Char)
  | operator (chars : List Char)
  | opening
  | closing
deriving DecidableEq

namespace Token

/-- The characters of words: ASCII letters, digits and the underscore. -/
def isWordChar (c : Char) : Bool :=
  c.isAlphanum || c == '_'

def isParenthesis (c : Char) : Bool :=
  c == '(' || c == ')'

/-- The characters of operators: all that no other token and no blank claims,
    everything above ASCII included. -/
def isOperatorChar (c : Char) : Bool :=
  !Text.isBlank c && !isParenthesis c && !isWordChar c

/-- The characters that a token was read from. -/
def chars : Token → List Char
  | .number numeral => numeral.text
  | .word chars => chars
  | .operator chars => chars
  | .opening => ['(']
  | .closing => [')']

def text (token : Token) : String :=
  String.ofList token.chars

/-- The token that a text beginning with `c` begins with, provided that `c` is
    no blank. A digit starts a number, never a word. -/
def scan (c : Char) (rest : List Char) : Token :=
  if c = '(' then .opening
  else if c = ')' then .closing
  else
    match Numeral.scan? (c :: rest) with
    | some (numeral, _) => .number numeral
    | none =>
      if isWordChar c then .word (c :: rest.takeWhile isWordChar)
      else .operator (c :: rest.takeWhile isOperatorChar)

/-- A scanned token is the beginning of the text. -/
theorem chars_scan_append_drop (c : Char) (rest : List Char) :
    (scan c rest).chars ++ (c :: rest).drop (scan c rest).chars.length = c :: rest := by
  suffices hstart : ∃ tail, (scan c rest).chars ++ tail = c :: rest by
    obtain ⟨tail, htail⟩ := hstart
    rw [← htail, List.drop_left]
  rw [scan]
  split
  · rename_i hc
    exact ⟨rest, by rw [hc]; rfl⟩
  split
  · rename_i hc
    exact ⟨rest, by rw [hc]; rfl⟩
  split
  · rename_i hscan
    exact ⟨_, Numeral.text_append_of_scan? hscan⟩
  split
  · exact ⟨rest.dropWhile isWordChar, by
      rw [chars, List.cons_append, List.takeWhile_append_dropWhile]⟩
  · exact ⟨rest.dropWhile isOperatorChar, by
      rw [chars, List.cons_append, List.takeWhile_append_dropWhile]⟩

theorem chars_scan_ne_nil (c : Char) (rest : List Char) : (scan c rest).chars ≠ [] := by
  rw [scan]
  split
  · simp [chars]
  split
  · simp [chars]
  split
  · exact Numeral.text_ne_nil _
  split <;> simp [chars]

end Token

/-- A token and where it starts, counted in the bytes of its source. -/
structure Lexeme where
  token : Token
  start : Nat
deriving DecidableEq

/-- The byte offset right behind a token. -/
def Lexeme.stop (lexeme : Lexeme) : Nat :=
  lexeme.start + Text.byteLength lexeme.token.chars

end PrefixLogic
