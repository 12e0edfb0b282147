namespace PrefixLogic.Text

/-- The lines of a sequence whose line ends are `feed`. One `ret` right before
    a line end belongs to the end and not to the line; anywhere else it is kept.
    A line end at the very end opens no further line. The elements may be
    characters or bytes. -/
def splitLines {α : Type} [DecidableEq α] (feed ret : α) : List α → List (List α)
  | [] => []
  | x :: rest =>
    if x = feed then [] :: splitLines feed ret rest
    else if x = ret ∧ rest.head? = some feed then splitLines feed ret rest
    else
      match splitLines feed ret rest with
      | [] => [[x]]
      | line :: others => (x :: line) :: others

/-- The lines of a text. -/
def lines (text : List Char) : List (List Char) :=
  splitLines '\n' '\r' text

end PrefixLogic.Text
