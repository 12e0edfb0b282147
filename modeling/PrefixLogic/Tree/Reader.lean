import PrefixLogic.Token.Scanner
import PrefixLogic.Tree.Basic
import PrefixLogic.Tree.Shape

namespace PrefixLogic

/-- What reading from a scanner leads to: a result or an error, and in both
    cases the scanner as the reading has left it. -/
abbrev Reading (α : Type) := Except SyntaxError α × Scanner

namespace Scanner

set_option linter.unusedVariables false in
/-- Reads every token that is left as items of one list. The text of a group is
    split into tokens anew and read in the same way, as a list inside the list. -/
def readItems (scanner : Scanner) : Reading (List Tree) :=
  match hnext : scanner.next? with
  | none => (.ok [], scanner)
  | some (lexeme, after) =>
    match htoken : lexeme.token with
    | .opening =>
      match hgroup : after.takeGroup lexeme with
      | (.error error, behind) => (.error error, behind)
      | (.ok group, behind) =>
        match (readItems (ofText group)).1 with
        | .error error => (.error error, behind)
        | .ok inner =>
          let (others, last) := readItems behind
          (others.map (Tree.ofList inner :: ·), last)
    | .closing => (.error .unbalanced, after)
    | token =>
      let (others, last) := readItems after
      (others.map (.atom (.ofToken token) :: ·), last)
termination_by (scanner.source.length, scanner.pending.length)
decreasing_by
  · obtain ⟨hpending, hsource⟩ := next?_eq_some_iff.mp hnext
    have hne : scanner.source ≠ [] := source_ne_nil (by simp [hpending])
    have hstop : 0 < lexeme.stop := by
      rw [Lexeme.stop, htoken]
      exact Nat.add_pos_right _ (by decide)
    have hlength := length_group_lt (hsource ▸ hne) hstop hgroup
    rw [hsource] at hlength
    exact Prod.Lex.left _ _ hlength
  · obtain ⟨hpending, hsource⟩ := next?_eq_some_iff.mp hnext
    have hsame := source_takeGroup after lexeme
    have hle := length_pending_takeGroup_le after lexeme
    rw [hgroup] at hsame hle
    rw [show behind.source = scanner.source from hsame.trans hsource, hpending]
    exact Prod.Lex.right _ (Nat.lt_succ_of_le hle)
  · obtain ⟨hpending, hsource⟩ := next?_eq_some_iff.mp hnext
    rw [hsource, hpending]
    exact Prod.Lex.right _ (Nat.lt_succ_self _)

/-- The reading of items as an equation, for proofs that do not follow its
    recursion. -/
theorem readItems_eq (scanner : Scanner) :
    scanner.readItems =
      match scanner.next? with
      | none => (.ok [], scanner)
      | some (lexeme, after) =>
        match lexeme.token with
        | .opening =>
          match after.takeGroup lexeme with
          | (.error error, behind) => (.error error, behind)
          | (.ok group, behind) =>
            match (ofText group).readItems.1 with
            | .error error => (.error error, behind)
            | .ok inner =>
              (behind.readItems.1.map (Tree.ofList inner :: ·), behind.readItems.2)
        | .closing => (.error .unbalanced, after)
        | token => (after.readItems.1.map (.atom (.ofToken token) :: ·), after.readItems.2) := by
  rw [readItems]
  split
  · rename_i hnext
    rw [hnext]
  · rename_i lexeme after hnext
    rw [hnext]
    dsimp only
    split
    · rename_i htoken
      rw [htoken]
      dsimp only
      split
      · rename_i hgroup
        rw [hgroup]
      · rename_i hgroup
        rw [hgroup]
    · rename_i htoken
      rw [htoken]
    · rename_i hopening hclosing
      split
      · rename_i htoken
        exact absurd htoken hopening
      · rename_i htoken
        exact absurd htoken hclosing
      · rfl

/-- Reads every token that is left as one list. -/
def readList (scanner : Scanner) : Reading Tree :=
  let (items, last) := scanner.readItems
  (items.map Tree.ofList, last)

/-- The tree of the text between two parentheses. An atom alone in its
    parentheses stands for itself; a list keeps them. -/
def readGroup (group : List Char) : Except SyntaxError Tree :=
  (ofText group).readItems.1.map fun items =>
    match items with
    | [.atom value] => .atom value
    | items => Tree.ofList items

/-- Reads the expression that comes next. Whatever is left is judged as a whole
    first, so that a text of the wrong shape is refused before a token is taken.
    Several tokens in one piece make one symbol. -/
def readExpression (scanner : Scanner) : Reading Tree :=
  let buffer := scanner.remaining
  if buffer = [] then (.ok .empty, scanner)
  else if !Text.isExpressionShaped buffer || Text.isGlyphRun buffer then
    (.error (.malformed (String.ofList buffer)), scanner)
  else if !Text.isBalanced buffer then (.error .unbalanced, scanner)
  else
    match scanner.next? with
    | none => (.ok .empty, scanner)
    | some (lexeme, after) =>
      match lexeme.token with
      | .opening =>
        match after.takeGroup lexeme with
        | (.error error, behind) => (.error error, behind)
        | (.ok group, behind) => (readGroup group, behind)
      | .closing => (.error .unbalanced, after)
      | token =>
        if after.hasMore && !buffer.any Text.isSpace then
          (.ok (.atom (.symbol (String.ofList buffer))), after.drain)
        else (.ok (.atom (.ofToken token)), after)

/-- Refuses a result that leaves tokens behind, and takes the first of them. -/
def rejectTrailing {α : Type} : Reading α → Reading α
  | (.error error, scanner) => (.error error, scanner)
  | (.ok value, scanner) =>
    match scanner.next? with
    | none => (.ok value, scanner)
    | some (lexeme, after) => (.error (.unexpectedToken lexeme.token.text), after)

/-- Reads one expression that takes up everything that is left. -/
def readOne (scanner : Scanner) : Reading Tree :=
  rejectTrailing scanner.readExpression

/-- Reads everything that is left as the items of one list. -/
def readAll (scanner : Scanner) : Reading Tree :=
  rejectTrailing scanner.readList

end Scanner

/-- The tree of a whole text. -/
def Tree.ofText (text : List Char) : Except SyntaxError Tree :=
  (Scanner.ofText text).readOne.1

end PrefixLogic
