import PrefixLogic.Error
import PrefixLogic.Token.Lexer

namespace PrefixLogic

/-- A source and those of its tokens that have not been taken yet, which are
    always the last ones. -/
structure Scanner where
  source : List Char
  pending : List Lexeme
  suffix : pending <:+ lex source

namespace Scanner

/-- The scanner that has taken nothing yet. -/
def ofText (source : List Char) : Scanner :=
  ⟨source, lex source, List.suffix_refl _⟩

/-- The same source with fewer tokens left. -/
def keep (scanner : Scanner) (pending : List Lexeme) (hsuffix : pending <:+ scanner.pending) :
    Scanner :=
  ⟨scanner.source, pending, hsuffix.trans scanner.suffix⟩

/-- The next token and the scanner behind it. -/
def next? (scanner : Scanner) : Option (Lexeme × Scanner) :=
  match hpending : scanner.pending with
  | [] => none
  | lexeme :: rest => some (lexeme, scanner.keep rest (hpending ▸ List.suffix_cons _ _))

/-- Takes all tokens at once. -/
def drain (scanner : Scanner) : Scanner :=
  scanner.keep [] (List.nil_suffix)

def hasMore (scanner : Scanner) : Bool :=
  !scanner.pending.isEmpty

/-- The source from the next token on, less the spaces at its end. There is none
    once all tokens are taken. -/
def remaining (scanner : Scanner) : List Char :=
  match scanner.pending with
  | [] => []
  | lexeme :: _ => Text.trimEnd (Text.dropBytes lexeme.start scanner.source)

/-- The first closing parenthesis that `depth` others do not come before, and
    the tokens behind it. -/
def findClosing? : Nat → List Lexeme → Option (Lexeme × List Lexeme)
  | _, [] => none
  | depth, lexeme :: rest =>
    match lexeme.token with
    | .opening => findClosing? (depth + 1) rest
    | .closing =>
      match depth with
      | 0 => some (lexeme, rest)
      | depth + 1 => findClosing? depth rest
    | _ => findClosing? depth rest

theorem suffix_of_findClosing? {depth : Nat} {lexemes rest : List Lexeme} {closing : Lexeme}
    (hfind : findClosing? depth lexemes = some (closing, rest)) : closing :: rest <:+ lexemes := by
  induction lexemes generalizing depth with
  | nil => cases hfind
  | cons lexeme tail ih =>
    rw [findClosing?.eq_def] at hfind
    dsimp only at hfind
    split at hfind
    · exact (ih hfind).trans (List.suffix_cons _ _)
    · split at hfind
      · cases hfind
        exact List.suffix_refl _
      · exact (ih hfind).trans (List.suffix_cons _ _)
    · exact (ih hfind).trans (List.suffix_cons _ _)

/-- Takes the tokens up to the parenthesis that closes the group which `opening`
    has opened, and answers the text between the two. Without such a parenthesis
    every token is taken. -/
def takeGroup (scanner : Scanner) (opening : Lexeme) : Except SyntaxError (List Char) × Scanner :=
  match hfind : findClosing? 0 scanner.pending with
  | none => (.error .unbalanced, scanner.drain)
  | some (closing, rest) =>
    (.ok (Text.byteSlice scanner.source opening.stop closing.start),
      scanner.keep rest ((List.suffix_cons _ _).trans (suffix_of_findClosing? hfind)))

@[simp] theorem source_keep (scanner : Scanner) (pending : List Lexeme)
    (hsuffix : pending <:+ scanner.pending) : (scanner.keep pending hsuffix).source = scanner.source :=
  rfl

@[simp] theorem pending_keep (scanner : Scanner) (pending : List Lexeme)
    (hsuffix : pending <:+ scanner.pending) : (scanner.keep pending hsuffix).pending = pending :=
  rfl

/-- A scanner is its source and its pending tokens. -/
theorem eq_of_source_pending {a b : Scanner} (hsource : a.source = b.source)
    (hpending : a.pending = b.pending) : a = b := by
  cases a
  cases b
  cases hsource
  cases hpending
  rfl

theorem next?_eq_none_iff {scanner : Scanner} : scanner.next? = none ↔ scanner.pending = [] := by
  rw [next?]
  split
  · simpa
  · rename_i hpending
    simp [hpending]

/-- Taking a token leaves the ones behind it. -/
theorem next?_eq_some_iff {scanner after : Scanner} {lexeme : Lexeme} :
    scanner.next? = some (lexeme, after) ↔
      scanner.pending = lexeme :: after.pending ∧ after.source = scanner.source := by
  constructor
  · intro hnext
    rw [next?] at hnext
    split at hnext
    · cases hnext
    · rename_i hpending
      cases hnext
      exact ⟨hpending, rfl⟩
  · rintro ⟨hpending, hsource⟩
    rw [next?]
    split
    · rename_i hnil
      rw [hnil] at hpending
      cases hpending
    · rename_i first rest hcons
      rw [hcons] at hpending
      obtain ⟨rfl, hrest⟩ := List.cons.inj hpending
      rw [Option.some.injEq, Prod.mk.injEq]
      exact ⟨rfl, eq_of_source_pending hsource.symm hrest⟩

theorem source_takeGroup (scanner : Scanner) (opening : Lexeme) :
    (scanner.takeGroup opening).2.source = scanner.source := by
  rw [takeGroup]
  split <;> rfl

theorem length_pending_takeGroup_le (scanner : Scanner) (opening : Lexeme) :
    (scanner.takeGroup opening).2.pending.length ≤ scanner.pending.length := by
  rw [takeGroup]
  split
  · exact Nat.zero_le _
  · rename_i hfind
    exact Nat.le_of_succ_le (suffix_of_findClosing? hfind).length_le

/-- A source that still has a token is not empty. -/
theorem source_ne_nil {scanner : Scanner} (hpending : scanner.pending ≠ []) :
    scanner.source ≠ [] := by
  intro hsource
  have hsuffix := scanner.suffix
  rw [hsource, lex, lexFrom_nil, List.suffix_nil] at hsuffix
  exact hpending hsuffix

/-- The text of a group is shorter than the source it is cut from. -/
theorem length_group_lt {scanner after : Scanner} {opening : Lexeme} {group : List Char}
    (hsource : scanner.source ≠ []) (hstop : 0 < opening.stop)
    (htake : scanner.takeGroup opening = (.ok group, after)) :
    group.length < scanner.source.length := by
  rw [takeGroup] at htake
  split at htake
  · cases htake
  · obtain ⟨hgroup, -⟩ := Prod.mk.inj htake
    cases hgroup
    exact Text.length_byteSlice_lt _ hsource hstop

end Scanner

end PrefixLogic
