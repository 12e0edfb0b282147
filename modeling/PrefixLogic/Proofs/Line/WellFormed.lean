import PrefixLogic.Proofs.Line.Interpretation
import PrefixLogic.Proofs.Token.Longest
import PrefixLogic.Proofs.Tree.Refusal
import PrefixLogic.Proofs.Tree.WellFormed

namespace PrefixLogic

open Scanner

/-- Lexing finds a place for every character, so no text is refused for one. -/
theorem Refused.ne_unrecognised {source : List Char} {error : SyntaxError}
    (hrefused : Refused source error) (text : String) : error ≠ .unrecognised text := by
  cases hrefused <;> exact SyntaxError.noConfusion

/-- A line fails to be read or to spell a formula for other reasons than these two:
    none of its characters is unknown, and no chain in its tree ends in an atom. -/
theorem ne_of_interpretLine {line : List Char} {env : Environment} {error : SyntaxError}
    (hinterpret : (interpretLine line env).1 = .error (.reading error)) :
    (∀ kind, error ≠ .notAList kind) ∧ ∀ text, error ≠ .unrecognised text := by
  rcases unread_or_unbuilt_of_interpretLine hinterpret with hread | ⟨tree, hread, hbuild⟩
  · have hreading := Tree.ofText_error hread
    refine ⟨?_, (refused_of_readOne hread).ne_unrecognised⟩
    rintro kind rfl
    cases hreading
  · have hbuilding := Formula.ofTree_error tree hbuild
    refine ⟨?_, ?_⟩
    · rintro kind rfl
      exact Formula.ofTree_ne_notAList (wellFormed_of_readOne hread).1.proper kind hbuild
    · rintro text rfl
      cases hbuilding

/-- Wherever a scanner stands in its source, and whichever way it is read from there,
    the tree is well-formed: lists end in the empty list at every depth, and the
    symbols in them are names. One expression is never an atom alone in a list.
    Lexing leaves out blanks and nothing else, and the rule of the longest match, which is
    stuck where no token of any class starts, is never stuck. So the errors that need
    another tree, or a character that belongs to no token, never come from a line. -/
theorem read_trees_wellFormed (scanner : Scanner) :
    (∀ tree, scanner.readExpression.1 = .ok tree → tree.WellFormed) ∧
    (∀ tree, scanner.readOne.1 = .ok tree →
      tree.WellFormed ∧ ∀ value, tree ≠ .ofList [.atom value]) ∧
    (∀ tree, scanner.readList.1 = .ok tree → tree.WellFormed) ∧
    (∀ tree, scanner.readAll.1 = .ok tree → tree.WellFormed) ∧
    (tokens scanner.source).flatMap Token.chars =
      scanner.source.filter (fun c => !Text.isBlank c) ∧
    (∀ result, Munches 0 scanner.source result ↔ result = .ok (lex scanner.source)) ∧
    ∀ line env error, (interpretLine line env).1 = .error (.reading error) →
      (∀ kind, error ≠ .notAList kind) ∧ ∀ text, error ≠ .unrecognised text :=
  ⟨fun _ hread => (wellFormed_of_readExpression hread).1,
    fun _ hread => wellFormed_of_readOne hread,
    fun _ hread => wellFormed_of_readList hread,
    fun _ hread => wellFormed_of_readList (eq_ok_of_rejectTrailing hread),
    flatMap_chars_tokens scanner.source,
    fun _ => munches_iff,
    fun _ _ _ hinterpret => ne_of_interpretLine hinterpret⟩

/-- A scanner behind the first item of its source, read as one expression and as a
    list, and a line that is refused. -/
theorem read_trees_wellFormed_behind_item :
    ∃ (scanner : Scanner) (group : Tree), scanner.source = "a (b c)".toList ∧
      scanner.readExpression.1 = .ok group ∧ scanner.readOne.1 = .ok group ∧
      scanner.readList.1 = .ok (.ofList [group]) ∧ scanner.readAll.1 = .ok (.ofList [group]) ∧
      group.WellFormed ∧ (∀ value, group ≠ .ofList [.atom value]) ∧
      (Tree.ofList [group]).WellFormed ∧
      (interpretLine [')'] .empty).1 = .error (.reading .unbalanced) ∧
      ∀ kind, SyntaxError.unbalanced ≠ .notAList kind := by
  let scanner : Scanner := ⟨"a (b c)".toList, (lex "a (b c)".toList).drop 1, List.drop_suffix 1 _⟩
  have hrun : scanner.pendingTokens =
      .opening :: ([.word ['b'], .word ['c']] ++ .closing :: []) := by
    decide +kernel
  let items : List Tree := [.atom (.ofToken (.word ['b'])), .atom (.ofToken (.word ['c']))]
  have hinner : Spells [.word ['b'], .word ['c']] items := .atom rfl (.atom rfl .nil)
  have hbuffer : Presentable scanner.remaining := by
    constructor <;> decide +kernel
  have hone := readOne_of_group hbuffer hrun hinner
  have hitems := readItems_of_spells (.group hinner .nil) scanner hrun
  have hlist : scanner.readList.1 = .ok (.ofList [.ofList items]) := by
    rw [readList, hitems]
    rfl
  have hall : scanner.readAll.1 = .ok (.ofList [.ofList items]) := by
    rw [readAll, readList, hitems]
    rfl
  have hclosing : (interpretLine [')'] .empty).1 = .error (.reading .unbalanced) := by
    have hread : Tree.ofText [')'] = .error .unbalanced :=
      (Refused.unbalanced (.inl (by decide))).readOne_eq
    rw [interpretLine, hread]
  obtain ⟨hexpression, hwhole, -, hitems, -, -, hline⟩ := read_trees_wellFormed scanner
  have hread := eq_ok_of_rejectTrailing hone
  exact ⟨scanner, .ofList items, rfl, hread, hone, hlist, hall, hexpression _ hread,
    (hwhole _ hone).2, hitems _ hall, hclosing, (hline _ _ _ hclosing).1⟩

end PrefixLogic
