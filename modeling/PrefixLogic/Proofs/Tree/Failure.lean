import PrefixLogic.Proofs.Tree.Refusal
import PrefixLogic.Proofs.Tree.Steps

namespace PrefixLogic.Scanner

variable (scanner : Scanner)

/-- The parentheses of what remains are counted as those of the tokens that are left. -/
theorem isBalanced_remaining_iff_pendingTokens :
    Text.isBalanced scanner.remaining = true ↔
      scanner.pendingTokens.count .opening = scanner.pendingTokens.count .closing := by
  obtain ⟨rest, hrun, hbuffer⟩ := scanner.exists_rest
  rw [hrun, hbuffer, Text.isBalanced_iff, count_opening_remaining, count_closing_remaining]

/-- A closing parenthesis comes first, although behind it there are as many parentheses to
    open as to close, so that the numbers of all that is left agree. -/
def ClosesFirst : Prop :=
  (∃ rest, scanner.pendingTokens = .closing :: rest) ∧
  scanner.pendingTokens.count .opening = scanner.pendingTokens.count .closing

variable {scanner}

/-- A closing parenthesis that comes first passes every check of what remains if only the
    numbers agree. -/
theorem ClosesFirst.presentable (hfirst : scanner.ClosesFirst) :
    Presentable scanner.remaining := by
  obtain ⟨⟨others, hclosing⟩, hcount⟩ := hfirst
  obtain ⟨rest, hrun, hbuffer⟩ := scanner.exists_rest
  rw [hrun] at hclosing hcount
  rw [count_opening_tokens, count_closing_tokens] at hcount
  rw [hbuffer]
  exact presentable_of_count_eq hcount (exists_isParenthesis_of_tokens hclosing rfl)

/-- What is refused for its shape or for its numbers of parentheses is refused before a token
    is taken. -/
theorem readExpression_of_not_presentable (hbuffer : ¬ Presentable scanner.remaining) :
    scanner.readExpression.2 = scanner := by
  by_cases hne : scanner.remaining = []
  · rw [readExpression, if_pos hne]
  cases hshaped : Text.isExpressionShaped scanner.remaining with
  | false => rw [readExpression_of_malformed hne (.inl hshaped)]
  | true =>
  cases hglyphs : Text.isGlyphRun scanner.remaining with
  | true => rw [readExpression_of_malformed hne (.inr hglyphs)]
  | false =>
  cases hbalanced : Text.isBalanced scanner.remaining with
  | false => rw [readExpression_of_unbalanced hne hshaped hglyphs hbalanced]
  | true => exact absurd ⟨hne, hshaped, hglyphs, hbalanced⟩ hbuffer

/-- Behind the checks nothing fails but a closing parenthesis that comes first. A group that
    comes first is closed, as the numbers agree, and everything in it is read. -/
theorem exists_readExpression_eq_ok (hbuffer : Presentable scanner.remaining)
    (hfirst : ¬ scanner.ClosesFirst) : ∃ tree, scanner.readExpression.1 = .ok tree := by
  have hcount := scanner.isBalanced_remaining_iff_pendingTokens.mp hbuffer.balanced
  cases hrun : scanner.pendingTokens with
  | nil =>
    have hnext := next?_eq_none_iff.mpr (List.map_eq_nil_iff.mp hrun)
    rw [readExpression_of_presentable hbuffer, hnext]
    exact ⟨_, rfl⟩
  | cons token others =>
    cases hitem : token.isItem with
    | true =>
      by_cases hpiece : others ≠ [] ∧ scanner.remaining.any Text.isSpace = false
      · obtain ⟨behind, hread, -⟩ :=
          readExpression_of_compound hbuffer hrun hitem hpiece.1 hpiece.2
        exact ⟨_, congrArg Prod.fst hread⟩
      · have hrest : others = [] ∨ scanner.remaining.any Text.isSpace = true := by
          by_cases h : others = []
          · exact .inl h
          · exact .inr (by simpa using fun hspace => hpiece ⟨h, hspace⟩)
        obtain ⟨behind, hread, -⟩ := readExpression_of_item hbuffer hrun hitem hrest
        exact ⟨_, congrArg Prod.fst hread⟩
    | false =>
      rcases Token.eq_of_isItem_eq_false hitem with rfl | rfl
      · rw [hrun] at hcount
        obtain ⟨inner, rest, rfl, hinner⟩ := exists_group_of_count hcount
        obtain ⟨items, hspells⟩ := exists_spells_of_nested inner hinner
        obtain ⟨behind, hread, -⟩ := readExpression_of_group hbuffer hrun hspells
        exact ⟨_, congrArg Prod.fst hread⟩
      · exact absurd ⟨⟨others, hrun⟩, hcount⟩ hfirst

/-- In whatever state a scanner is, an expression that cannot be read leaves it as it was.
    The one exception is a closing parenthesis that comes first although the numbers agree:
    it is refused like any that has no partner, but only after it has been taken. -/
theorem readExpression_error_keeps (scanner : Scanner) :
    (∀ error, scanner.readExpression.1 = .error error → ¬ scanner.ClosesFirst →
      scanner.readExpression.2 = scanner) ∧
    (scanner.ClosesFirst → ∃ closing after, closing.token = .closing ∧
      scanner.pending = closing :: after.pending ∧
      scanner.readExpression = (.error .unbalanced, after)) := by
  constructor
  · intro error herror hfirst
    refine readExpression_of_not_presentable fun hbuffer => ?_
    obtain ⟨tree, hread⟩ := exists_readExpression_eq_ok hbuffer hfirst
    rw [hread] at herror
    cases herror
  · intro hfirst
    obtain ⟨⟨others, hrun⟩, -⟩ := id hfirst
    obtain ⟨closing, after, hnext, hclosing, -⟩ := exists_next?_of_run hrun
    exact ⟨closing, after, hclosing, (next?_eq_some_iff.mp hnext).1,
      readExpression_of_closing hfirst.presentable hnext hclosing⟩

theorem closesFirst_closing_before_opening : (ofText [')', '(']).ClosesFirst := by
  have hrun : (ofText [')', '(']).pendingTokens = [.closing, .opening] := by decide +kernel
  rw [ClosesFirst, hrun]
  exact ⟨⟨_, rfl⟩, rfl⟩

/-- A parenthesis that closes before the other opens: what is refused is taken as well, and
    less remains than before. -/
theorem readExpression_takes_closing :
    (ofText [')', '(']).readExpression.1 = .error .unbalanced ∧
    (ofText [')', '(']).remaining = [')', '('] ∧
    (ofText [')', '(']).readExpression.2.remaining = ['('] := by
  have hpending : (ofText [')', '(']).pending = [⟨.closing, 0⟩, ⟨.opening, 1⟩] := by
    decide +kernel
  obtain ⟨after, hnext, hafter, hsource⟩ := exists_next?_of_pending hpending
  have hbuffer := closesFirst_closing_before_opening.presentable
  rw [readExpression_of_closing hbuffer hnext rfl]
  refine ⟨rfl, by decide +kernel, ?_⟩
  rw [remaining_of_pending [')'] hsource (hafter.trans (by decide +kernel))]
  decide

/-- Two words, which are refused and left, and the exception. -/
theorem readExpression_error_keeps_words :
    ¬ (ofText ['a', ' ', 'b']).ClosesFirst ∧
    (ofText ['a', ' ', 'b']).readExpression = (.error (.malformed "a b"), ofText ['a', ' ', 'b']) ∧
    ∃ closing after, closing.token = .closing ∧
      (ofText [')', '(']).pending = closing :: after.pending ∧
      (ofText [')', '(']).readExpression = (.error .unbalanced, after) := by
  have hfirst : ¬ (ofText ['a', ' ', 'b']).ClosesFirst := by
    have hrun : (ofText ['a', ' ', 'b']).pendingTokens = [.word ['a'], .word ['b']] := by
      decide +kernel
    rw [ClosesFirst, hrun]
    rintro ⟨⟨rest, hclosing⟩, -⟩
    cases hclosing
  have hremaining : (ofText ['a', ' ', 'b']).remaining = ['a', ' ', 'b'] := by decide +kernel
  have hread : (ofText ['a', ' ', 'b']).readExpression.1 = .error (.malformed "a b") := by
    rw [readExpression_of_malformed (by rw [hremaining]; simp) (by rw [hremaining]; decide),
      hremaining]
  obtain ⟨hkeeps, -⟩ := readExpression_error_keeps (ofText ['a', ' ', 'b'])
  obtain ⟨-, htakes⟩ := readExpression_error_keeps (ofText [')', '('])
  exact ⟨hfirst, Prod.ext hread (hkeeps _ hread hfirst),
    htakes closesFirst_closing_before_opening⟩

end PrefixLogic.Scanner
