import PrefixLogic.Proofs.Tree.Form

namespace PrefixLogic

open Scanner

/-- The parentheses of a text are nested in the way those among its tokens are. No
    other token holds one, so the two runs open and close in step. -/
theorem closes_tokens_iff (depth : Nat) (text : List Char) :
    Closes .opening .closing depth (tokens text) ↔ Closes '(' ')' depth text := by
  induction text using lex_induction generalizing depth with
  | nil => rw [tokens_nil, closes_nil_iff, closes_nil_iff]
  | blank c rest hblank ih =>
    have hopening : c ≠ '(' := by rintro rfl; cases hblank
    have hclosing : c ≠ ')' := by rintro rfl; cases hblank
    rw [tokens_blank hblank, closes_other_iff hopening hclosing, ih]
  | token c rest tail hblank hsplit ih =>
    rw [tokens_of_split hblank hsplit, ← hsplit]
    cases hitem : (Token.scan c rest).isItem with
    | true =>
      have hchars : ∀ d ∈ (Token.scan c rest).chars, d ≠ '(' ∧ d ≠ ')' := by
        intro d hd
        have hseparator := (Token.lexed_scan hblank rest).isSeparator_eq_false hitem hd
        constructor <;> rintro rfl <;> cases hseparator
      rw [closes_other_iff (Token.ne_opening_of_isItem hitem) (Token.ne_closing_of_isItem hitem),
        closes_append_iff_of_forall hchars, ih]
    | false =>
      rcases Token.eq_of_isItem_eq_false hitem with h | h <;>
        rw [h, Token.chars, List.singleton_append]
      · rw [closes_opening_iff Token.opening_ne_closing, closes_opening_iff (by decide), ih]
      · cases depth with
        | zero =>
          exact iff_of_false (not_closes_closing Token.opening_ne_closing)
            (not_closes_closing (by decide))
        | succ depth =>
          rw [closes_closing_iff Token.opening_ne_closing, closes_closing_iff (by decide), ih]

theorem nested_tokens_iff (text : List Char) :
    Nested .opening .closing (tokens text) ↔ Nested '(' ')' text := by
  rw [← closes_zero_iff_nested, ← closes_zero_iff_nested, closes_tokens_iff]

/-- A text all in one piece that does not start with a parenthesis, and holds as
    many of one kind as of the other, but not in pairs. -/
structure Unpaired (source : List Char) : Prop where
  starts : ∃ first rest, tokens source = first :: rest ∧ first ≠ .opening ∧ first ≠ .closing
  one_piece : ∀ c ∈ (ofText source).remaining, Text.isSpace c = false
  total : source.count '(' = source.count ')'
  not_nested : ¬ Nested '(' ')' source

namespace Unpaired

variable {source : List Char} (hunpaired : Unpaired source)
include hunpaired

theorem exists_isParenthesis :
    ∃ c ∈ (ofText source).remaining, Token.isParenthesis c = true := by
  apply Text.exists_isParenthesis_of_mem
  apply Classical.byContradiction
  intro hnone
  obtain ⟨hopening, hclosing⟩ := not_or.mp hnone
  rw [← List.count_eq_zero, count_remaining_ofText source (by decide), List.count_eq_zero]
    at hopening hclosing
  refine hunpaired.not_nested (nested_of_forall fun c hc => ?_)
  constructor <;> rintro rfl
  · exact hopening hc
  · exact hclosing hc

/-- Of one piece only the numbers of its parentheses are looked at, so it is read
    as one symbol whatever their order is. -/
theorem reads :
    Form.compound.Reads source (.atom (.symbol (String.ofList (ofText source).remaining))) := by
  refine ⟨hunpaired.starts, hunpaired.exists_isParenthesis, ?_, hunpaired.one_piece, rfl⟩
  rw [count_remaining_ofText source (by decide), count_remaining_ofText source (by decide)]
  exact hunpaired.total

end Unpaired

/-- A text of any other form than a compound is properly nested. -/
theorem Form.Reads.nested {source : List Char} {tree : Tree} {form : Form}
    (hreads : form.Reads source tree) (hform : form ≠ .compound) : Nested '(' ')' source := by
  rw [← nested_tokens_iff]
  cases form with
  | nothing =>
    rw [hreads.1]
    exact Spells.nil.nested
  | piece =>
    have hitems := (forall_isParenthesis_remaining_iff source).mp hreads.2.1
    exact nested_of_forall fun token htoken =>
      ⟨Token.ne_opening_of_isItem (hitems token htoken),
        Token.ne_closing_of_isItem (hitems token htoken)⟩
  | group =>
    obtain ⟨inner, items, hrun, hinner, -⟩ := hreads
    rw [hrun]
    exact (nested_group_iff Token.opening_ne_closing hinner).mpr Spells.nil.nested
  | compound => exact absurd rfl hform

/-- What is read as one expression has as many opening parentheses as closing
    ones. They are properly nested as well, except in an unpaired piece; and every
    unpaired piece is read, as one symbol. -/
theorem nested_iff_not_unpaired_of_readOne (source : List Char) :
    (∀ tree, (ofText source).readOne.1 = .ok tree →
      source.count '(' = source.count ')' ∧ (Nested '(' ')' source ↔ ¬ Unpaired source)) ∧
    (Unpaired source → (ofText source).readOne.1 =
      .ok (.atom (.symbol (String.ofList (ofText source).remaining)))) := by
  refine ⟨fun tree hread => ?_, fun hunpaired => hunpaired.reads.readOne_eq⟩
  obtain ⟨form, hreads⟩ := Form.exists_reads_of_readOne hread
  by_cases hform : form = .compound
  · subst hform
    obtain ⟨hstarts, -, hcount, hpiece, -⟩ := hreads
    rw [count_remaining_ofText source (by decide), count_remaining_ofText source (by decide)]
      at hcount
    refine ⟨hcount, fun hnested hunpaired => hunpaired.not_nested hnested, fun hpaired => ?_⟩
    apply Classical.byContradiction
    intro hnested
    exact hpaired ⟨hstarts, hpiece, hcount, hnested⟩
  · have hnested := hreads.nested hform
    exact ⟨hnested.total, iff_of_true hnested fun hunpaired => hunpaired.not_nested hnested⟩

theorem unpaired_closing_before_opening : Unpaired ['x', ')', '('] where
  starts := ⟨.word ['x'], [.closing, .opening], by decide +kernel, Token.noConfusion,
    Token.noConfusion⟩
  one_piece := by
    have hpiece : (ofText ['x', ')', '(']).remaining.all (fun c => !Text.isSpace c) = true := by
      decide +kernel
    simpa using hpiece
  total := rfl
  not_nested := by
    intro hnested
    have hclosing := hnested.closing_le ['x', ')'] ⟨['('], rfl⟩
    revert hclosing
    decide

/-- A piece that closes a parenthesis before it opens one is read all the same. -/
theorem readOne_closing_before_opening :
    (ofText ['x', ')', '(']).readOne.1 = .ok (.atom (.symbol "x)(")) ∧
    ¬ Nested '(' ')' ['x', ')', '('] := by
  have hremaining : (ofText ['x', ')', '(']).remaining = ['x', ')', '('] := by
    decide +kernel
  have hread := unpaired_closing_before_opening.reads.readOne_eq
  rw [hremaining] at hread
  exact ⟨hread, unpaired_closing_before_opening.not_nested⟩

/-- The general law about that piece: the numbers agree and the order does not. -/
theorem readOne_unpaired_piece :
    Unpaired ['x', ')', '('] ∧
    (ofText ['x', ')', '(']).readOne.1 =
      .ok (.atom (.symbol (String.ofList (ofText ['x', ')', '(']).remaining))) ∧
    ['x', ')', '('].count '(' = ['x', ')', '('].count ')' ∧
    ¬ Nested '(' ')' ['x', ')', '('] := by
  obtain ⟨haccepted, hread⟩ := nested_iff_not_unpaired_of_readOne ['x', ')', '(']
  obtain ⟨htotal, hnested⟩ := haccepted _ (hread unpaired_closing_before_opening)
  exact ⟨unpaired_closing_before_opening, hread unpaired_closing_before_opening, htotal,
    fun h => hnested.mp h unpaired_closing_before_opening⟩

end PrefixLogic
