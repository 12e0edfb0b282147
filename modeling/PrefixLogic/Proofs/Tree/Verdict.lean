import PrefixLogic.Proofs.Tree.Expression

namespace PrefixLogic

open Scanner

/-- A text has no parenthesis where it has none of either kind. -/
theorem Token.forall_isParenthesis_iff {text : List Char} :
    (∀ c ∈ text, isParenthesis c = false) ↔ text.count '(' = 0 ∧ text.count ')' = 0 := by
  rw [List.count_eq_zero, List.count_eq_zero]
  constructor
  · intro h
    constructor <;> intro hmem <;> cases h _ hmem
  · rintro ⟨hopening, hclosing⟩ c hc
    have hne : c ≠ '(' ∧ c ≠ ')' := by
      constructor <;> rintro rfl
      · exact hopening hc
      · exact hclosing hc
    simp [isParenthesis, hne]

section Buffer

variable (source : List Char)

theorem count_remaining_ofText {c : Char} (hc : Text.isSpace c = false) :
    (ofText source).remaining.count c = source.count c := by
  rw [remaining_ofText, Text.count_trimEnd hc, Text.count_dropWhile (Text.isBlank_eq_false hc)]

theorem count_opening_remaining :
    (ofText source).remaining.count '(' = (tokens source).count .opening := by
  rw [count_remaining_ofText source (by decide), count_opening_tokens]

theorem count_closing_remaining :
    (ofText source).remaining.count ')' = (tokens source).count .closing := by
  rw [count_remaining_ofText source (by decide), count_closing_tokens]

theorem remaining_eq_nil_of_tokens_eq_nil (hrun : tokens source = []) :
    (ofText source).remaining = [] := by
  have hpending : (ofText source).pending = [] := List.map_eq_nil_iff.mp hrun
  rw [remaining, hpending]

/-- A text without tokens reads as the empty list. -/
theorem ofText_of_tokens_eq_nil {source : List Char} (hrun : tokens source = []) :
    Tree.ofText source = .ok .empty := by
  rw [Tree.ofText, readOne_of_remaining_eq_nil (remaining_eq_nil_of_tokens_eq_nil source hrun),
    pendingTokens_ofText, hrun]
  rfl

/-- The buffer of a source has a parenthesis where its tokens have one. -/
theorem forall_isParenthesis_remaining_iff :
    (∀ c ∈ (ofText source).remaining, Token.isParenthesis c = false) ↔
      ∀ token ∈ tokens source, token.isItem = true := by
  rw [Token.forall_isParenthesis_iff, count_opening_remaining, count_closing_remaining,
    List.count_eq_zero, List.count_eq_zero]
  constructor
  · rintro ⟨hopening, hclosing⟩ token htoken
    cases hitem : token.isItem with
    | true => rfl
    | false =>
      rcases Token.eq_of_isItem_eq_false hitem with rfl | rfl
      · exact absurd htoken hopening
      · exact absurd htoken hclosing
  · intro h
    constructor <;> intro hmem <;> cases h _ hmem

/-- Trimming takes no parenthesis away. -/
theorem forall_isParenthesis_remaining_iff_source :
    (∀ c ∈ (ofText source).remaining, Token.isParenthesis c = false) ↔
      ∀ c ∈ source, Token.isParenthesis c = false := by
  rw [Token.forall_isParenthesis_iff, Token.forall_isParenthesis_iff,
    count_remaining_ofText source (by decide), count_remaining_ofText source (by decide)]

/-- Where a source opens a group first and has as many closing parentheses as
    opening ones, the group is closed. Counting is enough for that. -/
theorem exists_group_of_count_eq {tail : List Token} (hrun : tokens source = .opening :: tail)
    (hcount : (ofText source).remaining.count '(' = (ofText source).remaining.count ')') :
    ∃ inner rest, tail = inner ++ .closing :: rest ∧ Nested .opening .closing inner := by
  rw [count_opening_remaining, count_closing_remaining, hrun] at hcount
  exact exists_group_of_count hcount

end Buffer

namespace Text

theorem isExpressionShaped_iff {buffer : List Char} :
    isExpressionShaped buffer = true ↔
      (∃ c ∈ buffer, Token.isParenthesis c = true) ∨ ∀ c ∈ buffer, isSpace c = false := by
  simp [isExpressionShaped, List.any_eq_true]

theorem isGlyphRun_iff {buffer : List Char} :
    isGlyphRun buffer = true ↔
      (∀ c ∈ buffer, isAlphanumeric c = false ∧ Token.isParenthesis c = false) ∧
        1 < buffer.length := by
  simp [isGlyphRun]

theorem isBalanced_iff {buffer : List Char} :
    isBalanced buffer = true ↔ buffer.count '(' = buffer.count ')' := by
  simp [isBalanced]

theorem isGlyphRun_of_isParenthesis {buffer : List Char} {c : Char} (hc : c ∈ buffer)
    (hparen : Token.isParenthesis c = true) : isGlyphRun buffer = false := by
  rw [← Bool.not_eq_true, isGlyphRun_iff]
  rintro ⟨hall, -⟩
  rw [(hall c hc).2] at hparen
  cases hparen

theorem exists_isParenthesis_of_mem {buffer : List Char} (hmem : '(' ∈ buffer ∨ ')' ∈ buffer) :
    ∃ c ∈ buffer, Token.isParenthesis c = true := by
  rcases hmem with h | h
  · exact ⟨_, h, rfl⟩
  · exact ⟨_, h, rfl⟩

theorem any_isSpace_eq_false_iff {buffer : List Char} :
    buffer.any isSpace = false ↔ ∀ c ∈ buffer, isSpace c = false := by
  simp

end Text

/-- A single item that is of the right shape is all in one piece. -/
theorem isSpace_of_single (source : List Char) {token : Token}
    (hshaped : Text.isExpressionShaped (ofText source).remaining = true)
    (hrun : tokens source = [token]) (hitem : token.isItem = true) :
    ∀ c ∈ (ofText source).remaining, Text.isSpace c = false := by
  have hnone := (forall_isParenthesis_remaining_iff source).mpr (by simp [hrun, hitem])
  rcases Text.isExpressionShaped_iff.mp hshaped with ⟨c, hc, hparen⟩ | hspace
  · rw [hnone c hc] at hparen
    cases hparen
  · exact hspace

/-- A buffer with a parenthesis passes every check but the count. -/
theorem presentable_of_isParenthesis {buffer : List Char} {c : Char} (hc : c ∈ buffer)
    (hparen : Token.isParenthesis c = true) (hcount : buffer.count '(' = buffer.count ')') :
    Presentable buffer where
  ne_nil := List.ne_nil_of_mem hc
  shaped := Text.isExpressionShaped_iff.mpr (.inl ⟨c, hc, hparen⟩)
  not_glyphs := Text.isGlyphRun_of_isParenthesis hc hparen
  balanced := Text.isBalanced_iff.mpr hcount

/-- Parentheses that do not match in number are all that is looked at. -/
theorem ofText_of_count_ne {source : List Char} (hcount : source.count '(' ≠ source.count ')') :
    Tree.ofText source = .error .unbalanced := by
  have hbuffer : (ofText source).remaining.count '(' ≠ (ofText source).remaining.count ')' := by
    rw [count_remaining_ofText source (by decide), count_remaining_ofText source (by decide)]
    exact hcount
  obtain ⟨c, hc, hparen⟩ : ∃ c ∈ (ofText source).remaining, Token.isParenthesis c = true := by
    apply Text.exists_isParenthesis_of_mem
    rw [← List.count_pos_iff, ← List.count_pos_iff]
    omega
  apply readOne_of_unbalanced (List.ne_nil_of_mem hc)
  · exact Text.isExpressionShaped_iff.mpr (.inl ⟨c, hc, hparen⟩)
  · exact Text.isGlyphRun_of_isParenthesis hc hparen
  · rw [← Bool.not_eq_true, Text.isBalanced_iff]
    exact hbuffer

/-- What reading one expression answers for the tokens of a source and its
    buffer. The checks come in the order of the cases. -/
inductive Judged (run : List Token) (buffer : List Char) : Except SyntaxError Tree → Prop where
  | blank (hbuffer : buffer = []) : Judged run buffer (settle .empty run)
  | malformed (hne : buffer ≠ [])
      (hshape : Text.isExpressionShaped buffer = false ∨ Text.isGlyphRun buffer = true) :
      Judged run buffer (.error (.malformed (String.ofList buffer)))
  | unbalanced (hne : buffer ≠ []) (hshaped : Text.isExpressionShaped buffer = true)
      (hglyphs : Text.isGlyphRun buffer = false) (hbalanced : Text.isBalanced buffer = false) :
      Judged run buffer (.error .unbalanced)
  | group {inner rest : List Token} {items : List Tree} (hbuffer : Presentable buffer)
      (hrun : run = .opening :: (inner ++ .closing :: rest)) (hspells : Spells inner items) :
      Judged run buffer (settle (Tree.ungrouped items) rest)
  | closing {rest : List Token} (hbuffer : Presentable buffer) (hrun : run = .closing :: rest) :
      Judged run buffer (.error .unbalanced)
  | compound {token : Token} {rest : List Token} (hbuffer : Presentable buffer)
      (hrun : run = token :: rest) (hitem : token.isItem = true) (hrest : rest ≠ [])
      (hspace : ∀ c ∈ buffer, Text.isSpace c = false) :
      Judged run buffer (.ok (.atom (.symbol (String.ofList buffer))))
  | item {token : Token} {rest : List Token} (hbuffer : Presentable buffer)
      (hrun : run = token :: rest) (hitem : token.isItem = true)
      (hrest : rest = [] ∨ ∃ c ∈ buffer, Text.isSpace c = true) :
      Judged run buffer (settle (.atom (.ofToken token)) rest)

/-- Nothing but its tokens and its buffer decides what a source reads as. No
    error comes from within a group: where the count is right and a group comes
    first, that group is closed. -/
theorem judged_readOne (source : List Char) :
    Judged (tokens source) (ofText source).remaining (ofText source).readOne.1 := by
  by_cases hne : (ofText source).remaining = []
  · rw [readOne_of_remaining_eq_nil hne]
    exact .blank hne
  cases hshaped : Text.isExpressionShaped (ofText source).remaining with
  | false =>
    rw [readOne_of_malformed hne (.inl hshaped)]
    exact .malformed hne (.inl hshaped)
  | true =>
  cases hglyphs : Text.isGlyphRun (ofText source).remaining with
  | true =>
    rw [readOne_of_malformed hne (.inr hglyphs)]
    exact .malformed hne (.inr hglyphs)
  | false =>
  cases hbalanced : Text.isBalanced (ofText source).remaining with
  | false =>
    rw [readOne_of_unbalanced hne hshaped hglyphs hbalanced]
    exact .unbalanced hne hshaped hglyphs hbalanced
  | true =>
  have hbuffer : Presentable (ofText source).remaining := ⟨hne, hshaped, hglyphs, hbalanced⟩
  cases hrun : (ofText source).pendingTokens with
  | nil => exact absurd (remaining_eq_nil_of_tokens_eq_nil source hrun) hne
  | cons token rest =>
    cases hitem : token.isItem with
    | false =>
      rcases Token.eq_of_isItem_eq_false hitem with rfl | rfl
      · obtain ⟨inner, behind, rfl, hinner⟩ :=
          exists_group_of_count_eq source hrun (Text.isBalanced_iff.mp hbalanced)
        obtain ⟨items, hspells⟩ := exists_spells_of_nested inner hinner
        rw [readOne_of_group hbuffer hrun hspells]
        exact .group hbuffer hrun hspells
      · rw [readOne_of_closing hbuffer hrun]
        exact .closing hbuffer hrun
    | true =>
      by_cases hcompound : rest ≠ [] ∧ (ofText source).remaining.any Text.isSpace = false
      · obtain ⟨hrest, hspace⟩ := hcompound
        rw [readOne_of_compound hbuffer hrun hitem hrest hspace]
        exact .compound hbuffer hrun hitem hrest (Text.any_isSpace_eq_false_iff.mp hspace)
      · have hrest : rest = [] ∨ (ofText source).remaining.any Text.isSpace = true := by
          by_cases h : rest = []
          · exact .inl h
          · exact .inr (by simpa using fun hspace => hcompound ⟨h, hspace⟩)
        rw [readOne_of_item hbuffer hrun hitem hrest]
        exact .item hbuffer hrun hitem (hrest.imp_right List.any_eq_true.mp)

theorem Judged.of_malformed {run : List Token} {buffer : List Char} {text : String}
    (hjudged : Judged run buffer (.error (.malformed text))) : text = String.ofList buffer := by
  have hnot : ∀ {value : Tree} {run : List Token},
      Except.error (.malformed text) ≠ settle value run := by
    intro value run
    cases run <;> rintro ⟨⟩
  generalize hresult : (Except.error (SyntaxError.malformed text) :
    Except SyntaxError Tree) = result at hjudged
  cases hjudged with
  | malformed => cases hresult; rfl
  | blank => exact absurd hresult hnot
  | group => exact absurd hresult hnot
  | item => exact absurd hresult hnot
  | unbalanced => cases hresult
  | closing => cases hresult
  | compound => cases hresult

/-- A token behind an expression is only reached where that is a group, or where
    the buffer is in several pieces. -/
theorem Judged.of_unexpected {run : List Token} {buffer : List Char} {text : String}
    (hjudged : Judged run buffer (.error (.unexpectedToken text))) (hne : buffer ≠ []) :
    Presentable buffer ∧
      ((∃ rest, run = .opening :: rest) ∨ ∃ c ∈ buffer, Text.isSpace c = true) := by
  generalize hresult : (Except.error (SyntaxError.unexpectedToken text) :
    Except SyntaxError Tree) = result at hjudged
  cases hjudged with
  | blank hbuffer => exact absurd hbuffer hne
  | malformed => cases hresult
  | unbalanced => cases hresult
  | closing => cases hresult
  | compound => cases hresult
  | group hbuffer hrun => exact ⟨hbuffer, .inl ⟨_, hrun⟩⟩
  | item hbuffer hrun hitem hrest =>
    rcases hrest with rfl | hspace
    · cases hresult
    · exact ⟨hbuffer, .inr hspace⟩

/-- A buffer whose tokens do not start with a group is an atom, if it is anything. -/
theorem Judged.exists_atom {run : List Token} {buffer : List Char} {tree : Tree}
    (hjudged : Judged run buffer (.ok tree)) (hne : buffer ≠ [])
    (hopening : ∀ rest, run ≠ .opening :: rest) : ∃ value, tree = .atom value := by
  generalize hresult : (Except.ok tree : Except SyntaxError Tree) = result at hjudged
  cases hjudged with
  | blank hbuffer => exact absurd hbuffer hne
  | malformed => cases hresult
  | unbalanced => cases hresult
  | closing => cases hresult
  | group hbuffer hrun => exact absurd hrun (hopening _)
  | compound => cases hresult; exact ⟨_, rfl⟩
  | item =>
    obtain ⟨-, rfl⟩ := settle_eq_ok hresult.symm
    exact ⟨_, rfl⟩

/-- What the tokens and the buffer of a source are judged to be is what is read. -/
theorem Judged.readOne_eq {source : List Char} {result : Except SyntaxError Tree}
    (hjudged : Judged (tokens source) (ofText source).remaining result) :
    (ofText source).readOne.1 = result := by
  cases hjudged with
  | blank hbuffer => exact readOne_of_remaining_eq_nil hbuffer
  | malformed hne hshape => exact readOne_of_malformed hne hshape
  | unbalanced hne hshaped hglyphs hbalanced =>
    exact readOne_of_unbalanced hne hshaped hglyphs hbalanced
  | group hbuffer hrun hspells => exact readOne_of_group hbuffer hrun hspells
  | closing hbuffer hrun => exact readOne_of_closing hbuffer hrun
  | compound hbuffer hrun hitem hrest hspace =>
    exact readOne_of_compound hbuffer hrun hitem hrest (Text.any_isSpace_eq_false_iff.mpr hspace)
  | item hbuffer hrun hitem hrest =>
    exact readOne_of_item hbuffer hrun hitem (hrest.imp_right List.any_eq_true.mpr)

end PrefixLogic
