import PrefixLogic.Proofs.Token.Remaining
import PrefixLogic.Proofs.Tree.Items

namespace PrefixLogic

/-- The tree of a group with the given items. -/
def Tree.ungrouped : List Tree → Tree
  | [.atom value] => .atom value
  | items => .ofList items

/-- A result, unless a token stands behind it. -/
def settle {α : Type} (value : α) : List Token → Except SyntaxError α
  | [] => .ok value
  | token :: _ => .error (.unexpectedToken token.text)

theorem settle_eq_ok {α : Type} {value result : α} {rest : List Token}
    (hsettle : settle value rest = .ok result) : rest = [] ∧ value = result := by
  cases rest with
  | nil => exact ⟨rfl, Except.ok.inj hsettle⟩
  | cons token rest => cases hsettle

/-- What a buffer has to be before any token is taken from it. -/
structure Presentable (buffer : List Char) : Prop where
  ne_nil : buffer ≠ []
  shaped : Text.isExpressionShaped buffer = true
  not_glyphs : Text.isGlyphRun buffer = false
  balanced : Text.isBalanced buffer = true

namespace Scanner

theorem rejectTrailing_ok {α : Type} (value : α) (scanner : Scanner) :
    (rejectTrailing (.ok value, scanner)).1 = settle value scanner.pendingTokens := by
  cases hrun : scanner.pendingTokens with
  | nil =>
    have hnext := next?_eq_none_iff.mpr (List.map_eq_nil_iff.mp hrun)
    rw [rejectTrailing, hnext]
    rfl
  | cons token rest =>
    obtain ⟨lexeme, after, hnext, htoken, -⟩ := exists_next?_of_run hrun
    rw [rejectTrailing, hnext]
    dsimp only
    rw [htoken]
    rfl

theorem hasMore_eq (scanner : Scanner) : scanner.hasMore = !scanner.pendingTokens.isEmpty := by
  rw [hasMore, pendingTokens, List.isEmpty_map]

theorem readOne_of_remaining_eq_nil {scanner : Scanner} (hbuffer : scanner.remaining = []) :
    scanner.readOne.1 = settle .empty scanner.pendingTokens := by
  rw [readOne, readExpression, if_pos hbuffer, rejectTrailing_ok]

theorem readExpression_of_malformed {scanner : Scanner} (hbuffer : scanner.remaining ≠ [])
    (hshape : Text.isExpressionShaped scanner.remaining = false ∨
      Text.isGlyphRun scanner.remaining = true) :
    scanner.readExpression =
      (.error (.malformed (String.ofList scanner.remaining)), scanner) := by
  have hcheck : (!Text.isExpressionShaped scanner.remaining ||
      Text.isGlyphRun scanner.remaining) = true := by
    rcases hshape with h | h <;> simp [h]
  rw [readExpression, if_neg hbuffer, if_pos hcheck]

theorem readExpression_of_unbalanced {scanner : Scanner} (hbuffer : scanner.remaining ≠ [])
    (hshaped : Text.isExpressionShaped scanner.remaining = true)
    (hglyphs : Text.isGlyphRun scanner.remaining = false)
    (hbalanced : Text.isBalanced scanner.remaining = false) :
    scanner.readExpression = (.error .unbalanced, scanner) := by
  rw [readExpression, if_neg hbuffer, if_neg (by simp [hshaped, hglyphs]),
    if_pos (by simp [hbalanced])]

theorem readOne_of_malformed {scanner : Scanner} (hbuffer : scanner.remaining ≠ [])
    (hshape : Text.isExpressionShaped scanner.remaining = false ∨
      Text.isGlyphRun scanner.remaining = true) :
    scanner.readOne.1 = .error (.malformed (String.ofList scanner.remaining)) := by
  rw [readOne, readExpression_of_malformed hbuffer hshape]
  rfl

theorem readOne_of_unbalanced {scanner : Scanner} (hbuffer : scanner.remaining ≠ [])
    (hshaped : Text.isExpressionShaped scanner.remaining = true)
    (hglyphs : Text.isGlyphRun scanner.remaining = false)
    (hbalanced : Text.isBalanced scanner.remaining = false) :
    scanner.readOne.1 = .error .unbalanced := by
  rw [readOne, readExpression_of_unbalanced hbuffer hshaped hglyphs hbalanced]
  rfl

section Presentable

variable {scanner : Scanner} (hbuffer : Presentable scanner.remaining)
include hbuffer

theorem readExpression_of_presentable :
    scanner.readExpression =
      match scanner.next? with
      | none => (.ok .empty, scanner)
      | some (lexeme, after) =>
        match lexeme.token with
        | .opening =>
          match after.takeGroup lexeme with
          | (.error error, behind) => (.error error, behind)
          | (.ok group, behind) => (readGroup group, behind)
        | .closing => (.error .unbalanced, after)
        | token =>
          if after.hasMore && !scanner.remaining.any Text.isSpace then
            (.ok (.atom (.symbol (String.ofList scanner.remaining))), after.drain)
          else (.ok (.atom (.ofToken token)), after) := by
  have hchecks : ¬ (!Text.isExpressionShaped scanner.remaining ||
      Text.isGlyphRun scanner.remaining) = true := by
    simp [hbuffer.shaped, hbuffer.not_glyphs]
  have hcount : ¬ (!Text.isBalanced scanner.remaining) = true := by simp [hbuffer.balanced]
  unfold readExpression
  exact (if_neg hbuffer.ne_nil).trans ((if_neg hchecks).trans (if_neg hcount))

/-- A group that comes first is read, and what stands behind it is left. -/
theorem readExpression_of_group {inner rest : List Token} {items : List Tree}
    (hrun : scanner.pendingTokens = .opening :: (inner ++ .closing :: rest))
    (hspells : Spells inner items) :
    ∃ behind, scanner.readExpression = (.ok (Tree.ungrouped items), behind) ∧
      behind.pendingTokens = rest := by
  obtain ⟨opening, after, group, behind, hnext, hopening, htake, hgroup, hbehind, -⟩ :=
    exists_takeGroup_of_run hrun hspells.nested
  have hread : readGroup group = .ok (Tree.ungrouped items) := by
    rw [readGroup, readItems_of_spells hspells (ofText group) hgroup]
    rfl
  refine ⟨behind, ?_, hbehind⟩
  rw [readExpression_of_presentable hbuffer, hnext]
  dsimp only
  rw [hopening]
  dsimp only
  rw [htake]
  dsimp only
  rw [hread]

/-- A closing parenthesis that comes first is taken and refused. -/
theorem readExpression_of_closing {after : Scanner} {closing : Lexeme}
    (hnext : scanner.next? = some (closing, after)) (hclosing : closing.token = .closing) :
    scanner.readExpression = (.error .unbalanced, after) := by
  rw [readExpression_of_presentable hbuffer, hnext]
  dsimp only
  rw [hclosing]

/-- Several tokens in one piece are one symbol. -/
theorem readExpression_of_compound {token : Token} {rest : List Token}
    (hrun : scanner.pendingTokens = token :: rest) (hitem : token.isItem = true)
    (hrest : rest ≠ []) (hspace : scanner.remaining.any Text.isSpace = false) :
    ∃ behind, scanner.readExpression =
        (.ok (.atom (.symbol (String.ofList scanner.remaining))), behind) ∧
      behind.pendingTokens = [] := by
  obtain ⟨lexeme, after, hnext, htoken, hafter, -⟩ := exists_next?_of_run hrun
  have hmore : after.hasMore = true := by
    rw [hasMore_eq, hafter]
    cases rest with
    | nil => exact absurd rfl hrest
    | cons => rfl
  refine ⟨after.drain, ?_, rfl⟩
  rw [readExpression_of_presentable hbuffer, hnext]
  dsimp only
  rw [htoken, hmore, hspace]
  cases token with
  | opening => cases hitem
  | closing => cases hitem
  | _ => rfl

/-- A first token that is an item stands for itself where it is the only one, or
    where the buffer is not all in one piece. -/
theorem readExpression_of_item {token : Token} {rest : List Token}
    (hrun : scanner.pendingTokens = token :: rest) (hitem : token.isItem = true)
    (hrest : rest = [] ∨ scanner.remaining.any Text.isSpace = true) :
    ∃ behind, scanner.readExpression = (.ok (.atom (.ofToken token)), behind) ∧
      behind.pendingTokens = rest := by
  obtain ⟨lexeme, after, hnext, htoken, hafter, -⟩ := exists_next?_of_run hrun
  have hpiece : (after.hasMore && !scanner.remaining.any Text.isSpace) = false := by
    rcases hrest with rfl | hspace
    · rw [hasMore_eq, hafter]
      rfl
    · rw [hspace]
      exact Bool.and_false _
  refine ⟨after, ?_, hafter⟩
  rw [readExpression_of_presentable hbuffer, hnext]
  dsimp only
  rw [htoken, hpiece]
  cases token with
  | opening => cases hitem
  | closing => cases hitem
  | _ => rfl

/-- A text that starts with a group is that group, if nothing is behind it. -/
theorem readOne_of_group {inner rest : List Token} {items : List Tree}
    (hrun : scanner.pendingTokens = .opening :: (inner ++ .closing :: rest))
    (hspells : Spells inner items) : scanner.readOne.1 = settle (Tree.ungrouped items) rest := by
  obtain ⟨behind, hread, hbehind⟩ := readExpression_of_group hbuffer hrun hspells
  rw [readOne, hread, rejectTrailing_ok, hbehind]

theorem readOne_of_closing {rest : List Token} (hrun : scanner.pendingTokens = .closing :: rest) :
    scanner.readOne.1 = .error .unbalanced := by
  obtain ⟨closing, after, hnext, hclosing, -⟩ := exists_next?_of_run hrun
  rw [readOne, readExpression_of_closing hbuffer hnext hclosing]
  rfl

theorem readOne_of_compound {token : Token} {rest : List Token}
    (hrun : scanner.pendingTokens = token :: rest) (hitem : token.isItem = true)
    (hrest : rest ≠ []) (hspace : scanner.remaining.any Text.isSpace = false) :
    scanner.readOne.1 = .ok (.atom (.symbol (String.ofList scanner.remaining))) := by
  obtain ⟨behind, hread, hbehind⟩ := readExpression_of_compound hbuffer hrun hitem hrest hspace
  rw [readOne, hread, rejectTrailing_ok, hbehind]
  rfl

theorem readOne_of_item {token : Token} {rest : List Token}
    (hrun : scanner.pendingTokens = token :: rest) (hitem : token.isItem = true)
    (hrest : rest = [] ∨ scanner.remaining.any Text.isSpace = true) :
    scanner.readOne.1 = settle (.atom (.ofToken token)) rest := by
  obtain ⟨behind, hread, hbehind⟩ := readExpression_of_item hbuffer hrun hitem hrest
  rw [readOne, hread, rejectTrailing_ok, hbehind]

end Presentable

end Scanner

end PrefixLogic
