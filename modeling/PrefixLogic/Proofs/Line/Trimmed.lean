import PrefixLogic.Proofs.Token.Space
import PrefixLogic.Proofs.Tree.Verdict

namespace PrefixLogic

open Scanner

section Buffers

variable (line : List Char)

theorem remaining_of_leading {line : List Char}
    (hleading : ∀ c ∈ Text.leading line, Text.isBlank c = true) :
    (ofText line).remaining = Text.trim line := by
  rw [remaining_ofText, Text.dropWhile_isBlank_of_leading hleading, Text.trim]

theorem remaining_trim : (ofText (Text.trim line)).remaining = Text.trim line := by
  rw [remaining_of_leading (by simp [Text.leading_trim]), Text.trim_trim]

/-- The trimmed line is judged by its own characters. -/
theorem judged_trim :
    Judged (tokens (Text.trim line)) (Text.trim line) (Tree.ofText (Text.trim line)) := by
  have hjudged := judged_readOne (Text.trim line)
  rw [remaining_trim] at hjudged
  exact hjudged

/-- Blanks at the start do not count, so a line with no other spaces there is
    judged by the characters of the trimmed one. -/
theorem judged_of_leading {line : List Char}
    (hleading : ∀ c ∈ Text.leading line, Text.isBlank c = true) :
    Judged (tokens line) (Text.trim line) (Tree.ofText line) := by
  have hjudged := judged_readOne line
  rw [remaining_of_leading hleading] at hjudged
  exact hjudged

theorem count_remaining {c : Char} (hc : Text.isSpace c = false) :
    (ofText line).remaining.count c = (Text.trim line).count c := by
  rw [count_remaining_ofText line hc, Text.count_trim hc]

theorem ofText_of_judged {line : List Char} {result : Except SyntaxError Tree}
    (hleading : ∀ c ∈ Text.leading line, Text.isBlank c = true)
    (hjudged : Judged (tokens line) (Text.trim line) result) : Tree.ofText line = result := by
  rw [← remaining_of_leading hleading] at hjudged
  exact hjudged.readOne_eq

theorem isBlank_of_mem_head?_trim : ∀ c ∈ (Text.trim line).head?, Text.isBlank c = false := by
  intro c hc
  rcases Text.trim_cases line with ⟨htrim, -⟩ | ⟨d, rest, htrim, hd, -⟩
  · rw [htrim] at hc
    cases hc
  · rw [htrim] at hc
    cases hc
    exact Text.isBlank_eq_false hd

theorem isBlank_of_trim_eq_nil {line : List Char}
    (hleading : ∀ c ∈ Text.leading line, Text.isBlank c = true) (htrim : Text.trim line = []) :
    ∀ c ∈ line, Text.isBlank c = true := by
  rcases Text.trim_cases line with ⟨-, hall⟩ | ⟨c, rest, hcons, -⟩
  · rw [hall] at hleading
    exact hleading
  · rw [htrim] at hcons
    cases hcons

/-- The tokens of a line that starts with blanks only are those of the trimmed
    one with the spaces at its end. -/
theorem tokens_of_leading {line : List Char}
    (hleading : ∀ c ∈ Text.leading line, Text.isBlank c = true) (hne : Text.trim line ≠ []) :
    tokens line = tokens (Text.trim line ++ Text.trailing line) := by
  rw [← tokens_dropWhile_isBlank, Text.dropWhile_isBlank_of_leading hleading]
  rcases Text.trim_cases line with ⟨htrim, -⟩ | ⟨c, rest, -, -, hbody⟩
  · exact absurd htrim hne
  · rw [hbody]

/-- A parenthesis in front is in front with spaces at the end too. -/
theorem exists_tokens_of_trim {line : List Char} {paren : Token} {rest : List Token}
    (hleading : ∀ c ∈ Text.leading line, Text.isBlank c = true) (hparen : paren.isItem = false)
    (hrun : tokens (Text.trim line) = paren :: rest) : ∃ rest', tokens line = paren :: rest' := by
  have hne : Text.trim line ≠ [] := by
    intro htrim
    rw [htrim, tokens_nil] at hrun
    cases hrun
  rw [tokens_of_leading hleading hne]
  exact exists_tokens_append hparen (isBlank_of_mem_head?_trim line) hrun _

/-- A line that starts with an item does so trimmed too. -/
theorem tokens_trim_ne_opening {line : List Char} {first : Token} {rest rest' : List Token}
    (hleading : ∀ c ∈ Text.leading line, Text.isBlank c = true)
    (hrun : tokens line = first :: rest) (hitem : first.isItem = true) :
    tokens (Text.trim line) ≠ .opening :: rest' := by
  intro hopening
  obtain ⟨others, hline⟩ := exists_tokens_of_trim hleading rfl hopening
  rw [hrun] at hline
  obtain ⟨rfl, -⟩ := List.cons.inj hline
  cases hitem

/-- Spaces that are no blanks stay in front of the buffer. -/
theorem exists_isSpace_remaining {line : List Char}
    (hleading : ¬ ∀ c ∈ Text.leading line, Text.isBlank c = true)
    (hne : (ofText line).remaining ≠ []) :
    ∃ c rest, (ofText line).remaining = c :: rest ∧ Text.isSpace c = true := by
  obtain ⟨c, rest, hdrop, hspace, -⟩ := Text.exists_dropWhile_isBlank hleading
  rw [remaining_ofText, hdrop] at hne ⊢
  obtain ⟨kept, hkept⟩ := Text.exists_trimEnd_cons hne
  exact ⟨c, kept, hkept, hspace⟩

theorem exists_mem_isSpace_remaining {line : List Char}
    (hleading : ¬ ∀ c ∈ Text.leading line, Text.isBlank c = true)
    (hne : (ofText line).remaining ≠ []) :
    ∃ c ∈ (ofText line).remaining, Text.isSpace c = true := by
  obtain ⟨c, rest, hremaining, hspace⟩ := exists_isSpace_remaining hleading hne
  refine ⟨c, ?_, hspace⟩
  rw [hremaining]
  exact List.mem_cons_self

/-- A space in front that is no blank starts an operator. -/
theorem exists_item_of_leading {line : List Char}
    (hleading : ¬ ∀ c ∈ Text.leading line, Text.isBlank c = true) :
    ∃ first rest, tokens line = first :: rest ∧ first.isItem = true := by
  obtain ⟨c, rest, hdrop, hspace, hblank⟩ := Text.exists_dropWhile_isBlank hleading
  obtain ⟨tail, -, hrun⟩ := tokens_cons hblank rest
  refine ⟨_, _, by rw [← tokens_dropWhile_isBlank, hdrop, hrun], ?_⟩
  cases hitem : (Token.scan c rest).isItem with
  | true => rfl
  | false =>
    rcases Token.eq_of_isItem_eq_false hitem with hscan | hscan
    · rw [Token.scan_eq_opening_iff.mp hscan] at hspace
      cases hspace
    · rw [Token.scan_eq_closing_iff.mp hscan] at hspace
      cases hspace

end Buffers

end PrefixLogic
