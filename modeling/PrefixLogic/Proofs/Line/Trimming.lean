import PrefixLogic.Proofs.Line.Interpretation
import PrefixLogic.Proofs.Line.Trimmed
import PrefixLogic.Script
import PrefixLogic.Session

namespace PrefixLogic

open Scanner

/-- The token right behind the first expression of a run, where that is an item
    or a closed group. -/
inductive Follows : List Token → Token → Prop where
  | item {first next : Token} {rest : List Token} (hitem : first.isItem = true) :
      Follows (first :: next :: rest) next
  | group {inner rest : List Token} {next : Token} (hinner : Nested .opening .closing inner) :
      Follows (.opening :: (inner ++ .closing :: next :: rest)) next

/-- A line that is read alike with its outer spaces and without them. -/
inductive TrimSafe (line : List Char) : Prop where
  /-- The spaces at both ends are blanks. -/
  | blanks (hends : Text.BlankEnds line)
  /-- There are more parentheses of one kind than of the other. -/
  | uneven (hcount : line.count '(' ≠ line.count ')')
  /-- The line starts with blanks only, and trimmed it is refused for its shape or
      for its parentheses. -/
  | refused (hleading : ∀ c ∈ Text.leading line, Text.isBlank c = true)
      (hread : Tree.ofText (Text.trim line) = .error .unbalanced ∨
        Tree.ofText (Text.trim line) = .error (.malformed (String.ofList (Text.trim line))))
  /-- The line starts with blanks only, and trimmed it is one symbol. The spaces at
      its end make tokens of their own. -/
  | symbol {first next : Token} {rest : List Token}
      (hleading : ∀ c ∈ Text.leading line, Text.isBlank c = true)
      (hrun : tokens line = first :: next :: rest) (hitem : first.isItem = true)
      (hread : Tree.ofText (Text.trim line) =
        .ok (.atom (.symbol (String.ofList (Text.trim line)))))
  /-- Trimmed, the line is refused for the token behind its first expression, and
      untrimmed the same token stands there. -/
  | unexpected {token : Token} (hfollows : Follows (tokens line) token)
      (hread : Tree.ofText (Text.trim line) = .error (.unexpectedToken token.text))

section Alike

variable {line : List Char}

theorem ofText_of_blankEnds (hends : Text.BlankEnds line) :
    Tree.ofText line = Tree.ofText (Text.trim line) := by
  have hrun : tokens line = tokens (Text.trim line) := by
    by_cases htrim : Text.trim line = []
    · have hnone := tokens_append_isBlank (isBlank_of_trim_eq_nil hends.start htrim) []
      rw [htrim]
      exact hnone
    · rw [tokens_of_leading hends.start htrim, tokens_append_isBlank hends.stop]
  have hjudged := judged_trim line
  rw [← hrun] at hjudged
  exact ofText_of_judged hends.start hjudged

theorem ofText_of_refused (hleading : ∀ c ∈ Text.leading line, Text.isBlank c = true)
    (hread : Tree.ofText (Text.trim line) = .error .unbalanced ∨
      Tree.ofText (Text.trim line) = .error (.malformed (String.ofList (Text.trim line)))) :
    Tree.ofText line = Tree.ofText (Text.trim line) := by
  have hjudged := judged_trim line
  generalize Tree.ofText (Text.trim line) = result at hjudged hread ⊢
  have hnot : ∀ {value : Tree} {run : List Token}, result ≠ settle value run := by
    rintro value run rfl
    cases run with
    | nil => rcases hread with h | h <;> cases h
    | cons token rest => rcases hread with h | h <;> cases h
  cases hjudged with
  | malformed hne hshape => exact ofText_of_judged hleading (.malformed hne hshape)
  | unbalanced hne hshaped hglyphs hbalanced =>
    exact ofText_of_judged hleading (.unbalanced hne hshaped hglyphs hbalanced)
  | closing hbuffer hrun =>
    obtain ⟨rest, hline⟩ := exists_tokens_of_trim hleading rfl hrun
    exact ofText_of_judged hleading (.closing hbuffer hline)
  | blank => exact absurd rfl hnot
  | group => exact absurd rfl hnot
  | item => exact absurd rfl hnot
  | compound => rcases hread with h | h <;> cases h

/-- Where the trimmed line is a symbol all of its own, the line is that symbol if
    it has several tokens. -/
theorem ofText_of_symbol {first next : Token} {rest : List Token}
    (hleading : ∀ c ∈ Text.leading line, Text.isBlank c = true)
    (hrun : tokens line = first :: next :: rest) (hitem : first.isItem = true)
    (hread : Tree.ofText (Text.trim line) =
      .ok (.atom (.symbol (String.ofList (Text.trim line))))) :
    Tree.ofText line = Tree.ofText (Text.trim line) := by
  have hcompound : Presentable (Text.trim line) → (∀ c ∈ Text.trim line, Text.isSpace c = false) →
      Tree.ofText line = Tree.ofText (Text.trim line) := by
    intro hbuffer hspace
    rw [hread]
    exact ofText_of_judged hleading
      (.compound hbuffer hrun hitem (List.cons_ne_nil next rest) hspace)
  have hjudged := judged_trim line
  rw [hread] at hjudged
  generalize hresult : (Except.ok (Tree.atom (.symbol (String.ofList (Text.trim line)))) :
    Except SyntaxError Tree) = result at hjudged
  cases hjudged with
  | blank =>
    obtain ⟨-, hempty⟩ := settle_eq_ok hresult.symm
    cases hempty
  | malformed => cases hresult
  | unbalanced => cases hresult
  | closing => cases hresult
  | group hbuffer htrim => exact absurd htrim (tokens_trim_ne_opening hleading hrun hitem)
  | compound hbuffer _ _ _ hspace => exact hcompound hbuffer hspace
  | item hbuffer htrim hfirst =>
    obtain ⟨rfl, -⟩ := settle_eq_ok hresult.symm
    have hspace := fun hshaped => isSpace_of_single (Text.trim line) hshaped htrim hfirst
    rw [remaining_trim] at hspace
    exact hcompound hbuffer (hspace hbuffer.shaped)

/-- A token behind the first expression of the trimmed line is only reached where
    the parentheses of the line match in number, and there are some. -/
theorem presentable_of_unexpected {text : String}
    (hread : Tree.ofText (Text.trim line) = .error (.unexpectedToken text)) :
    Presentable (ofText line).remaining ∧
      ((∃ rest, tokens (Text.trim line) = .opening :: rest) ∨
        ∃ c ∈ Text.trim line, Text.isSpace c = true) := by
  have hjudged := judged_trim line
  rw [hread] at hjudged
  have hne : Text.trim line ≠ [] := by
    intro htrim
    rw [htrim, ofText_of_tokens_eq_nil tokens_nil] at hread
    cases hread
  obtain ⟨hbuffer, hstart⟩ := hjudged.of_unexpected hne
  obtain ⟨paren, hmem, hparen⟩ : ∃ c ∈ Text.trim line, Token.isParenthesis c = true := by
    rcases hstart with ⟨rest, hrun⟩ | ⟨c, hc, hspace⟩
    · apply Text.exists_isParenthesis_of_mem
      left
      rw [← List.count_pos_iff, ← count_opening_tokens, hrun, List.count_cons_self]
      omega
    · rcases Text.isExpressionShaped_iff.mp hbuffer.shaped with hparen | hnone
      · exact hparen
      · rw [hnone c hc] at hspace
        cases hspace
  have hspace : Text.isSpace paren = false := by
    simp only [Token.isParenthesis, Bool.or_eq_true, beq_iff_eq] at hparen
    rcases hparen with rfl | rfl <;> decide
  have hcount := Text.isBalanced_iff.mp hbuffer.balanced
  rw [← count_remaining line (by decide), ← count_remaining line (by decide)] at hcount
  rw [← List.count_pos_iff, ← count_remaining line hspace, List.count_pos_iff] at hmem
  exact ⟨presentable_of_isParenthesis hmem hparen hcount, hstart⟩

theorem ofText_of_unexpected {token : Token} (hfollows : Follows (tokens line) token)
    (hread : Tree.ofText (Text.trim line) = .error (.unexpectedToken token.text)) :
    Tree.ofText line = Tree.ofText (Text.trim line) := by
  obtain ⟨hbuffer, hstart⟩ := presentable_of_unexpected hread
  rw [hread]
  generalize hrun : tokens line = run at hfollows
  cases hfollows with
  | group hinner =>
    obtain ⟨items, hspells⟩ := exists_spells_of_nested _ hinner
    exact readOne_of_group hbuffer hrun hspells
  | item hitem =>
    have hspace : ∃ c ∈ (ofText line).remaining, Text.isSpace c = true := by
      by_cases hleading : ∀ c ∈ Text.leading line, Text.isBlank c = true
      · rw [remaining_of_leading hleading]
        rcases hstart with ⟨rest, htrim⟩ | hspace
        · exact absurd htrim (tokens_trim_ne_opening hleading hrun hitem)
        · exact hspace
      · exact exists_mem_isSpace_remaining hleading hbuffer.ne_nil
    exact readOne_of_item hbuffer hrun hitem (.inr (List.any_eq_true.mpr hspace))

theorem ofText_trim_of_trimSafe (hsafe : TrimSafe line) :
    Tree.ofText line = Tree.ofText (Text.trim line) := by
  cases hsafe with
  | blanks hends => exact ofText_of_blankEnds hends
  | refused hleading hread => exact ofText_of_refused hleading hread
  | symbol hleading hrun hitem hread => exact ofText_of_symbol hleading hrun hitem hread
  | unexpected hfollows hread => exact ofText_of_unexpected hfollows hread
  | uneven hcount =>
    have htrim : (Text.trim line).count '(' ≠ (Text.trim line).count ')' := by
      rw [Text.count_trim (by decide), Text.count_trim (by decide)]
      exact hcount
    rw [ofText_of_count_ne hcount, ofText_of_count_ne htrim]

end Alike

section Differing

variable {line : List Char} {env : Environment}

/-- Where a line starts with a space that is no blank, only the token behind its
    first expression can be what the trimmed line is refused for as well. -/
theorem trimSafe_of_not_leading (hcount : line.count '(' = line.count ')')
    (hleading : ¬ ∀ c ∈ Text.leading line, Text.isBlank c = true)
    (herror : ∀ error, Tree.ofText line = .error error →
      Tree.ofText (Text.trim line) = .error error) : TrimSafe line := by
  obtain ⟨first, others, hfirst, hitem⟩ := exists_item_of_leading hleading
  have hspace := exists_mem_isSpace_remaining hleading
  have hjudged : Judged (tokens line) (ofText line).remaining (Tree.ofText line) :=
    judged_readOne line
  rw [hfirst] at hjudged
  generalize hresult : Tree.ofText line = result at hjudged
  cases hjudged with
  | blank hbuffer =>
    have htrim := herror _ hresult
    exact absurd hbuffer (presentable_of_unexpected htrim).1.ne_nil
  | malformed hne =>
    have htrim := judged_trim line
    rw [herror _ hresult] at htrim
    have htrim := String.ofList_inj.mp htrim.of_malformed
    obtain ⟨c, rest, hremaining, hc⟩ := exists_isSpace_remaining hleading hne
    have hnone := Text.leading_trim line
    rw [← htrim, hremaining, Text.leading, List.takeWhile_cons_of_pos hc] at hnone
    cases hnone
  | unbalanced _ _ _ hbalanced =>
    rw [← Bool.not_eq_true, Text.isBalanced_iff, count_remaining line (by decide),
      count_remaining line (by decide), Text.count_trim (by decide),
      Text.count_trim (by decide)] at hbalanced
    exact absurd hcount hbalanced
  | group _ hrun =>
    obtain ⟨rfl, -⟩ := List.cons.inj hrun
    cases hitem
  | closing _ hrun =>
    obtain ⟨rfl, -⟩ := List.cons.inj hrun
    cases hitem
  | compound hbuffer _ _ _ hnone =>
    obtain ⟨c, hc, hc'⟩ := hspace hbuffer.ne_nil
    rw [hnone c hc] at hc'
    cases hc'
  | @item token rest hbuffer hrun _ _ =>
    rw [hrun] at hfirst
    cases rest with
    | nil =>
      obtain ⟨c, hc, hc'⟩ := hspace hbuffer.ne_nil
      obtain ⟨rfl, -⟩ := List.cons.inj hrun
      rw [isSpace_of_single line hbuffer.shaped hfirst hitem c hc] at hc'
      cases hc'
    | cons next rest =>
      obtain ⟨rfl, -⟩ := List.cons.inj hrun
      exact .unexpected (by rw [hfirst]; exact .item hitem) (herror _ hresult)

/-- If a line that starts with blanks only is a symbol, then the trimmed line does
    the same as the same symbol only. -/
theorem ofText_trim_eq_symbol {first : Token} {rest : List Token} {name : String}
    (hleading : ∀ c ∈ Text.leading line, Text.isBlank c = true) (hne : Text.trim line ≠ [])
    (hrun : tokens line = first :: rest) (hitem : first.isItem = true)
    (hread : Tree.ofText line = .ok (.atom (.symbol name)))
    (halike : interpretLine line env = interpretLine (Text.trim line) env) :
    Tree.ofText (Text.trim line) = .ok (.atom (.symbol name)) := by
  cases htrim : Tree.ofText (Text.trim line) with
  | error error =>
    have hinterpret : (interpretLine line env).1 = .error (.reading error) := by
      rw [halike, interpretLine, htrim]
    rw [ofText_of_interpretLine (Tree.ofText_error htrim) hinterpret] at hread
    cases hread
  | ok tree =>
    have hjudged := judged_trim line
    rw [htrim] at hjudged
    obtain ⟨value, rfl⟩ :=
      hjudged.exists_atom hne fun _ => tokens_trim_ne_opening hleading hrun hitem
    rw [eq_symbol_of_interpretLine_eq hread htrim halike]

/-- A line that is a single item together with the spaces it ends in is a longer
    symbol than the trimmed one. -/
theorem interpretLine_ne_of_single {token : Token}
    (hleading : ∀ c ∈ Text.leading line, Text.isBlank c = true)
    (htrailing : ¬ ∀ c ∈ Text.trailing line, Text.isBlank c = true)
    (hbuffer : Presentable (Text.trim line)) (hrun : tokens line = [token])
    (hitem : token.isItem = true) :
    interpretLine line env ≠ interpretLine (Text.trim line) env := by
  intro halike
  have hline : Tree.ofText line = .ok (.atom (.ofToken token)) :=
    ofText_of_judged hleading (.item hbuffer hrun hitem (.inl rfl))
  have hwhole := hrun
  rw [tokens_of_leading hleading hbuffer.ne_nil] at hwhole
  obtain ⟨taken, htaken, rfl, hall⟩ := exists_operator_of_tokens_append
    (isBlank_of_mem_head?_trim line) hbuffer.ne_nil (fun c => Text.isSpace_of_mem_trailing)
    htrailing hitem hwhole
  rw [Atom.ofToken_operator (by simp [htaken]) hall] at hline
  have htrim := ofText_trim_eq_symbol hleading hbuffer.ne_nil hrun hitem hline halike
  have hall' : ∀ c ∈ Text.trim line, Token.isOperatorChar c = true := by
    intro c hc
    exact hall c (List.mem_append_left taken hc)
  have hsingle : tokens (Text.trim line) = [.operator (Text.trim line)] := by
    cases hcons : Text.trim line with
    | nil => exact absurd hcons hbuffer.ne_nil
    | cons c rest => exact tokens_operator (by rw [← hcons]; exact hall')
  have hjudged : Judged (tokens (Text.trim line)) (ofText (Text.trim line)).remaining
      (.ok (.atom (.ofToken (.operator (Text.trim line))))) := by
    rw [remaining_trim, hsingle]
    exact .item hbuffer rfl rfl (.inl rfl)
  have hread : Tree.ofText (Text.trim line) = _ := hjudged.readOne_eq
  rw [htrim, Atom.ofToken_operator hbuffer.ne_nil hall'] at hread
  simp only [Except.ok.injEq, Tree.atom.injEq, Atom.symbol.injEq, String.ofList_inj,
    List.append_right_eq_self] at hread
  exact htaken hread

/-- Where a line starts with blanks only and ends in a space that is none, its
    tokens are told apart from those of the trimmed line. -/
theorem trimSafe_of_leading (hleading : ∀ c ∈ Text.leading line, Text.isBlank c = true)
    (hends : ¬ Text.BlankEnds line)
    (halike : interpretLine line env = interpretLine (Text.trim line) env)
    (herror : ∀ error, Tree.ofText line = .error error →
      Tree.ofText (Text.trim line) = .error error) : TrimSafe line := by
  have htrailing : ¬ ∀ c ∈ Text.trailing line, Text.isBlank c = true := fun h => hends ⟨hleading, h⟩
  have hjudged := judged_of_leading hleading
  generalize hresult : Tree.ofText line = result at hjudged
  cases hjudged with
  | blank hbuffer =>
    have hall := isBlank_of_trim_eq_nil hleading hbuffer
    exact absurd (fun c hc => hall c (Text.mem_of_mem_trailing hc)) htrailing
  | malformed => exact .refused hleading (.inr (herror _ hresult))
  | unbalanced => exact .refused hleading (.inl (herror _ hresult))
  | closing => exact .refused hleading (.inl (herror _ hresult))
  | @group inner rest items hbuffer hrun hspells =>
    cases rest with
    | nil =>
      have hlast : tokens line = (.opening :: inner) ++ [.closing] := hrun
      exact absurd (isBlank_trailing_of_closing hlast) htrailing
    | cons next rest =>
      exact .unexpected (by rw [hrun]; exact .group hspells.nested) (herror _ hresult)
  | @compound token rest hbuffer hrun hitem hrest =>
    have htrim := ofText_trim_eq_symbol hleading hbuffer.ne_nil hrun hitem hresult halike
    cases rest with
    | nil => exact absurd rfl hrest
    | cons next rest => exact .symbol hleading hrun hitem htrim
  | @item token rest hbuffer hrun hitem _ =>
    cases rest with
    | nil =>
      exact absurd halike (interpretLine_ne_of_single hleading htrailing hbuffer hrun hitem)
    | cons next rest =>
      exact .unexpected (by rw [hrun]; exact .item hitem) (herror _ hresult)

/-- A line and the trimmed line do the same in an environment just where they are
    read alike, so it does not matter in which. -/
theorem interpretLine_eq_interpretLine_trim_iff (line : List Char) (env : Environment) :
    interpretLine line env = interpretLine (Text.trim line) env ↔ TrimSafe line := by
  constructor
  · intro halike
    have herror : ∀ error, Tree.ofText line = .error error →
        Tree.ofText (Text.trim line) = .error error := by
      intro error hread
      have hinterpret : (interpretLine (Text.trim line) env).1 = .error (.reading error) := by
        rw [← halike, interpretLine, hread]
      exact ofText_of_interpretLine (Tree.ofText_error hread) hinterpret
    by_cases hcount : line.count '(' = line.count ')'
    · by_cases hleading : ∀ c ∈ Text.leading line, Text.isBlank c = true
      · by_cases hends : Text.BlankEnds line
        · exact .blanks hends
        · exact trimSafe_of_leading hleading hends halike herror
      · exact trimSafe_of_not_leading hcount hleading herror
    · exact .uneven hcount
  · intro hsafe
    rw [interpretLine, interpretLine, ofText_trim_of_trimSafe hsafe]

/-- With a no-break space behind it a truth value is a name to a script, which
    has no value there, and still the truth value to a session. -/
theorem interpretLine_no_break_space :
    '\n' ∉ ['T', '\u00a0'] ∧ Script.isSkippable ['T', '\u00a0'] = false ∧
    Text.trim ['T', '\u00a0'] = ['T'] ∧ ['T'] ≠ Session.quit ∧
    (interpretLine ['T', '\u00a0'] .empty).1.toOption.map Interpretation.value = none ∧
    (interpretLine ['T'] .empty).1.toOption.map Interpretation.value = some true := by
  decide +kernel

end Differing

end PrefixLogic
