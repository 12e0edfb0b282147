import PrefixLogic.Proofs.Tree.Verdict

namespace PrefixLogic

open Scanner

/-- Why a source is no single expression. Its parentheses are counted, and none of
    them may close before the first opens. Without parentheses the shape of the
    buffer is judged. Everything else is refused for the token behind what is read
    first: behind nothing where the buffer is empty, behind a group, or behind an
    item. -/
inductive Refused (source : List Char) : SyntaxError → Prop where
  | unbalanced
      (hparens : source.count '(' ≠ source.count ')' ∨ ∃ rest, tokens source = .closing :: rest) :
      Refused source .unbalanced
  | malformed (hne : (ofText source).remaining ≠ [])
      (hnone : ∀ c ∈ source, Token.isParenthesis c = false)
      (hshape : (∃ c ∈ (ofText source).remaining, Text.isSpace c = true) ∨
        1 < (ofText source).remaining.length ∧
          ∀ c ∈ (ofText source).remaining, Text.isAlphanumeric c = false) :
      Refused source (.malformed (String.ofList (ofText source).remaining))
  | behindNothing {token : Token} {rest : List Token} (hbuffer : (ofText source).remaining = [])
      (hrun : tokens source = token :: rest) : Refused source (.unexpectedToken token.text)
  | behindGroup {inner rest : List Token} {token : Token}
      (hcount : source.count '(' = source.count ')')
      (hrun : tokens source = .opening :: (inner ++ .closing :: token :: rest))
      (hinner : Nested .opening .closing inner) : Refused source (.unexpectedToken token.text)
  | behindItem {first token : Token} {rest : List Token}
      (hcount : source.count '(' = source.count ')')
      (hparen : ∃ c ∈ source, Token.isParenthesis c = true)
      (hspace : ∃ c ∈ (ofText source).remaining, Text.isSpace c = true)
      (hrun : tokens source = first :: token :: rest) (hitem : first.isItem = true) :
      Refused source (.unexpectedToken token.text)

theorem settle_eq_error {α : Type} {value : α} {run : List Token} {error : SyntaxError}
    (herror : settle value run = .error error) :
    ∃ token rest, run = token :: rest ∧ error = .unexpectedToken token.text := by
  cases run with
  | nil => cases herror
  | cons token rest =>
    cases herror
    exact ⟨token, rest, rfl, rfl⟩

section Refusals

variable {source : List Char} {error : SyntaxError}

theorem isBalanced_remaining_iff :
    Text.isBalanced (ofText source).remaining = true ↔ source.count '(' = source.count ')' := by
  rw [Text.isBalanced_iff, count_remaining_ofText source (by decide),
    count_remaining_ofText source (by decide)]

theorem exists_isParenthesis_remaining_iff :
    (∃ c ∈ (ofText source).remaining, Token.isParenthesis c = true) ↔
      ∃ c ∈ source, Token.isParenthesis c = true := by
  rw [← Decidable.not_iff_not]
  simpa using forall_isParenthesis_remaining_iff_source source

/-- A source with as many parentheses of one kind as of the other, and with some, passes
    every check before the first token. -/
theorem presentable_of_count_eq (hcount : source.count '(' = source.count ')')
    (hparen : ∃ c ∈ source, Token.isParenthesis c = true) :
    Presentable (ofText source).remaining := by
  obtain ⟨c, hc, hparen⟩ := exists_isParenthesis_remaining_iff.mpr hparen
  exact presentable_of_isParenthesis hc hparen
    (Text.isBalanced_iff.mp (isBalanced_remaining_iff.mpr hcount))

/-- A first token that is a parenthesis shows in the source. -/
theorem exists_isParenthesis_of_tokens {paren : Token} {rest : List Token}
    (hrun : tokens source = paren :: rest) (hparen : paren.isItem = false) :
    ∃ c ∈ source, Token.isParenthesis c = true := by
  rw [← exists_isParenthesis_remaining_iff]
  apply Classical.byContradiction
  intro hnone
  have hitems := (forall_isParenthesis_remaining_iff source).mp (by simpa using hnone)
  rw [hitems paren (by rw [hrun]; exact List.mem_cons_self)] at hparen
  cases hparen

/-- Every reason to refuse a source is one for which it is refused. -/
theorem Refused.readOne_eq (hrefused : Refused source error) :
    (ofText source).readOne.1 = .error error := by
  cases hrefused with
  | unbalanced hparens =>
    by_cases hcount : source.count '(' = source.count ')'
    · obtain ⟨rest, hrun⟩ := hparens.resolve_left (fun hne => hne hcount)
      have hbuffer := presentable_of_count_eq hcount (exists_isParenthesis_of_tokens hrun rfl)
      exact readOne_of_closing hbuffer hrun
    · exact ofText_of_count_ne hcount
  | malformed hne hnone hshape =>
    have hnone := (forall_isParenthesis_remaining_iff_source source).mpr hnone
    refine readOne_of_malformed hne ?_
    rcases hshape with ⟨c, hc, hspace⟩ | ⟨hlength, hglyphs⟩
    · left
      rw [← Bool.not_eq_true, Text.isExpressionShaped_iff]
      rintro (⟨d, hd, hparen⟩ | hpiece)
      · rw [hnone d hd] at hparen
        cases hparen
      · rw [hpiece c hc] at hspace
        cases hspace
    · right
      exact Text.isGlyphRun_iff.mpr ⟨fun c hc => ⟨hglyphs c hc, hnone c hc⟩, hlength⟩
  | behindNothing hbuffer hrun =>
    rw [readOne_of_remaining_eq_nil hbuffer, pendingTokens_ofText, hrun]
    rfl
  | behindGroup hcount hrun hinner =>
    obtain ⟨items, hspells⟩ := exists_spells_of_nested _ hinner
    have hbuffer := presentable_of_count_eq hcount (exists_isParenthesis_of_tokens hrun rfl)
    exact readOne_of_group hbuffer hrun hspells
  | behindItem hcount hparen hspace hrun hitem =>
    have hbuffer := presentable_of_count_eq hcount hparen
    exact readOne_of_item hbuffer hrun hitem (.inr (List.any_eq_true.mpr hspace))

/-- A source that is refused is refused for one of the reasons. -/
theorem refused_of_readOne (hread : (ofText source).readOne.1 = .error error) :
    Refused source error := by
  have hjudged := judged_readOne source
  rw [hread] at hjudged
  generalize hresult : (Except.error error : Except SyntaxError Tree) = result at hjudged
  cases hjudged with
  | blank hbuffer =>
    obtain ⟨token, rest, hrun, rfl⟩ := settle_eq_error hresult.symm
    exact .behindNothing hbuffer hrun
  | malformed hne hshape =>
    cases hresult
    rcases hshape with hshape | hglyphs
    · rw [← Bool.not_eq_true, Text.isExpressionShaped_iff, not_or] at hshape
      obtain ⟨hnone, hspace⟩ := hshape
      refine .malformed hne ?_ (.inl (by simpa using hspace))
      exact (forall_isParenthesis_remaining_iff_source source).mp (by simpa using hnone)
    · obtain ⟨hall, hlength⟩ := Text.isGlyphRun_iff.mp hglyphs
      refine .malformed hne ?_ (.inr ⟨hlength, fun c hc => (hall c hc).1⟩)
      exact (forall_isParenthesis_remaining_iff_source source).mp fun c hc => (hall c hc).2
  | unbalanced _ _ _ hbalanced =>
    cases hresult
    rw [← Bool.not_eq_true, isBalanced_remaining_iff] at hbalanced
    exact .unbalanced (.inl hbalanced)
  | group hbuffer hrun hspells =>
    obtain ⟨token, rest, rfl, rfl⟩ := settle_eq_error hresult.symm
    exact .behindGroup (isBalanced_remaining_iff.mp hbuffer.balanced) hrun hspells.nested
  | closing _ hrun =>
    cases hresult
    exact .unbalanced (.inr ⟨_, hrun⟩)
  | compound => cases hresult
  | item hbuffer hrun hitem hrest =>
    obtain ⟨token, rest, rfl, rfl⟩ := settle_eq_error hresult.symm
    -- Only a space keeps an item apart from the tokens behind it, and a buffer with a
    -- space gets this far for the sake of its parentheses alone.
    obtain ⟨c, hc, hspace⟩ := hrest.resolve_left (List.cons_ne_nil token rest)
    have hparen : ∃ d ∈ (ofText source).remaining, Token.isParenthesis d = true := by
      refine (Text.isExpressionShaped_iff.mp hbuffer.shaped).resolve_right fun hpiece => ?_
      rw [hpiece c hc] at hspace
      cases hspace
    exact .behindItem (isBalanced_remaining_iff.mp hbuffer.balanced)
      (exists_isParenthesis_remaining_iff.mp hparen) ⟨c, hc, hspace⟩ hrun hitem

end Refusals

namespace Scanner

/-- The scanners that reading the items of one comes to: behind each item, in the
    text of each group, and behind each group. -/
inductive Reached (start : Scanner) : Scanner → Prop where
  | start : Reached start start
  | item {scanner after : Scanner} {lexeme : Lexeme} (hreached : Reached start scanner)
      (hnext : scanner.next? = some (lexeme, after)) (hitem : lexeme.token.isItem = true) :
      Reached start after
  | inside {scanner after behind : Scanner} {opening : Lexeme} {group : List Char}
      (hreached : Reached start scanner) (hnext : scanner.next? = some (opening, after))
      (hopening : opening.token = .opening)
      (htake : after.takeGroup opening = (.ok group, behind)) : Reached start (ofText group)
  | behind {scanner after behind : Scanner} {opening : Lexeme} {group : List Char}
      (hreached : Reached start scanner) (hnext : scanner.next? = some (opening, after))
      (hopening : opening.token = .opening)
      (htake : after.takeGroup opening = (.ok group, behind)) : Reached start behind

section Steps

variable {scanner after : Scanner} {lexeme : Lexeme}

theorem pendingTokens_of_next? (hnext : scanner.next? = some (lexeme, after)) :
    scanner.pendingTokens = lexeme.token :: after.pendingTokens := by
  rw [pendingTokens, (next?_eq_some_iff.mp hnext).1, List.map_cons, pendingTokens]

/-- Where the tokens left are properly nested, a group that comes first is closed,
    and so are the groups in it and behind it. -/
theorem exists_takeGroup_of_nested (hnested : Nested .opening .closing scanner.pendingTokens)
    (hnext : scanner.next? = some (lexeme, after)) (hopening : lexeme.token = .opening) :
    ∃ group behind, after.takeGroup lexeme = (.ok group, behind) ∧
      Nested .opening .closing (tokens group) ∧
      Nested .opening .closing behind.pendingTokens := by
  have hrun := pendingTokens_of_next? hnext
  rw [hrun, hopening] at hnested
  obtain ⟨inner, rest, hafter, hinner, hrest⟩ := hnested.exists_group
  rw [hopening, hafter] at hrun
  obtain ⟨opening, next, group, behind, htaken, -, htake, hgroup, hbehind, -⟩ :=
    exists_takeGroup_of_run hrun hinner
  rw [hnext] at htaken
  cases htaken
  exact ⟨group, behind, htake, hgroup ▸ hinner, hbehind ▸ hrest⟩

theorem nested_of_item (hnested : Nested .opening .closing scanner.pendingTokens)
    (hnext : scanner.next? = some (lexeme, after)) (hitem : lexeme.token.isItem = true) :
    Nested .opening .closing after.pendingTokens := by
  rw [pendingTokens_of_next? hnext, ← closes_zero_iff_nested,
    closes_other_iff (Token.ne_opening_of_isItem hitem) (Token.ne_closing_of_isItem hitem),
    closes_zero_iff_nested] at hnested
  exact hnested

end Steps

/-- Reading never comes from tokens that are properly nested to others that are not. -/
theorem Reached.nested {start scanner : Scanner} (hreached : Reached start scanner)
    (hstart : Nested .opening .closing start.pendingTokens) :
    Nested .opening .closing scanner.pendingTokens := by
  induction hreached with
  | start => exact hstart
  | item _ hnext hitem ih => exact nested_of_item ih hnext hitem
  | inside _ hnext hopening htake ih =>
    obtain ⟨group, behind, htaken, hgroup, -⟩ := exists_takeGroup_of_nested ih hnext hopening
    rw [htake] at htaken
    cases htaken
    exact hgroup
  | behind _ hnext hopening htake ih =>
    obtain ⟨group, behind, htaken, -, hbehind⟩ := exists_takeGroup_of_nested ih hnext hopening
    rw [htake] at htaken
    cases htaken
    exact hbehind

theorem exists_readList_of_nested {scanner : Scanner}
    (hnested : Nested .opening .closing scanner.pendingTokens) :
    ∃ tree, scanner.readList.1 = .ok tree := by
  obtain ⟨items, hspells⟩ := exists_spells_of_nested _ hnested
  refine ⟨.ofList items, ?_⟩
  rw [readList, readItems_of_spells hspells scanner rfl]
  rfl

/-- In a source with as many opening parentheses as closing ones, a group that comes
    first is closed, and so is every group inside it. -/
theorem exists_takeGroup_of_count_eq {source : List Char} {after : Scanner} {opening : Lexeme}
    (hnext : (ofText source).next? = some (opening, after)) (hopening : opening.token = .opening)
    (hcount : source.count '(' = source.count ')') :
    ∃ group behind, after.takeGroup opening = (.ok group, behind) ∧
      Nested .opening .closing (tokens group) := by
  have hrun := pendingTokens_of_next? hnext
  rw [hopening] at hrun
  rw [← isBalanced_remaining_iff, Text.isBalanced_iff] at hcount
  obtain ⟨inner, rest, hafter, hinner⟩ := exists_group_of_count_eq source hrun hcount
  rw [hafter] at hrun
  obtain ⟨first, next, group, behind, htaken, -, htake, hgroup, -⟩ :=
    exists_takeGroup_of_run hrun hinner
  rw [hnext] at htaken
  cases htaken
  exact ⟨group, behind, htake, hgroup ▸ hinner⟩

end Scanner

/-- A source is refused exactly for the reasons given, each with its own error. Once
    the parentheses are counted and the source starts with a group, nothing can go
    wrong inside that group: wherever the reading of it comes to, the list that is
    left is read and every group is closed. -/
theorem readOne_eq_error_iff (source : List Char) :
    (∀ error, (ofText source).readOne.1 = .error error ↔ Refused source error) ∧
    ∀ opening after, (ofText source).next? = some (opening, after) → opening.token = .opening →
      source.count '(' = source.count ')' →
      ∃ group behind, after.takeGroup opening = (.ok group, behind) ∧
        ∀ scanner, Reached (ofText group) scanner →
          (∃ tree, scanner.readList.1 = .ok tree) ∧
          ∀ opening after, scanner.next? = some (opening, after) → opening.token = .opening →
            ∃ group behind, after.takeGroup opening = (.ok group, behind) := by
  refine ⟨fun error => ⟨refused_of_readOne, Refused.readOne_eq⟩, ?_⟩
  intro opening after hnext hopening hcount
  obtain ⟨group, behind, htake, hgroup⟩ := exists_takeGroup_of_count_eq hnext hopening hcount
  refine ⟨group, behind, htake, fun scanner hreached => ?_⟩
  have hnested := hreached.nested hgroup
  refine ⟨exists_readList_of_nested hnested, ?_⟩
  intro opening after hnext hopening
  obtain ⟨group, behind, htake, -⟩ := exists_takeGroup_of_nested hnested hnext hopening
  exact ⟨group, behind, htake⟩

/-- A group, and behind it a parenthesis that closes before the other opens. The
    numbers agree, so the group is read and the parenthesis behind it reported. -/
theorem readOne_group_before_closing :
    ['(', 'a', ')', ')', '('].count '(' = ['(', 'a', ')', ')', '('].count ')' ∧
    (ofText ['(', 'a', ')', ')', '(']).readOne.1 = .error (.unexpectedToken ")") ∧
    ∃ opening after group behind,
      (ofText ['(', 'a', ')', ')', '(']).next? = some (opening, after) ∧
      after.takeGroup opening = (.ok group, behind) ∧
      ∃ tree, (ofText group).readList.1 = .ok tree := by
  have hrun : (ofText ['(', 'a', ')', ')', '(']).pendingTokens =
      .opening :: ([.word ['a']] ++ .closing :: .closing :: [.opening]) := by
    decide +kernel
  have hinner : Nested .opening .closing [Token.word ['a']] :=
    nested_of_forall (by simp)
  obtain ⟨hrefused, hgroup⟩ := readOne_eq_error_iff ['(', 'a', ')', ')', '(']
  obtain ⟨opening, after, hnext, hopening, -⟩ := exists_next?_of_run hrun
  obtain ⟨group, behind, htake, hreached⟩ := hgroup opening after hnext hopening rfl
  exact ⟨rfl, (hrefused _).mpr (.behindGroup rfl hrun hinner), opening, after, group, behind,
    hnext, htake, (hreached _ .start).1⟩

end PrefixLogic
