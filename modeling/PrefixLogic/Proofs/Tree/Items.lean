import PrefixLogic.Proofs.Tree.Spelling
import PrefixLogic.Tree.Reader

namespace PrefixLogic.Scanner

/-- The closing parenthesis that is found is the one before which everything is
    closed that was open, and it alone. -/
theorem findClosing?_eq_some_iff {depth : Nat} {lexemes rest : List Lexeme} {closing : Lexeme} :
    findClosing? depth lexemes = some (closing, rest) ↔
      ∃ inner, lexemes = inner ++ closing :: rest ∧ closing.token = .closing ∧
        Closes .opening .closing depth (inner.map Lexeme.token) := by
  constructor
  · intro hfind
    induction lexemes generalizing depth with
    | nil => cases hfind
    | cons lexeme lexemes ih =>
      rw [findClosing?.eq_def] at hfind
      dsimp only at hfind
      split at hfind
      · rename_i htoken
        obtain ⟨inner, rfl, hclosing, hinner⟩ := ih hfind
        refine ⟨lexeme :: inner, rfl, hclosing, ?_⟩
        rw [List.map_cons, htoken, closes_opening_iff Token.opening_ne_closing]
        exact hinner
      · rename_i htoken
        split at hfind
        · cases hfind
          exact ⟨[], rfl, htoken, closes_nil_iff.mpr rfl⟩
        · obtain ⟨inner, rfl, hclosing, hinner⟩ := ih hfind
          refine ⟨lexeme :: inner, rfl, hclosing, ?_⟩
          rw [List.map_cons, htoken, closes_closing_iff Token.opening_ne_closing]
          exact hinner
      · rename_i hopening hclosing'
        obtain ⟨inner, rfl, hclosing, hinner⟩ := ih hfind
        refine ⟨lexeme :: inner, rfl, hclosing, ?_⟩
        rw [List.map_cons, closes_other_iff hopening hclosing']
        exact hinner
  · rintro ⟨inner, rfl, hclosing, hinner⟩
    induction inner generalizing depth with
    | nil =>
      rw [closes_nil_iff.mp hinner, List.nil_append, findClosing?, hclosing]
    | cons lexeme inner ih =>
      rw [List.map_cons] at hinner
      rw [List.cons_append, findClosing?.eq_def]
      dsimp only
      split
      · rename_i htoken
        rw [htoken, closes_opening_iff Token.opening_ne_closing] at hinner
        exact ih hinner
      · rename_i htoken
        rw [htoken] at hinner
        cases depth with
        | zero => exact absurd hinner (not_closes_closing Token.opening_ne_closing)
        | succ depth =>
          rw [closes_closing_iff Token.opening_ne_closing] at hinner
          exact ih hinner
      · rename_i hopening hclosing'
        rw [closes_other_iff hopening hclosing'] at hinner
        exact ih hinner

/-- The tokens that are left, without their places. -/
def pendingTokens (scanner : Scanner) : List Token :=
  scanner.pending.map Lexeme.token

theorem pendingTokens_ofText (source : List Char) : (ofText source).pendingTokens = tokens source :=
  rfl

/-- A scanner that has just taken an opening parenthesis. -/
structure Behind (scanner : Scanner) (opening : Lexeme) : Prop where
  token_eq : opening.token = .opening
  suffix : opening :: scanner.pending <:+ lex scanner.source

theorem behind_of_next? {scanner after : Scanner} {opening : Lexeme}
    (hnext : scanner.next? = some (opening, after)) (htoken : opening.token = .opening) :
    after.Behind opening := by
  obtain ⟨hpending, hsource⟩ := next?_eq_some_iff.mp hnext
  refine ⟨htoken, ?_⟩
  rw [hsource, ← hpending]
  exact scanner.suffix

/-- What is taken of a group is the text that stands between its two parentheses, and the
    tokens that stand there are those of that text. -/
theorem exists_takeGroup_eq {scanner : Scanner} {opening closing : Lexeme}
    {inner rest : List Lexeme} (hbehind : scanner.Behind opening)
    (hpending : scanner.pending = inner ++ closing :: rest) (hclosing : closing.token = .closing)
    (hinner : Nested .opening .closing (inner.map Lexeme.token)) :
    ∃ before group behind after, scanner.source = before ++ '(' :: (group ++ ')' :: behind) ∧
      opening.start = Text.byteLength before ∧
      closing.start = opening.stop + Text.byteLength group ∧
      inner = lexFrom opening.stop group ∧ scanner.takeGroup opening = (.ok group, after) ∧
      after.source = scanner.source ∧ after.pending = rest := by
  obtain ⟨htoken, front, hfront⟩ := hbehind
  obtain ⟨before, text, hsource, hstart, -, htext⟩ :=
    exists_split_at_parenthesis (.inl htoken) hfront.symm
  rw [hpending] at htext
  obtain ⟨group, behind, rfl, hstop, hgroup, -⟩ :=
    exists_split_at_parenthesis (.inr hclosing) htext.symm
  have hslice : Text.byteSlice scanner.source opening.stop closing.start = group := by
    have hopening : opening.stop = Text.byteLength (before ++ opening.token.chars) := by
      rw [Lexeme.stop, hstart, Nat.zero_add, Text.byteLength_append]
    rw [hstop, hopening, hsource, List.append_assoc group, ← List.append_assoc (_ ++ _) group,
      Text.byteSlice_append]
  have hfind : findClosing? 0 scanner.pending = some (closing, rest) :=
    findClosing?_eq_some_iff.mpr ⟨inner, hpending, hclosing, closes_zero_iff_nested.mpr hinner⟩
  refine ⟨before, group, behind, (scanner.takeGroup opening).2, ?_, ?_, hstop, hgroup, ?_,
    source_takeGroup scanner opening, ?_⟩
  · rw [hsource, htoken, hclosing]
    simp [Token.chars]
  · rw [hstart, Nat.zero_add]
  · rw [takeGroup]
    split
    · rename_i hnone
      rw [hnone] at hfind
      cases hfind
    · rename_i hsome
      rw [hsome] at hfind
      cases hfind
      rw [hslice]
  · rw [takeGroup]
    split
    · rename_i hnone
      rw [hnone] at hfind
      cases hfind
    · rename_i hsome
      rw [hsome] at hfind
      cases hfind
      rfl

/-- The text of a group, split into tokens anew, gives the tokens that stand
    between its parentheses. -/
theorem takeGroup_of_nested {scanner : Scanner} {opening closing : Lexeme}
    {inner rest : List Lexeme} (hbehind : scanner.Behind opening)
    (hpending : scanner.pending = inner ++ closing :: rest) (hclosing : closing.token = .closing)
    (hinner : Nested .opening .closing (inner.map Lexeme.token)) :
    ∃ group after, scanner.takeGroup opening = (.ok group, after) ∧
      tokens group = inner.map Lexeme.token ∧ after.source = scanner.source ∧
      after.pending = rest := by
  obtain ⟨-, group, -, after, -, -, -, hgroup, htake, hsource, hrest⟩ :=
    exists_takeGroup_eq hbehind hpending hclosing hinner
  exact ⟨group, after, htake, by rw [hgroup, map_token_lexFrom], hsource, hrest⟩

/-- Taking a group fails where no parenthesis closes it, and only there. -/
theorem takeGroup_cases (scanner : Scanner) (opening : Lexeme) :
    (∃ inner closing rest, scanner.pending = inner ++ closing :: rest ∧
      closing.token = .closing ∧ Nested .opening .closing (inner.map Lexeme.token)) ∨
    scanner.takeGroup opening = (.error .unbalanced, scanner.drain) := by
  cases hfind : findClosing? 0 scanner.pending with
  | some found =>
    obtain ⟨inner, hpending, hclosing, hinner⟩ := findClosing?_eq_some_iff.mp hfind
    exact .inl ⟨inner, found.1, found.2, hpending, hclosing, closes_zero_iff_nested.mp hinner⟩
  | none =>
    right
    rw [takeGroup]
    split
    · rfl
    · rename_i hsome
      rw [hsome] at hfind
      cases hfind

theorem exists_next?_of_pending {scanner : Scanner} {lexeme : Lexeme} {rest : List Lexeme}
    (hpending : scanner.pending = lexeme :: rest) :
    ∃ after, scanner.next? = some (lexeme, after) ∧ after.pending = rest ∧
      after.source = scanner.source := by
  let after := scanner.keep rest (hpending ▸ List.suffix_cons _ _)
  exact ⟨after, next?_eq_some_iff.mpr ⟨hpending, rfl⟩, rfl, rfl⟩

/-- Taking a token, said of the tokens alone. -/
theorem exists_next?_of_run {scanner : Scanner} {token : Token} {rest : List Token}
    (hrun : scanner.pendingTokens = token :: rest) :
    ∃ lexeme after, scanner.next? = some (lexeme, after) ∧ lexeme.token = token ∧
      after.pendingTokens = rest ∧ after.source = scanner.source := by
  obtain ⟨lexeme, pending, hpending, htoken, hrest⟩ := List.map_eq_cons_iff.mp hrun
  obtain ⟨after, hnext, hafter, hsource⟩ := exists_next?_of_pending hpending
  exact ⟨lexeme, after, hnext, htoken, by rw [pendingTokens, hafter, hrest], hsource⟩

/-- Taking a group, said of the tokens alone. -/
theorem exists_takeGroup_of_run {scanner : Scanner} {inner rest : List Token}
    (hrun : scanner.pendingTokens = .opening :: (inner ++ .closing :: rest))
    (hinner : Nested .opening .closing inner) :
    ∃ opening after group behind, scanner.next? = some (opening, after) ∧
      opening.token = .opening ∧ after.takeGroup opening = (.ok group, behind) ∧
      tokens group = inner ∧ behind.pendingTokens = rest ∧ behind.source = scanner.source := by
  obtain ⟨opening, after, hnext, hopening, hafter, hsource⟩ := exists_next?_of_run hrun
  obtain ⟨innerLexemes, others, hpending, rfl, hothers⟩ := List.map_eq_append_iff.mp hafter
  obtain ⟨closing, restLexemes, rfl, hclosing, hrest⟩ := List.map_eq_cons_iff.mp hothers
  obtain ⟨group, behind, htake, hgroup, hsame, hbehind⟩ :=
    takeGroup_of_nested (behind_of_next? hnext hopening) hpending hclosing hinner
  refine ⟨opening, after, group, behind, hnext, hopening, htake, hgroup, ?_, hsame.trans hsource⟩
  rw [pendingTokens, hbehind, hrest]

/-- Draining forgets which tokens were left. -/
theorem drain_eq_of_source_eq {a b : Scanner} (hsource : a.source = b.source) :
    a.drain = b.drain :=
  eq_of_source_pending hsource rfl

/-- Reading finds the items that the tokens left spell, however often the text of
    a group is cut out and split anew, and takes every token. -/
theorem readItems_of_spells {run : List Token} {items : List Tree} (hspells : Spells run items)
    (scanner : Scanner) (hrun : scanner.pendingTokens = run) :
    scanner.readItems = (.ok items, scanner.drain) := by
  induction hspells generalizing scanner with
  | nil =>
    have hpending : scanner.pending = [] := List.map_eq_nil_iff.mp hrun
    have hdrain : scanner.drain = scanner := eq_of_source_pending rfl hpending.symm
    rw [readItems_eq, next?_eq_none_iff.mpr hpending, hdrain]
  | @atom token rest items hitem _ ih =>
    obtain ⟨lexeme, after, hnext, htoken, hafter, hsource⟩ := exists_next?_of_run hrun
    have hread := ih after hafter
    rw [drain_eq_of_source_eq hsource] at hread
    rw [readItems_eq, hnext]
    dsimp only
    rw [htoken, hread]
    cases token with
    | opening => cases hitem
    | closing => cases hitem
    | _ => rfl
  | group hinner _ ihinner ihrest =>
    obtain ⟨opening, after, group, behind, hnext, hopening, htake, hgroup, hbehind, hsource⟩ :=
      exists_takeGroup_of_run hrun hinner.nested
    have hreadInner := ihinner (ofText group) hgroup
    have hreadRest := ihrest behind hbehind
    rw [drain_eq_of_source_eq hsource] at hreadRest
    rw [readItems_eq, hnext]
    dsimp only
    rw [hopening]
    dsimp only
    rw [htake]
    dsimp only
    rw [hreadInner]
    dsimp only
    rw [hreadRest]
    rfl

/-- Where the tokens left are not properly nested, reading them as items fails,
    and always with the same error. -/
theorem readItems_of_not_nested (scanner : Scanner)
    (hnested : ¬ Nested .opening .closing scanner.pendingTokens) :
    scanner.readItems.1 = .error .unbalanced := by
  induction hlength : scanner.pending.length using Nat.strongRecOn generalizing scanner with
  | ind n ih =>
    cases hnext : scanner.next? with
    | none =>
      have hrun : scanner.pendingTokens = [] := by
        rw [pendingTokens, next?_eq_none_iff.mp hnext, List.map_nil]
      rw [hrun] at hnested
      exact absurd Spells.nil.nested hnested
    | some taken =>
      obtain ⟨lexeme, after⟩ := taken
      obtain ⟨hpending, -⟩ := next?_eq_some_iff.mp hnext
      have hrun : scanner.pendingTokens = lexeme.token :: after.pendingTokens := by
        rw [pendingTokens, hpending, List.map_cons, pendingTokens]
      rw [hrun] at hnested
      rw [hpending, List.length_cons] at hlength
      rw [readItems_eq, hnext]
      dsimp only
      split
      · rename_i hopening
        rcases takeGroup_cases after lexeme with
          ⟨inner, closing, rest, hsplit, hclosing, hinner⟩ | hunclosed
        · obtain ⟨group, behind, htake, hgroup, -, hbehind⟩ :=
            takeGroup_of_nested (behind_of_next? hnext hopening) hsplit hclosing hinner
          obtain ⟨innerItems, hspells⟩ := exists_spells_of_nested _ hinner
          have hrest : ¬ Nested .opening .closing behind.pendingTokens := by
            intro hrest
            apply hnested
            rw [hopening, pendingTokens, hsplit, List.map_append, List.map_cons, hclosing,
              nested_group_iff Token.opening_ne_closing hinner, ← hbehind]
            exact hrest
          have hshorter : behind.pending.length < n := by
            rw [hsplit, List.length_append, List.length_cons] at hlength
            rw [hbehind]
            omega
          rw [htake]
          dsimp only
          rw [readItems_of_spells hspells (ofText group) hgroup]
          dsimp only
          rw [ih _ hshorter behind hrest rfl]
          rfl
        · rw [hunclosed]
      · rfl
      · rename_i hopening hclosing
        rw [← closes_zero_iff_nested, closes_other_iff hopening hclosing,
          closes_zero_iff_nested] at hnested
        dsimp only
        rw [ih after.pending.length (by omega) after hnested rfl]
        rfl

/-- Reading a whole source as items is reading its tokens in one pass: the text
    is never split anew in another place, and nothing is lost, doubled or moved.
    It succeeds where the parentheses are properly nested and fails elsewhere,
    always with the same error. -/
theorem readAll_ofText_eq_ofTokens (source : List Char) :
    (ofText source).readAll.1 = Tree.ofTokens (tokens source) ∧
    (Nested .opening .closing (tokens source) →
      ∃ items, Spells (tokens source) items ∧
        (ofText source).readAll.1 = .ok (Tree.ofList items)) ∧
    (¬ Nested .opening .closing (tokens source) →
      (ofText source).readAll.1 = .error .unbalanced) := by
  have hread : ∀ items, Spells (tokens source) items →
      (ofText source).readAll.1 = .ok (Tree.ofList items) := by
    intro items hspells
    have hitems := readItems_of_spells hspells (ofText source) (pendingTokens_ofText source)
    rw [readAll, readList, hitems]
    rfl
  have hfail : ¬ Nested .opening .closing (tokens source) →
      (ofText source).readAll.1 = .error .unbalanced := by
    intro hnested
    have herror := readItems_of_not_nested (ofText source) hnested
    generalize hitems : (ofText source).readItems = result at herror
    obtain ⟨read, last⟩ := result
    cases herror
    rw [readAll, readList, hitems]
    rfl
  refine ⟨?_, fun hnested => ?_, hfail⟩
  · by_cases hnested : Nested .opening .closing (tokens source)
    · obtain ⟨items, hspells⟩ := exists_spells_of_nested _ hnested
      rw [hread items hspells, hspells.ofTokens_eq]
    · rw [hfail hnested, Tree.ofTokens_of_not_nested hnested]
  · obtain ⟨items, hspells⟩ := exists_spells_of_nested _ hnested
    exact ⟨items, hspells, hread items hspells⟩

end PrefixLogic.Scanner
