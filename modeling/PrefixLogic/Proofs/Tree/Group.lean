import PrefixLogic.Proofs.Tree.Paired
import PrefixLogic.Proofs.Tree.Steps

namespace PrefixLogic

/-- A text stands between an opening and a closing parenthesis of a source, and both of its
    ends fall between characters. -/
def Surround (source : List Char) (opening closing : Lexeme) (group : List Char) : Prop :=
  ∃ before behind, source = before ++ '(' :: (group ++ ')' :: behind) ∧
    opening.start = Text.byteLength before ∧
    opening.stop = Text.byteLength (before ++ ['(']) ∧
    closing.start = Text.byteLength (before ++ '(' :: group)

namespace Scanner

/-- The tokens left, cut at the parenthesis that closes the group which is open. -/
structure ClosesAt (scanner : Scanner) (inner : List Lexeme) (closing : Lexeme)
    (rest : List Lexeme) : Prop where
  pending_eq : scanner.pending = inner ++ closing :: rest
  token_eq : closing.token = .closing
  nested : Nested .opening .closing (inner.map Lexeme.token)

variable {scanner : Scanner} {opening : Lexeme}

/-- A group that is closed is taken with its text, which is split into the same tokens
    again. -/
theorem takeGroup_of_closesAt (hbehind : scanner.Behind opening) {inner rest : List Lexeme}
    {closing : Lexeme} (hcloses : scanner.ClosesAt inner closing rest) :
    ∃ group after, scanner.takeGroup opening = (.ok group, after) ∧
      Surround scanner.source opening closing group ∧
      inner = (lex group).map (Lexeme.shift opening.stop) ∧ Nested '(' ')' group ∧
      after.source = scanner.source ∧ after.pending = rest := by
  obtain ⟨hpending, hclosing, hnested⟩ := hcloses
  obtain ⟨before, group, behind, after, hsource, hstart, hstop, hinner, htake, hsame, hrest⟩ :=
    exists_takeGroup_eq hbehind hpending hclosing hnested
  have hopening : opening.stop = Text.byteLength (before ++ ['(']) := by
    rw [Lexeme.stop, hstart, hbehind.token_eq, Token.chars, Text.byteLength_append]
  refine ⟨group, after, htake, ⟨before, behind, hsource, hstart, hopening, ?_⟩, ?_, ?_, hsame,
    hrest⟩
  · rw [hstop, hopening, ← Text.byteLength_append, List.append_assoc, List.singleton_append]
  · rw [hinner, lexFrom_eq_map_shift]
  · rw [hinner, map_token_lexFrom] at hnested
    exact (nested_tokens_iff group).mp hnested

/-- Nothing is left of a group that is never closed. -/
theorem takeGroup_of_not_closesAt
    (hopen : ∀ inner closing rest, ¬ scanner.ClosesAt inner closing rest) (opening : Lexeme) :
    scanner.takeGroup opening = (.error .unbalanced, scanner.drain) := by
  refine (takeGroup_cases scanner opening).resolve_left ?_
  rintro ⟨inner, closing, rest, hpending, hclosing, hnested⟩
  exact hopen inner closing rest ⟨hpending, hclosing, hnested⟩

/-- However a scanner has been used, and whatever its source is, a group whose opening
    parenthesis it has just taken is cut out exactly: if it is closed, its text stands between
    its two parentheses, has the tokens that stand there, and what is behind it is left. If it
    is not, nothing is left. -/
theorem takeGroup_of_reflTransGen {source : List Char} {before : Scanner}
    (hreach : Relation.ReflTransGen Step (ofText source) before)
    (hnext : before.next? = some (opening, scanner)) (hopening : opening.token = .opening) :
    (∀ inner closing rest, scanner.ClosesAt inner closing rest →
      ∃ group after, scanner.takeGroup opening = (.ok group, after) ∧
        Surround source opening closing group ∧
        inner = (lex group).map (Lexeme.shift opening.stop) ∧ Nested '(' ')' group ∧
        after.source = source ∧ after.pending = rest) ∧
    ((∀ inner closing rest, ¬ scanner.ClosesAt inner closing rest) →
      ∃ after, scanner.takeGroup opening = (.error .unbalanced, after) ∧ after.pending = []) := by
  have hsource : scanner.source = source :=
    reflTransGen_step_ofText_iff.mp (hreach.tail (.next hnext))
  subst hsource
  refine ⟨fun inner closing rest => takeGroup_of_closesAt (behind_of_next? hnext hopening), ?_⟩
  intro hopen
  exact ⟨scanner.drain, takeGroup_of_not_closesAt hopen opening, rfl⟩

/-- A group with a character of two bytes and a group in it, behind which a word is left, and
    a group of which only the inner one is closed. -/
theorem takeGroup_of_reflTransGen_nested :
    (∃ opening scanner group after,
      (ofText ['(', 'é', '(', ')', ')', 'x']).next? = some (opening, scanner) ∧
      scanner.takeGroup opening = (.ok group, after) ∧
      (lex group).map (Lexeme.shift 1) = [⟨.operator ['é'], 1⟩, ⟨.opening, 3⟩, ⟨.closing, 4⟩] ∧
      after.pending = [⟨.word ['x'], 6⟩]) ∧
    ∃ opening scanner after, (ofText ['(', '(', ')']).next? = some (opening, scanner) ∧
      scanner.takeGroup opening = (.error .unbalanced, after) ∧ after.pending = [] := by
  have hclosed : (ofText ['(', 'é', '(', ')', ')', 'x']).pending = ⟨.opening, 0⟩ ::
      ([⟨.operator ['é'], 1⟩, ⟨.opening, 3⟩, ⟨.closing, 4⟩] ++ ⟨.closing, 5⟩ ::
        [⟨.word ['x'], 6⟩]) := by
    decide +kernel
  have hopen : (ofText ['(', '(', ')']).pending =
      [⟨.opening, 0⟩, ⟨.opening, 1⟩, ⟨.closing, 2⟩] := by
    decide +kernel
  have hspells : Spells [.operator ['é'], .opening, .closing] [_, .ofList []] :=
    .atom rfl (.group .nil .nil)
  constructor
  · obtain ⟨scanner, hnext, hpending, -⟩ := exists_next?_of_pending hclosed
    obtain ⟨htaken, -⟩ := takeGroup_of_reflTransGen .refl hnext rfl
    obtain ⟨group, after, htake, -, hinner, -, -, hrest⟩ :=
      htaken _ _ _ ⟨hpending, rfl, hspells.nested⟩
    exact ⟨_, scanner, group, after, hnext, htake, hinner.symm, hrest⟩
  · obtain ⟨scanner, hnext, hpending, -⟩ := exists_next?_of_pending hopen
    obtain ⟨-, hleft⟩ := takeGroup_of_reflTransGen .refl hnext rfl
    obtain ⟨after, htake, hafter⟩ := hleft fun inner closing rest hcloses => by
      have hfind := findClosing?_eq_some_iff.mpr ⟨inner, hcloses.pending_eq, hcloses.token_eq,
        closes_zero_iff_nested.mpr hcloses.nested⟩
      rw [hpending] at hfind
      cases hfind
    exact ⟨_, scanner, after, hnext, htake, hafter⟩

end Scanner

end PrefixLogic
