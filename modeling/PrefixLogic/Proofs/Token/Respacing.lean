import PrefixLogic.Proofs.Token.Longest

namespace PrefixLogic

/-- Tokens in a row, each written as it is, with blanks behind each. Blanks may be left out
    behind the last token and between two tokens of which one is a parenthesis. -/
inductive Spread : List Token → List Char → Prop
  | nil : Spread [] []
  | last (token : Token) {gap : List Char} (hgap : ∀ c ∈ gap, Text.isBlank c = true) :
      Spread [token] (token.chars ++ gap)
  | cons (token : Token) {next : Token} {rest : List Token} {gap text : List Char}
      (hgap : ∀ c ∈ gap, Text.isBlank c = true)
      (hnone : gap = [] → token.isItem = false ∨ next.isItem = false)
      (hrest : Spread (next :: rest) text) :
      Spread (token :: next :: rest) (token.chars ++ (gap ++ text))

/-- Tokens in a row with blanks in front of them too, or none. -/
def Respaced (run : List Token) (text : List Char) : Prop :=
  ∃ lead body, (∀ c ∈ lead, Text.isBlank c = true) ∧ Spread run body ∧ text = lead ++ body

/-- A parenthesis ends in a separator. -/
theorem Token.isSeparator_of_getLast? {token : Token} (hitem : token.isItem = false) :
    ∀ c ∈ token.chars.getLast?, isSeparator c = true := by
  intro c hc
  rcases eq_of_isItem_eq_false hitem with rfl | rfl <;> cases hc <;> rfl

/-- A text that starts with a parenthesis is detached. -/
theorem Spread.detached {token : Token} {run : List Token} {text : List Char}
    (hspread : Spread (token :: run) text) (hitem : token.isItem = false) : Detached text := by
  have hchars : ∀ rest, Detached (token.chars ++ rest) := by
    intro rest
    rcases Token.eq_of_isItem_eq_false hitem with rfl | rfl <;> exact detached_cons.mpr rfl
  cases hspread with
  | last => exact hchars _
  | cons => exact hchars _

/-- Each token of a row is found as it is, whatever its neighbours are. -/
theorem Spread.tokens_eq {run : List Token} {text : List Char} (hspread : Spread run text)
    (hlexed : ∀ token ∈ run, token.Lexed) : tokens text = run := by
  induction hspread with
  | nil => exact tokens_nil
  | last token hgap =>
    rw [tokens_append_isBlank hgap, (hlexed token List.mem_cons_self).tokens_chars]
  | @cons token next rest gap text hgap hnone hrest ih =>
    obtain ⟨htoken, hothers⟩ := List.forall_mem_cons.mp hlexed
    have hfirst : tokens (token.chars ++ (gap ++ text)) =
        tokens token.chars ++ tokens (gap ++ text) := by
      by_cases hempty : gap = []
      · rcases hnone hempty with hitem | hitem
        · exact tokens_append_of_getLast? (Token.isSeparator_of_getLast? hitem) _
        · rw [hempty, List.nil_append]
          exact tokens_append (hrest.detached hitem) _
      · exact tokens_append (detached_of_isBlank hempty hgap text) _
    rw [hfirst, tokens_isBlank_append hgap, htoken.tokens_chars, ih hothers,
      List.singleton_append]

/-- The tokens of a text are found again in every text that is made of them in their order
    with other blanks, or with none beside a parenthesis. Also what a numeral has left
    behind, such as a letter without digits, is no part of another token then. -/
theorem tokens_of_respaced {source text : List Char}
    (hrespaced : Respaced (tokens source) text) : tokens text = tokens source := by
  obtain ⟨lead, body, hlead, hbody, rfl⟩ := hrespaced
  rw [tokens_isBlank_append hlead]
  exact hbody.tokens_eq fun _ => lexed_of_mem_tokens

/-- The pieces of an exponent without digits, apart from each other and from a parenthesis. -/
theorem tokens_of_respaced_exponent :
    Respaced (tokens "(1e+)".toList) " (1\te\n +) ".toList ∧
    tokens " (1\te\n +) ".toList = tokens "(1e+)".toList := by
  have hsource : tokens "(1e+)".toList =
      [.opening,
        .number ⟨⟨['1'], List.cons_ne_nil _ _, List.forall_mem_singleton.mpr rfl⟩, none, none⟩,
        .word ['e'], .operator ['+'], .closing] := by
    decide +kernel
  have hrespaced : Respaced (tokens "(1e+)".toList) " (1\te\n +) ".toList := by
    rw [hsource]
    refine ⟨[' '], _, by simp [Text.isBlank], ?_, rfl⟩
    refine @Spread.cons _ _ _ [] _ ?_ ?_ (@Spread.cons _ _ _ ['\t'] _ ?_ ?_
      (@Spread.cons _ _ _ ['\n', ' '] _ ?_ ?_ (@Spread.cons _ _ _ [] _ ?_ ?_
        (@Spread.last _ [' '] ?_))))
    all_goals simp [Text.isBlank, Token.isItem]
  exact ⟨hrespaced, tokens_of_respaced hrespaced⟩

end PrefixLogic
