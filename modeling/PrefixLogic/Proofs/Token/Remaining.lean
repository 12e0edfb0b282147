import PrefixLogic.Proofs.Text.Trimming
import PrefixLogic.Proofs.Token.Locality
import PrefixLogic.Token.Scanner

namespace PrefixLogic

theorem tokens_dropWhile_isBlank (text : List Char) :
    tokens (text.dropWhile Text.isBlank) = tokens text := by
  induction text with
  | nil => rfl
  | cons c rest ih =>
    rw [List.dropWhile_cons]
    split
    · rename_i hblank
      rw [ih, tokens_blank hblank]
    · rfl

/-- What remains behind a beginning of the source, said without the tokens. -/
theorem Scanner.remaining_of_pending {scanner : Scanner} (before : List Char) {text : List Char}
    (hsource : scanner.source = before ++ text)
    (hpending : scanner.pending = lexFrom (Text.byteLength before) text) :
    scanner.remaining = Text.trimEnd (text.dropWhile Text.isBlank) := by
  induction text generalizing before with
  | nil =>
    rw [lexFrom_nil] at hpending
    rw [remaining, hpending]
    rfl
  | cons c rest ih =>
    cases hblank : Text.isBlank c with
    | true =>
      rw [lexFrom_blank hblank] at hpending
      rw [List.dropWhile_cons_of_pos hblank]
      exact ih (before ++ [c]) (by simp [hsource]) (by simp [hpending, Text.byteLength])
    | false =>
      rw [lexFrom_token hblank] at hpending
      rw [remaining, hpending, List.dropWhile_cons_of_neg (by simp [hblank]), hsource]
      simp only [Text.dropBytes_byteLength_append]

/-- What remains of a fresh source, said without its tokens. -/
theorem Scanner.remaining_ofText (source : List Char) :
    (ofText source).remaining = Text.trimEnd (source.dropWhile Text.isBlank) :=
  remaining_of_pending [] rfl rfl

/-- A source without spaces is its own buffer. -/
theorem Scanner.remaining_ofText_eq_self {source : List Char}
    (hnone : ∀ c ∈ source, Text.isSpace c = false) : (ofText source).remaining = source := by
  have hstart : source.dropWhile Text.isBlank = source := by
    cases source with
    | nil => rfl
    | cons c rest =>
      have hc := Text.isBlank_eq_false (hnone c List.mem_cons_self)
      exact List.dropWhile_cons_of_neg (by simp [hc])
  rw [remaining_ofText, hstart, Text.trimEnd_eq_self hnone]

/-- A character of a class without separators is none. -/
theorem Token.isSeparator_eq_false {p : Char → Bool} {c : Char}
    (hclass : isSeparator c = true → p c = false) (hc : p c = true) : isSeparator c = false := by
  cases hseparator : isSeparator c with
  | false => rfl
  | true =>
    rw [hclass hseparator] at hc
    cases hc

/-- A numeral is made of digits and a few marks. -/
theorem Numeral.forall_mem_text {p : Char → Bool}
    (hdigit : ∀ c : Char, c.isDigit = true → p c = true)
    (hmarks : ['.', 'e', 'E', '+', '-'].all p = true) (n : Numeral) :
    ∀ c ∈ n.text, p c = true := by
  rw [List.all_eq_true] at hmarks
  have hdigits : ∀ digits : Digits, ∀ c ∈ digits.chars, p c = true := by
    intro digits c hc
    exact hdigit c (digits.all_digit c hc)
  intro c hmem
  obtain ⟨whole, fraction, exponent⟩ := n
  rw [Numeral.text, List.append_assoc, List.mem_append, List.mem_append] at hmem
  rcases hmem with hwhole | hfraction | hexponent
  · exact hdigits whole c hwhole
  · cases fraction with
    | none => cases hfraction
    | some digits =>
      rcases List.mem_cons.mp hfraction with rfl | hc
      · exact hmarks _ (by simp)
      · exact hdigits digits c hc
  · cases exponent with
    | none => cases hexponent
    | some e =>
      obtain ⟨capital, sign, digits⟩ := e
      rcases List.mem_cons.mp hexponent with rfl | hc
      · cases capital <;> exact hmarks _ (by simp)
      · rcases List.mem_append.mp hc with hsign | hc
        · cases sign with
          | none => cases hsign
          | some s => cases s <;> exact hmarks _ (by simp [List.mem_singleton.mp hsign])
        · exact hdigits digits c hc

theorem Numeral.isSeparator_of_mem_text {n : Numeral} {c : Char} (hmem : c ∈ n.text) :
    Token.isSeparator c = false := by
  have hdigit : ∀ d : Char, d.isDigit = true → (!Token.isSeparator d) = true := by
    intro d hd
    simpa using Token.isSeparator_eq_false Token.isDigit_of_isSeparator hd
  simpa using n.forall_mem_text hdigit (by decide) c hmem

namespace Token

/-- What the characters of a token are that is found in a text. -/
inductive Lexed : Token → Prop where
  | opening : Lexed .opening
  | closing : Lexed .closing
  | number (numeral : Numeral) : Lexed (.number numeral)
  | word {c : Char} {rest : List Char} (hdigit : c.isDigit = false)
      (hall : ∀ d ∈ c :: rest, isWordChar d = true) : Lexed (.word (c :: rest))
  | operator {c : Char} {rest : List Char} (hall : ∀ d ∈ c :: rest, isOperatorChar d = true) :
      Lexed (.operator (c :: rest))

theorem lexed_scan {c : Char} (hblank : Text.isBlank c = false) (rest : List Char) :
    Lexed (scan c rest) := by
  have htaken : ∀ p : Char → Bool, p c = true → ∀ d ∈ c :: rest.takeWhile p, p d = true := by
    intro p hc d hd
    rcases List.mem_cons.mp hd with rfl | hrest
    · exact hc
    · exact List.all_eq_true.mp List.all_takeWhile d hrest
  rw [scan]
  split
  · exact .opening
  split
  · exact .closing
  rename_i hopening hclosing
  split
  · exact .number _
  rename_i hnumeral
  split
  · rename_i hword
    refine .word ?_ (htaken isWordChar hword)
    cases hdigit : c.isDigit with
    | false => rfl
    | true => simp [Numeral.scan?, Digits.scan?, hdigit] at hnumeral
  · rename_i hword
    have hoperator : isOperatorChar c = true := by
      simp [isOperatorChar, hblank, isParenthesis, hopening, hclosing, hword]
    exact .operator (htaken isOperatorChar hoperator)

/-- No item holds a separator. -/
theorem Lexed.isSeparator_eq_false {token : Token} (hlexed : Lexed token)
    (hitem : token.isItem = true) {c : Char} (hmem : c ∈ token.chars) :
    isSeparator c = false := by
  cases hlexed with
  | opening => cases hitem
  | closing => cases hitem
  | number numeral => exact Numeral.isSeparator_of_mem_text hmem
  | word _ hall => exact Token.isSeparator_eq_false isWordChar_of_isSeparator (hall c hmem)
  | operator hall =>
    exact Token.isSeparator_eq_false isOperatorChar_of_isSeparator (hall c hmem)

/-- No token holds a blank. -/
theorem Lexed.isBlank_eq_false {token : Token} (hlexed : Lexed token) {c : Char}
    (hmem : c ∈ token.chars) : Text.isBlank c = false := by
  cases hitem : token.isItem with
  | true =>
    have hseparator := hlexed.isSeparator_eq_false hitem hmem
    simp only [isSeparator, Bool.or_eq_false_iff] at hseparator
    exact hseparator.2
  | false =>
    rcases eq_of_isItem_eq_false hitem with rfl | rfl <;>
      obtain rfl := List.mem_singleton.mp hmem <;> rfl

end Token

theorem lexed_of_mem_tokens {text : List Char} {token : Token} (hmem : token ∈ tokens text) :
    token.Lexed := by
  induction text using lex_induction with
  | nil =>
    rw [tokens_nil] at hmem
    cases hmem
  | blank c rest hblank ih =>
    rw [tokens_blank hblank] at hmem
    exact ih hmem
  | token c rest tail hblank hsplit ih =>
    rw [tokens_of_split hblank hsplit] at hmem
    rcases List.mem_cons.mp hmem with rfl | hrest
    · exact Token.lexed_scan hblank rest
    · exact ih hrest

/-- Every character of a text that is no blank belongs to a token, and the tokens hold
    them in their order. -/
theorem flatMap_chars_tokens (text : List Char) :
    (tokens text).flatMap Token.chars = text.filter (fun c => !Text.isBlank c) := by
  induction text using lex_induction with
  | nil => rw [tokens_nil, List.flatMap_nil, List.filter_nil]
  | blank c rest hblank ih =>
    rw [tokens_blank hblank, ih, List.filter_cons_of_neg (by simp [hblank])]
  | token c rest tail hblank hsplit ih =>
    have hkept : (Token.scan c rest).chars.filter (fun d => !Text.isBlank d) =
        (Token.scan c rest).chars := by
      rw [List.filter_eq_self]
      intro d hd
      simp [(Token.lexed_scan hblank rest).isBlank_eq_false hd]
    rw [tokens_of_split hblank hsplit, List.flatMap_cons, ih, ← hsplit, List.filter_append, hkept]

/-- There are as many parentheses of a kind among the tokens as in the text. -/
theorem count_tokens {token : Token} {paren : Char} (hitem : token.isItem = false)
    (hchars : token.chars = [paren]) (text : List Char) :
    (tokens text).count token = text.count paren := by
  have hparen : paren = '(' ∧ token = .opening ∨ paren = ')' ∧ token = .closing := by
    rcases Token.eq_of_isItem_eq_false hitem with rfl | rfl
    · exact .inl ⟨(List.singleton_inj.mp hchars).symm, rfl⟩
    · exact .inr ⟨(List.singleton_inj.mp hchars).symm, rfl⟩
  have hseparator : Token.isSeparator paren = true := by
    rcases hparen with ⟨rfl, -⟩ | ⟨rfl, -⟩ <;> rfl
  induction text using lex_induction with
  | nil => simp
  | blank c rest hblank ih =>
    have hne : c ≠ paren := by
      rintro rfl
      rcases hparen with ⟨rfl, -⟩ | ⟨rfl, -⟩ <;> cases hblank
    rw [tokens_blank hblank, ih, List.count_cons_of_ne hne]
  | token c rest tail hblank hsplit ih =>
    rw [tokens_of_split hblank hsplit, ← hsplit, List.count_append, ← ih]
    cases hscan : (Token.scan c rest).isItem with
    | true =>
      have hnone : (Token.scan c rest).chars.count paren = 0 := by
        rw [List.count_eq_zero]
        intro hmem
        rw [(Token.lexed_scan hblank rest).isSeparator_eq_false hscan hmem] at hseparator
        cases hseparator
      have hne : Token.scan c rest ≠ token := by
        rintro rfl
        rw [hscan] at hitem
        cases hitem
      rw [hnone, List.count_cons_of_ne hne, Nat.zero_add]
    | false =>
      rcases hparen with ⟨rfl, rfl⟩ | ⟨rfl, rfl⟩ <;>
        rcases Token.eq_of_isItem_eq_false hscan with h | h <;>
          simp [h, Token.chars, Nat.add_comm]

theorem count_opening_tokens (text : List Char) :
    (tokens text).count .opening = text.count '(' :=
  count_tokens rfl rfl text

theorem count_closing_tokens (text : List Char) :
    (tokens text).count .closing = text.count ')' :=
  count_tokens rfl rfl text

end PrefixLogic
