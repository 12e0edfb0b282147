import Mathlib.Data.List.Basic
import PrefixLogic.Proofs.Token.Longest

namespace PrefixLogic

/-- Of two beginnings of one text, the one with fewer bytes is a beginning of the other. -/
theorem Text.starts_of_byteLength_le {a b text : List Char} (ha : a <+: text) (hb : b <+: text)
    (hle : byteLength a ≤ byteLength b) : a <+: b := by
  rcases List.prefix_or_prefix_of_prefix ha hb with hab | ⟨rest, rfl⟩
  · exact hab
  · cases rest with
    | nil => simp
    | cons c rest =>
      have hpos := c.utf8Size_pos
      rw [byteLength_append, byteLength] at hle
      omega

namespace Lexeme

/-- A byte of the source belongs to a token. -/
def Covers (lexeme : Lexeme) (place : Nat) : Prop :=
  lexeme.start ≤ place ∧ place < lexeme.stop

theorem start_lt_stop {lexeme : Lexeme} (hne : lexeme.token.chars ≠ []) :
    lexeme.start < lexeme.stop := by
  obtain ⟨c, rest, hchars⟩ := List.exists_cons_of_ne_nil hne
  have hpos := c.utf8Size_pos
  rw [stop, hchars, Text.byteLength]
  omega

/-- A character that starts inside a token is one of its characters. -/
theorem mem_chars_of_covers {lexeme : Lexeme} {before after front back : List Char} {c : Char}
    (hsource : before ++ c :: after = front ++ lexeme.token.chars ++ back)
    (hstart : lexeme.start = Text.byteLength front)
    (hcovers : lexeme.Covers (Text.byteLength before)) : c ∈ lexeme.token.chars := by
  obtain ⟨hle, hlt⟩ := hcovers
  rw [List.append_assoc] at hsource
  -- The character stands behind the text before the token, and not behind the token.
  obtain ⟨inner, rfl⟩ := Text.starts_of_byteLength_le
    (List.prefix_append front _) ⟨c :: after, hsource⟩ (hstart ▸ hle)
  rw [List.append_assoc] at hsource
  have hinside := List.append_cancel_left hsource
  rw [stop, hstart, Text.byteLength_append] at hlt
  obtain ⟨more, hchars⟩ := Text.starts_of_byteLength_le
    (List.prefix_append inner _) ⟨back, hinside.symm⟩ (by omega)
  rw [← hchars] at hinside hlt ⊢
  cases more with
  | nil =>
    rw [List.append_nil] at hlt
    omega
  | cons d more =>
    rw [List.append_assoc] at hinside
    obtain ⟨rfl, -⟩ := List.cons.inj (List.append_cancel_left hinside)
    exact List.mem_append_right inner List.mem_cons_self

end Lexeme

theorem start_le_of_mem_lexFrom {start : Nat} {text : List Char} {lexeme : Lexeme}
    (hmem : lexeme ∈ lexFrom start text) : start ≤ lexeme.start := by
  obtain ⟨front, back, hlex⟩ := List.append_of_mem hmem
  obtain ⟨before, after, -, hstart, -⟩ := exists_split_of_lexFrom hlex
  omega

theorem pairwise_lexFrom (start : Nat) (text : List Char) :
    (lexFrom start text).Pairwise fun a b => a.stop ≤ b.start := by
  induction text using lex_induction generalizing start with
  | nil => simp
  | blank c rest hblank ih =>
    rw [lexFrom_blank hblank]
    exact ih _
  | token c rest tail hblank hsplit ih =>
    rw [lexFrom_of_split hblank hsplit]
    exact List.pairwise_cons.mpr ⟨fun lexeme hmem => start_le_of_mem_lexFrom hmem, ih _⟩

/-- Every character that is no blank belongs to a token. -/
theorem exists_covers (start : Nat) {text before after : List Char} {c : Char}
    (htext : text = before ++ c :: after) (hblank : Text.isBlank c = false) :
    ∃ lexeme ∈ lexFrom start text, lexeme.Covers (start + Text.byteLength before) := by
  induction text using lex_induction generalizing start before with
  | nil => simp at htext
  | blank d rest hd ih =>
    cases before with
    | nil =>
      obtain ⟨rfl, -⟩ := List.cons.inj htext
      rw [hd] at hblank
      cases hblank
    | cons e before =>
      obtain ⟨rfl, hrest⟩ := List.cons.inj htext
      rw [lexFrom_blank hd, Text.byteLength, ← Nat.add_assoc]
      exact ih _ hrest
  | token d rest tail hd hsplit ih =>
    rw [lexFrom_of_split hd hsplit]
    -- The character stands behind the first token or is part of it.
    by_cases hbehind : Text.byteLength (Token.scan d rest).chars ≤ Text.byteLength before
    · obtain ⟨gap, rfl⟩ := Text.starts_of_byteLength_le ⟨tail, hsplit⟩
        ⟨c :: after, htext.symm⟩ hbehind
      rw [← hsplit, List.append_assoc] at htext
      obtain ⟨lexeme, hmem, hcovers⟩ := ih _ (List.append_cancel_left htext)
      rw [Text.byteLength_append, ← Nat.add_assoc]
      exact ⟨lexeme, List.mem_cons_of_mem _ hmem, hcovers⟩
    · refine ⟨_, List.mem_cons_self, Nat.le_add_right _ _, ?_⟩
      rw [Lexeme.stop]
      dsimp only
      omega

/-- A numeral ends in digits, though it may hold other marks. -/
theorem Numeral.exists_text_eq_append (numeral : Numeral) :
    ∃ (front : List Char) (digits : Digits), numeral.text = front ++ digits.chars := by
  obtain ⟨whole, fraction, exponent⟩ := numeral
  cases exponent with
  | some exponent =>
    obtain ⟨capital, sign, digits⟩ := exponent
    refine ⟨whole.chars ++ fractionText fraction ++
      (if capital then 'E' else 'e') :: (sign.map Sign.text).getD [], digits, ?_⟩
    simp [text, exponentText, Exponent.text]
  | none =>
    cases fraction with
    | some digits => exact ⟨whole.chars ++ ['.'], digits, by simp [text, exponentText, fractionText]⟩
    | none => exact ⟨[], whole, by simp [text, exponentText, fractionText]⟩

theorem Numeral.isDigit_of_mem_getLast? (numeral : Numeral) {c : Char}
    (hc : c ∈ numeral.text.getLast?) : c.isDigit = true := by
  obtain ⟨front, digits, htext⟩ := numeral.exists_text_eq_append
  rw [htext, List.getLast?_append_of_ne_nil front digits.ne_nil] at hc
  exact digits.all_digit c (List.mem_of_mem_getLast? hc)

namespace Token

/-- What a token of each class is, between the text before it and the text behind it. -/
inductive Bounded (before after : List Char) : Token → Prop
  | opening : Bounded before after .opening
  | closing : Bounded before after .closing
  | number {numeral : Numeral}
      (hlongest : ∀ other : Numeral, other.text <+: numeral.text ++ after →
        other.text.length ≤ numeral.text.length) : Bounded before after (.number numeral)
  | word {c : Char} {rest : List Char} (hdigit : c.isDigit = false)
      (hall : ∀ d ∈ c :: rest, isWordChar d = true)
      (hafter : ∀ d ∈ after.head?, isWordChar d = false) :
      Bounded before after (.word (c :: rest))
  | operator {c : Char} {rest : List Char} (hall : ∀ d ∈ c :: rest, isOperatorChar d = true)
      (hbefore : ∀ d ∈ before.getLast?, isOperatorChar d = false)
      (hafter : ∀ d ∈ after.head?, isOperatorChar d = false) :
      Bounded before after (.operator (c :: rest))

section Longest

variable {text rest : List Char} {d : Char}

/-- Behind a longest token stands no character that would make a token together with it. -/
theorem Longest.chars_ne {token other : Token} (hlongest : Longest text token)
    (hsplit : token.chars ++ d :: rest = text) (hlexed : other.Lexed) :
    other.chars ≠ token.chars ++ [d] := by
  intro hchars
  have hle := hlongest.longest other hlexed ⟨rest, by simp [hchars, hsplit]⟩
  rw [hchars, List.length_append, List.length_singleton] at hle
  omega

theorem Longest.isWordChar_eq_false {chars : List Char} (hlongest : Longest text (.word chars))
    (hsplit : chars ++ d :: rest = text) : isWordChar d = false := by
  rw [← Bool.not_eq_true]
  intro hword
  cases hlongest.lexed with
  | @word c run hdigit hall =>
    have hlexed : Lexed (.word (c :: (run ++ [d]))) :=
      .word hdigit (by simpa [hword, or_imp, forall_and] using hall)
    exact hlongest.chars_ne hsplit hlexed rfl

theorem Longest.isOperatorChar_eq_false {chars : List Char}
    (hlongest : Longest text (.operator chars)) (hsplit : chars ++ d :: rest = text) :
    isOperatorChar d = false := by
  rw [← Bool.not_eq_true]
  intro hoperator
  cases hlongest.lexed with
  | @operator c run hall =>
    have hlexed : Lexed (.operator (c :: (run ++ [d]))) :=
      .operator (by simpa [hoperator, or_imp, forall_and] using hall)
    exact hlongest.chars_ne hsplit hlexed rfl

end Longest

/-- Only an operator ends in a character of operators. -/
theorem Lexed.eq_operator {token : Token} (hlexed : token.Lexed) {c : Char}
    (hc : c ∈ token.chars.getLast?) (hoperator : isOperatorChar c = true) :
    ∃ chars, token = .operator chars := by
  have hmem := List.mem_of_mem_getLast? hc
  obtain ⟨-, hword⟩ := of_isOperatorChar hoperator
  cases hlexed with
  | operator hall => exact ⟨_, rfl⟩
  | opening =>
    obtain rfl := List.mem_singleton.mp hmem
    cases hoperator
  | closing =>
    obtain rfl := List.mem_singleton.mp hmem
    cases hoperator
  | number numeral =>
    rw [isWordChar_of_isDigit (numeral.isDigit_of_mem_getLast? hc)] at hword
    cases hword
  | word _ hall =>
    rw [hall c hmem] at hword
    cases hword

end Token

/-- No run of operator characters goes on from one text to the other. -/
def Apart (before text : List Char) : Prop :=
  ∀ c ∈ before.getLast?, ∀ d ∈ text.head?, Token.isOperatorChar c = true →
    Token.isOperatorChar d = false

theorem apart_of_longest {token : Token} {tail text : List Char} (hlongest : token.Longest text)
    (hsplit : token.chars ++ tail = text) (before : List Char) :
    Apart (before ++ token.chars) tail := by
  intro c hc d hd hoperator
  obtain ⟨rest, rfl⟩ := List.head?_eq_some_iff.mp hd
  rw [List.getLast?_append_of_ne_nil before hlongest.lexed.chars_ne_nil] at hc
  obtain ⟨chars, rfl⟩ := hlongest.lexed.eq_operator hc hoperator
  exact hlongest.isOperatorChar_eq_false hsplit

theorem bounded_of_longest {token : Token} {before tail text : List Char}
    (hlongest : token.Longest text) (hsplit : token.chars ++ tail = text)
    (hapart : Apart before text) : token.Bounded before tail := by
  subst hsplit
  have hlexed := hlongest.lexed
  cases hlexed with
  | opening => exact .opening
  | closing => exact .closing
  | number numeral =>
    exact .number fun other hother => hlongest.longest _ (.number other) hother
  | @word c run hdigit hall =>
    refine .word hdigit hall fun d hd => ?_
    obtain ⟨rest, rfl⟩ := List.head?_eq_some_iff.mp hd
    exact hlongest.isWordChar_eq_false rfl
  | @operator c run hall =>
    refine .operator hall (fun d hd => ?_) (fun d hd => ?_)
    · rw [← Bool.not_eq_true]
      intro hoperator
      have hc := hapart d hd c rfl hoperator
      rw [hall c List.mem_cons_self] at hc
      cases hc
    · obtain ⟨rest, rfl⟩ := List.head?_eq_some_iff.mp hd
      exact hlongest.isOperatorChar_eq_false rfl

/-- Each token stands at its place in the text, and is bounded there by what stands around
    it. -/
theorem bounded_of_mem_lexFrom {before text : List Char} (hapart : Apart before text)
    {lexeme : Lexeme} (hmem : lexeme ∈ lexFrom (Text.byteLength before) text) :
    ∃ front back, before ++ text = front ++ lexeme.token.chars ++ back ∧
      lexeme.start = Text.byteLength front ∧ lexeme.token.Bounded front back := by
  -- What the lexer leaves behind it ends in no operator character that the rest could go on
  -- from, or an operator would not be bounded at its start.
  induction text using lex_induction generalizing before with
  | nil => simp at hmem
  | blank c rest hblank ih =>
    have hbehind : Apart (before ++ [c]) rest := by
      intro d hd e he hoperator
      obtain rfl : c = d := by simpa using hd
      rw [Token.isOperatorChar_of_isSeparator (by simp [Token.isSeparator, hblank])] at hoperator
      cases hoperator
    have hlength : Text.byteLength (before ++ [c]) = Text.byteLength before + c.utf8Size := by
      simp [Text.byteLength]
    rw [lexFrom_blank hblank, ← hlength] at hmem
    simpa using ih hbehind hmem
  | token c rest tail hblank hsplit ih =>
    have hlongest := Token.longest_scan hblank rest
    rw [lexFrom_of_split hblank hsplit] at hmem
    rcases List.mem_cons.mp hmem with rfl | hmem
    · exact ⟨before, tail, by simp [hsplit], rfl, bounded_of_longest hlongest hsplit hapart⟩
    · rw [← Text.byteLength_append] at hmem
      obtain ⟨front, back, htext, hplace⟩ := ih (apart_of_longest hlongest hsplit before) hmem
      exact ⟨front, back, by rw [← htext, List.append_assoc, hsplit], hplace⟩

theorem bounded_of_mem_lex {source : List Char} {lexeme : Lexeme} (hmem : lexeme ∈ lex source) :
    ∃ before after, source = before ++ lexeme.token.chars ++ after ∧
      lexeme.start = Text.byteLength before ∧ lexeme.token.Bounded before after := by
  have hapart : Apart [] source := by
    intro c hc
    cases hc
  exact bounded_of_mem_lexFrom hapart hmem

theorem opening_mem_lex (before after : List Char) :
    ⟨.opening, Text.byteLength before⟩ ∈ lex (before ++ '(' :: after) := by
  rw [lex, lexFrom_append (detached_cons.mpr rfl), lexFrom_opening, Nat.zero_add]
  exact List.mem_append_right _ List.mem_cons_self

theorem closing_mem_lex (before after : List Char) :
    ⟨.closing, Text.byteLength before⟩ ∈ lex (before ++ ')' :: after) := by
  rw [lex, lexFrom_append (detached_cons.mpr rfl), lexFrom_closing, Nat.zero_add]
  exact List.mem_append_right _ List.mem_cons_self

/-- What it means for tokens to be those of a source: the longest match has found them, and
    the source is nothing but they and the blanks between them. -/
structure Tiles (source : List Char) (lexemes : List Lexeme) : Prop where
  /-- Nothing in the source is unrecognised. -/
  munches : ∀ result, Munches 0 source result ↔ result = .ok lexemes
  ordered : lexemes.Pairwise fun a b => a.stop ≤ b.start
  /-- The ends of a token fall between characters. -/
  bounded : ∀ lexeme ∈ lexemes, ∃ before after,
    source = before ++ lexeme.token.chars ++ after ∧ lexeme.start = Text.byteLength before ∧
      lexeme.token.Bounded before after
  sliced : ∀ lexeme ∈ lexemes, lexeme.start < lexeme.stop ∧
    Text.byteSlice source lexeme.start lexeme.stop = lexeme.token.chars
  /-- Outside of all tokens are the blanks. -/
  blank : ∀ before c after, source = before ++ c :: after →
    ((∀ lexeme ∈ lexemes, ¬ lexeme.Covers (Text.byteLength before)) ↔ Text.isBlank c = true)
  opening : ∀ before after, source = before ++ '(' :: after →
    ⟨.opening, Text.byteLength before⟩ ∈ lexemes
  closing : ∀ before after, source = before ++ ')' :: after →
    ⟨.closing, Text.byteLength before⟩ ∈ lexemes

/-- A blank is part of no token, and anything else is part of one. -/
theorem forall_not_covers_iff {source before after : List Char} {c : Char}
    (hsource : source = before ++ c :: after) :
    (∀ lexeme ∈ lex source, ¬ lexeme.Covers (Text.byteLength before)) ↔
      Text.isBlank c = true := by
  constructor
  · intro hnone
    rw [← Bool.not_eq_false]
    intro hblank
    obtain ⟨lexeme, hmem, hcovers⟩ := exists_covers 0 hsource hblank
    rw [Nat.zero_add] at hcovers
    exact hnone lexeme hmem hcovers
  · intro hblank lexeme hmem hcovers
    obtain ⟨_, _, hlex⟩ := List.append_of_mem hmem
    obtain ⟨front, back, htext, hstart, -⟩ := exists_split_of_lexFrom hlex
    rw [Nat.zero_add] at hstart
    have hlexed := lexed_of_mem_tokens (List.mem_map_of_mem hmem)
    have hc := hlexed.isBlank_eq_false
      (Lexeme.mem_chars_of_covers (hsource.symm.trans htext) hstart hcovers)
    rw [hblank] at hc
    cases hc

/-- A scanner can be made of every source, and it hands out the tokens that tile it. -/
theorem tiles_pending_ofText (source : List Char) :
    Tiles source (Scanner.ofText source).pending where
  munches := fun result => munches_iff
  ordered := pairwise_lexFrom 0 source
  bounded := fun lexeme => bounded_of_mem_lex
  sliced := by
    intro lexeme hmem
    obtain ⟨before, after, hsource, hstart, -⟩ := bounded_of_mem_lex hmem
    have hlexed := lexed_of_mem_tokens (List.mem_map_of_mem hmem)
    refine ⟨Lexeme.start_lt_stop hlexed.chars_ne_nil, ?_⟩
    rw [Lexeme.stop, hstart, hsource, Text.byteSlice_append]
  blank := fun before c after => forall_not_covers_iff
  opening := by
    rintro before after rfl
    exact opening_mem_lex before after
  closing := by
    rintro before after rfl
    exact closing_mem_lex before after

end PrefixLogic
