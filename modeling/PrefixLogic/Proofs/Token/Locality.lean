import PrefixLogic.Token.Lexer

namespace PrefixLogic

namespace Token

theorem opening_ne_closing : Token.opening ≠ Token.closing := by
  decide

/-- A token that is an item by itself. -/
def isItem (token : Token) : Bool :=
  token != .opening && token != .closing

theorem ne_opening_of_isItem {token : Token} (hitem : token.isItem = true) :
    token ≠ .opening := by
  rintro rfl
  cases hitem

theorem ne_closing_of_isItem {token : Token} (hitem : token.isItem = true) :
    token ≠ .closing := by
  rintro rfl
  cases hitem

theorem eq_of_isItem_eq_false {token : Token} (hitem : token.isItem = false) :
    token = .opening ∨ token = .closing := by
  cases token with
  | opening => exact .inl rfl
  | closing => exact .inr rfl
  | _ => cases hitem

/-- The characters that no token reaches across: parentheses and blanks. -/
def isSeparator (c : Char) : Bool :=
  isParenthesis c || Text.isBlank c

theorem mem_of_isSeparator {c : Char} (hc : isSeparator c = true) :
    c ∈ ['(', ')', ' ', '\t', '\n', '\x0b', '\x0c', '\r'] := by
  simpa [isSeparator, isParenthesis, Text.isBlank, or_assoc] using hc

theorem eq_parenthesis_or_blank {c : Char} (hc : isSeparator c = true) :
    c = '(' ∨ c = ')' ∨ Text.isBlank c = true := by
  simpa [isSeparator, isParenthesis, or_assoc] using hc

/-- What no separator is, as there are only a few of them. -/
theorem eq_false_of_isSeparator {p : Char → Bool}
    (hnone : ['(', ')', ' ', '\t', '\n', '\x0b', '\x0c', '\r'].any p = false) {c : Char}
    (hc : isSeparator c = true) : p c = false := by
  rw [← Bool.not_eq_true] at hnone ⊢
  intro hp
  exact hnone (List.any_eq_true.mpr ⟨c, mem_of_isSeparator hc, hp⟩)

theorem isDigit_of_isSeparator {c : Char} (hc : isSeparator c = true) : c.isDigit = false :=
  eq_false_of_isSeparator (by decide) hc

theorem isWordChar_of_isSeparator {c : Char} (hc : isSeparator c = true) : isWordChar c = false :=
  eq_false_of_isSeparator (by decide) hc

theorem isOperatorChar_of_isSeparator {c : Char} (hc : isSeparator c = true) :
    isOperatorChar c = false :=
  eq_false_of_isSeparator (by decide) hc

end Token

/-- A text that cannot prolong a token before it, whatever that token is. -/
def Detached (text : List Char) : Prop :=
  ∀ c ∈ text.head?, Token.isSeparator c = true

theorem detached_cons {c : Char} {rest : List Char} :
    Detached (c :: rest) ↔ Token.isSeparator c = true := by
  simp [Detached]

/-- A run of characters of one class ends where the class does. -/
theorem takeWhile_append_of_stop {p : Char → Bool} {rest : List Char}
    (hstop : ∀ c ∈ rest.head?, p c = false) (text : List Char) :
    (text ++ rest).takeWhile p = text.takeWhile p := by
  induction text with
  | nil =>
    cases rest with
    | nil => rfl
    | cons c more => simp [hstop c rfl]
  | cons c text ih => simp only [List.cons_append, List.takeWhile_cons, ih]

theorem dropWhile_append_of_stop {p : Char → Bool} {rest : List Char}
    (hstop : ∀ c ∈ rest.head?, p c = false) (text : List Char) :
    (text ++ rest).dropWhile p = text.dropWhile p ++ rest := by
  induction text with
  | nil =>
    cases rest with
    | nil => rfl
    | cons c more => simp [hstop c rfl]
  | cons c text ih =>
    simp only [List.cons_append, List.dropWhile_cons, ih]
    split <;> rfl

section Numerals

variable {rest : List Char} (hrest : Detached rest)
include hrest

theorem Digits.scan?_append (text : List Char) :
    Digits.scan? (text ++ rest) = (Digits.scan? text).map fun r => (r.1, r.2 ++ rest) := by
  have hstop : ∀ c ∈ rest.head?, c.isDigit = false := by
    intro c hc
    exact Token.isDigit_of_isSeparator (hrest c hc)
  have htake := takeWhile_append_of_stop hstop text
  have hdrop := dropWhile_append_of_stop hstop text
  simp only [Digits.scan?, htake, hdrop]
  split <;> rfl

theorem Exponent.scanSign_append (text : List Char) :
    Exponent.scanSign (text ++ rest) =
      ((Exponent.scanSign text).1, (Exponent.scanSign text).2 ++ rest) := by
  cases text with
  | cons c tail =>
    rw [List.cons_append, Exponent.scanSign.eq_def, Exponent.scanSign.eq_def (c :: tail)]
    split <;> simp_all
  | nil =>
    cases rest with
    | nil => rfl
    | cons c more =>
      have hmem := Token.mem_of_isSeparator (detached_cons.mp hrest)
      rw [List.nil_append, Exponent.scanSign.eq_def]
      split <;> simp_all [Exponent.scanSign]

theorem Exponent.scan?_append (text : List Char) :
    Exponent.scan? (text ++ rest) = (Exponent.scan? text).map fun r => (r.1, r.2 ++ rest) := by
  cases text with
  | cons c tail =>
    rw [List.cons_append, Exponent.scan?, Exponent.scan?, Exponent.scanSign_append hrest,
      Digits.scan?_append hrest]
    split
    · cases Digits.scan? (Exponent.scanSign tail).2 <;> rfl
    · rfl
  | nil =>
    cases rest with
    | nil => rfl
    | cons c more =>
      have hmem := Token.mem_of_isSeparator (detached_cons.mp hrest)
      have hletter : ¬ (c = 'e' ∨ c = 'E') := by
        rintro (rfl | rfl) <;> simp at hmem
      simp [Exponent.scan?, hletter]

theorem Numeral.scanFraction_append (text : List Char) :
    Numeral.scanFraction (text ++ rest) =
      ((Numeral.scanFraction text).1, (Numeral.scanFraction text).2 ++ rest) := by
  cases text with
  | cons c tail =>
    by_cases hc : c = '.'
    · subst hc
      simp only [List.cons_append, Numeral.scanFraction, Digits.scan?_append hrest]
      cases Digits.scan? tail <;> rfl
    · simp only [List.cons_append, Numeral.scanFraction.eq_def]
      split <;> simp_all
  | nil =>
    cases rest with
    | nil => rfl
    | cons c more =>
      have hmem := Token.mem_of_isSeparator (detached_cons.mp hrest)
      rw [List.nil_append, Numeral.scanFraction.eq_def]
      split <;> simp_all [Numeral.scanFraction]

theorem Numeral.scanExponent_append (text : List Char) :
    Numeral.scanExponent (text ++ rest) =
      ((Numeral.scanExponent text).1, (Numeral.scanExponent text).2 ++ rest) := by
  rw [Numeral.scanExponent, Numeral.scanExponent, Exponent.scan?_append hrest]
  cases Exponent.scan? text <;> rfl

theorem Numeral.scan?_append (text : List Char) :
    Numeral.scan? (text ++ rest) = (Numeral.scan? text).map fun r => (r.1, r.2 ++ rest) := by
  rw [Numeral.scan?, Numeral.scan?, Digits.scan?_append hrest]
  cases Digits.scan? text with
  | none => rfl
  | some scanned =>
    simp only [Option.map_some, Numeral.scanFraction_append hrest,
      Numeral.scanExponent_append hrest]

end Numerals

/-- A token is the same whatever detached text stands behind the text it is
    read from, because no token can run into that. -/
theorem Token.scan_append {rest : List Char} (hrest : Detached rest) (c : Char)
    (text : List Char) : Token.scan c (text ++ rest) = Token.scan c text := by
  have hword := takeWhile_append_of_stop
    (fun d hd => Token.isWordChar_of_isSeparator (hrest d hd)) text
  have hoperator := takeWhile_append_of_stop
    (fun d hd => Token.isOperatorChar_of_isSeparator (hrest d hd)) text
  have hnumeral := Numeral.scan?_append hrest (c :: text)
  rw [List.cons_append] at hnumeral
  rw [Token.scan, Token.scan, hnumeral, hword, hoperator]
  cases Numeral.scan? (c :: text) <;> rfl

/-- A text is empty, or it starts with a blank, or it starts with a token. -/
@[elab_as_elim]
theorem lex_induction {motive : List Char → Prop} (nil : motive [])
    (blank : ∀ c rest, Text.isBlank c = true → motive rest → motive (c :: rest))
    (token : ∀ c rest tail, Text.isBlank c = false → (Token.scan c rest).chars ++ tail = c :: rest →
      motive tail → motive (c :: rest))
    (text : List Char) : motive text := by
  -- The text behind a token is shorter, but it is no tail of the list.
  induction hlength : text.length using Nat.strongRecOn generalizing text with
  | ind n ih =>
    cases text with
    | nil => exact nil
    | cons c rest =>
      cases hblank : Text.isBlank c with
      | true => exact blank c rest hblank (ih _ (by simp [← hlength]) rest rfl)
      | false =>
        have hsplit := Token.chars_scan_append_drop c rest
        refine token c rest _ hblank hsplit (ih _ ?_ _ rfl)
        have hpos := List.length_pos_iff.mpr (Token.chars_scan_ne_nil c rest)
        simp only [List.length_drop, List.length_cons] at hlength ⊢
        omega

theorem lexFrom_of_split {c : Char} {rest tail : List Char} (hblank : Text.isBlank c = false)
    (hsplit : (Token.scan c rest).chars ++ tail = c :: rest) (start : Nat) :
    lexFrom start (c :: rest) =
      ⟨Token.scan c rest, start⟩ ::
        lexFrom (start + Text.byteLength (Token.scan c rest).chars) tail := by
  rw [lexFrom_token hblank]
  congr 2
  rw [← hsplit, List.drop_left]

/-- The lexer is local: in front of a detached text it finds what it finds in
    the text before it alone, and goes on as in the detached text alone. -/
theorem lexFrom_append {rest : List Char} (hrest : Detached rest) (start : Nat)
    (text : List Char) :
    lexFrom start (text ++ rest) =
      lexFrom start text ++ lexFrom (start + Text.byteLength text) rest := by
  induction text using lex_induction generalizing start with
  | nil => simp [Text.byteLength]
  | blank c more hblank ih =>
    rw [List.cons_append, lexFrom_blank hblank, lexFrom_blank hblank, ih, Text.byteLength,
      Nat.add_assoc]
  | token c more tail hblank hsplit ih =>
    have hscan := Token.scan_append hrest c more
    have hlonger : (Token.scan c (more ++ rest)).chars ++ (tail ++ rest) = c :: (more ++ rest) := by
      rw [hscan, ← List.append_assoc, hsplit, List.cons_append]
    have hlength := congrArg Text.byteLength hsplit
    rw [Text.byteLength_append] at hlength
    rw [List.cons_append, lexFrom_of_split hblank hlonger, lexFrom_of_split hblank hsplit, hscan,
      ih, ← hlength, List.cons_append, Nat.add_assoc]

/-- The tokens of a text without their places. -/
def tokens (text : List Char) : List Token :=
  (lex text).map Lexeme.token

/-- The same token further behind. -/
def Lexeme.shift (offset : Nat) (lexeme : Lexeme) : Lexeme :=
  ⟨lexeme.token, offset + lexeme.start⟩

/-- A text that starts further behind has the same tokens, each as much further behind. -/
theorem lexFrom_add (offset start : Nat) (text : List Char) :
    lexFrom (offset + start) text = (lexFrom start text).map (Lexeme.shift offset) := by
  induction text using lex_induction generalizing start with
  | nil => simp
  | blank c rest hblank ih => rw [lexFrom_blank hblank, lexFrom_blank hblank, Nat.add_assoc, ih]
  | token c rest tail hblank hsplit ih =>
    rw [lexFrom_of_split hblank hsplit, lexFrom_of_split hblank hsplit, List.map_cons,
      Nat.add_assoc, ih, Lexeme.shift]

theorem lexFrom_eq_map_shift (start : Nat) (text : List Char) :
    lexFrom start text = (lex text).map (Lexeme.shift start) :=
  lexFrom_add start 0 text

/-- Where a text starts does not matter to its tokens. -/
theorem map_token_lexFrom (start : Nat) (text : List Char) :
    (lexFrom start text).map Lexeme.token = tokens text := by
  rw [lexFrom_eq_map_shift, List.map_map]
  rfl

@[simp] theorem tokens_nil : tokens [] = [] := by
  rw [tokens, lex, lexFrom_nil, List.map_nil]

theorem tokens_blank {c : Char} (hblank : Text.isBlank c = true) (rest : List Char) :
    tokens (c :: rest) = tokens rest := by
  rw [tokens, lex, lexFrom_blank hblank, map_token_lexFrom]

theorem tokens_of_split {c : Char} {rest tail : List Char} (hblank : Text.isBlank c = false)
    (hsplit : (Token.scan c rest).chars ++ tail = c :: rest) :
    tokens (c :: rest) = Token.scan c rest :: tokens tail := by
  rw [tokens, lex, lexFrom_of_split hblank hsplit, List.map_cons, map_token_lexFrom]

theorem tokens_append {rest : List Char} (hrest : Detached rest) (text : List Char) :
    tokens (text ++ rest) = tokens text ++ tokens rest := by
  rw [tokens, lex, lexFrom_append hrest, List.map_append, map_token_lexFrom, map_token_lexFrom]

theorem detached_of_isBlank {gap : List Char} (hne : gap ≠ [])
    (hgap : ∀ c ∈ gap, Text.isBlank c = true) (rest : List Char) : Detached (gap ++ rest) := by
  cases gap with
  | nil => exact absurd rfl hne
  | cons c gap =>
    have hc := hgap c List.mem_cons_self
    exact detached_cons.mpr (by simp [Token.isSeparator, hc])

theorem tokens_isBlank_append {lead : List Char} (hlead : ∀ c ∈ lead, Text.isBlank c = true)
    (rest : List Char) : tokens (lead ++ rest) = tokens rest := by
  induction lead with
  | nil => rfl
  | cons c lead ih =>
    rw [List.cons_append, tokens_blank (hlead c List.mem_cons_self)]
    exact ih fun d hd => hlead d (List.mem_cons_of_mem c hd)

theorem tokens_append_isBlank {trail : List Char} (htrail : ∀ c ∈ trail, Text.isBlank c = true)
    (text : List Char) : tokens (text ++ trail) = tokens text := by
  cases trail with
  | nil => rw [List.append_nil]
  | cons c rest =>
    have hdetached := detached_of_isBlank (List.cons_ne_nil c rest) htrail []
    have hnone := tokens_isBlank_append htrail []
    rw [List.append_nil] at hdetached hnone
    rw [tokens_append hdetached, hnone, tokens_nil, List.append_nil]

theorem lexFrom_opening (start : Nat) (rest : List Char) :
    lexFrom start ('(' :: rest) = ⟨.opening, start⟩ :: lexFrom (start + 1) rest :=
  lexFrom_of_split (c := '(') rfl rfl start

theorem lexFrom_closing (start : Nat) (rest : List Char) :
    lexFrom start (')' :: rest) = ⟨.closing, start⟩ :: lexFrom (start + 1) rest :=
  lexFrom_of_split (c := ')') rfl rfl start

@[simp] theorem tokens_opening (rest : List Char) :
    tokens ('(' :: rest) = .opening :: tokens rest :=
  tokens_of_split (c := '(') rfl rfl

@[simp] theorem tokens_closing (rest : List Char) :
    tokens (')' :: rest) = .closing :: tokens rest :=
  tokens_of_split (c := ')') rfl rfl

/-- A text that ends in a separator is split for itself, whatever comes behind it. -/
theorem lexFrom_append_of_getLast? {front : List Char}
    (hfront : ∀ c ∈ front.getLast?, Token.isSeparator c = true) (start : Nat) (rest : List Char) :
    lexFrom start (front ++ rest) =
      lexFrom start front ++ lexFrom (start + Text.byteLength front) rest := by
  rcases List.eq_nil_or_concat front with rfl | ⟨before, c, rfl⟩
  · rw [lexFrom_nil, List.nil_append, List.nil_append, Text.byteLength, Nat.add_zero]
  · have hc : Token.isSeparator c = true := hfront c (by simp)
    have hdetached : ∀ text, Detached (c :: text) := fun _ => detached_cons.mpr hc
    have hfirst : ∀ place, lexFrom place (c :: rest) =
        lexFrom place [c] ++ lexFrom (place + Text.byteLength [c]) rest := by
      intro place
      rcases Token.eq_parenthesis_or_blank hc with rfl | rfl | hblank
      · rw [lexFrom_opening, lexFrom_opening, lexFrom_nil]
        rfl
      · rw [lexFrom_closing, lexFrom_closing, lexFrom_nil]
        rfl
      · rw [lexFrom_blank hblank, lexFrom_blank hblank, lexFrom_nil]
        rfl
    rw [List.concat_eq_append, List.append_assoc, List.singleton_append,
      lexFrom_append (hdetached rest), lexFrom_append (hdetached []), hfirst, List.append_assoc,
      Text.byteLength_append, Nat.add_assoc]

theorem tokens_append_of_getLast? {front : List Char}
    (hfront : ∀ c ∈ front.getLast?, Token.isSeparator c = true) (rest : List Char) :
    tokens (front ++ rest) = tokens front ++ tokens rest := by
  rw [tokens, lex, lexFrom_append_of_getLast? hfront, List.map_append, map_token_lexFrom,
    map_token_lexFrom]

/-- A place among the tokens is a place in the text: what stands before it is
    the text before the token, and the lexer goes on right behind the token. -/
theorem exists_split_of_lexFrom {start : Nat} {text : List Char} {front back : List Lexeme}
    {lexeme : Lexeme} (hlex : lexFrom start text = front ++ lexeme :: back) :
    ∃ before after, text = before ++ lexeme.token.chars ++ after ∧
      lexeme.start = start + Text.byteLength before ∧ back = lexFrom lexeme.stop after := by
  induction text using lex_induction generalizing start front with
  | nil => simp at hlex
  | blank c rest hblank ih =>
    rw [lexFrom_blank hblank] at hlex
    obtain ⟨before, after, htext, hstart, hback⟩ := ih hlex
    refine ⟨c :: before, after, by simp [htext], ?_, hback⟩
    rw [hstart, Text.byteLength, Nat.add_assoc]
  | token c rest tail hblank hsplit ih =>
    rw [lexFrom_of_split hblank hsplit] at hlex
    cases front with
    | nil =>
      obtain ⟨rfl, rfl⟩ := List.cons.inj hlex
      exact ⟨[], tail, by simp [hsplit], by simp [Text.byteLength], rfl⟩
    | cons first others =>
      obtain ⟨-, hrest⟩ := List.cons.inj hlex
      obtain ⟨before, after, htail, hstart, hback⟩ := ih hrest
      refine ⟨(Token.scan c rest).chars ++ before, after, ?_, ?_, hback⟩
      · simp only [← hsplit, htail, List.append_assoc]
      · rw [hstart, Text.byteLength_append, Nat.add_assoc]

/-- At a parenthesis the text also falls apart to the front, as no token reaches
    across it. -/
theorem exists_split_at_parenthesis {start : Nat} {text : List Char} {front back : List Lexeme}
    {lexeme : Lexeme} (hparen : lexeme.token = .opening ∨ lexeme.token = .closing)
    (hlex : lexFrom start text = front ++ lexeme :: back) :
    ∃ before after, text = before ++ lexeme.token.chars ++ after ∧
      lexeme.start = start + Text.byteLength before ∧ front = lexFrom start before ∧
      back = lexFrom lexeme.stop after := by
  obtain ⟨before, after, htext, hstart, hback⟩ := exists_split_of_lexFrom hlex
  refine ⟨before, after, htext, hstart, ?_, hback⟩
  have hdetached : Detached (lexeme.token.chars ++ after) := by
    rcases hparen with h | h <;> rw [h] <;> exact detached_cons.mpr rfl
  have hbehind : lexFrom lexeme.start (lexeme.token.chars ++ after) = lexeme :: back := by
    rw [hback, Lexeme.stop]
    obtain ⟨token, place⟩ := lexeme
    rcases hparen with rfl | rfl
    · exact lexFrom_opening place after
    · exact lexFrom_closing place after
  rw [htext, List.append_assoc, lexFrom_append hdetached, ← hstart, hbehind] at hlex
  exact (List.append_cancel_right hlex).symm

/-- At a cut beside a separator, or with nothing on one side, no token reaches across. The
    tokens are those of the text before the cut and then those of the text behind it, with
    spans that are moved by the bytes of the text before. -/
theorem lex_append_of_separated {a b : List Char}
    (hcut : a = [] ∨ b = [] ∨ (∃ c ∈ a.getLast?, Token.isSeparator c = true) ∨
      ∃ c ∈ b.head?, Token.isSeparator c = true) :
    lex (a ++ b) = lex a ++ (lex b).map (Lexeme.shift (Text.byteLength a)) := by
  have hends : (∀ c ∈ a.getLast?, Token.isSeparator c = true) ∨ Detached b := by
    rcases hcut with rfl | rfl | ⟨c, hc, hseparator⟩ | ⟨c, hc, hseparator⟩
    · exact .inl fun _ hc => by cases hc
    · exact .inr fun _ hc => by cases hc
    · exact .inl fun d hd => Option.mem_unique hc hd ▸ hseparator
    · exact .inr fun d hd => Option.mem_unique hc hd ▸ hseparator
  rw [← lexFrom_eq_map_shift, lex, lex]
  rcases hends with hlast | hdetached
  · rw [lexFrom_append_of_getLast? hlast, Nat.zero_add]
  · rw [lexFrom_append hdetached, Nat.zero_add]

/-- A blank keeps a letter and a sign, which a numeral has left behind, from the digits that
    would make them its exponent. -/
theorem lex_append_of_separated_exponent :
    (∃ c ∈ "\n+5".toList.head?, Token.isSeparator c = true) ∧
    lex ("λ1e".toList ++ "\n+5".toList) =
      lex "λ1e".toList ++ (lex "\n+5".toList).map (Lexeme.shift 4) ∧
    (lex ("λ1e".toList ++ "\n+5".toList)).map
        (fun lexeme => (lexeme.token.chars, lexeme.start, lexeme.stop)) =
      [(['λ'], 0, 2), (['1'], 2, 3), (['e'], 3, 4), (['+'], 5, 6), (['5'], 6, 7)] := by
  have hcut : ∃ c ∈ "\n+5".toList.head?, Token.isSeparator c = true := ⟨'\n', rfl, rfl⟩
  exact ⟨hcut, lex_append_of_separated (.inr (.inr (.inr hcut))), by decide +kernel⟩

end PrefixLogic
