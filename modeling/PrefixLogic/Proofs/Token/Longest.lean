import PrefixLogic.Proofs.Token.Name

namespace PrefixLogic

theorem Digits.eq_of_chars_eq {a b : Digits} (hchars : a.chars = b.chars) : a = b := by
  cases a
  cases b
  cases hchars
  rfl

/-- Digits are read as far as they go. -/
theorem Digits.scan?_chars_append (digits : Digits) (text : List Char) :
    ∃ read, scan? (digits.chars ++ text) = some (read, text.dropWhile Char.isDigit) ∧
      read.chars = digits.chars ++ text.takeWhile Char.isDigit := by
  have htake : (digits.chars ++ text).takeWhile Char.isDigit =
      digits.chars ++ text.takeWhile Char.isDigit := List.takeWhile_append_of_pos digits.all_digit
  have hdrop : (digits.chars ++ text).dropWhile Char.isDigit = text.dropWhile Char.isDigit :=
    List.dropWhile_append_of_pos digits.all_digit
  have hne : (digits.chars ++ text).takeWhile Char.isDigit ≠ [] := by
    simp [htake, digits.ne_nil]
  exact ⟨_, by rw [scan?, dif_neg hne, hdrop], htake⟩

/-- Digits that stand in front of a text are read as they stand, or more digits are read,
    and then the text starts with a digit. -/
theorem Digits.scan?_longest (digits : Digits) (text : List Char) :
    scan? (digits.chars ++ text) = some (digits, text) ∨
      ∃ read rest, scan? (digits.chars ++ text) = some (read, rest) ∧
        digits.chars.length < read.chars.length ∧ ∃ c ∈ text.head?, c.isDigit = true := by
  obtain ⟨read, hscan, hread⟩ := digits.scan?_chars_append text
  by_cases hdigit : ∃ c ∈ text.head?, c.isDigit = true
  · obtain ⟨c, hc, hdigit⟩ := hdigit
    refine .inr ⟨read, _, hscan, ?_, c, hc, hdigit⟩
    obtain ⟨rest, rfl⟩ := List.head?_eq_some_iff.mp hc
    simp [hread, hdigit]
  · have hstop : ∀ c ∈ text.head?, c.isDigit = false := by
      intro c hc
      simpa using fun hd => hdigit ⟨c, hc, hd⟩
    have htake : text.takeWhile Char.isDigit = [] := takeWhile_append_of_stop hstop []
    have hdrop : text.dropWhile Char.isDigit = text := dropWhile_append_of_stop hstop []
    rw [htake, List.append_nil] at hread
    rw [hscan, hdrop, eq_of_chars_eq hread]
    exact .inl rfl

namespace Exponent

theorem scanSign_of_digits (sign : Option Sign) (digits : Digits) (text : List Char) :
    scanSign ((sign.map Sign.text).getD [] ++ (digits.chars ++ text)) =
      (sign, digits.chars ++ text) := by
  cases sign with
  | some sign => cases sign <;> rfl
  | none =>
    obtain ⟨chars, hne, hall⟩ := digits
    cases chars with
    | nil => exact absurd rfl hne
    | cons c rest =>
      have hdigit := hall c List.mem_cons_self
      have hsign : c ≠ '+' ∧ c ≠ '-' := by
        constructor <;> rintro rfl <;> cases hdigit
      rw [scanSign.eq_def]
      split <;> simp_all

/-- An exponent in front of a text is read as it stands, or a longer one is read. -/
theorem scan?_longest (exponent : Exponent) (text : List Char) :
    ∃ read rest, scan? (exponent.text ++ text) = some (read, rest) ∧
      (read = exponent ∨ exponent.text.length < read.text.length) := by
  obtain ⟨capital, sign, digits⟩ := exponent
  have hletter : ∀ read rest, Digits.scan? (digits.chars ++ text) = some (read, rest) →
      scan? (Exponent.text ⟨capital, sign, digits⟩ ++ text) =
        some (⟨capital, sign, read⟩, rest) := by
    intro read rest hread
    cases capital <;>
      simp [Exponent.text, scan?, scanSign_of_digits, hread]
  rcases digits.scan?_longest text with hsame | ⟨read, rest, hread, hlonger, -⟩
  · exact ⟨_, _, hletter _ _ hsame, .inl rfl⟩
  · refine ⟨_, _, hletter _ _ hread, .inr ?_⟩
    simpa [Exponent.text] using hlonger

end Exponent

namespace Numeral

/-- An exponent, or none, in front of a text is read as it stands, or more is read. -/
theorem scanExponent_longest (exponent : Option Exponent) (text : List Char) :
    (scanExponent (exponentText exponent ++ text)).1 = exponent ∨
      (exponentText exponent).length <
        (exponentText (scanExponent (exponentText exponent ++ text)).1).length := by
  cases exponent with
  | none =>
    cases hread : (scanExponent (exponentText none ++ text)).1 with
    | none => exact .inl rfl
    | some read => exact .inr (by simp [exponentText, Exponent.text])
  | some exponent =>
    obtain ⟨read, rest, hread, hlonger⟩ := exponent.scan?_longest text
    simpa [exponentText, scanExponent, hread] using hlonger

/-- No exponent starts with a digit. -/
theorem eq_none_of_isDigit {exponent : Option Exponent} {text : List Char}
    (hdigit : ∃ c ∈ (exponentText exponent ++ text).head?, c.isDigit = true) :
    exponent = none := by
  obtain ⟨c, hc, hdigit⟩ := hdigit
  cases exponent with
  | none => rfl
  | some exponent =>
    obtain ⟨capital, sign, digits⟩ := exponent
    cases Option.some.inj hc
    cases capital <;> cases hdigit

/-- A fraction, or none, in front of an exponent, or none, is read as it stands. Only
    where there is no exponent more may be read. -/
theorem scanFraction_longest (fraction : Option Digits) (exponent : Option Exponent)
    (text : List Char) :
    scanFraction (fractionText fraction ++ (exponentText exponent ++ text)) =
        (fraction, exponentText exponent ++ text) ∨
      exponent = none ∧ (fractionText fraction).length <
        (fractionText (scanFraction
          (fractionText fraction ++ (exponentText exponent ++ text))).1).length := by
  cases fraction with
  | some digits =>
    rcases digits.scan?_longest (exponentText exponent ++ text) with
      hsame | ⟨read, rest, hread, hlonger, hdigit⟩
    · left
      simp [fractionText, scanFraction, hsame]
    · right
      refine ⟨eq_none_of_isDigit hdigit, ?_⟩
      simpa [fractionText, scanFraction, hread] using hlonger
  | none =>
    cases exponent with
    | some exponent =>
      obtain ⟨capital, sign, digits⟩ := exponent
      left
      cases capital <;> rfl
    | none =>
      have hparts := fractionText_append_scanFraction text
      cases hread : (scanFraction text).1 with
      | none =>
        rw [hread] at hparts
        exact .inl (Prod.ext hread hparts)
      | some digits => exact .inr ⟨rfl, by simp [fractionText, exponentText, hread]⟩

theorem length_text (numeral : Numeral) :
    numeral.text.length = numeral.whole.chars.length + (fractionText numeral.fraction).length +
      (exponentText numeral.exponent).length := by
  rw [text, List.length_append, List.length_append]

/-- Behind the digits that a text starts with, fraction and exponent are looked for. -/
theorem scan?_of_digits {text rest : List Char} {whole : Digits}
    (hwhole : Digits.scan? text = some (whole, rest)) :
    scan? text = some
      (⟨whole, (scanFraction rest).1, (scanExponent (scanFraction rest).2).1⟩,
        (scanExponent (scanFraction rest).2).2) := by
  rw [scan?, hwhole]
  rfl

/-- A numeral in front of a text is read as it stands, or a longer one is read. -/
theorem scan?_longest (numeral : Numeral) (text : List Char) :
    ∃ read rest, scan? (numeral.text ++ text) = some (read, rest) ∧
      (read = numeral ∨ numeral.text.length < read.text.length) := by
  obtain ⟨whole, fraction, exponent⟩ := numeral
  have hsplit : Numeral.text ⟨whole, fraction, exponent⟩ ++ text =
      whole.chars ++ (fractionText fraction ++ (exponentText exponent ++ text)) := by
    simp [Numeral.text]
  rw [hsplit]
  simp only [length_text]
  rcases whole.scan?_longest (fractionText fraction ++ (exponentText exponent ++ text)) with
    hwhole | ⟨read, rest, hwhole, hlonger, hdigit⟩
  · refine ⟨_, _, scan?_of_digits hwhole, ?_⟩
    rcases scanFraction_longest fraction exponent text with hfraction | ⟨rfl, hlonger⟩
    · rw [hfraction]
      rcases scanExponent_longest exponent text with hexponent | hlonger
      · exact .inl (by rw [hexponent])
      · exact .inr (by dsimp only; omega)
    · have hnone : (exponentText none).length = 0 := rfl
      exact .inr (by dsimp only; omega)
  · refine ⟨_, _, scan?_of_digits hwhole, .inr ?_⟩
    -- More digits can only be read where nothing stands between them and the text.
    cases fraction with
    | some digits =>
      obtain ⟨c, hc, hdigit⟩ := hdigit
      cases Option.some.inj hc
      cases hdigit
    | none =>
      obtain rfl := eq_none_of_isDigit hdigit
      have hnone : (fractionText none).length = 0 ∧ (exponentText none).length = 0 := ⟨rfl, rfl⟩
      dsimp only
      omega

end Numeral

namespace Token

/-- A text that starts with a numeral starts with the token of it. -/
theorem scan_of_numeral {c : Char} {rest tail : List Char} {numeral : Numeral}
    (hscan : Numeral.scan? (c :: rest) = some (numeral, tail)) : scan c rest = .number numeral := by
  have hparen : c ≠ '(' ∧ c ≠ ')' := by
    constructor <;> rintro rfl <;> cases hscan
  rw [scan, if_neg hparen.1, if_neg hparen.2, hscan]

/-- A run of characters of one class is part of the longest one. -/
theorem takeWhile_longest {p : Char → Bool} {run : List Char} (hall : ∀ c ∈ run, p c = true)
    (text : List Char) :
    (run ++ text).takeWhile p = run ∨ run.length < ((run ++ text).takeWhile p).length := by
  rw [List.takeWhile_append_of_pos hall]
  cases text.takeWhile p with
  | nil => exact .inl (List.append_nil run)
  | cons c rest => exact .inr (by simp)

/-- A token of any class that a text could start with is the one that is found there, or
    a longer one is found. -/
theorem scan_longest {token : Token} (hlexed : token.Lexed) {c : Char} {rest text : List Char}
    (hsplit : token.chars ++ text = c :: rest) :
    scan c rest = token ∨ token.chars.length < (scan c rest).chars.length := by
  cases hlexed with
  | opening =>
    obtain ⟨rfl, -⟩ := List.cons.inj hsplit
    exact .inl rfl
  | closing =>
    obtain ⟨rfl, -⟩ := List.cons.inj hsplit
    exact .inl rfl
  | number numeral =>
    obtain ⟨read, tail, hread, hlonger⟩ := numeral.scan?_longest text
    rw [chars] at hsplit
    rw [hsplit] at hread
    rw [scan_of_numeral hread]
    rcases hlonger with rfl | hlonger
    · exact .inl rfl
    · exact .inr hlonger
  | @word d run hdigit hall =>
    rw [chars, List.cons_append] at hsplit
    obtain ⟨rfl, rfl⟩ := List.cons.inj hsplit
    obtain ⟨hword, hrun⟩ := List.forall_mem_cons.mp hall
    rw [scan_of_isWordChar hword hdigit]
    rcases takeWhile_longest hrun text with hsame | hlonger
    · exact .inl (by rw [hsame])
    · exact .inr (by simpa [chars] using hlonger)
  | @operator d run hall =>
    rw [chars, List.cons_append] at hsplit
    obtain ⟨rfl, rfl⟩ := List.cons.inj hsplit
    obtain ⟨hoperator, hrun⟩ := List.forall_mem_cons.mp hall
    rw [scan_of_isOperatorChar hoperator]
    rcases takeWhile_longest hrun text with hsame | hlonger
    · exact .inl (by rw [hsame])
    · exact .inr (by simpa [chars] using hlonger)

theorem Lexed.chars_ne_nil {token : Token} (hlexed : token.Lexed) : token.chars ≠ [] := by
  cases hlexed with
  | number numeral => exact numeral.text_ne_nil
  | _ => exact List.cons_ne_nil _ _

/-- The characters of a token alone are that token. -/
theorem Lexed.tokens_chars {token : Token} (hlexed : token.Lexed) :
    tokens token.chars = [token] := by
  cases hchars : token.chars with
  | nil => exact absurd hchars hlexed.chars_ne_nil
  | cons c rest =>
    have hblank := hlexed.isBlank_eq_false (hchars ▸ List.mem_cons_self)
    have hscan : scan c rest = token := by
      rcases scan_longest hlexed (by rw [List.append_nil, hchars]) with hsame | hlonger
      · exact hsame
      · have hle := congrArg List.length (chars_scan_append_drop c rest)
        rw [List.length_append, ← hchars] at hle
        omega
    rw [tokens_of_split hblank (by rw [hscan, hchars, List.append_nil]), hscan, tokens_nil]

/-- A token of one of the classes that a text starts with, and no shorter than any other
    of them. -/
structure Longest (text : List Char) (token : Token) : Prop where
  lexed : token.Lexed
  starts : token.chars <+: text
  longest : ∀ other : Token, other.Lexed → other.chars <+: text →
    other.chars.length ≤ token.chars.length

theorem longest_scan {c : Char} (hblank : Text.isBlank c = false) (rest : List Char) :
    Longest (c :: rest) (scan c rest) where
  lexed := lexed_scan hblank rest
  starts := ⟨_, chars_scan_append_drop c rest⟩
  longest := by
    rintro other hlexed ⟨text, hsplit⟩
    rcases scan_longest hlexed hsplit with hsame | hlonger
    · exact Nat.le_of_eq (by rw [hsame])
    · exact Nat.le_of_lt hlonger

theorem Longest.eq_scan {c : Char} {rest : List Char} {token : Token}
    (hlongest : Longest (c :: rest) token) (hblank : Text.isBlank c = false) :
    token = scan c rest := by
  obtain ⟨text, hsplit⟩ := hlongest.starts
  rcases scan_longest hlongest.lexed hsplit with hsame | hlonger
  · exact hsame.symm
  · have hscan := longest_scan hblank rest
    have hle := hlongest.longest _ hscan.lexed hscan.starts
    omega

end Token

/-- Splitting a text into tokens by the rule of the longest match alone: blanks are
    skipped, and from every other character the longest token of any class is taken. It
    is stuck at a character where no class has a token. -/
inductive Munches : Nat → List Char → Except SyntaxError (List Lexeme) → Prop
  | done (start : Nat) : Munches start [] (.ok [])
  | blank {start : Nat} {c : Char} {rest : List Char} {result : Except SyntaxError (List Lexeme)}
      (hblank : Text.isBlank c = true) (hrest : Munches (start + c.utf8Size) rest result) :
      Munches start (c :: rest) result
  | token {start : Nat} {c : Char} {rest tail : List Char} {token : Token}
      {result : Except SyntaxError (List Lexeme)} (hblank : Text.isBlank c = false)
      (hlongest : token.Longest (c :: rest)) (hsplit : token.chars ++ tail = c :: rest)
      (hrest : Munches (start + Text.byteLength token.chars) tail result) :
      Munches start (c :: rest) (result.map (⟨token, start⟩ :: ·))
  | stuck (start : Nat) {c : Char} {rest : List Char} (text : String)
      (hblank : Text.isBlank c = false)
      (hnone : ∀ token : Token, token.Lexed → ¬ token.chars <+: c :: rest) :
      Munches start (c :: rest) (.error (.unrecognised text))

theorem munches_lexFrom (start : Nat) (text : List Char) :
    Munches start text (.ok (lexFrom start text)) := by
  induction text using lex_induction generalizing start with
  | nil =>
    rw [lexFrom_nil]
    exact .done start
  | blank c rest hblank ih =>
    rw [lexFrom_blank hblank]
    exact .blank hblank (ih _)
  | token c rest tail hblank hsplit ih =>
    rw [lexFrom_of_split hblank hsplit]
    exact .token hblank (Token.longest_scan hblank rest) hsplit (ih _)

theorem Munches.eq_ok {start : Nat} {text : List Char} {result : Except SyntaxError (List Lexeme)}
    (hmunches : Munches start text result) : result = .ok (lexFrom start text) := by
  induction hmunches with
  | done start => rw [lexFrom_nil]
  | blank hblank _ ih => rw [lexFrom_blank hblank, ih]
  | token hblank hlongest hsplit _ ih =>
    obtain rfl := hlongest.eq_scan hblank
    rw [lexFrom_of_split hblank hsplit, ih]
    rfl
  | @stuck start c rest text hblank hnone =>
    have hscan := Token.longest_scan hblank rest
    exact absurd hscan.starts (hnone _ hscan.lexed)

/-- Every text can be split by the longest match, and in one way only. -/
theorem munches_iff {start : Nat} {text : List Char} {result : Except SyntaxError (List Lexeme)} :
    Munches start text result ↔ result = .ok (lexFrom start text) := by
  constructor
  · exact Munches.eq_ok
  · rintro rfl
    exact munches_lexFrom start text

end PrefixLogic
