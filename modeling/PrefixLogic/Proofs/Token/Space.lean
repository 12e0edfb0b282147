import PrefixLogic.Proofs.Text.Trimming
import PrefixLogic.Proofs.Token.Name
import PrefixLogic.Proofs.Token.Remaining
import PrefixLogic.Text.Alphanumeric

namespace PrefixLogic

section Classes

variable {c : Char}

/-- A space that is no blank stands above ASCII. -/
theorem Text.isBlank_or_le_of_isSpace (hspace : Text.isSpace c = true) :
    Text.isBlank c = true ∨ 128 ≤ c.toNat := by
  cases hblank : Text.isBlank c with
  | true => exact .inl rfl
  | false =>
    right
    simp only [Text.isSpace, hblank, Bool.false_or, Bool.or_eq_true, Bool.and_eq_true, beq_iff_eq,
      decide_eq_true_eq, or_assoc] at hspace
    rcases hspace with rfl | rfl | rfl | hrange | rfl | rfl | rfl | rfl | rfl
    · decide
    · decide
    · decide
    · have hle : '\u2000'.toNat ≤ c.toNat := hrange.1
      have hplace : '\u2000'.toNat = 8192 := by decide
      omega
    all_goals decide

theorem Token.toNat_lt_of_isWordChar (hword : isWordChar c = true) : c.toNat < 128 := by
  simp only [isWordChar, Char.isAlphanum, Bool.or_eq_true, beq_iff_eq, isAlpha_iff_toNat,
    Char.isDigit_iff_toNat] at hword
  have hnine : '9'.toNat = 57 := rfl
  rcases hword with (hletter | hdigit) | rfl
  · omega
  · omega
  · decide

theorem Token.isWordChar_of_isSpace (hspace : Text.isSpace c = true) : isWordChar c = false := by
  rcases Text.isBlank_or_le_of_isSpace hspace with hblank | hle
  · exact isWordChar_of_isSeparator (by simp [isSeparator, hblank])
  · cases hword : isWordChar c with
    | false => rfl
    | true =>
      have hlt := toNat_lt_of_isWordChar hword
      omega

theorem Token.isSpace_of_isWordChar (hword : isWordChar c = true) : Text.isSpace c = false := by
  cases hspace : Text.isSpace c with
  | false => rfl
  | true =>
    rw [isWordChar_of_isSpace hspace] at hword
    cases hword

/-- The underscore is the one character of words that is neither letter nor digit. -/
theorem isAlphanumeric_eq_false_iff (hword : Token.isWordChar c = true) :
    Text.isAlphanumeric c = false ↔ c = '_' := by
  have hascii : c.val < 128 := UInt32.lt_iff_toNat_lt.mpr (Token.toNat_lt_of_isWordChar hword)
  rw [Text.isAlphanumeric_of_ascii hascii]
  constructor
  · intro hnone
    simpa [Token.isWordChar, hnone] using hword
  · rintro rfl
    rfl

end Classes

namespace Token

theorem scan_eq_opening_iff {c : Char} {rest : List Char} : scan c rest = .opening ↔ c = '(' := by
  constructor
  · intro hscan
    rw [scan] at hscan
    split at hscan
    · assumption
    · repeat' split at hscan
      all_goals cases hscan
  · rintro rfl
    rfl

theorem scan_eq_closing_iff {c : Char} {rest : List Char} : scan c rest = .closing ↔ c = ')' := by
  constructor
  · intro hscan
    rw [scan] at hscan
    split at hscan
    · cases hscan
    · split at hscan
      · assumption
      · repeat' split at hscan
        all_goals cases hscan
  · rintro rfl
    rfl

theorem isSpace_of_mem_numeral {numeral : Numeral} {c : Char} (hmem : c ∈ numeral.text) :
    Text.isSpace c = false := by
  have hdigit : ∀ d : Char, d.isDigit = true → (!Text.isSpace d) = true := by
    intro d hd
    simp [isSpace_of_isWordChar (isWordChar_of_isDigit hd)]
  simpa using numeral.forall_mem_text hdigit (by decide) c hmem

/-- Spaces get into no other item than an operator. -/
theorem exists_operator_of_isSpace {c d : Char} {rest : List Char} (hblank : Text.isBlank c = false)
    (hitem : (scan c rest).isItem = true) (hmem : d ∈ (scan c rest).chars)
    (hspace : Text.isSpace d = true) :
    ∃ chars, scan c rest = .operator chars ∧ ∀ e ∈ chars, isOperatorChar e = true := by
  have hlexed := lexed_scan hblank rest
  generalize scan c rest = token at hitem hmem hlexed ⊢
  cases hlexed with
  | opening => cases hitem
  | closing => cases hitem
  | number numeral =>
    rw [isSpace_of_mem_numeral hmem] at hspace
    cases hspace
  | word _ hall =>
    have hd := hall d hmem
    rw [isWordChar_of_isSpace hspace] at hd
    cases hd
  | operator hall => exact ⟨_, rfl, hall⟩

end Token

theorem tokens_cons {c : Char} (hblank : Text.isBlank c = false) (rest : List Char) :
    ∃ tail, (Token.scan c rest).chars ++ tail = c :: rest ∧
      tokens (c :: rest) = Token.scan c rest :: tokens tail :=
  have hsplit := Token.chars_scan_append_drop c rest
  ⟨_, hsplit, tokens_of_split hblank hsplit⟩

theorem isBlank_of_tokens_eq_nil {text : List Char} (hrun : tokens text = []) :
    ∀ c ∈ text, Text.isBlank c = true := by
  induction text with
  | nil => simp
  | cons c rest ih =>
    cases hblank : Text.isBlank c with
    | true =>
      rw [tokens_blank hblank] at hrun
      simpa [hblank] using ih hrun
    | false =>
      obtain ⟨tail, -, hcons⟩ := tokens_cons hblank rest
      rw [hcons] at hrun
      cases hrun

/-- A first token that is a parenthesis shows in the text, whatever follows. -/
theorem exists_tokens_append {text : List Char} {paren : Token} {rest : List Token}
    (hparen : paren.isItem = false) (hstart : ∀ c ∈ text.head?, Text.isBlank c = false)
    (hrun : tokens text = paren :: rest) (more : List Char) :
    ∃ rest', tokens (text ++ more) = paren :: rest' := by
  cases text with
  | nil =>
    rw [tokens_nil] at hrun
    cases hrun
  | cons c text =>
    obtain ⟨tail, -, hcons⟩ := tokens_cons (hstart c rfl) text
    rw [hcons] at hrun
    obtain ⟨hscan, -⟩ := List.cons.inj hrun
    rcases Token.eq_of_isItem_eq_false hparen with rfl | rfl
    · obtain rfl := Token.scan_eq_opening_iff.mp hscan
      exact ⟨_, tokens_opening _⟩
    · obtain rfl := Token.scan_eq_closing_iff.mp hscan
      exact ⟨_, tokens_closing _⟩

/-- Behind a last closing parenthesis stand blanks only. -/
theorem isBlank_trailing_of_closing {text : List Char} {front : List Token}
    (hrun : tokens text = front ++ [.closing]) :
    ∀ c ∈ Text.trailing text, Text.isBlank c = true := by
  obtain ⟨first, last, hlex, -, hlast⟩ := List.map_eq_append_iff.mp hrun
  obtain ⟨lexeme, others, rfl, hclosing, hothers⟩ := List.map_eq_cons_iff.mp hlast
  obtain rfl := List.map_eq_nil_iff.mp hothers
  obtain ⟨before, after, htext, -, hbehind⟩ := exists_split_of_lexFrom hlex
  have hafter : ∀ c ∈ after, Text.isBlank c = true := by
    apply isBlank_of_tokens_eq_nil
    rw [← map_token_lexFrom lexeme.stop, ← hbehind, List.map_nil]
  have hspaces : ∀ c ∈ after, Text.isSpace c = true := by
    intro c hc
    exact Text.isSpace_of_isBlank (hafter c hc)
  rw [hclosing, Token.chars] at htext
  rw [htext, Text.trailing_append (by simp) (by simp; decide) hspaces]
  exact hafter

/-- A text that is a single item together with the spaces it ends in: the item
    is an operator, if those are not all blanks, and some of them belong to it. -/
theorem exists_operator_of_tokens_append {text spaces : List Char} {token : Token}
    (hstart : ∀ c ∈ text.head?, Text.isBlank c = false) (hne : text ≠ [])
    (hspaces : ∀ c ∈ spaces, Text.isSpace c = true)
    (hblank : ¬ ∀ c ∈ spaces, Text.isBlank c = true) (hitem : token.isItem = true)
    (hrun : tokens (text ++ spaces) = [token]) :
    ∃ taken, taken ≠ [] ∧ token = .operator (text ++ taken) ∧
      ∀ c ∈ text ++ taken, Token.isOperatorChar c = true := by
  cases text with
  | nil => exact absurd rfl hne
  | cons c text =>
    obtain ⟨tail, hsplit, hcons⟩ := tokens_cons (hstart c rfl) (text ++ spaces)
    rw [List.cons_append, hcons] at hrun
    obtain ⟨rfl, htail⟩ := List.cons.inj hrun
    have htail := isBlank_of_tokens_eq_nil htail
    rw [← List.cons_append] at hsplit
    rcases List.append_eq_append_iff.mp hsplit with ⟨gap, -, hgap⟩ | ⟨taken, hchars, htaken⟩
    · refine absurd (fun d hd => htail d ?_) hblank
      rw [hgap]
      exact List.mem_append_right gap hd
    · have htaken_ne : taken ≠ [] := by
        rintro rfl
        rw [List.nil_append] at htaken
        exact hblank (htaken ▸ htail)
      obtain ⟨d, hd⟩ := List.exists_mem_of_ne_nil taken htaken_ne
      have hspace : Text.isSpace d = true := by
        apply hspaces d
        rw [htaken]
        exact List.mem_append_left tail hd
      have hmem : d ∈ (Token.scan c (text ++ spaces)).chars := by
        rw [hchars]
        exact List.mem_append_right _ hd
      obtain ⟨chars, hscan, hall⟩ :=
        Token.exists_operator_of_isSpace (hstart c rfl) hitem hmem hspace
      rw [hscan, Token.chars] at hchars
      rw [hchars] at hscan hall
      exact ⟨taken, htaken_ne, hscan, hall⟩

end PrefixLogic
