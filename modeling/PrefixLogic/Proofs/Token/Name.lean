import PrefixLogic.Formula.Operator
import PrefixLogic.Proofs.Token.Remaining
import PrefixLogic.Proofs.Tree.Spelling

namespace PrefixLogic

/-- The words that spell a truth value, in lower case. -/
def truthWords : Bool → List (List Char)
  | true => [['t', 'r', 'u', 'e'], ['t']]
  | false => [['f', 'a', 'l', 's', 'e'], ['f']]

/-- A text that is one token and stands for itself: a word or an operator, and no
    spelling of a truth value. -/
def IsName (chars : List Char) : Prop :=
  (tokens chars = [.word chars] ∨ tokens chars = [.operator chars]) ∧
  ∀ value, chars.map Char.toLower ∉ truthWords value

namespace Token

/-- A word or an operator, told from its characters. -/
def isPlain : List Char → Bool
  | [] => false
  | c :: rest =>
    (isWordChar c && !c.isDigit && rest.all isWordChar) || (c :: rest).all isOperatorChar

theorem isWordChar_of_isDigit {c : Char} (hdigit : c.isDigit = true) : isWordChar c = true := by
  simp [isWordChar, Char.isAlphanum, hdigit]

/-- What does not start with a digit starts with no numeral. -/
theorem scan_of_not_isDigit {c : Char} (hdigit : c.isDigit = false) (rest : List Char) :
    scan c rest =
      if c = '(' then .opening
      else if c = ')' then .closing
      else if isWordChar c then .word (c :: rest.takeWhile isWordChar)
      else .operator (c :: rest.takeWhile isOperatorChar) := by
  have hscan : Numeral.scan? (c :: rest) = none := by
    simp [Numeral.scan?, Digits.scan?, hdigit]
  rw [scan, hscan]

theorem scan_of_isWordChar {c : Char} (hword : isWordChar c = true) (hdigit : c.isDigit = false)
    (rest : List Char) : scan c rest = .word (c :: rest.takeWhile isWordChar) := by
  have hparen : c ≠ '(' ∧ c ≠ ')' := by
    constructor <;> rintro rfl <;> cases hword
  rw [scan_of_not_isDigit hdigit, if_neg hparen.1, if_neg hparen.2, if_pos hword]

/-- What no operator is made of. -/
theorem of_isOperatorChar {c : Char} (hoperator : isOperatorChar c = true) :
    Text.isBlank c = false ∧ isWordChar c = false := by
  simp only [isOperatorChar, Bool.and_eq_true, Bool.not_eq_true'] at hoperator
  exact ⟨hoperator.1.1, hoperator.2⟩

theorem scan_of_isOperatorChar {c : Char} (hoperator : isOperatorChar c = true)
    (rest : List Char) : scan c rest = .operator (c :: rest.takeWhile isOperatorChar) := by
  obtain ⟨-, hword⟩ := of_isOperatorChar hoperator
  have hdigit : c.isDigit = false := by
    cases hc : c.isDigit with
    | false => rfl
    | true =>
      rw [isWordChar_of_isDigit hc] at hword
      cases hword
  have hparen : c ≠ '(' ∧ c ≠ ')' := by
    constructor <;> rintro rfl <;> cases hoperator
  rw [scan_of_not_isDigit hdigit, if_neg hparen.1, if_neg hparen.2, if_neg (by simp [hword])]

end Token

/-- A run of characters of one class that takes up a whole text. -/
theorem takeWhile_eq_self {p : Char → Bool} {text : List Char} (hall : ∀ c ∈ text, p c = true) :
    text.takeWhile p = text := by
  have htake : (text ++ []).takeWhile p = text ++ [].takeWhile p :=
    List.takeWhile_append_of_pos hall
  simpa using htake

theorem tokens_word {c : Char} {rest : List Char} (hword : Token.isWordChar c = true)
    (hdigit : c.isDigit = false) (hrest : ∀ d ∈ rest, Token.isWordChar d = true) :
    tokens (c :: rest) = [.word (c :: rest)] := by
  have hscan : Token.scan c rest = .word (c :: rest) := by
    rw [Token.scan_of_isWordChar hword hdigit, takeWhile_eq_self hrest]
  have hblank : Text.isBlank c = false := by
    cases hc : Text.isBlank c with
    | false => rfl
    | true =>
      rw [Token.isWordChar_of_isSeparator (by simp [Token.isSeparator, hc])] at hword
      cases hword
  rw [tokens_of_split hblank (by rw [hscan]; exact List.append_nil _), hscan, tokens_nil]

theorem tokens_operator {c : Char} {rest : List Char}
    (hall : ∀ d ∈ c :: rest, Token.isOperatorChar d = true) :
    tokens (c :: rest) = [.operator (c :: rest)] := by
  have hc := hall c List.mem_cons_self
  have hscan : Token.scan c rest = .operator (c :: rest) := by
    rw [Token.scan_of_isOperatorChar hc,
      takeWhile_eq_self fun d hd => hall d (List.mem_cons_of_mem c hd)]
  obtain ⟨hblank, -⟩ := Token.of_isOperatorChar hc
  rw [tokens_of_split hblank (by rw [hscan]; exact List.append_nil _), hscan, tokens_nil]

theorem tokens_of_isPlain {chars : List Char} (hplain : Token.isPlain chars = true) :
    tokens chars = [.word chars] ∨ tokens chars = [.operator chars] := by
  cases chars with
  | nil => cases hplain
  | cons c rest =>
    simp only [Token.isPlain, Bool.or_eq_true, Bool.and_eq_true, Bool.not_eq_true',
      List.all_eq_true] at hplain
    rcases hplain with ⟨⟨hword, hdigit⟩, hrest⟩ | hall
    · exact .inl (tokens_word hword hdigit hrest)
    · exact .inr (tokens_operator hall)

/-- Every spelling of an operator is a name. -/
theorem isName_of_mem_aliases {operator : Operator} {spelling : String}
    (hmem : spelling ∈ operator.aliases) : IsName spelling.toList := by
  have hall : ∀ operator ∈ Operator.all, ∀ spelling ∈ operator.aliases,
      Token.isPlain spelling.toList = true ∧
      ∀ value, spelling.toList.map Char.toLower ∉ truthWords value := by
    decide
  obtain ⟨hplain, htruth⟩ := hall operator (Operator.mem_all operator) spelling hmem
  exact ⟨tokens_of_isPlain hplain, htruth⟩

theorem isAlpha_iff_toNat {c : Char} :
    c.isAlpha = true ↔ (65 ≤ c.toNat ∧ c.toNat ≤ 90) ∨ (97 ≤ c.toNat ∧ c.toNat ≤ 122) := by
  have hletters : c.isAlpha = (decide ('A'.val ≤ c.val ∧ c.val ≤ 'Z'.val) ||
      decide ('a'.val ≤ c.val) && decide (c.val ≤ 'z'.val)) := rfl
  rw [hletters]
  simp only [Bool.or_eq_true, Bool.and_eq_true, decide_eq_true_eq, UInt32.le_iff_toNat_le]
  exact Iff.rfl

theorem isAlpha_of_isAlpha_toLower {c : Char} (halpha : c.toLower.isAlpha = true) :
    c.isAlpha = true := by
  by_cases hupper : c.val ≥ 'A'.val ∧ c.val ≤ 'Z'.val
  · exact isAlpha_iff_toNat.mpr (.inl hupper)
  · unfold Char.toLower at halpha
    rw [dif_neg hupper] at halpha
    exact halpha

theorem isDigit_of_isAlpha {c : Char} (halpha : c.isAlpha = true) : c.isDigit = false := by
  cases hdigit : c.isDigit with
  | false => rfl
  | true =>
    have hrange := isAlpha_iff_toNat.mp halpha
    have hdigits := Char.isDigit_iff_toNat.mp hdigit
    have hnine : '9'.toNat = 57 := rfl
    omega

theorem isAlpha_of_mem_truthWords {chars : List Char} {value : Bool}
    (hspell : chars.map Char.toLower ∈ truthWords value) : ∀ c ∈ chars, c.isAlpha = true := by
  have hletters : ∀ value, ∀ word ∈ truthWords value, word.all Char.isAlpha = true := by decide
  have hall := List.all_eq_true.mp (hletters value _ hspell)
  intro c hc
  exact isAlpha_of_isAlpha_toLower (hall c.toLower (List.mem_map_of_mem hc))

/-- A spelling of a truth value is a word. -/
theorem tokens_of_mem_truthWords {chars : List Char} {value : Bool}
    (hspell : chars.map Char.toLower ∈ truthWords value) : tokens chars = [.word chars] := by
  have halpha := isAlpha_of_mem_truthWords hspell
  have hword : ∀ c ∈ chars, Token.isWordChar c = true := by
    intro c hc
    simp [Token.isWordChar, Char.isAlphanum, halpha c hc]
  cases chars with
  | nil => cases value <;> simp [truthWords] at hspell
  | cons c rest =>
    have hc : c ∈ c :: rest := List.mem_cons_self
    exact tokens_word (hword c hc) (isDigit_of_isAlpha (halpha c hc))
      fun d hd => hword d (List.mem_cons_of_mem c hd)

namespace Atom

theorem spelledTruth?_eq_some_iff {chars : List Char} {value : Bool} :
    spelledTruth? chars = some value ↔ chars.map Char.toLower ∈ truthWords value := by
  rw [spelledTruth?]
  generalize chars.map Char.toLower = folded
  have hfold : ∀ word : String, String.ofList folded = word ↔ folded = word.toList := by
    intro word
    rw [← String.toList_inj, String.toList_ofList]
  simp only [hfold]
  split
  · rename_i htrue
    cases value with
    | true => simpa [truthWords] using htrue
    | false =>
      rcases htrue with rfl | rfl <;> simp [truthWords]
  · rename_i htrue
    split
    · rename_i hfalse
      cases value with
      | true => rcases hfalse with rfl | rfl <;> simp [truthWords]
      | false => simpa [truthWords] using hfalse
    · rename_i hfalse
      cases value with
      | true => simpa [truthWords] using htrue
      | false => simpa [truthWords] using hfalse

/-- An operator spells no truth value, so it is a symbol. -/
theorem ofToken_operator {chars : List Char} (hne : chars ≠ [])
    (hall : ∀ c ∈ chars, Token.isOperatorChar c = true) :
    ofToken (.operator chars) = .symbol (String.ofList chars) := by
  have hnone : spelledTruth? chars = none := by
    cases hspelled : spelledTruth? chars with
    | none => rfl
    | some value =>
      obtain ⟨c, hc⟩ := List.exists_mem_of_ne_nil chars hne
      have halpha := isAlpha_of_mem_truthWords (spelledTruth?_eq_some_iff.mp hspelled) c hc
      have hoperator := hall c hc
      simp [Token.isOperatorChar, Token.isWordChar, Char.isAlphanum, halpha] at hoperator
  simp [ofToken, Token.chars, Token.text, hnone]

/-- What is no numeral and spells no truth value is a symbol. -/
theorem ofToken_eq_symbol {token : Token} {name : String} (hchars : token.chars = name.toList)
    (hnumeral : ∀ numeral, token ≠ .number numeral)
    (htruth : ∀ value, name.toList.map Char.toLower ∉ truthWords value) :
    ofToken token = .symbol name := by
  have hnone : spelledTruth? token.chars = none := by
    cases hspelled : spelledTruth? token.chars with
    | none => rfl
    | some value =>
      rw [hchars] at hspelled
      exact absurd (spelledTruth?_eq_some_iff.mp hspelled) (htruth value)
  have htext : token.text = name := by rw [Token.text, hchars, String.ofList_toList]
  cases token with
  | number numeral => exact absurd rfl (hnumeral numeral)
  | _ => simp only [ofToken, hnone, htext]

theorem ofToken_word {name : String}
    (htruth : ∀ value, name.toList.map Char.toLower ∉ truthWords value) :
    ofToken (.word name.toList) = .symbol name :=
  ofToken_eq_symbol rfl (fun _ => Token.noConfusion) htruth

/-- A token that is a symbol is no numeral and spells no truth value. -/
theorem of_ofToken_eq_symbol {token : Token} {name : String}
    (hatom : ofToken token = .symbol name) :
    (∀ numeral, token ≠ .number numeral) ∧ spelledTruth? token.chars = none ∧
      name = token.text := by
  cases token with
  | number numeral => cases hatom
  | _ =>
    simp only [ofToken] at hatom
    split at hatom
    · cases hatom
    · rename_i hnone
      cases hatom
      exact ⟨fun _ => Token.noConfusion, hnone, rfl⟩

end Atom

/-- The symbols that tokens stand for are names, whatever text they are found in. -/
theorem isName_of_mem_tokens {text : List Char} {token : Token} {name : String}
    (hmem : token ∈ tokens text) (hitem : token.isItem = true)
    (hatom : Atom.ofToken token = .symbol name) : IsName name.toList := by
  obtain ⟨hnumeral, hnone, rfl⟩ := Atom.of_ofToken_eq_symbol hatom
  have htruth : ∀ value, token.chars.map Char.toLower ∉ truthWords value := by
    intro value hspell
    rw [Atom.spelledTruth?_eq_some_iff.mpr hspell] at hnone
    cases hnone
  rw [Token.text, String.toList_ofList]
  cases lexed_of_mem_tokens hmem with
  | opening => cases hitem
  | closing => cases hitem
  | number numeral => exact absurd rfl (hnumeral numeral)
  | @word c rest hdigit hall =>
    obtain ⟨hc, hrest⟩ := List.forall_mem_cons.mp hall
    exact ⟨.inl (tokens_word hc hdigit hrest), htruth⟩
  | operator hall => exact ⟨.inr (tokens_operator hall), htruth⟩

end PrefixLogic
