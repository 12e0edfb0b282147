import PrefixLogic.Binary64.Rounding

namespace PrefixLogic

/-- A non-empty run of ASCII digits. -/
structure Digits where
  chars : List Char
  ne_nil : chars ≠ []
  all_digit : ∀ c ∈ chars, c.isDigit = true
deriving DecidableEq

namespace Digits

/-- The number that a run of digits denotes, leading zeros allowed. -/
def value (d : Digits) : Nat :=
  Nat.ofDigitChars 10 d.chars 0

/-- The digits that a text starts with and the rest of it, unless it starts
    with none. -/
def scan? (text : List Char) : Option (Digits × List Char) :=
  if hne : text.takeWhile Char.isDigit = [] then none
  else
    some (⟨text.takeWhile Char.isDigit, hne, List.all_eq_true.mp List.all_takeWhile⟩,
      text.dropWhile Char.isDigit)

theorem chars_append_of_scan? {text rest : List Char} {d : Digits}
    (hscan : scan? text = some (d, rest)) : d.chars ++ rest = text := by
  rw [scan?] at hscan
  split at hscan
  · cases hscan
  · cases hscan
    exact List.takeWhile_append_dropWhile

end Digits

inductive Sign where
  | plus
  | minus
deriving DecidableEq

def Sign.text : Sign → List Char
  | .plus => ['+']
  | .minus => ['-']

/-- The power of ten that may end a numeral. The letter may be of either case
    and the sign may be left out, which the exponent remembers. -/
structure Exponent where
  capital : Bool
  sign : Option Sign
  digits : Digits
deriving DecidableEq

namespace Exponent

def text (e : Exponent) : List Char :=
  (if e.capital then 'E' else 'e') :: ((e.sign.map Sign.text).getD [] ++ e.digits.chars)

def value (e : Exponent) : Int :=
  match e.sign with
  | some .minus => -(e.digits.value : Int)
  | _ => e.digits.value

/-- The sign that a text starts with, if any, and the rest of it. -/
def scanSign : List Char → Option Sign × List Char
  | '+' :: rest => (some .plus, rest)
  | '-' :: rest => (some .minus, rest)
  | text => (none, text)

/-- The exponent that a text starts with. A letter, or a letter and a sign,
    without digits behind it is no exponent. -/
def scan? : List Char → Option (Exponent × List Char)
  | [] => none
  | c :: rest =>
    if c = 'e' ∨ c = 'E' then
      (Digits.scan? (scanSign rest).2).map fun (digits, rest') =>
        (⟨c == 'E', (scanSign rest).1, digits⟩, rest')
    else none

theorem text_append_scanSign (text : List Char) :
    ((scanSign text).1.map Sign.text).getD [] ++ (scanSign text).2 = text := by
  rw [scanSign.eq_def]
  split <;> rfl

theorem text_append_of_scan? {text rest : List Char} {e : Exponent}
    (hscan : scan? text = some (e, rest)) : e.text ++ rest = text := by
  cases text with
  | nil => cases hscan
  | cons c tail =>
    rw [scan?] at hscan
    split at hscan
    · rename_i hc
      obtain ⟨⟨digits, rest'⟩, hdigits, heq⟩ := Option.map_eq_some_iff.mp hscan
      cases heq
      have hdigits := Digits.chars_append_of_scan? hdigits
      have hletter : (if c == 'E' then 'E' else 'e') = c := by
        rcases hc with rfl | rfl <;> rfl
      simp only [Exponent.text, hletter, List.cons_append, List.append_assoc, hdigits,
        text_append_scanSign]
    · cases hscan

end Exponent

/-- A numeral as it is written: digits, then possibly a point and more digits,
    then possibly an exponent. There is no sign in front. -/
structure Numeral where
  whole : Digits
  fraction : Option Digits
  exponent : Option Exponent
deriving DecidableEq

namespace Numeral

def fractionText : Option Digits → List Char
  | none => []
  | some digits => '.' :: digits.chars

def exponentText : Option Exponent → List Char
  | none => []
  | some exponent => exponent.text

/-- The written form of a numeral. -/
def text (n : Numeral) : List Char :=
  n.whole.chars ++ fractionText n.fraction ++ exponentText n.exponent

/-- All the digits before the exponent as one natural number. -/
def coefficient (n : Numeral) : Nat :=
  match n.fraction with
  | none => n.whole.value
  | some digits => Nat.ofDigitChars 10 digits.chars n.whole.value

/-- The power of ten that the coefficient is to be multiplied by. -/
def decimalExponent (n : Numeral) : Int :=
  (match n.exponent with
    | none => 0
    | some exponent => exponent.value) -
  (match n.fraction with
    | none => 0
    | some digits => (digits.chars.length : Int))

/-- The binary64 number nearest to a numeral. -/
def value (n : Numeral) : Binary64 :=
  Binary64.ofDecimal n.coefficient n.decimalExponent

/-- The fraction that a text starts with, and the rest of it. A point without a
    digit behind it starts none. -/
def scanFraction : List Char → Option Digits × List Char
  | '.' :: rest =>
    match Digits.scan? rest with
    | some (digits, rest') => (some digits, rest')
    | none => (none, '.' :: rest)
  | text => (none, text)

/-- The exponent that a text starts with, if any, and the rest of it. -/
def scanExponent (text : List Char) : Option Exponent × List Char :=
  match Exponent.scan? text with
  | some (exponent, rest) => (some exponent, rest)
  | none => (none, text)

/-- The numeral that a text starts with and the rest of the text. Fraction and
    exponent are taken where they are complete, so the numeral is the longest
    one; what is incomplete is left to the tokens behind it. -/
def scan? (text : List Char) : Option (Numeral × List Char) :=
  (Digits.scan? text).map fun (whole, rest) =>
    let afterWhole := scanFraction rest
    let afterFraction := scanExponent afterWhole.2
    (⟨whole, afterWhole.1, afterFraction.1⟩, afterFraction.2)

theorem fractionText_append_scanFraction (text : List Char) :
    fractionText (scanFraction text).1 ++ (scanFraction text).2 = text := by
  rw [scanFraction.eq_def]
  split
  · split
    · rename_i hscan
      rw [fractionText, List.cons_append, Digits.chars_append_of_scan? hscan]
    · rfl
  · rfl

theorem exponentText_append_scanExponent (text : List Char) :
    exponentText (scanExponent text).1 ++ (scanExponent text).2 = text := by
  rw [scanExponent]
  split
  · rename_i hscan
    exact Exponent.text_append_of_scan? hscan
  · rfl

theorem text_append_of_scan? {text rest : List Char} {n : Numeral}
    (hscan : scan? text = some (n, rest)) : n.text ++ rest = text := by
  obtain ⟨⟨whole, tail⟩, hwhole, heq⟩ := Option.map_eq_some_iff.mp hscan
  obtain ⟨rfl, rfl⟩ := Prod.mk.inj heq
  have hwhole := Digits.chars_append_of_scan? hwhole
  simp only [Numeral.text, List.append_assoc, exponentText_append_scanExponent,
    fractionText_append_scanFraction, hwhole]

theorem text_ne_nil (n : Numeral) : n.text ≠ [] := by
  simp [text, n.whole.ne_nil]

end Numeral

end PrefixLogic
