import PrefixLogic.Binary64.Basic

namespace PrefixLogic.Binary64

/-- A decimal `coefficient · 10 ^ exponent`. -/
structure Decimal where
  coefficient : Nat
  exponent : Int

/-- The decimal with the given exponent that is nearest to a finite, nonzero
    magnitude among those that read back as it, if there is one. A half goes up.

    Everything is measured in units of 2⁻¹⁰⁷⁵, so that the halfway points to the
    two neighbouring magnitudes are whole; they themselves read back only for an
    even magnitude, because a half rounds to even. -/
def decimalAt? (magnitude : Nat) (exponent : Int) : Option Decimal :=
  let refine := Nat.pow 10 (-exponent).toNat
  let step := Nat.pow 10 exponent.toNat <<< 1075
  let value := 2 * units magnitude * refine
  let low := (units (magnitude - 1) + units magnitude) * refine
  let high := (units magnitude + units (magnitude + 1)) * refine
  let even := magnitude % 2 = 0
  let below := value / step
  let readsBelow := low < below * step ∨ (even ∧ low = below * step)
  let readsAbove := (below + 1) * step < high ∨ (even ∧ (below + 1) * step = high)
  if readsAbove ∧ (¬ readsBelow ∨ step ≤ 2 * (value - below * step)) then
    some ⟨below + 1, exponent⟩
  else if readsBelow then some ⟨below, exponent⟩
  else none

/-- The shortest decimal that reads back, searched from the coarsest exponent
    to finer ones. At exponent -1074 every magnitude is itself a decimal, so the
    search never runs dry when it starts with that many steps left. -/
def shortestFrom (magnitude : Nat) : Nat → Decimal
  | 0 => ⟨0, 0⟩
  | left + 1 => (decimalAt? magnitude (left - 1074 : Int)).getD (shortestFrom magnitude left)

/-- The shortest decimal that reads back as a finite, nonzero magnitude. The
    first exponent tried is 309, ten to which exceeds every finite number. -/
def shortest (magnitude : Nat) : Decimal :=
  shortestFrom magnitude (309 + 1074 + 1)

/-- A decimal written positionally: zeros up to the point for a whole number,
    and otherwise at least one digit before the point. -/
def Decimal.text (d : Decimal) : List Char :=
  let digits := Nat.toDigits 10 d.coefficient
  if 0 ≤ d.exponent then digits ++ List.replicate d.exponent.toNat '0'
  else
    let places := (-d.exponent).toNat
    let padded := List.replicate (places + 1 - digits.length) '0' ++ digits
    padded.take (padded.length - places) ++ '.' :: padded.drop (padded.length - places)

/-- The written form of a number: the fewest digits that read back as it, never
    with an exponent and without a fraction for a whole number. -/
def text (x : Binary64) : String :=
  if x.isNaN then "NaN"
  else
    let size :=
      if x.magnitude = infinity then "inf"
      else if x.isZero then "0"
      else String.ofList (shortest x.magnitude).text
    if x.negative then "-" ++ size else size

end PrefixLogic.Binary64
