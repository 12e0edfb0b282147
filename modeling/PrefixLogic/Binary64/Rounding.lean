import PrefixLogic.Binary64.Basic

namespace PrefixLogic

/-- The natural number nearest to a quotient; a half goes to the even neighbour. -/
def roundHalfEven (num den : Nat) : Nat :=
  let floor := num / den
  let rest := num % den
  if den < 2 * rest ∨ (2 * rest = den ∧ floor % 2 = 1) then floor + 1 else floor

namespace Binary64

/-- The number nearest to the quotient `num / den`. The quotient in units of
    2⁻¹⁰⁷⁴ tells the binade, and with it how many binary places are kept. A
    quotient that rounds up to the next power of two carries into the exponent
    by itself, because magnitudes run through the binades without a gap. -/
def ofQuotient (num den : Nat) : Binary64 :=
  let scaled := num <<< 1074
  let scale := (scaled / den).log2 - 52
  ofMagnitude (scale <<< 52 + roundHalfEven scaled (den <<< scale))

/-- The number nearest to `coefficient · 10 ^ exponent`. Exponents so large or
    so small that the answer is infinity or zero whatever the coefficient are
    answered without raising ten to them. -/
def ofDecimal (coefficient : Nat) (exponent : Int) : Binary64 :=
  if coefficient = 0 then ofMagnitude 0
  else if 400 < exponent then ofMagnitude infinity
  else if exponent < -(coefficient.log2 + 400 : Int) then ofMagnitude 0
  else ofQuotient (coefficient * Nat.pow 10 exponent.toNat) (Nat.pow 10 (-exponent).toNat)

end Binary64

end PrefixLogic
