import Mathlib.Algebra.Order.Field.Basic
import Mathlib.Algebra.Order.Field.Power
import Mathlib.Tactic.Linarith
import Mathlib.Tactic.Ring
import PrefixLogic.Binary64.Rounding

namespace PrefixLogic

/-- Rounding is off by half a unit at most, and by just that only at an even number. -/
theorem roundHalfEven_spec (num : Nat) {den : Nat} (hden : 0 < den) :
    2 * (roundHalfEven num den * den) ≤ 2 * num + den ∧
    2 * num ≤ 2 * (roundHalfEven num den * den) + den ∧
    (2 * (roundHalfEven num den * den) = 2 * num + den ∨
      2 * num = 2 * (roundHalfEven num den * den) + den → roundHalfEven num den % 2 = 0) := by
  have hparts : num / den * den + num % den = num := Nat.div_add_mod' num den
  have hrest : num % den < den := Nat.mod_lt num hden
  rw [roundHalfEven]
  generalize num / den = floor at hparts ⊢
  generalize num % den = rest at hparts hrest ⊢
  split
  · have hup : (floor + 1) * den = floor * den + den := Nat.add_one_mul floor den
    omega
  · omega

/-- What is at most a whole number is not rounded past it. -/
theorem roundHalfEven_le {num den whole : Nat} (hden : 0 < den) (hle : num ≤ whole * den) :
    roundHalfEven num den ≤ whole := by
  obtain ⟨hbelow, -⟩ := roundHalfEven_spec num hden
  by_contra hnot
  have hmul : (whole + 1) * den ≤ roundHalfEven num den * den :=
    Nat.mul_le_mul_right den (Nat.lt_of_not_le hnot)
  rw [Nat.add_one_mul] at hmul
  omega

theorem le_roundHalfEven {num den whole : Nat} (hden : 0 < den) (hle : whole * den ≤ num) :
    whole ≤ roundHalfEven num den := by
  obtain ⟨-, habove, -⟩ := roundHalfEven_spec num hden
  by_contra hnot
  have hmul : (roundHalfEven num den + 1) * den ≤ whole * den :=
    Nat.mul_le_mul_right den (Nat.lt_of_not_le hnot)
  rw [Nat.add_one_mul] at hmul
  omega

namespace Binary64

/-- The numbers of a binade are the multiples of its spacing. The next power of two, which
    opens the binade above it, is one of them. -/
theorem units_eq {scale steps : Nat} (hsteps : steps ≤ 2 ^ 53)
    (hscale : scale = 0 ∨ 2 ^ 52 ≤ steps) : units (scale * 2 ^ 52 + steps) = steps * 2 ^ scale := by
  rw [units]
  simp only [Nat.shiftLeft_eq, Nat.shiftRight_eq_div_pow]
  by_cases htop : steps = 2 ^ 53
  · have hbinade : (scale * 2 ^ 52 + steps) / 2 ^ 52 - 1 = scale + 1 := by omega
    have hrest : scale * 2 ^ 52 + steps - (scale + 1) * 2 ^ 52 = 2 ^ 52 := by omega
    rw [hbinade, hrest, htop]
    ring
  · have hbinade : (scale * 2 ^ 52 + steps) / 2 ^ 52 - 1 = scale := by omega
    rw [hbinade, Nat.add_sub_cancel_left]

theorem exists_binade (magnitude : Nat) :
    ∃ scale steps, magnitude = scale * 2 ^ 52 + steps ∧ steps < 2 ^ 53 ∧
      (scale = 0 ∨ 2 ^ 52 ≤ steps) := by
  refine ⟨magnitude / 2 ^ 52 - 1, magnitude - (magnitude / 2 ^ 52 - 1) * 2 ^ 52, ?_, ?_, ?_⟩ <;>
    omega

theorem units_strictMono : StrictMono units := by
  refine strictMono_nat_of_lt_succ fun magnitude => ?_
  obtain ⟨scale, steps, rfl, hsteps, hscale⟩ := exists_binade magnitude
  rw [units_eq hsteps.le hscale, Nat.add_assoc, units_eq hsteps (by omega)]
  exact Nat.mul_lt_mul_of_pos_right (Nat.lt_succ_self steps) (Nat.two_pow_pos scale)

/-- Where a magnitude begins: halfway to the one before it, in units of 2⁻¹⁰⁷⁵. -/
def edge (magnitude : Nat) : Nat :=
  units (magnitude - 1) + units magnitude

theorem edge_strictMono : StrictMono edge := by
  refine strictMono_nat_of_lt_succ fun magnitude => ?_
  rw [edge, edge, Nat.add_comm]
  exact Nat.add_lt_add_left (units_strictMono (by omega)) _

theorem edge_le (magnitude : Nat) : edge magnitude ≤ 2 * units magnitude := by
  have hle := units_strictMono.monotone (Nat.sub_le magnitude 1)
  rw [edge]
  omega

theorem lt_edge_succ (magnitude : Nat) : 2 * units magnitude < edge (magnitude + 1) := by
  have hlt : units magnitude < units (magnitude + 1) := units_strictMono (by omega)
  rw [edge, Nat.add_sub_cancel]
  omega

/-- Within a binade the edges are halfway between the multiples of its spacing. -/
theorem edge_succ {scale steps : Nat} (hsteps : steps < 2 ^ 53)
    (hscale : scale = 0 ∨ 2 ^ 52 ≤ steps) :
    edge (scale * 2 ^ 52 + steps + 1) = (2 * steps + 1) * 2 ^ scale := by
  have hnext : steps + 1 ≤ 2 ^ 53 := hsteps
  rw [edge, Nat.add_sub_cancel, units_eq hsteps.le hscale, Nat.add_assoc,
    units_eq hnext (by omega)]
  ring

/-- A magnitude is the nearest one to a positive rational: this lies between its edges, on
    which it may lie if the magnitude is even. -/
structure RoundsTo (q : ℚ) (magnitude : Nat) : Prop where
  low : (edge magnitude : ℚ) ≤ q * 2 ^ 1075
  high : q * 2 ^ 1075 ≤ (edge (magnitude + 1) : ℚ)
  even : (edge magnitude : ℚ) = q * 2 ^ 1075 ∨ q * 2 ^ 1075 = (edge (magnitude + 1) : ℚ) →
    magnitude % 2 = 0

/-- No rational rounds to two magnitudes. -/
theorem RoundsTo.unique {q : ℚ} {a b : Nat} (ha : RoundsTo q a) (hb : RoundsTo q b) : a = b := by
  wlog hle : a ≤ b generalizing a b
  · exact (this hb ha (Nat.le_of_not_le hle)).symm
  rcases Nat.eq_or_lt_of_le hle with heq | hlt
  · exact heq
  -- Only an edge that both have could belong to both, and one of two neighbours is odd.
  have hedges : (edge (a + 1) : ℚ) ≤ edge b := by
    exact_mod_cast edge_strictMono.monotone hlt
  have hsame : edge (a + 1) = edge b := by
    exact_mod_cast le_antisymm hedges (hb.low.trans ha.high)
  have hnext : a + 1 = b := edge_strictMono.injective hsame
  have heven := ha.even (.inr (le_antisymm ha.high (hedges.trans hb.low)))
  have heven' := hb.even (.inl (le_antisymm hb.low (ha.high.trans hedges)))
  omega

section Quotient

variable {num den scale : Nat}

/-- A quotient lies between the edges of what it is rounded to in its binade. -/
theorem edges_of_binade (hden : 0 < den) (htop : num < 2 ^ 53 * (den * 2 ^ scale))
    (hbottom : scale = 0 ∨ 2 ^ 52 * (den * 2 ^ scale) ≤ num) {magnitude : Nat}
    (hmagnitude : magnitude = scale * 2 ^ 52 + roundHalfEven num (den * 2 ^ scale)) :
    edge magnitude * den ≤ 2 * num ∧ 2 * num ≤ edge (magnitude + 1) * den ∧
    (edge magnitude * den = 2 * num ∨ 2 * num = edge (magnitude + 1) * den →
      magnitude % 2 = 0) := by
  have hspacing : 0 < den * 2 ^ scale := Nat.mul_pos hden (Nat.two_pow_pos scale)
  obtain ⟨hbelow, habove, heven⟩ := roundHalfEven_spec num hspacing
  have hle := roundHalfEven_le hspacing htop.le
  have hge := hbottom.imp_right (le_roundHalfEven hspacing)
  generalize roundHalfEven num (den * 2 ^ scale) = steps at hbelow habove heven hmagnitude hle hge
  have hunits : units magnitude * den = steps * (den * 2 ^ scale) := by
    rw [hmagnitude, units_eq hle hge]
    ring
  have hodd : steps % 2 = 0 → magnitude % 2 = 0 := by omega
  have hhigh : 2 * num ≤ edge (magnitude + 1) * den ∧
      (2 * num = edge (magnitude + 1) * den → magnitude % 2 = 0) := by
    rcases Nat.eq_or_lt_of_le hle with rfl | hlt
    · have hedge := Nat.mul_lt_mul_of_pos_right (lt_edge_succ magnitude) hden
      rw [Nat.mul_assoc, hunits] at hedge
      omega
    · have hedge : edge (magnitude + 1) * den =
          2 * (steps * (den * 2 ^ scale)) + den * 2 ^ scale := by
        rw [hmagnitude, edge_succ hlt hge]
        ring
      omega
  have hlow : edge magnitude * den ≤ 2 * num ∧
      (edge magnitude * den = 2 * num → magnitude % 2 = 0) := by
    by_cases hfirst : steps = 0 ∨ scale ≠ 0 ∧ steps = 2 ^ 52
    -- What comes before the first of a binade is nearer to it than the spacing says.
    · have hedge := Nat.mul_le_mul_right den (edge_le magnitude)
      rw [Nat.mul_assoc, hunits] at hedge
      rcases hfirst with rfl | ⟨hscale, rfl⟩ <;> omega
    · obtain ⟨before, rfl⟩ : ∃ before, steps = before + 1 := ⟨steps - 1, by omega⟩
      have hedge : edge magnitude * den + den * 2 ^ scale =
          2 * ((before + 1) * (den * 2 ^ scale)) := by
        rw [hmagnitude, ← Nat.add_assoc, edge_succ (by omega) (by omega)]
        ring
      omega
  exact ⟨hlow.1, hhigh.1, fun h => h.elim hlow.2 hhigh.2⟩

/-- The binade of a quotient, told from its whole part. -/
theorem binade_of_log2 (num : Nat) (hden : 0 < den) (hscale : scale = (num / den).log2 - 52) :
    num < 2 ^ 53 * (den * 2 ^ scale) ∧ (scale = 0 ∨ 2 ^ 52 * (den * 2 ^ scale) ≤ num) := by
  constructor
  · have hlt : num / den < 2 ^ (53 + scale) :=
      Nat.lt_log2_self.trans_le (Nat.pow_le_pow_right Nat.two_pos (by omega))
    rw [Nat.div_lt_iff_lt_mul hden, Nat.pow_add] at hlt
    rwa [Nat.mul_comm den, ← Nat.mul_assoc]
  · by_cases hfirst : scale = 0
    · exact .inl hfirst
    · right
      have hne : num / den ≠ 0 := by
        intro hzero
        rw [hzero, Nat.log2_zero] at hscale
        omega
      have hle : 2 ^ (52 + scale) ≤ num / den := (Nat.le_log2 hne).mp (by omega)
      rw [Nat.le_div_iff_mul_le hden, Nat.pow_add] at hle
      rwa [Nat.mul_comm den, ← Nat.mul_assoc]

theorem roundsTo_of_edges {q : ℚ} {magnitude : Nat} (hden : 0 < den)
    (hq : q * 2 ^ 1075 = (2 * num : Nat) / den)
    (hlow : edge magnitude * den ≤ 2 * num) (hhigh : 2 * num ≤ edge (magnitude + 1) * den)
    (heven : edge magnitude * den = 2 * num ∨ 2 * num = edge (magnitude + 1) * den →
      magnitude % 2 = 0) : RoundsTo q magnitude := by
  have hpos : (0 : ℚ) < den := by exact_mod_cast hden
  refine ⟨?_, ?_, ?_⟩ <;> rw [hq]
  · rw [le_div_iff₀ hpos]
    exact_mod_cast hlow
  · rw [div_le_iff₀ hpos]
    exact_mod_cast hhigh
  · rw [eq_div_iff hpos.ne', div_eq_iff hpos.ne']
    exact_mod_cast heven

/-- The number nearest to a quotient is the one that the quotient rounds to. Past the
    greatest finite number this is cut off at infinity. -/
theorem exists_roundsTo_ofQuotient (num : Nat) (hden : 0 < den) :
    ∃ magnitude, RoundsTo (num / den) magnitude ∧
      (ofQuotient num den).magnitude = min magnitude infinity := by
  have hscaled : (num / den * 2 ^ 1075 : ℚ) = (2 * (num <<< 1074) : Nat) / den := by
    have hpow : (2 : ℚ) ^ 1075 = 2 * 2 ^ 1074 := pow_succ' 2 1074
    have hcast : ((num <<< 1074 : Nat) : ℚ) = num * 2 ^ 1074 := by
      simp only [Nat.shiftLeft_eq, Nat.cast_mul, Nat.cast_pow, Nat.cast_ofNat]
    rw [Nat.cast_mul, Nat.cast_ofNat, hcast, hpow, div_mul_eq_mul_div, mul_left_comm]
  refine ⟨_, ?_, rfl⟩
  generalize num <<< 1074 = scaled at hscaled
  rw [Nat.shiftLeft_eq, Nat.shiftLeft_eq]
  obtain ⟨htop, hbottom⟩ := binade_of_log2 scaled hden rfl
  obtain ⟨hlow, hhigh, heven⟩ := edges_of_binade hden htop hbottom rfl
  exact roundsTo_of_edges hden hscaled hlow hhigh heven

end Quotient

section Decimal

theorem RoundsTo.le_of_edge_lt {q : ℚ} {a b : Nat} (hq : RoundsTo q b)
    (hedge : (edge a : ℚ) < q * 2 ^ 1075) : a ≤ b := by
  by_contra hnot
  have hle : (edge (b + 1) : ℚ) ≤ edge a := by
    exact_mod_cast edge_strictMono.monotone (Nat.lt_of_not_le hnot)
  exact absurd (hedge.trans_le (hq.high.trans hle)) (lt_irrefl _)

theorem roundsTo_zero_iff {q : ℚ} (hq : 0 ≤ q) : RoundsTo q 0 ↔ q ≤ 1 / 2 ^ 1075 := by
  have hlow : edge 0 = 0 := by decide
  have hhigh : edge (0 + 1) = 1 := by decide
  rw [le_div_iff₀ (by positivity)]
  constructor
  · intro hrounds
    have hle := hrounds.high
    rwa [hhigh, Nat.cast_one] at hle
  · intro hle
    refine ⟨?_, ?_, fun _ => rfl⟩
    · rw [hlow, Nat.cast_zero]
      positivity
    · rwa [hhigh, Nat.cast_one]

/-- One opens its binade, so what comes before it is nearer than what comes behind it. -/
theorem edge_one : (edge (1023 <<< 52) : ℚ) = (2 ^ 54 - 1) * 2 ^ 1021 := by
  have hone : 1023 <<< 52 = 1021 * 2 ^ 52 + (2 ^ 53 - 1) + 1 := by decide
  have hsteps : ((2 * (2 ^ 53 - 1) + 1 : Nat) : ℚ) = 2 ^ 54 - 1 := by norm_num
  rw [hone, edge_succ (by norm_num) (by norm_num), Nat.cast_mul, hsteps]
  simp only [Nat.cast_pow, Nat.cast_ofNat]

theorem edge_one_succ : (edge (1023 <<< 52 + 1) : ℚ) = (2 ^ 53 + 1) * 2 ^ 1022 := by
  have hone : 1023 <<< 52 = 1022 * 2 ^ 52 + 2 ^ 52 := by decide
  have hsteps : ((2 * 2 ^ 52 + 1 : Nat) : ℚ) = 2 ^ 53 + 1 := by norm_num
  rw [hone, edge_succ (by norm_num) (by norm_num), Nat.cast_mul, hsteps]
  simp only [Nat.cast_pow, Nat.cast_ofNat]

theorem roundsTo_one_iff {q : ℚ} :
    RoundsTo q (1023 <<< 52) ↔ 1 - 1 / 2 ^ 54 ≤ q ∧ q ≤ 1 + 1 / 2 ^ 53 := by
  have hlow : (edge (1023 <<< 52) : ℚ) ≤ q * (2 : ℚ) ^ 1075 ↔ 1 - 1 / 2 ^ 54 ≤ q := by
    have hpow : (2 : ℚ) ^ 1075 = 2 ^ 54 * 2 ^ 1021 := pow_add 2 54 1021
    rw [edge_one, hpow, ← mul_assoc, mul_le_mul_iff_left₀ (by positivity)]
    constructor <;> intro hle <;> linarith
  have hhigh : q * (2 : ℚ) ^ 1075 ≤ (edge (1023 <<< 52 + 1) : ℚ) ↔ q ≤ 1 + 1 / 2 ^ 53 := by
    have hpow : (2 : ℚ) ^ 1075 = 2 ^ 53 * 2 ^ 1022 := pow_add 2 53 1022
    rw [edge_one_succ, hpow, ← mul_assoc, mul_le_mul_iff_left₀ (by positivity)]
    constructor <;> intro hle <;> linarith
  constructor
  · intro hrounds
    exact ⟨hlow.mp hrounds.low, hhigh.mp hrounds.high⟩
  · rintro ⟨hle, hge⟩
    exact ⟨hlow.mpr hle, hhigh.mpr hge, fun _ => by decide⟩

theorem eight_pow_le_ten_pow (n : Nat) : (2 : ℚ) ^ (3 * n) ≤ 10 ^ n := by
  rw [pow_mul]
  exact pow_le_pow_left₀ (by norm_num) (by norm_num) n

theorem units_infinity : (units infinity : ℚ) = 2 ^ 52 * 2 ^ 2046 := by
  have hinfinity : infinity = 2046 * 2 ^ 52 + 2 ^ 52 := by decide
  rw [hinfinity, units_eq (by norm_num) (.inr le_rfl)]
  simp only [Nat.cast_mul, Nat.cast_pow, Nat.cast_ofNat]

/-- Ten to the 401 exceeds every finite number. -/
theorem edge_infinity_lt {q : ℚ} (hq : 10 ^ 401 ≤ q) : (edge infinity : ℚ) < q * 2 ^ 1075 := by
  have hedge : (edge infinity : ℚ) ≤ 2 * units infinity := by exact_mod_cast edge_le infinity
  calc (edge infinity : ℚ) ≤ 2 * (2 ^ 52 * 2 ^ 2046) := units_infinity ▸ hedge
    _ = 2 ^ 2099 := by rw [← pow_add, ← pow_succ']
    _ < 2 ^ (3 * 401) * 2 ^ 1075 := by
      rw [← pow_add]
      exact pow_lt_pow_right₀ one_lt_two (by norm_num)
    _ ≤ q * 2 ^ 1075 := by
      have hle := (eight_pow_le_ten_pow 401).trans hq
      gcongr

theorem zpow_eq_div (exponent : Int) :
    (10 : ℚ) ^ exponent = 10 ^ exponent.toNat / 10 ^ (-exponent).toNat := by
  obtain ⟨n, rfl | rfl⟩ := exponent.eq_nat_or_neg <;> simp

/-- Where the exponent is so small that zero is answered at once, zero is the nearest. -/
theorem roundsTo_zero_of_exponent_lt {coefficient : Nat} {exponent : Int}
    (hexponent : exponent < -(coefficient.log2 + 400 : Int)) :
    RoundsTo (coefficient * 10 ^ exponent) 0 := by
  obtain ⟨n, rfl⟩ : ∃ n : Nat, exponent = -(n : Int) := ⟨exponent.natAbs, by omega⟩
  have hlog : coefficient < 2 ^ (coefficient.log2 + 1) := Nat.lt_log2_self
  have hcoefficient : (coefficient : ℚ) ≤ 2 ^ (coefficient.log2 + 1) := by
    exact_mod_cast hlog.le
  rw [roundsTo_zero_iff (by positivity), zpow_neg, zpow_natCast, ← div_eq_mul_inv,
    div_le_div_iff₀ (by positivity) (by positivity), one_mul]
  calc (coefficient : ℚ) * 2 ^ 1075 ≤ 2 ^ (coefficient.log2 + 1) * 2 ^ 1075 := by gcongr
    _ = 2 ^ (coefficient.log2 + 1 + 1075) := (pow_add _ _ _).symm
    _ ≤ 2 ^ (3 * n) := pow_le_pow_right₀ one_le_two (by omega)
    _ ≤ 10 ^ n := eight_pow_le_ten_pow n

/-- Where the exponent is so large that infinity is answered at once, every finite number
    is too small. -/
theorem infinity_le_of_lt_exponent {coefficient magnitude : Nat} {exponent : Int}
    (hcoefficient : coefficient ≠ 0) (hexponent : 400 < exponent)
    (hrounds : RoundsTo (coefficient * 10 ^ exponent) magnitude) : infinity ≤ magnitude := by
  refine hrounds.le_of_edge_lt (edge_infinity_lt ?_)
  have hone : (1 : ℚ) ≤ coefficient := by exact_mod_cast Nat.one_le_iff_ne_zero.mpr hcoefficient
  calc (10 : ℚ) ^ 401 = 10 ^ (401 : Int) := (zpow_natCast 10 401).symm
    _ ≤ 10 ^ exponent := zpow_le_zpow_right₀ (by norm_num) (by omega)
    _ ≤ coefficient * 10 ^ exponent := le_mul_of_one_le_left (by positivity) hone

theorem exists_roundsTo_ofDecimal (coefficient : Nat) (exponent : Int) :
    ∃ magnitude, RoundsTo (coefficient * 10 ^ exponent) magnitude ∧
      (ofDecimal coefficient exponent).magnitude = min magnitude infinity := by
  have hquotient : (coefficient * 10 ^ exponent : ℚ) =
      (coefficient * Nat.pow 10 exponent.toNat : Nat) / (Nat.pow 10 (-exponent).toNat : Nat) := by
    rw [zpow_eq_div, mul_div_assoc']
    simp
  have hden : 0 < Nat.pow 10 (-exponent).toNat := Nat.pow_pos (by decide)
  obtain ⟨magnitude, hrounds, hnearest⟩ :=
    exists_roundsTo_ofQuotient (coefficient * Nat.pow 10 exponent.toNat) hden
  rw [← hquotient] at hrounds
  rw [ofDecimal]
  split
  · rename_i hzero
    refine ⟨0, ?_, rfl⟩
    rw [hzero, Nat.cast_zero, zero_mul, roundsTo_zero_iff le_rfl]
    positivity
  split
  · rename_i hcoefficient hexponent
    have hle := infinity_le_of_lt_exponent hcoefficient hexponent hrounds
    exact ⟨magnitude, hrounds, by rw [Nat.min_eq_right hle]; rfl⟩
  split
  · rename_i hexponent
    exact ⟨0, roundsTo_zero_of_exponent_lt hexponent, rfl⟩
  · exact ⟨magnitude, hrounds, hnearest⟩

/-- A decimal is read as the finite number that it rounds to, if it rounds to one. -/
theorem magnitude_ofDecimal_eq_iff {coefficient magnitude : Nat} {exponent : Int}
    (hfinite : magnitude < infinity) :
    (ofDecimal coefficient exponent).magnitude = magnitude ↔
      RoundsTo (coefficient * 10 ^ exponent) magnitude := by
  obtain ⟨nearest, hrounds, hnearest⟩ := exists_roundsTo_ofDecimal coefficient exponent
  rw [hnearest]
  constructor
  · intro hmin
    have hsame : nearest = magnitude := by omega
    exact hsame ▸ hrounds
  · intro hmagnitude
    obtain rfl := hrounds.unique hmagnitude
    exact Nat.min_eq_left hfinite.le

theorem negative_ofDecimal (coefficient : Nat) (exponent : Int) :
    (ofDecimal coefficient exponent).negative = false := by
  rw [ofDecimal]
  split
  · rfl
  split
  · rfl
  split <;> rfl

theorem isOne_ofDecimal_iff {coefficient : Nat} {exponent : Int} :
    (ofDecimal coefficient exponent).isOne = true ↔
      1 - 1 / 2 ^ 54 ≤ (coefficient * 10 ^ exponent : ℚ) ∧
        (coefficient * 10 ^ exponent : ℚ) ≤ 1 + 1 / 2 ^ 53 := by
  have hfinite : 1023 <<< 52 < infinity := by decide
  rw [← roundsTo_one_iff, ← magnitude_ofDecimal_eq_iff hfinite, isOne, negative_ofDecimal,
    Bool.not_false, Bool.true_and, beq_iff_eq]

theorem isZero_ofDecimal_iff {coefficient : Nat} {exponent : Int} :
    (ofDecimal coefficient exponent).isZero = true ↔
      (coefficient * 10 ^ exponent : ℚ) ≤ 1 / 2 ^ 1075 := by
  have hfinite : 0 < infinity := by decide
  rw [← roundsTo_zero_iff (by positivity), ← magnitude_ofDecimal_eq_iff hfinite, isZero,
    beq_iff_eq]

end Decimal

end Binary64

end PrefixLogic
