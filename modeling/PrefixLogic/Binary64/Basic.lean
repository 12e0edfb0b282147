namespace PrefixLogic

/-- A binary64 number as a sign and the remaining 63 bits. Read as a natural
    number those bits order the numbers of one sign by value: zero, the
    subnormals, the normals, infinity, and above it everything that is not a
    number. -/
structure Binary64 where
  negative : Bool
  magnitude : Nat
  magnitude_lt : magnitude < 1 <<< 63
deriving DecidableEq

namespace Binary64

/-- The magnitude of infinity: an exponent field of ones over an empty fraction. -/
def infinity : Nat := 2047 <<< 52

/-- The number of a 64-bit word. -/
def ofBits (word : BitVec 64) : Binary64 :=
  ⟨word.msb, word.toNat % (1 <<< 63), Nat.mod_lt _ (by decide)⟩

/-- The 64-bit word of a number, as a natural number. -/
def bits (x : Binary64) : Nat :=
  (if x.negative then 1 <<< 63 else 0) + x.magnitude

/-- The positive number of a magnitude; magnitudes past infinity become infinity. -/
def ofMagnitude (magnitude : Nat) : Binary64 :=
  ⟨false, min magnitude infinity, Nat.lt_of_le_of_lt (Nat.min_le_right _ _) (by decide)⟩

def isNaN (x : Binary64) : Bool :=
  infinity < x.magnitude

/-- Either of the two zeros. -/
def isZero (x : Binary64) : Bool :=
  x.magnitude == 0

def isOne (x : Binary64) : Bool :=
  !x.negative && x.magnitude == 1023 <<< 52

/-- Equality as constants compare: the two zeros are one number, and so are all
    the words that are not a number. -/
def same (x y : Binary64) : Bool :=
  x == y || (x.isZero && y.isZero) || (x.isNaN && y.isNaN)

/-- The size of a finite magnitude in units of 2⁻¹⁰⁷⁴. The first two binades
    are spaced one unit apart, and each later one twice as wide as the one
    before. -/
def units (magnitude : Nat) : Nat :=
  let scale := (magnitude >>> 52) - 1
  (magnitude - scale <<< 52) <<< scale

/-- Numbers that compare equal are zero together. -/
theorem isZero_eq_of_same {x y : Binary64} (hsame : x.same y = true) : x.isZero = y.isZero := by
  simp only [same, Bool.or_eq_true, beq_iff_eq, Bool.and_eq_true] at hsame
  rcases hsame with (rfl | hzero) | hnan
  · rfl
  · rw [hzero.1, hzero.2]
  · simp only [isNaN, decide_eq_true_eq] at hnan
    have hx : x.magnitude ≠ 0 := by omega
    have hy : y.magnitude ≠ 0 := by omega
    rw [isZero, isZero, beq_eq_false_iff_ne.mpr hx, beq_eq_false_iff_ne.mpr hy]

/-- Numbers that compare equal are one together. -/
theorem isOne_eq_of_same {x y : Binary64} (hsame : x.same y = true) : x.isOne = y.isOne := by
  simp only [same, Bool.or_eq_true, beq_iff_eq, Bool.and_eq_true] at hsame
  rcases hsame with (rfl | hzero) | hnan
  · rfl
  · simp only [isZero, beq_iff_eq] at hzero
    simp [isOne, hzero.1, hzero.2]
  · simp only [isNaN, decide_eq_true_eq] at hnan
    have hlt : 1023 <<< 52 < infinity := by decide
    have hx : x.magnitude ≠ 1023 <<< 52 := by omega
    have hy : y.magnitude ≠ 1023 <<< 52 := by omega
    simp only [isOne, beq_eq_false_iff_ne.mpr hx, beq_eq_false_iff_ne.mpr hy, Bool.and_false]

end Binary64

end PrefixLogic
