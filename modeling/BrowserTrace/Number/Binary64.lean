/-! # Finite binary floating-point numbers

A `Binary64` is a sign and a magnitude `significand * 2 ^ exponent`, in the one canonical form that
the double-precision format has for it, so equality of the fields is equality of the numbers (and
tells `-0` from `0`). All arithmetic is exact arithmetic on natural numbers followed by one
rounding, to nearest with ties to even; a result too large for the format is no `Binary64`.
-/

namespace BrowserTrace.Number

/-- `num / den` rounded to the nearest natural number, a half going to the even neighbour. -/
def roundDiv (num den : Nat) : Nat :=
  let floor := num / den
  let rest := 2 * (num % den)
  if rest < den then floor
  else if den < rest then floor + 1
  else if floor % 2 = 0 then floor
  else floor + 1

/-- A quotient without a remainder is not changed by rounding. -/
theorem roundDiv_mul (n : Nat) {den : Nat} (h : 0 < den) : roundDiv (n * den) den = n := by
  simp [roundDiv, Nat.mul_mod_left, Nat.mul_div_cancel _ h, h]

/-- The least significand of 53 bits, which is `2 ^ 52`. -/
def leastNormal : Nat := 0x10000000000000

/-- The canonical magnitudes: 53 bits, of which the first is set unless the exponent is the least
one. -/
def Canonical (significand : Nat) (exponent : Int) : Prop :=
  significand < 2 * leastNormal ∧ -1074 ≤ exponent ∧ exponent ≤ 971 ∧
    (leastNormal ≤ significand ∨ exponent = -1074)

instance (significand : Nat) (exponent : Int) : Decidable (Canonical significand exponent) :=
  inferInstanceAs (Decidable (_ ∧ _ ∧ _ ∧ _))

/-- A finite double-precision number. -/
structure Binary64 where
  negative : Bool
  significand : Nat
  exponent : Int
  canonical : Canonical significand exponent
deriving DecidableEq, Repr

namespace Binary64

/-- Zero with the given sign. -/
def zero (negative : Bool) : Binary64 := ⟨negative, 0, -1074, by decide⟩

instance : Inhabited Binary64 := ⟨zero false⟩

/-- The number with the opposite sign. -/
def neg (x : Binary64) : Binary64 := { x with negative := !x.negative }

/-- Whether the number is `0` or `-0`. -/
def isZero (x : Binary64) : Bool := x.significand == 0

/-! ## Rounding a fraction -/

/-- The fraction `num / den` divided by `2 ^ exponent`. -/
def descale (num den : Nat) (exponent : Int) : Nat × Nat :=
  (num * Nat.pow 2 (-exponent).toNat, den * Nat.pow 2 exponent.toNat)

/-- The exponent at which `num / den` has 53 bits before the point, or the least exponent when that
is larger. -/
def exponentOf (num den : Nat) : Int :=
  let low := max ((Nat.log2 num : Int) - Nat.log2 den - 53) (-1074)
  let (n, d) := descale num den low
  if n / d < 2 * leastNormal then low else low + 1

/-- The number nearest to `± num / den`, ties to even; nothing when it is too large. -/
def ofRatio? (negative : Bool) (num den : Nat) : Option Binary64 :=
  if num = 0 then
    some (zero negative)
  else
    let exponent := exponentOf num den
    let (n, d) := descale num den exponent
    let significand := roundDiv n d
    let (significand, exponent) :=
      if significand = 2 * leastNormal then (leastNormal, exponent + 1) else (significand, exponent)
    if h : Canonical significand exponent then
      some ⟨negative, significand, exponent, h⟩
    else
      none

/-- The number nearest to a natural number. -/
def ofNat? (n : Nat) : Option Binary64 := ofRatio? false n 1

/-- The number nearest to an integer. Zero is positive. -/
def ofInt? (i : Int) : Option Binary64 := ofRatio? (decide (i < 0)) i.natAbs 1

/-- The number nearest to `± coefficient * 10 ^ exponent`. An exponent far outside the format's
range decides the answer without being raised to. -/
def ofDecimal? (negative : Bool) (coefficient : Nat) (exponent : Int) : Option Binary64 :=
  let top := (Nat.toDigits 10 coefficient).length + exponent
  if coefficient = 0 ∨ top < -400 then some (zero negative)
  else if 400 < top then none
  else ofRatio? negative (coefficient * Nat.pow 10 exponent.toNat) (Nat.pow 10 (-exponent).toNat)

/-! ## Values -/

/-- The magnitude as a fraction. -/
def ratio (x : Binary64) : Nat × Nat :=
  (x.significand * Nat.pow 2 x.exponent.toNat, Nat.pow 2 (-x.exponent).toNat)

/-- The magnitude without its fraction. -/
def truncate (x : Binary64) : Nat :=
  x.ratio.1 / x.ratio.2

/-- The magnitude rounded to the nearest natural number, a half going up. -/
def roundHalfUp (x : Binary64) : Nat :=
  (2 * x.ratio.1 + x.ratio.2) / (2 * x.ratio.2)

/-- The integer that the number is, if it is one. -/
def toInt? (x : Binary64) : Option Int :=
  if x.ratio.1 % x.ratio.2 = 0 then
    some (if x.negative then -(x.truncate : Int) else x.truncate)
  else
    none

/-! ## Products and quotients -/

/-- The product, rounded once. -/
def mul? (x y : Binary64) : Option Binary64 :=
  ofRatio? (x.negative != y.negative) (x.ratio.1 * y.ratio.1) (x.ratio.2 * y.ratio.2)

/-- The quotient, rounded once; there is none by zero. -/
def div? (x y : Binary64) : Option Binary64 :=
  if y.isZero then none
  else ofRatio? (x.negative != y.negative) (x.ratio.1 * y.ratio.2) (x.ratio.2 * y.ratio.1)

end Binary64

end BrowserTrace.Number
