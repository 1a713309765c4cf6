import BrowserTrace.Number.Binary64

/-! # Decimal text of floating-point numbers

A floating-point number is written with the fewest digits that read back as the same number; of
several such decimals, with the nearest one. How those digits are laid out (where the exponent form
begins, whether a whole number keeps a point) is a `Layout`.
-/

namespace BrowserTrace.Number

/-- The number of decimal digits of a natural number; zero has one. -/
def digitCount (n : Nat) : Nat := (Nat.toDigits 10 n).length

/-- The decimal `coefficient * 10 ^ exponent`. -/
structure Decimal where
  coefficient : Nat
  exponent : Int
deriving DecidableEq, Repr

namespace Decimal

/-- The same decimal without zeros at the end of its coefficient. -/
def trimZeros (d : Decimal) : Decimal :=
  if h : 0 < d.coefficient ∧ d.coefficient % 10 = 0 then
    trimZeros ⟨d.coefficient / 10, d.exponent + 1⟩
  else
    d
termination_by d.coefficient
decreasing_by exact Nat.div_lt_self h.1 (by decide)

end Decimal

namespace Binary64

/-- The decimal exponent of the leading digit of the fraction `num / den`. -/
def leadingExponent (num den : Nat) : Int :=
  if den ≤ num then
    (digitCount (num / den) : Int) - 1
  else
    let k := digitCount (den / num) - 1
    if den ≤ num * Nat.pow 10 k then -(k : Int) else -(k : Int) - 1

/-- The reals that round to `x`: four times the two ends, in units of `2 ^ x.exponent`. The lower
neighbour of a power of two is half as far away. -/
def interval (x : Binary64) : Nat × Nat :=
  let below := if x.significand = leastNormal ∧ -1074 < x.exponent then 1 else 2
  (4 * x.significand - below, 4 * x.significand + 2)

/-- The two factors that bring quarters of `2 ^ x.exponent` and multiples of `10 ^ place` to one
unit. -/
def scales (x : Binary64) (place : Int) : Nat × Nat :=
  (Nat.pow 2 x.exponent.toNat * Nat.pow 10 (-place).toNat,
    4 * Nat.pow 2 (-x.exponent).toNat * Nat.pow 10 place.toNat)

/-- Whether a decimal reads back as the magnitude of `x`. -/
def readsBack (x : Binary64) (d : Decimal) : Bool :=
  let (left, right) := x.scales d.exponent
  let (low, high) := x.interval
  let scaled := d.coefficient * right
  if x.significand % 2 = 0 then low * left ≤ scaled && scaled ≤ high * left
  else low * left < scaled && scaled < high * left

/-- The decimal of `digits` digits that is nearest to `x`, if it reads back as `x`. -/
def decimalOf? (x : Binary64) (digits : Nat) : Option Decimal :=
  let (num, den) := x.ratio
  let place := leadingExponent num den - (digits - 1 : Nat)
  let (left, right) := x.scales place
  let value := 4 * x.significand * left
  let floor := value / right
  let down := value - floor * right
  let up := (floor + 1) * right - value
  match x.readsBack ⟨floor, place⟩, x.readsBack ⟨floor + 1, place⟩ with
  | true, true =>
    some ⟨if down < up || (down == up && floor % 2 == 0) then floor else floor + 1, place⟩
  | true, false => some ⟨floor, place⟩
  | false, true => some ⟨floor + 1, place⟩
  | false, false => none

/-- The shortest decimal that reads back as the magnitude of `x`. Seventeen digits always do. -/
def shortest (x : Binary64) : Decimal :=
  if x.isZero then ⟨0, 0⟩
  else
    match (List.range 17).findSome? fun i => x.decimalOf? (i + 1) with
    | some d => d.trimZeros
    | none => ⟨x.truncate, 0⟩

end Binary64

/-! ## Layout -/

/-- How digits are laid out: in positional notation when the exponent of the leading digit is from
`positionalFrom` (if there is a bound) and below `positionalBelow`, else with an exponent; and
whether a whole number keeps `.0`. -/
structure Layout where
  positionalFrom : Option Int
  positionalBelow : Option Int
  keepsPoint : Bool

namespace Layout

/-- Whether a leading digit at this exponent is written positionally. -/
def isPositional (style : Layout) (exponent : Int) : Bool :=
  style.positionalFrom.all (decide <| · ≤ exponent) &&
    style.positionalBelow.all (decide <| exponent < ·)

/-- The digits with a point after `whole` of them, zeros filling up on either side. -/
def point (digits : List Char) (whole : Int) (keepsPoint : Bool) : List Char :=
  let fraction := if keepsPoint then ['.', '0'] else []
  if whole ≤ 0 then
    '0' :: '.' :: (List.replicate (-whole).toNat '0' ++ digits)
  else if digits.length ≤ whole.toNat then
    digits ++ List.replicate (whole.toNat - digits.length) '0' ++ fraction
  else
    digits.take whole.toNat ++ '.' :: digits.drop whole.toNat

/-- The text of `x`. -/
def render (style : Layout) (x : Binary64) : List Char :=
  let decimal := x.shortest
  let digits := Nat.toDigits 10 decimal.coefficient
  let exponent := decimal.exponent + digits.length - 1
  let sign := if x.negative then ['-'] else []
  if style.isPositional exponent then
    sign ++ point digits (exponent + 1) style.keepsPoint
  else
    let mantissa := if digits.length = 1 then digits else point digits 1 false
    let mark := if exponent < 0 then ['e', '-'] else ['e', '+']
    sign ++ mantissa ++ mark ++ Nat.toDigits 10 exponent.natAbs

end Layout

end BrowserTrace.Number
