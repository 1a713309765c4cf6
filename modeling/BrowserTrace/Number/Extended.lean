import BrowserTrace.Number.Decimal
import BrowserTrace.Number.Natural

/-! # Floating-point numbers with infinities

Some formats have words for numbers beyond the finite ones: the two infinities, and what is not a
number.
-/

namespace BrowserTrace.Number

/-- A double-precision number, finite or not. -/
inductive Extended where
  | finite (x : Binary64)
  | infinite (negative : Bool)
  | nan
deriving DecidableEq, Repr

namespace Extended

/-- The layout without an exponent: however large or small a number is, all its places are
written. -/
def positional : Layout := { positionalFrom := none, positionalBelow := none, keepsPoint := false }

/-- The text of a number, without an exponent. -/
def text : Extended → String
  | finite x => String.ofList (positional.render x)
  | infinite false => "inf"
  | infinite true => "-inf"
  | nan => "NaN"

/-- The nearest 64-bit word, a half going up; negative numbers and what is no number give zero. -/
def toWord : Extended → Nat
  | finite x => if x.negative then 0 else min x.roundHalfUp maxWord
  | infinite false => maxWord
  | infinite true | nan => 0

end Extended

end BrowserTrace.Number
