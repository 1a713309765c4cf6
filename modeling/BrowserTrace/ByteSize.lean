import BrowserTrace.Number.Decimal
import BrowserTrace.Number.Natural
import BrowserTrace.Text.Blank

/-! # Sizes in bytes

A size is shown in the largest binary unit that it reaches, with one decimal. It is read from a
plain number of bytes, or from a number with a unit, decimal (`MB`) or binary (`MiB`). Without a
decimal point reading is exact; with one it is double-precision arithmetic, cut to whole bytes. A
size too large for 64 bits is read as the largest one.
-/

namespace BrowserTrace

/-- A number of bytes. -/
structure ByteSize where
  bytes : Nat
deriving DecidableEq, Repr, Inhabited

namespace ByteSize

open Number (Binary64 roundDiv)

/-- So many binary megabytes. -/
def mebibytes (n : Nat) : ByteSize := ⟨n * Nat.pow 1024 2⟩

/-- So many binary gigabytes. -/
def gibibytes (n : Nat) : ByteSize := ⟨n * Nat.pow 1024 3⟩

/-! ## Showing a size -/

/-- The size as a double-precision number of bytes. -/
def approximate (s : ByteSize) : Nat :=
  match Binary64.ofNat? s.bytes with
  | some x => x.truncate
  | none => s.bytes

/-- The largest unit that `n` bytes reach among `letter :: letters`, where one `letter` is
`factor` bytes. -/
def unitFor (n : Nat) (letter : Char) (factor : Nat) : List Char → Char × Nat
  | [] => (letter, factor)
  | next :: letters =>
    if n < factor * 1024 then (letter, factor) else unitFor n next (factor * 1024) letters

/-- The text of a size: `N B` below 1024 bytes, else one decimal (a half goes to the even digit)
and a binary unit. -/
def display (s : ByteSize) : String :=
  if s.bytes < 1024 then
    s!"{s.bytes} B"
  else
    let n := s.approximate
    let (letter, factor) := unitFor n 'K' 1024 ['M', 'G', 'T', 'P', 'E']
    let tenths := roundDiv (n * 10) factor
    s!"{tenths / 10}.{tenths % 10} {letter}iB"

/-! ## Reading a size -/

/-- The number of bytes of a unit, whose name is in lower case. -/
def unitFactor? (name : String) : Option Nat :=
  match name with
  | "b" => some 1
  | "k" | "kb" => some 1000
  | "m" | "mb" => some (Nat.pow 1000 2)
  | "g" | "gb" => some (Nat.pow 1000 3)
  | "t" | "tb" => some (Nat.pow 1000 4)
  | "p" | "pb" => some (Nat.pow 1000 5)
  | "e" | "eb" => some (Nat.pow 1000 6)
  | "ki" | "kib" => some 1024
  | "mi" | "mib" => some (Nat.pow 1024 2)
  | "gi" | "gib" => some (Nat.pow 1024 3)
  | "ti" | "tib" => some (Nat.pow 1024 4)
  | "pi" | "pib" => some (Nat.pow 1024 5)
  | "ei" | "eib" => some (Nat.pow 1024 6)
  | _ => none

/-- The bytes of the decimal `whole.fraction` in a unit, in double precision. -/
def scaled (whole fraction : List Char) (factor : Nat) : Nat :=
  let product := do
    let x ← Binary64.ofDecimal? false (Number.digitsValue (whole ++ fraction)) (-fraction.length)
    let unit ← Binary64.ofNat? factor
    x.mul? unit
  match product with
  | some x => x.truncate
  | none => Number.maxWord

/-- The bytes of a number of units; the number has digits and at most one decimal point. -/
def amount? (number : List Char) (factor : Nat) : Option Nat :=
  let whole := number.takeWhile (· ≠ '.')
  match number.dropWhile (· ≠ '.') with
  | [] => (Number.readNat? whole).map (· * factor)
  | _ :: fraction =>
    if (whole ++ fraction).isEmpty || fraction.contains '.' then none
    else some (scaled whole fraction factor)

/-- Reads a size: a 64-bit number of bytes, or digits with at most one decimal point, then blanks,
then a unit in any case. -/
def parse? (text : String) : Option ByteSize :=
  let cs := text.toList
  match Number.readWord? cs with
  | some n => some ⟨n⟩
  | none =>
    let isNumeral (c : Char) : Bool := c.isDigit || c == '.'
    let name := (cs.dropWhile isNumeral).dropWhile Text.isBlank
    do
      let factor ← unitFactor? (String.ofList (name.map Char.toLower))
      let n ← amount? (cs.takeWhile isNumeral) factor
      some ⟨min n Number.maxWord⟩

end ByteSize

end BrowserTrace
