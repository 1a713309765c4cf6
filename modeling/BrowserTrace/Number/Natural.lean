/-! # Natural numbers in decimal text

`readNat?` reads a run of ASCII digits and nothing else. `readWord?` allows a plus sign before it
and reads no number above the largest 64-bit one.
-/

namespace BrowserTrace.Number

/-- The largest 64-bit word. -/
def maxWord : Nat := 0xFFFFFFFFFFFFFFFF

/-- The value of an ASCII digit. -/
def digitValue (c : Char) : Nat := c.toNat - '0'.toNat

/-- The value of digits read from left to right. -/
def digitsValue (cs : List Char) : Nat :=
  cs.foldl (fun n c => 10 * n + digitValue c) 0

/-- The number that a non-empty text of ASCII digits denotes. -/
def readNat? (cs : List Char) : Option Nat :=
  if !cs.isEmpty && cs.all Char.isDigit then some (digitsValue cs) else none

/-- The 64-bit number that ASCII digits denote, after a plus sign or without one. -/
def readWord? (cs : List Char) : Option Nat :=
  let digits := match cs with
    | '+' :: rest => rest
    | _ => cs
  (readNat? digits).filter (· ≤ maxWord)

end BrowserTrace.Number
