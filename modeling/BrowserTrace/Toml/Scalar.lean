import BrowserTrace.Toml.Lexeme
import BrowserTrace.Toml.Value

/-! # Numbers, truth values and moments

A value that is neither quoted nor bracketed is a word, and the word as a whole says what it is. The
digits of a number may have single underscores between them. An integer has 64 bits; a decimal
number beyond the range of double precision is none.
-/

namespace BrowserTrace.Toml

open Number (Binary64 Extended digitsValue)

/-! ## Digits -/

/-- The digits of a number, without the underscores between them. -/
def digits? (isDigit : Char → Bool) : List Char → Option (List Char)
  | [] => none
  | [c] => if isDigit c then some [c] else none
  | c :: '_' :: rest => if isDigit c then (digits? isDigit rest).map (c :: ·) else none
  | c :: rest => if isDigit c then (digits? isDigit rest).map (c :: ·) else none

/-- The digits of a decimal number, which begins with `0` only if that is all of it. -/
def wholeDigits? (s : List Char) : Option (List Char) := do
  let digits ← digits? Char.isDigit s
  if digits.head? = some '0' ∧ 1 < digits.length then none else some digits

/-- Takes a sign off, and tells whether it was a minus. -/
def splitSign : List Char → Bool × List Char
  | '+' :: rest => (false, rest)
  | '-' :: rest => (true, rest)
  | s => (false, s)

/-! ## Integers -/

/-- The number that digits in a base denote. -/
def basedValue? (base : Nat) (s : List Char) : Option Nat := do
  let isDigit (c : Char) : Bool := (Json.hexValue? c).any (· < base)
  let digits ← digits? isDigit s
  some (digits.foldl (fun n c => base * n + (Json.hexValue? c).getD 0) 0)

/-- The integer that a word denotes, of whatever size. -/
def wholeNumber? (word : List Char) : Option Int :=
  match word with
  | '0' :: 'x' :: rest => (basedValue? 16 rest).map Int.ofNat
  | '0' :: 'o' :: rest => (basedValue? 8 rest).map Int.ofNat
  | '0' :: 'b' :: rest => (basedValue? 2 rest).map Int.ofNat
  | word => do
    let (negative, rest) := splitSign word
    let digits ← wholeDigits? rest
    let n : Int := digitsValue digits
    some (if negative then -n else n)

/-- The 64-bit integer that a word denotes. -/
def integer? (word : List Char) : Option Int :=
  (wholeNumber? word).filter fun i => Json.minInt64 ≤ i && i ≤ Json.maxInt64

/-! ## Floating-point numbers -/

/-- The number that a word for one beyond the finite numbers denotes. -/
def special? (word : List Char) : Option Extended :=
  let (negative, rest) := splitSign word
  if rest = ['i', 'n', 'f'] then some (.infinite negative)
  else if rest = ['n', 'a', 'n'] then some .nan
  else none

/-- The exponent that a text behind its mark denotes. -/
def exponent? (s : List Char) : Option Int := do
  let (negative, rest) := splitSign s
  let digits ← digits? Char.isDigit rest
  let n : Int := digitsValue digits
  some (if negative then -n else n)

/-- Whether a character marks an exponent. -/
def marksExponent (c : Char) : Bool := c == 'e' || c == 'E'

/-- The number that a word with a fraction, an exponent or both denotes. -/
def decimal? (word : List Char) : Option Binary64 := do
  let (negative, rest) := splitSign word
  let mantissa := rest.takeWhile fun c => !marksExponent c
  let exponent ← match rest.dropWhile fun c => !marksExponent c with
    | [] => some 0
    | _ :: s => exponent? s
  let whole ← wholeDigits? (mantissa.takeWhile (· ≠ '.'))
  let fraction ← match mantissa.dropWhile (· ≠ '.') with
    | [] => some []
    | _ :: s => digits? Char.isDigit s
  Binary64.ofDecimal? negative (digitsValue (whole ++ fraction)) (exponent - fraction.length)

/-! ## Words -/

/-- The value that a word denotes. -/
def scalar? (word : List Char) : Option Value :=
  if word = ['t', 'r', 'u', 'e'] then some (.boolean true)
  else if word = ['f', 'a', 'l', 's', 'e'] then some (.boolean false)
  else
    match wholeNumber? word with
    | some _ => (integer? word).map .integer
    | none =>
      ((special? word).or ((decimal? word).map .finite)).map Value.float |>.or
        ((moment? word).map .moment)

/-- Whether a character may stand in a word. -/
def isWordChar (c : Char) : Bool :=
  c.isAlphanum || c == '_' || c == '+' || c == '-' || c == '.' || c == ':'

/-- Reads a word; a time may follow its date after a single space. -/
def readWord (s : List Char) : List Char × List Char :=
  let word := s.takeWhile isWordChar
  let rest := s.dropWhile isWordChar
  match readDate word, rest with
  | some (_, []), ' ' :: c :: more =>
    if c.isDigit then
      (word ++ ' ' :: (c :: more).takeWhile isWordChar, (c :: more).dropWhile isWordChar)
    else (word, rest)
  | _, _ => (word, rest)

theorem readWord_length_le (s : List Char) : (readWord s).2.length ≤ s.length := by
  have h := (List.dropWhile_sublist (l := s) isWordChar).length_le
  unfold readWord
  simp only
  split
  · next c more _ heq =>
    have hm := (List.dropWhile_sublist (l := c :: more) isWordChar).length_le
    split
    · rw [heq] at h
      simp only [List.length_cons] at h hm ⊢
      omega
    · exact h
  · exact h

/-- Reads a value that is a word. -/
def readScalar (s : List Char) : Option (Value × List Char) :=
  (scalar? (readWord s).1).map (·, (readWord s).2)

theorem readScalar_length_le {s r : List Char} {v : Value} (h : readScalar s = some (v, r)) :
    r.length ≤ s.length := by
  obtain ⟨v', _, hv⟩ := Option.map_eq_some_iff.mp h
  rw [← (Prod.mk.inj hv).2]
  exact readWord_length_le s

end BrowserTrace.Toml
