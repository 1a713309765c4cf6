import BrowserTrace.Json.Lexeme

/-! # Numbers in JSON text

A number is first split into its parts and then valued. Without a fraction or an exponent, a number
that fits is an integer of 64 bits; every other number is floating-point, also `-0`. Its digits are
gathered in a 64-bit significand, and the significand and a power of ten are then combined with one
rounding each: a significand of more than 53 bits is rounded on its own, before the power of ten is
applied. A number beyond the range of double precision is malformed.
-/

namespace BrowserTrace.Json

open Number (Binary64 digitValue digitsValue maxWord)

/-- The parts of a number: the digits before and after the point, and the exponent. -/
structure NumberText where
  negative : Bool
  whole : List Char
  fraction : List Char
  exponent : Int
  isPlain : Bool
deriving DecidableEq, Repr

/-! ## Splitting a number -/

/-- Reads one digit or more. -/
def readDigits (s : List Char) : Except Fault (List Char × List Char) :=
  match s with
  | [] => .error .cutOff
  | c :: _ =>
    if c.isDigit then .ok (s.takeWhile Char.isDigit, s.dropWhile Char.isDigit)
    else .error .malformed

theorem readDigits_length_lt {s ds r : List Char} (h : readDigits s = .ok (ds, r)) :
    r.length < s.length := by
  unfold readDigits at h
  split at h
  · simp at h
  · next c cs =>
    split at h
    · next hc =>
      simp only [Except.ok.injEq, Prod.mk.injEq] at h
      rw [← h.2, List.dropWhile_cons_of_pos hc]
      exact Nat.lt_succ_of_le (List.dropWhile_sublist _).length_le
    · simp at h

/-- Reads the digits before the point: `0` alone, or digits that do not begin with it. -/
def readWhole (s : List Char) : Except Fault (List Char × List Char) :=
  match readDigits s with
  | .error e => .error e
  | .ok (ds, rest) =>
    if ds.head? = some '0' && ds.length ≠ 1 then .error .malformed else .ok (ds, rest)

theorem readWhole_length_lt {s ds r : List Char} (h : readWhole s = .ok (ds, r)) :
    r.length < s.length := by
  unfold readWhole at h
  split at h
  · simp at h
  · next hd =>
    split at h
    · simp at h
    · simp only [Except.ok.injEq, Prod.mk.injEq] at h
      rw [← h.2]
      exact readDigits_length_lt hd

/-- Reads a point and digits, if a point is next. -/
def readFraction : List Char → Except Fault (List Char × List Char)
  | '.' :: rest => readDigits rest
  | s => .ok ([], s)

theorem readFraction_length_le {s ds r : List Char} (h : readFraction s = .ok (ds, r)) :
    r.length ≤ s.length := by
  unfold readFraction at h
  split at h
  · exact Nat.le_succ_of_le (Nat.le_of_lt (readDigits_length_lt h))
  · simp_all

/-- Takes a sign off, and tells whether it was a minus. -/
def readSign : List Char → Bool × List Char
  | '+' :: rest => (false, rest)
  | '-' :: rest => (true, rest)
  | s => (false, s)

theorem readSign_length_le (s : List Char) : (readSign s).2.length ≤ s.length := by
  unfold readSign
  split <;> simp

/-- Reads an exponent, if the mark of one is next. -/
def readExponent (s : List Char) : Except Fault (Option Int × List Char) :=
  match s with
  | [] => .ok (none, [])
  | c :: rest =>
    if c = 'e' ∨ c = 'E' then
      match readDigits (readSign rest).2 with
      | .error e => .error e
      | .ok (ds, r) =>
        let n : Int := digitsValue ds
        .ok (some (if (readSign rest).1 then -n else n), r)
    else
      .ok (none, s)

theorem readExponent_length_le {s r : List Char} {e : Option Int}
    (h : readExponent s = .ok (e, r)) : r.length ≤ s.length := by
  unfold readExponent at h
  split at h
  · simp_all
  · next c rest =>
    split at h
    · split at h
      · simp at h
      · next hd =>
        have := readDigits_length_lt hd
        have := readSign_length_le rest
        simp only [Except.ok.injEq, Prod.mk.injEq] at h
        rw [← h.2, List.length_cons]
        omega
    · simp_all

/-- Reads the parts of a number after its minus sign. -/
def splitNumber (negative : Bool) (s : List Char) : Except Fault (NumberText × List Char) :=
  match readWhole s with
  | .error e => .error e
  | .ok (whole, r₁) =>
    match readFraction r₁ with
    | .error e => .error e
    | .ok (fraction, r₂) =>
      match readExponent r₂ with
      | .error e => .error e
      | .ok (exponent, r₃) =>
        .ok ({
          negative, whole, fraction
          exponent := exponent.getD 0
          isPlain := fraction.isEmpty && exponent.isNone }, r₃)

theorem splitNumber_length_lt {negative : Bool} {s r : List Char} {t : NumberText}
    (h : splitNumber negative s = .ok (t, r)) : r.length < s.length := by
  unfold splitNumber at h
  split at h
  · simp at h
  · next h₁ =>
    have := readWhole_length_lt h₁
    split at h
    · simp at h
    · next h₂ =>
      have := readFraction_length_le h₂
      split at h
      · simp at h
      · next h₃ =>
        have := readExponent_length_le h₃
        simp only [Except.ok.injEq, Prod.mk.injEq] at h
        rw [← h.2]
        omega

/-! ## Valuing a number -/

/-- A significand that is being gathered, and the power of ten that goes with it. -/
structure Significand where
  value : Nat
  exponent : Int
  full : Bool
deriving DecidableEq, Repr

namespace Significand

/-- Whether a digit more still fits in 64 bits. -/
def fits (s : Significand) (digit : Nat) : Bool :=
  !s.full && 10 * s.value + digit ≤ maxWord

/-- Adds a digit before the point. From the first one that does not fit on, each counts as a power
of ten. -/
def addWhole (s : Significand) (c : Char) : Significand :=
  if s.fits (digitValue c) then { s with value := 10 * s.value + digitValue c }
  else { s with exponent := s.exponent + 1, full := true }

/-- Adds a digit after the point. From the first one that does not fit on, all are dropped. -/
def addFraction (s : Significand) (c : Char) : Significand :=
  if s.fits (digitValue c) then
    { s with value := 10 * s.value + digitValue c, exponent := s.exponent - 1 }
  else
    { s with full := true }

/-- The significand of a number and its power of ten. -/
def ofText (t : NumberText) : Significand :=
  let whole := t.whole.foldl addWhole ⟨0, 0, false⟩
  let all := t.fraction.foldl addFraction { whole with full := false }
  { all with exponent := all.exponent + t.exponent }

end Significand

/-- The largest power of ten in double precision. -/
def maxPower : Nat := 308

/-- `x` divided by `10 ^ power`, by no more than `10 ^ 308` at a time. -/
def divideByPower (x : Binary64) (power : Nat) : Option Binary64 :=
  if x.isZero then some x
  else if power ≤ maxPower then do
    x.div? (← Binary64.ofNat? (Nat.pow 10 power))
  else do
    let quotient ← x.div? (← Binary64.ofNat? (Nat.pow 10 maxPower))
    divideByPower quotient (power - maxPower)
termination_by power
decreasing_by
  simp only [maxPower] at *
  omega

/-- `x` times `10 ^ exponent`, if that is in range. -/
def scale? (x : Binary64) (exponent : Int) : Option Binary64 :=
  if x.isZero then some x
  else if exponent < 0 then divideByPower x exponent.natAbs
  else if exponent.toNat ≤ maxPower then do
    x.mul? (← Binary64.ofNat? (Nat.pow 10 exponent.toNat))
  else none

/-- The floating-point value of a number. -/
def NumberText.float? (t : NumberText) : Option Binary64 := do
  let significand := Significand.ofText t
  let x ← Binary64.ofNat? significand.value
  let x ← scale? x significand.exponent
  some (if t.negative then x.neg else x)

/-- The integer value of a number that has neither fraction nor exponent, if it fits in 64 bits.
There is no integer `-0`. -/
def NumberText.integer? (t : NumberText) : Option Int :=
  let n := digitsValue t.whole
  if !t.isPlain then none
  else if !t.negative then (if n ≤ maxWord then some n else none)
  else if n ≠ 0 ∧ n ≤ 0x8000000000000000 then some (-n) else none

/-- The value of a number. -/
def NumberText.value (t : NumberText) : Except Fault Numeral :=
  match t.integer? with
  | some i => .ok (.integer i)
  | none =>
    match t.float? with
    | some x => .ok (.float x)
    | none => .error .malformed

/-- Reads a number, whose first character is a minus sign or a digit. -/
def readNumber (s : List Char) : Except Fault (Numeral × List Char) :=
  let split := match s with
    | '-' :: rest => splitNumber true rest
    | _ => splitNumber false s
  match split with
  | .error e => .error e
  | .ok (t, rest) =>
    match t.value with
    | .error e => .error e
    | .ok n => .ok (n, rest)

theorem readNumber_length_lt {s r : List Char} {n : Numeral}
    (h : readNumber s = .ok (n, r)) : r.length < s.length := by
  unfold readNumber at h
  simp only at h
  split at h
  · simp at h
  · next t rest ht =>
    split at h
    · simp at h
    · simp only [Except.ok.injEq, Prod.mk.injEq] at h
      rw [← h.2]
      split at ht
      · exact Nat.lt_succ_of_lt (splitNumber_length_lt ht)
      · exact splitNumber_length_lt ht

/-- Skips a number. Nothing but its form is checked, and a number that is cut off is malformed. -/
def skipNumber (s : List Char) : Except Fault (List Char) :=
  let split := match s with
    | '-' :: rest => splitNumber true rest
    | _ => splitNumber false s
  match split with
  | .error _ => .error .malformed
  | .ok (_, rest) => .ok rest

theorem skipNumber_length_lt {s r : List Char} (h : skipNumber s = .ok r) :
    r.length < s.length := by
  unfold skipNumber at h
  simp only at h
  split at h
  · simp at h
  · next t rest ht =>
    simp only [Except.ok.injEq] at h
    rw [← h]
    split at ht
    · exact Nat.lt_succ_of_lt (splitNumber_length_lt ht)
    · exact splitNumber_length_lt ht

end BrowserTrace.Json
