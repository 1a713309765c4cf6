import BrowserTrace.Json.Basic
import BrowserTrace.Number.Natural

/-! # The pieces of JSON text

Blank space, words, strings and numbers are read from the front of a list of characters, and what
is left is returned. A reader tells text that is cut off from text that is malformed, and both from
a value of another type than the one asked for.
-/

namespace BrowserTrace.Json

/-- What is wrong with JSON text: a value of another shape than expected, text that is no JSON, or
an end where more must come. -/
inductive Fault where
  | mismatch
  | malformed
  | cutOff
deriving DecidableEq, Repr

/-! ## Space and words -/

/-- The blank characters of JSON. -/
def isSpace (c : Char) : Bool := c == ' ' || c == '\n' || c == '\t' || c == '\r'

/-- Skips blank characters. -/
def skipSpace (s : List Char) : List Char := s.dropWhile isSpace

theorem skipSpace_length_le (s : List Char) : (skipSpace s).length ≤ s.length :=
  (List.dropWhile_sublist isSpace).length_le

/-- Reads exactly these letters. -/
def readLetters : (letters : List Char) → List Char → Except Fault (List Char)
  | [], s => .ok s
  | _ :: _, [] => .error .cutOff
  | l :: letters, c :: s => if c = l then readLetters letters s else .error .malformed

theorem readLetters_length_le {letters s r : List Char} (h : readLetters letters s = .ok r) :
    r.length ≤ s.length := by
  fun_induction readLetters letters s <;> grind

/-! ## Strings -/

/-- The value of a hexadecimal digit. -/
def hexValue? (c : Char) : Option Nat :=
  if c.isDigit then some (c.toNat - '0'.toNat)
  else if 'a' ≤ c && c ≤ 'f' then some (c.toNat - 'a'.toNat + 10)
  else if 'A' ≤ c && c ≤ 'F' then some (c.toNat - 'A'.toNat + 10)
  else none

/-- Reads four hexadecimal digits. -/
def readHex : List Char → Except Fault (Nat × List Char)
  | a :: b :: c :: d :: rest =>
    match hexValue? a, hexValue? b, hexValue? c, hexValue? d with
    | some a, some b, some c, some d => .ok (((a * 16 + b) * 16 + c) * 16 + d, rest)
    | _, _, _, _ => .error .malformed
  | short =>
    if short.foldl (fun n c => n + c.utf8Size) 0 < 4 then .error .cutOff else .error .malformed

theorem readHex_length {s r : List Char} {n : Nat} (h : readHex s = .ok (n, r)) :
    r.length + 4 = s.length := by
  unfold readHex at h
  split at h
  · split at h
    · simp only [Except.ok.injEq, Prod.mk.injEq] at h
      simp [← h.2]
    · simp at h
  · split at h <;> simp at h

/-- Whether a code unit is the first half of a pair. -/
def isHighHalf (n : Nat) : Bool := 0xD800 ≤ n && n ≤ 0xDBFF

/-- Whether a code unit is the second half of a pair. -/
def isLowHalf (n : Nat) : Bool := 0xDC00 ≤ n && n ≤ 0xDFFF

/-- Reads the digits of a `\u` escape; a first half takes the escape of the second half with it,
and neither half stands alone. -/
def readUnicode (s : List Char) : Except Fault (Char × List Char) :=
  match readHex s with
  | .error e => .error e
  | .ok (n, rest) =>
    if isLowHalf n then .error .malformed
    else if !isHighHalf n then .ok (Char.ofNat n, rest)
    else
      match rest with
      | [] | ['\\'] => .error .cutOff
      | '\\' :: 'u' :: rest =>
        match readHex rest with
        | .error e => .error e
        | .ok (m, rest) =>
          if isLowHalf m then .ok (Char.ofNat ((n - 0xD800) * 1024 + (m - 0xDC00) + 0x10000), rest)
          else .error .malformed
      | _ => .error .malformed

theorem readUnicode_length_lt {s r : List Char} {c : Char} (h : readUnicode s = .ok (c, r)) :
    r.length < s.length := by
  unfold readUnicode at h
  split at h
  · simp at h
  · next n rest hn =>
    have := readHex_length hn
    split at h
    · simp at h
    · split at h
      · simp only [Except.ok.injEq, Prod.mk.injEq] at h
        rw [← h.2]
        omega
      · split at h
        · simp at h
        · simp at h
        · split at h
          · simp at h
          · next m rest' hm =>
            have := readHex_length hm
            split at h
            · simp only [Except.ok.injEq, Prod.mk.injEq] at h
              rw [← h.2]
              simp only [List.length_cons] at *
              omega
            · simp at h
        · simp at h

/-- Reads an escape after its backslash. -/
def readEscape : List Char → Except Fault (Char × List Char)
  | [] => .error .cutOff
  | '"' :: rest => .ok ('"', rest)
  | '\\' :: rest => .ok ('\\', rest)
  | '/' :: rest => .ok ('/', rest)
  | 'b' :: rest => .ok ('\x08', rest)
  | 'f' :: rest => .ok ('\x0c', rest)
  | 'n' :: rest => .ok ('\n', rest)
  | 'r' :: rest => .ok ('\r', rest)
  | 't' :: rest => .ok ('\t', rest)
  | 'u' :: rest => readUnicode rest
  | _ :: _ => .error .malformed

theorem readEscape_length_lt {s r : List Char} {c : Char} (h : readEscape s = .ok (c, r)) :
    r.length < s.length := by
  unfold readEscape at h
  split at h
  all_goals first
    | exact Nat.lt_succ_of_lt (readUnicode_length_lt h)
    | simp only [Except.ok.injEq, Prod.mk.injEq, reduceCtorEq] at h
      simp [← h.2]
    | simp at h

/-- Reads a string after its opening quote, behind the characters in `acc`, of which the newest is
first. -/
def readString (s acc : List Char) : Except Fault (String × List Char) :=
  match s with
  | [] => .error .cutOff
  | c :: rest =>
    if c = '"' then .ok (String.ofList acc.reverse, rest)
    else if c = '\\' then
      match _escape : readEscape rest with
      | .error e => .error e
      | .ok (c, rest) => readString rest (c :: acc)
    else if c.toNat < 32 then .error .malformed
    else readString rest (c :: acc)
termination_by s.length
decreasing_by
  · exact Nat.lt_succ_of_lt (readEscape_length_lt _escape)
  · exact Nat.lt_succ_self _

theorem readString_length_lt {s acc r : List Char} {t : String}
    (h : readString s acc = .ok (t, r)) : r.length < s.length := by
  fun_induction readString s acc <;> grind [→ readEscape_length_lt]

/-- Skips a string after its opening quote. Halves of pairs may stand alone in it. -/
def skipString (s : List Char) : Except Fault (List Char) :=
  match s with
  | [] => .error .cutOff
  | c :: rest =>
    if c = '"' then .ok rest
    else if c = '\\' then
      match rest with
      | [] => .error .cutOff
      | 'u' :: rest =>
        match _hex : readHex rest with
        | .error e => .error e
        | .ok (_, rest) => skipString rest
      | e :: rest =>
        if ['"', '\\', '/', 'b', 'f', 'n', 'r', 't'].contains e then skipString rest
        else .error .malformed
    else if c.toNat < 32 then .error .malformed
    else skipString rest
termination_by s.length
decreasing_by
  · have := readHex_length _hex
    simp only [List.length_cons]
    omega
  · simp only [List.length_cons]
    omega
  · exact Nat.lt_succ_self _

theorem skipString_length_lt {s r : List Char} (h : skipString s = .ok r) :
    r.length < s.length := by
  fun_induction skipString s <;> grind [→ readHex_length]

end BrowserTrace.Json
