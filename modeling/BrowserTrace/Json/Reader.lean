import BrowserTrace.Json.Parser

/-! # Reading any JSON value

Arrays and objects may be nested to a depth of 127. Of members with the same key the last one
counts, and the members of an object that was read stand in the order of their keys.
-/

namespace BrowserTrace.Json

/-- How deeply arrays and objects may be nested. -/
def maxDepth : Nat := 127

namespace Parser

/-- Reads a value that is neither an array nor an object. -/
def scalar (s : List Char) : Result Json :=
  match s with
  | [] => failHere .cutOff
  | 'n' :: rest => (here (readLetters ['u', 'l', 'l'] rest)).map (null, ·)
  | 't' :: rest => (here (readLetters ['r', 'u', 'e'] rest)).map (bool true, ·)
  | 'f' :: rest => (here (readLetters ['a', 'l', 's', 'e'] rest)).map (bool false, ·)
  | '"' :: rest => (here (readString rest [])).map fun (t, rest) => (string t, rest)
  | c :: rest =>
    if c = '-' ∨ c.isDigit then
      (here (readNumber (c :: rest))).map fun (n, rest) => (Json.number n, rest)
    else failHere .malformed

theorem scalar_length_lt {s r : List Char} {v : Json} (h : scalar s = .ok (v, r)) :
    r.length < s.length := by
  unfold scalar at h
  split at h
  · simp [failHere] at h
  · next rest =>
    cases hl : readLetters ['u', 'l', 'l'] rest <;> simp [hl, here, Except.map] at h
    rw [← h.2]
    exact Nat.lt_succ_of_le (readLetters_length_le hl)
  · next rest =>
    cases hl : readLetters ['r', 'u', 'e'] rest <;> simp [hl, here, Except.map] at h
    rw [← h.2]
    exact Nat.lt_succ_of_le (readLetters_length_le hl)
  · next rest =>
    cases hl : readLetters ['a', 'l', 's', 'e'] rest <;> simp [hl, here, Except.map] at h
    rw [← h.2]
    exact Nat.lt_succ_of_le (readLetters_length_le hl)
  · next rest =>
    cases hl : readString rest [] <;> simp [hl, here, Except.map] at h
    rw [← h.2]
    exact Nat.lt_succ_of_lt (readString_length_lt hl)
  · next c rest _ _ _ _ =>
    split at h
    · cases hl : readNumber (c :: rest) <;> simp [hl, here, Except.map] at h
      rw [← h.2]
      exact readNumber_length_lt hl
    · simp [failHere] at h

/-- Reads a value that is nested at most `depth` deep. -/
def value : (depth : Nat) → Parser Json
  | 0 => {
      run s :=
        match skipSpace s with
        | '[' :: _ | '{' :: _ => failHere .malformed
        | s => scalar s
      shorter {s v r} h := by
        have hs := skipSpace_length_le s
        split at h
        · simp [failHere] at h
        · simp [failHere] at h
        · have := scalar_length_lt h
          omega }
  | depth + 1 => {
      run s :=
        match skipSpace s with
        | '[' :: rest =>
          (elements (value depth) 0 rest []).map fun (items, rest) => (array items, rest)
        | '{' :: rest =>
          (members (fun acc key => .ok ((value depth).map fun v => (key, v) :: acc)) true rest
            []).map fun (acc, rest) => (ofMembers acc.reverse, rest)
        | s => scalar s
      shorter {s v r} h := by
        have hs := skipSpace_length_le s
        split at h
        · next rest heq =>
          cases hl : elements (value depth) 0 rest [] <;> simp [hl, Except.map] at h
          have := elements_length_le hl
          simp only [heq, List.length_cons, h.2] at *
          omega
        · next rest heq =>
          cases hl : members (fun acc key => .ok ((value depth).map fun v => (key, v) :: acc))
            true rest [] <;> simp [hl, Except.map] at h
          have := members_length_lt hl
          simp only [heq, List.length_cons, h.2] at *
          omega
        · have := scalar_length_lt h
          omega }

/-- Reads a text that is one value with blanks around it. -/
def whole {α : Type} (p : Parser α) (s : List Char) : Option α :=
  match p.run s with
  | .ok (a, rest) => if skipSpace rest = [] then some a else none
  | .error _ => none

end Parser

/-- The value that a text is. -/
def parse? (s : List Char) : Option Json :=
  (Parser.value maxDepth).whole s

end BrowserTrace.Json
