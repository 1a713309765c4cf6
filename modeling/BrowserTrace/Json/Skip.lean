import BrowserTrace.Json.NumberText

/-! # Skipping a value

A value that nobody asked for is skipped: only its form is checked, however deeply it is nested. The
arrays and objects that are open at a place are kept in a list, the innermost first.
-/

namespace BrowserTrace.Json

/-- An open array or object. -/
inductive Frame where
  | array
  | object
deriving DecidableEq, Repr

/-- Skips a word, a string or a number. -/
def skipScalar : List Char → Except Fault (List Char)
  | [] => .error .cutOff
  | 'n' :: rest => readLetters ['u', 'l', 'l'] rest
  | 't' :: rest => readLetters ['r', 'u', 'e'] rest
  | 'f' :: rest => readLetters ['a', 'l', 's', 'e'] rest
  | '"' :: rest => skipString rest
  | c :: rest => if c = '-' ∨ c.isDigit then skipNumber (c :: rest) else .error .malformed

theorem skipScalar_length_lt {s r : List Char} (h : skipScalar s = .ok r) :
    r.length < s.length := by
  unfold skipScalar at h
  split at h
  · simp at h
  · exact Nat.lt_succ_of_le (readLetters_length_le h)
  · exact Nat.lt_succ_of_le (readLetters_length_le h)
  · exact Nat.lt_succ_of_le (readLetters_length_le h)
  · exact Nat.lt_succ_of_lt (skipString_length_lt h)
  · split at h
    · exact skipNumber_length_lt h
    · simp at h

/-- Skips the key of a member with the colon after it; the key is next or an error. -/
def skipKey (s : List Char) : Except Fault (List Char) :=
  match skipSpace s with
  | [] => .error .cutOff
  | '"' :: rest =>
    match skipString rest with
    | .error e => .error e
    | .ok rest =>
      match skipSpace rest with
      | [] => .error .cutOff
      | ':' :: rest => .ok rest
      | _ :: _ => .error .malformed
  | _ :: _ => .error .malformed

theorem skipKey_length_lt {s r : List Char} (h : skipKey s = .ok r) : r.length < s.length := by
  have hs := skipSpace_length_le s
  unfold skipKey at h
  split at h
  · simp at h
  · next rest heq =>
    split at h
    · simp at h
    · next rest' hr =>
      have := skipString_length_lt hr
      have := skipSpace_length_le rest'
      split at h
      · simp at h
      · next rest'' heq' =>
        simp only [Except.ok.injEq] at h
        rw [heq] at hs
        simp only [heq', List.length_cons, h] at *
        omega
      · simp at h
  · simp at h

/-- What comes next in a value that is being skipped: a value, or what may follow one. -/
inductive Expect where
  | value
  | follow
deriving DecidableEq, Repr

/-- One step: skips a piece, and tells what comes next with which arrays and objects open. -/
def skipStep (expect : Expect) (frames : List Frame) (s : List Char) :
    Except Fault (Expect × List Frame × List Char) :=
  match expect, skipSpace s with
  | _, [] => .error .cutOff
  | .value, '[' :: rest =>
    match skipSpace rest with
    | ']' :: rest => .ok (.follow, frames, rest)
    | _ => .ok (.value, .array :: frames, rest)
  | .value, '{' :: rest =>
    match skipSpace rest with
    | '}' :: rest => .ok (.follow, frames, rest)
    | _ =>
      match skipKey rest with
      | .error e => .error e
      | .ok rest => .ok (.value, .object :: frames, rest)
  | .value, c :: rest =>
    match skipScalar (c :: rest) with
    | .error e => .error e
    | .ok rest => .ok (.follow, frames, rest)
  | .follow, c :: rest =>
    match c, frames with
    | ',', .array :: _ => .ok (.value, frames, rest)
    | ']', .array :: frames => .ok (.follow, frames, rest)
    | ',', .object :: _ =>
      match skipKey rest with
      | .error e => .error e
      | .ok rest => .ok (.value, frames, rest)
    | '}', .object :: frames => .ok (.follow, frames, rest)
    | _, _ => .error .malformed

theorem skipStep_length_lt {expect expect' : Expect} {frames frames' : List Frame}
    {s r : List Char} (h : skipStep expect frames s = .ok (expect', frames', r)) :
    r.length < s.length := by
  have hs := skipSpace_length_le s
  unfold skipStep at h
  split at h
  · simp at h
  · next rest heq =>
    have := skipSpace_length_le rest
    rw [heq] at hs
    split at h
    · next heq' =>
      simp only [Except.ok.injEq, Prod.mk.injEq] at h
      simp only [heq', h.2.2, List.length_cons] at *
      omega
    · simp only [Except.ok.injEq, Prod.mk.injEq] at h
      simp only [h.2.2, List.length_cons] at *
      omega
  · next rest heq =>
    have := skipSpace_length_le rest
    rw [heq] at hs
    split at h
    · next heq' =>
      simp only [Except.ok.injEq, Prod.mk.injEq] at h
      simp only [heq', h.2.2, List.length_cons] at *
      omega
    · split at h
      · simp at h
      · next hk =>
        have := skipKey_length_lt hk
        simp only [Except.ok.injEq, Prod.mk.injEq] at h
        simp only [h.2.2, List.length_cons] at *
        omega
  · next c rest _ _ heq =>
    rw [heq] at hs
    split at h
    · simp at h
    · next hr =>
      have := skipScalar_length_lt hr
      simp only [Except.ok.injEq, Prod.mk.injEq] at h
      simp only [h.2.2, List.length_cons] at *
      omega
  · next c rest heq =>
    rw [heq] at hs
    split at h
    all_goals first
      | (simp only [Except.ok.injEq, Prod.mk.injEq, reduceCtorEq] at h
         simp only [h.2.2, List.length_cons] at *
         omega)
      | (split at h
         · simp at h
         · next hk =>
           have := skipKey_length_lt hk
           simp only [Except.ok.injEq, Prod.mk.injEq] at h
           simp only [h.2.2, List.length_cons] at *
           omega)
      | simp at h

/-- Skips on until the value is over. -/
def skipFrom (expect : Expect) (frames : List Frame) (s : List Char) :
    Except Fault (List Char) :=
  if expect = .follow ∧ frames = [] then .ok s
  else
    match _step : skipStep expect frames s with
    | .error e => .error e
    | .ok (expect, frames, rest) => skipFrom expect frames rest
termination_by s.length
decreasing_by exact skipStep_length_lt _step

/-- Skips a value. -/
def skipValue (s : List Char) : Except Fault (List Char) := skipFrom .value [] s

theorem skipFrom_length_le {expect : Expect} {frames : List Frame} {s r : List Char}
    (h : skipFrom expect frames s = .ok r) : r.length ≤ s.length := by
  fun_induction skipFrom expect frames s <;> grind [→ skipStep_length_lt]

theorem skipValue_length_lt {s r : List Char} (h : skipValue s = .ok r) :
    r.length < s.length := by
  unfold skipValue at h
  rw [skipFrom] at h
  split at h
  · next hv => simp at hv
  · split at h
    · simp at h
    · next hs => exact Nat.lt_of_le_of_lt (skipFrom_length_le h) (skipStep_length_lt hs)

end BrowserTrace.Json
