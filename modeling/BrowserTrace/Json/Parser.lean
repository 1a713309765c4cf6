import BrowserTrace.Path
import BrowserTrace.Json.Skip

/-! # Readers of JSON text

A `Parser α` reads a value of one type from the front of a text. It consumes at least one character
whenever it succeeds, which is part of the type, so that arrays and objects can be read by
recursion on what is left. An error says what is wrong and at which place of the value that is
being read; each reader of an array or object adds its own step in front of the places inside its
elements and values. A fault between elements, or between a key and its value, is one of the array
or object itself; one where a key should stand is under a key that is unknown.
-/

namespace BrowserTrace.Json

/-- What is wrong with a text, and where. -/
structure ReadError where
  fault : Fault
  path : Path
deriving DecidableEq, Repr

namespace ReadError

/-- The error one step further in. -/
def under (step : PathStep) (e : ReadError) : ReadError := { e with path := step :: e.path }

end ReadError

/-- The result of reading: a value and the rest of the text. -/
abbrev Result (α : Type) := Except ReadError (α × List Char)

/-- An error at the place that is being read. -/
def failHere {α : Type} (fault : Fault) : Result α := .error ⟨fault, []⟩

/-- Takes the place of an error to be the one that is being read. -/
def here {α : Type} : Except Fault α → Except ReadError α
  | .ok a => .ok a
  | .error fault => .error ⟨fault, []⟩

@[simp] theorem here_eq_ok {α : Type} {x : Except Fault α} {a : α} :
    here x = .ok a ↔ x = .ok a := by
  cases x <;> simp [here]

/-- A reader that consumes something whenever it succeeds. -/
structure Parser (α : Type) where
  run : List Char → Result α
  shorter : ∀ {s : List Char} {a : α} {r : List Char}, run s = .ok (a, r) → r.length < s.length

namespace Parser

/-- Changes the value that is read. -/
def map {α β : Type} (f : α → β) (p : Parser α) : Parser β where
  run s :=
    match p.run s with
    | .ok (a, rest) => .ok (f a, rest)
    | .error e => .error e
  shorter {s b r} h := by
    split at h
    · next hp =>
      simp only [Except.ok.injEq, Prod.mk.injEq] at h
      rw [← h.2]
      exact p.shorter hp
    · simp at h

/-! ## Scalars -/

/-- What is wrong with a value of the wrong type: it is checked as far as its first piece goes. -/
def wrongType (s : List Char) : Fault :=
  let piece : Except Fault (List Char) := match s with
    | '[' :: rest | '{' :: rest => .ok rest
    | '"' :: rest => (readString rest []).map (·.2)
    | c :: _ => if c = '-' ∨ c.isDigit then (readNumber s).map (·.2) else skipScalar s
    | [] => .error .cutOff
  match piece with
  | .ok _ => .mismatch
  | .error fault => fault

/-- Reads a string. -/
def text : Parser String where
  run s :=
    match skipSpace s with
    | '"' :: rest => here (readString rest [])
    | s => failHere (wrongType s)
  shorter {s t r} h := by
    have hs := skipSpace_length_le s
    split at h
    · next rest heq =>
      have := readString_length_lt (here_eq_ok.mp h)
      simp only [heq, List.length_cons] at *
      omega
    · simp [failHere] at h

/-- Reads a number that `f` takes. -/
def number {α : Type} (f : Numeral → Option α) : Parser α where
  run s :=
    match skipSpace s with
    | [] => failHere .cutOff
    | c :: rest =>
      if c = '-' ∨ c.isDigit then
        match readNumber (c :: rest) with
        | .error fault => failHere fault
        | .ok (n, rest) =>
          match f n with
          | some a => .ok (a, rest)
          | none => failHere .mismatch
      else
        failHere (wrongType (c :: rest))
  shorter {s a r} h := by
    have hs := skipSpace_length_le s
    split at h
    · simp [failHere] at h
    · next c rest heq =>
      split at h
      · split at h
        · simp [failHere] at h
        · next hn =>
          have := readNumber_length_lt hn
          split at h
          · simp only [Except.ok.injEq, Prod.mk.injEq] at h
            simp only [heq, h.2] at *
            omega
          · simp [failHere] at h
      · simp [failHere] at h

/-- Reads an integer of 64 bits with a sign; a number written as a fraction is none. -/
def integer : Parser Int :=
  number fun
    | .integer i => if minInt64 ≤ i ∧ i ≤ maxInt64 then some i else none
    | .float _ => none

/-- Reads any number in double precision. -/
def float : Parser Number.Binary64 := number Numeral.toBinary64?

/-- Reads `null` as nothing. -/
def option {α : Type} (p : Parser α) : Parser (Option α) where
  run s :=
    match skipSpace s with
    | 'n' :: rest => (here (readLetters ['u', 'l', 'l'] rest)).map (none, ·)
    | s => (p.map some).run s
  shorter {s a r} h := by
    have hs := skipSpace_length_le s
    split at h
    · next rest heq =>
      cases hl : readLetters ['u', 'l', 'l'] rest with
      | error e => simp [hl, here, Except.map] at h
      | ok rest' =>
        have := readLetters_length_le hl
        simp only [hl, here, Except.map, Except.ok.injEq, Prod.mk.injEq] at h
        simp only [heq, List.length_cons, h.2] at *
        omega
    · have := (p.map some).shorter h
      omega

/-! ## Arrays -/

/-- What stands before an element: the end of the array, or the element after its comma. -/
inductive Slot where
  | closed (rest : List Char)
  | next (rest : List Char)
deriving DecidableEq, Repr

/-- The text that is left. -/
def Slot.rest : Slot → List Char
  | .closed rest | .next rest => rest

/-- Looks for the next element of an array, before which a comma stands unless it is the first. -/
def nextElement (first : Bool) (s : List Char) : Except Fault Slot :=
  match skipSpace s with
  | [] => .error .cutOff
  | ']' :: rest => .ok (.closed rest)
  | c :: rest =>
    if first then .ok (.next (c :: rest))
    else if c = ',' then
      match skipSpace rest with
      | [] => .error .cutOff
      | ']' :: _ => .error .malformed
      | _ :: _ => .ok (.next rest)
    else .error .malformed

theorem nextElement_length_le {first : Bool} {s : List Char} {slot : Slot}
    (h : nextElement first s = .ok slot) : slot.rest.length ≤ s.length := by
  have hs := skipSpace_length_le s
  unfold nextElement at h
  split at h
  · simp at h
  · next heq =>
    simp only [Except.ok.injEq] at h
    simp only [heq, ← h, Slot.rest, List.length_cons] at *
    omega
  · next heq =>
    split at h
    · simp only [Except.ok.injEq] at h
      simp only [heq, ← h, Slot.rest, List.length_cons] at *
      omega
    · split at h
      · split at h
        · simp at h
        · simp at h
        · simp only [Except.ok.injEq] at h
          simp only [heq, ← h, Slot.rest, List.length_cons] at *
          omega
      · simp at h

/-- Reads the elements of an array from index `i` on, behind those in `acc`, of which the newest is
first. -/
def elements {α : Type} (item : Parser α) (i : Nat) (s : List Char) (acc : List α) :
    Result (List α) :=
  match _slot : nextElement (i == 0) s with
  | .error fault => failHere fault
  | .ok (.closed rest) => .ok (acc.reverse, rest)
  | .ok (.next rest) =>
    match _item : item.run rest with
    | .error e => .error (e.under (.index i))
    | .ok (a, rest) => elements item (i + 1) rest (a :: acc)
termination_by s.length
decreasing_by
  have h₁ := nextElement_length_le _slot
  have h₂ := item.shorter _item
  simp only [Slot.rest] at h₁
  omega

theorem elements_length_le {α : Type} {item : Parser α} {i : Nat} {s r : List Char}
    {acc as : List α} (h : elements item i s acc = .ok (as, r)) : r.length ≤ s.length := by
  fun_induction elements item i s acc with
  | case1 => simp [failHere] at h
  | case2 i s acc rest hs =>
    have := nextElement_length_le hs
    simp only [Except.ok.injEq, Prod.mk.injEq] at h
    simpa [← h.2, Slot.rest] using this
  | case3 => simp at h
  | case4 i s acc rest hs a rest' hi ih =>
    have h₁ := nextElement_length_le hs
    have h₂ := item.shorter hi
    have := ih h
    simp only [Slot.rest] at h₁
    omega

/-- Reads an array. -/
def list {α : Type} (item : Parser α) : Parser (List α) where
  run s :=
    match skipSpace s with
    | '[' :: rest => elements item 0 rest []
    | s => failHere (wrongType s)
  shorter {s as r} h := by
    have hs := skipSpace_length_le s
    split at h
    · next rest heq =>
      have := elements_length_le h
      simp only [heq, List.length_cons] at *
      omega
    · simp [failHere] at h

/-! ## Objects -/

/-- Looks for the next member of an object, before which a comma stands unless it is the first. A
member begins with the quote of its key. -/
def nextMember (first : Bool) (s : List Char) : Except Fault Slot :=
  match skipSpace s with
  | [] => .error .cutOff
  | '}' :: rest => .ok (.closed rest)
  | c :: rest =>
    if first then
      if c = '"' then .ok (.next rest) else .error .malformed
    else if c = ',' then
      match skipSpace rest with
      | [] => .error .cutOff
      | '"' :: rest => .ok (.next rest)
      | _ :: _ => .error .malformed
    else .error .malformed

theorem nextMember_length_lt {first : Bool} {s : List Char} {slot : Slot}
    (h : nextMember first s = .ok slot) : slot.rest.length < s.length := by
  have hs := skipSpace_length_le s
  unfold nextMember at h
  split at h
  · simp at h
  · next heq =>
    simp only [Except.ok.injEq] at h
    simp only [heq, ← h, Slot.rest, List.length_cons] at *
    omega
  · next rest _ heq =>
    have := skipSpace_length_le rest
    split at h
    · split at h
      · simp only [Except.ok.injEq] at h
        simp only [heq, ← h, Slot.rest, List.length_cons] at *
        omega
      · simp at h
    · split at h
      · split at h
        · simp at h
        · next heq' =>
          simp only [Except.ok.injEq] at h
          simp only [heq, heq', ← h, Slot.rest, List.length_cons] at *
          omega
        · simp at h
      · simp at h

/-- Reads the colon after a key. -/
def readColon (s : List Char) : Except Fault (List Char) :=
  match skipSpace s with
  | [] => .error .cutOff
  | ':' :: rest => .ok rest
  | _ :: _ => .error .malformed

theorem readColon_length_lt {s r : List Char} (h : readColon s = .ok r) :
    r.length < s.length := by
  have hs := skipSpace_length_le s
  unfold readColon at h
  split at h
  · simp at h
  · next heq =>
    simp only [Except.ok.injEq] at h
    simp only [heq, List.length_cons, h] at *
    omega
  · simp at h

/-- Reads the members of an object from the text on. `read` says how the value of a key is read and
what becomes of the state `σ`; it may refuse a key. -/
def members {σ : Type} (read : σ → String → Except Fault (Parser σ)) (first : Bool)
    (s : List Char) (state : σ) : Result σ :=
  match _slot : nextMember first s with
  | .error fault => .error ⟨fault, [.unknown]⟩
  | .ok (.closed rest) => .ok (state, rest)
  | .ok (.next rest) =>
    match _key : readString rest [] with
    | .error fault => .error ⟨fault, [.unknown]⟩
    | .ok (key, rest) =>
      match read state key with
      | .error fault => failHere fault
      | .ok value =>
        match _colon : readColon rest with
        | .error fault => failHere fault
        | .ok rest =>
          match _value : value.run rest with
          | .error e => .error (e.under (.key key))
          | .ok (state, rest) => members read false rest state
termination_by s.length
decreasing_by
  have h₁ := nextMember_length_lt _slot
  have h₂ := readString_length_lt _key
  have h₃ := readColon_length_lt _colon
  have h₄ := value.shorter _value
  simp only [Slot.rest] at h₁
  omega

theorem members_length_lt {σ : Type} {read : σ → String → Except Fault (Parser σ)} {first : Bool}
    {s r : List Char} {state state' : σ}
    (h : members read first s state = .ok (state', r)) : r.length < s.length := by
  fun_induction members read first s state with
  | case1 => simp at h
  | case2 first s state rest hs =>
    have := nextMember_length_lt hs
    simp only [Except.ok.injEq, Prod.mk.injEq] at h
    simpa [← h.2, Slot.rest] using this
  | case3 => simp at h
  | case4 => simp [failHere] at h
  | case5 => simp [failHere] at h
  | case6 => simp at h
  | case7 first s state rest hs key rest₁ hk value hr rest₂ hc state₁ rest₃ hv ih =>
    have h₁ := nextMember_length_lt hs
    have h₂ := readString_length_lt hk
    have h₃ := readColon_length_lt hc
    have h₄ := value.shorter hv
    have := ih h
    simp only [Slot.rest] at h₁
    omega

/-! ## Anything -/

/-- Skips a value. -/
def skip : Parser Unit where
  run s :=
    match skipValue s with
    | .error fault => failHere fault
    | .ok rest => .ok ((), rest)
  shorter {s a r} h := by
    split at h
    · simp [failHere] at h
    · next hs =>
      simp only [Except.ok.injEq, Prod.mk.injEq] at h
      rw [← h.2]
      exact skipValue_length_lt hs

end Parser

end BrowserTrace.Json
