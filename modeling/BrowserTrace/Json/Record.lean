import BrowserTrace.Json.Parser

/-! # Readers of records

A record is read from an object, by the names of its fields, or from an array, by their order. Names
that are no field are skipped; a field given twice, and a required one that is missing, are errors
at the place of the record itself. Each field says how its value changes the record, which starts
from one without any fields.
-/

namespace BrowserTrace.Json

/-- A field of a record of type `σ`. -/
structure RecordField (σ : Type) where
  name : String
  required : Bool
  value : Parser (σ → σ)

namespace RecordField

/-- A field that must be there. -/
def mandatory {σ α : Type} (name : String) (value : Parser α) (set : α → σ → σ) : RecordField σ :=
  ⟨name, true, value.map set⟩

/-- A field that may be left out. -/
def defaulted {σ α : Type} (name : String) (value : Parser α) (set : α → σ → σ) : RecordField σ :=
  ⟨name, false, value.map set⟩

end RecordField

namespace Parser

/-- How the value of a key of a record is read; the state holds the names of the fields so far. -/
def fieldOf {σ : Type} (fields : List (RecordField σ)) (state : List String × σ) (key : String) :
    Except Fault (Parser (List String × σ)) :=
  match fields.find? (·.name == key) with
  | none => .ok (skip.map fun _ => state)
  | some field =>
    if state.1.contains key then .error .mismatch
    else .ok (field.value.map fun set => (key :: state.1, set state.2))

/-- Reads the end of an array that has all its elements; anything more is malformed. -/
def readEnd (s : List Char) : Except Fault (List Char) :=
  match skipSpace s with
  | [] => .error .cutOff
  | ']' :: rest => .ok rest
  | _ :: _ => .error .malformed

theorem readEnd_length_lt {s r : List Char} (h : readEnd s = .ok r) : r.length < s.length := by
  have hs := skipSpace_length_le s
  unfold readEnd at h
  split at h
  · simp at h
  · next heq =>
    simp only [Except.ok.injEq] at h
    simp only [heq, List.length_cons, h] at *
    omega
  · simp at h

/-- Reads the fields of a record from the elements of an array, from index `i` on. -/
def positional {σ : Type} (i : Nat) (s : List Char) (state : σ) : List (RecordField σ) → Result σ
  | [] =>
    match readEnd s with
    | .ok rest => .ok (state, rest)
    | .error fault => failHere fault
  | field :: fields =>
    match nextElement (i == 0) s with
    | .error fault => failHere fault
    | .ok (.closed rest) =>
      if field.required || fields.any (·.required) then failHere .mismatch
      else .ok (state, rest)
    | .ok (.next rest) =>
      match field.value.run rest with
      | .error e => .error (e.under (.index i))
      | .ok (set, rest) => positional (i + 1) rest (set state) fields

theorem positional_length_le {σ : Type} {i : Nat} {s r : List Char} {state state' : σ}
    {fields : List (RecordField σ)} (h : positional i s state fields = .ok (state', r)) :
    r.length ≤ s.length := by
  induction fields generalizing i s state with
  | nil =>
    unfold positional at h
    split at h
    · next hs =>
      have := readEnd_length_lt hs
      simp only [Except.ok.injEq, Prod.mk.injEq] at h
      rw [← h.2]
      omega
    · simp [failHere] at h
  | cons field fields ih =>
    unfold positional at h
    split at h
    · simp [failHere] at h
    · next hs =>
      have := nextElement_length_le hs
      split at h
      · simp [failHere] at h
      · simp only [Except.ok.injEq, Prod.mk.injEq] at h
        simpa [← h.2, Slot.rest] using this
    · next hs =>
      have h₁ := nextElement_length_le hs
      split at h
      · simp at h
      · next hv =>
        have h₂ := field.value.shorter hv
        have := ih h
        simp only [Slot.rest] at h₁
        omega

/-- Reads a record, starting from `start`. -/
def record {σ : Type} (fields : List (RecordField σ)) (start : σ) : Parser σ where
  run s :=
    match skipSpace s with
    | '[' :: rest => positional 0 rest start fields
    | '{' :: rest =>
      match members (fieldOf fields) true rest ([], start) with
      | .error e => .error e
      | .ok ((names, state), rest) =>
        if fields.all fun field => !field.required || names.contains field.name then
          .ok (state, rest)
        else failHere .mismatch
    | s => failHere (wrongType s)
  shorter {s a r} h := by
    have hs := skipSpace_length_le s
    split at h
    · next heq =>
      have := positional_length_le h
      simp only [heq, List.length_cons] at *
      omega
    · next heq =>
      split at h
      · simp at h
      · next hm =>
        have := members_length_lt hm
        split at h
        · simp only [Except.ok.injEq, Prod.mk.injEq] at h
          simp only [heq, List.length_cons, h.2] at *
          omega
        · simp [failHere] at h
    · simp [failHere] at h

/-! ## Choices by name -/

/-- Reads `null`. -/
def null : Parser Unit where
  run s :=
    match skipSpace s with
    | 'n' :: rest => (here (readLetters ['u', 'l', 'l'] rest)).map ((), ·)
    | s => failHere (wrongType s)
  shorter {s a r} h := by
    have hs := skipSpace_length_le s
    split at h
    · next rest heq =>
      cases hl : readLetters ['u', 'l', 'l'] rest <;> simp [hl, here, Except.map] at h
      have := readLetters_length_le hl
      simp only [heq, List.length_cons, h] at *
      omega
    · simp [failHere] at h

/-- Reads the closing brace of a choice written as an object. -/
def readClose {α : Type} (a : α) (s : List Char) : Result α :=
  match skipSpace s with
  | [] => failHere .cutOff
  | '}' :: rest => .ok (a, rest)
  | _ :: _ => failHere .malformed

theorem readClose_length_lt {α : Type} {a b : α} {s r : List Char}
    (h : readClose a s = .ok (b, r)) : r.length < s.length := by
  have hs := skipSpace_length_le s
  unfold readClose at h
  split at h
  · simp [failHere] at h
  · next heq =>
    simp only [Except.ok.injEq, Prod.mk.injEq] at h
    simp only [heq, List.length_cons, h.2] at *
    omega
  · simp [failHere] at h

/-- Reads one of several values by its name, written as a string or as an object that has `null`
under the name. -/
def choice {α : Type} (ofName? : String → Option α) : Parser α where
  run s :=
    match skipSpace s with
    | '"' :: rest =>
      match readString rest [] with
      | .error fault => failHere fault
      | .ok (name, rest) =>
        match ofName? name with
        | some a => .ok (a, rest)
        | none => failHere .mismatch
    | '{' :: rest =>
      match text.run rest with
      | .error e => .error e
      | .ok (name, rest) =>
        match ofName? name with
        | none => failHere .mismatch
        | some a =>
          match readColon rest with
          | .error fault => failHere fault
          | .ok rest =>
            match null.run rest with
            | .error e => .error (e.under (.key name))
            | .ok ((), rest) => readClose a rest
    | [] => failHere .cutOff
    | _ :: _ => failHere .malformed
  shorter {s a r} h := by
    have hs := skipSpace_length_le s
    split at h
    · next heq =>
      split at h
      · simp [failHere] at h
      · next hr =>
        have := readString_length_lt hr
        split at h
        · simp only [Except.ok.injEq, Prod.mk.injEq] at h
          simp only [heq, List.length_cons, h.2] at *
          omega
        · simp [failHere] at h
    · next heq =>
      split at h
      · simp at h
      · next hr =>
        have h₁ := text.shorter hr
        split at h
        · simp [failHere] at h
        · split at h
          · simp [failHere] at h
          · next hc =>
            have h₂ := readColon_length_lt hc
            split at h
            · simp at h
            · next hn =>
              have h₃ := null.shorter hn
              have h₄ := readClose_length_lt h
              simp only [heq, List.length_cons] at *
              omega
    · simp [failHere] at h
    · simp [failHere] at h

end Parser

end BrowserTrace.Json
