import BrowserTrace.Text.Utf8
import BrowserTrace.Toml.Lexeme
import BrowserTrace.Toml.Scalar
import BrowserTrace.Toml.Table

/-! # Reading a TOML document

A document is read statement by statement: a header opens a table, and a key with its value goes
into the table that was opened last. Arrays and tables in braces may be nested to a depth of 80;
they may run over several lines, also around an equals sign, and end in a comma.
-/

namespace BrowserTrace.Toml

/-! ## Values -/

/-- A reader of a value from the front of a text, which leaves no more than it was given. -/
structure ValueReader where
  run : List Char → Option (Value × List Char)
  length_le : ∀ {s : List Char} {v : Value} {r : List Char}, run s = some (v, r) →
    r.length ≤ s.length

/-- Reads the elements of an array up to its bracket, behind those in `acc`, of which the newest is
first. -/
def readElements (value : ValueReader) (s : List Char) (acc : List Value) :
    Option (Value × List Char) :=
  match _start : skipLines s with
  | ']' :: rest => some (.array acc.reverse, rest)
  | start =>
    match _value : value.run start with
    | none => none
    | some (v, rest) =>
      match _next : skipLines rest with
      | ',' :: next => readElements value next (v :: acc)
      | ']' :: next => some (.array (v :: acc).reverse, next)
      | _ => none
termination_by s.length
decreasing_by
  have h₁ := skipLines_length_le s
  have h₂ := value.length_le _value
  rw [_start] at h₁
  have h₃ := skipLines_length_le rest
  simp only [_next, List.length_cons] at h₃
  omega

theorem readElements_length_le {value : ValueReader} {s r : List Char} {acc : List Value}
    {v : Value} (h : readElements value s acc = some (v, r)) : r.length ≤ s.length := by
  fun_induction readElements value s acc <;> grind [→ value.length_le, skipLines_length_le]

/-- Skips what may stand beside an equals sign: blanks, and in braces comments and line ends too. -/
def skipGap (inBraces : Bool) (s : List Char) : List Char :=
  if inBraces then skipLines s else skipBlanks s

theorem skipGap_length_le (inBraces : Bool) (s : List Char) :
    (skipGap inBraces s).length ≤ s.length := by
  cases inBraces
  · exact skipBlanks_length_le s
  · exact skipLines_length_le s

/-- Reads keys, an equals sign and a value. -/
def readPair (inBraces : Bool) (value : ValueReader) (s : List Char) :
    Option ((List String × Value) × List Char) :=
  match readKeys s with
  | none => none
  | some (keys, rest) =>
    match skipGap inBraces rest with
    | '=' :: rest =>
      (value.run (skipGap inBraces rest)).map fun (v, rest) => ((keys, v), rest)
    | _ => none

theorem readPair_length_le {inBraces : Bool} {value : ValueReader} {s r : List Char}
    {pair : List String × Value} (h : readPair inBraces value s = some (pair, r)) :
    r.length ≤ s.length := by
  unfold readPair at h
  split at h
  · simp at h
  · next keys rest hk =>
    have h₁ := readKeys_length_le hk
    have h₂ := skipGap_length_le inBraces rest
    split at h
    · next rest' hg =>
      have h₃ := skipGap_length_le inBraces rest'
      obtain ⟨⟨v, r'⟩, hv, hr⟩ := Option.map_eq_some_iff.mp h
      have h₄ := value.length_le hv
      rw [← (Prod.mk.inj hr).2]
      simp only [hg, List.length_cons] at h₂
      omega
    · simp at h

/-- Reads the members of a table in braces up to its brace, and adds them to a draft. -/
def readMembers (value : ValueReader) (s : List Char) (draft : Draft) :
    Option (Value × List Char) :=
  match _start : skipLines s with
  | '}' :: rest => some (.table (finishMembers draft), rest)
  | start =>
    match _pair : readPair true value start with
    | none => none
    | some ((keys, v), rest) =>
      match draft.addDotted keys v .opened with
      | none => none
      | some draft =>
        match _next : skipLines rest with
        | ',' :: next => readMembers value next draft
        | '}' :: next => some (.table (finishMembers draft), next)
        | _ => none
termination_by s.length
decreasing_by
  have h₁ := skipLines_length_le s
  have h₂ := readPair_length_le _pair
  rw [_start] at h₁
  have h₃ := skipLines_length_le rest
  simp only [_next, List.length_cons] at h₃
  omega

theorem readMembers_length_le {value : ValueReader} {s r : List Char} {draft : Draft} {v : Value}
    (h : readMembers value s draft = some (v, r)) : r.length ≤ s.length := by
  fun_induction readMembers value s draft <;> grind [→ readPair_length_le, skipLines_length_le]

/-- Reads a value that is neither an array nor a table. -/
def readPlain (s : List Char) : Option (Value × List Char) :=
  match readString s with
  | some (t, rest) => some (.text t, rest)
  | none => readScalar s

theorem readPlain_length_le {s r : List Char} {v : Value} (h : readPlain s = some (v, r)) :
    r.length ≤ s.length := by
  unfold readPlain at h
  split at h
  · next ht =>
    simp only [Option.some.injEq, Prod.mk.injEq] at h
    rw [← h.2]
    exact Nat.le_of_lt (readString_length_lt ht)
  · exact readScalar_length_le h

/-- Reads a value that is nested at most `depth` deep. -/
def readValue : (depth : Nat) → ValueReader
  | 0 => {
      run s :=
        match s with
        | '[' :: _ | '{' :: _ => none
        | s => readPlain s
      length_le {s v r} h := by
        split at h
        · simp at h
        · simp at h
        · exact readPlain_length_le h }
  | depth + 1 => {
      run s :=
        match s with
        | '[' :: rest => readElements (readValue depth) rest []
        | '{' :: rest => readMembers (readValue depth) rest []
        | s => readPlain s
      length_le {s v r} h := by
        split at h
        · exact Nat.le_succ_of_le (readElements_length_le h)
        · exact Nat.le_succ_of_le (readMembers_length_le h)
        · exact readPlain_length_le h }

/-! ## Statements -/

/-- A statement of a document. -/
inductive Statement where
  | blank
  | header (keys : List String)
  | tablesHeader (keys : List String)
  | pair (keys : List String) (v : Value)

/-- Reads a statement, without the end of its line. -/
def readStatement (s : List Char) : Option (Statement × List Char) :=
  match skipBlanks s with
  | '[' :: '[' :: rest =>
    match readKeys rest with
    | some (keys, ']' :: ']' :: rest) => some (.tablesHeader keys, rest)
    | _ => none
  | '[' :: rest =>
    match readKeys rest with
    | some (keys, ']' :: rest) => some (.header keys, rest)
    | _ => none
  | [] => some (.blank, [])
  | c :: rest =>
    if c = '#' ∨ c = '\n' ∨ c = '\r' then some (.blank, c :: rest)
    else
      (readPair false (readValue maxDepth) (c :: rest)).map fun ((keys, v), rest) =>
        (.pair keys v, rest)

theorem readStatement_length_le {s r : List Char} {statement : Statement}
    (h : readStatement s = some (statement, r)) : r.length ≤ s.length := by
  have hs := skipBlanks_length_le s
  unfold readStatement at h
  split at h
  · split at h <;> grind [→ readKeys_length_le]
  · split at h <;> grind [→ readKeys_length_le]
  · grind
  · split at h
    · grind
    · obtain ⟨⟨pair, r'⟩, hp, hr⟩ := Option.map_eq_some_iff.mp h
      have := readPair_length_le hp
      grind

/-- A document under construction: its tables, and the keys of the table that was opened last. -/
structure Builder where
  root : Draft := []
  current : List String := []

/-- Adds a statement to a document. -/
def Builder.add (b : Builder) : Statement → Option Builder
  | .blank => some b
  | .header keys => (b.root.openTable keys).map fun root => { root, current := keys }
  | .tablesHeader keys => (b.root.appendTable keys).map fun root => { root, current := keys }
  | .pair keys v =>
    (b.root.within false (Draft.addDotted keys v) b.current .opened).map fun root =>
      { b with root }

/-- Reads the statements of a text and adds them to a document. -/
def readStatements (s : List Char) (b : Builder) : Option Builder :=
  match _statement : readStatement s with
  | none => none
  | some (statement, rest) =>
    match b.add statement, _line : readLineEnd rest with
    | some b, some [] => some b
    | some b, some (c :: next) => readStatements (c :: next) b
    | _, _ => none
termination_by s.length
decreasing_by
  have h₁ := readStatement_length_le _statement
  have h₂ := readLineEnd_length_lt _line (List.cons_ne_nil c next)
  omega

/-- The table that a document is. A byte order mark at its front does not count. -/
def document? (text : List Char) : Option Table :=
  (readStatements (Text.dropMark text) {}).map fun b => finishMembers b.root

end BrowserTrace.Toml
