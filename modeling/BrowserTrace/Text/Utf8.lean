/-! # Reading bytes as text, whatever they are

Text inside an archive or a settings file is meant to be UTF-8 but need not be. `decodeLossy` reads
any bytes: each
well-formed sequence gives its character, and each maximal ill-formed part gives one replacement
character. "Maximal" is what the decoder's state says: a part is the longest start of some
well-formed sequence, and a byte that cannot continue it is read afresh.

The decoder goes byte by byte and holds at most one unfinished sequence, so a byte below 128, which
continues none, always leaves it between characters (`step_ascii`).
-/

namespace BrowserTrace.Text

/-- The character that stands for bytes that are no text. -/
def replacement : Char := '\uFFFD'

/-- A text without the byte order mark that may stand at its front. -/
def dropMark : List Char → List Char
  | '\uFEFF' :: rest => rest
  | s => s

namespace Utf8

/-- The bytes that an unfinished sequence still owes: up to three, of which the next one has a
range of its own after the first bytes E0, ED, F0 and F4. -/
inductive Owed where
  | one
  | two
  | three
  | afterE0
  | afterED
  | afterF0
  | afterF4
deriving DecidableEq, Repr

namespace Owed

/-- The least byte that may come next. -/
def low : Owed → UInt8
  | .afterE0 => 0xA0
  | .afterF0 => 0x90
  | _ => 0x80

/-- The greatest byte that may come next. -/
def high : Owed → UInt8
  | .afterED => 0x9F
  | .afterF4 => 0x8F
  | _ => 0xBF

/-- What is owed after the next byte. -/
def next : Owed → Option Owed
  | .one => none
  | .two | .afterE0 | .afterED => some .one
  | .three | .afterF0 | .afterF4 => some .two

theorem le_low (owed : Owed) : 0x80 ≤ owed.low := by
  cases owed <;> decide

end Owed

/-- Where the decoder stands: between characters, or inside a sequence whose bits so far are
`point`. -/
inductive State where
  | start
  | inside (point : Nat) (owed : Owed)
deriving DecidableEq, Repr

/-- The first byte of a character. The cut ranges after E0, ED, F0 and F4 see to it that no
character has two spellings, none is a surrogate, and none lies above 10FFFF. -/
def begin (b : UInt8) : List Char × State :=
  if b < 0x80 then ([Char.ofNat b.toNat], .start)
  else if b < 0xC2 then ([replacement], .start)
  else if b < 0xE0 then ([], .inside (b.toNat - 0xC0) .one)
  else if b = 0xE0 then ([], .inside 0x0 .afterE0)
  else if b = 0xED then ([], .inside 0xD .afterED)
  else if b < 0xF0 then ([], .inside (b.toNat - 0xE0) .two)
  else if b = 0xF0 then ([], .inside 0x0 .afterF0)
  else if b < 0xF4 then ([], .inside (b.toNat - 0xF0) .three)
  else if b = 0xF4 then ([], .inside 0x4 .afterF4)
  else ([replacement], .start)

/-- One byte: the characters it completes, and the state after it. A byte that cannot continue an
unfinished sequence ends it as ill-formed and begins a character of its own. -/
def step : State → UInt8 → List Char × State
  | .start, b => begin b
  | .inside point owed, b =>
    if owed.low ≤ b ∧ b ≤ owed.high then
      let point := point * 64 + (b.toNat - 0x80)
      match owed.next with
      | none => ([Char.ofNat point], .start)
      | some owed => ([], .inside point owed)
    else
      (replacement :: (begin b).1, (begin b).2)

/-- What the end of the bytes adds: an unfinished sequence is ill-formed. -/
def finish : State → List Char
  | .start => []
  | .inside .. => [replacement]

/-- The characters of `bytes`, read from `state`. -/
def chars : State → List UInt8 → List Char
  | state, [] => finish state
  | state, b :: rest => (step state b).1 ++ chars (step state b).2 rest

@[simp] theorem chars_nil (state : State) : chars state [] = finish state := rfl

theorem chars_cons (state : State) (b : UInt8) (rest : List UInt8) :
    chars state (b :: rest) = (step state b).1 ++ chars (step state b).2 rest := rfl

/-- A byte below 128 closes whatever came before it and is a character of its own. -/
theorem step_ascii (state : State) (b : UInt8) (h : b < 0x80) :
    step state b = (finish state ++ [Char.ofNat b.toNat], .start) := by
  cases state with
  | start => simp [step, begin, finish, h]
  | inside point owed =>
    have : ¬ owed.low ≤ b := fun hb => by
      have h₁ := UInt8.lt_iff_toNat_lt.mp h
      have h₂ := UInt8.le_iff_toNat_le.mp hb
      have h₃ := UInt8.le_iff_toNat_le.mp owed.le_low
      omega
    simp [step, begin, finish, h, this]

/-! ## The decoder as a fold

The characters are gathered in a growing string, which is the same text: `text_foldl_feed`. -/

/-- A decoder under way: the text so far and the state. -/
structure Decoder where
  text : String := ""
  state : State := .start
deriving DecidableEq, Repr

/-- Reads one byte more. -/
def Decoder.feed (d : Decoder) (b : UInt8) : Decoder :=
  let (cs, state) := step d.state b
  ⟨cs.foldl String.push d.text, state⟩

/-- The whole text, once the bytes are at their end. -/
def Decoder.finish (d : Decoder) : String :=
  (Utf8.finish d.state).foldl String.push d.text

end Utf8

/-- The text of any bytes, each maximal ill-formed part replaced. -/
def decodeLossy (bytes : ByteArray) : String :=
  (bytes.data.foldl Utf8.Decoder.feed {}).finish

/-- The text of some contents: the text that they are, or, if they are not UTF-8, the one that is
left when each ill-formed part is replaced. -/
def ofContents (x : ByteArray) : String :=
  match String.fromUTF8? x with
  | some text => text
  | none => decodeLossy x

namespace Utf8

private theorem toList_foldl_push (cs : List Char) (s : String) :
    (cs.foldl String.push s).toList = s.toList ++ cs := by
  induction cs generalizing s with
  | nil => simp
  | cons c cs ih => simp [ih, String.toList_push]

theorem toList_finish_foldl_feed (bytes : List UInt8) (d : Decoder) :
    (bytes.foldl Decoder.feed d).finish.toList = d.text.toList ++ chars d.state bytes := by
  induction bytes generalizing d with
  | nil => simp [Decoder.finish, toList_foldl_push]
  | cons b rest ih => simp [ih, Decoder.feed, chars_cons, toList_foldl_push]

end Utf8

/-- The decoder gives the characters that the state machine says. -/
theorem toList_decodeLossy (bytes : ByteArray) :
    (decodeLossy bytes).toList = Utf8.chars .start bytes.data.toList := by
  rw [decodeLossy, ← Array.foldl_toList, Utf8.toList_finish_foldl_feed]
  rfl

end BrowserTrace.Text
