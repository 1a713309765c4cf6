import BrowserTrace.ByteSize
import BrowserTrace.Toml.Value

/-! # Single settings

A setting is what a settings file gives for a key. Each kind of setting is lenient in its own way: a
count can be given as a number, a truth value or a word, a text as any single value, a size as a
whole number or a text with a unit.
-/

namespace BrowserTrace

/-- What is given for a key. -/
inductive Setting where
  | nothing
  | boolean (b : Bool)
  | integer (i : Int)
  | float (x : Number.Extended)
  | text (s : String)
  | array (items : List Setting)
  | table (members : List (String × Setting))
deriving Repr, Inhabited

namespace Setting

/-- The members of a table; anything else has none. -/
def members : Setting → List (String × Setting)
  | table members => members
  | _ => []

/-- The elements of an array; anything else has none. -/
def items : Setting → List Setting
  | array items => items
  | _ => []

/-! ## From a file -/

mutual

/-- The setting that a value of a file is. A date or a time counts as its text. -/
def ofToml : Toml.Value → Setting
  | .text s => text s
  | .integer i => integer i
  | .float x => float x
  | .boolean b => boolean b
  | .moment m => text (String.ofList m.text)
  | .array items => array (itemsOfToml items)
  | .table members => table (membersOfToml members)

/-- The settings that the elements of an array are. -/
def itemsOfToml : List Toml.Value → List Setting
  | [] => []
  | v :: rest => ofToml v :: itemsOfToml rest

/-- The settings that the members of a table are. -/
def membersOfToml : List (String × Toml.Value) → List (String × Setting)
  | [] => []
  | (key, v) :: rest => (key, ofToml v) :: membersOfToml rest

end

/-! ## What a setting means -/

/-- The count that a word is: a word for yes or no, or a 64-bit number. -/
def wordCount? (word : String) : Option Nat :=
  match String.ofList (word.toList.map Char.toLower) with
  | "true" | "on" | "yes" => some 1
  | "false" | "off" | "no" => some 0
  | _ => Number.readWord? word.toList

/-- The count that a setting means. A floating-point number is rounded to a 64-bit one. -/
def count? : Setting → Option Nat
  | integer i => if 0 ≤ i then some i.toNat else none
  | boolean b => some b.toNat
  | float x => some x.toWord
  | text s => wordCount? s
  | nothing | array _ | table _ => none

/-- The text that a setting means. -/
def text? : Setting → Option String
  | text s => some s
  | boolean b => some (if b then "true" else "false")
  | integer i => some (toString i)
  | float x => some x.text
  | nothing | array _ | table _ => none

/-- The size that a setting means. -/
def size? : Setting → Option ByteSize
  | integer i => if 0 ≤ i then some ⟨i.toNat⟩ else none
  | text s => ByteSize.parse? s
  | nothing | boolean _ | float _ | array _ | table _ => none

end Setting

end BrowserTrace
