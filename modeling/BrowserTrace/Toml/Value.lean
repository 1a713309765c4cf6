import BrowserTrace.Number.Extended
import BrowserTrace.Toml.DateTime

/-! # Values of a TOML document

A document is a table: keys with their values, in the order in which the keys first appear.
-/

namespace BrowserTrace.Toml

/-- A value of a document. -/
inductive Value where
  | text (s : String)
  | integer (i : Int)
  | float (x : Number.Extended)
  | boolean (b : Bool)
  | moment (m : Moment)
  | array (items : List Value)
  | table (members : List (String × Value))
deriving Repr, Inhabited

/-- A table: keys with their values. -/
abbrev Table := List (String × Value)

end BrowserTrace.Toml
