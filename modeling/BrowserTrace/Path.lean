/-! # Places inside a value

A place is reached from the root by keys and indices. A step whose key could not be read is
unknown.
-/

namespace BrowserTrace

/-- A step into a value. -/
inductive PathStep where
  | index (i : Nat)
  | key (k : String)
  | unknown
deriving DecidableEq, Repr

/-- A place inside a value, from the root. -/
abbrev Path := List PathStep

namespace Path

/-- The text of the steps after the first. -/
def renderRest : Path → String
  | [] => ""
  | .index i :: rest => s!"[{i}]" ++ renderRest rest
  | .key k :: rest => s!".{k}" ++ renderRest rest
  | .unknown :: rest => ".?" ++ renderRest rest

/-- The text of a place: `.` for the root, else keys with points between them and indices in
brackets. -/
def render : Path → String
  | [] => "."
  | .index i :: rest => s!"[{i}]" ++ renderRest rest
  | .key k :: rest => k ++ renderRest rest
  | .unknown :: rest => "?" ++ renderRest rest

end Path

end BrowserTrace
