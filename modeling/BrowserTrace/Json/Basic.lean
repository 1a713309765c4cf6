import BrowserTrace.Number.Decimal

/-! # JSON values

A number is an integer of up to 64 bits as it was written, or a floating-point number. The members
of an object stand in a list; a value that was read has them in the order of their keys, each key
once.
-/

namespace BrowserTrace

/-- A JSON number. -/
inductive Json.Numeral where
  | integer (i : Int)
  | float (x : Number.Binary64)
deriving DecidableEq, Repr

/-- A JSON value. -/
inductive Json where
  | null
  | bool (b : Bool)
  | number (n : Json.Numeral)
  | string (s : String)
  | array (items : List Json)
  | object (members : List (String × Json))
deriving Repr, Inhabited

namespace Json

/-! ## Numbers -/

/-- The least 64-bit signed integer. -/
def minInt64 : Int := -0x8000000000000000

/-- The greatest 64-bit signed integer. -/
def maxInt64 : Int := 0x7FFFFFFFFFFFFFFF

namespace Numeral

/-- The number in double precision. -/
def toBinary64? : Numeral → Option Number.Binary64
  | integer i => Number.Binary64.ofInt? i
  | float x => some x

end Numeral

/-! ## Looking into a value -/

/-- The members of an object. -/
def members? : Json → Option (List (String × Json))
  | object members => some members
  | _ => none

/-- The value of a key of an object. -/
def get? (v : Json) (key : String) : Option Json :=
  v.members?.bind (·.lookup key)

/-- Whether the value is an object. -/
def isObject (v : Json) : Bool := v.members?.isSome

/-- The text of a string. -/
def string? : Json → Option String
  | string s => some s
  | _ => none

/-- The number, in double precision. -/
def float? : Json → Option Number.Binary64
  | number n => n.toBinary64?
  | _ => none

/-- The text under a key of an object. -/
def stringAt? (v : Json) (key : String) : Option String :=
  (v.get? key).bind string?

/-! ## Members in the order of their keys -/

/-- Puts a member in its place among members in the order of their keys; it replaces one with the
same key. -/
def insertMember (key : String) (value : Json) : List (String × Json) → List (String × Json)
  | [] => [(key, value)]
  | (k, v) :: rest =>
    if key < k then (key, value) :: (k, v) :: rest
    else if key = k then (key, value) :: rest
    else (k, v) :: insertMember key value rest

/-- The object of members in the order in which they were written: the last one with a key
counts. -/
def ofMembers (members : List (String × Json)) : Json :=
  object (members.foldl (fun sorted (key, value) => insertMember key value sorted) [])

end Json

end BrowserTrace
