import BrowserTrace.Json.Basic
import BrowserTrace.Number.Natural
import BrowserTrace.Settings.Setting

/-! # Laying settings over others

A settings file is laid over the defaults key by key. A table is merged with the one below it,
member by member; anything else replaces what was there. A key at the top may also be a path: names
with points between them and indices in brackets, which lead to a place further in. Whatever is
missing on the way is made, and whatever is in the way is replaced.
-/

namespace BrowserTrace

namespace Setting

/-! ## Merging -/

/-- Changes the setting of a key in its place; a new key, which has nothing yet, goes to the end. -/
def update (key : String) (f : Setting → Setting) :
    List (String × Setting) → List (String × Setting)
  | [] => [(key, f nothing)]
  | (k, v) :: rest => if k = key then (k, f v) :: rest else (k, v) :: update key f rest

mutual

/-- What becomes of a setting when a new one is laid over it. -/
def overlay : (new old : Setting) → Setting
  | table incoming, old => table (overlayMembers incoming old.members)
  | new, _ => new

/-- What becomes of the members of a table when new ones are laid over them. -/
def overlayMembers : (incoming members : List (String × Setting)) → List (String × Setting)
  | [], members => members
  | (key, new) :: rest, members => overlayMembers rest (update key (overlay new) members)

end

/-! ## Places further in -/

/-- A step of a path: a name, or an index, which counts from the end when it is negative. -/
inductive Step where
  | name (key : String)
  | index (i : Int)
deriving DecidableEq, Repr

/-- An array that has an element at an index, filled up with nothing, and the position of the
element. -/
def reach (i : Int) (items : List Setting) : List Setting × Nat :=
  if 0 ≤ i then
    (items ++ List.replicate (i.toNat + 1 - items.length) nothing, i.toNat)
  else
    (List.replicate (i.natAbs - items.length) nothing ++ items, items.length - i.natAbs)

/-- Changes the setting at a place further in. -/
def updateAt (f : Setting → Setting) : List Step → Setting → Setting
  | [], v => f v
  | .name key :: steps, v => table (update key (updateAt f steps) v.members)
  | .index i :: steps, v =>
    let (items, position) := reach i v.items
    array (items.modify position (updateAt f steps))

/-! ## Paths -/

/-- Whether a character may stand in a name of a path. -/
def isNameChar (c : Char) : Bool := c.isAlphanum || c == '_' || c == '-'

/-- The index that a text inside brackets is. -/
def index? (s : List Char) : Option Int :=
  let isBlank (c : Char) : Bool := c == ' ' || c == '\t'
  let s := ((s.dropWhile isBlank).reverse.dropWhile isBlank).reverse
  let value := match s with
    | '-' :: digits => (Number.readNat? digits).map fun n => -(n : Int)
    | digits => (Number.readNat? digits).map Int.ofNat
  value.filter fun i => Json.minInt64 ≤ i && i ≤ Json.maxInt64

/-- The steps of a path behind its first name. -/
def steps? (s : List Char) : Option (List Step) :=
  match s with
  | [] => some []
  | '.' :: rest =>
    match rest.takeWhile isNameChar with
    | [] => none
    | name => (steps? (rest.dropWhile isNameChar)).map (.name (String.ofList name) :: ·)
  | '[' :: rest =>
    match _bracket : rest.dropWhile (· ≠ ']') with
    | [] => none
    | _ :: after => do
      let i ← index? (rest.takeWhile (· ≠ ']'))
      (steps? after).map (.index i :: ·)
  | _ => none
termination_by s.length
decreasing_by
  · exact Nat.lt_succ_of_le (List.dropWhile_sublist isNameChar).length_le
  · have := (List.dropWhile_sublist (l := rest) (· ≠ ']')).length_le
    rw [_bracket] at this
    simp only [List.length_cons] at *
    omega

/-- The first name of a path and the steps behind it. A key that is no path is a name as a whole. -/
def pathOf (key : String) : String × List Step :=
  let s := key.toList
  match s.takeWhile isNameChar, steps? (s.dropWhile isNameChar) with
  | [], _ | _, none => (key, [])
  | name, some steps => (String.ofList name, steps)

/-- Lays the settings of a file over others. -/
def layer (incoming members : List (String × Setting)) : List (String × Setting) :=
  incoming.foldl
    (fun members (key, new) =>
      let (name, steps) := pathOf key
      update name (updateAt (overlay new) steps) members)
    members

end Setting

end BrowserTrace
