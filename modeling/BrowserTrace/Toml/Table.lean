import BrowserTrace.Toml.Value

/-! # Tables under construction

The statements of a document add to tables that are not finished. How a table came about says who
may add to it: a header opens a table once; a table that was only implied, as the home of another,
can still be opened by a header of its own, which moves it behind its neighbours; a key with points
makes the implied tables on its way its own; a table of such keys takes more of them and no header;
and a value, be it a table in braces, takes nothing more. Where a list of tables stands, its newest
table is meant.
-/

namespace BrowserTrace.Toml

/-- How a table came about. -/
inductive Origin where
  | opened
  | implied
  | dotted
deriving DecidableEq, Repr

/-- What stands under a key. A list of tables has the newest first. -/
inductive Node where
  | value (v : Value)
  | table (origin : Origin) (members : List (String × Node))
  | tables (items : List (List (String × Node)))
deriving Inhabited

/-- A table under construction. -/
abbrev Draft := List (String × Node)

namespace Draft

/-- Changes what stands under a key; a new key goes to the end. -/
def update (key : String) (f : Option Node → Option Node) : Draft → Option Draft
  | [] => (f none).map fun node => [(key, node)]
  | (k, node) :: rest =>
    if k = key then (f (some node)).map fun node => (k, node) :: rest
    else (update key f rest).map ((k, node) :: ·)

/-- Changes the table that `path` leads to; tables that are missing on the way are made. With
`dotted` the path is that of a key with points, which does not lead through opened tables and leaves
those that were implied to such keys. -/
def within (dotted : Bool) (f : Origin → Draft → Option Draft) :
    (path : List String) → Origin → Draft → Option Draft
  | [], origin, draft => f origin draft
  | key :: path, _, draft =>
    draft.update key fun
      | none =>
        let origin := if dotted then .dotted else .implied
        (within dotted f path origin []).map (.table origin)
      | some (.table origin inner) =>
        if dotted && origin == .opened then none
        else
          let origin := if dotted then .dotted else origin
          (within dotted f path origin inner).map (.table origin)
      | some (.tables (newest :: older)) =>
        (within dotted f path .opened newest).map fun newest => .tables (newest :: older)
      | some (.tables []) | some (.value _) => none

/-- Adds a value under a key that is new. -/
def addValue (key : String) (v : Value) (draft : Draft) : Option Draft :=
  draft.update key fun
    | none => some (.value v)
    | some _ => none

/-- Adds a value under keys with points between them. The table of the last key must be one of such
keys, and such a table takes no other key. -/
def addDotted (keys : List String) (v : Value) (origin : Origin) (draft : Draft) : Option Draft :=
  match keys.getLast? with
  | none => none
  | some key =>
    let path := keys.dropLast
    within true
      (fun origin draft =>
        if (origin == .dotted) == path.isEmpty then none else draft.addValue key v)
      path origin draft

/-- Opens the table under a key, which stands behind all others from then on. -/
def openKey (key : String) (draft : Draft) : Option Draft :=
  match draft.lookup key with
  | none => some (draft ++ [(key, .table .opened [])])
  | some (.table .implied inner) => some (draft.filter (·.1 ≠ key) ++ [(key, .table .opened inner)])
  | some _ => none

/-- Opens the table of a header. -/
def openTable (keys : List String) (draft : Draft) : Option Draft :=
  match keys.getLast? with
  | none => none
  | some key => within false (fun _ => openKey key) keys.dropLast .opened draft

/-- Adds a table to the list of tables of a header. -/
def appendTable (keys : List String) (draft : Draft) : Option Draft :=
  match keys.getLast? with
  | none => none
  | some key =>
    within false
      (fun _ draft => draft.update key fun
        | none => some (.tables [[]])
        | some (.tables items) => some (.tables ([] :: items))
        | some _ => none)
      keys.dropLast .opened draft

end Draft

mutual

/-- The finished value of a node. -/
def Node.finish : Node → Value
  | .value v => v
  | .table _ members => .table (finishMembers members)
  | .tables items => .array (finishTables items).reverse

/-- The finished members of a table. -/
def finishMembers : List (String × Node) → Table
  | [] => []
  | (key, node) :: rest => (key, node.finish) :: finishMembers rest

/-- The finished tables of a list. -/
def finishTables : List (List (String × Node)) → List Value
  | [] => []
  | members :: rest => .table (finishMembers members) :: finishTables rest

end

end BrowserTrace.Toml
