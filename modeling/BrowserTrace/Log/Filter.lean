import BrowserTrace.Log.Basic
import BrowserTrace.Number.Natural

/-! # Which messages are written

A filter is a list of directives. A directive is for the messages whose topic begins with its target
and that come with its fields, and says up to which level they are written. Of the directives that
are for a message, the most specific one decides: that with the longest target, and then that with
the most fields. A message that no directive is for is not written.
-/

namespace BrowserTrace.Log

/-- What a directive is for, and the level up to which it lets messages through, if any. -/
structure Directive where
  target : Option String := none
  fields : List String := []
  level : Option Level := none
deriving DecidableEq, Repr

/-- Directives, the most specific first. -/
abbrev Filter := List Directive

namespace Directive

/-- Whether the directive is for a message. -/
def covers (d : Directive) (m : Message) : Bool :=
  d.target.all (fun target => target.toList.isPrefixOf m.topic.toList) &&
    d.fields.all m.fields.contains

/-- Whether the directive lets messages of a level through. -/
def allows (d : Directive) (level : Level) : Bool :=
  d.level.any fun most => level.detail ≤ most.detail

/-- How long the target is; none is shorter than an empty one. -/
def targetRank (d : Directive) : Nat :=
  match d.target with
  | none => 0
  | some target => target.utf8ByteSize + 1

/-- How two directives compare: first by the length of the target, then by the number of fields,
then by their texts. -/
def compareTo (a b : Directive) : Ordering :=
  (compare a.targetRank b.targetRank).then
    ((compare a.fields.length b.fields.length).then
      ((compare (a.target.getD "") (b.target.getD "")).then (compare a.fields b.fields)))

end Directive

namespace Filter

/-- Puts a directive in its place; it replaces one for the same messages. -/
def insert (d : Directive) : Filter → Filter
  | [] => [d]
  | e :: rest =>
    match d.compareTo e with
    | .gt => d :: e :: rest
    | .eq => d :: rest
    | .lt => e :: insert d rest

/-- The filter that lets messages up to a level through. -/
def upTo (level : Level) : Filter := [{ level := some level }]

/-- Whether a message is written. -/
def allows (f : Filter) (m : Message) : Bool :=
  match f.find? (·.covers m) with
  | some d => d.allows m.level
  | none => false

/-! ## Reading a filter -/

/-- Why a filter cannot be read. -/
inductive Fault where
  | tooManyEquals
  | tooManyFieldLists
  | unclosedFieldList
  | badLevel
deriving DecidableEq, Repr

/-- The text of a fault. -/
def Fault.message : Fault → String
  | tooManyEquals =>
    "invalid filter directive: too many '=' in filter directive, expected 0 or 1"
  | tooManyFieldLists =>
    "invalid filter directive: too many '[\x7b' in filter directive, expected 0 or 1"
  | unclosedFieldList =>
    "invalid filter directive: expected fields list to end with '\x7d]'"
  | badLevel =>
    "error parsing level filter: expected one of \"off\", \"error\", \"warn\", \"info\", " ++
      "\"debug\", \"trace\", or a number 0-5"

/-- The level with a number. -/
def levelOfNumber? : Nat → Option (Option Level)
  | 0 => some none
  | 1 => some (some .error)
  | 2 => some (some .warning)
  | 3 => some (some .info)
  | 4 => some (some .debug)
  | 5 => some (some .trace)
  | _ => none

/-- The level with a name, in any case. No name is the name of the gravest level. -/
def levelOfName? (name : String) : Option (Option Level) :=
  match String.ofList (name.toList.map Char.toLower) with
  | "off" => some none
  | "" | "error" => some (some .error)
  | "warn" => some (some .warning)
  | "info" => some (some .info)
  | "debug" => some (some .debug)
  | "trace" => some (some .trace)
  | _ => none

/-- The level that a text is. -/
def level? (text : String) : Option (Option Level) :=
  ((Number.readWord? text.toList).bind levelOfNumber?).or (levelOfName? text)

/-- The fields between the braces of a field list, without empty names. -/
def fieldNames (text : String) : List String :=
  (text.splitOn ",").filter (· ≠ "")

/-- A field list backwards, without the marks that close it; it may be closed more than once. -/
def stripClosing : List Char → List Char
  | ']' :: '\x7d' :: rest => stripClosing rest
  | cs => cs

/-- Reads what stands before an equals sign: a target, and perhaps a field list. -/
def readTarget (text : String) : Except Fault (String × List String) :=
  match text.splitOn "[\x7b" with
  | [target] => .ok (target, [])
  | [target, list] =>
    match list.toList.reverse with
    | ']' :: '\x7d' :: rest =>
      .ok (target, fieldNames (String.ofList (stripClosing rest).reverse))
    | _ => .error .unclosedFieldList
  | _ => .error .tooManyFieldLists

/-- Reads a directive: a target and a level, a level alone, or a target alone, which lets everything
through. -/
def readDirective (text : String) : Except Fault Directive :=
  match text.splitOn "=" with
  | [target, level] => do
    let (target, fields) ← readTarget target
    match level? level with
    | some level => .ok { target := some target, fields, level }
    | none => .error .badLevel
  | [single] =>
    match level? single with
    | some level => .ok { level }
    | none => .ok { target := some single, level := some .trace }
  | _ => .error .tooManyEquals

/-- Reads a filter: directives with commas between them. -/
def ofText (text : String) : Except Fault Filter := do
  let directives ← (text.splitOn ",").mapM readDirective
  .ok (directives.foldl (fun f d => insert d f) [])

end Filter

end BrowserTrace.Log
