import BrowserTrace.Path
import BrowserTrace.Settings.Basic
import BrowserTrace.Settings.Setting

/-! # Reading settings

A group of settings is read from a table, by the names of its keys, or from an array, by their
order. Every key of the group must be there. A setting that does not mean what its key asks for is
an error at its place, and the first one decides; names that are no keys are collected.
-/

namespace BrowserTrace

namespace Setting

/-- Something that was read, and the unknown keys on the way, from the root. -/
structure Read (α : Type) where
  value : α
  unknown : List Path := []

/-- A reader of a setting. An error is the place of the setting that is wrong. -/
abbrev Reader (α : Type) := Setting → Except Path (Read α)

/-- Reads a setting that means something on its own. -/
def reading {α : Type} (f : Setting → Option α) : Reader α := fun v =>
  match f v with
  | some value => .ok { value }
  | none => .error []

/-- The same place, seen from one step further out. -/
def under {α : Type} (step : PathStep) : Except Path (Read α) → Except Path (Read α)
  | .ok r => .ok { r with unknown := r.unknown.map (step :: ·) }
  | .error path => .error (step :: path)

/-- A key of a group, and how its setting changes the group. -/
structure Key (σ : Type) where
  name : String
  read : Reader (σ → σ)

/-- A key whose setting is a part of the group. -/
def Key.of {σ α : Type} (name : String) (read : Reader α) (set : α → σ → σ) : Key σ :=
  { name
    read := fun v =>
      match read v with
      | .ok r => .ok { value := set r.value, unknown := r.unknown }
      | .error path => .error path }

variable {σ : Type}

/-- Reads the members of a table in their order. -/
def readMembers (keys : List (Key σ)) :
    List (String × Setting) → Read σ → Except Path (Read σ)
  | [], r => .ok r
  | (name, v) :: rest, r =>
    match keys.find? (·.name == name) with
    | none => readMembers keys rest { r with unknown := r.unknown ++ [[.key name]] }
    | some key =>
      match under (.key name) (key.read v) with
      | .error path => .error path
      | .ok change =>
        readMembers keys rest
          { value := change.value r.value, unknown := r.unknown ++ change.unknown }

/-- Reads the elements of an array from index `i` on. Elements behind the last key do not count. -/
def readItems (i : Nat) : List (Key σ) → List Setting → Read σ → Except Path (Read σ)
  | [], _, r => .ok r
  | _ :: _, [], _ => .error []
  | key :: keys, v :: rest, r =>
    match under (.index i) (key.read v) with
    | .error path => .error path
    | .ok change =>
      readItems (i + 1) keys rest
        { value := change.value r.value, unknown := r.unknown ++ change.unknown }

/-- Reads a group of settings, starting from `start`. -/
def readGroup (keys : List (Key σ)) (start : σ) : Reader σ
  | .table members =>
    match readMembers keys members { value := start } with
    | .error path => .error path
    | .ok r =>
      if keys.all fun key => members.any (·.1 == key.name) then .ok r else .error []
  | .array items => readItems 0 keys items { value := start }
  | _ => .error []

end Setting

namespace Settings

open Setting (Key Read)

/-- The limits as they are set, before they are checked. -/
structure Limits where
  records : RecordLimits := {}
  archive : ArchiveLimits := {}
deriving DecidableEq, Repr

/-- The keys of the limits. -/
def limitKeys : List (Key Limits) :=
  [.of "max-console-records" (Setting.reading Setting.count?) fun n l =>
      { l with records := { l.records with maxConsoleRecords := n } },
    .of "max-body-chars" (Setting.reading Setting.count?) fun n l =>
      { l with records := { l.records with maxBodyChars := n } },
    .of "max-console-text-chars" (Setting.reading Setting.count?) fun n l =>
      { l with records := { l.records with maxTextChars := n } },
    .of "max-entry-size" (Setting.reading Setting.size?) fun size l =>
      { l with archive := { l.archive with maxEntrySize := size } },
    .of "max-archive-size" (Setting.reading Setting.size?) fun size l =>
      { l with archive := { l.archive with maxArchiveSize := size } }]

/-- The key that says which attachments are archives. -/
def attachmentKeys : List (Key String) :=
  [.of "archive-content-type" (Setting.reading Setting.text?) fun text _ => text]

/-- The groups of settings. -/
def groups : List (Key Settings) :=
  [.of "attachments" (Setting.readGroup attachmentKeys "") fun archiveContentType s =>
      { s with archiveContentType },
    .of "limits" (Setting.readGroup limitKeys {}) fun limits s =>
      { s with recordLimits := limits.records, archiveLimits := limits.archive }]

/-- Reads all settings. -/
def ofTable (members : List (String × Setting)) : Except Path (Read Settings) :=
  Setting.readGroup groups {} (.table members)

end Settings

end BrowserTrace
