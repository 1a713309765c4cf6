import BrowserTrace.Files.Name
import BrowserTrace.Log.Basic
import BrowserTrace.Settings.Layering
import BrowserTrace.Settings.Reading
import BrowserTrace.Text.Utf8
import BrowserTrace.Toml.Document

/-! # Loading settings

The settings of a run are the defaults with a settings file laid over them. The file need not be
text throughout: what is not is replaced. No limit may be zero, and the limit on the size of an
entry is cut to a largest one. Unknown keys are noted as soon as all known keys have been read, even
when a limit then turns out to be zero.
-/

namespace BrowserTrace

/-- Why settings cannot be loaded. -/
inductive SettingsFault where
  | missing
  | unreadable (cause : FileError)
  | notToml
  | wrongSetting (place : Path)
  | zeroLimits (keys : List String)
deriving DecidableEq, Repr

/-- Why settings cannot be loaded, and from where. -/
structure SettingsError where
  file : String
  fault : SettingsFault
deriving DecidableEq, Repr

/-- What is noted while settings are loaded. -/
inductive SettingsNote where
  | unknownKeys (file : String) (keys : List String)
  | entrySizeCut (size : ByteSize)
deriving DecidableEq, Repr

/-- What came of loading settings. -/
structure SettingsLoad where
  notes : List SettingsNote
  result : Except SettingsError Settings
deriving Repr

namespace SettingsFault

/-- The text of a fault. -/
def message (file : String) : SettingsFault → String
  | missing => s!"configuration file \"{file}\" not found"
  | unreadable cause => cause.message
  | notToml => "TOML parse error"
  | wrongSetting place => s!"{place.render}: invalid value"
  | zeroLimits keys => "limits must be greater than zero: " ++ ", ".intercalate keys

end SettingsFault

/-- The text of an error. -/
def SettingsError.message (e : SettingsError) : String :=
  s!"failed to parse tracediag config at `{e.file}`"

namespace Settings

/-! ## Limits -/

/-- No larger limit on the size of an entry is used. -/
def largestEntrySize : ByteSize := .gibibytes 1

/-- The keys of limits that are zero, in alphabetical order. -/
def zeroLimits (s : Settings) : List String :=
  ([("limits.max-archive-size", s.archiveLimits.maxArchiveSize.bytes),
    ("limits.max-body-chars", s.recordLimits.maxBodyChars),
    ("limits.max-console-records", s.recordLimits.maxConsoleRecords),
    ("limits.max-console-text-chars", s.recordLimits.maxTextChars),
    ("limits.max-entry-size", s.archiveLimits.maxEntrySize.bytes)].filter (·.2 == 0)).map (·.1)

/-- Settings with the limit on the size of an entry cut to the largest one, and what is to be noted
about it. -/
def cutEntrySize (s : Settings) : Settings × List SettingsNote :=
  let size := s.archiveLimits.maxEntrySize
  if largestEntrySize.bytes < size.bytes then
    ({ s with archiveLimits := { s.archiveLimits with maxEntrySize := largestEntrySize } },
      [.entrySizeCut size])
  else
    (s, [])

/-! ## From a table -/

/-- The defaults, as a settings file would give them. -/
def defaults : List (String × Setting) :=
  [("attachments", .table [("archive-content-type", .text "application/zip")]),
    ("limits", .table [
      ("max-console-records", .integer 50),
      ("max-body-chars", .integer 2048),
      ("max-console-text-chars", .integer 2048),
      ("max-entry-size", .text "256MiB"),
      ("max-archive-size", .text "1GiB")])]

/-- Unknown keys in alphabetical order, each once. -/
def sortedKeys (paths : List Path) : List String :=
  ((paths.map Path.render).mergeSort fun a b => decide (a ≤ b)).eraseReps

/-- What is to be noted about unknown keys of a file. -/
def unknownNotes (file : String) (paths : List Path) : List SettingsNote :=
  if paths.isEmpty then [] else [.unknownKeys file (sortedKeys paths)]

/-- Loads the settings that lie over the defaults. -/
def loadTable (file : String) (incoming : List (String × Setting)) : SettingsLoad :=
  match ofTable (Setting.layer incoming defaults) with
  | .error place => { notes := [], result := .error ⟨file, .wrongSetting place⟩ }
  | .ok r =>
    let notes := unknownNotes file r.unknown
    match r.value.zeroLimits with
    | [] =>
      let (settings, cut) := r.value.cutEntrySize
      { notes := notes ++ cut, result := .ok settings }
    | keys => { notes, result := .error ⟨file, .zeroLimits keys⟩ }

/-! ## From a file -/

/-- The path with the extension of settings files, if it ends in a name. A name that has an
extension keeps it, and what stands behind such a name, too: a slash there leads to a hidden file
below it. -/
def withExtension? (path : String) : Option String :=
  (PathText.name? path).map fun name =>
    if PathText.hasExtension name then
      if path.toList.getLast? = some '/' then path ++ ".placeholder.toml" else path ++ ".toml"
    else
      PathText.trimEnd path ++ ".toml"

/-- The paths at which a settings file may lie. -/
def candidates (path : String) : List String :=
  path :: (withExtension? path).toList

/-- The characters of a settings file. Bytes that are no text are replaced, and a byte order mark at
the front does not count. -/
def textOf (bytes : ByteArray) : List Char := Text.dropMark (Text.decodeLossy bytes).toList

/-- The settings of the file at a path. -/
def readFile (files : Files) (path : String) :
    Except SettingsFault (List (String × Setting)) :=
  match (candidates path).find? files.isFile with
  | none => .error .missing
  | some path =>
    match files.read path with
    | .error cause => .error (.unreadable cause)
    | .ok bytes =>
      match Toml.document? (textOf bytes) with
      | none => .error .notToml
      | some table => .ok (Setting.membersOfToml table)

/-- What the defaults are called where a file is named. -/
def defaultsName : String := "<default config>"

/-- Loads the settings of a run, from a file or from the defaults alone. -/
def load (files : Files) : (path : Option String) → SettingsLoad
  | none => loadTable defaultsName []
  | some path =>
    match readFile files path with
    | .error fault => { notes := [], result := .error ⟨path, fault⟩ }
    | .ok incoming => loadTable path incoming

end Settings

/-! ## Notes as messages -/

namespace SettingsNote

/-- The text of a note. -/
def text : SettingsNote → String
  | unknownKeys file [key] =>
    s!"in config file {file}, ignoring unknown configuration key: {key}"
  | unknownKeys file keys =>
    s!"in config file {file}, ignoring unknown configuration keys:\n" ++
      String.join (keys.map fun key => s!"\n  - {key}")
  | entrySizeCut size =>
    s!"limits.max-entry-size ({size.display}) is too large, using maximum of " ++
      Settings.largestEntrySize.display

/-- A note as a message of the log. -/
def toMessage (n : SettingsNote) : Log.Message :=
  { level := .warning, topic := "tracediag_extractor::config", text := n.text }

end SettingsNote

end BrowserTrace
