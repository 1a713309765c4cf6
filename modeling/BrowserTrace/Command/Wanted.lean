import BrowserTrace.Command.Run

/-! # The files that a run reads

Which files a run reads can depend on what is in other files: the settings say which attachments are
archives, and the list of attachments says where they are. So the paths are found step by step: each
look at the files that are known so far gives the paths that a run with these files would read.
-/

namespace BrowserTrace

/-- Files that are known, by their paths. A path that is not known has no file. -/
def Files.ofKnown (known : List (String × Except FileError ByteArray)) : Files where
  info path :=
    match known.lookup path with
    | none => .error .noSuchFile
    | some (.ok contents) => .ok { size := contents.size, isFile := true }
    | some (.error .isADirectory) => .ok { size := 0, isFile := false }
    | some (.error error) => .error error
  read path := (known.lookup path).getD (.error .noSuchFile)

namespace Command

/-- The paths of the archives among the attachments of an attempt. -/
def archivePaths (settings : Settings) (a : Attempt) : List String :=
  (a.attachments.filter (·.isArchive settings.archiveContentType)).filterMap (·.path)

/-- The paths that a task reads. -/
def Task.wanted (files : Files) (stdin : ByteArray) (settings : Settings) : Task → List String
  | .listEntries path => [path]
  | .extract (.traces paths) _ => paths
  | .extract (.attachments path) _ =>
    let found := match readAttempts files stdin path with
      | .ok attempts => attempts.flatMap (archivePaths settings)
      | .error _ => []
    if path = "-" then found else path :: found

/-- The paths that a run with these files reads. -/
def wanted (inv : Invocation) (files : Files) : List String :=
  match Arguments.ofWords inv.words inv.environment with
  | .error _ => []
  | .ok args =>
    let settingsPaths := args.settingsFile.toList.flatMap Settings.candidates
    match (Settings.load files args.settingsFile).result with
    | .error _ => settingsPaths
    | .ok settings => settingsPaths ++ args.task.wanted files inv.stdin settings

/-- Whether a run reads the standard input. -/
def readsStdin (words : List String) (env : Environment) : Bool :=
  match Arguments.ofWords words env with
  | .ok { task := .extract (.attachments path) _, .. } => path == "-"
  | _ => false

/-- How often the paths have to be looked for: the settings file, the list of attachments and the
archives each show in the files before them. -/
def looks : Nat := 3

end Command

end BrowserTrace
