import BrowserTrace.Command.Wanted

/-! # The command line

The outermost layer: it gathers what a run is given, writes what the run ends with, and exits.
-/

namespace BrowserTrace.Command

/-- Why the system could not do something with a file. -/
def fileError : IO.Error → FileError
  | .noFileOrDirectory .. => .noSuchFile
  | .noSuchThing .. => .noSuchFile
  | .inappropriateType .. => .isADirectory
  | error => .other (toString error)

/-- Reads a file. -/
def readPath (path : String) : IO (Except FileError ByteArray) :=
  try
    return .ok (← IO.FS.readBinFile path)
  catch error =>
    return .error (fileError error)

/-- Reads those of the wanted files that are not known yet, as often as paths have to be looked
for. -/
def readWanted (inv : Invocation) :
    (looks : Nat) → (known : List (String × Except FileError ByteArray)) →
      IO (List (String × Except FileError ByteArray))
  | 0, known => return known
  | looks + 1, known => do
    let paths := (wanted inv (.ofKnown known)).eraseDups.filter (known.lookup · |>.isNone)
    let read ← paths.mapM fun path => return (path, ← readPath path)
    readWanted inv looks (known ++ read)

/-- Writes an output file: first beside its place, and then into it. -/
def writeOutput (file : OutputFile) : IO Written := do
  match PathText.name? file.path with
  | none => return .noName
  | some name =>
    let directory := PathText.parent file.path
    let draft := directory ++ "/." ++ name ++ ".tmp"
    try
      IO.FS.writeFile draft file.contents
      IO.FS.rename draft (directory ++ "/" ++ name)
      return .done
    catch error =>
      return .failed (fileError error)

/-- The variables of the environment that the program looks at. -/
def readEnvironment : IO Environment := do
  let bindings ← Environment.names.filterMapM fun name => do
    return (← IO.getEnv name).map (name, ·)
  return { bindings }

/-- Reads a stream to its end, behind the bytes in `read`. -/
partial def readToEnd (stream : IO.FS.Stream) (read : ByteArray) : IO ByteArray := do
  let bytes ← stream.read 65536
  if bytes.isEmpty then return read else readToEnd stream (read ++ bytes)

/-- Writes a report, and gives its exit code. -/
def Report.print (r : Report) : IO UInt32 := do
  IO.eprint r.stderr
  IO.print r.stdout
  return UInt32.ofNat r.exit.number

/-- Runs the command on words. -/
def runOn (words : List String) : IO UInt32 := do
  let environment ← readEnvironment
  let stdin ←
    if readsStdin words environment then readToEnd (← IO.getStdin) ByteArray.empty
    else pure ByteArray.empty
  let inv : Invocation := {
    words, environment, stdin
    stdoutIsTerminal := ← (← IO.getStdout).isTty
    stderrIsTerminal := ← (← IO.getStderr).isTty }
  let known ← readWanted inv looks []
  match plan inv (.ofKnown known) with
  | .ended report => report.print
  | .writing file console messages =>
    (conclude file console messages (← writeOutput file)).print

end BrowserTrace.Command

/-- The command. -/
def main (words : List String) : IO UInt32 := BrowserTrace.Command.runOn words
