import BrowserTrace.Command.Arguments
import BrowserTrace.Command.Failure
import BrowserTrace.Extraction
import BrowserTrace.Files.Name

/-! # Running the command

A run is a function of the arguments, the environment, the standard input and the files that it
reads. It ends with what is to be written: text for the two output streams, and perhaps an output
file, which is the last thing that is done. So a failed run has written nothing but messages.
-/

namespace BrowserTrace.Command

/-- What a run is given. -/
structure Invocation where
  words : List String
  environment : Environment := {}
  stdin : ByteArray := ByteArray.empty
  stdoutIsTerminal : Bool := false
  stderrIsTerminal : Bool := false

/-- What a run has written when it ends, and its exit code. -/
structure Report where
  exit : ExitCode
  stdout : String := ""
  stderr : String := ""
deriving DecidableEq, Repr

/-- A file that is to be written. -/
structure OutputFile where
  path : String
  contents : String
deriving DecidableEq, Repr

/-- The texts that the command prints instead of running. -/
def versionText : String := "tracediag 0.1.0\n"

/-- How the command is used. -/
def usageText : String :=
  "Extract network and console diagnostics from browser trace archives\n\n" ++
    "Usage: tracediag [OPTIONS] <COMMAND>\n\n" ++
    "Commands:\n" ++
    "  extract       Extract diagnostics from test attempts\n" ++
    "  list-entries  List the entries in a trace archive\n" ++
    "  help          Print this message or the help of the given subcommand(s)\n\n" ++
    "Options:\n" ++
    "  -v, --verbose             Verbose output\n" ++
    "      --color <WHEN>        Produce color output: auto, always, never\n" ++
    "      --config-file <PATH>  Config file [default: built-in defaults]\n" ++
    "  -h, --help                Print help\n" ++
    "  -V, --version             Print version\n"

/-! ## Messages -/

/-- How messages of a run are written. -/
structure Console where
  colored : Bool
  filter : Log.Filter
deriving DecidableEq, Repr

/-- How messages are written, and what is to be said about the filter that the environment asks
for. -/
def Console.ofEnvironment (args : Arguments) (inv : Invocation) : Console × List Log.Message :=
  let colored := args.color.isOn inv.environment inv.stderrIsTerminal
  let standard := Log.Filter.upTo (if args.verbose then .debug else .info)
  match inv.environment.get? "TRACEDIAG_LOG" with
  | none | some "" => ({ colored, filter := standard }, [])
  | some text =>
    match Log.Filter.ofText text with
    | .ok filter => ({ colored, filter }, [])
    | .error fault =>
      ({ colored, filter := standard },
        [{ level := .warning, topic := "tracediag::output"
           text := s!"ignoring invalid TRACEDIAG_LOG value `{text}`: {fault.message}" }])

/-- The message that sums an attempt up. -/
def summary (index : Nat) (s : Stats) : Log.Message :=
  { level := .info
    topic := "tracediag::dispatch"
    text :=
      s!"attempt {index}: read {s.archivesRead} archives ({s.archivesSkipped} skipped), " ++
        s!"{s.networkRecords} network records, {s.consoleRecords} console records " ++
        s!"({s.consoleRecordsDropped} dropped)" }

/-- The messages of an extraction. -/
def extractionMessages (verbose : Bool) (index : Nat) (e : Extraction) : List Log.Message :=
  e.notes.map Note.toMessage ++ if verbose then [summary index e.stats] else []

/-! ## Tasks -/

/-- What a task came to: its messages, and its output or a failure. -/
structure Done where
  messages : List Log.Message := []
  result : Except Failure String

/-- Reads the attempts of a list of attachments; `-` is the standard input. -/
def readAttempts (files : Files) (stdin : ByteArray) (path : String) :
    Except Failure (List Attempt) :=
  let text := if path = "-" then Files.textOf stdin else files.readText path
  match text with
  | .error cause => .error (.attachmentsUnreadable path cause)
  | .ok text =>
    match Attempt.readList text.toList with
    | .error error => .error (.attachmentsMalformed path error)
    | .ok attempts => .ok attempts

/-- Extracts the diagnostics of attempts. The output is a list with one element an attempt. -/
def extractAttempts (files : Files) (settings : Settings) (verbose : Bool)
    (attempts : List Attempt) : Done :=
  let extractions := attempts.map (extract files settings)
  { messages := (extractions.zipIdx.map fun (e, i) => extractionMessages verbose i e).flatten
    result := .ok ((Json.array (extractions.map fun e => e.diagnostics.toJson)).pretty ++ "\n") }

/-- The attempt whose attachments are the trace archives at some paths. -/
def attemptOf (settings : Settings) (paths : List String) : Attempt :=
  { attachments := paths.map (Attachment.trace settings.archiveContentType) }

/-- Extracts the diagnostics of the trace archives at some paths. -/
def extractTraces (files : Files) (settings : Settings) (verbose : Bool) (paths : List String) :
    Done :=
  let e := extract files settings (attemptOf settings paths)
  { messages := extractionMessages verbose 0 e
    result := .ok (e.diagnostics.toJson.pretty ++ "\n") }

/-- Text filled up with blanks on the right. -/
def padRight (width : Nat) (text : String) : String :=
  text ++ String.ofList (List.replicate (width - text.length) ' ')

/-- Text filled up with blanks on the left. -/
def padLeft (width : Nat) (text : String) : String :=
  String.ofList (List.replicate (width - text.length) ' ') ++ text

/-- The line of an entry in a listing. -/
def entryLine (colored : Bool) (e : Entry) : String :=
  Style.cyan.paint colored (padRight 8 e.method.name) ++ " " ++
    padLeft 12 (toString e.compressedSize.toNat) ++ " " ++
    padLeft 12 (toString e.uncompressedSize.toNat) ++ "  " ++
    Style.bold.paint colored e.name ++ "\n"

/-- Lists the entries of the archive at a path. -/
def listing (files : Files) (settings : Settings) (colored : Bool) (path : String) :
    Except Failure String :=
  match Archive.load files path settings.archiveLimits with
  | .error error => .error (.archive path error)
  | .ok archive => .ok (String.join (archive.entries.map (entryLine colored)))

/-- Does a task. What it gives is a file's contents when the task has an output file. -/
def Task.perform (files : Files) (stdin : ByteArray) (settings : Settings)
    (verbose colored : Bool) : Task → Done
  | .extract (.attachments path) _ =>
    match readAttempts files stdin path with
    | .error failure => { result := .error failure }
    | .ok attempts => extractAttempts files settings verbose attempts
  | .extract (.traces paths) _ => extractTraces files settings verbose paths
  | .listEntries path => { result := listing files settings colored path }

/-- The output file of a task. -/
def Task.output? : Task → Option String
  | .extract _ output => output
  | .listEntries _ => none

/-! ## A whole run -/

/-- How a run goes on once its files have been read: it has ended, or a file is still to be written,
and writing it may fail. -/
inductive Plan where
  | ended (report : Report)
  | writing (file : OutputFile) (console : Console) (messages : List Log.Message)
deriving DecidableEq, Repr

/-- The report of a failure after other messages. -/
def Failure.report (f : Failure) (console : Console) (messages : List Log.Message) : Report :=
  { exit := f.exitCode
    stderr := Log.render console.colored console.filter (messages ++ f.messages console.colored) }

/-- Runs the command up to the writing of its output file. -/
def Arguments.plan (args : Arguments) (inv : Invocation) (files : Files) : Plan :=
  let (console, first) := Console.ofEnvironment args inv
  let load := Settings.load files args.settingsFile
  let messages := first ++ load.notes.map SettingsNote.toMessage
  match load.result with
  | .error error => .ended ((Failure.settings error).report console messages)
  | .ok settings =>
    let colored := args.color.isOn inv.environment inv.stdoutIsTerminal
    let done := args.task.perform files inv.stdin settings args.verbose colored
    let messages := messages ++ done.messages
    match done.result, args.task.output? with
    | .error failure, _ => .ended (failure.report console messages)
    | .ok output, none =>
      .ended { exit := .success, stdout := output
               stderr := Log.render console.colored console.filter messages }
    | .ok contents, some path => .writing { path, contents } console messages

/-- Runs the command up to the writing of its output file, from its words on. -/
def plan (inv : Invocation) (files : Files) : Plan :=
  match Arguments.ofWords inv.words inv.environment with
  | .error .help => .ended { exit := .success, stdout := usageText }
  | .error .version => .ended { exit := .success, stdout := versionText }
  | .error (.fault fault) =>
    .ended { exit := .usage, stderr := "error: " ++ fault.message ++ "\n" }
  | .ok args => args.plan inv files

/-- The outcome of writing an output file: a path that ends in no name cannot even be tried. -/
inductive Written where
  | done
  | failed (cause : FileError)
  | noName
deriving DecidableEq, Repr

/-- The report of a run whose output file has been tried to write. -/
def conclude (file : OutputFile) (console : Console) (messages : List Log.Message) :
    Written → Report
  | .done =>
    { exit := .success, stderr := Log.render console.colored console.filter messages }
  | .failed cause => (Failure.output file.path cause).report console messages
  | .noName =>
    { exit := .noOutputName, stderr := Log.render console.colored console.filter messages }

end BrowserTrace.Command
