import BrowserTrace.Archive.Error
import BrowserTrace.Json.Parser
import BrowserTrace.Log.Printer
import BrowserTrace.Settings.Load

/-! # Failures of the command

A failure is reported as a message, followed by the errors behind it, and decides the exit code.
Archives that cannot be read are no failures of an extraction.
-/

namespace BrowserTrace.Command

/-- Why the command fails. -/
inductive Failure where
  | settings (error : SettingsError)
  | attachmentsUnreadable (path : String) (cause : FileError)
  | attachmentsMalformed (path : String) (error : Json.ReadError)
  | archive (path : String) (error : ArchiveError)
  | output (path : String) (cause : FileError)
deriving DecidableEq, Repr

/-- The exit codes of the command. -/
inductive ExitCode where
  | success
  | usage
  | setup
  | archiveUnreadable
  | attachmentsUnusable
  | noOutputName
  | outputFailed
deriving DecidableEq, Repr

/-- The number of an exit code. -/
def ExitCode.number : ExitCode → Nat
  | success => 0
  | usage => 2
  | setup => 96
  | archiveUnreadable => 97
  | attachmentsUnusable => 98
  | noOutputName => 101
  | outputFailed => 110

namespace Failure

/-- The exit code of a failure. -/
def exitCode : Failure → ExitCode
  | settings _ => .setup
  | attachmentsUnreadable .. | attachmentsMalformed .. => .attachmentsUnusable
  | archive .. => .archiveUnreadable
  | output .. => .outputFailed

/-- The text of a failure, in which paths stand out when colours are on. -/
def headline (colored : Bool) : Failure → String
  | settings error => s!"failed to parse tracediag config at `{bold error.file}`"
  | attachmentsUnreadable path _ => s!"failed to read attachments from `{bold path}`"
  | attachmentsMalformed path error =>
    s!"failed to parse attachments from `{bold path}` at `{bold error.path.render}`"
  | archive path _ => s!"failed to read trace archive `{bold path}`"
  | output path _ => s!"failed to write output to `{bold path}`"
where
  /-- A text that stands out. -/
  bold (text : String) : String := Style.bold.paint colored text

/-- The text of what is wrong with JSON text. -/
def faultText : Json.Fault → String
  | .mismatch => "invalid type or value"
  | .malformed => "invalid JSON"
  | .cutOff => "unexpected end of input"

/-- The texts of the errors behind a failure, each behind the one before it. -/
def causes : Failure → List String
  | settings error => [error.fault.message error.file]
  | attachmentsUnreadable _ cause => [cause.message]
  | attachmentsMalformed _ error => [faultText error.fault]
  | archive _ error => error.message :: (error.cause?.map FileError.message).toList
  | output _ cause => [cause.message]

/-- The messages that report a failure. -/
def messages (colored : Bool) (f : Failure) : List Log.Message :=
  { level := .error, topic := "tracediag::errors", text := f.headline colored } ::
    f.causes.map fun cause =>
      { level := .error, topic := Log.continuationTopic, text := "\nCaused by:\n  " ++ cause }

end Failure

end BrowserTrace.Command
