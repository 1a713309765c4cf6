import BrowserTrace.Archive.Basic
import BrowserTrace.Archive.Description
import BrowserTrace.Archive.Directory
import BrowserTrace.Archive.EndRecord
import BrowserTrace.Archive.Entry
import BrowserTrace.Archive.Error
import BrowserTrace.Archive.NameIndex
import BrowserTrace.Archive.Words
import BrowserTrace.Archive.Writer
import BrowserTrace.Attachment
import BrowserTrace.ByteSize
import BrowserTrace.Bytes
import BrowserTrace.Collector
import BrowserTrace.Command.Arguments
import BrowserTrace.Command.Environment
import BrowserTrace.Command.Failure
import BrowserTrace.Command.InTree
import BrowserTrace.Command.Run
import BrowserTrace.Command.Wanted
import BrowserTrace.Deflate.Bits
import BrowserTrace.Deflate.Code
import BrowserTrace.Deflate.Stream
import BrowserTrace.Deflate.Token
import BrowserTrace.Deflate.Writer
import BrowserTrace.Diagnostics
import BrowserTrace.Diagnostics.Reader
import BrowserTrace.Event
import BrowserTrace.Extraction
import BrowserTrace.Files
import BrowserTrace.Files.Name
import BrowserTrace.Files.Tree
import BrowserTrace.Json.Basic
import BrowserTrace.Json.Lexeme
import BrowserTrace.Json.NumberText
import BrowserTrace.Json.Parser
import BrowserTrace.Json.Printer
import BrowserTrace.Json.Reader
import BrowserTrace.Json.Record
import BrowserTrace.Json.Skip
import BrowserTrace.Log.Basic
import BrowserTrace.Log.Filter
import BrowserTrace.Log.Printer
import BrowserTrace.Main
import BrowserTrace.MediaType
import BrowserTrace.Number.Binary64
import BrowserTrace.Number.Decimal
import BrowserTrace.Number.Extended
import BrowserTrace.Number.Natural
import BrowserTrace.Path
import BrowserTrace.Payload
import BrowserTrace.Proofs.Archive.Acceptance
import BrowserTrace.Proofs.Archive.Contents
import BrowserTrace.Proofs.Archive.DeclaredSize
import BrowserTrace.Proofs.Archive.Footprint
import BrowserTrace.Proofs.Archive.Grammar
import BrowserTrace.Proofs.Archive.Layout
import BrowserTrace.Proofs.Archive.LocalCopies
import BrowserTrace.Proofs.Archive.NameIndex
import BrowserTrace.Proofs.Archive.Narrowing
import BrowserTrace.Proofs.Archive.Payload
import BrowserTrace.Proofs.Archive.Purpose
import BrowserTrace.Proofs.Archive.Reading
import BrowserTrace.Proofs.Archive.RoundTrip
import BrowserTrace.Proofs.Archive.Trailing
import BrowserTrace.Proofs.Archive.Unreadable
import BrowserTrace.Proofs.Archive.Words
import BrowserTrace.Proofs.Bounds
import BrowserTrace.Proofs.Bytes
import BrowserTrace.Proofs.Collector
import BrowserTrace.Proofs.Command.Attempts
import BrowserTrace.Proofs.Command.Listing
import BrowserTrace.Proofs.Command.Outcome
import BrowserTrace.Proofs.Command.Routes
import BrowserTrace.Proofs.Command.Traces
import BrowserTrace.Proofs.Contracts
import BrowserTrace.Proofs.Cuts
import BrowserTrace.Proofs.Deflate.Bits
import BrowserTrace.Proofs.Deflate.Canonical
import BrowserTrace.Proofs.Deflate.Code
import BrowserTrace.Proofs.Deflate.Description
import BrowserTrace.Proofs.Deflate.Format
import BrowserTrace.Proofs.Deflate.Inflate
import BrowserTrace.Proofs.Deflate.Output
import BrowserTrace.Proofs.Deflate.Stream
import BrowserTrace.Proofs.Deflate.Tokens
import BrowserTrace.Proofs.Deflate.Writer
import BrowserTrace.Proofs.Event.Codec
import BrowserTrace.Proofs.Event.Fields
import BrowserTrace.Proofs.Event.Leniency
import BrowserTrace.Proofs.Event.Lines
import BrowserTrace.Proofs.Event.Recorded
import BrowserTrace.Proofs.Event.Status
import BrowserTrace.Proofs.Extraction
import BrowserTrace.Proofs.Isolation
import BrowserTrace.Proofs.Json.Float
import BrowserTrace.Proofs.Json.Front
import BrowserTrace.Proofs.Json.LaidOut
import BrowserTrace.Proofs.Json.Lexeme
import BrowserTrace.Proofs.Json.Local
import BrowserTrace.Proofs.Json.OneLine
import BrowserTrace.Proofs.Json.Order
import BrowserTrace.Proofs.Json.Paths
import BrowserTrace.Proofs.Json.Reads
import BrowserTrace.Proofs.Json.RoundTrip
import BrowserTrace.Proofs.Lookup
import BrowserTrace.Proofs.MediaType
import BrowserTrace.Proofs.Number.Exact
import BrowserTrace.Proofs.Number.Shortest
import BrowserTrace.Proofs.Number.Value
import BrowserTrace.Proofs.Record
import BrowserTrace.Proofs.Repacking
import BrowserTrace.Proofs.Settings
import BrowserTrace.Proofs.Settings.Layering
import BrowserTrace.Proofs.Settings.Limits
import BrowserTrace.Proofs.Settings.Loading
import BrowserTrace.Proofs.Settings.Reading
import BrowserTrace.Proofs.Settings.Sorted
import BrowserTrace.Proofs.Settings.Unknown
import BrowserTrace.Proofs.Text.Lines
import BrowserTrace.Proofs.Text.Parts
import BrowserTrace.Proofs.Text.Utf8
import BrowserTrace.Proofs.Toml.Keys
import BrowserTrace.Record
import BrowserTrace.Settings.Basic
import BrowserTrace.Settings.Layering
import BrowserTrace.Settings.Load
import BrowserTrace.Settings.Reading
import BrowserTrace.Settings.Setting
import BrowserTrace.Text.Blank
import BrowserTrace.Text.Utf8
import BrowserTrace.Text.Visible
import BrowserTrace.Toml.DateTime
import BrowserTrace.Toml.Document
import BrowserTrace.Toml.Lexeme
import BrowserTrace.Toml.Scalar
import BrowserTrace.Toml.Table
import BrowserTrace.Toml.Value
