import FailureTriage.Advice.Completion
import FailureTriage.Advice.Prompt
import FailureTriage.Advice.Reply
import FailureTriage.Advice.Suggester
import FailureTriage.CommandLine.Arguments
import FailureTriage.CommandLine.Program
import FailureTriage.Context.Bundle
import FailureTriage.Context.Reconstruction
import FailureTriage.Context.SourceReader
import FailureTriage.Decimal.Layout
import FailureTriage.Decimal.Numeral
import FailureTriage.Decimal.Shortest
import FailureTriage.Decimal.Whole
import FailureTriage.Dependency.Extraction
import FailureTriage.Dependency.Rule
import FailureTriage.Failure.Assertion
import FailureTriage.Failure.Location
import FailureTriage.Failure.Output
import FailureTriage.Failure.Record
import FailureTriage.Failure.Text
import FailureTriage.Fault
import FailureTriage.Files.Change
import FailureTriage.Files.Fault
import FailureTriage.Files.Glob
import FailureTriage.Files.Ignore
import FailureTriage.Files.StoredDocument
import FailureTriage.Files.Tree
import FailureTriage.Files.Walk
import FailureTriage.Json.Basic
import FailureTriage.Json.Codec
import FailureTriage.Json.Reader
import FailureTriage.Json.Writer
import FailureTriage.Log
import FailureTriage.Main
import FailureTriage.Markup.Attribute
import FailureTriage.Markup.Escape
import FailureTriage.Markup.Event
import FailureTriage.Names.Map
import FailureTriage.Names.Order
import FailureTriage.Names.Set
import FailureTriage.Path
import FailureTriage.Pattern.Basic
import FailureTriage.Pattern.Search
import FailureTriage.Proofs.Advice.Completions
import FailureTriage.Proofs.Advice.ListedSuspicions
import FailureTriage.Proofs.Advice.PromptParts
import FailureTriage.Proofs.Advice.RebuiltContext
import FailureTriage.Proofs.Advice.ReplyFormat
import FailureTriage.Proofs.Advice.ReplyHeaders
import FailureTriage.Proofs.Advice.ReplyParts
import FailureTriage.Proofs.Advice.ShownContext
import FailureTriage.Proofs.Advice.Stored
import FailureTriage.Proofs.Context.ComparedValues
import FailureTriage.Proofs.Context.Rankings
import FailureTriage.Proofs.Context.Stored
import FailureTriage.Proofs.Context.Unnoticed
import FailureTriage.Proofs.Decimal.Arithmetic
import FailureTriage.Proofs.Decimal.Finite
import FailureTriage.Proofs.Decimal.Packing
import FailureTriage.Proofs.Decimal.Rounding
import FailureTriage.Proofs.Decimal.Shortest
import FailureTriage.Proofs.Dependency.Declarations
import FailureTriage.Proofs.Dependency.DeclaredTypes
import FailureTriage.Proofs.Dependency.ImportedTypes
import FailureTriage.Proofs.Dependency.Imports
import FailureTriage.Proofs.Dependency.InjectedFields
import FailureTriage.Proofs.Dependency.Receivers
import FailureTriage.Proofs.Dependency.WholeNames
import FailureTriage.Proofs.Failure.RelevantLog
import FailureTriage.Proofs.Failure.Splitting
import FailureTriage.Proofs.Files.Descent
import FailureTriage.Proofs.Files.Directories
import FailureTriage.Proofs.Files.Frame
import FailureTriage.Proofs.Files.Growth
import FailureTriage.Proofs.Files.Listing
import FailureTriage.Proofs.Files.Overwriting
import FailureTriage.Proofs.Files.Siblings
import FailureTriage.Proofs.Files.Spellings
import FailureTriage.Proofs.Files.Steps
import FailureTriage.Proofs.Files.StoredDocument
import FailureTriage.Proofs.Json.Grammar
import FailureTriage.Proofs.Json.Laws
import FailureTriage.Proofs.Json.Numbers
import FailureTriage.Proofs.Json.Parsing
import FailureTriage.Proofs.Json.Records
import FailureTriage.Proofs.Json.RoundTrip
import FailureTriage.Proofs.Json.Strings
import FailureTriage.Proofs.Json.WrittenNumbers
import FailureTriage.Proofs.Lists.FirstOfEach
import FailureTriage.Proofs.Lists.Lookup
import FailureTriage.Proofs.Markup.CharacterData
import FailureTriage.Proofs.Markup.Content
import FailureTriage.Proofs.Markup.Cuts
import FailureTriage.Proofs.Markup.Elements
import FailureTriage.Proofs.Markup.Extent
import FailureTriage.Proofs.Markup.Pieces
import FailureTriage.Proofs.Markup.Sequence
import FailureTriage.Proofs.Markup.Tags
import FailureTriage.Proofs.Markup.Writing
import FailureTriage.Proofs.Names.Tables
import FailureTriage.Proofs.Paths.Endings
import FailureTriage.Proofs.Paths.Joining
import FailureTriage.Proofs.Paths.Order
import FailureTriage.Proofs.Pattern.Groups
import FailureTriage.Proofs.Pattern.Matching
import FailureTriage.Proofs.Pattern.Preferred
import FailureTriage.Proofs.Pattern.Successive
import FailureTriage.Proofs.Results
import FailureTriage.Proofs.Run.Counts
import FailureTriage.Proofs.Run.Documents
import FailureTriage.Proofs.Run.Exits
import FailureTriage.Proofs.Run.Gate
import FailureTriage.Proofs.Run.HandOver
import FailureTriage.Proofs.Run.Interruptions
import FailureTriage.Proofs.Run.Repetition
import FailureTriage.Proofs.Run.Steps
import FailureTriage.Proofs.Settings.Layers
import FailureTriage.Proofs.Source.Comparisons
import FailureTriage.Proofs.Source.Confinement
import FailureTriage.Proofs.Source.Discovery
import FailureTriage.Proofs.Source.Packages
import FailureTriage.Proofs.Source.Places
import FailureTriage.Proofs.Source.Signatures
import FailureTriage.Proofs.Source.Suspicions
import FailureTriage.Proofs.Source.TestSources
import FailureTriage.Proofs.Source.Unread
import FailureTriage.Proofs.Source.Windows
import FailureTriage.Proofs.StackTrace.Classes
import FailureTriage.Proofs.StackTrace.FrameLines
import FailureTriage.Proofs.StackTrace.Locations
import FailureTriage.Proofs.StackTrace.Printing
import FailureTriage.Proofs.Suite.Changes
import FailureTriage.Proofs.Suite.FailureTexts
import FailureTriage.Proofs.Suite.Following
import FailureTriage.Proofs.Suite.Isolation
import FailureTriage.Proofs.Suite.Listing
import FailureTriage.Proofs.Suite.Loading
import FailureTriage.Proofs.Suite.LogNames
import FailureTriage.Proofs.Suite.Resumption
import FailureTriage.Proofs.Suite.RoundTrip
import FailureTriage.Proofs.Suite.Sources
import FailureTriage.Proofs.Suite.Totals
import FailureTriage.Proofs.Suite.Tree
import FailureTriage.Proofs.Suite.Truncation
import FailureTriage.Proofs.Summary.Agreement
import FailureTriage.Proofs.Summary.Building
import FailureTriage.Proofs.Summary.Finite
import FailureTriage.Proofs.Summary.Stored
import FailureTriage.Proofs.Text.Cutting
import FailureTriage.Proofs.Text.LineEnds
import FailureTriage.Proofs.Text.Numbers
import FailureTriage.Proofs.Text.Replacing
import FailureTriage.Proofs.Text.Segments
import FailureTriage.Proofs.Text.Timestamps
import FailureTriage.Proofs.Text.Trimming
import FailureTriage.Proofs.Text.Words
import FailureTriage.Run.Advice
import FailureTriage.Run.Analysis
import FailureTriage.Run.Fault
import FailureTriage.Run.Session
import FailureTriage.Settings
import FailureTriage.Source.Layout
import FailureTriage.Source.Package
import FailureTriage.Source.Related
import FailureTriage.Source.Suspicion
import FailureTriage.Source.TestSource
import FailureTriage.Source.Window
import FailureTriage.Source.Workspace
import FailureTriage.StackTrace
import FailureTriage.Suite.Basic
import FailureTriage.Suite.Count
import FailureTriage.Suite.Directory
import FailureTriage.Suite.Document
import FailureTriage.Suite.Log
import FailureTriage.Suite.Totals
import FailureTriage.Summary.Build
import FailureTriage.Summary.Document
import FailureTriage.Text.Blank
import FailureTriage.Text.Digits
import FailureTriage.Text.Excerpt
import FailureTriage.Text.Find
import FailureTriage.Text.Lines
import FailureTriage.Text.Lower
import FailureTriage.Text.Utf8
import FailureTriage.Text.Word
import FailureTriage.Timestamp
import FailureTriage.Toml.Document
import FailureTriage.Toml.Scalar
import FailureTriage.Toml.Text
