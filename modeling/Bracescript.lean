import Bracescript.Build
import Bracescript.Build.Progress
import Bracescript.Build.Timings
import Bracescript.Build.View
import Bracescript.Bytes
import Bracescript.Cache
import Bracescript.Cache.Packed
import Bracescript.Calendar
import Bracescript.Command
import Bracescript.Compile.Directory
import Bracescript.Compile.Pipeline
import Bracescript.Compile.Run
import Bracescript.Compile.Stage
import Bracescript.Cursor
import Bracescript.Diagnostic
import Bracescript.Diagnostic.Bag
import Bracescript.Diagnostic.Cause
import Bracescript.Diagnostic.Code
import Bracescript.Diagnostic.Pretty
import Bracescript.Diagnostic.Report
import Bracescript.Diagnostic.Short
import Bracescript.Disk
import Bracescript.Disk.Sources
import Bracescript.FileSet
import Bracescript.Flag
import Bracescript.Flag.Duration
import Bracescript.Flag.Integer
import Bracescript.Lexer
import Bracescript.Lexer.Lexeme
import Bracescript.Main
import Bracescript.Manifest
import Bracescript.Manifest.Constraint
import Bracescript.Manifest.Version
import Bracescript.Parse
import Bracescript.Parse.Expression
import Bracescript.Parse.Reduction
import Bracescript.Parse.State
import Bracescript.Parse.Statement
import Bracescript.Path
import Bracescript.Project
import Bracescript.Proofs.Alike
import Bracescript.Proofs.Bags
import Bracescript.Proofs.Batches
import Bracescript.Proofs.BuildNames
import Bracescript.Proofs.BuildProgress
import Bracescript.Proofs.CacheEntries
import Bracescript.Proofs.CacheFolder
import Bracescript.Proofs.CacheTransparency
import Bracescript.Proofs.Composition
import Bracescript.Proofs.Conservation
import Bracescript.Proofs.DelimiterFaults
import Bracescript.Proofs.Delimiters
import Bracescript.Proofs.Derivation
import Bracescript.Proofs.DirectorySchedules
import Bracescript.Proofs.Emission
import Bracescript.Proofs.EmissionAgrees
import Bracescript.Proofs.EmissionInjective
import Bracescript.Proofs.EmittedLiterals
import Bracescript.Proofs.EmittedModule
import Bracescript.Proofs.EmittedText
import Bracescript.Proofs.EntryPoints
import Bracescript.Proofs.ErrorPlace
import Bracescript.Proofs.ExpressionAgrees
import Bracescript.Proofs.ExpressionReads
import Bracescript.Proofs.ForestGrowth
import Bracescript.Proofs.Glyphs
import Bracescript.Proofs.Grammar
import Bracescript.Proofs.Hygiene
import Bracescript.Proofs.Layout
import Bracescript.Proofs.Lexemes
import Bracescript.Proofs.LineEnds
import Bracescript.Proofs.Lines
import Bracescript.Proofs.Lookahead
import Bracescript.Proofs.NameStatements
import Bracescript.Proofs.NumberLiterals
import Bracescript.Proofs.Numerals
import Bracescript.Proofs.ParseRules
import Bracescript.Proofs.ParserSafety
import Bracescript.Proofs.Phrase
import Bracescript.Proofs.PhraseParsing
import Bracescript.Proofs.Position
import Bracescript.Proofs.Precedence
import Bracescript.Proofs.ProgramForest
import Bracescript.Proofs.ProgressView
import Bracescript.Proofs.Reading
import Bracescript.Proofs.ReadingBack
import Bracescript.Proofs.Recovery
import Bracescript.Proofs.RelativePaths
import Bracescript.Proofs.RenamedParsing
import Bracescript.Proofs.Renaming
import Bracescript.Proofs.Schedules
import Bracescript.Proofs.Scoping
import Bracescript.Proofs.ShortReports
import Bracescript.Proofs.ShownErrors
import Bracescript.Proofs.Sorting
import Bracescript.Proofs.SpanSoundness
import Bracescript.Proofs.StatementAgrees
import Bracescript.Proofs.StatementReads
import Bracescript.Proofs.StatementTexts
import Bracescript.Proofs.StringLiterals
import Bracescript.Proofs.Subscripts
import Bracescript.Proofs.Tokenization
import Bracescript.Proofs.WellFormed
import Bracescript.Proofs.WholeNumerals
import Bracescript.Sha256
import Bracescript.Shell
import Bracescript.Shell.Compile
import Bracescript.Shell.Dialogue
import Bracescript.Shell.Inspect
import Bracescript.Shell.Project
import Bracescript.Shell.Run
import Bracescript.Shell.Watch
import Bracescript.SourceFile
import Bracescript.Span
import Bracescript.Target.Emit
import Bracescript.Target.Module
import Bracescript.Target.Runtime
import Bracescript.Text.Cluster
import Bracescript.Text.Fixed
import Bracescript.Text.Json
import Bracescript.Text.Paint
import Bracescript.Text.Printable
import Bracescript.Text.Quoted
import Bracescript.Text.Ranges
import Bracescript.Text.Trim
import Bracescript.Text.Utf8
import Bracescript.Text.Width
import Bracescript.Timer
import Bracescript.Token
import Bracescript.Token.Listing
import Bracescript.TokenTree
import Bracescript.Toml
import Bracescript.Toml.Scalar
import Bracescript.Toml.Statement
import Bracescript.Trace
import Bracescript.Trace.Event
import Bracescript.Tree
import Bracescript.Tree.Forest
import Bracescript.Tree.Json
import Bracescript.Tree.Kind
import Bracescript.Tree.Outline
import Bracescript.Tree.SpanCheck
import Bracescript.Version
import Bracescript.Watch
import Bracescript.Watch.Tree
import Bracescript.Proofs.OutputPaths
import Bracescript.Proofs.Repeats
import Bracescript.Proofs.CursorRuns
import Bracescript.Proofs.Versions
