import FilterQuery.Text.Blank
import FilterQuery.Text.Split
import FilterQuery.Text.Case
import FilterQuery.Number.Reader
import FilterQuery.Json.Printer
import FilterQuery.Json.Document
import FilterQuery.Query.Printer
import FilterQuery.Query.Parser
import FilterQuery.Schema.Builtin
import FilterQuery.Compilation.Argument
import FilterQuery.Predicate.Printer
import FilterQuery.Predicate.Pattern
import FilterQuery.Json.Reach
import FilterQuery.Compilation.Basic
import FilterQuery.Predicate.Meaning
import FilterQuery.Main
import FilterQuery.Proofs.Meaning
import FilterQuery.Proofs.RoundTrip
import FilterQuery.Proofs.Backends
import FilterQuery.Proofs.Failure
import FilterQuery.Proofs.LowerCase
import FilterQuery.Proofs.Building
import FilterQuery.Proofs.Offers
import FilterQuery.Proofs.Integers
import FilterQuery.Proofs.Decomposition
import FilterQuery.Proofs.Literals
import FilterQuery.Proofs.LetterCase
import FilterQuery.Proofs.Typing
import FilterQuery.Proofs.StoredValues
import FilterQuery.Proofs.Ordering
import FilterQuery.Proofs.CanonicalText
import FilterQuery.Proofs.Membership
import FilterQuery.Proofs.Scoping
import FilterQuery.Proofs.ArrayLayout
import FilterQuery.Proofs.Definitions
import FilterQuery.Proofs.OfferedConstants
import FilterQuery.Proofs.ErrorPosition
import FilterQuery.Proofs.PatternScan
import FilterQuery.Proofs.UniqueReading
import FilterQuery.Proofs.PrintedPaths
import FilterQuery.Proofs.Resolution
import FilterQuery.Proofs.WholeArguments
import FilterQuery.Proofs.BoundEntries
import FilterQuery.Proofs.NumberPatterns
import FilterQuery.Proofs.RepeatedParsing
import FilterQuery.Proofs.ScanProgress
import FilterQuery.Proofs.EntryPaths
import FilterQuery.Proofs.CommandOutput
import FilterQuery.Proofs.Directories
