import FilterQuery.Compilation.Basic
import FilterQuery.Json.Printer
import FilterQuery.Predicate.Meaning
import FilterQuery.Predicate.Printer
import FilterQuery.Schema.Builtin
import FilterQuery.Schema.Definition

/-!
# The command line

The command compiles a query against a schema, prints the predicate and, given a file of documents,
prints the documents that match. Nothing is printed for a query that is rejected; the predicate is
printed even if the documents cannot be read. Everything but the reading of files and the printing
itself is the pure function `CommandLine.run`.

The files are a parameter of this function, from names to texts, and a file that cannot be read has
no text. What the function gives is a report: the exit code, what goes to the standard output and
what goes to the standard error. The stages have the order in which their failures are reported: the
schema is loaded first, then the query is compiled, then the documents are loaded.

* A schema file goes before the name of a built-in schema, also if both are given.
* A file of documents holds an array; its items are the documents, and those that match are printed
  in their order, compactly and one a line.
* A failure is reported with what lies behind it, if the library can tell that (`Failure.report`).
-/

namespace FilterQuery.CommandLine

/-- A built-in entity. -/
inductive Entity where
  | target
  | action
  deriving DecidableEq, Repr

/-- How the predicate is printed. -/
inductive Format where
  | text
  | json
  deriving DecidableEq, Repr

/-- What the command is asked to do. -/
structure Request where
  query : String
  /-- The file of the schema, which goes before the built-in entity. -/
  schemaFile? : Option String
  entity : Entity
  /-- The file of the documents. -/
  dataFile? : Option String
  format : Format
  deriving DecidableEq, Repr

/-- Why the command fails. -/
inductive Failure where
  | unreadableSchema (file : String)
  | invalidSchema (file : String) (e : DefinitionError)
  | rejectedQuery (query : String) (rejection : Rejection)
  | unreadableData (file : String)
  | malformedData
  | noArray (file : String)
  deriving DecidableEq, Repr

namespace Failure

/-- What is reported about the failure. -/
def message : Failure → String
  | unreadableSchema file => "Failed to read schema file " ++ file
  | invalidSchema file _ => "Invalid schema file " ++ file
  | rejectedQuery query _ => "Failed to compile filter '" ++ query ++ "'"
  | unreadableData file => "Failed to read data file " ++ file
  | malformedData => "Failed to parse data file"
  | noArray file => "Data file " ++ file ++ " must contain a JSON array"

/-- What lies behind the failure, if that can be told. -/
def cause? : Failure → Option String
  | invalidSchema _ (.invalid e) => some e.message
  | rejectedQuery _ rejection => some rejection.message
  | _ => none

/-- The failure with what lies behind it. -/
def report (failure : Failure) : String :=
  "Error: " ++ failure.message ++
    match failure.cause? with
    | some cause => "\n\nCaused by:\n    " ++ cause
    | none => ""

end Failure

/-- What the command leaves behind. -/
structure Report where
  exitCode : Nat
  output : String
  /-- The error report, empty on success. -/
  error : String
  deriving DecidableEq, Repr

namespace Report

/-- The report of a failure after some output. -/
def ofFailure (output : String) (failure : Failure) : Report :=
  ⟨1, output, failure.report⟩

end Report

/-! ### Running -/

/-- The texts of files by their names. -/
abbrev Files := String → Option String

/-- The schema asked for. -/
def loadSchema (files : Files) (request : Request) : Except Failure Schema :=
  match request.schemaFile? with
  | some file =>
    match files file with
    | none => .error (.unreadableSchema file)
    | some text => (Schema.ofJson text).mapError (.invalidSchema file)
  | none =>
    match request.entity with
    | .target => .ok .target
    | .action => .ok .action

/-- The predicate asked for. -/
def compile (files : Files) (request : Request) : Except Failure Predicate :=
  match loadSchema files request with
  | .error failure => .error failure
  | .ok schema =>
    (Query.compileText .standard schema request.query).mapError (.rejectedQuery request.query)

/-- The documents of a file. -/
def loadDocuments (files : Files) (file : String) : Except Failure (List Json) :=
  match files file with
  | none => .error (.unreadableData file)
  | some text =>
    match Json.document? text with
    | none => .error .malformedData
    | some (.array documents) => .ok documents
    | some _ => .error (.noArray file)

/-- A text and the end of its line. -/
def line (text : String) : String := text ++ "\n"

/-- The predicate as it is printed. -/
def render (format : Format) (predicate : Predicate) : String :=
  match format with
  | .text => predicate.text
  | .json => predicate.toJson.indented

/-- The documents that match, one a line. -/
def renderMatches (predicate : Predicate) (documents : List Json) : String :=
  Text.join "" ((documents.filter (predicate.selects ·)).map fun document => line document.compact)

/-- Runs the command. -/
def run (files : Files) (request : Request) : Report :=
  match compile files request with
  | .error failure => .ofFailure "" failure
  | .ok predicate =>
    let output := line (render request.format predicate)
    match request.dataFile? with
    | none => ⟨0, output, ""⟩
    | some file =>
      match loadDocuments files file with
      | .error failure => .ofFailure output failure
      | .ok documents => ⟨0, output ++ renderMatches predicate documents, ""⟩

end FilterQuery.CommandLine
