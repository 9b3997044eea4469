import FilterQuery.CommandLine.Basic

/-!
# Command-line arguments

The query is the only argument without an option; behind `--` every argument is one without an
option. An option is given at most once, by its name behind two dashes or by its letter behind one.
Letters may share a dash as long as their options have no value: behind the letter of an option with
a value stands the value. A value also stands behind an equals sign or in the next argument, if that
has no dash in front.

A value in an argument of its own is taken only when the next option or the query begins, or when no
argument is left. So an argument that cannot be read at all is reported before a wrong value in
front of it.

The arguments are read from left to right by a function that adds one of them to what is read so far
(`Reading.add`). What is read so far are the options and, possibly, an option whose value is still
to come or still to be taken. In the end the options are turned into a request, where the defaults
are put in (`Options.toRequest`). Errors of use have an exit code of their own.
-/

namespace FilterQuery.CommandLine

/-- An option with a value. -/
inductive Setting where
  | schema
  | entity
  | data
  | format
  deriving DecidableEq, Repr

/-- Why the arguments are no request. -/
inductive UsageError where
  | missingQuery
  | unexpected (argument : String)
  | unexpectedValue (value : String)
  | missingValue (setting : Setting)
  | repeated (option : String)
  | invalidValue (value : String) (setting : Setting)
  deriving DecidableEq, Repr

namespace Setting

/-- The option as usage messages show it. -/
def usage : Setting → String
  | schema => "--schema <SCHEMA>"
  | entity => "--entity <ENTITY>"
  | data => "--data <DATA>"
  | format => "--format <FORMAT>"

/-- The option of a letter. -/
def ofLetter? (c : Char) : Option Setting :=
  match c with
  | 's' => some schema
  | 'e' => some entity
  | 'D' => some data
  | 'f' => some format
  | _ => none

/-- The option of a name. -/
def ofName? (name : String) : Option Setting :=
  match name with
  | "schema" => some schema
  | "entity" => some entity
  | "data" => some data
  | "format" => some format
  | _ => none

end Setting

/-- The entity of a name. -/
def Entity.ofName? (name : String) : Option Entity :=
  match name with
  | "target" => some .target
  | "action" => some .action
  | _ => none

/-- The format of a name. -/
def Format.ofName? (name : String) : Option Format :=
  match name with
  | "text" => some .text
  | "json" => some .json
  | _ => none

/-- The option without a value, as usage messages show it. -/
def debugUsage : String := "--debug"

namespace UsageError

/-- What is reported about the error. -/
def message : UsageError → String
  | missingQuery => "the following required arguments were not provided:"
  | unexpected argument => "unexpected argument '" ++ argument ++ "' found"
  | unexpectedValue value =>
    "unexpected value '" ++ value ++ "' for '" ++ debugUsage ++
      "' found; no more were expected"
  | missingValue setting =>
    "a value is required for '" ++ setting.usage ++ "' but none was supplied"
  | repeated option => "the argument '" ++ option ++ "' cannot be used multiple times"
  | invalidValue value setting => "invalid value '" ++ value ++ "' for '" ++ setting.usage ++ "'"

/-- The report of a usage error. -/
def report (e : UsageError) : Report := ⟨2, "", "error: " ++ e.message⟩

end UsageError

/-! ### What the arguments ask for -/

/-- What the arguments read so far ask for. -/
structure Options where
  query? : Option String
  schemaFile? : Option String
  entity? : Option Entity
  dataFile? : Option String
  format? : Option Format
  debug : Bool
  deriving DecidableEq, Repr

namespace Options

/-- Nothing is asked for. -/
def empty : Options := ⟨none, none, none, none, none, false⟩

/-- Whether the option is given already. -/
def has (options : Options) : Setting → Bool
  | .schema => options.schemaFile?.isSome
  | .entity => options.entity?.isSome
  | .data => options.dataFile?.isSome
  | .format => options.format?.isSome

/-- Takes the value of an option. An empty value counts as none. -/
def set (options : Options) (setting : Setting) (value : String) : Except UsageError Options :=
  if options.has setting then .error (.repeated setting.usage)
  else if value = "" then .error (.missingValue setting)
  else match setting with
    | .schema => .ok { options with schemaFile? := some value }
    | .data => .ok { options with dataFile? := some value }
    | .entity =>
      match Entity.ofName? value with
      | some entity => .ok { options with entity? := some entity }
      | none => .error (.invalidValue value setting)
    | .format =>
      match Format.ofName? value with
      | some format => .ok { options with format? := some format }
      | none => .error (.invalidValue value setting)

/-- Takes the option without a value. -/
def setDebug (options : Options) : Except UsageError Options :=
  if options.debug then .error (.repeated debugUsage) else .ok { options with debug := true }

/-- The request; options that are not given have defaults. -/
def toRequest (options : Options) : Except UsageError Request :=
  match options.query? with
  | some query =>
    .ok ⟨query, options.schemaFile?, options.entity?.getD .target, options.dataFile?,
      options.format?.getD .text⟩
  | none => .error .missingQuery

end Options

/-! ### Reading -/

/-- The option at the end of the arguments read so far, as long as its value is not taken. -/
inductive Pending where
  | nothing
  | awaited (setting : Setting)
  | given (setting : Setting) (value : String)
  deriving DecidableEq, Repr

/-- The arguments read so far. -/
structure Reading where
  options : Options
  pending : Pending
  deriving DecidableEq, Repr

/-- The value behind an option letter, with or without an equals sign. -/
def attachedValue? : List Char → Option String
  | [] => none
  | '=' :: value => some (String.ofList value)
  | value => some (String.ofList value)

namespace Reading

/-- No argument is read. -/
def start : Reading := ⟨.empty, .nothing⟩

/-- Takes the value that is pending. -/
def settle (reading : Reading) : Except UsageError Options :=
  match reading.pending with
  | .nothing => .ok reading.options
  | .awaited setting => .error (.missingValue setting)
  | .given setting value => reading.options.set setting value

/-- Reads an argument without an option. -/
def addQuery (reading : Reading) (query : String) : Except UsageError Reading :=
  if reading.options.query?.isSome then .error (.unexpected query)
  else do return ⟨{ ← reading.settle with query? := some query }, .nothing⟩

/-- Reads an option with its value, if the value is in the same argument. -/
def addSetting (reading : Reading) (setting : Setting) (value? : Option String) :
    Except UsageError Reading := do
  let options ← reading.settle
  match value? with
  | some value => return ⟨← options.set setting value, .nothing⟩
  | none => return ⟨options, .awaited setting⟩

/-- Reads the option without a value. -/
def addDebug (reading : Reading) : Except UsageError Reading := do
  return ⟨← (← reading.settle).setDebug, .nothing⟩

/-- Reads the letters behind a dash. -/
def addLetters (reading : Reading) : List Char → Except UsageError Reading
  | [] => .ok reading
  | letter :: rest =>
    match Setting.ofLetter? letter with
    | some setting => reading.addSetting setting (attachedValue? rest)
    | none =>
      if letter = 'd' then do (← reading.addDebug).addLetters rest
      else .error (.unexpected (String.ofList ['-', letter]))

/-- Reads a name behind two dashes, with its value if an equals sign is there. -/
def addName (reading : Reading) (text : List Char) : Except UsageError Reading :=
  let name := String.ofList (text.takeWhile (· ≠ '='))
  let value? := match text.dropWhile (· ≠ '=') with
    | [] => none
    | _ :: value => some (String.ofList value)
  match Setting.ofName? name, value? with
  | some setting, value? => reading.addSetting setting value?
  | none, value? =>
    if name ≠ "debug" then .error (.unexpected ("--" ++ name))
    else match value? with
      | none => reading.addDebug
      | some value => .error (.unexpectedValue value)

/-- Reads an argument in front of `--`. -/
def add (reading : Reading) (argument : String) : Except UsageError Reading :=
  match argument.toList with
  | '-' :: '-' :: text => reading.addName text
  | '-' :: letter :: rest => reading.addLetters (letter :: rest)
  | _ =>
    match reading.pending with
    | .awaited setting => .ok { reading with pending := .given setting argument }
    | _ => reading.addQuery argument

/-- Reads arguments. -/
def addAll (reading : Reading) : List String → Except UsageError Reading
  | [] => .ok reading
  | argument :: rest =>
    if argument = "--" then rest.foldlM addQuery reading
    else do (← reading.add argument).addAll rest

end Reading

/-- The request of the arguments. -/
def Request.ofArguments (arguments : List String) : Except UsageError Request := do
  (← (← Reading.start.addAll arguments).settle).toRequest

/-- Runs the command with the given arguments. -/
def runArguments (files : Files) (arguments : List String) : Report :=
  match Request.ofArguments arguments with
  | .ok request => run files request
  | .error e => e.report

end FilterQuery.CommandLine
