import FilterQuery.CommandLine.Arguments

/-!
# The command

Reads the files that the arguments name, runs the command on their texts, and prints its report.

This is the only module with effects. All decisions are in the pure function that it calls: which
files are read is seen from the request, and a file that cannot be read, for whatever reason, has no
text. Each file is read once, before the command runs.
-/

namespace FilterQuery.CommandLine

/-- The text of a file, if it can be read. -/
def readFile? (file : String) : IO (Option String) := do
  try
    return some (← IO.FS.readFile file)
  catch _ =>
    return none

/-- The texts of the files that a request names. -/
def readFiles (request : Request) : IO Files := do
  let names := request.schemaFile?.toList ++ request.dataFile?.toList
  let texts ← names.mapM fun name => return (name, ← readFile? name)
  return fun name => (texts.lookup name).join

end FilterQuery.CommandLine

open FilterQuery.CommandLine in
/-- The command line: one query against one schema. -/
def main (arguments : List String) : IO UInt32 := do
  let report ← match Request.ofArguments arguments with
    | .ok request => do pure (run (← readFiles request) request)
    | .error e => pure e.report
  IO.print report.output
  unless report.error.isEmpty do
    IO.eprintln report.error
  return UInt32.ofNat report.exitCode
