import FilterQuery.Text.Split

/-!
# Directories

The command finds its files from the directory that it runs in. A file path is followed step by
step, with a slash between two steps: an empty step and `.` stay, `..` goes back, and any other step
goes to the name. Every step, also one that stays, starts from a directory, so nothing lies behind
the name of a file, not even a slash. Of what lies outside the directory only the null device is
known, which holds no text; any other path that starts with a slash leads to no file, and neither
does one that leaves the directory.

A directory is given by its text files, each with the names that lead to it. The directories below
it are those on the way to a file, so there is no empty one. As a function from paths to texts
(`Directory.read?`) a directory is what the command takes for its files.
-/

namespace FilterQuery.CommandLine

/-- The text files in a directory and below it, each with the names that lead to it. -/
structure Directory where
  files : List (List String × String)
  deriving DecidableEq, Repr

namespace Directory

/-- The directory that holds texts under the given paths. -/
def ofFiles (files : List (String × String)) : Directory :=
  ⟨files.map fun file =>
    ((Text.split '/' file.1).filter fun name => name ≠ "" && name ≠ ".", file.2)⟩

/-- Whether the names lead to a directory: the whole one, or one on the way to a file. -/
def isDirectory (directory : Directory) (place : List String) : Bool :=
  place.isEmpty || directory.files.any fun file => place.isPrefixOf file.1 && place ≠ file.1

/-- The names that lead where the steps lead from a place. -/
def follow? (directory : Directory) (place : List String) : List String → Option (List String)
  | [] => some place
  | step :: steps =>
    if !directory.isDirectory place then none
    else if step = "" || step = "." then directory.follow? place steps
    else if step ≠ ".." then directory.follow? (place ++ [step]) steps
    else if place.isEmpty then none
    else directory.follow? place.dropLast steps

/-- The text of the file that a path leads to. -/
def read? (directory : Directory) (path : String) : Option String :=
  match Text.split '/' path with
  | ["", "dev", "null"] => some ""
  | "" :: _ => none
  | steps => (directory.follow? [] steps).bind fun place => directory.files.lookup place

end Directory

end FilterQuery.CommandLine
