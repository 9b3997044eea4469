import FilterQuery.CommandLine.Basic
import FilterQuery.CommandLine.Directory

/-!
# The files of the command

The command asks for its files by the names in the request, and a directory answers by following
their paths. This module says which file a path **leads** to and what the command has to do with
the files it is not asked to read.

* **Paths.** The steps of a path lead from directory to directory (`Directory.Leads`). This is what
  the search of a directory does (`follow?_eq_some_iff`).
* **Plain paths.** A path is **plain** if all its steps are names. A directory holds the texts that
  it is made of: it reads a plain path as a look-up in the list of its files does
  (`read?_ofFiles`). The places on the way to a file are directories, since the file stands behind
  them.
* **Frame.** What the command reports depends on the files that the request names and on no others
  (`run_eq_of_agree`). So a command that is run in a directory reports what it reports on the plain
  list of its files (`run_ofFiles`).
-/

namespace FilterQuery.CommandLine

open Text

namespace Directory

variable {directory : Directory} {place goal : List String} {step : String} {steps : List String}

/-! ### Places and steps -/

/-- A step that goes to a name. -/
def IsName (step : String) : Prop := step ≠ "" ∧ step ≠ "." ∧ step ≠ ".."

/-- Some file stands behind the place, or the place is the whole directory. -/
def HasPlace (directory : Directory) (place : List String) : Prop :=
  place = [] ∨ ∃ file ∈ directory.files, place <+: file.1 ∧ place ≠ file.1

theorem isDirectory_iff : directory.isDirectory place = true ↔ directory.HasPlace place := by
  simp [isDirectory, HasPlace]

/-- The steps lead from the place to the goal. Every step is made from a directory. -/
inductive Leads (directory : Directory) : List String → List String → List String → Prop where
  | here {place : List String} : Leads directory place [] place
  /-- An empty step and a dot stay. -/
  | stay {place goal steps : List String} {step : String} (hplace : directory.HasPlace place)
      (hstep : step = "" ∨ step = ".") (h : Leads directory place steps goal) :
      Leads directory place (step :: steps) goal
  /-- Two dots go back, but not out of the directory. -/
  | back {place goal steps : List String} {name : String}
      (hplace : directory.HasPlace (place ++ [name])) (h : Leads directory place steps goal) :
      Leads directory (place ++ [name]) (".." :: steps) goal
  | name {place goal steps : List String} {step : String} (hplace : directory.HasPlace place)
      (hstep : IsName step) (h : Leads directory (place ++ [step]) steps goal) :
      Leads directory place (step :: steps) goal

/-- **Following.** The search ends where the steps lead, and fails if they lead nowhere. -/
theorem follow?_eq_some_iff :
    directory.follow? place steps = some goal ↔ directory.Leads place steps goal := by
  constructor
  · intro h
    -- the cases of the search are the kinds of steps
    fun_induction follow? directory place steps with
    | case1 =>
      cases h
      exact .here
    | case2 => cases h
    | case3 place step steps hplace hstay ih =>
      have hstep : step = "" ∨ step = "." := by simpa using hstay
      exact .stay (isDirectory_iff.mp (by simpa using hplace)) hstep (ih h)
    | case4 place step steps hplace hstay hback ih =>
      have hstep : ¬step = "" ∧ ¬step = "." := by simpa using hstay
      exact .name (isDirectory_iff.mp (by simpa using hplace)) ⟨hstep.1, hstep.2, hback⟩ (ih h)
    | case5 => cases h
    | case6 place step steps hplace hstay hback hempty ih =>
      obtain rfl : step = ".." := by simpa using hback
      have hne : place ≠ [] := by simpa using hempty
      have hend := List.dropLast_concat_getLast hne
      rw [← hend] at hplace ⊢
      exact .back (isDirectory_iff.mp (by simpa using hplace)) (ih h)
  · intro h
    induction h with
    | here => rfl
    | stay hplace hstep _ ih => simp [follow?, isDirectory_iff.mpr hplace, hstep, ih]
    | back hplace _ ih => simp [follow?, isDirectory_iff.mpr hplace, ih]
    | name hplace hstep _ ih => simp [follow?, isDirectory_iff.mpr hplace, hstep.1, hstep.2.1,
        hstep.2.2, ih]

/-! ### Plain paths -/

/-- Names lead to the place that they spell, if they lead anywhere. -/
theorem eq_of_leads_names (hnames : ∀ step ∈ steps, IsName step)
    (h : directory.Leads place steps goal) : goal = place ++ steps := by
  induction h with
  | here => rw [List.append_nil]
  | stay _ hstep _ _ =>
    obtain ⟨hempty, hdot, -⟩ := hnames _ List.mem_cons_self
    rcases hstep with rfl | rfl
    · exact absurd rfl hempty
    · exact absurd rfl hdot
  | back _ _ _ => exact absurd rfl (hnames _ List.mem_cons_self).2.2
  | name _ _ _ ih =>
    rw [ih (List.forall_mem_cons.mp hnames).2, List.append_assoc, List.singleton_append]

/-- Names lead to a file that stands where they go, since all places before it are directories. -/
theorem leads_names {text : String} (hnames : ∀ step ∈ steps, IsName step)
    (hfile : (place ++ steps, text) ∈ directory.files) :
    directory.Leads place steps (place ++ steps) := by
  induction steps generalizing place with
  | nil =>
    rw [List.append_nil]
    exact .here
  | cons step steps ih =>
    have hplace : directory.HasPlace place :=
      .inr ⟨_, hfile, List.prefix_append _ _, by simp⟩
    obtain ⟨hstep, hnames⟩ := List.forall_mem_cons.mp hnames
    have heq : place ++ step :: steps = place ++ [step] ++ steps := by simp
    rw [heq] at hfile ⊢
    exact .name hplace hstep (ih hnames hfile)

/-- All steps of the path are names. -/
def IsPlain (path : String) : Prop := ∀ step ∈ split '/' path, IsName step

/-- A plain path leads a directory into itself, so neither the null device nor the root is meant. -/
theorem read?_of_isPlain {path : String} (h : IsPlain path) :
    directory.read? path =
      (directory.follow? [] (split '/' path)).bind fun place => directory.files.lookup place := by
  have hfirst : ∀ rest, split '/' path ≠ "" :: rest := fun rest heq =>
    (h "" (heq ▸ List.mem_cons_self)).1 rfl
  unfold read?
  split
  · next heq => exact absurd heq (hfirst _)
  · next heq => exact absurd heq (hfirst _)
  · rfl

/-- The files of a directory that is made of plain paths have the names of their paths. -/
theorem lookup_ofFiles {files : List (String × String)} (hfiles : ∀ file ∈ files, IsPlain file.1)
    (path : String) : (ofFiles files).files.lookup (split '/' path) = files.lookup path := by
  induction files with
  | nil => rfl
  | cons file files ih =>
    obtain ⟨hfile, hfiles⟩ := List.forall_mem_cons.mp hfiles
    have hnames : ((split '/' file.1).filter fun name => name ≠ "" && name ≠ ".") =
        split '/' file.1 := by
      refine List.filter_eq_self.mpr fun name hname => ?_
      simp [(hfile name hname).1, (hfile name hname).2.1]
    have hsame : (split '/' path == split '/' file.1) = (path == file.1) := by
      refine Bool.eq_iff_iff.mpr ?_
      rw [beq_iff_eq, beq_iff_eq]
      -- the path is found again by joining its steps
      refine ⟨fun heq => ?_, congrArg _⟩
      rw [← join_split '/' path, heq, join_split]
    have hrest : (ofFiles files).files.lookup (split '/' path) = files.lookup path := ih hfiles
    rw [ofFiles] at hrest ⊢
    rw [List.map_cons, hnames, List.lookup_cons, List.lookup_cons, hsame, hrest]

/-- **Reading.** A directory that is made of files with plain paths reads each of these paths as the
text of its file, and no other plain path. -/
theorem read?_ofFiles {files : List (String × String)} (hfiles : ∀ file ∈ files, IsPlain file.1)
    {path : String} (hpath : IsPlain path) : (ofFiles files).read? path = files.lookup path := by
  rw [read?_of_isPlain hpath]
  cases hfollow : (ofFiles files).follow? [] (split '/' path) with
  | some place =>
    obtain rfl : place = split '/' path :=
      eq_of_leads_names hpath (follow?_eq_some_iff.mp hfollow)
    exact lookup_ofFiles hfiles path
  | none =>
    rw [← lookup_ofFiles hfiles path]
    refine (List.lookup_eq_none_iff.mpr fun file hfile => ?_).symm
    -- a file under the path would have been found
    rw [bne_iff_ne]
    intro heq
    have hstored : ([] ++ split '/' path, file.2) ∈ (ofFiles files).files := by
      rw [List.nil_append, heq]
      exact hfile
    rw [follow?_eq_some_iff.mpr (leads_names hpath hstored)] at hfollow
    cases hfollow

/-- A path that is not plain may lead to the file as well, but not through another file. -/
example : (ofFiles [("a/b", "[]")]).read? "./a//../a/b" = some "[]" ∧
    (ofFiles [("a/b", "[]")]).read? "a/b/../b" = none := by
  decide

end Directory

/-! ### Files that are not read -/

section

variable {files others : Files} {request : Request}

/-- The file is named in the request. -/
def Request.Names (request : Request) (file : String) : Prop :=
  request.schemaFile? = some file ∨ request.dataFile? = some file

/-- **Frame.** The command reports the same on files that agree where the request names them. -/
theorem run_eq_of_agree (h : ∀ file, request.Names file → files file = others file) :
    run files request = run others request := by
  have hschema : loadSchema files request = loadSchema others request := by
    unfold loadSchema
    cases hfile : request.schemaFile? with
    | none => rfl
    | some file => simp only [h file (.inl hfile)]
  have hcompile : compile files request = compile others request := by
    rw [compile, hschema, compile]
  unfold run
  rw [hcompile]
  cases compile others request with
  | error failure => rfl
  | ok predicate =>
    cases hfile : request.dataFile? with
    | none => rfl
    | some file => simp only [loadDocuments, h file (.inr hfile)]

/-- In a directory of files with plain paths, a request with plain paths is answered from the list
of the files. -/
theorem run_ofFiles {texts : List (String × String)}
    (htexts : ∀ file ∈ texts, Directory.IsPlain file.1)
    (h : ∀ file, request.Names file → Directory.IsPlain file) :
    run (Directory.ofFiles texts).read? request = run (fun file => texts.lookup file) request :=
  run_eq_of_agree fun file hfile => Directory.read?_ofFiles htexts (h file hfile)

end

end FilterQuery.CommandLine
