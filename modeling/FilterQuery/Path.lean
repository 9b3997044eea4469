import FilterQuery.Text.Split

/-!
# Property paths

A **path** leads from a document to a property by member names. Its text puts a dot between the
names; reading a text drops the empty names that leading, trailing and repeated dots leave.

The text of a path is read back as that path if no name in it is empty or has a dot. Paths that are
put together from parts need not be of this form: the name of an attribute and the names of the two
members of map entries become one name of the path each, whatever characters they have
(`Path.child`).
-/

namespace FilterQuery

/-- The names of nested members, outermost first. -/
structure Path where
  segments : List String
  deriving DecidableEq, Repr

namespace Path

/-- The path of a dotted text. -/
def ofText (dotted : String) : Path := ⟨(Text.split '.' dotted).filter (· ≠ "")⟩

/-- The dotted text of a path. -/
def text (path : Path) : String := Text.join "." path.segments

/-- Whether the path has no name. -/
def isEmpty (path : Path) : Bool := path.segments.isEmpty

/-- The path to a member of what the path leads to. -/
def child (path : Path) (segment : String) : Path := ⟨path.segments ++ [segment]⟩

@[simp] theorem segments_child (path : Path) (segment : String) :
    (path.child segment).segments = path.segments ++ [segment] := rfl

/-- No path that is read from a text has an empty name. -/
theorem ne_empty_of_mem_ofText {dotted segment : String}
    (h : segment ∈ (ofText dotted).segments) : segment ≠ "" := by
  simpa using (List.mem_filter.mp h).2

end Path

end FilterQuery
