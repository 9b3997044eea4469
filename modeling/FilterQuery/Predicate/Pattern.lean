/-!
# Patterns

In a **pattern** the wildcard `%` stands for any run of characters and every other character for
itself. Matching compares characters up to the next wildcard; when they differ, only the start of
the stretch after the latest wildcard is moved on, because a wildcard passed earlier cannot do
better than at its first fit. So the work is bounded by the product of the two lengths.

Here the comparison of one stretch is a definition of its own (`Pattern.compareStretch`), with three
ways to end. The search behind a wildcard (`Pattern.seek`) goes on with the pattern behind the next
wildcard, which is shorter, or with the same pattern one character further on; that is the measure
by which it ends. The characters of pattern and text are compared as they are: whoever wants the
case of letters to be ignored puts both in upper case before.
-/

namespace FilterQuery.Pattern

/-- The character that stands for any run of characters. -/
def wildcard : Char := '%'

/-- How the comparison of a pattern with a text ends. -/
inductive Stretch where
  /-- The text is used up; the pattern that is left. -/
  | exhausted (pattern : List Char)
  /-- A wildcard is reached; the pattern after it and the text that is left. -/
  | reached (pattern text : List Char)
  /-- The characters differ, or the pattern is used up before the text. -/
  | differs

/-- Compares a pattern with a text up to the first wildcard. -/
def compareStretch : List Char → List Char → Stretch
  | pattern, [] => .exhausted pattern
  | [], _ :: _ => .differs
  | p :: pattern, t :: text =>
    if p = wildcard then .reached pattern (t :: text)
    else if p = t then compareStretch pattern text
    else .differs

/-- The pattern after a wildcard is shorter. -/
theorem length_reached {pattern text pattern' text' : List Char}
    (h : compareStretch pattern text = .reached pattern' text') :
    pattern'.length < pattern.length := by
  fun_induction compareStretch pattern text with
  | case1 => simp at h
  | case2 => simp at h
  | case3 pattern t text =>
    obtain ⟨rfl, -⟩ := Stretch.reached.inj h
    exact Nat.lt_succ_self _
  | case4 pattern t text _ ih => exact Nat.lt_succ_of_lt (ih h)
  | case5 => simp at h

/-- Whether a text has an end that the pattern behind a wildcard matches. -/
def seek (pattern text : List Char) : Bool :=
  match _h : compareStretch pattern text with
  | .exhausted rest => rest.all (· = wildcard)
  | .reached pattern' text' => seek pattern' text'
  | .differs =>
    match text with
    | [] => false
    | _ :: text => seek pattern text
  termination_by (pattern.length, text.length)
  decreasing_by
    · exact Prod.Lex.left _ _ (length_reached _h)
    · exact Prod.Lex.right _ (Nat.lt_succ_self _)

/-- Whether a text matches a pattern. -/
def isMatch (pattern text : List Char) : Bool :=
  match compareStretch pattern text with
  | .exhausted rest => rest.all (· = wildcard)
  | .reached pattern text => seek pattern text
  | .differs => false

end FilterQuery.Pattern
