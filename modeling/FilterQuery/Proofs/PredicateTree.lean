import FilterQuery.Predicate.Meaning

/-!
# Predicates as trees

Induction over a predicate goes from the members of a group to the group (`Predicate.induction`).
The **parts** of a predicate are its paths, values and patterns, from left to right.

A predicate that has no predicates in it, other than the one that always holds, asks a
**question**: whether a value that is reached along a path is accepted. All such predicates are
alike in what they make of a scope (`holds_of_question?`), so induction need not tell them apart
(`Predicate.question_induction`). It has a case for the one that always holds, one for questions,
one for entries, and one each for negations and the two kinds of groups.

Eight of the constructors are questions. What is shown of all predicates, such as that the layout of
arrays is not seen or which element an inner path is about, is shown of a question once.
-/

namespace FilterQuery

/-- What a predicate is made of besides its shape. -/
inductive Part where
  | path (path : Path)
  | value (value : Value)
  | pattern (pattern : String)
  deriving DecidableEq, Repr

namespace Predicate

/-- Induction over the tree of a predicate. -/
@[elab_as_elim, induction_eliminator]
theorem induction {motive : Predicate → Prop} (always : motive always)
    (equal : ∀ path value, motive (equal path value))
    (notEqual : ∀ path value, motive (notEqual path value))
    (like : ∀ path pattern, motive (like path pattern))
    (greater : ∀ path value, motive (greater path value))
    (greaterOrEqual : ∀ path value, motive (greaterOrEqual path value))
    (less : ∀ path value, motive (less path value))
    (lessOrEqual : ∀ path value, motive (lessOrEqual path value))
    (isIn : ∀ path values, motive (isIn path values))
    (not : ∀ predicate, motive predicate → motive (not predicate))
    (and : ∀ members, (∀ member ∈ members, motive member) → motive (and members))
    (or : ∀ members, (∀ member ∈ members, motive member) → motive (or members))
    (entry : ∀ path predicate, motive predicate → motive (entry path predicate))
    (predicate : Predicate) : motive predicate :=
  @Predicate.rec motive (fun members => ∀ member ∈ members, motive member) always equal notEqual
    like greater greaterOrEqual less lessOrEqual isIn not and or entry
    (fun _ h => absurd h List.not_mem_nil)
    (fun _ _ hhead htail => List.forall_mem_cons.mpr ⟨hhead, htail⟩) predicate

mutual

/-- The paths, values and patterns of a predicate, from left to right. -/
def parts : Predicate → List Part
  | always => []
  | equal path value => [.path path, .value value]
  | notEqual path value => [.path path, .value value]
  | like path pattern => [.path path, .pattern pattern]
  | greater path value => [.path path, .value value]
  | greaterOrEqual path value => [.path path, .value value]
  | less path value => [.path path, .value value]
  | lessOrEqual path value => [.path path, .value value]
  | isIn path values => .path path :: values.map .value
  | not predicate => parts predicate
  | and members => partsOf members
  | or members => partsOf members
  | entry path predicate => .path path :: parts predicate

/-- The parts of some predicates, in their order. -/
def partsOf : List Predicate → List Part
  | [] => []
  | member :: members => parts member ++ partsOf members

end

theorem partsOf_eq_flatMap (members : List Predicate) :
    partsOf members = members.flatMap parts := by
  induction members with
  | nil => rfl
  | cons member members ih => rw [partsOf, ih, List.flatMap_cons]

theorem mem_partsOf {members : List Predicate} {member : Predicate} {part : Part}
    (hmember : member ∈ members) (hpart : part ∈ member.parts) : part ∈ partsOf members := by
  rw [partsOf_eq_flatMap]
  exact List.mem_flatMap.mpr ⟨member, hmember, hpart⟩

theorem parts_and (members : List Predicate) : (and members).parts = members.flatMap parts :=
  partsOf_eq_flatMap members

theorem parts_or (members : List Predicate) : (or members).parts = members.flatMap parts :=
  partsOf_eq_flatMap members

end Predicate

/-! ### Questions -/

/-- What is asked of the values along a path. -/
structure Question where
  path : Path
  accepts : Json → Bool

namespace Predicate

/-- The question that a predicate without predicates in it asks. -/
def question? : Predicate → Option Question
  | equal path value => some ⟨path, value.equalsJson⟩
  | notEqual path value => some ⟨path, fun json => !value.equalsJson json⟩
  | like path pattern => some ⟨path, fun json => likeJson json pattern⟩
  | greater path value => some ⟨path, fun json => value.compareJson? json == some .gt⟩
  | greaterOrEqual path value => some ⟨path, fun json => (value.compareJson? json).any (·.isGE)⟩
  | less path value => some ⟨path, fun json => value.compareJson? json == some .lt⟩
  | lessOrEqual path value => some ⟨path, fun json => (value.compareJson? json).any (·.isLE)⟩
  | isIn path values => some ⟨path, fun json => values.any fun value => value.equalsJson json⟩
  | _ => none

/-- The answer to a question is yes if some value along its path is accepted. -/
theorem holds_of_question? {predicate : Predicate} {question : Question}
    (h : predicate.question? = some question) (scope : Scope) :
    predicate.holds scope = (scope.reach question.path).any question.accepts := by
  cases predicate <;> cases h <;> rfl

/-- Induction over the tree of a predicate that treats all questions alike. -/
@[elab_as_elim]
theorem question_induction {motive : Predicate → Prop} (always : motive always)
    (question : ∀ predicate question, predicate.question? = some question → motive predicate)
    (not : ∀ predicate, motive predicate → motive (not predicate))
    (and : ∀ members, (∀ member ∈ members, motive member) → motive (and members))
    (or : ∀ members, (∀ member ∈ members, motive member) → motive (or members))
    (entry : ∀ path predicate, motive predicate → motive (entry path predicate))
    (predicate : Predicate) : motive predicate := by
  induction predicate with
  | always => exact always
  | not predicate ih => exact not predicate ih
  | and members ih => exact and members ih
  | or members ih => exact or members ih
  | entry path predicate ih => exact entry path predicate ih
  | _ => exact question _ _ rfl

end Predicate

end FilterQuery
