import FilterQuery.Predicate.Basic
import FilterQuery.Predicate.Pattern
import FilterQuery.Json.Reach

/-!
# The meaning of a predicate

A predicate **holds** in a scope: a document and, inside an entry, the element that the entry binds.
A path that starts with the path of the entry leads on from the element, any other path from the
document; an entry inside an entry takes the place of the outer one. A leaf holds if some value that
its path reaches passes its test.

* **Tests** are on one JSON value each. `Value.compareJson?` is the order of a JSON value to a value
  of its kind; there is none to a value of another kind. `Value.equalsJson` has a body of its own,
  because constants agree up to letter case; for all other values it agrees with the order
  (`Value.equalsJson_iff_compareJson?`). `Predicate.likeJson` matches the text of a string, a number
  or a truth value in upper case.
* **Predicates** are evaluated by one recursion over the tree, with two companions for lists of
  members (`Predicate.holds`). The companions are `List.all` and `List.any`
  (`Predicate.holdAll_eq_all`, `Predicate.holdAny_eq_any`).
* **Documents** are selected in the scope in which nothing is bound (`Predicate.selects`).

All kinds of numbers are compared as doubles, so whole numbers beyond the exact range of doubles are
compared by what they round to.
-/

namespace FilterQuery

/-- What paths refer to: a document and the element bound by the innermost entry, if there is one,
with the path of that entry. -/
structure Scope where
  document : Json
  bound? : Option (List String × Json)

namespace Scope

/-- The values that a path reaches. -/
def reach (scope : Scope) (path : Path) : List Json :=
  match scope.bound? with
  | some (boundary, element) =>
    if boundary.isPrefixOf path.segments then
      element.reach (path.segments.drop boundary.length)
    else scope.document.reach path.segments
  | none => scope.document.reach path.segments

/-- The scope inside an entry that binds the element at the path. -/
def enter (scope : Scope) (path : Path) (element : Json) : Scope :=
  ⟨scope.document, some (path.segments, element)⟩

end Scope

namespace Json

/-- The text that patterns are matched against. -/
def plainText? : Json → Option String
  | string s => some s
  | number n => some n.text
  | boolean b => some (Value.booleanText b)
  | _ => none

end Json

namespace Value

/-- How a JSON value is ordered relative to a value of its kind. -/
def compareJson? (json : Json) (value : Value) : Option Ordering :=
  match value with
  | boolean b => json.boolean?.map (compare · b)
  | int32 n => json.double?.bind (·.compare? (.ofInt n))
  | int64 n => json.double?.bind (·.compare? (.ofInt n))
  | float64 x => json.double?.bind (·.compare? x)
  | string s => json.string?.map (compare · s)
  | constant s => json.string?.map (compare · s)

/-- Whether a JSON value equals a value; constants agree up to the case of ASCII letters. -/
def equalsJson (json : Json) (value : Value) : Bool :=
  match value with
  | boolean b => json.boolean? == some b
  | int32 n => json.double?.any (·.equals (.ofInt n))
  | int64 n => json.double?.any (·.equals (.ofInt n))
  | float64 x => json.double?.any (·.equals x)
  | string s => json.string? == some s
  | constant s => json.string?.any (Text.equalsIgnoringCase · s)

/-- Unless letter case is ignored, a JSON value equals the values that it is in no order to. -/
theorem equalsJson_iff_compareJson? {json : Json} {value : Value}
    (h : ∀ s, value ≠ constant s) :
    equalsJson json value = true ↔ compareJson? json value = some .eq := by
  have hnumber : ∀ y : Double, json.double?.any (·.equals y) = true ↔
      json.double?.bind (·.compare? y) = some .eq := fun y => by
    cases json.double? <;> simp [Double.equals_iff_compare?]
  cases value with
  | boolean b => cases hjson : json.boolean? <;> simp [equalsJson, compareJson?, hjson]
  | int32 n => exact hnumber _
  | int64 n => exact hnumber _
  | float64 x => exact hnumber x
  | string s => cases hjson : json.string? <;> simp [equalsJson, compareJson?, hjson]
  | constant s => exact absurd rfl (h s)

end Value

namespace Predicate

/-- Whether a JSON value has a text whose upper case matches the pattern. -/
def likeJson (json : Json) (pattern : String) : Bool :=
  json.plainText?.any fun text => Pattern.isMatch pattern.toList (Text.upper text).toList

mutual

/-- Whether the predicate holds in a scope. -/
def holds : Predicate → Scope → Bool
  | always, _ => true
  | equal path value, scope => (scope.reach path).any (value.equalsJson ·)
  | notEqual path value, scope => (scope.reach path).any (!value.equalsJson ·)
  | like path pattern, scope => (scope.reach path).any (likeJson · pattern)
  | greater path value, scope =>
    (scope.reach path).any fun json => Value.compareJson? json value == some .gt
  | greaterOrEqual path value, scope =>
    (scope.reach path).any fun json => (Value.compareJson? json value).any (·.isGE)
  | less path value, scope =>
    (scope.reach path).any fun json => Value.compareJson? json value == some .lt
  | lessOrEqual path value, scope =>
    (scope.reach path).any fun json => (Value.compareJson? json value).any (·.isLE)
  | isIn path values, scope =>
    (scope.reach path).any fun json => values.any fun value => Value.equalsJson json value
  | not predicate, scope => !holds predicate scope
  | and predicates, scope => holdAll predicates scope
  | or predicates, scope => holdAny predicates scope
  | entry path predicate, scope =>
    (scope.reach path).any fun element => holds predicate (scope.enter path element)

/-- Whether all of the predicates hold in a scope. -/
def holdAll : List Predicate → Scope → Bool
  | [], _ => true
  | predicate :: predicates, scope => holds predicate scope && holdAll predicates scope

/-- Whether any of the predicates holds in a scope. -/
def holdAny : List Predicate → Scope → Bool
  | [], _ => false
  | predicate :: predicates, scope => holds predicate scope || holdAny predicates scope

end

/-- Whether a document matches the predicate. -/
def selects (predicate : Predicate) (document : Json) : Bool := predicate.holds ⟨document, none⟩

theorem holdAll_eq_all (predicates : List Predicate) (scope : Scope) :
    holdAll predicates scope = predicates.all (·.holds scope) := by
  induction predicates with
  | nil => rfl
  | cons predicate predicates ih => rw [holdAll, ih, List.all_cons]

theorem holdAny_eq_any (predicates : List Predicate) (scope : Scope) :
    holdAny predicates scope = predicates.any (·.holds scope) := by
  induction predicates with
  | nil => rfl
  | cons predicate predicates ih => rw [holdAny, ih, List.any_cons]

end Predicate

end FilterQuery
