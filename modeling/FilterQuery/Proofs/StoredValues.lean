import FilterQuery.Proofs.SingleComparison
import FilterQuery.Proofs.Typing

/-!
# Stored values

A document **stores** a value if the value in its JSON form is all that it holds along the path of a
selection. The query that names the value by an argument then selects the document just if its
operator is **reflexive** (`Query.selects_stored`): equality goes over patterns, letter cases or
doubles, according to the type, and the value passes for itself in each of these ways.

* **JSON forms.** A value has a JSON form that is neither an array nor `null`, so a path reaches it.
  The one exception is a float that is infinite or no number, which JSON cannot express
  (`Value.IsExpressible`); no argument stands for such a float.
* **Operators** on a value and its JSON form are decided once (`Operator.test_toJson_iff`): a value
  is in the order `eq` with itself, and it matches the pattern of its own text, marks included.
* **Documents.** What a path reaches in a document that nests a value is that value, so any operator
  asks its question of the value alone.
-/

namespace FilterQuery

open Json Pattern

/-! ### A value and its JSON form -/

/-- A text fills itself as a pattern, every mark standing for itself. -/
theorem Pattern.fills_self (isMark : Char → Bool) (pattern : List Char) :
    Fills isMark pattern pattern := by
  induction pattern with
  | nil => exact .nil
  | cons c pattern ih =>
    cases hc : isMark c with
    | false => exact .keep hc ih
    | true => exact .run [c] hc ih

namespace Value

variable {value : Value}

/-- JSON can express the value. -/
def IsExpressible : Value → Prop
  | float64 x => x.isFinite = true
  | _ => True

/-- No value is an array in JSON. -/
theorem isArray_toJson (value : Value) : value.toJson.isArray = false := by
  cases value with
  | float64 x =>
    rw [toJson]
    split <;> rfl
  | _ => rfl

/-- A value that can be expressed is not `null` in JSON. -/
theorem isNull_toJson (h : value.IsExpressible) : value.toJson.isNull = false := by
  cases value with
  | float64 x =>
    have hnumber : (float64 x).toJson = .number (.float x) := if_pos h
    rw [hnumber]
    rfl
  | _ => rfl

/-- A value is in order with its JSON form. -/
theorem compareJson?_toJson (h : value.IsExpressible) :
    value.compareJson? value.toJson = some .eq := by
  cases value with
  | boolean b => exact congrArg some Std.ReflCmp.compare_self
  | string s | constant s => exact congrArg some Std.ReflCmp.compare_self
  | int32 n | int64 n =>
    have hself := (Double.ofInt n).compare?_self
    rwa [Double.isNaN_ofInt] at hself
  | float64 x =>
    have hnumber : (float64 x).toJson = .number (.float x) := if_pos h
    have hself := x.compare?_self
    rw [Double.isNaN_of_isFinite h] at hself
    rw [hnumber]
    exact hself

theorem equalsJson_toJson (h : value.IsExpressible) : value.equalsJson value.toJson = true := by
  cases value with
  | constant s => exact Text.equalsIgnoringCase_iff.mpr rfl
  | _ => exact (equalsJson_iff_compareJson? (by simp)).mpr (compareJson?_toJson h)

end Value

/-! ### Operators on a value and its JSON form -/

namespace Operator

variable {op : Operator} {value : Value} {values : List Value}

/-- Whether a value satisfies the operator against itself; patterns, which compare the texts of
numbers, are left aside. -/
def isReflexive : Operator → Bool
  | equal | greaterOrEqual | lessOrEqual | isIn => true
  | _ => false

/-- A value passes the test of an operator against its own JSON form if the operator is reflexive.
-/
theorem test_toJson_iff (hop : op = equal ∨ op = notEqual ∨ op.isOrdering = true)
    (h : value.IsExpressible) : op.Test value value.toJson ↔ op.isReflexive = true := by
  have hcompare := Value.compareJson?_toJson h
  have hequals := Value.equalsJson_toJson h
  cases op <;> simp [isOrdering] at hop
  case equal =>
    have htext : value.isTextual = true → value.toJson.MatchesText value.text := by
      intro htextual
      cases value <;> simp [Value.isTextual] at htextual
      exact ⟨_, rfl, fills_self isMark _⟩
    refine iff_of_true ?_ rfl
    rw [Test]
    split
    · next htextual => exact htext htextual
    · exact hequals
  all_goals simp [Test, isReflexive, hcompare, hequals]

/-- Where there is nothing but its JSON form, a value satisfies the reflexive operators alone. -/
theorem satisfied_toJson_iff (hop : op = equal ∨ op = notEqual ∨ op.isOrdering = true)
    (h : value.IsExpressible) :
    op.Satisfied [value] (· = value.toJson) ↔ op.isReflexive = true := by
  have hne : op ≠ notIn := by
    rintro rfl
    simp [isOrdering] at hop
  rw [satisfied_singleton_iff hne, ← test_toJson_iff hop h, exists_eq_left]

/-- A membership of a list with the value is satisfied by it, and its complement is not. -/
theorem satisfied_membership_toJson_iff (hop : op = isIn ∨ op = notIn) (h : value.IsExpressible)
    (hvalue : value ∈ values) :
    op.Satisfied values (· = value.toJson) ↔ op.isReflexive = true := by
  have hsome : ∃ other ∈ values, other.equalsJson value.toJson = true :=
    ⟨value, hvalue, Value.equalsJson_toJson h⟩
  rcases hop with rfl | rfl <;> simp only [Satisfied, exists_eq_left, Test, hsome, isReflexive]
  simp

end Operator

/-! ### Documents that store a value -/

variable {schema : Schema} {selection : Selection} {selector argument : String} {value : Value}

/-- What an argument stands for can be expressed in JSON. -/
theorem Selection.isExpressible_of_coerce (hconverter : selection.field.converter = none)
    (h : selection.coerce selector argument = .ok value) : value.IsExpressible := by
  have hadmits : selection.type.Admits false argument value :=
    @Comparison.admits_of_read ⟨selector, .equal, [argument]⟩ selection argument value hconverter h
  cases value with
  | float64 x =>
    unfold ValueType.Admits at hadmits
    split at hadmits <;> simp_all [Value.IsExpressible]
  | _ => trivial

/-- What a document stores is all that a selection without a key looks at. -/
theorem Selection.ranges_nest_iff {range : Json → Prop} (hkey : selection.key? = none)
    (h : value.IsExpressible) :
    selection.Ranges (nest selection.path.segments value.toJson) range ↔
      range = (· = value.toJson) :=
  ranges_iff_of_forall_reachedAlong_iff hkey fun _ =>
    reachedAlong_nest_iff value.isArray_toJson (Value.isNull_toJson h)

/-- **Stored values.** Let an argument stand for a value. The document that stores the value is
selected by the comparisons of that argument whose operators are reflexive, and by the memberships
of lists with that argument, but neither by the other comparisons nor by the complements of such
memberships. The constants of an enumeration are not in an order. -/
theorem Query.selects_stored (hselect : schema.select selector = .ok selection)
    (hkey : selection.key? = none) (hconverter : selection.field.converter = none)
    (hvalue : selection.coerce selector argument = .ok value) :
    (∀ op : Operator, op = .equal ∨ op = .notEqual ∨
        op.isOrdering = true ∧ (∀ type, selection.type ≠ .enumeration type) →
      ∃ predicate : Predicate,
        Query.compile .standard schema (.comparison ⟨selector, op, [argument]⟩) = .ok predicate ∧
        predicate.selects (nest selection.path.segments value.toJson) = op.isReflexive) ∧
    ∀ (op : Operator) (arguments : List String) (values : List Value), op = .isIn ∨ op = .notIn →
      argument ∈ arguments → arguments.mapM (selection.coerce selector) = .ok values →
      ∃ predicate : Predicate,
        Query.compile .standard schema (.comparison ⟨selector, op, arguments⟩) = .ok predicate ∧
        predicate.selects (nest selection.path.segments value.toJson) = op.isReflexive := by
  have hexpressible : value.IsExpressible := Selection.isExpressible_of_coerce hconverter hvalue
  constructor
  · intro op hop
    -- the operators differ in how the argument is read, but not in the value
    have hread : Comparison.read ⟨selector, op, [argument]⟩ selection argument = .ok value := by
      rcases hop with rfl | rfl | ⟨-, htype⟩
      · exact hvalue
      · exact hvalue
      · rw [Comparison.read_eq_readAs htype hconverter]
        rwa [(Selection.coerce_eq_readAs htype hconverter).1] at hvalue
    have hop : op = .equal ∨ op = .notEqual ∨ op.isOrdering = true :=
      hop.imp_right (Or.imp_right And.left)
    obtain ⟨predicate, hcompile, hselects⟩ := exists_compile_single hselect hop hread
    refine ⟨predicate, hcompile, Bool.eq_iff_iff.mpr ?_⟩
    simp only [hselects, Selection.ranges_nest_iff hkey hexpressible, exists_eq_left]
    exact Operator.satisfied_toJson_iff hop hexpressible
  · intro op arguments values hop hargument hcoerced
    have hmem : value ∈ values := mem_of_mapM_eq_ok hcoerced hargument hvalue
    obtain ⟨predicate, hcompile, hselects⟩ :=
      exists_compile_membership hselect hop (List.ne_nil_of_mem hargument) hcoerced
    refine ⟨predicate, hcompile, Bool.eq_iff_iff.mpr ?_⟩
    simp only [hselects, Selection.ranges_nest_iff hkey hexpressible, exists_eq_left]
    exact Operator.satisfied_membership_toJson_iff hop hexpressible hmem

/-- A name with marks, and with a letter whose upper case is longer, is selected by itself. -/
theorem Query.selects_stored_name :
    Selection.coerce ⟨.scalar "NAME" "name" .string, ⟨["name"]⟩, .string, none⟩ "name" "ß*50%" =
      .ok (.string "ß*50%") ∧
    (∃ predicate : Predicate,
      Query.compile .standard Schema.target (.comparison ⟨"name", .equal, ["ß*50%"]⟩) =
        .ok predicate ∧
      predicate.selects (.object [("name", .string "ß*50%")]) = true) ∧
    (∃ predicate : Predicate,
      Query.compile .standard Schema.target (.comparison ⟨"name", .less, ["ß*50%"]⟩) =
        .ok predicate ∧
      predicate.selects (.object [("name", .string "ß*50%")]) = false) ∧
    ∃ predicate : Predicate,
      Query.compile .standard Schema.target (.comparison ⟨"name", .notIn, ["a", "ß*50%"]⟩) =
        .ok predicate ∧
      predicate.selects (.object [("name", .string "ß*50%")]) = false := by
  obtain ⟨hsingle, hmembership⟩ := Query.selects_stored select_target_name rfl rfl
    (rfl : Selection.coerce _ _ "ß*50%" = _)
  exact ⟨rfl, hsingle .equal (.inl rfl), hsingle .less (.inr (.inr ⟨rfl, nofun⟩)),
    hmembership .notIn ["a", "ß*50%"] _ (.inr rfl) (by simp) rfl⟩

end FilterQuery
