import FilterQuery.Proofs.SingleComparison
import FilterQuery.Proofs.Typing

/-!
# Ordering and equality

Truth values and numbers are **ordered** types: a value of such a type is equal to a JSON value just
if it is neither less nor greater, although equality and the orderings read their arguments and test
documents each in their own way. So one of these comparisons compiles if all of them do, "greater or
equal" is the disjunction of "greater" and "equal", and a document with just one value of the right
kind meets exactly one of "less", "equal" and "greater" (`Query.selects_ordering_iff`).

* **Tests.** The test of each operator comes down to one order between the value and the JSON value
  (`test_ofOrdering_iff`): equality has a test of its own, which agrees with the order on the values
  that a type admits. A number in a document is no `NaN`, and neither is an argument, so some order
  there is.
* **Disjunctions** hold where a document has many values or none, and entry by entry in a map, since
  a disjunction may be asked of each value by itself.
* **Trichotomy** needs one value: with none, no operator is satisfied, and with several, more than
  one may be.
-/

namespace FilterQuery

open Json

/-! ### Ordered types -/

namespace ValueType

/-- Whether the values of the type are equal just if they are in no order. Texts are also equal by
their patterns and constants also in other letter case. -/
def isOrdered : ValueType → Bool
  | boolean | int32 | int64 | float64 => true
  | string | enumeration _ => false

theorem ne_enumeration_of_isOrdered {type : ValueType} (h : type.isOrdered = true)
    (enumType : EnumType) : type ≠ .enumeration enumType := by
  rintro rfl
  cases h

end ValueType

/-- JSON has numbers that are finite, and no others. -/
def JsonNumber.IsFinite : JsonNumber → Prop
  | int _ => True
  | float x => x.isFinite = true

theorem JsonNumber.IsFinite.isNaN_toDouble {n : JsonNumber} (h : n.IsFinite) :
    n.toDouble.isNaN = false := by
  cases n with
  | int n => exact Double.isNaN_ofInt n
  | float x => exact Double.isNaN_of_isFinite h

/-- The JSON value is of the kind of the values of an ordered type. -/
def ValueType.IsKindOf : ValueType → Json → Prop
  | boolean, .boolean _ => True
  | int32, .number n | int64, .number n | float64, .number n => n.IsFinite
  | _, _ => False

theorem Double.exists_compare? {x y : Double} (hx : x.isNaN = false) (hy : y.isNaN = false) :
    ∃ ordering, x.compare? y = some ordering := by
  rw [compare?, hx, hy]
  exact ⟨_, rfl⟩

namespace Value

variable {type : ValueType} {ordered : Bool} {argument : String} {value : Value} {json : Json}

/-- A value of an ordered type is less than, equal to or greater than any JSON value of its kind. -/
theorem exists_compareJson? (htype : type.isOrdered = true)
    (hvalue : type.Admits ordered argument value) (hjson : type.IsKindOf json) :
    ∃ ordering, value.compareJson? json = some ordering := by
  cases type <;> simp [ValueType.isOrdered] at htype <;>
    cases value <;> simp [ValueType.Admits] at hvalue <;>
    cases json <;> simp [ValueType.IsKindOf] at hjson
  case boolean => exact ⟨_, rfl⟩
  case int32 => exact Double.exists_compare? hjson.isNaN_toDouble (Double.isNaN_ofInt _)
  case int64 => exact Double.exists_compare? hjson.isNaN_toDouble (Double.isNaN_ofInt _)
  case float64 =>
    exact Double.exists_compare? hjson.isNaN_toDouble (Double.isNaN_of_isFinite hvalue)

end Value

/-! ### Operators on ordered types -/

namespace Operator

variable {type : ValueType} {ordered : Bool} {argument : String} {value : Value} {json : Json}
  {found : Json → Prop}

/-- The operator that asks for values in the given order to the argument. -/
def ofOrdering : Ordering → Operator
  | .lt => less
  | .eq => equal
  | .gt => greater

/-- The values of an ordered type are equal by their order. -/
theorem test_equal_iff (htype : type.isOrdered = true)
    (hvalue : type.Admits ordered argument value) :
    equal.Test value json ↔ value.compareJson? json = some .eq := by
  cases type <;> simp [ValueType.isOrdered] at htype <;>
    cases value <;> simp [ValueType.Admits] at hvalue
  all_goals exact Value.equalsJson_iff_compareJson? (by simp)

/-- The three tests are read off the order of the value and the JSON value. -/
theorem test_ofOrdering_iff (htype : type.isOrdered = true)
    (hvalue : type.Admits ordered argument value) (ordering : Ordering) :
    (ofOrdering ordering).Test value json ↔ value.compareJson? json = some ordering := by
  cases ordering with
  | eq => exact test_equal_iff htype hvalue
  | lt | gt => exact Iff.rfl

/-- If a test is passed by passing one of two others, what satisfies it satisfies one of the two. -/
theorem satisfied_singleton_or_iff {op first second : Operator} (hop : op ≠ notIn)
    (hfirst : first ≠ notIn) (hsecond : second ≠ notIn)
    (h : ∀ json, op.Test value json ↔ first.Test value json ∨ second.Test value json) :
    op.Satisfied [value] found ↔
      first.Satisfied [value] found ∨ second.Satisfied [value] found := by
  rw [satisfied_singleton_iff hop, satisfied_singleton_iff hfirst, satisfied_singleton_iff hsecond]
  simp only [h, and_or_left, exists_or]

/-- At least is satisfied where greater or equal is. -/
theorem satisfied_greaterOrEqual_iff (htype : type.isOrdered = true)
    (hvalue : type.Admits ordered argument value) :
    greaterOrEqual.Satisfied [value] found ↔
      greater.Satisfied [value] found ∨ equal.Satisfied [value] found :=
  satisfied_singleton_or_iff (by decide) (by decide) (by decide) fun _ =>
    or_congr_right (test_equal_iff htype hvalue).symm

/-- At most is satisfied where less or equal is. -/
theorem satisfied_lessOrEqual_iff (htype : type.isOrdered = true)
    (hvalue : type.Admits ordered argument value) :
    lessOrEqual.Satisfied [value] found ↔
      less.Satisfied [value] found ∨ equal.Satisfied [value] found :=
  satisfied_singleton_or_iff (by decide) (by decide) (by decide) fun _ =>
    or_congr_right (test_equal_iff htype hvalue).symm

/-- On one value, the operator of an order is satisfied if the value is in this order. -/
theorem satisfied_ofOrdering_iff (htype : type.isOrdered = true)
    (hvalue : type.Admits ordered argument value) (ordering : Ordering) :
    (ofOrdering ordering).Satisfied [value] (· = json) ↔
      value.compareJson? json = some ordering := by
  have hop : ofOrdering ordering ≠ notIn := by
    cases ordering <;> decide
  rw [satisfied_singleton_iff hop, exists_eq_left, test_ofOrdering_iff htype hvalue]

/-- A value of the right kind is in just one order to the argument. -/
theorem existsUnique_satisfied (htype : type.isOrdered = true)
    (hvalue : type.Admits ordered argument value) (hjson : type.IsKindOf json) :
    ∃! op, op ∈ [less, equal, greater] ∧ op.Satisfied [value] (· = json) := by
  obtain ⟨ordering, hordering⟩ := Value.exists_compareJson? htype hvalue hjson
  refine ⟨ofOrdering ordering, ⟨?_, (satisfied_ofOrdering_iff htype hvalue _).mpr hordering⟩, ?_⟩
  · cases ordering <;> simp [ofOrdering]
  · rintro op ⟨hop, hsatisfied⟩
    obtain ⟨other, rfl⟩ : ∃ other, op = ofOrdering other := by
      simp only [List.mem_cons, List.not_mem_nil, or_false] at hop
      rcases hop with rfl | rfl | rfl
      exacts [⟨.lt, rfl⟩, ⟨.eq, rfl⟩, ⟨.gt, rfl⟩]
    have hother := (satisfied_ofOrdering_iff htype hvalue other).mp hsatisfied
    rw [Option.some_inj.mp (hother.symm.trans hordering)]

end Operator

/-! ### Comparisons on ordered types -/

namespace Query

variable {schema : Schema} {selection : Selection} {selector argument : String} {op : Operator}

/-- **Ordering and equality.** On a field of an ordered type, the comparisons with an argument by
equality and by the orderings are all rejected for the same reason, or they all compile. Then
"greater or equal" selects what "greater" or "equal" does, likewise for "less or equal", and exactly
one of "less", "equal" and "greater" selects a document with just one value, of the right kind. -/
theorem selects_ordering_iff (hselect : schema.select selector = .ok selection)
    (htype : selection.type.isOrdered = true) (hconverter : selection.field.converter = none) :
    (∃ e, ∀ op : Operator, op = .equal ∨ op.isOrdering = true →
      Query.compile .standard schema (.comparison ⟨selector, op, [argument]⟩) = .error e) ∨
    ∃ predicate : Operator → Predicate,
      (∀ op : Operator, op = .equal ∨ op.isOrdering = true →
        Query.compile .standard schema (.comparison ⟨selector, op, [argument]⟩) =
          .ok (predicate op)) ∧
      ∀ document,
        ((predicate .greaterOrEqual).selects document = true ↔
          (predicate .greater).selects document = true ∨
            (predicate .equal).selects document = true) ∧
        ((predicate .lessOrEqual).selects document = true ↔
          (predicate .less).selects document = true ∨
            (predicate .equal).selects document = true) ∧
        ∀ json, selection.key? = none → document.reach selection.path.segments = [json] →
          selection.type.IsKindOf json →
          ∃! op, op ∈ [Operator.less, .equal, .greater] ∧
            (predicate op).selects document = true := by
  have hplain := ValueType.ne_enumeration_of_isOrdered htype
  -- how the argument is read does not depend on the operator
  have hread : ∀ op : Operator, Comparison.read ⟨selector, op, [argument]⟩ selection argument =
      Selection.readAs selection.type selector argument := fun op => by
    rw [Comparison.read_eq_readAs hplain hconverter]
  cases hvalue : Selection.readAs selection.type selector argument with
  | error e =>
    exact .inl ⟨e, fun op hop =>
      compile_single_eq_error hselect (hop.imp_right .inr) ((hread op).trans hvalue)⟩
  | ok value =>
    have hadmits : selection.type.Admits false argument value :=
      ValueType.admits_of_ofText? hplain (Selection.readAs_eq_ok_iff.mp hvalue)
    have : Nonempty Predicate := ⟨.always⟩
    -- each operator has its predicate, and with it what the predicate selects
    choose! predicate hcompile hselects using fun (op : Operator)
      (hop : op = .equal ∨ op.isOrdering = true) =>
        exists_compile_single hselect (hop.imp_right .inr) ((hread op).trans hvalue)
    refine .inr ⟨predicate, hcompile, fun document => ⟨?_, ?_, ?_⟩⟩
    · rw [hselects _ (.inr rfl), hselects _ (.inr rfl), hselects _ (.inl rfl)]
      simp only [Operator.satisfied_greaterOrEqual_iff htype hadmits, and_or_left, exists_or]
    · rw [hselects _ (.inr rfl), hselects _ (.inr rfl), hselects _ (.inl rfl)]
      simp only [Operator.satisfied_lessOrEqual_iff htype hadmits, and_or_left, exists_or]
    · intro json hkey hreach hkind
      -- the value is the only one in question, so the operators are compared on it
      have hfound : ∀ found, ReachedAlong found selection.path.segments document ↔
          found = json := fun found => by
        rw [← mem_reach_iff, hreach, List.mem_singleton]
      have hone : ∀ op ∈ [Operator.less, .equal, .greater],
          ((predicate op).selects document = true ↔ op.Satisfied [value] (· = json)) := by
        intro op hop
        have hcompares : op = .equal ∨ op.isOrdering = true := by
          simp only [List.mem_cons, List.not_mem_nil, or_false] at hop
          rcases hop with rfl | rfl | rfl
          exacts [.inr rfl, .inl rfl, .inr rfl]
        rw [hselects op hcompares]
        simp only [Selection.ranges_iff_of_forall_reachedAlong_iff hkey hfound, exists_eq_left]
      exact (existsUnique_congr fun op => and_congr_right (hone op)).mpr
        (Operator.existsUnique_satisfied htype hadmits hkind)

/-- A time after the one in the argument is greater, and neither equal nor less. -/
theorem selects_ordering_iff_createdat : ∃ predicate : Operator → Predicate,
    (∀ op : Operator, op = .equal ∨ op.isOrdering = true →
      Query.compile .standard Schema.target (.comparison ⟨"createdat", op, ["5"]⟩) =
        .ok (predicate op)) ∧
    ((predicate .greaterOrEqual).selects (.object [("createdAt", .array [])]) = true ↔
      (predicate .greater).selects (.object [("createdAt", .array [])]) = true ∨
        (predicate .equal).selects (.object [("createdAt", .array [])]) = true) ∧
    ∃! op, op ∈ [Operator.less, .equal, .greater] ∧
      (predicate op).selects (.object [("createdAt", .number (.int 7))]) = true := by
  rcases @selects_ordering_iff _ _ _ "5" select_target_createdat rfl rfl with
    ⟨e, herror⟩ | ⟨predicate, hcompile, hselects⟩
  · cases herror .equal (.inl rfl)
  · exact ⟨predicate, hcompile, (hselects _).1, (hselects _).2.2 _ rfl rfl trivial⟩

end Query

end FilterQuery
