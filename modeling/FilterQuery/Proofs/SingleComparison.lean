import FilterQuery.Proofs.Failure
import FilterQuery.Proofs.Meaning

/-!
# Queries of one comparison

A query that is a single comparison is rejected for its selector or for its arguments
(`Query.outcome_compile_comparison`). Otherwise, if its operator is known, it selects the documents
in which the comparison holds (`Query.exists_compile_comparison`).

A comparison looks for its values in a **range** of values: those along the path of its selection
or, in a map, those of one entry that has the key. It holds if some range satisfies the operator
(`Comparison.holds_iff`). So what operators have to do with each other on one range is all that
matters for what their queries have to do with each other (`Query.exists_compile_ranges`).

* **Ranges** are a relation with two constructors, one for selections with a key and one for those
  without (`Selection.Ranges`). Only here are maps told from other fields.
* **Arguments.** A membership has the values of all its arguments, and other operators the value of
  one. Without a converter all operators but those on enumerations read an argument alike.
* **Comparisons.** There is one lemma for the operators with one argument and one for memberships
  (`Query.exists_compile_single`, `Query.exists_compile_membership`), and the modules on stored
  values, orderings, memberships and whole numbers start from these.
-/

namespace FilterQuery

open Json

/-! ### The values that a comparison looks at -/

namespace Selection

variable {selection : Selection} {document entry : Json} {range : Json → Prop}

/-- The map in the document has an entry with the key of the selection. -/
def HasEntry (selection : Selection) (document entry : Json) : Prop :=
  ReachedAlong entry selection.path.segments document ∧
    ∃ key ∈ selection.key?, ∃ keyMember ∈ selection.field.keyMember?,
      ReachedAlong (.string key.key) [keyMember] entry

/-- The values in an entry: those of its value member or, if the map has none, of the entry. -/
def ValueIn (selection : Selection) (entry found : Json) : Prop :=
  ReachedAlong found selection.field.valueMember?.toList entry

/-- The values that a comparison looks at together. -/
inductive Ranges (selection : Selection) (document : Json) : (Json → Prop) → Prop where
  | path (hkey : selection.key? = none) :
      Ranges selection document (ReachedAlong · selection.path.segments document)
  | entry {entry : Json} (hentry : selection.HasEntry document entry) :
      Ranges selection document (selection.ValueIn entry)

/-- Without a key, all values along the path are looked at together. -/
theorem ranges_iff_of_key?_eq_none (hkey : selection.key? = none) :
    selection.Ranges document range ↔
      range = (ReachedAlong · selection.path.segments document) := by
  constructor
  · rintro (_ | ⟨-, key, hmem, -⟩)
    · rfl
    · simp [hkey] at hmem
  · rintro rfl
    exact .path hkey

/-- Where a single value is reached without a key, it is all that is looked at. -/
theorem ranges_iff_of_forall_reachedAlong_iff {json : Json} (hkey : selection.key? = none)
    (h : ∀ found, ReachedAlong found selection.path.segments document ↔ found = json) :
    selection.Ranges document range ↔ range = (· = json) := by
  rw [ranges_iff_of_key?_eq_none hkey, funext fun found => propext (h found)]

/-- With a key, the values of each entry that has it are looked at by themselves. -/
theorem ranges_iff_of_key?_eq_some {key : MapKey} (hkey : selection.key? = some key) :
    selection.Ranges document range ↔
      ∃ entry, selection.HasEntry document entry ∧ range = selection.ValueIn entry := by
  constructor
  · rintro (hnone | hentry)
    · simp [hkey] at hnone
    · exact ⟨_, hentry, rfl⟩
  · rintro ⟨entry, hentry, rfl⟩
    exact .entry hentry

end Selection

variable {schema : Schema} {selection : Selection} {c : Comparison} {values : List Value}

/-- A comparison holds if the values of some range satisfy the operator. -/
theorem Comparison.holds_iff (hselect : schema.select c.selector = .ok selection)
    (hvalues : c.values selection = .ok values) (document : Json) :
    c.Holds schema document ↔
      ∃ range, selection.Ranges document range ∧ c.operator.Satisfied values range := by
  rcases Schema.key?_cases hselect with ⟨hkey, -⟩ | ⟨keyMember, valueMember, type, key, hkind, hkey⟩
  · -- without a key there is one range, of what the path reaches in the document
    simp only [holds_plain_iff hselect hkey hvalues, Selection.ranges_iff_of_key?_eq_none hkey,
      exists_eq_left]
  · -- with a key there is one range for each entry that has the key
    have hentry : ∀ entry, selection.HasEntry document entry ↔
        ReachedAlong entry selection.path.segments document ∧
          ReachedAlong (.string key) [keyMember] entry := fun entry => by
      simp [Selection.HasEntry, hkey, Field.keyMember?, hkind]
    have hvalue : ∀ entry, selection.ValueIn entry =
        (ReachedAlong · valueMember.toList entry) := fun entry => by
      unfold Selection.ValueIn
      simp only [Field.valueMember?, hkind]
    rw [holds_entry_iff hselect hkey hkind hvalues]
    simp only [Selection.ranges_iff_of_key?_eq_some hkey, hentry]
    constructor
    · rintro ⟨entry, hreached, hfound, hsatisfied⟩
      exact ⟨_, ⟨entry, ⟨hreached, hfound⟩, rfl⟩, (hvalue entry).symm ▸ hsatisfied⟩
    · rintro ⟨_, ⟨entry, ⟨hreached, hfound⟩, rfl⟩, hsatisfied⟩
      exact ⟨entry, hreached, hfound, hvalue entry ▸ hsatisfied⟩

/-! ### Rejections -/

section

variable {π : Type} {b : Backend π}

/-- A comparison is rejected for its selector, for the lack of an argument or for its arguments. -/
theorem Comparison.outcome_compile : outcome (c.compile b schema) =
    outcome (schema.select c.selector >>= fun selection =>
      if c.arguments = [] then .error (.missingArgument c.selector) else c.values selection) := by
  rw [compile_eq]
  cases schema.select c.selector with
  | error e => rfl
  | ok selection =>
    change outcome (if _ then _ else _) = outcome (if _ then _ else _)
    split
    · rfl
    · cases c.values selection <;> rfl

/-- A comparison that stands alone is rejected as it is anywhere. -/
theorem Query.outcome_compile_comparison : outcome (Query.compile b schema (.comparison c)) =
    outcome (c.compile b schema) := by
  rw [outcome_compile, conditions, outcome_bind_pure]

/-- A comparison that has a condition is by itself the query for it. -/
theorem Query.compile_comparison {condition : π}
    (h : c.compile b schema = .ok (some condition)) :
    Query.compile b schema (.comparison c) = .ok condition := by
  simp only [Query.compile, Query.conditions, h, bind, Except.bind]
  rfl

end

/-! ### Documents that are selected -/

/-- A comparison whose arguments have values compiles, and by itself selects the documents in which
it holds. -/
theorem Query.exists_compile_comparison (hselect : schema.select c.selector = .ok selection)
    (harguments : c.arguments ≠ []) (hvalues : c.values selection = .ok values)
    (hknown : c.operator.isOther = false) :
    ∃ predicate : Predicate, Query.compile .standard schema (.comparison c) = .ok predicate ∧
      ∀ document, predicate.selects document = true ↔ c.Holds schema document := by
  have hsome : (c.operator.operation? .standard selection.valuePath values).isSome := by
    rw [Comparison.isSome_operation? harguments hvalues, hknown]
    rfl
  obtain ⟨leaf, hleaf⟩ := Option.isSome_iff_exists.mp hsome
  have hcompile : c.compile .standard schema =
      .ok (some (Backend.standard.bindEntry selection leaf)) :=
    Comparison.compile_eq_ok_iff.mpr
      ⟨selection, values, hselect, harguments, hvalues, by rw [hleaf, Option.map_some]⟩
  refine ⟨_, Query.compile_comparison hcompile, fun document => ?_⟩
  rw [Predicate.selects, Comparison.holds_compile_iff hcompile]

/-! ### Arguments -/

section

variable {selector argument : String} {arguments : List String} {value : Value} {op : Operator}

/-- The values of a membership are those of all its arguments. -/
theorem Comparison.values_membership (hop : op = .isIn ∨ op = .notIn) :
    Comparison.values selection ⟨selector, op, arguments⟩ =
      arguments.mapM (selection.coerce selector) := by
  rcases hop with rfl | rfl <;> rfl

/-- Equality, its negation and the orderings take one argument. -/
theorem Operator.isMultiValue_eq_false
    (hop : op = .equal ∨ op = .notEqual ∨ op.isOrdering = true) : op.isMultiValue = false := by
  cases op <;> simp [isOrdering] at hop <;> rfl

/-- Other operators have a value if their argument has one. -/
theorem Comparison.values_single (hop : op.isMultiValue = false) :
    Comparison.values selection ⟨selector, op, [argument]⟩ =
      (Comparison.read ⟨selector, op, [argument]⟩ selection argument).map ([·]) := by
  have htaken : Comparison.taken ⟨selector, op, [argument]⟩ = [argument] := by
    cases op <;> simp [Operator.isMultiValue] at hop <;> rfl
  rw [values_eq_mapM, htaken, List.mapM_cons, List.mapM_nil]
  cases Comparison.read ⟨selector, op, [argument]⟩ selection argument <;> rfl

end

theorem Selection.type_ne_enumeration (htype : selection.type = .int32 ∨ selection.type = .int64)
    (type : EnumType) : selection.type ≠ .enumeration type := by
  rcases htype with htype | htype <;> simp [htype]

/-- Without a converter, only enumerations read their arguments otherwise than by the type. -/
theorem Selection.coerce_eq_readAs (htype : ∀ type, selection.type ≠ .enumeration type)
    (hconverter : selection.field.converter = none) :
    selection.coerce = readAs selection.type ∧ selection.coerceOrdered = readAs selection.type := by
  constructor <;> funext selector argument
  · cases htext : selection.type with
    | enumeration type => exact absurd htext (htype type)
    | _ => simp only [coerce, htext, hconverter]
  · cases htext : selection.type with
    | enumeration type => exact absurd htext (htype type)
    | _ => simp only [coerceOrdered, htext, hconverter]

/-- Then all operators read their arguments alike. -/
theorem Comparison.read_eq_readAs (htype : ∀ type, selection.type ≠ .enumeration type)
    (hconverter : selection.field.converter = none) :
    c.read selection = Selection.readAs selection.type c.selector := by
  obtain ⟨hplain, hordered⟩ := Selection.coerce_eq_readAs htype hconverter
  funext argument
  rw [read, hplain, hordered, ite_self]

/-! ### Values in ranges -/

/-- A comparison whose arguments have values compiles, and by itself selects the documents in which
some range satisfies its operator. -/
theorem Query.exists_compile_ranges (hselect : schema.select c.selector = .ok selection)
    (harguments : c.arguments ≠ []) (hvalues : c.values selection = .ok values)
    (hknown : c.operator.isOther = false) :
    ∃ predicate : Predicate, Query.compile .standard schema (.comparison c) = .ok predicate ∧
      ∀ document, predicate.selects document = true ↔
        ∃ range, selection.Ranges document range ∧ c.operator.Satisfied values range := by
  obtain ⟨predicate, hcompile, hselects⟩ :=
    exists_compile_comparison hselect harguments hvalues hknown
  exact ⟨predicate, hcompile, fun document =>
    (hselects document).trans (Comparison.holds_iff hselect hvalues document)⟩

section

variable {selector argument : String} {arguments : List String} {value : Value} {op : Operator}

/-- A comparison with one argument, unless by pattern. -/
theorem Query.exists_compile_single (hselect : schema.select selector = .ok selection)
    (hop : op = .equal ∨ op = .notEqual ∨ op.isOrdering = true)
    (hread : Comparison.read ⟨selector, op, [argument]⟩ selection argument = .ok value) :
    ∃ predicate : Predicate,
      Query.compile .standard schema (.comparison ⟨selector, op, [argument]⟩) = .ok predicate ∧
      ∀ document, predicate.selects document = true ↔
        ∃ range, selection.Ranges document range ∧ op.Satisfied [value] range := by
  have hknown : op.isOther = false := by
    cases op <;> simp [Operator.isOrdering] at hop <;> rfl
  have hvalues : Comparison.values selection ⟨selector, op, [argument]⟩ = .ok [value] := by
    rw [Comparison.values_single (Operator.isMultiValue_eq_false hop), hread]
    rfl
  exact exists_compile_ranges hselect (List.cons_ne_nil _ _) hvalues hknown

/-- A comparison whose one argument has no value is rejected for it. -/
theorem Query.compile_single_eq_error {e : Rejection}
    (hselect : schema.select selector = .ok selection)
    (hop : op = .equal ∨ op = .notEqual ∨ op.isOrdering = true)
    (hread : Comparison.read ⟨selector, op, [argument]⟩ selection argument = .error e) :
    Query.compile .standard schema (.comparison ⟨selector, op, [argument]⟩) = .error e := by
  have hvalues : Comparison.values selection ⟨selector, op, [argument]⟩ = .error e := by
    rw [Comparison.values_single (Operator.isMultiValue_eq_false hop), hread]
    rfl
  rw [← outcome_eq_error_iff, outcome_compile_comparison, Comparison.outcome_compile, hselect,
    outcome_eq_error_iff]
  exact hvalues

/-- A membership, or the complement of one, in a list whose arguments all have values. -/
theorem Query.exists_compile_membership (hselect : schema.select selector = .ok selection)
    (hop : op = .isIn ∨ op = .notIn) (harguments : arguments ≠ [])
    (hcoerced : arguments.mapM (selection.coerce selector) = .ok values) :
    ∃ predicate : Predicate,
      Query.compile .standard schema (.comparison ⟨selector, op, arguments⟩) = .ok predicate ∧
      ∀ document, predicate.selects document = true ↔
        ∃ range, selection.Ranges document range ∧ op.Satisfied values range := by
  have hvalues : Comparison.values selection ⟨selector, op, arguments⟩ = .ok values :=
    (Comparison.values_membership hop).trans hcoerced
  have hknown : op.isOther = false := by
    rcases hop with rfl | rfl <;> rfl
  exact exists_compile_ranges hselect harguments hvalues hknown

end

end FilterQuery
