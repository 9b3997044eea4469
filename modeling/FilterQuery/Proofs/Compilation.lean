import FilterQuery.Compilation.Basic
import FilterQuery.Proofs.QueryTree
import FilterQuery.Proofs.Traversal

/-!
# What comparisons and queries compile to

A comparison is compiled in three stages: its selector is selected, the arguments that its operator
takes are turned into **values**, and the **operation** of the backend for the operator is applied
to the values (`compile_eq`). Backends differ in nothing but the operations, and operators in
nothing but the arguments that they take, the way in which these are read, and the operation.

The compiler has one branch for each operator. The equation of stages is proved once for all of
them, and what is shown later about rejections, types, meanings and letter case starts from it:

* `compile_eq_ok_iff` says when a comparison compiles, and to what.
* An unknown operator has no operation. It compiles to nothing and still has its selector and the
  presence of its arguments checked.

What relates queries to the conditions that they contribute is shown by one induction over both
(`Query.conditions_induction`): it has to be there for comparisons, and groups have to keep it.
-/

namespace FilterQuery

/-! ### Comparisons -/

namespace Selection

/-- An argument is read by the type alone, and rejected if the type has no such value. -/
theorem readAs_eq_ok_iff {type : ValueType} {selector argument : String} {value : Value} :
    readAs type selector argument = .ok value ↔ Value.ofText? type argument = some value := by
  unfold readAs
  cases Value.ofText? type argument <;> simp

/-- All arguments are coerced one after the other. -/
theorem coerceAll_eq_mapM (selection : Selection) (selector : String) (arguments : List String) :
    selection.coerceAll selector arguments = arguments.mapM (selection.coerce selector) := by
  induction arguments with
  | nil => rfl
  | cons argument arguments ih =>
    rw [coerceAll, List.mapM_cons, ih]

end Selection

namespace Operator

variable {π : Type} (b : Backend π)

/-- The condition of an operator on the values at a path, with the values it is compared to. An
unknown operator has none. -/
def operation? (op : Operator) (path : Path) (values : List Value) : Option π :=
  match op, values with
  | equal, [value] => some (b.same path value)
  | notEqual, [value] => some (b.notEqual path value)
  | like, [value] => some (b.matching path value)
  | greater, [value] => some (b.greater path value)
  | greaterOrEqual, [value] => some (b.greaterOrEqual path value)
  | less, [value] => some (b.less path value)
  | lessOrEqual, [value] => some (b.lessOrEqual path value)
  | isIn, values => some (b.isIn path values)
  | notIn, values => some (b.notIn path values)
  | _, _ => none

/-- Whether the operator is an ordering, which compares enumerations by their text. -/
def isOrdering : Operator → Bool
  | greater | greaterOrEqual | less | lessOrEqual => true
  | _ => false

end Operator

namespace Comparison

variable {π : Type} {b : Backend π} {schema : Schema} {c : Comparison}

/-- The arguments that the operator takes. -/
def taken (c : Comparison) : List String :=
  match c.operator with
  | .isIn | .notIn => c.arguments
  | .other _ => []
  | _ => c.arguments.take 1

/-- The values of the arguments that the operator takes, or the first rejection. -/
def values (selection : Selection) (c : Comparison) : Except Rejection (List Value) :=
  c.taken.mapM (if c.operator.isOrdering then selection.coerceOrdered c.selector
    else selection.coerce c.selector)

/-- The condition is the operation on the values. -/
theorem condition_eq {selection : Selection} {first : String} {rest : List String}
    (harguments : c.arguments = first :: rest) : c.condition b selection first =
      (c.values selection).map (c.operator.operation? b selection.valuePath) := by
  unfold condition values taken
  -- memberships take all arguments, the other known operators the first, and only orderings
  -- read it in a way of their own
  cases hop : c.operator
  case isIn | notIn =>
    simp only [Selection.coerceAll_eq_mapM, Operator.isOrdering]
    rfl
  case other => rfl
  case greater | greaterOrEqual | less | lessOrEqual =>
    simp only [harguments, Operator.isOrdering, if_true, List.take_succ_cons, List.take_zero,
      List.mapM_cons, List.mapM_nil]
    cases selection.coerceOrdered c.selector first <;> rfl
  case equal | notEqual | like =>
    simp only [harguments, Operator.isOrdering, Bool.false_eq_true, if_false,
      List.take_succ_cons, List.take_zero, List.mapM_cons, List.mapM_nil]
    cases selection.coerce c.selector first <;> rfl

/-- The stages of compilation, in their order. -/
theorem compile_eq : c.compile b schema = schema.select c.selector >>= fun selection =>
    if c.arguments = [] then .error (.missingArgument c.selector)
    else (c.values selection).map fun values =>
      (c.operator.operation? b selection.valuePath values).map (b.bindEntry selection) := by
  unfold compile
  congr 1
  funext selection
  cases harguments : c.arguments with
  | nil => rfl
  | cons first rest =>
    simp only [condition_eq harguments, if_neg (List.cons_ne_nil first rest)]
    cases c.values selection <;> rfl

variable {compiled : Option π}

/-- A comparison compiles if each of its stages succeeds. -/
theorem compile_eq_ok_iff : c.compile b schema = .ok compiled ↔
    ∃ selection values, schema.select c.selector = .ok selection ∧ c.arguments ≠ [] ∧
      c.values selection = .ok values ∧
      compiled = (c.operator.operation? b selection.valuePath values).map
        (b.bindEntry selection) := by
  rw [compile_eq, bind_eq_ok_iff]
  refine exists_congr fun selection => ?_
  by_cases harguments : c.arguments = []
  · simp [harguments]
  · rw [if_neg harguments]
    cases c.values selection <;> simp [Except.map, harguments, eq_comm]

/-- All operators but the unknown ones have an operation on the values of their arguments. -/
theorem isSome_operation? {selection : Selection} {values : List Value} {path : Path}
    (harguments : c.arguments ≠ []) (hvalues : c.values selection = .ok values) :
    (c.operator.operation? b path values).isSome = !c.operator.isOther := by
  obtain ⟨first, rest, hfirst⟩ := List.exists_cons_of_ne_nil harguments
  have hsingle : c.taken = [first] → ∃ value, values = [value] := by
    intro htaken
    simp only [Comparison.values, htaken, List.mapM_cons, List.mapM_nil, bind_eq_ok_iff] at hvalues
    obtain ⟨value, -, rest, hrest, heq⟩ := hvalues
    cases hrest
    exact ⟨value, (Except.ok.inj heq).symm⟩
  unfold taken at hsingle
  cases hop : c.operator
  case isIn | notIn | other => rfl
  all_goals
    obtain ⟨value, rfl⟩ := hsingle (by rw [hop, hfirst]; rfl)
    rfl

/-- A comparison that compiles has a condition unless its operator is unknown. -/
theorem isSome_of_compile (h : c.compile b schema = .ok compiled) :
    compiled.isSome = !c.operator.isOther := by
  obtain ⟨selection, values, -, harguments, hvalues, rfl⟩ := compile_eq_ok_iff.mp h
  rw [Option.isSome_map, isSome_operation? harguments hvalues]

end Comparison

/-! ### Queries -/

namespace Query

section

variable {π : Type} {b : Backend π} {schema : Schema} {motive : List Query → List π → Prop}

/-- Induction over the members of a group with the conditions that they contribute. -/
theorem conditionsOf_induction (nil : motive [] [])
    (cons : ∀ member members first rest, motive [member] first → motive members rest →
      motive (member :: members) (first ++ rest))
    {members : List Query} (hmembers : ∀ member ∈ members, ∀ conditions,
      member.conditions b schema = .ok conditions → motive [member] conditions)
    {conditions : List π} (h : conditionsOf b schema members = .ok conditions) :
    motive members conditions := by
  induction members generalizing conditions with
  | nil =>
    cases h
    exact nil
  | cons member members ih =>
    obtain ⟨hmember, hothers⟩ := List.forall_mem_cons.mp hmembers
    obtain ⟨first, hfirst, h⟩ := bind_eq_ok_iff.mp h
    obtain ⟨rest, hrest, h⟩ := bind_eq_ok_iff.mp h
    cases h
    exact cons member members first rest (hmember first hfirst) (ih hothers hrest)

/-- Induction over a query with the conditions that it contributes. -/
theorem conditions_induction (nil : motive [] [])
    (cons : ∀ member members first rest, motive [member] first → motive members rest →
      motive (member :: members) (first ++ rest))
    (comparison : ∀ c compiled, c.compile b schema = .ok compiled →
      motive [comparison c] compiled.toList)
    (and : ∀ members contributed, motive members contributed →
      motive [and members] [b.group b.and contributed])
    (or : ∀ members contributed, motive members contributed →
      motive [or members] [b.group b.or contributed])
    {query : Query} {conditions : List π} (h : query.conditions b schema = .ok conditions) :
    motive [query] conditions := by
  induction query generalizing conditions with
  | comparison c =>
    obtain ⟨compiled, hcompiled, h⟩ := bind_eq_ok_iff.mp h
    cases h
    exact comparison c compiled hcompiled
  | and members ih =>
    obtain ⟨contributed, hcontributed, h⟩ := bind_eq_ok_iff.mp h
    cases h
    exact and members contributed
      (conditionsOf_induction nil cons (fun m hm _ => ih m hm) hcontributed)
  | or members ih =>
    obtain ⟨contributed, hcontributed, h⟩ := bind_eq_ok_iff.mp h
    cases h
    exact or members contributed
      (conditionsOf_induction nil cons (fun m hm _ => ih m hm) hcontributed)

end

end Query

end FilterQuery
