import FilterQuery.Proofs.Backends
import FilterQuery.Proofs.Failure
import FilterQuery.Proofs.PredicateTree
import Mathlib.Data.List.Forall2

/-!
# The leaves of compiled queries

The **leaves** of a predicate are the tests in it, each with the entries that it is bound to; the
key match that opens an entry is no leaf of its own. The leaves of the predicate of a query stand
one for one, and in the same order, for the comparisons of the query whose operators are known
(`Query.forall₂_leaves_of_compile`). A leaf tests what its comparison selects, with values of the
type of the selection.

* **Leaves** know whether they are negated and which entries are around them, so that the predicate
  could be put together from them but for its groups.
* **Types.** A type **admits** a value that it reads from an argument (`ValueType.Admits`). For an
  enumeration that is one of its constants, or any text where an ordering compares it.
* **What a leaf says** about its comparison is one structure (`Leaf.IsTestOf`): its operation, path,
  entry, negation and the types of its values, with one value for each argument that the operator
  takes.
* **Queries.** By the induction over a query and its conditions, the leaves of a group are those of
  its members one after the other.
-/

namespace FilterQuery

/-!
### Leaves

The leaves of a predicate are its tests with the entries and negations around them. The match that
opens an entry is a part of the entry and no leaf of its own, so a comparison on a map has one leaf
like any other.
-/

/-- An entry of a collection, and the match that opens it. -/
structure Entry where
  path : Path
  opening : Predicate

/-- A test in a predicate: the entries that it is bound to, outermost first, whether it is negated,
and the test itself. -/
structure Leaf where
  entries : List Entry
  negated : Bool
  test : Predicate

namespace Leaf

/-- The leaf below a negation. -/
def negate (leaf : Leaf) : Leaf := { leaf with negated := !leaf.negated }

/-- The leaf in an entry. -/
def inside (entry : Entry) (leaf : Leaf) : Leaf := { leaf with entries := entry :: leaf.entries }

/-- The test with its negation, without the entries. -/
def predicate (leaf : Leaf) : Predicate := if leaf.negated then .not leaf.test else leaf.test

end Leaf

namespace Predicate

mutual

/-- The tests in a predicate, from left to right. The first test in an entry opens the entry. -/
def leaves : Predicate → List Leaf
  | always => []
  | not p => (leaves p).map Leaf.negate
  | and ps => leavesOf ps
  | or ps => leavesOf ps
  | entry path p =>
    match leaves p with
    | [] => []
    | opening :: rest => rest.map (Leaf.inside ⟨path, opening.predicate⟩)
  | test => [⟨[], false, test⟩]

/-- The tests in some predicates, in their order. -/
def leavesOf : List Predicate → List Leaf
  | [] => []
  | p :: ps => leaves p ++ leavesOf ps

end

theorem leavesOf_eq_flatMap (ps : List Predicate) : leavesOf ps = ps.flatMap leaves := by
  induction ps with
  | nil => rfl
  | cons p ps ih => rw [leavesOf, ih, List.flatMap_cons]

theorem leaves_and (ps : List Predicate) : (and ps).leaves = ps.flatMap leaves :=
  leavesOf_eq_flatMap ps

theorem leaves_or (ps : List Predicate) : (or ps).leaves = ps.flatMap leaves :=
  leavesOf_eq_flatMap ps

end Predicate

/-! ### Types -/

/-- The values that an argument can stand for in a field of the type. An ordering compares the
constants of an enumeration by their text. -/
def ValueType.Admits (ordered : Bool) (argument : String) : ValueType → Value → Prop
  | string, .string s => s = argument
  | boolean, .boolean _ => True
  | int32, .int32 n => -0x80000000 ≤ n ∧ n ≤ 0x7FFFFFFF
  | int64, .int64 n => -0x8000000000000000 ≤ n ∧ n ≤ 0x7FFFFFFFFFFFFFFF
  | float64, .float64 x => x.isFinite = true
  | enumeration type, .constant constant => ordered = false ∧ constant ∈ type.constants
  | enumeration _, .string s => ordered = true ∧ s = argument
  | _, _ => False

/-- What is read from an argument by a type is admitted by the type. -/
theorem ValueType.admits_of_ofText? {type : ValueType} {argument : String} {value : Value}
    {ordered : Bool} (htype : ∀ enumType, type ≠ .enumeration enumType)
    (h : Value.ofText? type argument = some value) : type.Admits ordered argument value := by
  cases type with
  | string =>
    cases h
    rfl
  | enumeration enumType => exact absurd rfl (htype enumType)
  | boolean =>
    obtain ⟨b, -, rfl⟩ := Option.map_eq_some_iff.mp h
    trivial
  | int32 | int64 =>
    obtain ⟨n, hn, rfl⟩ := Option.map_eq_some_iff.mp h
    obtain ⟨-, hrange⟩ := Option.filter_eq_some_iff.mp hn
    simpa [Admits] using hrange
  | float64 =>
    obtain ⟨x, hx, rfl⟩ := Option.map_eq_some_iff.mp h
    exact (Option.filter_eq_some_iff.mp hx).2

namespace Comparison

variable {schema : Schema} {c : Comparison} {selection : Selection}

/-- Without a converter, an argument is read as a value that the type admits. -/
theorem admits_of_read {argument : String} {value : Value}
    (hconverter : selection.field.converter = none) (h : c.read selection argument = .ok value) :
    selection.type.Admits c.operator.isOrdering argument value := by
  unfold read Selection.coerceOrdered Selection.coerce at h
  cases htype : selection.type with
  | enumeration type =>
    simp only [htype, hconverter] at h
    split at h
    · next hordered =>
      cases h
      exact ⟨hordered, rfl⟩
    · next hordered =>
      split at h
      · next constant hconstant =>
        cases h
        exact ⟨Bool.eq_false_iff.mpr hordered, List.mem_of_find?_eq_some hconstant⟩
      · cases h
  | _ =>
    simp only [htype, hconverter, ite_self] at h
    exact ValueType.admits_of_ofText? nofun (Selection.readAs_eq_ok_iff.mp h)

/-- The values of a comparison are those of its arguments, one by one. -/
theorem forall₂_of_values {values : List Value} (h : c.values selection = .ok values) :
    List.Forall₂ (fun argument value => c.read selection argument = .ok value) c.taken values := by
  rw [values_eq_mapM] at h
  exact mapM_eq_ok_iff.mp h

end Comparison

/-! ### What a leaf says about its comparison -/

/-- The entry that a selection binds conditions to, which its key match opens. -/
def Selection.entries (selection : Selection) : List Entry :=
  selection.key?.toList.map fun key => ⟨selection.path, .equal key.path (.string key.key)⟩

/-- The leaf tests what the comparison selects. -/
structure Leaf.IsTestOf (leaf : Leaf) (c : Comparison) (selection : Selection) : Prop where
  /-- The test is the operation of the operator on the values of the arguments. -/
  operation : ∃ values, c.values selection = .ok values ∧
    c.operator.operation? .standard selection.valuePath values = some leaf.predicate
  negated : leaf.negated = true ↔ c.operator = .notIn
  path : leaf.test.parts.head? = some (.path selection.valuePath)
  entries : leaf.entries = selection.entries
  isMap : leaf.entries ≠ [] ↔ selection.field.isMap = true
  typed : selection.field.converter = none → ∀ value, .value value ∈ leaf.test.parts →
    ∃ argument ∈ c.arguments, selection.type.Admits c.operator.isOrdering argument value
  /-- A membership has one value for each of its arguments. -/
  membership : c.operator = .isIn ∨ c.operator = .notIn → ∃ values,
    leaf.test = .isIn selection.valuePath values ∧
      List.Forall₂ (fun argument value => selection.coerce c.selector argument = .ok value)
        c.arguments values

namespace Operator

/-- The condition of an operator has one leaf, which is negated for the complement of a membership,
tests the given path and has none but the given values. -/
theorem leaves_of_operation? {op : Operator} {path : Path} {values : List Value} {p : Predicate}
    (h : op.operation? .standard path values = some p) :
    ∃ leaf : Leaf, p.leaves = [leaf] ∧ leaf.entries = [] ∧ leaf.predicate = p ∧
      (leaf.negated = true ↔ op = .notIn) ∧ leaf.test.parts.head? = some (.path path) ∧
      ∀ value, .value value ∈ leaf.test.parts → value ∈ values := by
  unfold operation? at h
  split at h
  all_goals cases h
  case h_1 value =>
    -- plain text is matched by pattern, any other value is compared as it is
    unfold Backend.same
    split
    all_goals
      refine ⟨⟨[], false, _⟩, rfl, rfl, rfl, by simp, rfl, ?_⟩
      simp [Backend.standard, Backend.matching, Predicate.parts]
  case h_9 =>
    refine ⟨⟨[], true, _⟩, rfl, rfl, rfl, by simp, rfl, ?_⟩
    simp [Predicate.parts]
  all_goals
    refine ⟨⟨[], false, _⟩, rfl, rfl, rfl, by simp, rfl, ?_⟩
    simp [Backend.standard, Backend.matching, Predicate.parts]

/-- A membership has its values for leaf. -/
theorem test_of_operation? {op : Operator} {path : Path} {values : List Value} {leaf : Leaf}
    (hop : op = .isIn ∨ op = .notIn) (hnegated : leaf.negated = true ↔ op = .notIn)
    (h : op.operation? .standard path values = some leaf.predicate) :
    leaf.test = .isIn path values := by
  rcases hop with rfl | rfl
  · have hfalse : leaf.negated = false := by simpa using hnegated
    rw [Leaf.predicate, hfalse] at h
    exact (Option.some.inj h).symm
  · have htrue : leaf.negated = true := by simpa using hnegated
    rw [Leaf.predicate, htrue] at h
    exact (Predicate.not.inj (Option.some.inj h)).symm

end Operator

namespace Comparison

variable {schema : Schema} {c : Comparison} {selection : Selection}

theorem taken_subset (c : Comparison) : c.taken ⊆ c.arguments := by
  unfold taken
  cases c.operator <;> simp [List.take_subset]

/-- Every value comes from an argument. -/
theorem exists_argument_of_mem {values : List Value} {value : Value}
    (hvalues : c.values selection = .ok values) (hvalue : value ∈ values) :
    ∃ argument ∈ c.arguments, c.read selection argument = .ok value := by
  obtain ⟨argument, htaken, hread⟩ := exists_of_forall₂_of_mem (forall₂_of_values hvalues) hvalue
  exact ⟨argument, c.taken_subset htaken, hread⟩

/-- Only in a map field is a test bound to an entry. -/
theorem entries_ne_nil_iff (h : schema.select c.selector = .ok selection) :
    selection.entries ≠ [] ↔ selection.field.isMap = true := by
  rcases Schema.key?_cases h with ⟨hkey, hmap⟩ | ⟨keyMember, valueMember, type, key, hkind, hkey⟩
  · simp [Selection.entries, hkey, hmap]
  · simp [Selection.entries, hkey, Field.isMap, hkind]

/-- Binding an entry leaves one leaf, inside of the entry. -/
theorem leaves_bindEntry {p test : Predicate} {negated : Bool}
    (hleaves : p.leaves = [⟨[], negated, test⟩]) :
    (Backend.standard.bindEntry selection p).leaves = [⟨selection.entries, negated, test⟩] := by
  unfold Backend.bindEntry Selection.entries
  cases selection.key? with
  | none => exact hleaves
  | some key =>
    -- the key match is the first leaf of the entry, so it opens the entry
    have hgroup : Predicate.leavesOf [.equal key.path (.string key.key), p] =
        [⟨[], false, .equal key.path (.string key.key)⟩, ⟨[], negated, test⟩] := by
      rw [Predicate.leavesOf_eq_flatMap, List.flatMap_cons, List.flatMap_singleton, hleaves]
      rfl
    simp only [Backend.standard, Predicate.leaves, hgroup]
    rfl

/-- The leaf of a comparison that compiles. -/
theorem leaves_of_compile {p : Predicate} (h : c.compile .standard schema = .ok (some p)) :
    ∃ leaf selection, p.leaves = [leaf] ∧ schema.select c.selector = .ok selection ∧
      leaf.IsTestOf c selection := by
  obtain ⟨selection, values, hselect, -, hvalues, hcompiled⟩ := compile_eq_ok_iff.mp h
  obtain ⟨condition, hcondition, rfl⟩ := Option.map_eq_some_iff.mp hcompiled.symm
  obtain ⟨⟨entries, negated, test⟩, hleaves, hentries, rfl, hnegated, hpath, hmem⟩ :=
    Operator.leaves_of_operation? hcondition
  cases hentries
  have hmembership : c.operator = .isIn ∨ c.operator = .notIn →
      test = .isIn selection.valuePath values := fun hop =>
    Operator.test_of_operation? hop hnegated hcondition
  refine ⟨⟨selection.entries, negated, test⟩, selection, leaves_bindEntry hleaves, hselect, ?_⟩
  constructor
  · exact ⟨values, hvalues, hcondition⟩
  · exact hnegated
  · exact hpath
  · rfl
  · exact entries_ne_nil_iff hselect
  · -- a value of the leaf is the reading of one argument, which its type admits
    intro hconverter value hvalue
    obtain ⟨argument, hargument, hread⟩ := exists_argument_of_mem hvalues (hmem value hvalue)
    exact ⟨argument, hargument, admits_of_read hconverter hread⟩
  · intro hop
    -- the leaf of a membership has the values of all arguments, in their order
    have hread := forall₂_of_values hvalues
    refine ⟨values, hmembership hop, ?_⟩
    unfold taken read at hread
    rcases hop with hop | hop <;> simpa [hop, Operator.isOrdering] using hread

end Comparison

/-! ### Queries -/

namespace Query

variable {schema : Schema} {query : Query} {predicates : List Predicate}

/-- The leaf is the test of the comparison in what its selector means. -/
def LeafOf (schema : Schema) (c : Comparison) (leaf : Leaf) : Prop :=
  ∃ selection, schema.select c.selector = .ok selection ∧ leaf.IsTestOf c selection

/-- The comparisons of a query whose operators are known, from left to right. -/
def tested (query : Query) : List Comparison := query.leaves.filter fun c => !c.operator.isOther

theorem tested_of_leaves {members : List Query} (h : query.leaves = leavesOf members) :
    query.tested = members.flatMap tested := by
  rw [tested, h, leavesOf_eq_flatMap, List.filter_flatMap]
  rfl

/-- The leaves of the conditions of a query are those of its comparisons, in their order. -/
theorem forall₂_leaves_of_conditions (h : query.conditions .standard schema = .ok predicates) :
    List.Forall₂ (LeafOf schema) query.tested (predicates.flatMap Predicate.leaves) := by
  rw [← List.flatMap_singleton tested query]
  -- the statement is about lists of queries, so that the members of a group are an instance
  refine conditions_induction (motive := fun queries predicates =>
    List.Forall₂ (LeafOf schema) (queries.flatMap tested) (predicates.flatMap Predicate.leaves))
    ?nil ?cons ?comparison ?and ?or h
  case nil => exact .nil
  case cons =>
    intro member members first rest hfirst hrest
    rw [List.flatMap_append, ← List.singleton_append, List.flatMap_append]
    exact List.rel_append hfirst hrest
  case comparison =>
    intro c compiled hcompiled
    have hsome := Comparison.isSome_of_compile hcompiled
    cases compiled with
    -- a comparison without a condition is not tested
    | none =>
      have hnone : tested (comparison c) = [] := by simpa [tested, leaves] using hsome.symm
      rw [List.flatMap_singleton, hnone]
      exact .nil
    | some p =>
      obtain ⟨leaf, selection, hleaves, hselect, htest⟩ := Comparison.leaves_of_compile hcompiled
      have hone : tested (comparison c) = [c] := by simpa [tested, leaves] using hsome.symm
      simp only [hone, Option.toList_some, List.flatMap_singleton, hleaves]
      exact .cons ⟨selection, hselect, htest⟩ .nil
  case and =>
    intro members contributed hmembers
    rw [List.flatMap_singleton, List.flatMap_singleton, tested_of_leaves rfl]
    exact group_eq_flatMap rfl Predicate.leaves_and contributed ▸ hmembers
  case or =>
    intro members contributed hmembers
    rw [List.flatMap_singleton, List.flatMap_singleton, tested_of_leaves rfl]
    exact group_eq_flatMap rfl Predicate.leaves_or contributed ▸ hmembers

/-- **Typing.** If a query compiles, then the leaves of its predicate stand one for one, in the same
order, for the comparisons of the query whose operators are known. Each leaf is the test of its
comparison: on the path of the selected values, in an entry exactly if the field is a map, and
without a converter with values of the selected type. -/
theorem forall₂_leaves_of_compile {p : Predicate} (h : query.compile .standard schema = .ok p) :
    List.Forall₂ (LeafOf schema) (query.leaves.filter fun c => !c.operator.isOther) p.leaves := by
  obtain ⟨predicates, hpredicates, h⟩ := bind_eq_ok_iff.mp h
  have hleaves : List.Forall₂ (LeafOf schema) query.tested (predicates.flatMap Predicate.leaves) :=
    forall₂_leaves_of_conditions hpredicates
  have hp : p.leaves = predicates.flatMap Predicate.leaves := by
    split at h
    · cases h
      rw [List.flatMap_singleton]
    · cases h
      exact group_eq_flatMap rfl Predicate.leaves_and predicates
  rw [hp]
  exact hleaves

/-- The comparison with the unknown operator has no leaf, and the complement of a membership is one
negated leaf in the entry with its key. -/
theorem forall₂_leaves_of_compile_target :
    Query.compile .standard Schema.target
        (.or [.comparison ⟨"createdat", .greater, [" 5"]⟩,
          .comparison ⟨"name", .other "=x=", ["a"]⟩,
          .and [.comparison ⟨"attribute.os", .notIn, ["linux", "bsd"]⟩]]) =
      .ok (.or [.greater ⟨["createdAt"]⟩ (.int64 5), .and [.entry ⟨["controllerAttributes"]⟩
        (.and [.equal ⟨["controllerAttributes", "key"]⟩ (.string "os"),
          .not (.isIn ⟨["controllerAttributes", "value"]⟩ [.string "linux", .string "bsd"])])]]) ∧
    List.Forall₂ (LeafOf Schema.target)
      [⟨"createdat", .greater, [" 5"]⟩, ⟨"attribute.os", .notIn, ["linux", "bsd"]⟩]
      [⟨[], false, .greater ⟨["createdAt"]⟩ (.int64 5)⟩,
        ⟨[⟨⟨["controllerAttributes"]⟩, .equal ⟨["controllerAttributes", "key"]⟩ (.string "os")⟩],
          true, .isIn ⟨["controllerAttributes", "value"]⟩ [.string "linux", .string "bsd"]⟩] := by
  have hcompile : Query.compile .standard Schema.target
      (.or [.comparison ⟨"createdat", .greater, [" 5"]⟩,
        .comparison ⟨"name", .other "=x=", ["a"]⟩,
        .and [.comparison ⟨"attribute.os", .notIn, ["linux", "bsd"]⟩]]) =
      .ok (.or [.greater ⟨["createdAt"]⟩ (.int64 5), .and [.entry ⟨["controllerAttributes"]⟩
        (.and [.equal ⟨["controllerAttributes", "key"]⟩ (.string "os"),
          .not (.isIn ⟨["controllerAttributes", "value"]⟩ [.string "linux", .string "bsd"])])]]) :=
    rfl
  exact ⟨hcompile, forall₂_leaves_of_compile hcompile⟩

end Query

end FilterQuery
