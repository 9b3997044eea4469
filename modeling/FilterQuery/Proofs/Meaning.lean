import FilterQuery.Proofs.Compilation
import FilterQuery.Proofs.QueryTree
import FilterQuery.Proofs.Wildcard
import FilterQuery.Schema.Builtin
import Mathlib.Data.List.Forall2

/-!
# The meaning of a query

A query has a **direct meaning** in a document, which takes the query as it is written: a comparison
asks for a value that is reached along its path and passes the test of its operator, a group asks
the same of its members. Nothing is compiled for it. The predicate that a query compiles to selects
the documents in which the query holds directly (`selects_iff`).

A comparison with an unknown operator does not **contribute** to the group around it. A group in
which nothing contributes holds.

* **Comparisons.** `Operator.Test` has one line for each operator on one value, and
  `Operator.Satisfied` says which of the values that are found have to pass it: some of them, but
  for the complement of a membership, which no value of the list may pass.
* **Maps.** On a map the values are those in the entries with the key, and one entry has to have
  both (`Comparison.Holds`).
* **Conditions.** The condition of an operator holds where the operator is satisfied by what its
  path reaches, be it in the document or in an entry.
* **Groups.** The conditions of a group are those of the members that contribute, so a group is
  compared with its conditions member by member (`Agrees`).
-/

namespace FilterQuery

open Json Pattern

/-!
### Comparisons

The meaning of a comparison is said without predicates: by what is reached along the names of the
selection, and by a test on one JSON value for each operator.
-/

namespace Operator

/-- A value of a document passes the test of an operator against the value of an argument. -/
def Test (op : Operator) (value : Value) (json : Json) : Prop :=
  match op with
  | equal => if value.isTextual then json.MatchesText value.text else value.equalsJson json
  | notEqual => ¬ value.equalsJson json
  | like => json.MatchesText value.text
  | greater => value.compareJson? json = some .gt
  | greaterOrEqual => value.compareJson? json = some .gt ∨ value.compareJson? json = some .eq
  | less => value.compareJson? json = some .lt
  | lessOrEqual => value.compareJson? json = some .lt ∨ value.compareJson? json = some .eq
  | isIn | notIn => value.equalsJson json
  | other _ => False

/-- Some value found passes the test against one of the values; under the complement of a
membership, none does. -/
def Satisfied (op : Operator) (values : List Value) (found : Json → Prop) : Prop :=
  match op with
  | notIn => ¬ ∃ json, found json ∧ ∃ value ∈ values, notIn.Test value json
  | op => ∃ json, found json ∧ ∃ value ∈ values, op.Test value json

end Operator

/-- A comparison holds in a document. -/
inductive Comparison.Holds (schema : Schema) (document : Json) (c : Comparison) : Prop where
  /-- The path of the selection leads to values that satisfy the operator. -/
  | plain {selection : Selection} {values : List Value}
      (hselect : schema.select c.selector = .ok selection) (hkey : selection.key? = none)
      (hvalues : c.values selection = .ok values)
      (h : c.operator.Satisfied values (ReachedAlong · selection.path.segments document))
  /-- The path of a map leads to an entry that has the key, and whose value member, or the entry
  itself where there is no such member, satisfies the operator. -/
  | entry {selection : Selection} {values : List Value} {keyMember : String}
      {valueMember : Option String} {type : ValueType} {key : MapKey} {entry : Json}
      (hselect : schema.select c.selector = .ok selection) (hkey : selection.key? = some key)
      (hkind : selection.field.kind = .map keyMember valueMember type)
      (hvalues : c.values selection = .ok values)
      (hentry : ReachedAlong entry selection.path.segments document)
      (hfound : ReachedAlong (.string key.key) [keyMember] entry)
      (h : c.operator.Satisfied values (ReachedAlong · valueMember.toList entry))

namespace Comparison

variable {schema : Schema} {document : Json} {c : Comparison} {selection : Selection}
  {values : List Value}

/-- Without a key, what counts is the values along the path. -/
theorem holds_plain_iff (hselect : schema.select c.selector = .ok selection)
    (hkey : selection.key? = none) (hvalues : c.values selection = .ok values) :
    c.Holds schema document ↔
      c.operator.Satisfied values (ReachedAlong · selection.path.segments document) := by
  constructor
  · rintro (⟨hselect', hkey', hvalues', hsatisfied⟩ | ⟨hselect', hkey', _⟩)
    · cases hselect.symm.trans hselect'
      cases hvalues.symm.trans hvalues'
      exact hsatisfied
    · cases hselect.symm.trans hselect'
      cases hkey.symm.trans hkey'
  · exact .plain hselect hkey hvalues

/-- With a key, what counts is the values in one of the entries that have it. -/
theorem holds_entry_iff {keyMember : String} {valueMember : Option String} {type : ValueType}
    {key : MapKey} (hselect : schema.select c.selector = .ok selection)
    (hkey : selection.key? = some key)
    (hkind : selection.field.kind = .map keyMember valueMember type)
    (hvalues : c.values selection = .ok values) :
    c.Holds schema document ↔ ∃ entry, ReachedAlong entry selection.path.segments document ∧
      ReachedAlong (.string key.key) [keyMember] entry ∧
      c.operator.Satisfied values (ReachedAlong · valueMember.toList entry) := by
  constructor
  · rintro (⟨hselect', hkey', _⟩ | ⟨hselect', hkey', hkind', hvalues', hentry, hfound, hsat⟩)
    · cases hselect.symm.trans hselect'
      cases hkey.symm.trans hkey'
    · cases hselect.symm.trans hselect'
      cases hkey.symm.trans hkey'
      cases hkind.symm.trans hkind'
      cases hvalues.symm.trans hvalues'
      exact ⟨_, hentry, hfound, hsat⟩
  · rintro ⟨entry, hentry, hfound, hsatisfied⟩
    exact .entry hselect hkey hkind hvalues hentry hfound hsatisfied

end Comparison

/-! ### Queries -/

namespace Query

/-- Whether a query counts in the group around it. -/
def contributes : Query → Bool
  | comparison c => !c.operator.isOther
  | _ => true

/-- A query holds in a document. -/
inductive Holds (schema : Schema) (document : Json) : Query → Prop where
  | comparison {c : Comparison} (h : c.Holds schema document) : Holds schema document (comparison c)
  | and {members : List Query}
      (h : ∀ member ∈ members, member.contributes = true → Holds schema document member) :
      Holds schema document (and members)
  | or {members : List Query} {member : Query} (hmember : member ∈ members)
      (hcontributes : member.contributes = true) (h : Holds schema document member) :
      Holds schema document (or members)
  | or_empty {members : List Query} (h : ∀ member ∈ members, member.contributes = false) :
      Holds schema document (or members)

/-- A document satisfies a query that stands alone. -/
def Selects (schema : Schema) (query : Query) (document : Json) : Prop :=
  query.contributes = true → query.Holds schema document

end Query

/-! ### The conditions of comparisons -/

namespace Value

/-- At least is greater or equal. -/
theorem compareJson?_isGE_iff {json : Json} {value : Value} :
    (value.compareJson? json).any (·.isGE) = true ↔
      value.compareJson? json = some .gt ∨ value.compareJson? json = some .eq := by
  rw [Option.any_eq_true]
  constructor
  · rintro ⟨ordering, hcompare, hge⟩
    cases ordering
    · cases hge
    · exact .inr hcompare
    · exact .inl hcompare
  · rintro (hcompare | hcompare) <;> exact ⟨_, hcompare, rfl⟩

/-- At most is less or equal. -/
theorem compareJson?_isLE_iff {json : Json} {value : Value} :
    (value.compareJson? json).any (·.isLE) = true ↔
      value.compareJson? json = some .lt ∨ value.compareJson? json = some .eq := by
  rw [Option.any_eq_true]
  constructor
  · rintro ⟨ordering, hcompare, hle⟩
    cases ordering
    · exact .inl hcompare
    · exact .inr hcompare
    · cases hle
  · rintro (hcompare | hcompare) <;> exact ⟨_, hcompare, rfl⟩

/-- A value equals a string if it is that string. -/
theorem equalsJson_string_iff {json : Json} {text : String} :
    (Value.string text).equalsJson json = true ↔ json = .string text := by
  cases json <;> simp [equalsJson, Json.string?]

end Value

namespace Operator

variable {op : Operator} {path : Path} {values : List Value} {leaf : Predicate} {scope : Scope}

theorem satisfied_singleton_iff {value : Value} {found : Json → Prop} (hop : op ≠ notIn) :
    op.Satisfied [value] found ↔ ∃ json, found json ∧ op.Test value json := by
  cases op <;> simp [Satisfied] at hop ⊢

/-- A leaf that asks for one value passing a test holds if such a value is found. -/
theorem any_reach_iff {value : Value} {test : Json → Bool} (hop : op ≠ notIn)
    (htest : ∀ json, test json = true ↔ op.Test value json) :
    (scope.reach path).any test = true ↔ op.Satisfied [value] (· ∈ scope.reach path) := by
  rw [satisfied_singleton_iff hop, List.any_eq_true]
  exact exists_congr fun json => and_congr_right fun _ => htest json

/-- Equality holds where it is satisfied, be it a comparison or a match. -/
theorem holds_same_iff {value : Value} :
    (Backend.standard.same path value).holds scope = true ↔
      equal.Satisfied [value] (· ∈ scope.reach path) := by
  rw [Backend.same]
  cases htextual : value.isTextual with
  | true =>
    refine any_reach_iff (by decide) fun json => ?_
    rw [Test, if_pos htextual]
    exact Predicate.likeJson_iff
  | false =>
    refine any_reach_iff (by decide) fun json => ?_
    rw [Test, htextual]
    rfl

theorem holds_isIn_iff :
    (Backend.standard.isIn path values).holds scope = true ↔
      isIn.Satisfied values (· ∈ scope.reach path) := by
  simp [Backend.standard, Predicate.holds, Satisfied, Test]

/-- The operation of an operator holds if the values at the path satisfy the operator. -/
theorem holds_operation?_iff (h : op.operation? .standard path values = some leaf) :
    leaf.holds scope = true ↔ op.Satisfied values (· ∈ scope.reach path) := by
  unfold operation? at h
  split at h
  all_goals cases h
  · exact holds_same_iff
  · exact any_reach_iff (by decide) fun json => by simp [Test]
  · exact any_reach_iff (by decide) fun json => Predicate.likeJson_iff
  · exact any_reach_iff (by decide) fun json => beq_iff_eq
  · exact any_reach_iff (by decide) fun json => Value.compareJson?_isGE_iff
  · exact any_reach_iff (by decide) fun json => beq_iff_eq
  · exact any_reach_iff (by decide) fun json => Value.compareJson?_isLE_iff
  · exact holds_isIn_iff
  · -- the complement is the negation of the membership
    have hnot : (Backend.standard.notIn path values).holds scope =
        !(Backend.standard.isIn path values).holds scope := rfl
    rw [hnot, Bool.not_eq_true', ← Bool.not_eq_true, holds_isIn_iff]
    exact Iff.rfl

end Operator

/-! ### Entries of a map -/

namespace Scope

/-- A path that leads on from the path of an entry starts at the element of the entry. -/
theorem reach_enter (scope : Scope) (path : Path) (element : Json) (names : List String) :
    (scope.enter path element).reach ⟨path.segments ++ names⟩ = element.reach names := by
  simp [reach, enter]

end Scope

/-- The path to the values of the entries of a map. -/
theorem Selection.segments_valuePath {selection : Selection} {keyMember : String}
    {valueMember : Option String} {type : ValueType}
    (hkind : selection.field.kind = .map keyMember valueMember type) :
    selection.valuePath.segments = selection.path.segments ++ valueMember.toList := by
  simp only [valuePath, Field.valueMember?, hkind]
  cases valueMember <;> simp

/-- An entry with a key is one at the path that has the key and satisfies the leaf itself. -/
theorem Backend.holds_mapEntry_iff {path : Path} {keyMember key : String} {leaf : Predicate}
    {document : Json} :
    (Backend.standard.mapEntry path
        (Backend.standard.equal (path.child keyMember) (.string key)) leaf).holds
          ⟨document, none⟩ = true ↔
      ∃ entry, ReachedAlong entry path.segments document ∧
        ReachedAlong (.string key) [keyMember] entry ∧
        leaf.holds (Scope.enter ⟨document, none⟩ path entry) = true := by
  have hkey : ∀ entry, (Predicate.equal (path.child keyMember) (.string key)).holds
      (Scope.enter ⟨document, none⟩ path entry) = true ↔
        ReachedAlong (.string key) [keyMember] entry := by
    intro entry
    rw [Predicate.holds, List.any_eq_true, Path.child, Scope.reach_enter, ← mem_reach_iff]
    constructor
    · rintro ⟨found, hfound, hequals⟩
      exact Value.equalsJson_string_iff.mp hequals ▸ hfound
    · exact fun hfound => ⟨_, hfound, Value.equalsJson_string_iff.mpr rfl⟩
  change (Predicate.entry path (.and [.equal (path.child keyMember) (.string key), leaf])).holds
    ⟨document, none⟩ = true ↔ _
  rw [Predicate.holds, List.any_eq_true]
  refine exists_congr fun entry => and_congr mem_reach_iff ?_
  rw [Predicate.holds, Predicate.holdAll_eq_all]
  simp only [List.all_cons, List.all_nil, Bool.and_true, Bool.and_eq_true, hkey]

/-- The predicate of a comparison selects the documents in which the comparison holds. -/
theorem Comparison.holds_compile_iff {schema : Schema} {c : Comparison} {p : Predicate}
    (h : c.compile .standard schema = .ok (some p)) (document : Json) :
    p.holds ⟨document, none⟩ = true ↔ c.Holds schema document := by
  obtain ⟨selection, values, hselect, -, hvalues, hcompiled⟩ := compile_eq_ok_iff.mp h
  obtain ⟨leaf, hleaf, rfl⟩ := Option.map_eq_some_iff.mp hcompiled.symm
  rcases Schema.key?_cases hselect with ⟨hkey, -⟩ | ⟨keyMember, valueMember, type, key, hkind, hkey⟩
  · -- without a key, the values are looked for in the document itself
    have hfound : ∀ json, json ∈ Scope.reach ⟨document, none⟩ selection.valuePath ↔
        ReachedAlong json selection.path.segments document := fun json => by
      rw [Schema.valuePath_of_key?_eq_none hselect hkey, ← mem_reach_iff]
      rfl
    rw [Backend.bindEntry_of_key?_eq_none hkey, Operator.holds_operation?_iff hleaf,
      funext fun json => propext (hfound json), holds_plain_iff hselect hkey hvalues]
  · -- with a key, both the key and the values are looked for in one and the same entry
    have hfound : ∀ entry json,
        json ∈ (Scope.enter ⟨document, none⟩ selection.path entry).reach selection.valuePath ↔
          ReachedAlong json valueMember.toList entry := fun entry json => by
      rw [← mem_reach_iff, ← Scope.reach_enter ⟨document, none⟩ selection.path,
        ← selection.segments_valuePath hkind]
    rw [Backend.bindEntry, hkey, Backend.holds_mapEntry_iff,
      holds_entry_iff hselect hkey hkind hvalues]
    simp only [Operator.holds_operation?_iff hleaf, hfound]

/-!
### The conditions of queries

A member with an unknown operator contributes nothing, so the conditions correspond to the members
that contribute. The correspondence is by position, since a group keeps the order.
-/

namespace Query

variable {schema : Schema} {query : Query} {queries : List Query} {predicate : Predicate}
  {predicates : List Predicate} {document : Json}

/-- The predicate holds in the documents in which the query does. -/
def Agrees (schema : Schema) (query : Query) (predicate : Predicate) : Prop :=
  ∀ document, predicate.holds ⟨document, none⟩ = true ↔ query.Holds schema document

/-- All conditions hold if all members do. -/
theorem holdAll_iff (h : List.Forall₂ (Agrees schema) queries predicates) :
    Predicate.holdAll predicates ⟨document, none⟩ = true ↔
      ∀ query ∈ queries, query.Holds schema document := by
  induction h with
  | nil => simp [Predicate.holdAll]
  | cons hagrees _ ih =>
    rw [Predicate.holdAll, Bool.and_eq_true, hagrees document, ih, List.forall_mem_cons]

/-- Some condition holds if some member does. -/
theorem holdAny_iff (h : List.Forall₂ (Agrees schema) queries predicates) :
    Predicate.holdAny predicates ⟨document, none⟩ = true ↔
      ∃ query ∈ queries, query.Holds schema document := by
  induction h with
  | nil => simp [Predicate.holdAny]
  | cons hagrees _ ih =>
    rw [Predicate.holdAny, Bool.or_eq_true, hagrees document, ih]
    simp only [List.mem_cons, exists_eq_or_imp]

/-- A conjunction agrees with the conjunction of the predicates that its members contribute. -/
theorem agrees_and {members : List Query}
    (h : List.Forall₂ (Agrees schema) (members.filter contributes) predicates) :
    Agrees schema (and members) (Backend.standard.group .and predicates) := by
  intro document
  have hgroup : (Backend.standard.group .and predicates).holds ⟨document, none⟩ =
      Predicate.holdAll predicates ⟨document, none⟩ := by
    cases predicates <;> rfl
  rw [hgroup, holdAll_iff h]
  simp only [List.mem_filter, and_imp]
  constructor
  · exact .and
  · intro hholds
    cases hholds
    assumption

/-- A disjunction agrees with the disjunction of the predicates that its members contribute. -/
theorem agrees_or {members : List Query}
    (h : List.Forall₂ (Agrees schema) (members.filter contributes) predicates) :
    Agrees schema (or members) (Backend.standard.group .or predicates) := by
  intro document
  -- without conditions the group holds everywhere, and no member can make it fail
  by_cases hempty : predicates = []
  · subst hempty
    have hnone : members.filter contributes = [] := List.forall₂_nil_right_iff.mp h
    refine iff_of_true rfl (.or_empty fun member hmember => ?_)
    exact Bool.eq_false_iff.mpr (List.filter_eq_nil_iff.mp hnone member hmember)
  · have hgroup : (Backend.standard.group .or predicates).holds ⟨document, none⟩ =
        Predicate.holdAny predicates ⟨document, none⟩ := by
      cases predicates with
      | nil => exact absurd rfl hempty
      | cons => rfl
    rw [hgroup, holdAny_iff h]
    constructor
    · rintro ⟨member, hmember, hholds⟩
      obtain ⟨hmember, hcontributes⟩ := List.mem_filter.mp hmember
      exact .or hmember hcontributes hholds
    · intro hholds
      cases hholds with
      | or hmember hcontributes hholds =>
        exact ⟨_, List.mem_filter.mpr ⟨hmember, hcontributes⟩, hholds⟩
      | or_empty hnone =>
        have hfilter : members.filter contributes = [] :=
          List.filter_eq_nil_iff.mpr fun member hmember =>
            Bool.eq_false_iff.mp (hnone member hmember)
        rw [hfilter] at h
        exact absurd (List.forall₂_nil_left_iff.mp h) hempty

/-- A query that contributes has one condition, which agrees with it; any other has none. -/
theorem forall₂_conditions (h : query.conditions .standard schema = .ok predicates) :
    List.Forall₂ (Agrees schema) ([query].filter contributes) predicates := by
  -- the statement is about lists of queries, so that the members of a group are an instance
  refine conditions_induction (motive := fun queries predicates =>
    List.Forall₂ (Agrees schema) (queries.filter contributes) predicates)
    ?nil ?cons ?comparison ?and ?or h
  case nil => exact .nil
  case cons =>
    intro member members first rest hfirst hrest
    rw [← List.singleton_append, List.filter_append]
    exact List.rel_append hfirst hrest
  case comparison =>
    intro c compiled hcompiled
    have hsome : compiled.isSome = contributes (comparison c) :=
      Comparison.isSome_of_compile hcompiled
    cases compiled with
    | none =>
      rw [List.filter_cons_of_neg (by simp [← hsome])]
      exact .nil
    | some predicate =>
      rw [List.filter_cons_of_pos (by simp [← hsome])]
      refine .cons (fun document => ?_) .nil
      rw [Comparison.holds_compile_iff hcompiled]
      constructor
      · exact .comparison
      · intro hholds
        cases hholds
        assumption
  case and => exact fun _ _ hmembers => .cons (agrees_and hmembers) .nil
  case or => exact fun _ _ hmembers => .cons (agrees_or hmembers) .nil

/-- The predicate of a query that contributes is one condition that agrees with the query. -/
theorem agrees_of_compile (hcontributes : query.contributes = true)
    (h : query.compile .standard schema = .ok predicate) : Agrees schema query predicate := by
  obtain ⟨predicates, hpredicates, h⟩ := bind_eq_ok_iff.mp h
  have hagrees := forall₂_conditions hpredicates
  rw [List.filter_cons_of_pos hcontributes] at hagrees
  obtain ⟨only, rest, honly, hrest, rfl⟩ := List.forall₂_cons_left_iff.mp hagrees
  cases List.forall₂_nil_left_iff.mp hrest
  cases h
  exact honly

/-- **The meaning of queries.** The predicate of a query selects the documents that satisfy the
query. -/
theorem selects_iff (h : query.compile .standard schema = .ok predicate) (document : Json) :
    predicate.selects document = true ↔ query.Selects schema document := by
  obtain ⟨predicates, hpredicates, h⟩ := bind_eq_ok_iff.mp h
  -- the query has one condition that agrees with it, or none if it does not contribute
  have hagrees := forall₂_conditions hpredicates
  cases hcontributes : query.contributes with
  | true =>
    rw [List.filter_cons_of_pos hcontributes] at hagrees
    obtain ⟨only, rest, honly, hrest, rfl⟩ := List.forall₂_cons_left_iff.mp hagrees
    cases List.forall₂_nil_left_iff.mp hrest
    cases h
    rw [Predicate.selects, honly document]
    exact ⟨fun hholds _ => hholds, fun hselects => hselects hcontributes⟩
  | false =>
    rw [List.filter_cons_of_neg (by simp [hcontributes])] at hagrees
    cases List.forall₂_nil_left_iff.mp hagrees
    cases h
    exact iff_of_true rfl fun htrue => absurd htrue (by simp [hcontributes])

/-- The complement of a membership is asked of each entry of a map by itself, and the comparison
with an unknown operator does not count. -/
theorem selects_iff_attribute : ∃ predicate : Predicate,
    Query.compile .standard Schema.target
        (.and [.comparison ⟨"attribute.os", .notIn, ["linux"]⟩,
          .comparison ⟨"name", .other "=x=", ["a"]⟩]) = .ok predicate ∧
      Query.Selects Schema.target
        (.and [.comparison ⟨"attribute.os", .notIn, ["linux"]⟩,
          .comparison ⟨"name", .other "=x=", ["a"]⟩])
        (.object [("controllerAttributes", .array [
          .object [("key", .string "os"), ("value", .string "linux")],
          .object [("key", .string "os"), ("value", .string "bsd")]])]) := by
  refine ⟨_, rfl, (selects_iff rfl _).mp ?_⟩
  decide +kernel

end Query

end FilterQuery
