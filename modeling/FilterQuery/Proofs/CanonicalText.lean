import FilterQuery.Proofs.Failure
import FilterQuery.Proofs.Meaning
import FilterQuery.Proofs.RoundTrip

/-!
# The meaning of a text

A query is read from its own text in normal form only, so the text compiles to another predicate
than the query does. Normal forms keep the comparisons and their order, hence the first rejection.
They also keep what a query means, provided that its groups have members and its operators are
known. So a query and its text are rejected for the same reason, or they select the same documents
(`Query.selects_text_iff`).

* **Groups** are combined by their connective (`Connective.Combines`). A group of one member asks
  what the member does (`combines_singleton`), and a group of groups by one connective asks the same
  of all their members (`combines_flatMap`). These two facts are the two ways in which a normal form
  differs from its query.
* **Normal forms.** By induction over the query, its normal form has the same meaning
  (`Query.holds_normalize_iff`).
* **Texts.** The text is read back as the normal form, and both compile to what they mean, so the
  result is a chain of equivalences from the text to the query.

Both provisos are needed for this: an empty group always holds, and an unknown operator counts in
no group, so that a disjunction of such a comparison holds although the comparison has no meaning.
-/

namespace FilterQuery

namespace Connective

/-- All of some queries have the property, or any of them, according to the connective. -/
def Combines : Connective → (Query → Prop) → List Query → Prop
  | .and, property, members => ∀ member ∈ members, property member
  | .or, property, members => ∃ member ∈ members, property member

variable {connective : Connective} {property other : Query → Prop} {members : List Query}

theorem combines_singleton {query : Query} :
    connective.Combines property [query] ↔ property query := by
  cases connective
  · exact List.forall_mem_singleton
  · simp [Combines]

/-- Combining the members of groups is combining the groups. -/
theorem combines_flatMap {f : Query → List Query} :
    connective.Combines property (members.flatMap f) ↔
      connective.Combines (fun member => connective.Combines property (f member)) members := by
  cases connective
  · exact List.forall_mem_flatMap
  · simp only [Combines, List.mem_flatMap]
    constructor
    · rintro ⟨part, ⟨member, hmember, hpart⟩, h⟩
      exact ⟨member, hmember, part, hpart, h⟩
    · rintro ⟨member, hmember, part, hpart, h⟩
      exact ⟨part, ⟨member, hmember, hpart⟩, h⟩

theorem combines_congr (h : ∀ member ∈ members, property member ↔ other member) :
    connective.Combines property members ↔ connective.Combines other members := by
  cases connective
  · exact forall₂_congr h
  · exact exists_congr fun member => and_congr_right fun hmember => h member hmember

end Connective

namespace Query

variable {schema : Schema} {document : Json} {connective : Connective} {query : Query}
  {members : List Query}

/-! ### Queries with known operators -/

/-- All comparisons of the query have operators that are known. -/
def IsKnown (query : Query) : Prop := ∀ c ∈ query.leaves, c.operator.isOther = false

/-- A query with known operators contributes to its group. -/
theorem IsKnown.contributes (h : query.IsKnown) : query.contributes = true := by
  cases query with
  | comparison c =>
    have hknown : c.operator.isOther = false := h c (List.mem_singleton_self c)
    rw [Query.contributes, hknown, Bool.not_false]
  | and members | or members => rfl

theorem IsKnown.of_mem (h : (group connective members).IsKnown) {member : Query}
    (hmember : member ∈ members) : member.IsKnown := by
  intro c hc
  cases connective <;> exact h c (mem_leavesOf hmember hc)

theorem IsKnown.of_mem_parts (h : query.IsKnown) {part : Query}
    (hpart : part ∈ parts connective query) : part.IsKnown := fun c hc =>
  h c (@leavesOf_parts connective query ▸ mem_leavesOf hpart hc)

theorem IsKnown.normalize (h : query.IsKnown) : query.normalize.IsKnown := by
  unfold IsKnown
  rwa [leaves_normalize]

/-! ### Meanings of normal forms -/

/-- A group of members that contribute combines what they mean. -/
theorem holds_group_iff (hne : members ≠ [])
    (h : ∀ member ∈ members, member.contributes = true) :
    (group connective members).Holds schema document ↔
      connective.Combines (Holds schema document) members := by
  cases connective with
  | and =>
    constructor
    · rintro (_ | hall) member hmember
      exact hall member hmember (h member hmember)
    · exact fun hall => .and fun member hmember _ => hall member hmember
  | or =>
    constructor
    · rintro (_ | _ | ⟨hmember, -, hholds⟩ | hnone)
      · exact ⟨_, hmember, hholds⟩
      · obtain ⟨member, hmember⟩ := List.exists_mem_of_ne_nil members hne
        cases (hnone member hmember).symm.trans (h member hmember)
    · rintro ⟨member, hmember, hholds⟩
      exact .or hmember (h member hmember) hholds

/-- A group that is left out if it has one member combines its members all the same. -/
theorem holds_collapse_iff (hne : members ≠ [])
    (h : ∀ member ∈ members, member.contributes = true) :
    (collapse connective members).Holds schema document ↔
      connective.Combines (Holds schema document) members := by
  match members, hne with
  | [query], _ => exact Connective.combines_singleton.symm
  | first :: second :: rest, hne =>
    rw [collapse_of_two_le (by simp)]
    exact holds_group_iff hne h

/-- The parts of a normal query mean together what the query does. -/
theorem IsNormal.combines_parts_iff (hnormal : query.IsNormal) (hknown : query.IsKnown) :
    connective.Combines (Holds schema document) (parts connective query) ↔
      query.Holds schema document := by
  have hcontributes : ∀ part ∈ parts connective query, part.contributes = true :=
    fun part hpart => (hknown.of_mem_parts hpart).contributes
  rw [← holds_collapse_iff hnormal.parts_ne_nil hcontributes, hnormal.collapse_parts]

/-- A group has the meaning of its normal form if its members have those of theirs. -/
theorem holds_normalize_group_iff (hne : members ≠ [])
    (hnormal : ∀ member ∈ members, member.normalize.IsNormal)
    (hknown : (group connective members).IsKnown)
    (h : ∀ member ∈ members,
      member.normalize.Holds schema document ↔ member.Holds schema document) :
    (group connective members).normalize.Holds schema document ↔
      (group connective members).Holds schema document := by
  have hcontributes : ∀ part ∈ normalizeParts connective members, part.contributes = true := by
    intro part hpart
    rw [normalizeParts_eq_flatMap] at hpart
    obtain ⟨member, hmember, hpart⟩ := List.mem_flatMap.mp hpart
    exact ((hknown.of_mem hmember).normalize.of_mem_parts hpart).contributes
  -- the parts of the members are put together, and taken apart again by the member they are from
  calc (group connective members).normalize.Holds schema document
    _ ↔ connective.Combines (Holds schema document) (normalizeParts connective members) := by
      rw [normalize_group,
        holds_collapse_iff (normalizeParts_ne_nil hne hnormal) hcontributes]
    _ ↔ connective.Combines (fun member => connective.Combines (Holds schema document)
          (parts connective member.normalize)) members := by
      rw [normalizeParts_eq_flatMap, Connective.combines_flatMap]
    _ ↔ connective.Combines (Holds schema document) members :=
      Connective.combines_congr fun member hmember =>
        ((hnormal member hmember).combines_parts_iff (hknown.of_mem hmember).normalize).trans
          (h member hmember)
    _ ↔ (group connective members).Holds schema document :=
      (holds_group_iff hne fun member hmember => (hknown.of_mem hmember).contributes).symm

/-- **Normal forms mean the same.** A query with known operators, whose groups have members, holds
where its normal form does. -/
theorem holds_normalize_iff {kind : Comparison → Prop} (h : query.ComposedOf kind)
    (hknown : query.IsKnown) :
    query.normalize.Holds schema document ↔ query.Holds schema document := by
  induction h with
  | comparison _ => exact Iff.rfl
  | @and members hne hmembers ih =>
    have hgroup : (group .and members).IsKnown := hknown
    exact holds_normalize_group_iff hne
      (fun member hmember => isNormal_normalize (hmembers member hmember)) hgroup
      fun member hmember => ih member hmember (hgroup.of_mem hmember)
  | @or members hne hmembers ih =>
    have hgroup : (group .or members).IsKnown := hknown
    exact holds_normalize_group_iff hne
      (fun member hmember => isNormal_normalize (hmembers member hmember)) hgroup
      fun member hmember => ih member hmember (hgroup.of_mem hmember)

/-! ### Texts -/

/-- The text of a well-formed query is compiled as its normal form. -/
theorem compileText_text (h : query.IsWellFormed) :
    compileText .standard schema query.text = query.normalize.compile .standard schema := by
  rw [compileText, h.ofText_text]

/-- A query and its normal form are rejected alike. -/
theorem outcome_compile_normalize : outcome (query.normalize.compile .standard schema) =
    outcome (query.compile .standard schema) := by
  rw [outcome_compile, outcome_compile, outcome_conditions, outcome_conditions, leaves_normalize]

/-- **The meaning of a text.** A well-formed query with known operators and its own text are
rejected for the same reason, or both compile and select the same documents. -/
theorem selects_text_iff (hwell : query.IsWellFormed) (hknown : query.IsKnown) :
    (∃ e, query.compile .standard schema = .error e ∧
      compileText .standard schema query.text = .error e) ∨
    ∃ direct read : Predicate, query.compile .standard schema = .ok direct ∧
      compileText .standard schema query.text = .ok read ∧
      ∀ document, read.selects document = direct.selects document := by
  rw [compileText_text hwell]
  cases hdirect : query.compile .standard schema with
  | error e =>
    -- both are rejected or none, since the outcome of a query is that of its normal form
    refine .inl ⟨e, rfl, ?_⟩
    rw [← outcome_eq_error_iff, outcome_compile_normalize, hdirect, outcome_eq_error_iff]
  | ok direct =>
    cases hread : query.normalize.compile .standard schema with
    | error e =>
      rw [← outcome_eq_error_iff, outcome_compile_normalize, hdirect, outcome_eq_error_iff] at hread
      cases hread
    | ok read =>
      refine .inr ⟨direct, read, rfl, rfl, fun document => Bool.eq_iff_iff.mpr ?_⟩
      calc read.selects document = true
        _ ↔ query.normalize.Holds schema document :=
          agrees_of_compile hknown.normalize.contributes hread document
        _ ↔ query.Holds schema document := holds_normalize_iff hwell hknown
        _ ↔ direct.selects document = true :=
          (agrees_of_compile hknown.contributes hdirect document).symm

/-- Groups of one member are left out of the text, and arguments are quoted in it. -/
theorem selects_text_iff_nested : ∃ direct read : Predicate,
    Query.compile .standard Schema.target
        (.and [.and [.comparison ⟨"attribute.os", .notIn, ["linux", "b d"]⟩],
          .or [.comparison ⟨"name", .equal, ["it's"]⟩]]) = .ok direct ∧
    compileText .standard Schema.target "attribute.os=out=(linux,'b d');(name=='it\\'s')" =
      .ok read ∧
    ∀ document, read.selects document = direct.selects document := by
  have hos : Comparison.IsWritable ⟨"attribute.os", .notIn, ["linux", "b d"]⟩ :=
    ⟨by decide, forall_isReserved_eq_false rfl, trivial, List.cons_ne_nil _ _,
      .inl (.inr (.inl rfl))⟩
  have hname : Comparison.IsWritable ⟨"name", .equal, ["it's"]⟩ :=
    ⟨by decide, forall_isReserved_eq_false rfl, trivial, List.cons_ne_nil _ _, .inr rfl⟩
  have hwell : IsWellFormed (.and [.and [.comparison ⟨"attribute.os", .notIn, ["linux", "b d"]⟩],
      .or [.comparison ⟨"name", .equal, ["it's"]⟩]]) := by
    refine .and (List.cons_ne_nil _ _) ?_
    simp only [List.forall_mem_cons, List.not_mem_nil, false_imp_iff, implies_true, and_true]
    refine ⟨.and (List.cons_ne_nil _ _) ?_, .or (List.cons_ne_nil _ _) ?_⟩
    · simpa using .comparison hos
    · simpa using .comparison hname
  have hknown : IsKnown (.and [.and [.comparison ⟨"attribute.os", .notIn, ["linux", "b d"]⟩],
      .or [.comparison ⟨"name", .equal, ["it's"]⟩]]) := by
    simp [IsKnown, leaves, leavesOf, Operator.isOther]
  have htext : Query.text (.and [.and [.comparison ⟨"attribute.os", .notIn, ["linux", "b d"]⟩],
      .or [.comparison ⟨"name", .equal, ["it's"]⟩]]) =
        "attribute.os=out=(linux,'b d');(name=='it\\'s')" := by
    decide
  rcases @selects_text_iff Schema.target _ hwell hknown with ⟨e, herror, -⟩ | hselects
  · cases herror
  · exact htext ▸ hselects

/-- An unknown operator does not count in its group, so a document without a name is selected
although it is not by the normal form. -/
example : ∃ direct read : Predicate,
    Query.compile .standard Schema.target
      (.or [.or [.comparison ⟨"name", .other "=x=", ["a"]⟩],
        .comparison ⟨"name", .equal, ["b"]⟩]) = .ok direct ∧
    Query.compile .standard Schema.target
      (Query.normalize (.or [.or [.comparison ⟨"name", .other "=x=", ["a"]⟩],
        .comparison ⟨"name", .equal, ["b"]⟩])) = .ok read ∧
    direct.selects (.object []) = true ∧ read.selects (.object []) = false := by
  exact ⟨_, _, rfl, rfl, rfl, rfl⟩

end Query

end FilterQuery
