import FilterQuery.Proofs.SingleComparison

/-!
# Membership and its complement

A membership and its complement are rejected for the same reasons. Where they are compiled, one of
them asks for a value of the list in some range of values, the other for a range without such a
value (`Query.selects_membership_iff`).

* **Ranges.** Both are compared with the same **ranges** of values, in which a comparison looks. The
  complement negates its question inside a range, and both ask for some range.
* **Outside of maps** there is one range, of all the values that are reached, so a document is
  selected by just one of the two (`findsOutside_iff_of_existsUnique`).
* **In a map** there is a range for each entry that has the key: a document without such an entry is
  selected by neither, and a document with several may be selected by both. The complement leaves a
  document out if every entry with the key has a value of the list, be it one value among several.
-/

namespace FilterQuery

open Json

variable {schema : Schema} {selection : Selection} {selector : String} {values : List Value}
  {document : Json}

namespace Operator

theorem satisfied_notIn_iff {found : Json → Prop} :
    notIn.Satisfied values found ↔ ¬ isIn.Satisfied values found :=
  Iff.rfl

end Operator

/-! ### Ranges with and without a value -/

namespace Selection

/-- Some range has a value of the list. -/
def FindsWithin (selection : Selection) (values : List Value) (document : Json) : Prop :=
  ∃ range, selection.Ranges document range ∧ Operator.isIn.Satisfied values range

/-- Some range has no value of the list. -/
def FindsOutside (selection : Selection) (values : List Value) (document : Json) : Prop :=
  ∃ range, selection.Ranges document range ∧ Operator.notIn.Satisfied values range

/-- A range has a value of the list or has none. -/
theorem findsWithin_or_findsOutside_iff :
    selection.FindsWithin values document ∨ selection.FindsOutside values document ↔
      ∃ range, selection.Ranges document range := by
  unfold FindsWithin FindsOutside
  simp only [Operator.satisfied_notIn_iff, ← exists_or, ← and_or_left, em, and_true]

/-- No range is without a value of the list if each of them has one. -/
theorem not_findsOutside_iff : ¬ selection.FindsOutside values document ↔
    ∀ range, selection.Ranges document range → Operator.isIn.Satisfied values range := by
  unfold FindsOutside
  simp only [Operator.satisfied_notIn_iff, not_exists, not_and, not_not]

/-- Where there is one range, it either has a value of the list or has none. -/
theorem findsOutside_iff_of_existsUnique (h : ∃! range, selection.Ranges document range) :
    selection.FindsOutside values document ↔ ¬ selection.FindsWithin values document := by
  obtain ⟨range, hrange, hunique⟩ := h
  have hranges : ∀ other, selection.Ranges document other ↔ other = range := fun other =>
    ⟨hunique other, fun heq => heq ▸ hrange⟩
  unfold FindsOutside FindsWithin
  simp only [hranges, exists_eq_left, Operator.satisfied_notIn_iff]

/-! ### The ranges of a map -/

variable {key : MapKey}

/-- There is a range for each entry with the key. -/
theorem exists_ranges_iff (hkey : selection.key? = some key) :
    (∃ range, selection.Ranges document range) ↔ ∃ entry, selection.HasEntry document entry := by
  simp only [ranges_iff_of_key?_eq_some hkey]
  constructor
  · rintro ⟨-, entry, hentry, -⟩
    exact ⟨entry, hentry⟩
  · rintro ⟨entry, hentry⟩
    exact ⟨_, entry, hentry, rfl⟩

/-- One entry with the key makes one range. -/
theorem existsUnique_ranges (hkey : selection.key? = some key)
    (h : ∃! entry, selection.HasEntry document entry) :
    ∃! range, selection.Ranges document range := by
  obtain ⟨entry, hentry, hunique⟩ := h
  refine ⟨_, .entry hentry, fun range hrange => ?_⟩
  obtain ⟨other, hother, rfl⟩ := (ranges_iff_of_key?_eq_some hkey).mp hrange
  rw [hunique other hother]

/-- In a map the ranges are the entries with the key. -/
theorem not_findsOutside_iff_of_key?_eq_some (hkey : selection.key? = some key) :
    ¬ selection.FindsOutside values document ↔
      ∀ entry, selection.HasEntry document entry →
        ∃ json, selection.ValueIn entry json ∧ ∃ value ∈ values, value.equalsJson json = true := by
  rw [not_findsOutside_iff]
  simp only [ranges_iff_of_key?_eq_some hkey]
  constructor
  · exact fun h entry hentry => h _ ⟨entry, hentry, rfl⟩
  · rintro h _ ⟨entry, hentry, rfl⟩
    exact h entry hentry

end Selection

/-! ### Comparisons -/

namespace Query

/-- A membership and its complement are rejected for the selector, for the lack of an argument or
for an argument of the list. -/
theorem compile_membership_eq_error_iff {arguments : List String} {op : Operator} {e : Rejection}
    (hop : op = .isIn ∨ op = .notIn) :
    Query.compile .standard schema (.comparison ⟨selector, op, arguments⟩) = .error e ↔
      (schema.select selector >>= fun selection =>
        if arguments = [] then .error (.missingArgument selector)
        else arguments.mapM (selection.coerce selector)) = .error e := by
  rw [← outcome_eq_error_iff, outcome_compile_comparison, Comparison.outcome_compile,
    outcome_eq_error_iff]
  simp only [Comparison.values_membership hop]

/-- **Memberships.** A membership and its complement reject the same arguments with the same
rejections, and where each argument has a value, both compile with the values in the order of the
arguments. On a field that is not a map, the complement selects the documents that the membership
does not. On a map, the two together select the documents that have an entry with the key. The
complement leaves out those in which every such entry has a value of the list, so if there is one
such entry, just one of the two selects the document. -/
theorem selects_membership_iff :
    (∀ (arguments : List String) (e : Rejection),
      Query.compile .standard schema (.comparison ⟨selector, .isIn, arguments⟩) = .error e ↔
        Query.compile .standard schema (.comparison ⟨selector, .notIn, arguments⟩) = .error e) ∧
    ∀ (selection : Selection) (arguments : List String) (values : List Value),
      schema.select selector = .ok selection → arguments ≠ [] →
      arguments.mapM (selection.coerce selector) = .ok values →
      ∃ within outside : Predicate,
        Query.compile .standard schema (.comparison ⟨selector, .isIn, arguments⟩) = .ok within ∧
        Query.compile .standard schema (.comparison ⟨selector, .notIn, arguments⟩) = .ok outside ∧
        ∀ document,
          (selection.key? = none →
            (outside.selects document = true ↔ ¬ within.selects document = true)) ∧
          ∀ key, selection.key? = some key →
            (within.selects document = true ∨ outside.selects document = true ↔
              ∃ entry, selection.HasEntry document entry) ∧
            (¬ outside.selects document = true ↔
              ∀ entry, selection.HasEntry document entry →
                ∃ json, selection.ValueIn entry json ∧
                  ∃ value ∈ values, value.equalsJson json = true) ∧
            ((∃! entry, selection.HasEntry document entry) →
              (outside.selects document = true ↔ ¬ within.selects document = true)) := by
  constructor
  · exact fun arguments e => (compile_membership_eq_error_iff (.inl rfl)).trans
      (compile_membership_eq_error_iff (.inr rfl)).symm
  · intro selection arguments values hselect harguments hcoerced
    obtain ⟨within, hwithin, hfindsWithin⟩ :=
      exists_compile_membership hselect (.inl rfl) harguments hcoerced
    obtain ⟨outside, houtside, hfindsOutside⟩ :=
      exists_compile_membership hselect (.inr rfl) harguments hcoerced
    refine ⟨within, outside, hwithin, houtside, fun document => ?_⟩
    have hone : (∃! range, selection.Ranges document range) →
        (outside.selects document = true ↔ ¬ within.selects document = true) := fun h =>
      (hfindsOutside document).trans
        ((Selection.findsOutside_iff_of_existsUnique h).trans
          (not_congr (hfindsWithin document)).symm)
    constructor
    · intro hkey
      refine hone ⟨_, .path hkey, fun range hrange => ?_⟩
      exact (Selection.ranges_iff_of_key?_eq_none hkey).mp hrange
    · intro key hkey
      refine ⟨?_, ?_, fun h => hone (Selection.existsUnique_ranges hkey h)⟩
      · rw [hfindsWithin, hfindsOutside]
        exact Selection.findsWithin_or_findsOutside_iff.trans (Selection.exists_ranges_iff hkey)
      · rw [hfindsOutside]
        exact Selection.not_findsOutside_iff_of_key?_eq_some hkey

/-- A target with one operating system is selected by just one of the two. -/
theorem selects_membership_iff_attribute : ∃ within outside : Predicate,
    Query.compile .standard Schema.target (.comparison ⟨"attribute.os", .isIn, ["linux"]⟩) =
      .ok within ∧
    Query.compile .standard Schema.target (.comparison ⟨"attribute.os", .notIn, ["linux"]⟩) =
      .ok outside ∧
    (outside.selects (.object [("controllerAttributes", .array [
        .object [("key", .string "os"), ("value", .string "bsd")],
        .object [("key", .string "host"), ("value", .string "linux")]])]) = true ↔
      ¬ within.selects (.object [("controllerAttributes", .array [
        .object [("key", .string "os"), ("value", .string "bsd")],
        .object [("key", .string "host"), ("value", .string "linux")]])]) = true) := by
  obtain ⟨within, outside, hwithin, houtside, hselects⟩ :=
    (@selects_membership_iff Schema.target "attribute.os").2 _ ["linux"] _
      select_target_attribute (by simp) rfl
  refine ⟨within, outside, hwithin, houtside, ((hselects _).2 _ rfl).2.2 ?_⟩
  have hitem : Json.object [("key", .string "os"), ("value", .string "bsd")] ∈
      [Json.object [("key", .string "os"), ("value", .string "bsd")],
        .object [("key", .string "host"), ("value", .string "linux")]] := List.mem_cons_self
  have hos : Json.string "os" ∈ [Json.string "os"] := List.mem_cons_self
  refine ⟨_, ⟨mem_reach_iff.mp hitem, _, rfl, _, rfl, mem_reach_iff.mp hos⟩, ?_⟩
  rintro entry ⟨hentry, _, ⟨⟩, _, ⟨⟩, hkey⟩
  have hitems : entry ∈ [Json.object [("key", .string "os"), ("value", .string "bsd")],
      .object [("key", .string "host"), ("value", .string "linux")]] := mem_reach_iff.mpr hentry
  simp only [List.mem_cons, List.not_mem_nil, or_false] at hitems
  rcases hitems with rfl | rfl
  · rfl
  · have hhost : Json.string "os" ∈ [Json.string "host"] := mem_reach_iff.mpr hkey
    simp at hhost

end Query

end FilterQuery
