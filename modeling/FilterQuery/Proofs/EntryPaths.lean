import FilterQuery.Proofs.Meaning
import FilterQuery.Proofs.PredicateTree
import FilterQuery.Proofs.Reaching

/-!
# An entry on the way

To go along a path is to go along its first names and from there along the others. So a question
about what a path leads to may be asked in two stages: an entry binds what the first names lead to,
and the question is asked of the element that is bound. Since the answer is yes if it is for any
value that is reached, the two stages give the same answer.

* **Composition.** What the whole path reaches is reached from the elements that its first names
  reach. An element that is an array or `null` is never bound, and nothing is lost by it: arrays are
  looked into on the way, and nothing is reached from `null`.
* **Where it is asked.** Outside of all entries the first names are followed in the document. Inside
  an entry of another path they are so too; inside one whose path they continue they are followed
  from its element, and so is the whole path.
* **The exception.** If the path of the outer entry ends **between** the first names and the end of
  the path, the whole path leads on from the element of the outer entry, but the first names alone
  lead on from the document (`Predicate.holds_entry_eq_iff`).
-/

namespace FilterQuery

open Json

variable {boundary segments names : List String} {leaf : Predicate} {accepts : Json → Bool}
  {scope : Scope}

/-- The boundary is the start of a path in two parts and goes beyond the first part. -/
def EndsBetween (boundary segments names : List String) : Prop :=
  boundary <+: segments ++ names ∧ ¬ boundary <+: segments

namespace Scope

/-- From a document, a path goes on where its first names end. -/
theorem reach_append_of_bound?_eq_none (h : scope.bound? = none) :
    scope.reach ⟨segments ++ names⟩ = (scope.reach ⟨segments⟩).flatMap (Json.reach names) := by
  rw [reach, reach, h]
  exact reach_append segments names scope.document

/-- Inside an entry, a path goes on where its first names end if the path of the entry does not end
between. -/
theorem reach_append_of_not_endsBetween {document element : Json}
    (h : ¬ EndsBetween boundary segments names) :
    (Scope.mk document (some (boundary, element))).reach ⟨segments ++ names⟩ =
      ((Scope.mk document (some (boundary, element))).reach ⟨segments⟩).flatMap
        (Json.reach names) := by
  by_cases hinside : boundary <+: segments
  · obtain ⟨rest, rfl⟩ := hinside
    simp [reach, List.append_assoc, reach_append]
  · have houtside : ¬ boundary <+: segments ++ names := fun hboundary => h ⟨hboundary, hinside⟩
    simp [reach, hinside, houtside, reach_append]

end Scope

namespace Predicate

/-- Where a path goes on from its first names, a question about it is answered alike in the entry
that binds what they lead to. -/
theorem holds_entry_of_reach (hleaf : leaf.question? = some ⟨⟨segments ++ names⟩, accepts⟩)
    (h : scope.reach ⟨segments ++ names⟩ = (scope.reach ⟨segments⟩).flatMap (Json.reach names)) :
    (entry ⟨segments⟩ leaf).holds scope = leaf.holds scope := by
  have hinner : ∀ element, leaf.holds (scope.enter ⟨segments⟩ element) =
      (element.reach names).any accepts := fun element => by
    rw [holds_of_question? hleaf, scope.reach_enter ⟨segments⟩]
  calc (entry ⟨segments⟩ leaf).holds scope
      = (scope.reach ⟨segments⟩).any fun element =>
          leaf.holds (scope.enter ⟨segments⟩ element) := by rw [holds]
    _ = (scope.reach ⟨segments⟩).any fun element => (element.reach names).any accepts := by
      simp only [hinner]
    _ = (scope.reach ⟨segments ++ names⟩).any accepts := by rw [h, List.any_flatMap]
    _ = leaf.holds scope := (holds_of_question? hleaf scope).symm

/-- Where the path of the outer entry ends between, a document and an element tell the question from
the entry. -/
theorem holds_entry_ne_of_endsBetween (h : EndsBetween boundary segments names) :
    ∃ document element, (entry ⟨segments⟩ (equal ⟨segments ++ names⟩ (.string "x"))).holds
      ⟨document, some (boundary, element)⟩ ≠
        (equal ⟨segments ++ names⟩ (.string "x")).holds ⟨document, some (boundary, element)⟩ := by
  obtain ⟨⟨rest, hrest⟩, hinside⟩ := h
  -- the element has what the path leads to, and the document nothing
  refine ⟨.null, nest rest (.string "x"), ?_⟩
  have hentry : (entry ⟨segments⟩ (equal ⟨segments ++ names⟩ (.string "x"))).holds
      ⟨.null, some (boundary, nest rest (.string "x"))⟩ = false := by
    simp [holds, Scope.reach, hinside, reach_null]
  have hleaf : (equal ⟨segments ++ names⟩ (.string "x")).holds
      ⟨.null, some (boundary, nest rest (.string "x"))⟩ = true := by
    simp [holds, Scope.reach, ← hrest, reach_nest, reach, elements, isNull, Value.equalsJson,
      string?]
  rw [hentry, hleaf]
  decide

/-- **Entries on the way.** Along two lists of names in a row a value reaches what the values along
the first reach along the second, in their order. None of the values is an array or null. So any
question about what both lists lead to has the same answer in an entry at the first list and without
it: outside of all entries always, and inside an entry if its path does not end between. -/
theorem holds_entry_eq_iff (segments names : List String) :
    (∀ value, reach (segments ++ names) value =
      (reach segments value).flatMap (reach names)) ∧
    (∀ value, ∀ found ∈ reach segments value, found.isArray = false ∧ found.isNull = false) ∧
    (∀ leaf accepts, leaf.question? = some ⟨⟨segments ++ names⟩, accepts⟩ → ∀ document,
      (entry ⟨segments⟩ leaf).selects document = leaf.selects document) ∧
    ∀ boundary, (∀ leaf accepts, leaf.question? = some ⟨⟨segments ++ names⟩, accepts⟩ →
        ∀ document element, (entry ⟨segments⟩ leaf).holds ⟨document, some (boundary, element)⟩ =
          leaf.holds ⟨document, some (boundary, element)⟩) ↔
      ¬ EndsBetween boundary segments names := by
  refine ⟨reach_append segments names, fun _ _ => of_mem_reach, fun leaf accepts hleaf document =>
    holds_entry_of_reach hleaf (Scope.reach_append_of_bound?_eq_none rfl), fun boundary =>
      ⟨fun halike hbetween => ?_, fun hnot leaf accepts hleaf document element =>
        holds_entry_of_reach hleaf (Scope.reach_append_of_not_endsBetween hnot)⟩⟩
  obtain ⟨document, element, hne⟩ := holds_entry_ne_of_endsBetween hbetween
  exact hne (halike _ _ rfl document element)

/-- A disk in an array inside an array, between nulls, is found in an entry and without it. -/
theorem holds_entry_eq_iff_disks :
    let document : Json := .object [("disks", .array [.null, .array [.object
      [("kind", .array [.null, .string "swap"])]]])]
    let swap : Predicate := equal ⟨["disks", "kind"]⟩ (.string "swap")
    swap.selects document = true ∧ (entry ⟨["disks"]⟩ swap).selects document = true := by
  intro document swap
  have hselects : swap.selects document = true := by decide +kernel
  exact ⟨hselects,
    ((holds_entry_eq_iff ["disks"] ["kind"]).2.2.1 swap _ rfl document).trans hselects⟩

end Predicate

end FilterQuery
