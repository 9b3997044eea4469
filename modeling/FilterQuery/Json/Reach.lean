import FilterQuery.Json.Basic

/-!
# Values along a path

A path **reaches** the values of a document by member look-up at each step, and every array met on
the way, at the end as well, is expanded into its items. What is reached is thus never an array, and
`null` counts as nothing. Reaching composes: to go along `p ++ q` is to go along `p` and from there
along `q` (`reach_append`).

Arrays in arrays are expanded too, so the **elements** of a value are what is left when all arrays
at its front are opened (`Json.elements`); the elements of a value that is no array are the value
itself. A step looks the member up in each element, and elements without it have no part in the
rest. The values come in the order in which they stand in the document, each as often as it is
there.

* `Json.reach_eq_flatMap_elements`: what a value reaches is what its elements reach.
* `Json.of_mem_reach`: no value that is reached is an array or `null`.
-/

namespace FilterQuery.Json

mutual

/-- The value itself, or the items of an array and of the arrays inside it. -/
def elements : Json → List Json
  | array items => elementsOf items
  | value => [value]

/-- The elements of some values. -/
def elementsOf : List Json → List Json
  | [] => []
  | item :: items => elements item ++ elementsOf items

end

/-- The values that the member names lead to. -/
def reach : List String → Json → List Json
  | [], value => (elements value).filter (!·.isNull)
  | segment :: segments, value =>
    (elements value).flatMap fun element =>
      match element.member? segment with
      | some member => reach segments member
      | none => []

/-- Whether the value is an array. -/
def isArray : Json → Bool
  | array _ => true
  | _ => false

mutual

/-- The elements of a value are no arrays. -/
theorem isArray_of_mem_elements {value element : Json} (h : element ∈ elements value) :
    element.isArray = false := by
  cases value with
  | array items => exact isArray_of_mem_elementsOf (by simpa [elements] using h)
  | _ =>
    simp only [elements, List.mem_singleton] at h
    subst h
    rfl

theorem isArray_of_mem_elementsOf {items : List Json} {element : Json}
    (h : element ∈ elementsOf items) : element.isArray = false := by
  cases items with
  | nil => simp [elementsOf] at h
  | cons item items =>
    rcases List.mem_append.mp (by simpa [elementsOf] using h) with h | h
    · exact isArray_of_mem_elements h
    · exact isArray_of_mem_elementsOf h

end

/-- A value that is no array is its only element. -/
theorem elements_of_not_isArray {value : Json} (h : value.isArray = false) :
    elements value = [value] := by
  cases value with
  | array items => simp [isArray] at h
  | _ => rfl

/-- No value that is reached is an array or `null`. -/
theorem of_mem_reach {segments : List String} {value found : Json}
    (h : found ∈ reach segments value) : found.isArray = false ∧ found.isNull = false := by
  induction segments generalizing value with
  | nil =>
    obtain ⟨hmem, hnull⟩ := List.mem_filter.mp h
    exact ⟨isArray_of_mem_elements hmem, by simpa using hnull⟩
  | cons segment segments ih =>
    obtain ⟨element, -, hfound⟩ := List.mem_flatMap.mp h
    split at hfound
    · exact ih hfound
    · simp at hfound

/-- What a value reaches is what its elements reach. -/
theorem reach_eq_flatMap_elements (segments : List String) (value : Json) :
    reach segments value = (elements value).flatMap (reach segments) := by
  -- what lies in nested arrays is no array, so elements have no further elements
  have hself : ∀ element ∈ elements value, elements element = [element] := fun element h =>
    elements_of_not_isArray (isArray_of_mem_elements h)
  generalize hes : elements value = es at hself
  cases segments with
  | nil =>
    rw [reach, hes]
    clear hes
    induction es with
    | nil => rfl
    | cons e es ih =>
      rw [List.flatMap_cons, ← ih fun e' h => hself e' (List.mem_cons_of_mem _ h), reach,
        hself e List.mem_cons_self, ← List.filter_append, List.singleton_append]
  | cons segment segments =>
    rw [reach, hes]
    clear hes
    induction es with
    | nil => rfl
    | cons e es ih =>
      rw [List.flatMap_cons, List.flatMap_cons,
        ih fun e' h => hself e' (List.mem_cons_of_mem _ h), reach, hself e List.mem_cons_self,
        List.flatMap_singleton]

/-- Nothing is reached from `null`. -/
theorem reach_null (segments : List String) : reach segments null = [] := by
  cases segments <;> rfl

/-- To go along `p ++ q` is to go along `p` and from there along `q`. -/
theorem reach_append (p q : List String) (value : Json) :
    reach (p ++ q) value = (reach p value).flatMap (reach q) := by
  induction p generalizing value with
  | nil =>
    -- along no segment there are only elements that are not null, and nothing is reached from null
    rw [List.nil_append, reach_eq_flatMap_elements, reach]
    induction elements value with
    | nil => rfl
    | cons e es ih =>
      rw [List.flatMap_cons, ih]
      cases e with
      | null => simp [isNull, reach_null]
      | _ => simp [isNull]
  | cons segment p ih =>
    rw [List.cons_append, reach, reach, List.flatMap_assoc]
    congr 1
    funext element
    cases element.member? segment with
    | none => rfl
    | some member => exact ih member

end FilterQuery.Json
