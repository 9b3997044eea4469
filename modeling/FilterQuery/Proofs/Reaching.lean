import FilterQuery.Json.Reach

/-!
# What a path reaches, declaratively

A value is **reached** along some member names if one can get to it by entering arrays, wherever
there are any, and following one name at each object; `null` and arrays themselves are not reached.
The list of the values along a path has just these as its members (`mem_reach_iff`).

* **Arrays** are entered at any depth: what is reached in an array is reached in one of its items,
  which may be an array in its turn.
* **Objects.** A name leads to the first member of the name, and the path ends in the object itself
  where no names are left.
* **Single values.** A document that nests one value along a path reaches that value and no other
  (`reachedAlong_nest_iff`), unless it is an array or `null`.
-/

namespace FilterQuery.Json

/-- The value `found` is reached along the member names. -/
inductive ReachedAlong (found : Json) : List String → Json → Prop where
  | here (harray : found.isArray = false) (hnull : found.isNull = false) :
      ReachedAlong found [] found
  | item {names : List String} {items : List Json} {item : Json} (hitem : item ∈ items)
      (h : ReachedAlong found names item) : ReachedAlong found names (array items)
  | member {name : String} {names : List String} {members : List (String × Json)} {value : Json}
      (hvalue : members.lookup name = some value) (h : ReachedAlong found names value) :
      ReachedAlong found (name :: names) (object members)

theorem elementsOf_eq_flatMap (items : List Json) : elementsOf items = items.flatMap elements := by
  induction items with
  | nil => rfl
  | cons item items ih => rw [elementsOf, ih, List.flatMap_cons]

/-- What an array reaches is what its items reach. -/
theorem reach_array (names : List String) (items : List Json) :
    reach names (array items) = items.flatMap (reach names) := by
  rw [reach_eq_flatMap_elements, elements, elementsOf_eq_flatMap, List.flatMap_assoc]
  congr 1
  funext item
  exact (reach_eq_flatMap_elements names item).symm

variable {found : Json} {names : List String}

mutual

/-- An element of a value reaches no more than the value. -/
theorem reachedAlong_of_mem_elements {value element : Json} (h : element ∈ elements value)
    (hfound : ReachedAlong found names element) : ReachedAlong found names value := by
  cases value with
  | array items =>
    obtain ⟨item, hitem, hreaches⟩ :=
      reachedAlong_of_mem_elementsOf (by simpa [elements] using h) hfound
    exact .item hitem hreaches
  | _ =>
    simp only [elements, List.mem_singleton] at h
    exact h ▸ hfound

theorem reachedAlong_of_mem_elementsOf {items : List Json} {element : Json}
    (h : element ∈ elementsOf items) (hfound : ReachedAlong found names element) :
    ∃ item ∈ items, ReachedAlong found names item := by
  cases items with
  | nil => simp [elementsOf] at h
  | cons item items =>
    rcases List.mem_append.mp (by simpa [elementsOf] using h) with h | h
    · exact ⟨item, List.mem_cons_self, reachedAlong_of_mem_elements h hfound⟩
    · obtain ⟨other, hother, hreaches⟩ := reachedAlong_of_mem_elementsOf h hfound
      exact ⟨other, List.mem_cons_of_mem _ hother, hreaches⟩

end

/-- What is listed is reached. -/
theorem reachedAlong_of_mem_reach {value : Json} (h : found ∈ reach names value) :
    ReachedAlong found names value := by
  induction names generalizing value with
  | nil =>
    obtain ⟨harray, hnull⟩ := of_mem_reach h
    exact reachedAlong_of_mem_elements (List.mem_filter.mp h).1 (.here harray hnull)
  | cons name names ih =>
    obtain ⟨element, helement, hfound⟩ := List.mem_flatMap.mp h
    refine reachedAlong_of_mem_elements helement ?_
    split at hfound
    · next member hmember =>
      -- only an object has members
      cases element with
      | object members => exact .member hmember (ih hfound)
      | _ => simp [member?] at hmember
    · simp at hfound

/-- What is reached is listed. -/
theorem mem_reach_of_reachedAlong {value : Json} (h : ReachedAlong found names value) :
    found ∈ reach names value := by
  induction h with
  | here harray hnull => simp [reach, elements_of_not_isArray harray, hnull]
  | item hitem _ ih =>
    rw [reach_array]
    exact List.mem_flatMap.mpr ⟨_, hitem, ih⟩
  | member hvalue _ ih => simpa [reach, elements, member?, hvalue] using ih

/-- The list of the values along a path has the values reached as its members. -/
theorem mem_reach_iff {value : Json} :
    found ∈ reach names value ↔ ReachedAlong found names value :=
  ⟨reachedAlong_of_mem_reach, mem_reach_of_reachedAlong⟩

/-! ### One step -/

/-- In an array something is reached in one of the items. -/
theorem reachedAlong_array_iff {items : List Json} :
    ReachedAlong found names (array items) ↔ ∃ item ∈ items, ReachedAlong found names item := by
  constructor
  · intro h
    cases h with
    | here harray => cases harray
    | item hitem h => exact ⟨_, hitem, h⟩
  · rintro ⟨item, hitem, h⟩
    exact .item hitem h

/-- Without names an object reaches itself. -/
theorem reachedAlong_nil_object_iff {members : List (String × Json)} :
    ReachedAlong found [] (object members) ↔ found = object members := by
  constructor
  · rintro ⟨⟩
    rfl
  · rintro rfl
    exact .here rfl rfl

/-- A name is followed at an object. -/
theorem reachedAlong_cons_object_iff {name : String} {members : List (String × Json)} :
    ReachedAlong found (name :: names) (object members) ↔
      ∃ value, members.lookup name = some value ∧ ReachedAlong found names value := by
  constructor
  · intro h
    cases h with
    | member hvalue h => exact ⟨_, hvalue, h⟩
  · rintro ⟨value, hvalue, h⟩
    exact .member hvalue h

theorem not_reachedAlong_null : ¬ ReachedAlong found names null := by
  intro h
  cases h with
  | here _ hnull => cases hnull

/-! ### Documents with a single value -/

/-- The document with nothing in it but the value at the end of the member names. -/
def nest : List String → Json → Json
  | [], value => value
  | name :: names, value => object [(name, nest names value)]

/-- Along its names, such a document reaches what its value is. -/
theorem reach_nest (names : List String) (value : Json) :
    reach names (nest names value) = reach [] value := by
  induction names with
  | nil => rfl
  | cons name names ih => simpa [reach, nest, elements, member?] using ih

/-- A value that is no array and not `null` is all that is reached in such a document. -/
theorem reachedAlong_nest_iff {value : Json} (harray : value.isArray = false)
    (hnull : value.isNull = false) :
    ReachedAlong found names (nest names value) ↔ found = value := by
  rw [← mem_reach_iff, reach_nest, reach, elements_of_not_isArray harray]
  simp [hnull]

end FilterQuery.Json
