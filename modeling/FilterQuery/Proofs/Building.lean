import FilterQuery.Schema.Basic
import FilterQuery.Proofs.Traversal
import Mathlib.Data.List.Nodup

/-!
# Schemas that are built

A field is **complete** if it has a name, a path and, if it is composite, an attribute. A schema is
**proper** if its fields are complete and no two of them share a name. The schemas that are built
are the proper ones (`build_eq_ok_iff_isProper`).

The builder registers one field after the other under its name, in an index that it extends as it
goes on. So the question which lists it accepts is a question about the index:

* **Faults.** A field is at fault if it is incomplete or if its name is in the index already
  (`fault?_eq_none_iff`), and the index holds the names in front of the field and no others.
* **Lists.** Registering a list from some index on succeeds if each field is complete, no name of
  the list is in the index and no two fields share a name (`exists_register_iff`); otherwise it
  fails with the first fault (`register_eq_error_iff`).
* **Finding.** In a proper schema a field is found by its name alone, wherever it stands in the list
  (`IsProper.field?_eq_some_iff`). This holds of the search through the index since the index of a
  schema gives the positions of its fields.
-/

namespace FilterQuery

namespace Field

/-- A field that is at fault in no list of fields but for its name. -/
structure IsComplete (field : Field) : Prop where
  name : field.name ≠ ""
  path : field.path.isEmpty = false
  kind : field.kind ≠ .composite []

end Field

namespace Schema

/-- Complete fields of distinct names. -/
structure IsProper (schema : Schema) : Prop where
  complete : ∀ field ∈ schema.fields, field.IsComplete
  nodup : (schema.fields.map Field.name).Nodup

variable {schema : Schema} {field : Field} {fields : List Field} {index : FieldIndex}
  {position : Nat}

/-! ### Fields at fault -/

/-- A field is without a fault if it is complete and its name is new. -/
theorem fault?_eq_none_iff :
    fault? index field = none ↔ field.IsComplete ∧ index.lookup field.name = none := by
  unfold fault?
  constructor
  · intro h
    split at h
    · simp at h
    · next hname =>
      split at h
      · simp at h
      · next hpath =>
        split at h
        · simp at h
        · next hkind =>
          refine ⟨⟨hname, by simpa using hpath, hkind⟩, ?_⟩
          -- a name that the index has would be a fault as well
          refine Option.not_isSome_iff_eq_none.mp fun hfound => ?_
          rw [if_pos hfound] at h
          cases h
  · rintro ⟨hcomplete, hnew⟩
    rw [if_neg hcomplete.name, if_neg (by simp [hcomplete.path]), if_neg hcomplete.kind,
      if_neg (by simp [hnew])]

/-! ### The index that is built -/

/-- The index of some fields has their names and no others. -/
theorem lookup_ofFields_eq_none_iff {name : String} :
    (FieldIndex.ofFields position fields).lookup name = none ↔ name ∉ fields.map Field.name := by
  rw [FieldIndex.lookup_ofFields, Option.map_eq_none_iff, List.findIdx?_eq_none_iff]
  simp only [beq_eq_false_iff_ne, List.mem_map, not_exists, not_and]

/-- With one more field, an index has one more name. -/
theorem lookup_append_eq_none_iff {name : String} :
    (index ++ [(field.name, position)]).lookup name = none ↔
      index.lookup name = none ∧ name ≠ field.name := by
  rw [List.lookup_append, Option.or_eq_none_iff, List.lookup_eq_none_iff]
  simp

/-- A list is registered if its first field has no fault and the others are registered behind it. -/
theorem register_cons_eq_ok_iff {index' : FieldIndex} :
    register index position (field :: fields) = .ok index' ↔
      fault? index field = none ∧
        register (index ++ [(field.name, position)]) (position + 1) fields = .ok index' := by
  rw [register]
  cases fault? index field <;> simp

/-- Fields are added to an index if all are complete and their names are new and distinct. -/
theorem exists_register_iff :
    (∃ index', register index position fields = .ok index') ↔
      (∀ field ∈ fields, field.IsComplete ∧ index.lookup field.name = none) ∧
        (fields.map Field.name).Nodup := by
  induction fields generalizing index position with
  | nil => simp [register]
  | cons field fields ih =>
    simp only [register_cons_eq_ok_iff, exists_and_left, ih, fault?_eq_none_iff,
      List.forall_mem_cons, List.map_cons, List.nodup_cons, lookup_append_eq_none_iff]
    constructor
    · rintro ⟨hfirst, hfields, hnodup⟩
      refine ⟨⟨hfirst, fun other hother => ⟨(hfields other hother).1, ?_⟩⟩, ?_, hnodup⟩
      · exact (hfields other hother).2.1
      · -- the name is new to the index, which the first field has extended
        intro hmem
        obtain ⟨other, hother, hname⟩ := List.mem_map.mp hmem
        exact (hfields other hother).2.2 hname
    · rintro ⟨⟨hfirst, hfields⟩, hnew, hnodup⟩
      refine ⟨hfirst, fun other hother => ⟨(hfields other hother).1, ?_⟩, hnodup⟩
      have hne : other.name ≠ field.name := fun hname => hnew (hname ▸ List.mem_map_of_mem hother)
      exact ⟨(hfields other hother).2, hne⟩

/-- The first field at fault is the one behind the longest list of fields that are added. -/
theorem register_eq_error_iff {e : SchemaError} :
    register index position fields = .error e ↔
      ∃ before field after, fields = before ++ field :: after ∧
        (∃ index', register index position before = .ok index') ∧
        fault? (index ++ .ofFields position before) field = some e := by
  induction fields generalizing index position with
  | nil => simp [register]
  | cons first fields ih =>
    rw [exists_split_cons_iff, register]
    simp only [register_cons_eq_ok_iff, exists_and_left]
    cases hfirst : fault? index first with
    -- with a fault the first field has nothing in front; without one it is in front of the failing
    | some e' => simp [register, FieldIndex.ofFields, hfirst]
    | none => simp [register, FieldIndex.ofFields, hfirst, ih]

/-- The schemas that are built are the proper ones. -/
theorem build_eq_ok_iff_isProper {entity : String} :
    build entity fields = .ok schema ↔ schema = .ofFields entity fields ∧ schema.IsProper := by
  rw [build_eq_ok_iff, exists_register_iff, and_comm]
  refine and_congr_right fun hschema => ?_
  subst hschema
  constructor
  · rintro ⟨hfields, hnodup⟩
    exact ⟨fun field hfield => (hfields field hfield).1, hnodup⟩
  · rintro ⟨hcomplete, hnodup⟩
    exact ⟨fun field hfield => ⟨hcomplete field hfield, rfl⟩, hnodup⟩

/-! ### Finding a field -/

/-- In a proper schema the field that a name finds is the field of this name. -/
theorem IsProper.field?_eq_some_iff (h : schema.IsProper) {name : String} :
    schema.field? name = some field ↔ field ∈ schema.fields ∧ field.name = Text.upper name := by
  rw [field?_eq_find?]
  constructor
  · intro hfind
    have hname := List.find?_some hfind
    exact ⟨List.mem_of_find?_eq_some hfind, by simpa using hname⟩
  · rintro ⟨hfield, hname⟩
    have hsome : (schema.fields.find? fun other => other.name == Text.upper name).isSome := by
      rw [List.find?_isSome]
      exact ⟨field, hfield, by simpa using hname⟩
    obtain ⟨found, hfind⟩ := Option.isSome_iff_exists.mp hsome
    -- the field that is found has the same name, so it is the same field
    have hfound : found.name = Text.upper name := by simpa using List.find?_some hfind
    have hmem := List.mem_of_find?_eq_some hfind
    rw [hfind, List.inj_on_of_nodup_map h.nodup hmem hfield (hfound.trans hname.symm)]

end Schema

end FilterQuery
