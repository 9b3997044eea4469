import FilterQuery.Schema.Definition
import FilterQuery.Proofs.Building
import FilterQuery.Proofs.UpperCase

/-!
# Valid definitions

A field that is defined is **sound** if its type and those of its attributes have values at all and
it is not both a map and composite. It is **located** if it has a name and a path with a name in it.
A definition is **valid** if its fields are sound and located and their names differ in upper case.

The valid definitions are those that make a schema, and each of its fields is found by the names of
the same upper case (`SchemaDefinition.toSchema_eq_ok_iff_isValid`).

* **Two passes.** Faults within a field are looked for in all fields first, and faults between
  fields only after that. So a definition is rejected for the first field that is not sound; if all
  of them are, for the first one that cannot follow the fields before it.
* **Faults within a field** have an order as well: the type of the field, then the clash of a map
  with attributes, then the attributes one by one (`FieldDefinition.Unsound`).
* **Faults between fields** are those of the builder, read back to the definition: a name is empty
  if its upper case is, a path if all its segments are, and two names clash if they have the same
  upper case (`FieldDefinition.Unplaced`).
-/

namespace FilterQuery

/-! ### Single fields -/

/-- An enumeration without constants, which has no values. -/
def ValueType.IsVoid (type : ValueType) : Prop := ∃ name, type = .enumeration ⟨name, []⟩

namespace FieldDefinition

/-- A field without a fault of its own. -/
structure IsSound (definition : FieldDefinition) : Prop where
  type : ¬ definition.type.IsVoid
  kind : definition.map = none ∨ definition.attributes = []
  attributes : ∀ a ∈ definition.attributes, ¬ a.type.IsVoid

/-- The fault of a field that is not sound: its type, its kind or its first void attribute, in this
order. -/
inductive Unsound (definition : FieldDefinition) : SchemaError → Prop where
  | type {name : String} (h : definition.type = .enumeration ⟨name, []⟩) :
      Unsound definition (.emptyEnum name)
  | kind (htype : ¬ definition.type.IsVoid) (hmap : definition.map ≠ none)
      (hattributes : definition.attributes ≠ []) :
      Unsound definition (.attributesOnMap definition.name)
  | attributeType (htype : ¬ definition.type.IsVoid) (hmap : definition.map = none)
      {before after : List Attribute} {a : Attribute} {name : String}
      (hattributes : definition.attributes = before ++ a :: after)
      (hbefore : ∀ other ∈ before, ¬ other.type.IsVoid)
      (h : a.type = .enumeration ⟨name, []⟩) :
      Unsound definition (.emptyEnum name)

/-- A field with a name and with a path that is not empty. -/
structure IsLocated (definition : FieldDefinition) : Prop where
  name : definition.name ≠ ""
  path : ∃ segment ∈ Text.split '.' definition.path, segment ≠ ""

/-- The fault of a field behind others: its name, its path or another field of its name, in this
order. -/
inductive Unplaced (before : List FieldDefinition) (definition : FieldDefinition) :
    SchemaError → Prop where
  | name (h : definition.name = "") : Unplaced before definition .emptyFieldName
  | path (hname : definition.name ≠ "")
      (h : ∀ segment ∈ Text.split '.' definition.path, segment = "") :
      Unplaced before definition (.emptyPath (Text.upper definition.name))
  | duplicate (hlocated : definition.IsLocated) {other : FieldDefinition} (hother : other ∈ before)
      (h : Text.upper other.name = Text.upper definition.name) :
      Unplaced before definition (.duplicateField (Text.upper definition.name))

/-- Located fields whose names differ in upper case. -/
structure GoTogether (definitions : List FieldDefinition) : Prop where
  located : ∀ definition ∈ definitions, definition.IsLocated
  nodup : (definitions.map fun definition => Text.upper definition.name).Nodup

/-- What a name finds among some fields: the only one whose name has its upper case, if any has. -/
inductive Finds (definitions : List FieldDefinition) (name : String) : Option Field → Prop where
  | only {before after : List FieldDefinition} {definition : FieldDefinition}
      (hfields : definitions = before ++ definition :: after)
      (hname : Text.upper definition.name = Text.upper name)
      (hothers : ∀ other ∈ before ++ after, Text.upper other.name ≠ Text.upper name) :
      Finds definitions name (some definition.toField)
  | nothing (h : ∀ definition ∈ definitions, Text.upper definition.name ≠ Text.upper name) :
      Finds definitions name none

end FieldDefinition

namespace SchemaDefinition

/-- A definition of sound fields that go together. -/
structure IsValid (definition : SchemaDefinition) : Prop where
  sound : ∀ field ∈ definition.fields, field.IsSound
  together : FieldDefinition.GoTogether definition.fields

/-- The fault of a definition that is not valid: that of the first field that is not sound, or else
that of the first field that does not go together with the fields before it. -/
inductive Invalid (definition : SchemaDefinition) : SchemaError → Prop where
  | unsound {before after : List FieldDefinition} {field : FieldDefinition} {e : SchemaError}
      (hfields : definition.fields = before ++ field :: after)
      (hbefore : ∀ other ∈ before, other.IsSound) (h : field.Unsound e) :
      Invalid definition e
  | unplaced (hsound : ∀ field ∈ definition.fields, field.IsSound)
      {before after : List FieldDefinition} {field : FieldDefinition} {e : SchemaError}
      (hfields : definition.fields = before ++ field :: after)
      (hbefore : FieldDefinition.GoTogether before) (h : field.Unplaced before e) :
      Invalid definition e

end SchemaDefinition

/-! ### Faults within a field -/

namespace ValueType

variable {type : ValueType} {e : SchemaError}

theorem fault?_eq_some_iff :
    type.fault? = some e ↔ ∃ name, type = .enumeration ⟨name, []⟩ ∧ e = .emptyEnum name := by
  cases type with
  | enumeration type =>
    obtain ⟨name, constants⟩ := type
    cases constants <;> simp [fault?, eq_comm]
  | _ => simp [fault?]

theorem fault?_eq_none_iff : type.fault? = none ↔ ¬ type.IsVoid := by
  rw [Option.eq_none_iff_forall_ne_some, IsVoid, not_exists]
  constructor
  · intro h name htype
    exact h _ (fault?_eq_some_iff.mpr ⟨name, htype, rfl⟩)
  · intro h e he
    obtain ⟨name, htype, -⟩ := fault?_eq_some_iff.mp he
    exact h name htype

end ValueType

namespace FieldDefinition

variable {definition : FieldDefinition} {before : List FieldDefinition} {e : SchemaError}

/-- Whether a field is both a map and composite, as the definition of `fault?` asks. -/
theorem isMapWithAttributes_iff :
    (definition.map.isSome && !definition.attributes.isEmpty) = true ↔
      definition.map ≠ none ∧ definition.attributes ≠ [] := by
  simp [Option.isSome_iff_ne_none]

theorem fault?_eq_none_iff : definition.fault? = none ↔ definition.IsSound := by
  have hattributes : (definition.attributes.findSome? fun a => a.type.fault?) = none ↔
      ∀ a ∈ definition.attributes, ¬ a.type.IsVoid := by
    rw [List.findSome?_eq_none_iff]
    exact forall₂_congr fun a _ => ValueType.fault?_eq_none_iff
  unfold fault?
  constructor
  · intro h
    split at h
    · cases h
    · next htype =>
      split at h
      · cases h
      · next hkind =>
        refine ⟨ValueType.fault?_eq_none_iff.mp htype, ?_, hattributes.mp h⟩
        rw [isMapWithAttributes_iff, not_and_or, not_ne_iff, not_ne_iff] at hkind
        exact hkind
  · intro h
    have hkind : ¬ (definition.map.isSome && !definition.attributes.isEmpty) = true := by
      rw [isMapWithAttributes_iff, not_and_or, not_ne_iff, not_ne_iff]
      exact h.kind
    rw [ValueType.fault?_eq_none_iff.mpr h.type]
    dsimp only
    rw [if_neg hkind]
    exact hattributes.mpr h.attributes

theorem fault?_eq_some_iff : definition.fault? = some e ↔ definition.Unsound e := by
  unfold fault?
  constructor
  · intro h
    split at h
    · next htype =>
      obtain ⟨name, htype', rfl⟩ := ValueType.fault?_eq_some_iff.mp htype
      cases h
      exact .type htype'
    · next htype =>
      have htype := ValueType.fault?_eq_none_iff.mp htype
      split at h
      · next hkind =>
        obtain ⟨hmap, hattributes⟩ := isMapWithAttributes_iff.mp hkind
        cases h
        exact .kind htype hmap hattributes
      · next hkind =>
        -- a field with a faulty attribute is no map
        obtain ⟨before, a, after, hattributes, ha, hbefore⟩ := List.findSome?_eq_some_iff.mp h
        obtain ⟨name, ha', rfl⟩ := ValueType.fault?_eq_some_iff.mp ha
        have hmap : definition.map = none := by
          refine by_contra fun hmap => hkind (isMapWithAttributes_iff.mpr ⟨hmap, ?_⟩)
          simp [hattributes]
        have hsound : ∀ other ∈ before, ¬ other.type.IsVoid := fun other hother =>
          ValueType.fault?_eq_none_iff.mp (hbefore other hother)
        exact .attributeType htype hmap hattributes hsound ha'
  · intro h
    cases h with
    | type h => rw [ValueType.fault?_eq_some_iff.mpr ⟨_, h, rfl⟩]
    | kind htype hmap hattributes =>
      rw [ValueType.fault?_eq_none_iff.mpr htype]
      exact if_pos (isMapWithAttributes_iff.mpr ⟨hmap, hattributes⟩)
    | @attributeType htype hmap before after a name hattributes hbefore h =>
      have hkind : ¬ (definition.map.isSome && !definition.attributes.isEmpty) = true :=
        fun hkind => (isMapWithAttributes_iff.mp hkind).1 hmap
      rw [ValueType.fault?_eq_none_iff.mpr htype]
      dsimp only
      rw [if_neg hkind, List.findSome?_eq_some_iff]
      refine ⟨before, a, after, hattributes, ValueType.fault?_eq_some_iff.mpr ⟨name, h, rfl⟩, ?_⟩
      exact fun other hother => ValueType.fault?_eq_none_iff.mpr (hbefore other hother)

/-!
### Faults between fields

A field that is sound by itself may still have no place behind others. Only its name is compared
with theirs; a name or a path that is missing is a fault wherever the field stands.
-/

theorem name_toField : definition.toField.name = Text.upper definition.name := rfl

theorem name_toField_eq_empty_iff : definition.toField.name = "" ↔ definition.name = "" :=
  Text.upper_eq_empty_iff

theorem isEmpty_path_toField_iff :
    definition.toField.path.isEmpty = true ↔
      ∀ segment ∈ Text.split '.' definition.path, segment = "" := by
  simp [toField, Path.isEmpty, Path.ofText, List.filter_eq_nil_iff]

/-- A field that is defined without attributes is not composite. -/
theorem kind_toField_ne : definition.toField.kind ≠ .composite [] := by
  change definition.kind ≠ .composite []
  unfold kind
  split
  · simp
  · split
    · simp
    · next h => simpa using h

/-- The fields that the builder finds complete are the located ones. -/
theorem isComplete_toField_iff : definition.toField.IsComplete ↔ definition.IsLocated := by
  have hpath : definition.toField.path.isEmpty = false ↔
      ∃ segment ∈ Text.split '.' definition.path, segment ≠ "" := by
    rw [Bool.eq_false_iff, ne_eq, isEmpty_path_toField_iff]
    simp
  constructor
  · intro h
    exact ⟨fun hname => h.name (name_toField_eq_empty_iff.mpr hname), hpath.mp h.path⟩
  · intro h
    exact ⟨fun hname => h.name (name_toField_eq_empty_iff.mp hname), hpath.mpr h.path,
      kind_toField_ne⟩

/-- The fields that make a schema are those of definitions that go together. -/
theorem exists_register_map_toField_iff {definitions : List FieldDefinition} :
    (∃ index, Schema.register [] 0 (definitions.map toField) = .ok index) ↔
      GoTogether definitions := by
  rw [Schema.exists_register_iff, List.map_map, List.forall_mem_map]
  constructor
  · rintro ⟨hfields, hnodup⟩
    exact ⟨fun d hd => isComplete_toField_iff.mp (hfields d hd).1, hnodup⟩
  · rintro ⟨hlocated, hnodup⟩
    exact ⟨fun d hd => ⟨isComplete_toField_iff.mpr (hlocated d hd), rfl⟩, hnodup⟩

/-- A field is at fault behind others if it is unplaced behind them. -/
theorem schemaFault?_toField_eq_some_iff :
    Schema.fault? (.ofFields 0 (before.map toField)) definition.toField = some e ↔
      definition.Unplaced before e := by
  have hmem : ((FieldIndex.ofFields 0 (before.map toField)).lookup
      definition.toField.name).isSome ↔
        ∃ other ∈ before, Text.upper other.name = Text.upper definition.name := by
    rw [Option.isSome_iff_ne_none, ne_eq, Schema.lookup_ofFields_eq_none_iff, not_not]
    simp [name_toField]
  unfold Schema.fault?
  constructor
  · intro h
    split at h
    · next hname =>
      cases h
      exact .name (name_toField_eq_empty_iff.mp hname)
    · next hname =>
      rw [name_toField_eq_empty_iff] at hname
      split at h
      · next hpath =>
        cases h
        exact .path hname (isEmpty_path_toField_iff.mp hpath)
      · next hpath =>
        -- the path is not empty, so it has a segment that is not
        have hlocated : definition.IsLocated := by
          refine ⟨hname, by_contra fun hnone => hpath (isEmpty_path_toField_iff.mpr ?_)⟩
          simpa using hnone
        rw [if_neg kind_toField_ne] at h
        split at h
        · next hfound =>
          obtain ⟨other, hother, hsame⟩ := hmem.mp hfound
          cases h
          exact .duplicate hlocated hother hsame
        · cases h
  · intro h
    cases h with
    | name h => exact if_pos (name_toField_eq_empty_iff.mpr h)
    | path hname h =>
      rw [if_neg (mt name_toField_eq_empty_iff.mp hname)]
      exact if_pos (isEmpty_path_toField_iff.mpr h)
    | duplicate hlocated hother h =>
      have hcomplete := isComplete_toField_iff.mpr hlocated
      rw [if_neg hcomplete.name, if_neg (by simp [hcomplete.path]), if_neg hcomplete.kind]
      exact if_pos (hmem.mpr ⟨_, hother, h⟩)

/-- The fields of other definitions fail for the first one that is unplaced. -/
theorem register_map_toField_eq_error_iff {definitions : List FieldDefinition} :
    Schema.register [] 0 (definitions.map toField) = .error e ↔
      ∃ before d after, definitions = before ++ d :: after ∧ GoTogether before ∧
        d.Unplaced before e := by
  rw [Schema.register_eq_error_iff]
  constructor
  · rintro ⟨fields, field, rest, hfields, hbefore, hfield⟩
    obtain ⟨before, others, rfl, rfl, hothers⟩ := List.map_eq_append_iff.mp hfields
    obtain ⟨d, after, rfl, rfl, rfl⟩ := List.map_eq_cons_iff.mp hothers
    exact ⟨before, d, after, rfl, exists_register_map_toField_iff.mp hbefore,
      schemaFault?_toField_eq_some_iff.mp hfield⟩
  · rintro ⟨before, d, after, rfl, hbefore, hfield⟩
    exact ⟨before.map toField, d.toField, after.map toField, by simp,
      exists_register_map_toField_iff.mpr hbefore, schemaFault?_toField_eq_some_iff.mpr hfield⟩

end FieldDefinition

/-! ### Whole definitions -/

namespace SchemaDefinition

variable {definition : SchemaDefinition} {schema : Schema} {e : SchemaError}

/-- The first pass finds nothing if all fields are sound. -/
theorem findSome?_fault?_eq_none_iff :
    definition.fields.findSome? FieldDefinition.fault? = none ↔
      ∀ field ∈ definition.fields, field.IsSound := by
  rw [List.findSome?_eq_none_iff]
  exact forall₂_congr fun field _ => FieldDefinition.fault?_eq_none_iff

/-- It finds the fault of the first field that is not sound. -/
theorem findSome?_fault?_eq_some_iff :
    definition.fields.findSome? FieldDefinition.fault? = some e ↔
      ∃ before field after, definition.fields = before ++ field :: after ∧
        (∀ other ∈ before, other.IsSound) ∧ field.Unsound e := by
  rw [List.findSome?_eq_some_iff]
  refine exists_congr fun before => exists_congr fun field => exists_congr fun after => ?_
  rw [FieldDefinition.fault?_eq_some_iff, and_comm (a := field.Unsound e)]
  simp only [FieldDefinition.fault?_eq_none_iff]

/-- A definition makes the schema of its fields if it is valid. -/
theorem toSchema_eq_ok_iff :
    definition.toSchema = .ok schema ↔ definition.IsValid ∧
      schema = .ofFields definition.entity (definition.fields.map FieldDefinition.toField) := by
  unfold toSchema
  split
  · next e h =>
    have hunsound : ¬ ∀ field ∈ definition.fields, field.IsSound := by
      rw [← findSome?_fault?_eq_none_iff, h]
      exact nofun
    exact ⟨nofun, fun hvalid => absurd hvalid.1.sound hunsound⟩
  · next h =>
    rw [Schema.build_eq_ok_iff, FieldDefinition.exists_register_map_toField_iff]
    have hsound := findSome?_fault?_eq_none_iff.mp h
    exact and_congr_left' ⟨fun htogether => ⟨hsound, htogether⟩, IsValid.together⟩

/-- A definition that makes no schema is rejected for its fault. -/
theorem toSchema_eq_error_iff : definition.toSchema = .error e ↔ definition.Invalid e := by
  unfold toSchema
  constructor
  · intro h
    split at h
    · next hfault =>
      -- the first pass is in the order of the list, as the rule says
      obtain ⟨before, field, after, hfields, hbefore, hfield⟩ :=
        findSome?_fault?_eq_some_iff.mp hfault
      cases h
      exact .unsound hfields hbefore hfield
    · -- all fields are sound, so the fault is in placing one behind the others
      next hnone =>
      obtain ⟨before, field, after, hfields, hbefore, hfield⟩ :=
        FieldDefinition.register_map_toField_eq_error_iff.mp (Schema.build_eq_error_iff.mp h)
      exact .unplaced (findSome?_fault?_eq_none_iff.mp hnone) hfields hbefore hfield
  · intro h
    cases h with
    | unsound hfields hbefore h =>
      rw [findSome?_fault?_eq_some_iff.mpr ⟨_, _, _, hfields, hbefore, h⟩]
    | unplaced hsound hfields hbefore h =>
      rw [findSome?_fault?_eq_none_iff.mpr hsound]
      exact Schema.build_eq_error_iff.mpr
        (FieldDefinition.register_map_toField_eq_error_iff.mpr ⟨_, _, _, hfields, hbefore, h⟩)

theorem isProper_of_toSchema (h : definition.toSchema = .ok schema) : schema.IsProper := by
  obtain ⟨hvalid, rfl⟩ := toSchema_eq_ok_iff.mp h
  refine (Schema.build_eq_ok_iff_isProper.mp (Schema.build_eq_ok_iff.mpr ⟨?_, rfl⟩)).2
  exact FieldDefinition.exists_register_map_toField_iff.mpr hvalid.together

/-- In the schema of a valid definition a name finds the only field of its upper case. -/
theorem finds_field? (h : definition.toSchema = .ok schema) (name : String) :
    FieldDefinition.Finds definition.fields name (schema.field? name) := by
  have hproper := isProper_of_toSchema h
  obtain ⟨hvalid, rfl⟩ := toSchema_eq_ok_iff.mp h
  by_cases hname : ∃ field ∈ definition.fields, Text.upper field.name = Text.upper name
  · obtain ⟨field, hfield, hname⟩ := hname
    have hfind := hproper.field?_eq_some_iff.mpr ⟨List.mem_map_of_mem hfield, hname⟩
    rw [hfind]
    obtain ⟨before, after, hfields⟩ := List.append_of_mem hfield
    refine .only hfields hname fun other hother hsame => ?_
    -- no other name has the upper case of the field's
    have hnodup := hvalid.together.nodup
    rw [hfields, List.map_append, List.map_cons, List.nodup_middle, List.nodup_cons] at hnodup
    rw [← List.map_append] at hnodup
    refine hnodup.1 ?_
    rw [hname, ← hsame]
    exact List.mem_map_of_mem hother
  · have hnone : ∀ field ∈ definition.fields, Text.upper field.name ≠ Text.upper name :=
      fun field hfield hsame => hname ⟨field, hfield, hsame⟩
    have hfind : (Schema.ofFields definition.entity
        (definition.fields.map FieldDefinition.toField)).field? name = none := by
      rw [Option.eq_none_iff_forall_ne_some]
      intro found hfound
      obtain ⟨hfound, hsame⟩ := hproper.field?_eq_some_iff.mp hfound
      obtain ⟨field, hfield, rfl⟩ := List.mem_map.mp hfound
      exact hnone field hfield hsame
    rw [hfind]
    exact .nothing hnone

/-- **Valid definitions.** The valid definitions are those that make a schema. It has the fields
that they define, in their order, and a name finds in it the only field whose name has the same
upper case, if there is one. Every other definition is rejected for its first fault. -/
theorem toSchema_eq_ok_iff_isValid (definition : SchemaDefinition) :
    (∀ schema, definition.toSchema = .ok schema ↔ definition.IsValid ∧
        schema = .ofFields definition.entity (definition.fields.map FieldDefinition.toField)) ∧
      (∀ schema, definition.toSchema = .ok schema →
        ∀ name, FieldDefinition.Finds definition.fields name (schema.field? name)) ∧
      ∀ e, definition.toSchema = .error e ↔ definition.Invalid e :=
  ⟨fun _ => toSchema_eq_ok_iff, fun _ => finds_field?, fun _ => toSchema_eq_error_iff⟩

/-- The field of a street is found by another spelling of its name, which no second field may
have. -/
theorem toSchema_eq_ok_iff_isValid_street :
    (∃ schema,
      (SchemaDefinition.mk "person" [⟨"straße", "street", .string, [], none⟩]).toSchema =
        .ok schema ∧
      FieldDefinition.Finds [⟨"straße", "street", .string, [], none⟩] "Strasse"
        (schema.field? "Strasse")) ∧
      (SchemaDefinition.mk "person" [⟨"straße", "street", .string, [], none⟩,
        ⟨"Strasse", "road", .string, [], none⟩]).Invalid (.duplicateField "STRASSE") := by
  have hok : (SchemaDefinition.mk "person" [⟨"straße", "street", .string, [], none⟩]).toSchema =
      .ok (.ofFields "person" [⟨"straße", ⟨["street"]⟩, .scalar .string, none⟩]) := by rfl
  have herror : (SchemaDefinition.mk "person" [⟨"straße", "street", .string, [], none⟩,
      ⟨"Strasse", "road", .string, [], none⟩]).toSchema = .error (.duplicateField "STRASSE") := by
    rfl
  refine ⟨⟨_, hok, (toSchema_eq_ok_iff_isValid _).2.1 _ hok _⟩, ?_⟩
  exact ((toSchema_eq_ok_iff_isValid _).2.2 _).mp herror

end SchemaDefinition

end FilterQuery
