import FilterQuery.Schema.Field

/-!
# Schemas

A **schema** is the list of the fields by which documents of one entity can be filtered. A list of
fields makes a schema if every field has a name, a path and, if it is composite, an attribute, and
no two fields share a name. The first field at fault decides the error (`Schema.build`).

Beside the list stands an **index** that leads from the name of a field to its position. It is built
while the fields are checked, since the check for a name that was there before is a look-up in the
part of the index built so far (`Schema.register`). The invariant of the index is a part of the
structure: each name leads to the first field that has it, and no other name leads anywhere
(`Schema.lookup_index`).

A field is looked up through the index (`Schema.field?`). By the invariant the position is that of a
field, so the access needs no check, and the look-up finds what a search of the list would find
(`Schema.field?_eq_find?`). Later proofs use the search and do not open the index.

* `Schema.ofFields` makes a schema of any fields; names may repeat there, and the first counts.
* `Schema.build_eq_ok_iff`, `Schema.build_eq_error_iff`: what is built, and when it is rejected.
-/

namespace FilterQuery

/-- Why a definition makes no schema. -/
inductive SchemaError where
  | duplicateField (name : String)
  | emptyFieldName
  | emptyPath (name : String)
  /-- A composite field without attributes. -/
  | noAttributes (name : String)
  /-- A field that is both a map and composite. -/
  | attributesOnMap (name : String)
  /-- An enumeration without constants. -/
  | emptyEnum (name : String)
  deriving DecidableEq, Repr

namespace SchemaError

/-- What is reported about the error. -/
def message : SchemaError → String
  | duplicateField name => "Duplicate field name: " ++ name
  | emptyFieldName => "Field name must not be empty"
  | emptyPath name => "Field " ++ name ++ " has an empty property path"
  | noAttributes name => "Field " ++ name ++ " declares an empty sub-entity attribute set"
  | attributesOnMap name =>
    "Field " ++ name ++ " declares sub-entity attributes on a map, which is not supported"
  | emptyEnum name => "Enum type " ++ name ++ " declares no constants"

end SchemaError

/-! ### The index -/

/-- The positions of fields by their names. -/
abbrev FieldIndex := List (String × Nat)

namespace FieldIndex

/-- The names of some fields with their positions, which start at the given one. -/
def ofFields (start : Nat) : List Field → FieldIndex
  | [] => []
  | field :: fields => (field.name, start) :: ofFields (start + 1) fields

/-- A name leads to the first of the fields that has it. -/
theorem lookup_ofFields (start : Nat) (fields : List Field) (name : String) :
    (ofFields start fields).lookup name =
      (fields.findIdx? fun field => field.name == name).map (· + start) := by
  induction fields generalizing start with
  | nil => rfl
  | cons field fields ih =>
    rw [ofFields, List.lookup_cons, List.findIdx?_cons, ih]
    by_cases hname : name = field.name
    · simp [hname]
    · have hfirst : (name == field.name) = false := by simpa using hname
      have hfield : (field.name == name) = false := by simpa using Ne.symm hname
      simp [hfirst, hfield, Function.comp_def, Nat.add_comm 1, Nat.add_assoc]

end FieldIndex

/-- The filterable fields of an entity, with an index of their names. -/
structure Schema where
  entity : String
  fields : List Field
  index : FieldIndex
  /-- The index has every name of a field, at the position of the first field with that name. -/
  lookup_index : ∀ name, index.lookup name = fields.findIdx? fun field => field.name == name

namespace Schema

/-- The schema of any fields, with an index that is made from the list. -/
def ofFields (entity : String) (fields : List Field) : Schema :=
  ⟨entity, fields, .ofFields 0 fields, fun name => by
    simp [FieldIndex.lookup_ofFields]⟩

/-! ### Building -/

/-- What is wrong with a field that follows the fields of an index. -/
def fault? (index : FieldIndex) (field : Field) : Option SchemaError :=
  if field.name = "" then some .emptyFieldName
  else if field.path.isEmpty then some (.emptyPath field.name)
  else if field.kind = .composite [] then some (.noAttributes field.name)
  else if (index.lookup field.name).isSome then some (.duplicateField field.name)
  else none

/-- Adds fields to an index, the first of them at the given position. The first faulty field ends
it. -/
def register (index : FieldIndex) (position : Nat) : List Field → Except SchemaError FieldIndex
  | [] => .ok index
  | field :: fields =>
    match fault? index field with
    | some e => .error e
    | none => register (index ++ [(field.name, position)]) (position + 1) fields

/-- Fields that are added come behind those of the index, in their order. -/
theorem eq_append_of_register {index index' : FieldIndex} {position : Nat} {fields : List Field}
    (h : register index position fields = .ok index') :
    index' = index ++ .ofFields position fields := by
  induction fields generalizing index position with
  | nil =>
    cases h
    rw [FieldIndex.ofFields, List.append_nil]
  | cons field fields ih =>
    rw [register] at h
    split at h
    · cases h
    · rw [ih h, List.append_assoc]
      rfl

theorem lookup_of_register {index : FieldIndex} {fields : List Field}
    (h : register [] 0 fields = .ok index) (name : String) :
    index.lookup name = fields.findIdx? fun field => field.name == name := by
  rw [eq_append_of_register h]
  exact (ofFields "" fields).lookup_index name

/-- The schema of some fields. -/
def build (entity : String) (fields : List Field) : Except SchemaError Schema :=
  match h : register [] 0 fields with
  | .error e => .error e
  | .ok index => .ok ⟨entity, fields, index, lookup_of_register h⟩

/-! ### Looking up -/

/-- A position in the index is that of a field. -/
theorem lt_of_lookup_index (schema : Schema) {name : String} {position : Nat}
    (h : schema.index.lookup name = some position) : position < schema.fields.length := by
  rw [schema.lookup_index] at h
  exact (List.findIdx?_eq_some_iff_getElem.mp h).1

/-- The field of the given name in any letter case. -/
def field? (schema : Schema) (name : String) : Option Field :=
  match h : schema.index.lookup (Text.upper name) with
  | some position => some (schema.fields.get ⟨position, schema.lt_of_lookup_index h⟩)
  | none => none

/-- To look a name up in the index is to search the fields for the first one that has it. -/
theorem field?_eq_find? (schema : Schema) (name : String) :
    schema.field? name = schema.fields.find? fun field => field.name == Text.upper name := by
  unfold field?
  split
  · next position h =>
    rw [schema.lookup_index] at h
    obtain ⟨hlt, hname, hbefore⟩ := List.findIdx?_eq_some_iff_getElem.mp h
    symm
    rw [List.find?_eq_some_iff_getElem]
    exact ⟨hname, position, hlt, rfl, by simpa using hbefore⟩
  · next h =>
    rw [schema.lookup_index, List.findIdx?_eq_none_iff] at h
    exact (List.find?_eq_none.mpr fun field hfield => by simp [h field hfield]).symm

/-- The selectors of all fields as error messages list them, those of composite fields last. -/
def selectors (schema : Schema) : List String :=
  let (composite, plain) := schema.fields.partition fun field => !field.attributes.isEmpty
  (plain ++ composite).flatMap Field.selectors

/-- A list of fields makes the schema of just these fields. -/
theorem build_eq_ok_iff {entity : String} {fields : List Field} {schema : Schema} :
    build entity fields = .ok schema ↔
      (∃ index, register [] 0 fields = .ok index) ∧ schema = .ofFields entity fields := by
  unfold build
  split
  · next e h => simp [h]
  · next index h =>
    have hindex : index = FieldIndex.ofFields 0 fields := eq_append_of_register h
    subst hindex
    simp [h, ofFields, eq_comm]

/-- The error of a build is that of registering its fields. -/
theorem build_eq_error_iff {entity : String} {fields : List Field} {e : SchemaError} :
    build entity fields = .error e ↔ register [] 0 fields = .error e := by
  unfold build
  split <;> simp_all

end Schema

end FilterQuery
