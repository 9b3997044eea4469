import FilterQuery.Rejection
import FilterQuery.Schema.Basic

/-!
# Selections

A **selection** is what a selector means in a schema: a field, the path to the selected property,
its type and, for a map field, the key. The segments of a selector after the first name attributes
or a key; how the letters of the selector are cased has no influence on the path.

The kind of the field decides how many segments there may be. A scalar field has none behind its
name. A composite field has one or more, each of which has to be one of its attributes; the path
takes the names as the attributes declare them, and the type is that of the last one. A map field
has just one, which is the key and may be any text but the empty one. A selector of a map that is
not of this form has a rejection of its own, since it is spelled wrongly; any other selector that
means nothing is rejected with the list of all selectors that the schema offers
(`Schema.unsupported`).
-/

namespace FilterQuery

/-- The key of a map selector, and the path to the keys of the entries of the map. -/
structure MapKey where
  path : Path
  key : String
  deriving DecidableEq, Repr

/-- What a selector means. -/
structure Selection where
  field : Field
  /-- The path to the property, or to the entries of a map. -/
  path : Path
  type : ValueType
  key? : Option MapKey

namespace Selection

/-- The path to the selected values: in a map it leads on to the value member of the entries. -/
def valuePath (selection : Selection) : Path :=
  match selection.field.valueMember? with
  | some member => selection.path.child member
  | none => selection.path

end Selection

namespace Schema

/-- The rejection of a selector that names no property. -/
def unsupported (schema : Schema) (selector : String) : Rejection :=
  .unsupportedField selector schema.selectors

/-- The selection of a composite field by the given attributes, of which there is one at least. -/
def selectAttributes (field : Field) (attributes : List Attribute) : Option Selection :=
  attributes.getLast?.map fun last =>
    ⟨field, ⟨field.path.segments ++ attributes.map Attribute.name⟩, last.type, none⟩

/-- What a selector means. -/
def select (schema : Schema) (selector : String) : Except Rejection Selection :=
  match Text.split '.' selector with
  | [] => .error (schema.unsupported selector)
  | name :: segments =>
    match schema.field? name with
    | none => .error (schema.unsupported selector)
    | some field =>
      match field.kind with
      | .scalar type =>
        if segments.isEmpty then .ok ⟨field, field.path, type, none⟩
        else .error (schema.unsupported selector)
      | .composite _ =>
        match (segments.mapM field.attribute?).bind (selectAttributes field) with
        | some selection => .ok selection
        | none => .error (schema.unsupported selector)
      | .map keyMember _ type =>
        match segments with
        | [key] =>
          if key = "" then .error (.malformedMapSelector selector)
          else .ok ⟨field, field.path, type, some ⟨field.path.child keyMember, key⟩⟩
        | _ => .error (.malformedMapSelector selector)

end Schema

end FilterQuery
