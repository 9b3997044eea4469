import FilterQuery.Path
import FilterQuery.Value

/-!
# Fields

A **field** is a name by which queries select a property of a document. A **scalar** field is
selected by its name alone, a **composite** field by its name and those of its attributes, and a
**map** field by its name and a key; the entries of a map are documents with a key member and, as a
rule, a value member. Field names are compared in upper case, attribute names up to the case of
ASCII letters.

A field may have a **converter** that turns arguments into stored values in its own way. It comes
with the arguments that it recognises, which are listed when another one is rejected.

What a field lists as its selectors (`Field.selectors`) is what error messages offer to the reader:
the name in lower case, with each attribute of a composite field, and with a sample key for a map.
-/

namespace FilterQuery

/-- A conversion of arguments, and the arguments it recognises as an error message lists them. -/
structure Converter where
  convert : String → Option Value
  allowed : List String

/-- A property below a composite field. -/
@[ext]
structure Attribute where
  name : String
  type : ValueType
  deriving DecidableEq, Repr

/-- How a field is selected, and the type of what it selects. -/
inductive FieldKind where
  | scalar (type : ValueType)
  | composite (attributes : List Attribute)
  | map (keyMember : String) (valueMember : Option String) (type : ValueType)
  deriving DecidableEq, Repr

/-- A filterable property. -/
structure Field where
  /-- The name as declared. -/
  label : String
  path : Path
  kind : FieldKind
  converter : Option Converter

namespace Field

/-- The name of the field in upper case, by which it is found. -/
def name (field : Field) : String := Text.upper field.label

/-- The type of the field itself, which is text for a composite field. -/
def type (field : Field) : ValueType :=
  match field.kind with
  | .scalar type => type
  | .composite _ => .string
  | .map _ _ type => type

/-- Whether the field is selected by a key. -/
def isMap (field : Field) : Bool :=
  match field.kind with
  | .map _ _ _ => true
  | _ => false

/-- The attributes of a composite field; other fields have none. -/
def attributes (field : Field) : List Attribute :=
  match field.kind with
  | .composite attributes => attributes
  | _ => []

/-- The member that holds the key of an entry of a map field. -/
def keyMember? (field : Field) : Option String :=
  match field.kind with
  | .map keyMember _ _ => some keyMember
  | _ => none

/-- The member that holds the value of an entry of a map field, if there is one. -/
def valueMember? (field : Field) : Option String :=
  match field.kind with
  | .map _ valueMember _ => valueMember
  | _ => none

/-- The first attribute whose name agrees up to the case of ASCII letters. -/
def attribute? (field : Field) (name : String) : Option Attribute :=
  field.attributes.find? fun a => Text.equalsIgnoringCase a.name name

/-- The selectors of the field as error messages list them. -/
def selectors (field : Field) : List String :=
  let lower := Text.lower field.name
  match field.kind with
  | .scalar _ => [lower]
  | .composite attributes => attributes.map fun a => lower ++ "." ++ a.name
  | .map _ _ _ => [lower ++ ".keyName"]

end Field

end FilterQuery
