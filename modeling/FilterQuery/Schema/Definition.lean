import FilterQuery.Json.Document
import FilterQuery.Schema.Basic

/-!
# Schema definitions

A **definition** describes a schema in plain data. It makes a schema unless a field is a map with
attributes, a type is an enumeration without constants, or the fields do not go together. A fault
within a field is found before any fault between the fields.

A definition is written in JSON, each part as a record: an object with named members, or an array
with the members in order. Unknown members are skipped unread, a member that has a default may be
missing, and no member may be given twice.

The two passes over the fields are apart: `FieldDefinition.fault?` looks at one definition at a
time, and `SchemaDefinition.toSchema` runs it over all of them before it builds the schema from the
fields that they describe. Reading works on the syntax tree of the text and not on its value,
because a member that is skipped is not looked into: neither a numeral out of range nor a wrong
escape is noticed there.
-/

namespace FilterQuery

/-- The members of the entries of a map that hold the key and the value. -/
structure MapDefinition where
  keyMember : String
  valueMember : Option String
  deriving DecidableEq, Repr

/-- A field in plain data. -/
structure FieldDefinition where
  name : String
  path : String
  type : ValueType
  attributes : List Attribute
  map : Option MapDefinition
  deriving DecidableEq, Repr

/-- A schema in plain data. -/
structure SchemaDefinition where
  entity : String
  fields : List FieldDefinition
  deriving DecidableEq, Repr

/-! ### From definitions to schemas -/

/-- What is wrong with a type. -/
def ValueType.fault? : ValueType → Option SchemaError
  | .enumeration type => if type.constants.isEmpty then some (.emptyEnum type.name) else none
  | _ => none

namespace FieldDefinition

/-- What is wrong with a field by itself. -/
def fault? (definition : FieldDefinition) : Option SchemaError :=
  match definition.type.fault? with
  | some e => some e
  | none =>
    if definition.map.isSome && !definition.attributes.isEmpty then
      some (.attributesOnMap definition.name)
    else definition.attributes.findSome? fun a => a.type.fault?

/-- How the field is selected. -/
def kind (definition : FieldDefinition) : FieldKind :=
  match definition.map with
  | some map => .map map.keyMember map.valueMember definition.type
  | none =>
    if definition.attributes.isEmpty then .scalar definition.type
    else .composite definition.attributes

/-- The field that is defined. -/
def toField (definition : FieldDefinition) : Field :=
  ⟨definition.name, .ofText definition.path, definition.kind, none⟩

end FieldDefinition

namespace SchemaDefinition

/-- The schema that is defined. -/
def toSchema (definition : SchemaDefinition) : Except SchemaError Schema :=
  match definition.fields.findSome? FieldDefinition.fault? with
  | some e => .error e
  | none => Schema.build definition.entity (definition.fields.map FieldDefinition.toField)

end SchemaDefinition

/-! ### Reading definitions -/

namespace Json.SyntaxTree

/-- The text of a string. -/
def readText : SyntaxTree → Option String
  | .string units => text? units
  | _ => none

/-- The items of an array. -/
def readList {α : Type} (read : SyntaxTree → Option α) : SyntaxTree → Option (List α)
  | .array items => items.mapM read
  | _ => none

/-- What is read, or nothing for `null`. -/
def readNullable {α : Type} (read : SyntaxTree → Option α) : SyntaxTree → Option (Option α)
  | .null => some none
  | tree => (read tree).map some

/-- What is read if the member is there, else the default. -/
def readOr {α : Type} (default : α) (read : SyntaxTree → Option α) :
    Option SyntaxTree → Option α
  | some tree => read tree
  | none => some default

/-- The only member of the given name, or none; two members of one name are refused. -/
def onlyMember (members : List (String × SyntaxTree)) (name : String) :
    Option (Option SyntaxTree) :=
  match members.filter (·.1 = name) with
  | [] => some none
  | [member] => some (some member.2)
  | _ => none

/-- The members of a record in the order of their names. -/
def readRecord (names : List String) : SyntaxTree → Option (List (Option SyntaxTree))
  | .array items =>
    if items.length ≤ names.length then
      some (items.map some ++ List.replicate (names.length - items.length) none)
    else none
  | .object members => do
    let members ← members.mapM fun member => (text? member.1).map (·, member.2)
    names.mapM (onlyMember members)
  | _ => none

/-- A type by its name. -/
def typeOfName (name : String) : Option ValueType :=
  match name with
  | "string" => some .string
  | "boolean" => some .boolean
  | "int32" => some .int32
  | "int64" => some .int64
  | "float64" => some .float64
  | _ => none

/-- The record of an enumeration. -/
def readEnumType (tree : SyntaxTree) : Option EnumType := do
  match ← readRecord ["name", "constants"] tree with
  | [some name, some constants] => return ⟨← readText name, ← readList readText constants⟩
  | _ => none

/-- A type: its name, or an object of its name and its content, which only enumerations have. -/
def readType : SyntaxTree → Option ValueType
  | .string units => (text? units).bind typeOfName
  | .object [(key, content)] => do
    let name ← text? key
    if name = "enum" then (readEnumType content).map .enumeration
    else match content with
      | .null => typeOfName name
      | _ => none
  | _ => none

/-- The record of an attribute. -/
def readAttribute (tree : SyntaxTree) : Option Attribute := do
  match ← readRecord ["name", "value_type"] tree with
  | [some name, type] => return ⟨← readText name, ← readOr .string readType type⟩
  | _ => none

/-- The record of a map. -/
def readMap (tree : SyntaxTree) : Option MapDefinition := do
  match ← readRecord ["key_field_name", "value_field_name"] tree with
  | [some key, value] => return ⟨← readText key, ← readOr none (readNullable readText) value⟩
  | _ => none

/-- The record of a field. -/
def readField (tree : SyntaxTree) : Option FieldDefinition := do
  match ← readRecord ["name", "path", "value_type", "sub_entity_attributes", "map"] tree with
  | [some name, some path, type, attributes, map] =>
    return ⟨← readText name, ← readText path, ← readOr .string readType type,
      ← readOr [] (readList readAttribute) attributes, ← readOr none (readNullable readMap) map⟩
  | _ => none

/-- The record of a schema. -/
def readSchema (tree : SyntaxTree) : Option SchemaDefinition := do
  match ← readRecord ["entity", "fields"] tree with
  | [some entity, some fields] => return ⟨← readText entity, ← readList readField fields⟩
  | _ => none

end Json.SyntaxTree

/-- Why a text defines no schema. -/
inductive DefinitionError where
  /-- The text is not JSON, or its parts are not the records of a definition. -/
  | malformed
  | invalid (e : SchemaError)
  deriving DecidableEq, Repr

namespace Schema

/-- The schema that a JSON text defines. -/
def ofJson (text : String) : Except DefinitionError Schema :=
  match (Json.SyntaxTree.ofText? text).bind Json.SyntaxTree.readSchema with
  | some definition => definition.toSchema.mapError .invalid
  | none => .error .malformed

end Schema

end FilterQuery
