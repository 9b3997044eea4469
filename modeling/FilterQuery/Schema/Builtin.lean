import FilterQuery.Schema.Basic

/-!
# Built-in schemas

Two entities of device management come with the library: **targets**, which are managed devices, and
**actions**, which are steps of a rollout. An action stores a flag that says whether it is active,
and queries call the two values of the flag `pending` and `finished`.

The fields are written down with a small constructor for each kind, and the schemas are made of them
by `Schema.ofFields`, which checks nothing. That the checks would find no fault in the fields of a
target is seen by evaluation (`Schema.build_target`). The status of an action is the one field with
a converter; the converter takes the two words in any letter case and gives the flag.
-/

namespace FilterQuery

namespace Field

/-- A scalar field. -/
def scalar (label dotted : String) (type : ValueType) : Field :=
  ⟨label, .ofText dotted, .scalar type, none⟩

/-- A composite field. -/
def composite (label dotted : String) (attributes : List Attribute) : Field :=
  ⟨label, .ofText dotted, .composite attributes, none⟩

/-- A map field. -/
def map (label dotted keyMember : String) (valueMember : Option String) (type : ValueType) :
    Field :=
  ⟨label, .ofText dotted, .map keyMember valueMember type, none⟩

/-- The field with a converter. -/
def withConverter (field : Field) (converter : Converter) : Field :=
  { field with converter := some converter }

end Field

namespace Schema

/-- The update status of a target. -/
def updateStatus : EnumType :=
  ⟨"TargetUpdateStatus", ["ERROR", "IN_SYNC", "PENDING", "REGISTERED", "UNKNOWN"]⟩

/-- The attributes of a distribution set. -/
def distributionSet : List Attribute := [⟨"name", .string⟩, ⟨"version", .string⟩]

/-- The fields of a target. -/
def targetFields : List Field :=
  [.scalar "ID" "controllerId" .string,
   .scalar "NAME" "name" .string,
   .scalar "DESCRIPTION" "description" .string,
   .scalar "CREATEDAT" "createdAt" .int64,
   .scalar "LASTMODIFIEDAT" "lastModifiedAt" .int64,
   .scalar "CONTROLLERID" "controllerId" .string,
   .scalar "UPDATESTATUS" "updateStatus" (.enumeration updateStatus),
   .scalar "IPADDRESS" "address" .string,
   .scalar "LASTCONTROLLERREQUESTAT" "lastTargetQuery" .int64,
   .scalar "TAG" "tags.name" .string,
   .composite "ASSIGNEDDS" "assignedDistributionSet" distributionSet,
   .composite "INSTALLEDDS" "installedDistributionSet" distributionSet,
   .map "ATTRIBUTE" "controllerAttributes" "key" (some "value") .string,
   .map "METADATA" "metadata" "key" (some "value") .string]

/-- The stored flag of an action status in any letter case. -/
def activeFlag (status : String) : Option Value :=
  let lower := Text.lower status
  if lower = "pending" then some (.boolean true)
  else if lower = "finished" then some (.boolean false)
  else none

/-- The conversion of an action status into the stored flag. -/
def actionStatus : Converter := ⟨activeFlag, ["pending", "finished"]⟩

/-- The fields of an action. -/
def actionFields : List Field :=
  [.scalar "ID" "id" .int64,
   (Field.scalar "STATUS" "active" .boolean).withConverter actionStatus,
   .scalar "WEIGHT" "weight" .int32]

/-- The schema of targets. -/
def target : Schema := .ofFields "target" targetFields

/-- The schema of actions. -/
def action : Schema := .ofFields "action" actionFields

theorem build_target : build "target" targetFields = .ok target := by rfl

end Schema

end FilterQuery
