import Authust.Json.Schema
import Authust.Model.Serialize

/-! # The published schema of the flow data

The executor's answers are described by a schema that is kept by hand. Every component conforms
to it; a submission error does unless it is about a field, and a pending user only with an avatar.
-/

namespace Authust

open JsonSchema

instance : Json Value where
  kind := fun
    | .null => .null
    | .bool _ => .boolean
    | .number _ => .number
    | .string _ => .string
    | .array _ => .array
    | .object _ => .object
  text := fun
    | .string text => some text
    | _ => none
  member := Value.get
  items := fun
    | .array items => items
    | _ => []

section Document

/-- `"type": "string"` with an `enum`. -/
def enumSchema (texts : List String) : Schema :=
  .all [.type .string, .enum texts]

/-- `"type": "object"` with the keywords `required` and `properties`. -/
def objectSchema (required : List String) (members : List (String × Schema)) : Schema :=
  .all [.type .object, .required required, .properties members]

def accessDeniedSchema : Schema :=
  objectSchema ["component", "message"]
    [("component", enumSchema ["access_denied"]), ("message", .type .string)]

def identificationSchema : Schema :=
  objectSchema ["component", "show_source_labels", "sources", "user_fields"]
    [("component", enumSchema ["identification"]), ("show_source_labels", .type .boolean),
      ("sources", .all [.type .array, .items (.ref "Source")]),
      ("user_fields", .all [.type .array, .items (.ref "UserField")])]

def passwordSchema : Schema :=
  objectSchema ["component", "recovery_url"]
    [("component", enumSchema ["password"]), ("recovery_url", .type .string)]

def redirectSchema : Schema :=
  objectSchema ["component", "to"]
    [("component", enumSchema ["redirect"]), ("to", .type .string)]

def errorSchema : Schema :=
  objectSchema ["component", "message"]
    [("component", enumSchema ["error"]), ("message", .type .string)]

def fieldTypeSchema : Schema :=
  enumSchema ["null", "boolean", "string", "number", "object", "array"]

def flowInfoSchema : Schema :=
  objectSchema ["title"] [("title", .type .string)]

def pendingUserSchema : Schema :=
  objectSchema ["avatar_url", "name"] [("avatar_url", .type .string), ("name", .type .string)]

def sourceSchema : Schema :=
  objectSchema ["icon_url", "name"] [("icon_url", .type .string), ("name", .type .string)]

def missingFieldSchema : Schema :=
  objectSchema ["field_name", "type"]
    [("field_name", .type .string), ("type", enumSchema ["missing_field"])]

def invalidFieldTypeSchema : Schema :=
  objectSchema ["expected", "field_name", "got", "type"]
    [("expected", .ref "FieldType"), ("field_name", .type .string), ("got", .ref "FieldType"),
      ("type", enumSchema ["invalid_field_type"])]

def noPendingUserSchema : Schema :=
  objectSchema ["type"] [("type", enumSchema ["no_pending_user"])]

def invalidSchema : Schema :=
  objectSchema ["field", "message", "type"]
    [("field", .type .string), ("message", .type .string), ("type", enumSchema ["invalid"])]

def fieldSchema : Schema :=
  .all [.type .object, .oneOf [invalidSchema], .required ["type"],
    .properties [("type", enumSchema ["field"])]]

def unauthenticatedSchema : Schema :=
  objectSchema ["type"] [("type", enumSchema ["unauthenticated"])]

/-- The definition of `SubmissionError`. -/
def submissionErrorSchemas : List Schema :=
  [missingFieldSchema, invalidFieldTypeSchema, noPendingUserSchema, fieldSchema,
    unauthenticatedSchema]

def userFieldSchema : Schema :=
  enumSchema ["email", "name", "uuid"]

/-- The alternatives for the components. -/
def componentSchemas : List Schema :=
  [accessDeniedSchema, identificationSchema, passwordSchema, redirectSchema, errorSchema]

/-- The `properties` of the whole. -/
def dataProperties : Schema :=
  .properties [("flow", .ref "FlowInfo"),
    ("pending_user", .anyOf [.ref "PendingUser", .type .null]),
    ("response_error", .anyOf [.ref "SubmissionError", .type .null])]

def rootSchema : Schema :=
  .all [.type .object, .oneOf componentSchemas, .required ["flow"], dataProperties]

/-- `model/schemas/flow-data.json` -/
def flowDataSchema : Document where
  root := rootSchema
  definitions := [("FieldType", fieldTypeSchema), ("FlowInfo", flowInfoSchema),
    ("PendingUser", pendingUserSchema), ("Source", sourceSchema),
    ("SubmissionError", .oneOf submissionErrorSchemas), ("UserField", userFieldSchema)]

/-- Only the errors refer to another definition. -/
theorem flowDataSchema_grounded :
    flowDataSchema.Grounded fun name => if name = "SubmissionError" then 1 else 0 where
  refers := by decide
  bounded := by decide

end Document

section Shapes

variable {refs : String → Value → Bool}

@[simp] theorem kind_string (text : String) : Json.kind (Value.string text) = .string := rfl

@[simp] theorem kind_object (fields : List (String × Value)) :
    Json.kind (Value.object fields) = .object := rfl

@[simp] theorem member_object (fields : List (String × Value)) (key : String) :
    Json.member (Value.object fields) key = fields.lookup key := rfl

@[simp] theorem kind_bool (flag : Bool) : Json.kind (Value.bool flag) = .boolean := rfl

@[simp] theorem accepts_enumSchema {texts : List String} {text : String} :
    accepts refs (enumSchema texts) (.string text) = true ↔ text ∈ texts := by
  simp [enumSchema, accepts_all, Json.text]

theorem accepts_objectSchema {required : List String} {members : List (String × Schema)}
    {fields : List (String × Value)} :
    accepts refs (objectSchema required members) (.object fields) = true ↔
      (∀ key ∈ required, (fields.lookup key).isSome) ∧
        ∀ described ∈ members, ∀ inner, fields.lookup described.1 = some inner →
          accepts refs described.2 inner = true := by
  simp [objectSchema, accepts_all, accepts_required, accepts_properties, accepts_property]

theorem accepts_array {schema : Schema} {items : List Value} :
    accepts refs (.all [.type .array, .items schema]) (.array items) = true ↔
      ∀ item ∈ items, accepts refs schema item = true := by
  simp [accepts_all, accepts_items, Json.kind, Json.items]

theorem accepts_orNull {schema : Schema} {value : Value} (hvalue : Json.kind value = .object) :
    accepts refs (.anyOf [schema, .type .null]) value = accepts refs schema value := by
  rw [Bool.eq_iff_iff]
  simp [accepts_anyOf, hvalue]

end Shapes

section Definitions

theorem accepts_flowInfo (info : FlowInfo) :
    flowDataSchema.meaning "FlowInfo" info.serialize = true := by
  rw [flowDataSchema_grounded.meaning_eq rfl, FlowInfo.serialize, flowInfoSchema,
    accepts_objectSchema]
  simp [List.lookup_cons]

theorem accepts_source (source : Source) :
    flowDataSchema.meaning "Source" source.serialize = true := by
  rw [flowDataSchema_grounded.meaning_eq rfl, Source.serialize, sourceSchema,
    accepts_objectSchema]
  simp [List.lookup_cons]

theorem accepts_userField (field : UserField) :
    flowDataSchema.meaning "UserField" field.serialize = true := by
  rw [flowDataSchema_grounded.meaning_eq rfl, userFieldSchema]
  cases field <;> simp [UserField.serialize]

theorem accepts_pendingUser_iff (user : PendingUser) :
    flowDataSchema.meaning "PendingUser" user.serialize = true ↔ user.avatarUrl.isSome := by
  rw [flowDataSchema_grounded.meaning_eq rfl, PendingUser.serialize, pendingUserSchema,
    accepts_objectSchema]
  cases user.avatarUrl <;> simp [List.lookup_cons, serializeOption, Json.kind]

end Definitions

section Errors

def SubmissionError.tag : SubmissionError → String
  | noPendingUser => "no_pending_user"
  | field _ => "field"

/-- The alternative for an error. -/
def SubmissionError.schema : SubmissionError → Schema
  | noPendingUser => noPendingUserSchema
  | field _ => fieldSchema

variable (error : SubmissionError)

theorem SubmissionError.lookup_type :
    error.fields.lookup "type" = some (.string error.tag) := by
  cases error <;> simp [fields, tagged, tag]

theorem SubmissionError.filter_schemas :
    submissionErrorSchemas.filter (admits "type" error.tag) = [error.schema] := by
  cases error <;> rfl

/-- The alternative for the errors about a field asks, inside, for another tag. -/
theorem not_accepts_fieldSchema (error : FieldError) :
    accepts flowDataSchema.meaning fieldSchema
      (Value.object (SubmissionError.field error).fields) = false := by
  have htag : (SubmissionError.field error).fields.lookup "type" = some (.string "field") :=
    (SubmissionError.field error).lookup_type
  have htext : Json.text (Value.string "field") = some "field" := rfl
  have hfilter : [invalidSchema].filter (admits "type" "field") = [] := rfl
  rw [Bool.eq_false_iff, Ne, fieldSchema, accepts_all]
  intro haccepts
  have hinvalid := haccepts (.oneOf [invalidSchema]) (by simp)
  rw [not_accepts_oneOf_of_tag rfl htag htext hfilter] at hinvalid
  cases hinvalid

theorem accepts_submissionError_iff :
    flowDataSchema.meaning "SubmissionError" error.serialize = true ↔ error = .noPendingUser := by
  rw [flowDataSchema_grounded.meaning_eq rfl, SubmissionError.serialize,
    accepts_oneOf_of_tag rfl error.lookup_type rfl error.filter_schemas]
  cases error with
  | noPendingUser =>
      rw [SubmissionError.schema, noPendingUserSchema, accepts_objectSchema]
      simp [SubmissionError.fields, tagged]
  | field error =>
      rw [SubmissionError.schema, not_accepts_fieldSchema]
      simp

end Errors

section Components

def FlowComponent.tag : FlowComponent → String
  | accessDenied _ => "access_denied"
  | identification _ _ _ => "identification"
  | password _ => "password"
  | redirect _ => "redirect"
  | error _ => "error"

/-- The alternative for a component. -/
def FlowComponent.schema : FlowComponent → Schema
  | accessDenied _ => accessDeniedSchema
  | identification _ _ _ => identificationSchema
  | password _ => passwordSchema
  | redirect _ => redirectSchema
  | error _ => errorSchema

theorem FlowComponent.filter_schemas (component : FlowComponent) :
    componentSchemas.filter (admits "component" component.tag) = [component.schema] := by
  cases component <;> rfl

variable (data : FlowData)

theorem FlowData.lookup_component :
    data.fields.lookup "component" = some (.string data.component.tag) := by
  obtain ⟨flow, error, pendingUser, component⟩ := data
  cases component <;>
    simp [fields, FlowComponent.fields, tagged, FlowComponent.tag, List.lookup_cons]

theorem accepts_componentSchema :
    accepts flowDataSchema.meaning data.component.schema (Value.object data.fields) = true := by
  obtain ⟨flow, error, pendingUser, component⟩ := data
  cases component with
  | accessDenied message =>
      rw [FlowComponent.schema, accessDeniedSchema, accepts_objectSchema]
      simp [FlowData.fields, FlowComponent.fields, tagged, List.lookup_cons]
  | identification userFields sources recovery =>
      rw [FlowComponent.schema, identificationSchema, accepts_objectSchema]
      simp [FlowData.fields, FlowComponent.fields, Sources.fields, tagged, List.lookup_cons,
        accepts_array, accepts_source, accepts_userField]
  | password data =>
      rw [FlowComponent.schema, passwordSchema, accepts_objectSchema]
      simp [FlowData.fields, FlowComponent.fields, PasswordComponentData.fields, tagged,
        List.lookup_cons]
  | redirect target =>
      rw [FlowComponent.schema, redirectSchema, accepts_objectSchema]
      simp [FlowData.fields, FlowComponent.fields, tagged, List.lookup_cons]
  | error message =>
      rw [FlowComponent.schema, errorSchema, accepts_objectSchema]
      simp [FlowData.fields, FlowComponent.fields, tagged, List.lookup_cons]

/-- Every component is accepted by the alternative for its tag, and by no other. -/
theorem accepts_component :
    accepts flowDataSchema.meaning (.oneOf componentSchemas) data.serialize = true := by
  rw [FlowData.serialize, accepts_oneOf_of_tag rfl data.lookup_component rfl
    data.component.filter_schemas]
  exact accepts_componentSchema data

end Components

section Answers

theorem accepts_pendingUser (found : Option PendingUser) :
    accepts flowDataSchema.meaning (.anyOf [.ref "PendingUser", .type .null])
        (serializeOption PendingUser.serialize found) = true ↔
      ∀ user, found = some user → user.avatarUrl.isSome := by
  cases found with
  | none => simp [accepts_anyOf, serializeOption, Json.kind]
  | some user =>
      rw [serializeOption, accepts_orNull rfl, accepts_ref, accepts_pendingUser_iff]
      simp

theorem accepts_responseError (found : Option SubmissionError) :
    accepts flowDataSchema.meaning (.anyOf [.ref "SubmissionError", .type .null])
        (serializeOption SubmissionError.serialize found) = true ↔
      found = none ∨ found = some .noPendingUser := by
  cases found with
  | none => simp [accepts_anyOf, serializeOption, Json.kind]
  | some error =>
      rw [serializeOption, accepts_orNull rfl, accepts_ref, accepts_submissionError_iff]
      simp

/-- What the schema asks besides the component. -/
theorem FlowData.lookup_fields (data : FlowData) :
    data.fields.lookup "flow" = some data.flow.serialize ∧
      data.fields.lookup "pending_user" =
        some (serializeOption PendingUser.serialize data.pendingUser) ∧
      data.fields.lookup "response_error" =
        some (serializeOption SubmissionError.serialize data.error) := by
  simp [fields, List.lookup_cons]

theorem accepts_dataProperties_iff (data : FlowData) :
    accepts flowDataSchema.meaning dataProperties data.serialize = true ↔
      (data.error = none ∨ data.error = some .noPendingUser) ∧
        ∀ user, data.pendingUser = some user → user.avatarUrl.isSome := by
  obtain ⟨hflow, hpending, herror⟩ := data.lookup_fields
  rw [FlowData.serialize, dataProperties, accepts_properties]
  simp [accepts_property, hflow, hpending, herror, accepts_flowInfo, accepts_pendingUser,
    accepts_responseError, and_comm]

theorem accepts_required_flow (data : FlowData) :
    accepts flowDataSchema.meaning (.required ["flow"]) data.serialize = true := by
  obtain ⟨hflow, _⟩ := data.lookup_fields
  rw [accepts_required, FlowData.serialize]
  intro _ key hkey
  rw [List.mem_singleton.mp hkey, member_object, hflow]
  rfl

/-- Of what the schema asks, only the properties may fail. -/
theorem valid_iff_properties (data : FlowData) :
    flowDataSchema.valid data.serialize = true ↔
      accepts flowDataSchema.meaning dataProperties data.serialize = true := by
  have hkind : accepts flowDataSchema.meaning (.type .object) data.serialize = true := rfl
  change accepts flowDataSchema.meaning rootSchema data.serialize = true ↔ _
  rw [rootSchema, accepts_all]
  simp only [List.forall_mem_cons, hkind, accepts_component, accepts_required_flow, true_and,
    List.not_mem_nil, false_imp_iff, implies_true, and_true]

/-- The flow data conforms to its schema unless it has an error about a field, or a pending user
who has no avatar. -/
theorem flowData_valid_iff (data : FlowData) :
    flowDataSchema.valid data.serialize = true ↔
      (data.error = none ∨ data.error = some .noPendingUser) ∧
        ∀ user, data.pendingUser = some user → user.avatarUrl.isSome := by
  rw [valid_iff_properties, accepts_dataProperties_iff]

example : flowDataSchema.valid (FlowData.serialize ⟨⟨"Login"⟩, some .noPendingUser,
    some ⟨Uuid.nil, "alice", some "/alice.png", false, false⟩,
    .identification [.email, .name] ⟨[⟨"SSO", "/sso.svg"⟩], true⟩ none⟩) = true := by
  decide +kernel

/-- Neither an error about a field nor a pending user without an avatar conforms. -/
theorem flowData_not_conforming :
    ¬flowDataSchema.valid (FlowData.serialize ⟨⟨"Login"⟩, none,
        some ⟨Uuid.nil, "alice", none, false, false⟩, .password ⟨""⟩⟩) = true ∧
      ¬flowDataSchema.valid (FlowData.serialize ⟨⟨"Login"⟩, some (.field ⟨"password", .missing⟩),
        none, .password ⟨""⟩⟩) = true := by
  decide +kernel

end Answers

end Authust
