import Authust.Model.Data

/-! # The JSON of the flow data

What the serde attributes of the `model` crate make of its types: a tagged enum carries the name
of its variant among the fields of the variant, and the fields of a flattened member stand among
those of the whole. Skipped fields are not written.
-/

namespace Authust

/-- `rename_all = "snake_case"` of a variant. -/
def snakeCase (variant : String) : String :=
  match variant.toList with
  | [] => ""
  | first :: rest => String.ofList (first.toLower ::
      rest.flatMap fun char => if char.isUpper then ['_', char.toLower] else [char])

/-! The variants whose tags the schema names. -/

@[simp] theorem snakeCase_accessDenied : snakeCase "AccessDenied" = "access_denied" := by
  decide

@[simp] theorem snakeCase_identification : snakeCase "Identification" = "identification" := by
  decide

@[simp] theorem snakeCase_password : snakeCase "Password" = "password" := by
  decide

@[simp] theorem snakeCase_redirect : snakeCase "Redirect" = "redirect" := by
  decide

@[simp] theorem snakeCase_error : snakeCase "Error" = "error" := by
  decide

@[simp] theorem snakeCase_noPendingUser : snakeCase "NoPendingUser" = "no_pending_user" := by
  decide

@[simp] theorem snakeCase_field : snakeCase "Field" = "field" := by
  decide

@[simp] theorem snakeCase_email : snakeCase "Email" = "email" := by
  decide

@[simp] theorem snakeCase_name : snakeCase "Name" = "name" := by
  decide

@[simp] theorem snakeCase_uuid : snakeCase "Uuid" = "uuid" := by
  decide

/-- The fields of a variant of an enum with `tag`. -/
def tagged (tag variant : String) (fields : List (String × Value)) : List (String × Value) :=
  (tag, .string (snakeCase variant)) :: fields

def serializeOption {α : Type} (serialize : α → Value) : Option α → Value
  | some value => serialize value
  | none => .null

def FieldType.serialize : FieldType → Value
  | null => .string (snakeCase "Null")
  | boolean => .string (snakeCase "Boolean")
  | string => .string (snakeCase "String")
  | number => .string (snakeCase "Number")
  | object => .string (snakeCase "Object")
  | array => .string (snakeCase "Array")

def FieldErrorKind.fields : FieldErrorKind → List (String × Value)
  | missing => tagged "kind" "Missing" []
  | invalid message => tagged "kind" "Invalid" [("message", .string message)]
  | invalidType expected got =>
      tagged "kind" "InvalidType" [("expected", expected.serialize), ("got", got.serialize)]

/-- The kind is flattened. -/
def FieldError.fields (error : FieldError) : List (String × Value) :=
  error.kind.fields ++ [("field", .string error.field)]

def SubmissionError.fields : SubmissionError → List (String × Value)
  | noPendingUser => tagged "type" "NoPendingUser" []
  | field error => tagged "type" "Field" error.fields

def SubmissionError.serialize (error : SubmissionError) : Value :=
  .object error.fields

def UserField.serialize : UserField → Value
  | email => .string (snakeCase "Email")
  | name => .string (snakeCase "Name")
  | uuid => .string (snakeCase "Uuid")

def PasswordComponentData.fields (data : PasswordComponentData) : List (String × Value) :=
  [("recovery_url", .string data.recoveryUrl)]

def Source.serialize (source : Source) : Value :=
  .object [("name", .string source.name), ("icon_url", .string source.iconUrl)]

def Sources.fields (sources : Sources) : List (String × Value) :=
  [("sources", .array (sources.sources.map Source.serialize)),
    ("show_source_labels", .bool sources.showSourceLabels)]

/-- The sources of an identification and the data of a password are flattened. -/
def FlowComponent.fields : FlowComponent → List (String × Value)
  | accessDenied message => tagged "component" "AccessDenied" [("message", .string message)]
  | identification userFields sources recovery =>
      tagged "component" "Identification"
        (("user_fields", .array (userFields.map UserField.serialize)) :: sources.fields ++
          [("password", serializeOption (fun data => .object data.fields) recovery)])
  | password data => tagged "component" "Password" data.fields
  | redirect target => tagged "component" "Redirect" [("to", .string target)]
  | error message => tagged "component" "Error" [("message", .string message)]

/-- The uid and the two flags are skipped. -/
def PendingUser.serialize (user : PendingUser) : Value :=
  .object [("name", .string user.name), ("avatar_url", serializeOption .string user.avatarUrl)]

def FlowInfo.serialize (info : FlowInfo) : Value :=
  .object [("title", .string info.title)]

/-- The error is renamed and the component flattened. -/
def FlowData.fields (data : FlowData) : List (String × Value) :=
  [("flow", data.flow.serialize),
    ("response_error", serializeOption SubmissionError.serialize data.error),
    ("pending_user", serializeOption PendingUser.serialize data.pendingUser)] ++
    data.component.fields

def FlowData.serialize (data : FlowData) : Value :=
  .object data.fields

end Authust
