import Mathlib.Data.List.Basic

/-! # The data model

Flows, stages, policies and users as the `model` crate declares them, with the errors
and the flow data that the executor answers.
-/

namespace Authust

abbrev Uuid := BitVec 128

def Uuid.nil : Uuid := 0

/-- A reference is the query that finds its datum. -/
abbrev DataRef (Query : Type) := Query

inductive FlowQuery : Type
  | uid (uid : Int)
  | slug (slug : String)
  deriving DecidableEq

inductive StageQuery : Type
  | uid (uid : Int)
  | slug (slug : String)
  deriving DecidableEq

inductive PolicyQuery : Type
  | uid (uid : Int)
  | slug (slug : String)
  deriving DecidableEq

inductive PromptQuery : Type
  | uid (uid : Int)
  deriving DecidableEq

inductive AuthenticationRequirement : Type
  | superuser
  | required
  | none
  | ignored
  deriving DecidableEq

inductive FlowDesignation : Type
  | invalidation
  | authentication
  | authorization
  | enrollment
  | recovery
  | unenrollment
  | configuration
  deriving DecidableEq

inductive FlowBindingKind : Type
  | group (uid : Uuid)
  | user (uid : Uuid)
  | policy (policy : DataRef PolicyQuery)
  deriving DecidableEq

structure FlowBinding where
  enabled : Bool
  negate : Bool
  order : Int
  kind : FlowBindingKind
  deriving DecidableEq

structure FlowEntry where
  ordering : Int
  bindings : List FlowBinding
  stage : DataRef StageQuery
  deriving DecidableEq

structure Flow where
  uid : Int
  slug : String
  title : String
  designation : FlowDesignation
  authentication : AuthenticationRequirement
  bindings : List FlowBinding
  entries : List FlowEntry
  deriving DecidableEq

structure PromptBinding where
  order : Int
  prompt : DataRef PromptQuery
  deriving DecidableEq

/-- Only what a lookup needs; no modelled function reads the texts of a prompt. -/
structure Prompt where
  uid : Int
  deriving DecidableEq

inductive PasswordBackend : Type
  | internal
  | ldap
  deriving DecidableEq

inductive UserField : Type
  | email
  | name
  | uuid
  deriving DecidableEq

inductive ConsentMode : Type
  | always
  | once
  | until (duration : Int)
  deriving DecidableEq

inductive StageKind : Type
  | deny
  | prompt (bindings : List PromptBinding)
  | identification (password : Option (DataRef StageQuery)) (userFields : List UserField)
  | userLogin
  | userLogout
  | userWrite
  | password (backends : List PasswordBackend)
  | consent (mode : ConsentMode)
  deriving DecidableEq

def StageKind.requiresInput : StageKind → Bool
  | deny => true
  | prompt _ => true
  | identification _ _ => true
  | userLogin | userLogout | userWrite => false
  | password _ => true
  | consent _ => true

structure Stage where
  uid : Int
  slug : String
  kind : StageKind
  timeout : Int
  deriving DecidableEq

inductive PolicyKind : Type
  | passwordExpiry (maxAge : Int)
  | passwordStrength
  | expression (source : String)
  deriving DecidableEq

structure Policy where
  uid : Int
  slug : String
  kind : PolicyKind
  deriving DecidableEq

/-- Instants are counted in nanoseconds. -/
abbrev OffsetDateTime := Int

def secondsToDuration (seconds : Int) : Int := seconds * 1000000000

structure PartialUser where
  uid : Uuid
  name : String
  avatarUrl : Option String
  isAdmin : Bool
  passwordChangeDate : OffsetDateTime
  deriving DecidableEq

structure PendingUser where
  uid : Uuid
  name : String
  avatarUrl : Option String
  authenticated : Bool
  isAdmin : Bool
  deriving DecidableEq

/-- The JSON value that a submitted form is decoded into. -/
inductive Value : Type
  | null
  | bool (value : Bool)
  | number (text : String)
  | string (value : String)
  | array (items : List Value)
  | object (fields : List (String × Value))

def Value.get : Value → String → Option Value
  | object fields, key => fields.lookup key
  | _, _ => .none

inductive FieldType : Type
  | null
  | boolean
  | string
  | number
  | object
  | array
  deriving DecidableEq

def FieldType.ofValue : Value → FieldType
  | .null => null
  | .bool _ => boolean
  | .number _ => number
  | .string _ => string
  | .array _ => array
  | .object _ => object

inductive FieldErrorKind : Type
  | missing
  | invalid (message : String)
  | invalidType (expected got : FieldType)
  deriving DecidableEq

structure FieldError where
  field : String
  kind : FieldErrorKind
  deriving DecidableEq

inductive SubmissionError : Type
  | noPendingUser
  | field (error : FieldError)
  deriving DecidableEq

def FlowQuery.finds : FlowQuery → Flow → Bool
  | uid value, flow => flow.uid = value
  | slug value, flow => flow.slug = value

def StageQuery.finds : StageQuery → Stage → Bool
  | uid value, stage => stage.uid = value
  | slug value, stage => stage.slug = value

def PolicyQuery.finds : PolicyQuery → Policy → Bool
  | uid value, policy => policy.uid = value
  | slug value, policy => policy.slug = value

structure PasswordComponentData where
  recoveryUrl : String
  deriving DecidableEq

structure Source where
  name : String
  iconUrl : String
  deriving DecidableEq

structure Sources where
  sources : List Source
  showSourceLabels : Bool
  deriving DecidableEq

inductive FlowComponent : Type
  | accessDenied (message : String)
  | identification (userFields : List UserField) (sources : Sources)
      (password : Option PasswordComponentData)
  | password (data : PasswordComponentData)
  | redirect (target : String)
  | error (message : String)
  deriving DecidableEq

structure FlowInfo where
  title : String
  deriving DecidableEq

structure FlowData where
  flow : FlowInfo
  error : Option SubmissionError
  pendingUser : Option PendingUser
  component : FlowComponent
  deriving DecidableEq

end Authust
