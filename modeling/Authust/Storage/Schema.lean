import Authust.Postgres.Row

/-! # The schema of the database

The tables of the first migration. A unique index on the lower case of a column that is
checked to be lower case is one on the column itself.
-/

namespace Authust.Schema

open Postgres

def policyKind : PgType :=
  .enum "policy_kind" ["password_expiry", "password_strength", "expression"]

def promptKind : PgType :=
  .enum "prompt_kind" ["username", "email", "password", "text", "text_read_only", "signed_number",
    "unsigned_number", "checkbox", "switch", "date", "date_time", "seperator", "static", "locale"]

def stageKind : PgType :=
  .enum "stage_kind" ["deny", "prompt", "identification", "user_login", "user_logout", "user_write",
    "password", "consent"]

def consentMode : PgType := .enum "consent_mode" ["always", "once", "until"]

def useridFields : PgType := .enumArray "userid_field" ["email", "name", "uuid"]

def authenticationRequirement : PgType :=
  .enum "authentication_requirement" ["required", "none", "superuser", "ignored"]

def flowDesignation : PgType :=
  .enum "flow_designation" ["invalidation", "authentication", "authorization", "enrollment",
    "recovery", "unenrollment", "configuration"]

def users : Table where
  name := "users"
  columns := [.required "uid" .uuid, .lower "name" (.varchar 32), .nullable "email" (.varchar 64),
    .nullable "display_name" (.varchar 32), .required "password" (.varchar 255),
    .required "password_change_date" .timestamptz, .required "administrator" .bool]
  unique := [["uid"], ["name"], ["email"]]
  references := []

def sessions : Table where
  name := "sessions"
  columns := [.required "uid" (.bpchar 96), .nullable "user_id" .uuid]
  unique := [["uid"]]
  references := [⟨"user_id", "users", "uid"⟩]

def passwordExpirationPolicies : Table where
  name := "password_expiration_policies"
  columns := [.required "uid" .int4, .required "max_age" .int4]
  unique := [["uid"]]
  references := []

def passwordStrengthPolicies : Table where
  name := "password_strength_policies"
  columns := [.required "uid" .int4]
  unique := [["uid"]]
  references := []

def expressionPolicies : Table where
  name := "expression_policies"
  columns := [.required "uid" .int4, .required "expression" .text]
  unique := [["uid"]]
  references := []

def policies : Table where
  name := "policies"
  columns := [.required "uid" .int4, .lower "slug" (.varchar 128), .required "kind" policyKind,
    .nullable "password_expiration" .int4, .nullable "password_strength" .int4,
    .nullable "expression" .int4]
  unique := [["uid"], ["slug"]]
  references := [⟨"password_expiration", "password_expiration_policies", "uid"⟩,
    ⟨"password_strength", "password_strength_policies", "uid"⟩,
    ⟨"expression", "expression_policies", "uid"⟩]

def policyBindings : Table where
  name := "policy_bindings"
  columns := [.required "uid" .int4, .required "enabled" .bool, .required "negate_result" .bool,
    .required "policy" .int4]
  unique := [["uid"]]
  references := [⟨"policy", "policies", "uid"⟩]

def prompts : Table where
  name := "prompts"
  columns := [.required "uid" .int4, .required "field_key" (.varchar 32),
    .required "label" (.varchar 32), .required "kind" promptKind,
    .nullable "placeholder" (.varchar 128), .required "required" .bool,
    .nullable "help_text" (.varchar 128)]
  unique := [["uid"]]
  references := []

def consentStages : Table where
  name := "consent_stages"
  columns := [.required "uid" .int4, .required "mode" consentMode, .nullable "until" .int4]
  unique := [["uid"]]
  references := []

def identificationStages : Table where
  name := "identification_stages"
  columns := [.required "uid" .int4, .required "fields" useridFields]
  unique := [["uid"]]
  references := []

def stages : Table where
  name := "stages"
  columns := [.required "uid" .int4, .lower "slug" (.varchar 128), .required "kind" stageKind,
    .required "timeout" .int4, .nullable "identification_password_stage" .int4,
    .nullable "identification_stage" .int4, .nullable "consent_stage" .int4]
  unique := [["uid"], ["slug"]]
  -- `identification_stage` refers to `stages` and not to `identification_stages`
  references := [⟨"identification_password_stage", "stages", "uid"⟩,
    ⟨"identification_stage", "stages", "uid"⟩, ⟨"consent_stage", "consent_stages", "uid"⟩]

def stagePromptBindings : Table where
  name := "stage_prompt_bindings"
  columns := [.required "prompt" .int4, .required "stage" .int4, .required "ordering" .int2]
  unique := [["prompt", "stage"]]
  references := [⟨"prompt", "prompts", "uid"⟩, ⟨"stage", "stages", "uid"⟩]

def flows : Table where
  name := "flows"
  columns := [.required "uid" .int4, .lower "slug" (.varchar 128), .required "title" (.varchar 128),
    .required "designation" flowDesignation, .required "authentication" authenticationRequirement]
  unique := [["uid"], ["title"], ["slug"]]
  references := []

def flowEntries : Table where
  name := "flow_entries"
  columns := [.required "uid" .int4, .required "flow" .int4, .required "stage" .int4,
    .required "ordering" .int2]
  unique := [["uid"], ["flow", "stage", "ordering"]]
  references := [⟨"flow", "flows", "uid"⟩, ⟨"stage", "stages", "uid"⟩]

def flowBindings : Table where
  name := "flow_bindings"
  columns := [.required "policy" .int4, .nullable "flow" .int4, .nullable "entry" .int4,
    .nullable "group_binding" .uuid, .nullable "user_binding" .uuid, .required "ordering" .int2,
    .required "enabled" .bool, .required "negate_result" .bool]
  unique := []
  references := [⟨"policy", "policies", "uid"⟩, ⟨"flow", "flows", "uid"⟩,
    ⟨"entry", "flow_entries", "uid"⟩, ⟨"user_binding", "users", "uid"⟩]

def providers : Table where
  name := "providers"
  columns := [.required "uid" .int4, .lower "slug" (.varchar 64),
    .required "display_name" (.varchar 64)]
  unique := [["uid"], ["slug"]]
  references := []

def applications : Table where
  name := "applications"
  columns := [.required "uid" .int4, .lower "slug" (.varchar 64), .required "display_name"
    (.varchar 64), .required "provider" .int4]
  unique := [["uid"], ["slug"]]
  references := [⟨"provider", "providers", "uid"⟩]

def tenants : Table where
  name := "tenants"
  columns := [.required "uid" .int4, .required "host" (.varchar 255), .required "is_default" .bool,
    .required "title" (.varchar 64), .required "logo" (.varchar 255),
    .required "favicon" (.varchar 255),
    .nullable "invalidation_flow" .int4, .nullable "authentication_flow" .int4,
    .nullable "authorization_flow" .int4, .nullable "enrollment_flow" .int4,
    .nullable "recovery_flow" .int4, .nullable "unenrollment_flow" .int4,
    .nullable "configuration_flow" .int4]
  unique := [["uid"], ["host"]]
  references := [⟨"invalidation_flow", "flows", "uid"⟩, ⟨"authentication_flow", "flows", "uid"⟩,
    ⟨"authorization_flow", "flows", "uid"⟩, ⟨"enrollment_flow", "flows", "uid"⟩,
    ⟨"recovery_flow", "flows", "uid"⟩, ⟨"unenrollment_flow", "flows", "uid"⟩,
    ⟨"configuration_flow", "flows", "uid"⟩]

/-- `V1__initial.sql` -/
def initial : List Table :=
  [users, sessions, passwordExpirationPolicies, passwordStrengthPolicies,
    expressionPolicies, policies,
    policyBindings, prompts, consentStages, identificationStages, stages,
      stagePromptBindings, flows,
    flowEntries, flowBindings, providers, applications, tenants]

end Authust.Schema
