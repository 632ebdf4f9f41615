import Authust.Storage.StageRows

/-! # Tenants from their rows

A tenant names the flows of its host by their uid, one column for each designation, and a
default tenant stands in for hosts that have none.
-/

namespace Authust

open Postgres

structure Tenant where
  uid : Int
  host : String
  default : Bool
  title : String
  logo : String
  favicon : String
  invalidationFlow : Option (DataRef FlowQuery)
  authenticationFlow : Option (DataRef FlowQuery)
  authorizationFlow : Option (DataRef FlowQuery)
  enrollmentFlow : Option (DataRef FlowQuery)
  recoveryFlow : Option (DataRef FlowQuery)
  unenrollmentFlow : Option (DataRef FlowQuery)
  configurationFlow : Option (DataRef FlowQuery)

/-- `Tenant::get_flow` -/
def Tenant.getFlow (tenant : Tenant) : FlowDesignation → Option (DataRef FlowQuery)
  | .invalidation => tenant.invalidationFlow
  | .authentication => tenant.authenticationFlow
  | .authorization => tenant.authorizationFlow
  | .enrollment => tenant.enrollmentFlow
  -- the flow of enrollments, not that of recoveries
  | .recovery => tenant.enrollmentFlow
  | .unenrollment => tenant.unenrollmentFlow
  | .configuration => tenant.configurationFlow

inductive TenantQuery : Type
  | uid (value : Int)
  | host (value : String)
  deriving DecidableEq

/-- `tenant/by-id.sql` and `tenant/by-host.sql` -/
def TenantQuery.select : TenantQuery → Select × PgValue
  | uid value => (⟨"tenants", "uid"⟩, .int4 value)
  | host value => (⟨"tenants", "host"⟩, .text value)

/-- `row.get::<_, Option<i32>>(column).map(|uid| DataRef::new(FlowQuery::uid(uid)))` -/
def flowColumn (row : Row) (column : String) : Except LoadFailure (Option (DataRef FlowQuery)) := do
  let uid ← row.load (.nullable .int4) column
  .ok (uid.map FlowQuery.uid)

/-- `from_row` of a tenant. -/
def tenantFromRow (row : Row) : Except LoadFailure Tenant := do
  let uid ← row.load .int4 "uid"
  let host ← row.load .text "host"
  let default ← row.load .bool "is_default"
  let title ← row.load .text "title"
  let logo ← row.load .text "logo"
  let favicon ← row.load .text "favicon"
  let invalidationFlow ← flowColumn row "invalidation_flow"
  let authenticationFlow ← flowColumn row "authentication_flow"
  let authorizationFlow ← flowColumn row "authorization_flow"
  let enrollmentFlow ← flowColumn row "enrollment_flow"
  let recoveryFlow ← flowColumn row "recovery_flow"
  let unenrollmentFlow ← flowColumn row "unenrollment_flow"
  let configurationFlow ← flowColumn row "configuration_flow"
  .ok
    { uid := uid
      host := host
      default := default
      title := title
      logo := logo
      favicon := favicon
      invalidationFlow := invalidationFlow
      authenticationFlow := authenticationFlow
      authorizationFlow := authorizationFlow
      enrollmentFlow := enrollmentFlow
      recoveryFlow := recoveryFlow
      unenrollmentFlow := unenrollmentFlow
      configurationFlow := configurationFlow }

variable (client : Client)

/-- `TenantExecutor::find_optional` -/
def findTenant (query : TenantQuery) : Except LoadFailure (Option Tenant) :=
  findRow client tenantFromRow query.select

/-- `select uid from tenants where is_default = true` -/
def defaultTenants : Select := ⟨"tenants", "is_default"⟩

/-- `Defaults::find_default`; the server is not started where it fails. -/
def findDefault : Except LoadFailure (Option Tenant) := do
  match ← client.queryOpt defaultTenants (.bool true) with
  | none => .ok none
  | some row => do
      let uid ← row.load .int4 "uid"
      findTenant client (.uid uid)

section Decoding

/-- The column that is named after a designation. -/
def FlowDesignation.column (designation : FlowDesignation) : String := designation.label ++ "_flow"

/-- The designation whose column a tenant's flow is taken from. -/
def FlowDesignation.taken : FlowDesignation → FlowDesignation
  | recovery => enrollment
  | designation => designation

variable {client : Client} {db : Database} {row : Row}

/-- Each designation has a column of its own. -/
theorem flowColumn_eq (hdb : db.Satisfies Schema.initial) (hrow : row ∈ db "tenants")
    (designation : FlowDesignation) : ∃ uid : Option Int,
      row.lookup designation.column = some (uid.map .int4) ∧
        flowColumn row designation.column = .ok (uid.map FlowQuery.uid) := by
  have hadmits := hdb.rows Schema.tenants (by simp [Schema.initial]) row hrow
  have hcolumn : ⟨designation.column, .int4, false, fun _ => true⟩ ∈ Schema.tenants.columns := by
    cases designation <;>
      simp [Schema.tenants, Column.required, Column.nullable, FlowDesignation.column,
        FlowDesignation.label]
  obtain ⟨uid, hlookup, hget⟩ := hadmits.nullableInt4 hcolumn
  refine ⟨uid, hlookup, ?_⟩
  rw [← Row.load_eq_ok_iff] at hget
  rw [flowColumn, hget]
  rfl

/-- The flow of a tenant comes from a column of its row. -/
theorem tenantFromRow_getFlow (hdb : db.Satisfies Schema.initial) (hrow : row ∈ db "tenants") :
    ∃ tenant, tenantFromRow row = .ok tenant ∧ ∀ designation, ∃ uid : Option Int,
      row.lookup (FlowDesignation.column designation.taken) = some (uid.map .int4) ∧
        tenant.getFlow designation = uid.map FlowQuery.uid := by
  have hadmits := hdb.rows Schema.tenants (by simp [Schema.initial]) row hrow
  obtain ⟨uid, _, huid⟩ := hadmits.int4 (.head _)
  obtain ⟨host, _, hhost⟩ := hadmits.varchar (.tail _ (.head _))
  obtain ⟨default, _, hdefault⟩ := hadmits.bool (.tail _ (.tail _ (.head _)))
  obtain ⟨title, _, htitle⟩ := hadmits.varchar (.tail _ (.tail _ (.tail _ (.head _))))
  obtain ⟨logo, _, hlogo⟩ := hadmits.varchar (.tail _ (.tail _ (.tail _ (.tail _ (.head _)))))
  obtain ⟨favicon, _, hfavicon⟩ :=
    hadmits.varchar (.tail _ (.tail _ (.tail _ (.tail _ (.tail _ (.head _))))))
  rw [← Row.load_eq_ok_iff] at huid hhost hdefault htitle hlogo hfavicon
  choose flow hlookup hflow using @flowColumn_eq db row hdb hrow
  have hcolumns : tenantFromRow row = .ok
      { uid := uid
        host := host
        default := default
        title := title
        logo := logo
        favicon := favicon
        invalidationFlow := (flow .invalidation).map FlowQuery.uid
        authenticationFlow := (flow .authentication).map FlowQuery.uid
        authorizationFlow := (flow .authorization).map FlowQuery.uid
        enrollmentFlow := (flow .enrollment).map FlowQuery.uid
        recoveryFlow := (flow .recovery).map FlowQuery.uid
        unenrollmentFlow := (flow .unenrollment).map FlowQuery.uid
        configurationFlow := (flow .configuration).map FlowQuery.uid } := by
    simp only [tenantFromRow, huid, hhost, hdefault, htitle, hlogo, hfavicon,
      show flowColumn row "invalidation_flow" = _ from hflow .invalidation,
      show flowColumn row "authentication_flow" = _ from hflow .authentication,
      show flowColumn row "authorization_flow" = _ from hflow .authorization,
      show flowColumn row "enrollment_flow" = _ from hflow .enrollment,
      show flowColumn row "recovery_flow" = _ from hflow .recovery,
      show flowColumn row "unenrollment_flow" = _ from hflow .unenrollment,
      show flowColumn row "configuration_flow" = _ from hflow .configuration]
    rfl
  refine ⟨_, hcolumns, fun designation => ⟨flow designation.taken, hlookup designation.taken, ?_⟩⟩
  cases designation <;> rfl

/-- The tenant of a row. -/
structure Tenant.Of (row : Row) (tenant : Tenant) : Prop where
  decoded : tenantFromRow row = .ok tenant
  flow : ∀ designation, ∃ uid : Option Int,
    row.lookup (FlowDesignation.column designation.taken) = some (uid.map .int4) ∧
      tenant.getFlow designation = uid.map FlowQuery.uid

/-- The row that has the value in a unique column is found. -/
theorem findTenant_eq (hdb : db.Satisfies Schema.initial) (hclient : client.Serves db)
    (hrow : row ∈ db "tenants") {query : TenantQuery}
    (hunique : [query.select.1.column] ∈ Schema.tenants.unique)
    (hlookup : row.lookup query.select.1.column = some (some query.select.2)) :
    ∃ tenant, findTenant client query = .ok (some tenant) ∧ tenant.Of row := by
  obtain ⟨tenant, htenant, hflow⟩ := tenantFromRow_getFlow hdb hrow
  have hselect := hdb.select_eq (by simp [Schema.initial] : Schema.tenants ∈ _) hunique hrow hlookup
  have htable : query.select.1 = ⟨Schema.tenants.name, query.select.1.column⟩ := by
    cases query <;> rfl
  rw [← htable] at hselect
  refine ⟨tenant, ?_, htenant, hflow⟩
  rw [findTenant, findRow_eq hclient hselect, htenant]
  rfl

theorem findTenant_eq_none (hclient : client.Serves db) {host : String}
    (hnone : ∀ row ∈ db "tenants", row.lookup "host" ≠ some (some (.text host))) :
    findTenant client (.host host) = .ok none := by
  refine findRow_eq_none hclient ?_
  rw [Database.select, List.filter_eq_nil_iff]
  intro row hrow hlookup
  exact hnone row hrow (of_decide_eq_true hlookup)

/-- The default tenant is that of the only row that is marked so. -/
theorem findDefault_spec (hdb : db.Satisfies Schema.initial) (hclient : client.Serves db)
    {default : Option Tenant} (hdefault : findDefault client = .ok default) :
    (default = none ∧ ∀ row ∈ db "tenants", row.lookup "is_default" ≠ some (some (.bool true))) ∨
      ∃ row tenant, default = some tenant ∧ tenant.Of row ∧
        ∀ other, other ∈ db "tenants" ∧ other.lookup "is_default" = some (some (.bool true)) ↔
          other = row := by
  have hmarked : ∀ other, other ∈ client defaultTenants (.bool true) ↔
      other ∈ db "tenants" ∧ other.lookup "is_default" = some (some (.bool true)) := by
    intro other
    rw [hclient.mem, Database.select, List.mem_filter, decide_eq_true_iff]
    rfl
  obtain ⟨answer, hanswer, hdefault⟩ := bind_eq_ok.mp hdefault
  unfold Client.queryOpt at hanswer
  split at hanswer
  next hrows =>
    cases hanswer
    cases hdefault
    refine Or.inl ⟨rfl, fun row hrow hlookup => ?_⟩
    have hmem := (hmarked row).mpr ⟨hrow, hlookup⟩
    rw [hrows] at hmem
    cases hmem
  next row hrows =>
    cases hanswer
    have hrow : row ∈ db "tenants" := ((hmarked row).mp (by simp [hrows])).1
    obtain ⟨uid, huid, hget⟩ :=
      (hdb.rows Schema.tenants (by simp [Schema.initial]) row hrow).int4 (.head _)
    obtain ⟨tenant, htenant, hof⟩ := @findTenant_eq client db row hdb hclient hrow (.uid uid)
      (.head _) huid
    obtain ⟨found, hfound, hdefault⟩ := bind_eq_ok.mp hdefault
    obtain rfl : uid = found := by
      rw [Row.load_eq_ok_iff.mpr hget] at hfound
      exact Except.ok.inj hfound
    rw [htenant] at hdefault
    cases hdefault
    refine Or.inr ⟨row, tenant, rfl, hof, fun other => ?_⟩
    rw [← hmarked, hrows, List.mem_singleton]
  next => cases hanswer

end Decoding

end Authust
