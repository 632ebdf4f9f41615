import Authust.Storage.StageKinds
import Authust.Storage.TenantRows

/-! # Redirects to the flows of a tenant

A request for a designation is redirected to the flow that the tenant of its host names for it.
The flow is taken from the column of enrollments where a recovery is asked for, a flow with
bindings is not loaded, and a location that is no header value is left out of the answer.
-/

namespace Authust

open Postgres

structure RedirectResponse where
  status : Nat
  location : Option String
  deriving DecidableEq

namespace RedirectResponse

/-- A header value has no control characters other than the tab. -/
def legalLocation (uri : String) : Bool :=
  uri.toList.all fun char => char = '\t' || (32 ≤ char.toNat && char.toNat ≠ 127)

/-- `(StatusCode::FOUND, [(LOCATION, uri)])`: the status stays where the header is refused. -/
def found (uri : String) : RedirectResponse where
  status := 302
  location := if legalLocation uri then some uri else none

def notFound : RedirectResponse where
  status := 404
  location := none

end RedirectResponse

/-- The location of a flow, behind `INTERFACE_BASE_URI`. -/
def flowLocation (base slug : String) : Option String → String
  | some query => base ++ "/flow/" ++ slug ++ "?" ++ query
  | none => base ++ "/flow/" ++ slug

section Handler

variable (client : Client) (base : String)

/-- `Data<Tenant>::from_request_parts`; the inner `none` is its rejection. -/
def tenantFromRequestParts (default : Option Tenant) (host : String) : Option (Option Tenant) := do
  match ← lookupData (findTenant client (.host host)) with
  | some tenant => some (some tenant)
  | none => some default

/-- `tenant_flow_redirect`; `none` where it panics. -/
def tenantFlowRedirect (tenant : Tenant) (designation : FlowDesignation) (query : Option String) :
    Option RedirectResponse :=
  match tenant.getFlow designation with
  | some reference => do
      match ← lookupData (findFlow client reference) with
      | some flow => some (.found (flowLocation base flow.slug query))
      | none => some .notFound
  | none => some .notFound

/-- The route with its extractors. -/
def serveRedirect (default : Option Tenant) (host : String) (designation : FlowDesignation)
    (query : Option String) : Option RedirectResponse := do
  match ← tenantFromRequestParts client default host with
  | some tenant => tenantFlowRedirect client base tenant designation query
  | none => some .notFound

end Handler

section Selecting

variable {client : Client} {db : Database} {row flowRow : Row} {host base : String}
  {designation : FlowDesignation} {query : Option String}

/-- The row of the tenant for a host: the one of the host, else the default one. -/
def TenantFor (db : Database) (host : String) (row : Row) : Prop :=
  row ∈ db "tenants" ∧ (row.lookup "host" = some (some (.text host)) ∨
    (∀ other ∈ db "tenants", other.lookup "host" ≠ some (some (.text host))) ∧
      row.lookup "is_default" = some (some (.bool true)))

/-- The tenant for a host is selected, or there is none. -/
theorem tenantFromRequestParts_cases (hdb : db.Satisfies Schema.initial)
    (hclient : client.Serves db) {default : Option Tenant}
    (hdefault : findDefault client = .ok default) :
    (tenantFromRequestParts client default host = some none ∧ ∀ row, ¬ TenantFor db host row) ∨
      ∃ row tenant, tenantFromRequestParts client default host = some (some tenant) ∧
        tenant.Of row ∧ row ∈ db "tenants" ∧ ∀ other, TenantFor db host other ↔ other = row := by
  by_cases hhost : ∃ row ∈ db "tenants", row.lookup "host" = some (some (.text host))
  · obtain ⟨row, hrow, hlookup⟩ := hhost
    obtain ⟨tenant, htenant, hof⟩ := @findTenant_eq client db row hdb hclient hrow (.host host)
      (.tail _ (.head _)) hlookup
    refine Or.inr ⟨row, tenant, by rw [tenantFromRequestParts, htenant]; rfl, hof, hrow, ?_⟩
    intro other
    constructor
    · rintro ⟨hother, hsame | ⟨hnone, _⟩⟩
      · have hrows := hdb.select_eq (by simp [Schema.initial] : Schema.tenants ∈ _)
          (.tail _ (.head _)) hrow hlookup
        have hmem : other ∈ db.select ⟨Schema.tenants.name, "host"⟩ (.text host) :=
          List.mem_filter.mpr ⟨hother, decide_eq_true hsame⟩
        rw [hrows] at hmem
        exact List.mem_singleton.mp hmem
      · exact absurd hlookup (hnone row hrow)
    · rintro rfl
      exact ⟨hrow, Or.inl hlookup⟩
  · have hnone : ∀ row ∈ db "tenants", row.lookup "host" ≠ some (some (.text host)) :=
      fun row hrow hlookup => hhost ⟨row, hrow, hlookup⟩
    have hselected : tenantFromRequestParts client default host = some default := by
      rw [tenantFromRequestParts, findTenant_eq_none hclient hnone]
      rfl
    have hfor : ∀ row, TenantFor db host row ↔
        row ∈ db "tenants" ∧ row.lookup "is_default" = some (some (.bool true)) := by
      intro row
      constructor
      · rintro ⟨hrow, hlookup | ⟨_, hmarked⟩⟩
        · exact absurd hlookup (hnone row hrow)
        · exact ⟨hrow, hmarked⟩
      · rintro ⟨hrow, hmarked⟩
        exact ⟨hrow, Or.inr ⟨hnone, hmarked⟩⟩
    rcases findDefault_spec hdb hclient hdefault with
      ⟨rfl, hunmarked⟩ | ⟨row, tenant, rfl, hof, honly⟩
    · exact Or.inl
        ⟨hselected, fun row hrow => hunmarked row ((hfor row).mp hrow).1 ((hfor row).mp hrow).2⟩
    · refine Or.inr ⟨row, tenant, hselected, hof, ((honly row).mpr rfl).1, fun other => ?_⟩
      rw [hfor, honly]

/-- A row that is referred to by its uid is the only one. -/
theorem findFlow_refers (hdb : db.Satisfies Schema.initial) (hclient : client.Serves db) {uid : Int}
    (hrow : flowRow ∈ db "flows") (huid : flowRow.lookup "uid" = some (some (.int4 uid))) :
    lookupData (findFlow client (.uid uid)) = (flowFromRow client flowRow).map some := by
  have hselect := hdb.select_eq (by simp [Schema.initial] : Schema.flows ∈ _) (.head _) hrow huid
  rw [findFlow, findRow_eq hclient hselect]
  cases flowFromRow client flowRow <;> rfl

/-- A column of a tenant is null or refers to a flow. -/
theorem column_cases (hdb : db.Satisfies Schema.initial) (hrow : row ∈ db "tenants")
    (designation : FlowDesignation) : row.lookup designation.column = some none ∨
      ∃ flowRow slug, Refers db row designation.column "flows" flowRow ∧
        flowRow.lookup "slug" = some (some (.text slug)) := by
  obtain ⟨uid, hlookup, _⟩ := flowColumn_eq hdb hrow designation
  cases uid with
  | none => exact Or.inl hlookup
  | some uid =>
      have hreference : ⟨designation.column, "flows", "uid"⟩ ∈ Schema.tenants.references := by
        cases designation <;> simp [Schema.tenants, FlowDesignation.column, FlowDesignation.label]
      have htarget := hdb.references Schema.tenants (by simp [Schema.initial]) _ hreference row hrow
      rw [hlookup] at htarget
      simp only [Option.map_some, Option.join_some, Option.all_some, List.any_eq_true,
        decide_eq_true_eq] at htarget
      obtain ⟨flowRow, hflow, huid⟩ := htarget
      obtain ⟨slug, hslug, _⟩ := (hdb.rows Schema.flows (by simp [Schema.initial]) flowRow
        hflow).varchar (.tail _ (.head _))
      exact Or.inr ⟨flowRow, slug, ⟨uid, hlookup, hflow, huid⟩, hslug⟩

/-- The answer of a tenant whose column is null, refers to a flow that is loaded, or to one that is
not. -/
theorem redirect_cases (hdb : db.Satisfies Schema.initial) (hclient : client.Serves db)
    {tenant : Tenant} (hof : tenant.Of row) (hrow : row ∈ db "tenants") :
    (row.lookup designation.taken.column = some none ∧
      tenantFlowRedirect client base tenant designation query = some .notFound) ∨
    ∃ flowRow slug, Refers db row designation.taken.column "flows" flowRow ∧
      flowRow.lookup "slug" = some (some (.text slug)) ∧
        ((Unbound db flowRow ∧ tenantFlowRedirect client base tenant designation query =
            some (.found (flowLocation base slug query))) ∨
          (¬ Unbound db flowRow ∧
            tenantFlowRedirect client base tenant designation query = none)) := by
  obtain ⟨found, hlookup, hflow⟩ := hof.flow designation
  rcases column_cases hdb hrow designation.taken with hnull | ⟨flowRow, slug, hrefers, hslug⟩
  · rw [hnull] at hlookup
    refine Or.inl ⟨hnull, ?_⟩
    cases found with
    | none => rw [tenantFlowRedirect, hflow]; rfl
    | some uid => cases hlookup
  · refine Or.inr ⟨flowRow, slug, hrefers, hslug, ?_⟩
    obtain ⟨uid, hcolumn, hflowRow, huid⟩ := hrefers
    rw [hcolumn] at hlookup
    obtain rfl : found = some uid := by
      cases found with
      | none => cases hlookup
      | some found =>
          cases hlookup
          rfl
    rw [tenantFlowRedirect, hflow]
    simp only [Option.map_some, findFlow_refers hdb hclient hflowRow huid]
    by_cases hunbound : Unbound db flowRow
    · obtain ⟨flow, hloaded, hcarries⟩ := carriesFlow_of_unbound hdb hclient hflowRow hunbound
      have hsame := hcarries.slug
      rw [hslug, Option.some.injEq, Option.some.injEq, PgValue.text.injEq] at hsame
      rw [hloaded, hsame]
      exact Or.inl ⟨hunbound, rfl⟩
    · refine Or.inr ⟨hunbound, ?_⟩
      cases hloaded : flowFromRow client flowRow with
      | none => rfl
      | some flow => exact absurd (unbound_of_flowFromRow hdb hclient hflowRow hloaded) hunbound

/-- The answer is a redirect to the flow that the tenant names for the designation. -/
structure RedirectsRight (db : Database) (base host : String) (designation : FlowDesignation)
    (query : Option String) (answer : Option RedirectResponse) : Prop where
  found : ∀ row flowRow slug, TenantFor db host row →
    Refers db row designation.column "flows" flowRow →
      flowRow.lookup "slug" = some (some (.text slug)) →
        answer = some ⟨302, some (flowLocation base slug query)⟩
  notFound : answer = some ⟨404, none⟩ ↔
    ∀ row, TenantFor db host row → row.lookup designation.column = some none

/-- The tenant's flow can be redirected to: a recovery is one to enrollments, the flow and its
entries have no bindings and the location is a header value. -/
structure Redirectable (db : Database) (base : String) (designation : FlowDesignation)
    (query : Option String) (row : Row) : Prop where
  recovery : designation = .recovery → row.lookup "recovery_flow" = row.lookup "enrollment_flow"
  loaded : ∀ flowRow, Refers db row designation.column "flows" flowRow → Unbound db flowRow
  legal : ∀ flowRow slug, Refers db row designation.column "flows" flowRow →
    flowRow.lookup "slug" = some (some (.text slug)) →
      RedirectResponse.legalLocation (flowLocation base slug query) = true

theorem flowLocation_injective {first second : String}
    (hsame : flowLocation base first query = flowLocation base second query) : first = second := by
  cases query with
  | none => exact (String.append_right_inj _).mp hsame
  | some query =>
      have hprefix := (String.append_left_inj _).mp ((String.append_left_inj _).mp hsame)
      exact (String.append_right_inj _).mp hprefix

theorem Refers.unique_flow (hdb : db.Satisfies Schema.initial) {column : String}
    {first second : Row} (hfirst : Refers db row column "flows" first)
    (hsecond : Refers db row column "flows" second) : first = second := by
  have htable : Schema.flows ∈ Schema.initial := by simp [Schema.initial]
  exact Refers.unique hdb htable (.head _) hfirst hsecond

theorem found_eq_iff {uri location : String} :
    RedirectResponse.found uri = ⟨302, some location⟩ ↔
      RedirectResponse.legalLocation uri = true ∧ uri = location := by
  unfold RedirectResponse.found
  by_cases hlegal : RedirectResponse.legalLocation uri = true <;> simp [hlegal]

/-- A right answer has been taken from the column of the designation. -/
theorem RedirectsRight.column_eq (hdb : db.Satisfies Schema.initial) (hclient : client.Serves db)
    {tenant : Tenant} (hof : tenant.Of row) (hrow : row ∈ db "tenants")
    (honly : ∀ other, TenantFor db host other ↔ other = row)
    (hright : RedirectsRight db base host designation query
      (tenantFlowRedirect client base tenant designation query)) :
    row.lookup designation.taken.column = row.lookup designation.column := by
  have hfor : TenantFor db host row := (honly row).mpr rfl
  rcases @redirect_cases client db row base designation query hdb hclient tenant hof hrow with
    ⟨htaken, hanswer⟩ | ⟨taken, slug, htaken, hslug, hanswer⟩
  · rw [htaken, hright.notFound.mp hanswer row hfor]
  · rcases column_cases hdb hrow designation with hnull | ⟨flowRow, other, hrefers, hother⟩
    · have hmissing := hright.notFound.mpr fun other hother => (honly other).mp hother ▸ hnull
      rcases hanswer with ⟨_, hanswer⟩ | ⟨_, hanswer⟩
      · rw [hanswer] at hmissing
        cases hmissing
      · rw [hanswer] at hmissing
        cases hmissing
    · have hfound := hright.found row flowRow other hfor hrefers hother
      rcases hanswer with ⟨_, hanswer⟩ | ⟨_, hanswer⟩
      · -- two flows with the slug are one
        rw [hanswer, Option.some.injEq, found_eq_iff] at hfound
        obtain rfl := flowLocation_injective hfound.2
        obtain ⟨uid, htaken, hmem, huid⟩ := htaken
        obtain ⟨uid', hcolumn, hmem', huid'⟩ := hrefers
        obtain rfl := hdb.row_unique (by simp [Schema.initial] : Schema.flows ∈ _)
          (.tail _ (.tail _ (.head _))) hmem hslug hmem' hother
        rw [huid] at huid'
        rw [htaken, hcolumn, huid']
      · rw [hanswer] at hfound
        cases hfound

/-- Behind a right answer, the flow has been loaded and its location is a header value. -/
theorem RedirectsRight.reached (hdb : db.Satisfies Schema.initial) (hclient : client.Serves db)
    {tenant : Tenant} (hof : tenant.Of row) (hrow : row ∈ db "tenants")
    (honly : ∀ other, TenantFor db host other ↔ other = row)
    (hright : RedirectsRight db base host designation query
      (tenantFlowRedirect client base tenant designation query)) {flowRow : Row} {slug : String}
    (hrefers : Refers db row designation.column "flows" flowRow)
    (hslug : flowRow.lookup "slug" = some (some (.text slug))) :
    Unbound db flowRow ∧
      RedirectResponse.legalLocation (flowLocation base slug query) = true := by
  have hsame := hright.column_eq hdb hclient hof hrow honly
  have hfound := hright.found row flowRow slug ((honly row).mpr rfl) hrefers hslug
  rcases @redirect_cases client db row base designation query hdb hclient tenant hof hrow with
    ⟨_, hanswer⟩ | ⟨taken, other, htaken, hother, ⟨hunbound, hanswer⟩ | ⟨_, hanswer⟩⟩
  · rw [hanswer] at hfound
    cases hfound
  · rw [Refers, hsame] at htaken
    obtain rfl := Refers.unique_flow hdb htaken hrefers
    rw [hanswer, Option.some.injEq, found_eq_iff] at hfound
    exact ⟨hunbound, hfound.2 ▸ hfound.1⟩
  · rw [hanswer] at hfound
    cases hfound

theorem RedirectsRight.redirectable (hdb : db.Satisfies Schema.initial)
    (hclient : client.Serves db) {tenant : Tenant} (hof : tenant.Of row) (hrow : row ∈ db "tenants")
    (honly : ∀ other, TenantFor db host other ↔ other = row)
    (hright : RedirectsRight db base host designation query
      (tenantFlowRedirect client base tenant designation query)) :
    Redirectable db base designation query row where
  recovery := by
    rintro rfl
    exact (hright.column_eq hdb hclient hof hrow honly).symm
  loaded := by
    intro flowRow hrefers
    obtain ⟨uid, _, hmem, _⟩ := id hrefers
    obtain ⟨slug, hslug, _⟩ := (hdb.rows Schema.flows (by simp [Schema.initial]) flowRow
      hmem).varchar (.tail _ (.head _))
    exact (hright.reached hdb hclient hof hrow honly hrefers hslug).1
  legal := fun _ _ hrefers hslug => (hright.reached hdb hclient hof hrow honly hrefers hslug).2

/-- The column that is taken is the one of the designation. -/
theorem Redirectable.column_eq (hredirectable : Redirectable db base designation query row) :
    row.lookup designation.taken.column = row.lookup designation.column := by
  cases designation with
  | recovery => exact (hredirectable.recovery rfl).symm
  | _ => rfl

theorem Redirectable.redirectsRight (hdb : db.Satisfies Schema.initial)
    (hclient : client.Serves db) {tenant : Tenant} (hof : tenant.Of row) (hrow : row ∈ db "tenants")
    (honly : ∀ other, TenantFor db host other ↔ other = row)
    (hredirectable : Redirectable db base designation query row) :
    RedirectsRight db base host designation query
      (tenantFlowRedirect client base tenant designation query) := by
  have hsame := hredirectable.column_eq
  rcases @redirect_cases client db row base designation query hdb hclient tenant hof hrow with
    ⟨hnull, hanswer⟩ | ⟨taken, slug, htaken, hslug, hloaded⟩
  · rw [hsame] at hnull
    rw [hanswer]
    refine ⟨?_, iff_of_true rfl fun other hother => (honly other).mp hother ▸ hnull⟩
    rintro other flowRow slug hother ⟨uid, hcolumn, _⟩ _
    obtain rfl := (honly other).mp hother
    rw [hnull] at hcolumn
    cases hcolumn
  · rw [Refers, hsame] at htaken
    have hlegal := hredirectable.legal taken slug htaken hslug
    have hanswer := (hloaded.resolve_right fun hbound =>
      hbound.1 (hredirectable.loaded taken htaken)).2
    rw [found_eq_iff.mpr ⟨hlegal, rfl⟩] at hanswer
    rw [hanswer]
    refine ⟨?_, iff_of_false (by simp) fun hnull => ?_⟩
    · intro other flowRow otherSlug hother hrefers hotherSlug
      obtain rfl := (honly other).mp hother
      obtain rfl := Refers.unique_flow hdb htaken hrefers
      rw [hslug] at hotherSlug
      cases hotherSlug
      rfl
    · obtain ⟨uid, hcolumn, _⟩ := htaken
      rw [hnull row ((honly row).mpr rfl)] at hcolumn
      cases hcolumn

/-- The answer of a tenant's row, and when it is right. -/
theorem redirectsRight_iff (hdb : db.Satisfies Schema.initial) (hclient : client.Serves db)
    {tenant : Tenant} (hof : tenant.Of row) (hrow : row ∈ db "tenants")
    (honly : ∀ other, TenantFor db host other ↔ other = row) :
    RedirectsRight db base host designation query
        (tenantFlowRedirect client base tenant designation query) ↔
      Redirectable db base designation query row where
  mp := RedirectsRight.redirectable hdb hclient hof hrow honly
  mpr := Redirectable.redirectsRight hdb hclient hof hrow honly

/-- A request is redirected to the flow that its tenant names for the designation exactly where the
tenant, if there is one, lets it be. -/
theorem serveRedirect_right_iff (hdb : db.Satisfies Schema.initial) (hclient : client.Serves db)
    {default : Option Tenant} (hdefault : findDefault client = .ok default) :
    RedirectsRight db base host designation query
        (serveRedirect client base default host designation query) ↔
      ∀ row, TenantFor db host row → Redirectable db base designation query row := by
  rcases @tenantFromRequestParts_cases client db host hdb hclient default hdefault with
    ⟨hselected, hnone⟩ | ⟨row, tenant, hselected, hof, hrow, honly⟩
  · rw [serveRedirect, hselected]
    refine iff_of_true ⟨fun row _ _ hrow => absurd hrow (hnone row), ?_⟩
      fun row hrow => absurd hrow (hnone row)
    exact iff_of_true rfl fun row hrow => absurd hrow (hnone row)
  · have hserved : serveRedirect client base default host designation query =
        tenantFlowRedirect client base tenant designation query := by
      rw [serveRedirect, hselected]
      rfl
    rw [hserved, redirectsRight_iff hdb hclient hof hrow honly]
    constructor
    · intro hredirectable other hother
      exact (honly other).mp hother ▸ hredirectable
    · exact fun hredirectable => hredirectable row ((honly row).mpr rfl)

end Selecting

section RedirectSamples

/-- A row of `flows`. -/
def flowRowOf (uid : Int) (slug designation : String) : Row :=
  [("uid", some (.int4 uid)), ("slug", some (.text slug)), ("title", some (.text slug)),
    ("designation", some (.enum "flow_designation" designation)),
    ("authentication", some (.enum "authentication_requirement" "ignored"))]

/-- The default tenant, with a flow for logins, one for enrollments and one for recoveries. -/
def sampleTenantRow : Row :=
  [("uid", some (.int4 1)), ("host", some (.text "localhost")), ("is_default", some (.bool true)),
    ("title", some (.text "Authust")), ("logo", some (.text "/logo")),
    ("favicon", some (.text "/favicon")), ("invalidation_flow", none),
    ("authentication_flow", some (.int4 1)), ("authorization_flow", none),
    ("enrollment_flow", some (.int4 2)), ("recovery_flow", some (.int4 3)),
    ("unenrollment_flow", none), ("configuration_flow", none)]

def tenantDatabase : Database := fun table =>
  ([("flows", [flowRowOf 1 "login" "authentication", flowRowOf 2 "enroll" "enrollment",
      flowRowOf 3 "recover" "recovery"]),
    ("tenants", [sampleTenantRow])].lookup table).getD []

theorem tenantDatabase_satisfies : tenantDatabase.Satisfies Schema.initial := by
  decide +kernel

theorem tenantDatabase_recovery : (findDefault tenantDatabase.client).toOption.map (fun default =>
    serveRedirect tenantDatabase.client "" default "localhost" .recovery (some "next=/")) =
      some (some ⟨302, some "/flow/enroll?next=/"⟩) := by
  decide +kernel

theorem tenantDatabase_default : ∃ default, findDefault tenantDatabase.client = .ok default ∧
    serveRedirect tenantDatabase.client "" default "localhost" .recovery (some "next=/") =
      some ⟨302, some "/flow/enroll?next=/"⟩ := by
  have hanswer := tenantDatabase_recovery
  cases hdefault : findDefault tenantDatabase.client with
  | error error =>
      rw [hdefault] at hanswer
      cases hanswer
  | ok default =>
      rw [hdefault] at hanswer
      exact ⟨default, rfl, Option.some.inj hanswer⟩

/-- A host without a tenant is sent to the login of the default one. -/
theorem login_redirected_right : ∃ default, findDefault tenantDatabase.client = .ok default ∧
    RedirectsRight tenantDatabase "" "other" .authentication none
      (serveRedirect tenantDatabase.client "" default "other" .authentication none) := by
  obtain ⟨default, hdefault, _⟩ := tenantDatabase_default
  refine ⟨default, hdefault, (serveRedirect_right_iff tenantDatabase_satisfies
    tenantDatabase.client_serves hdefault).mpr ?_⟩
  rintro row ⟨hrow, _⟩
  constructor
  · intro hrecovery
    cases hrecovery
  · intro flowRow _ uid _
    refine ⟨rfl, fun entry hentry => ?_⟩
    cases hentry
  · rintro flowRow slug ⟨uid, _, hmem, _⟩ hslug
    have hlisted : flowRow ∈ [flowRowOf 1 "login" "authentication",
      flowRowOf 2 "enroll" "enrollment", flowRowOf 3 "recover" "recovery"] := hmem
    simp only [List.mem_cons, List.not_mem_nil, or_false] at hlisted
    rcases hlisted with rfl | rfl | rfl
    all_goals
      cases hslug
      decide +kernel

/-- A recovery is sent to the flow for enrollments. -/
theorem recovery_sent_to_enrollment : ∃ (db : Database) (default : Option Tenant),
    db.Satisfies Schema.initial ∧ findDefault db.client = .ok default ∧
      ¬ RedirectsRight db "" "localhost" .recovery (some "next=/")
        (serveRedirect db.client "" default "localhost" .recovery (some "next=/")) := by
  obtain ⟨default, hdefault, hanswer⟩ := tenantDatabase_default
  refine ⟨tenantDatabase, default, tenantDatabase_satisfies, hdefault, fun hright => ?_⟩
  have hfound := hright.found sampleTenantRow (flowRowOf 3 "recover" "recovery") "recover"
    ⟨.head _, Or.inl rfl⟩ ⟨3, rfl, .tail _ (.tail _ (.head _)), rfl⟩ rfl
  rw [hanswer] at hfound
  revert hfound
  decide +kernel

end RedirectSamples

end Authust
