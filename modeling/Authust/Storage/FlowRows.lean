import Authust.Model.Data
import Authust.Storage.Schema

/-! # Flows from their rows

`from_row` decodes a row of `flows` and selects the bindings, the entries and the bindings
of each entry. A column that the schema does not have makes it panic; the bindings are
sorted, the entries are taken as they come.
-/

namespace Authust

open Postgres

def FlowDesignation.label : FlowDesignation → String
  | invalidation => "invalidation"
  | authentication => "authentication"
  | authorization => "authorization"
  | enrollment => "enrollment"
  | recovery => "recovery"
  | unenrollment => "unenrollment"
  | configuration => "configuration"

/-- The variant that `FromSql` derives for a label. -/
def FlowDesignation.ofLabel (label : String) : Option FlowDesignation :=
  [invalidation, authentication, authorization, enrollment, recovery, unenrollment,
    configuration].find? fun variant => variant.label = label

def AuthenticationRequirement.label : AuthenticationRequirement → String
  | superuser => "superuser"
  | required => "required"
  | none => "none"
  | ignored => "ignored"

def AuthenticationRequirement.ofLabel (label : String) : Option AuthenticationRequirement :=
  [superuser, required, none, ignored].find? fun variant => variant.label = label

/-- `flow/bindings-by-flow.sql`: `select * from flow_bindings where flow = $1` -/
def bindingsByFlow : Select := ⟨"flow_bindings", "flow"⟩

/-- `flow/bindings-by-entry.sql`: `select * from flow_bindings where entry = $1` -/
def bindingsByEntry : Select := ⟨"flow_bindings", "entry"⟩

/-- `flow/entries-by-flow.sql`: `select * from flow_entries where flow = $1` -/
def entriesByFlow : Select := ⟨"flow_entries", "flow"⟩

/-- The kind of a binding: its user, else its group, else its policy. -/
def bindingKindFromRow (row : Row) : Option FlowBindingKind := do
  match ← row.get (.nullable .uuid) "user_binding" with
  | some user => some (.user user)
  | none =>
      match ← row.get (.nullable .uuid) "group_binding" with
      | some group => some (.group group)
      | none =>
          match ← row.get (.nullable .int4) "policy" with
          | some policy => some (.policy (.uid policy))
          | none => some (.user Uuid.nil)

/-- `binding_from_row`; `none` where it panics. -/
def bindingFromRow (row : Row) : Option FlowBinding := do
  let kind ← bindingKindFromRow row
  let enabled ← row.get .bool "enabled"
  let negate ← row.get .bool "negate"
  let order ← row.get .int2 "ordering"
  some { enabled := enabled, negate := negate, order := order, kind := kind }

/-- `sort_by_key(|v| v.order)` -/
def sortByOrder (bindings : List FlowBinding) : List FlowBinding :=
  bindings.insertionSort fun first second => first.order ≤ second.order

variable (client : Client)

/-- `get_bindings` -/
def getBindings (statement : Select) (id : Int) : Option (List FlowBinding) := do
  let bindings ← (client statement (.int4 id)).mapM bindingFromRow
  some (sortByOrder bindings)

/-- `entry_from_row` -/
def entryFromRow (row : Row) : Option FlowEntry := do
  let uid ← row.get .int4 "uid"
  let bindings ← getBindings client bindingsByEntry uid
  let ordering ← row.get .int2 "ordering"
  let stage ← row.get .int4 "stage"
  some { ordering := ordering, bindings := bindings, stage := .uid stage }

/-- `get_entries` -/
def getEntries (id : Int) : Option (List FlowEntry) :=
  (client entriesByFlow (.int4 id)).mapM (entryFromRow client)

/-- `from_row` -/
def flowFromRow (row : Row) : Option Flow := do
  let uid ← row.get .int4 "uid"
  let bindings ← getBindings client bindingsByFlow uid
  let entries ← getEntries client uid
  let slug ← row.get .text "slug"
  let title ← row.get .text "title"
  let designation ← row.get (.enum "flow_designation" FlowDesignation.ofLabel) "designation"
  let authentication ←
    row.get (.enum "authentication_requirement" AuthenticationRequirement.ofLabel) "authentication"
  some
    { uid := uid
      slug := slug
      title := title
      designation := designation
      authentication := authentication
      bindings := bindings
      entries := entries }

section Faithful

/-- What a row says of the user, the group and the policy of its binding. -/
inductive Binds (row : Row) : FlowBindingKind → Prop
  | user {uid : Uuid} (huser : row.lookup "user_binding" = some (some (.uuid uid))) :
      Binds row (.user uid)
  | group {uid : Uuid} (huser : row.lookup "user_binding" = some none)
      (hgroup : row.lookup "group_binding" = some (some (.uuid uid))) : Binds row (.group uid)
  | policy {uid : Int} (huser : row.lookup "user_binding" = some none)
      (hgroup : row.lookup "group_binding" = some none)
      (hpolicy : row.lookup "policy" = some (some (.int4 uid))) : Binds row (.policy (.uid uid))

/-- A binding carries what its row holds. -/
structure Carries (row : Row) (binding : FlowBinding) : Prop where
  enabled : row.lookup "enabled" = some (some (.bool binding.enabled))
  negate : row.lookup "negate_result" = some (some (.bool binding.negate))
  order : row.lookup "ordering" = some (some (.int2 binding.order))
  kind : Binds row binding.kind

/-- Sorted bindings that correspond one to one to the rows. -/
def Correspond (rows : List Row) (bindings : List FlowBinding) : Prop :=
  bindings.Pairwise (fun first second => first.order ≤ second.order) ∧
    ∃ arranged : List Row, arranged.Perm rows ∧ arranged.Forall₂ Carries bindings

/-- An entry carries what its row holds, and the bindings of the row. -/
structure CarriesEntry (db : Database) (row : Row) (entry : FlowEntry) : Prop where
  ordering : row.lookup "ordering" = some (some (.int2 entry.ordering))
  stage : ∃ stage, row.lookup "stage" = some (some (.int4 stage)) ∧ entry.stage = .uid stage
  bindings : ∃ uid, row.lookup "uid" = some (some (.int4 uid)) ∧
    Correspond (db.select bindingsByEntry (.int4 uid)) entry.bindings

/-- A flow carries what its row holds, with the bindings and the entries of the row. -/
structure CarriesFlow (db : Database) (row : Row) (flow : Flow) : Prop where
  uid : row.lookup "uid" = some (some (.int4 flow.uid))
  slug : row.lookup "slug" = some (some (.text flow.slug))
  title : row.lookup "title" = some (some (.text flow.title))
  designation :
    row.lookup "designation" = some (some (.enum "flow_designation" flow.designation.label))
  authentication : row.lookup "authentication" =
    some (some (.enum "authentication_requirement" flow.authentication.label))
  bindings : Correspond (db.select bindingsByFlow (.int4 flow.uid)) flow.bindings
  entries : ∃ arranged : List Row, arranged.Perm (db.select entriesByFlow (.int4 flow.uid)) ∧
    arranged.Forall₂ (CarriesEntry db) flow.entries

/-- `flow_bindings` has no row for the flow of the row and none for any of its entries. -/
def Unbound (db : Database) (row : Row) : Prop :=
  ∀ uid, row.lookup "uid" = some (some (.int4 uid)) → db.select bindingsByFlow (.int4 uid) = [] ∧
    ∀ entry ∈ db.select entriesByFlow (.int4 uid), ∀ entryUid,
      entry.lookup "uid" = some (some (.int4 entryUid)) →
        db.select bindingsByEntry (.int4 entryUid) = []

end Faithful

section Decoding

variable {client : Client} {db : Database} {row : Row}

theorem FlowDesignation.label_of_ofLabel {label : String} {designation : FlowDesignation}
    (hlabel : ofLabel label = some designation) : designation.label = label := by
  simpa using List.find?_some hlabel

theorem AuthenticationRequirement.label_of_ofLabel {label : String}
    {requirement : AuthenticationRequirement} (hlabel : ofLabel label = some requirement) :
    requirement.label = label := by
  simpa using List.find?_some hlabel

/-- There is no column `negate`. -/
theorem bindingFromRow_eq_none (hadmits : Schema.flowBindings.Admits row) :
    bindingFromRow row = none := by
  have hnegate : row.get .bool "negate" = none := hadmits.get_eq_none (by decide)
  simp [bindingFromRow, hnegate]

/-- Bindings are loaded where there are none. -/
theorem getBindings_eq_some_iff (hdb : db.Satisfies Schema.initial) (hclient : client.Serves db)
    (statement : Select) (htable : statement.table = "flow_bindings") {id : Int}
    {bindings : List FlowBinding} : getBindings client statement id = some bindings ↔
      db.select statement (.int4 id) = [] ∧ bindings = [] := by
  simp only [getBindings, Option.bind_eq_bind, Option.bind_eq_some_iff, Option.some.injEq]
  rw [← hclient.eq_nil]
  constructor
  · rintro ⟨decoded, hdecoded, rfl⟩
    cases hrows : client statement (.int4 id) with
    | nil =>
        rw [hrows] at hdecoded
        cases hdecoded
        exact ⟨rfl, rfl⟩
    | cons row rest =>
        have hmem : row ∈ client statement (.int4 id) := by simp [hrows]
        have htaken := Database.mem_of_mem_select (hclient.mem.mp hmem)
        rw [htable] at htaken
        have hadmits := hdb.rows Schema.flowBindings (by simp [Schema.initial]) row htaken
        rw [hrows, mapM_eq_some_iff] at hdecoded
        cases hdecoded with
        | cons hrow _ =>
            rw [bindingFromRow_eq_none hadmits] at hrow
            cases hrow
  · rintro ⟨hrows, rfl⟩
    exact ⟨[], by simp [hrows], rfl⟩

theorem correspond_nil : Correspond [] [] :=
  ⟨.nil, [], .nil, .nil⟩

/-- The columns of an entry decode; its bindings are loaded where there are none. -/
theorem entryFromRow_eq_some_iff (hdb : db.Satisfies Schema.initial) (hclient : client.Serves db)
    (hrow : row ∈ db "flow_entries") : ∃ uid ordering stage,
      row.lookup "uid" = some (some (.int4 uid)) ∧
        row.lookup "ordering" = some (some (.int2 ordering)) ∧
          row.lookup "stage" = some (some (.int4 stage)) ∧
            ∀ entry, entryFromRow client row = some entry ↔
              db.select bindingsByEntry (.int4 uid) = [] ∧
                entry = { ordering := ordering, bindings := [], stage := .uid stage } := by
  have hadmits := hdb.rows Schema.flowEntries (by simp [Schema.initial]) row hrow
  obtain ⟨uid, huid, hgetUid⟩ := hadmits.int4 (.head _)
  obtain ⟨stage, hstage, hgetStage⟩ := hadmits.int4 (.tail _ (.tail _ (.head _)))
  obtain ⟨ordering, hordering, hgetOrdering⟩ :=
    hadmits.int2 (.tail _ (.tail _ (.tail _ (.head _))))
  refine ⟨uid, ordering, stage, huid, hordering, hstage, fun entry => ?_⟩
  simp only [entryFromRow, hgetUid, hgetOrdering, hgetStage, Option.bind_eq_bind, Option.bind_some,
    Option.bind_eq_some_iff, Option.some.injEq, getBindings_eq_some_iff hdb hclient
      bindingsByEntry rfl]
  constructor
  · rintro ⟨bindings, ⟨hnone, rfl⟩, rfl⟩
    exact ⟨hnone, rfl⟩
  · rintro ⟨hnone, rfl⟩
    exact ⟨[], ⟨hnone, rfl⟩, rfl⟩

theorem carriesEntry_of_decoded (hdb : db.Satisfies Schema.initial) (hclient : client.Serves db)
    (hrow : row ∈ db "flow_entries") {entry : FlowEntry}
    (hdecoded : entryFromRow client row = some entry) : CarriesEntry db row entry := by
  obtain ⟨uid, ordering, stage, huid, hordering, hstage, hentry⟩ :=
    entryFromRow_eq_some_iff hdb hclient hrow
  obtain ⟨hnone, rfl⟩ := (hentry entry).mp hdecoded
  exact ⟨hordering, ⟨stage, hstage, rfl⟩, uid, huid, hnone ▸ correspond_nil⟩

/-- The columns of a flow decode. -/
theorem flowFromRow_eq_some_iff (hdb : db.Satisfies Schema.initial) (hclient : client.Serves db)
    (hrow : row ∈ db "flows") : ∃ uid slug title designation authentication,
      row.lookup "uid" = some (some (.int4 uid)) ∧ row.lookup "slug" = some (some (.text slug)) ∧
        row.lookup "title" = some (some (.text title)) ∧
          row.lookup "designation" =
              some (some (.enum "flow_designation" (FlowDesignation.label designation))) ∧
            row.lookup "authentication" = some (some (.enum "authentication_requirement"
                (AuthenticationRequirement.label authentication))) ∧
              ∀ flow, flowFromRow client row = some flow ↔
                ∃ entries, db.select bindingsByFlow (.int4 uid) = [] ∧
                  getEntries client uid = some entries ∧ flow =
                    { uid := uid
                      slug := slug
                      title := title
                      designation := designation
                      authentication := authentication
                      bindings := []
                      entries := entries } := by
  have hadmits := hdb.rows Schema.flows (by simp [Schema.initial]) row hrow
  obtain ⟨uid, huid, hgetUid⟩ := hadmits.int4 (.head _)
  obtain ⟨slug, hslug, hgetSlug⟩ := hadmits.varchar (.tail _ (.head _))
  obtain ⟨title, htitle, hgetTitle⟩ := hadmits.varchar (.tail _ (.tail _ (.head _)))
  obtain ⟨label, designation, hdesignation, hlabel, hgetDesignation⟩ :=
    hadmits.enum (.tail _ (.tail _ (.tail _ (.head _))))
      (by decide : ∀ label ∈ _, (FlowDesignation.ofLabel label).isSome = true)
  obtain ⟨label', authentication, hauthentication, hlabel', hgetAuthentication⟩ :=
    hadmits.enum (.tail _ (.tail _ (.tail _ (.tail _ (.head _)))))
      (by decide : ∀ label ∈ _, (AuthenticationRequirement.ofLabel label).isSome = true)
  obtain rfl := FlowDesignation.label_of_ofLabel hlabel
  obtain rfl := AuthenticationRequirement.label_of_ofLabel hlabel'
  refine ⟨uid, slug, title, designation, authentication, huid, hslug, htitle, hdesignation,
    hauthentication, fun flow => ?_⟩
  simp only [flowFromRow, hgetUid, hgetSlug, hgetTitle, hgetDesignation, hgetAuthentication,
    Option.bind_eq_bind, Option.bind_some, Option.bind_eq_some_iff, Option.some.injEq,
    getBindings_eq_some_iff hdb hclient bindingsByFlow rfl]
  constructor
  · rintro ⟨bindings, ⟨hnone, rfl⟩, entries, hentries, rfl⟩
    exact ⟨entries, hnone, hentries, rfl⟩
  · rintro ⟨entries, hnone, hentries, rfl⟩
    exact ⟨[], ⟨hnone, rfl⟩, entries, hentries, rfl⟩

theorem unbound_of_flowFromRow (hdb : db.Satisfies Schema.initial) (hclient : client.Serves db)
    (hrow : row ∈ db "flows") {flow : Flow} (hflow : flowFromRow client row = some flow) :
    Unbound db row := by
  obtain ⟨uid, slug, title, designation, authentication, huid, _, _, _, _, hloaded⟩ :=
    flowFromRow_eq_some_iff hdb hclient hrow
  intro found hfound
  rw [huid, Option.some.injEq, Option.some.injEq, PgValue.int4.injEq] at hfound
  subst hfound
  obtain ⟨entries, hnone, hentries, _⟩ := (hloaded flow).mp hflow
  refine ⟨hnone, ?_⟩
  intro entryRow hentry entryUid hentryUid
  obtain ⟨entry, hdecoded⟩ :=
    exists_mapM_eq_some_iff.mp ⟨entries, hentries⟩ entryRow (hclient.mem.mpr hentry)
  obtain ⟨found, _, _, hfound, _, _, hentry⟩ :=
    entryFromRow_eq_some_iff hdb hclient (Database.mem_of_mem_select hentry)
  rw [hfound, Option.some.injEq, Option.some.injEq, PgValue.int4.injEq] at hentryUid
  subst hentryUid
  exact ((hentry entry).mp hdecoded).1

theorem carriesFlow_of_unbound (hdb : db.Satisfies Schema.initial) (hclient : client.Serves db)
    (hrow : row ∈ db "flows") (hunbound : Unbound db row) :
    ∃ flow, flowFromRow client row = some flow ∧ CarriesFlow db row flow := by
  obtain ⟨uid, slug, title, designation, authentication, huid, hslug, htitle, hdesignation,
    hauthentication, hloaded⟩ := flowFromRow_eq_some_iff hdb hclient hrow
  obtain ⟨hnone, hentriesNone⟩ := hunbound uid huid
  have hdecodes : ∀ entryRow ∈ client entriesByFlow (.int4 uid),
      ∃ entry, entryFromRow client entryRow = some entry := by
    intro entryRow hentryRow
    have hselected := hclient.mem.mp hentryRow
    obtain ⟨entryUid, _, _, hentryUid, _, _, hentry⟩ :=
      entryFromRow_eq_some_iff hdb hclient (Database.mem_of_mem_select hselected)
    exact ⟨_, (hentry _).mpr ⟨hentriesNone entryRow hselected entryUid hentryUid, rfl⟩⟩
  obtain ⟨entries, hentries⟩ := exists_mapM_eq_some_iff.mpr hdecodes
  refine ⟨_, (hloaded _).mpr ⟨entries, hnone, hentries, rfl⟩, ?_⟩
  constructor
  · exact huid
  · exact hslug
  · exact htitle
  · exact hdesignation
  · exact hauthentication
  · exact hnone ▸ correspond_nil
  · refine ⟨_, hclient _ _, ?_⟩
    have hmem : ∀ entryRow ∈ client entriesByFlow (.int4 uid), entryRow ∈ db "flow_entries" :=
      fun entryRow hentryRow => Database.mem_of_mem_select (hclient.mem.mp hentryRow)
    refine ((List.forall₂_and_left _ _).mpr ⟨hmem, mapM_eq_some_iff.mp hentries⟩).imp ?_
    rintro entryRow entry ⟨hrow, hdecoded⟩
    exact carriesEntry_of_decoded hdb hclient hrow hdecoded

/-- A flow is loaded, with all that its rows hold, exactly where it and its entries have no
bindings. -/
theorem flowFromRow_carries_iff (hdb : db.Satisfies Schema.initial) (hclient : client.Serves db)
    (hrow : row ∈ db "flows") :
    (∃ flow, flowFromRow client row = some flow ∧ CarriesFlow db row flow) ↔ Unbound db row := by
  constructor
  · rintro ⟨flow, hflow, _⟩
    exact unbound_of_flowFromRow hdb hclient hrow hflow
  · exact carriesFlow_of_unbound hdb hclient hrow

end Decoding

section FlowSamples

def sampleFlowRow : Row :=
  [("uid", some (.int4 1)), ("slug", some (.text "test-flow")), ("title", some (.text "Test Flow")),
    ("designation", some (.enum "flow_designation" "authentication")),
    ("authentication", some (.enum "authentication_requirement" "none"))]

/-- The flow of the initial data: an identification, a password and a login stage, with the
given bindings. -/
def sampleDatabase (bindings : List Row) : Database := fun table =>
  ([("stages",
      [[("uid", some (.int4 1)), ("slug", some (.text "id-stage")),
        ("kind", some (.enum "stage_kind" "identification")), ("timeout", some (.int4 30)),
        ("identification_password_stage", none), ("identification_stage", some (.int4 1)),
        ("consent_stage", none)],
      [("uid", some (.int4 2)), ("slug", some (.text "password-stage")),
        ("kind", some (.enum "stage_kind" "password")), ("timeout", some (.int4 30)),
        ("identification_password_stage", none), ("identification_stage", none),
        ("consent_stage", none)],
      [("uid", some (.int4 3)), ("slug", some (.text "login-stage")),
        ("kind", some (.enum "stage_kind" "user_login")), ("timeout", some (.int4 30)),
        ("identification_password_stage", none), ("identification_stage", none),
        ("consent_stage", none)]]),
    ("password_strength_policies", [[("uid", some (.int4 1))]]),
    ("policies",
      [[("uid", some (.int4 1)), ("slug", some (.text "strength")),
        ("kind", some (.enum "policy_kind" "password_strength")), ("password_expiration", none),
        ("password_strength", some (.int4 1)), ("expression", none)]]),
    ("flows", [sampleFlowRow]),
    ("flow_entries",
      [[("uid", some (.int4 1)), ("flow", some (.int4 1)), ("stage", some (.int4 1)),
        ("ordering", some (.int2 30))],
      [("uid", some (.int4 2)), ("flow", some (.int4 1)), ("stage", some (.int4 2)),
        ("ordering", some (.int2 60))],
      [("uid", some (.int4 3)), ("flow", some (.int4 1)), ("stage", some (.int4 3)),
        ("ordering", some (.int2 90))]]),
    ("flow_bindings", bindings)].lookup table).getD []

/-- A binding of the flow to the policy. -/
def sampleBinding : Row :=
  [("policy", some (.int4 1)), ("flow", some (.int4 1)), ("entry", none), ("group_binding", none),
    ("user_binding", none), ("ordering", some (.int2 0)), ("enabled", some (.bool true)),
    ("negate_result", some (.bool false))]

theorem sampleDatabase_satisfies : (sampleDatabase []).Satisfies Schema.initial := by
  decide +kernel

theorem sampleDatabase_bound_satisfies :
    (sampleDatabase [sampleBinding]).Satisfies Schema.initial := by
  decide +kernel

-- the binding makes the difference
example : (flowFromRow (sampleDatabase []).client sampleFlowRow).isSome ∧
    (flowFromRow (sampleDatabase [sampleBinding]).client sampleFlowRow).isNone := by
  decide +kernel

/-- A flow with a binding is not loaded. -/
theorem bound_flow_panics : ∃ (db : Database) (client : Client) (row : Row),
    db.Satisfies Schema.initial ∧ client.Serves db ∧ row ∈ db "flows" ∧
      flowFromRow client row = none :=
  ⟨sampleDatabase [sampleBinding], _, sampleFlowRow, sampleDatabase_bound_satisfies,
    Database.client_serves _, by decide +kernel, by decide +kernel⟩

/-- The flow of the initial data is loaded with what its rows hold. -/
theorem initial_flow_loaded : ∃ flow,
    flowFromRow (sampleDatabase []).client sampleFlowRow = some flow ∧
      CarriesFlow (sampleDatabase []) sampleFlowRow flow := by
  refine (flowFromRow_carries_iff sampleDatabase_satisfies (Database.client_serves _) ?_).mpr ?_
  · decide +kernel
  · exact fun _ _ => ⟨rfl, fun _ _ _ _ => rfl⟩

end FlowSamples

end Authust
