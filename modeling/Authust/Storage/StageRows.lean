import Authust.Storage.FlowRows

/-! # Stages and policies from their rows

`from_row` decodes a row of `stages` or `policies` and asks for the row of its kind. A
column that does not decode makes it panic; a statement that does not answer the one row
it is expected to is an error.
-/

namespace Authust

open Postgres

inductive PgStageKind : Type
  | deny
  | prompt
  | identification
  | userLogin
  | userLogout
  | userWrite
  | password
  | consent
  deriving DecidableEq

def PgStageKind.label : PgStageKind → String
  | deny => "deny"
  | prompt => "prompt"
  | identification => "identification"
  | userLogin => "user_login"
  | userLogout => "user_logout"
  | userWrite => "user_write"
  | password => "password"
  | consent => "consent"

def PgStageKind.ofLabel (label : String) : Option PgStageKind :=
  [deny, prompt, identification, userLogin, userLogout, userWrite, password, consent].find?
    fun variant => variant.label = label

inductive PgConsentMode : Type
  | always
  | once
  | until
  deriving DecidableEq

def PgConsentMode.label : PgConsentMode → String
  | always => "always"
  | once => "once"
  | .until => "until"

def PgConsentMode.ofLabel (label : String) : Option PgConsentMode :=
  [always, once, .until].find? fun variant => variant.label = label

def UserField.label : UserField → String
  | email => "email"
  | name => "name"
  | uuid => "uuid"

def UserField.ofLabel (label : String) : Option UserField :=
  [email, name, uuid].find? fun variant => variant.label = label

inductive PolicyKindSimple : Type
  | passwordExpiry
  | passwordStrength
  | expression
  deriving DecidableEq

def PolicyKindSimple.label : PolicyKindSimple → String
  | passwordExpiry => "password_expiry"
  | passwordStrength => "password_strength"
  | expression => "expression"

def PolicyKindSimple.ofLabel (label : String) : Option PolicyKindSimple :=
  [passwordExpiry, passwordStrength, expression].find? fun variant => variant.label = label

/-- `flow/by-id.sql` and `flow/by-slug.sql` -/
def FlowQuery.select : FlowQuery → Select × PgValue
  | uid value => (⟨"flows", "uid"⟩, .int4 value)
  | slug value => (⟨"flows", "slug"⟩, .text value)

/-- `stage/by-id.sql` and `stage/by-slug.sql` -/
def StageQuery.select : StageQuery → Select × PgValue
  | uid value => (⟨"stages", "uid"⟩, .int4 value)
  | slug value => (⟨"stages", "slug"⟩, .text value)

/-- `policy/by-id.sql` and `policy/by-slug.sql` -/
def PolicyQuery.select : PolicyQuery → Select × PgValue
  | uid value => (⟨"policies", "uid"⟩, .int4 value)
  | slug value => (⟨"policies", "slug"⟩, .text value)

/-- `stage/prompt-bindings-by-stage.sql` -/
def promptBindingsByStage : Select := ⟨"stage_prompt_bindings", "stage"⟩

/-- `stage/identification-by-id.sql` -/
def identificationById : Select := ⟨"identification_stages", "uid"⟩

/-- `policy/password-expiration-by-id.sql` -/
def passwordExpirationById : Select := ⟨"password_expiration_policies", "uid"⟩

/-- `policy/expression-by-id.sql` -/
def expressionById : Select := ⟨"expression_policies", "uid"⟩

variable (client : Client)

def promptBindingFromRow (row : Row) : Except LoadFailure PromptBinding := do
  let order ← row.load .int2 "ordering"
  let prompt ← row.load .int4 "prompt"
  .ok { order := order, prompt := .uid prompt }

/-- `prompt_stage`: the bindings are sorted by their order. -/
def promptStage (stageId : Int) : Except LoadFailure StageKind := do
  let bindings ← (client promptBindingsByStage (.int4 stageId)).mapM promptBindingFromRow
  .ok (.prompt (bindings.insertionSort fun first second => first.order ≤ second.order))

/-- `identification_stage` -/
def identificationStage (row : Row) : Except LoadFailure StageKind := do
  let passwordStageId ← row.load (.nullable .int4) "identification_password_stage"
  let identificationId ← row.load .int4 "identification_stage"
  let idRow ← client.queryOne identificationById (.int4 identificationId)
  let userFields ← idRow.load (.enumArray "userid_field" UserField.ofLabel) "fields"
  .ok (.identification (passwordStageId.map StageQuery.uid) userFields)

/-- `password_stage` -/
def passwordStage : StageKind := .password [.internal]

/-- `stage/consent-by-id.sql` is empty. An empty statement takes no parameter, and giving it one
panics. -/
def consentById (_ : PgValue) : Except LoadFailure Row := .error .panicked

def consentModeFromRow (row : Row) : Except LoadFailure ConsentMode := do
  match ← row.load (.enum "consent_mode" PgConsentMode.ofLabel) "mode" with
  | .always => .ok .always
  | .once => .ok .once
  | .until => do
      let duration ← row.load .int4 "until"
      .ok (.until duration)

/-- `consent_stage` -/
def consentStage (row : Row) : Except LoadFailure StageKind := do
  let consentId ← row.load .int4 "consent_stage"
  let consentRow ← consentById (.int4 consentId)
  let mode ← consentModeFromRow consentRow
  .ok (.consent mode)

/-- The kind of a stage; a logout stage is read as one that writes the user. -/
def stageKindFromRow (uid : Int) (row : Row) : PgStageKind → Except LoadFailure StageKind
  | .deny => .ok .deny
  | .prompt => promptStage client uid
  | .identification => identificationStage client row
  | .userLogin => .ok .userLogin
  | .userLogout => .ok .userWrite
  | .userWrite => .ok .userWrite
  | .password => .ok passwordStage
  | .consent => consentStage row

/-- `from_row` of a stage. -/
def stageFromRow (row : Row) : Except LoadFailure Stage := do
  let uid ← row.load .int4 "uid"
  let simpleKind ← row.load (.enum "stage_kind" PgStageKind.ofLabel) "kind"
  let kind ← stageKindFromRow client uid row simpleKind
  let slug ← row.load .text "slug"
  let timeout ← row.load .int4 "timeout"
  .ok { uid := uid, slug := slug, kind := kind, timeout := timeout }

/-- `password_expiry_policy` -/
def passwordExpiryPolicy (id : Int) : Except LoadFailure PolicyKind := do
  let row ← client.queryOne passwordExpirationById (.int4 id)
  let maxAge ← row.load .int4 "max_age"
  .ok (.passwordExpiry maxAge)

/-- `expression_policy` -/
def expressionPolicy (id : Int) : Except LoadFailure PolicyKind := do
  let row ← client.queryOne expressionById (.int4 id)
  let source ← row.load .text "expression"
  .ok (.expression source)

/-- `password_strength_policy` -/
def passwordStrengthPolicy : PolicyKind := .passwordStrength

def policyKindFromRow (row : Row) : PolicyKindSimple → Except LoadFailure PolicyKind
  | .passwordExpiry => do
      let id ← row.load .int4 "password_expiration"
      passwordExpiryPolicy client id
  | .passwordStrength => do
      let _ ← row.load .int4 "password_strength"
      .ok passwordStrengthPolicy
  | .expression => do
      let id ← row.load .int4 "expression"
      expressionPolicy client id

/-- `from_row` of a policy. -/
def policyFromRow (row : Row) : Except LoadFailure Policy := do
  let simpleKind ← row.load (.enum "policy_kind" PolicyKindSimple.ofLabel) "kind"
  let kind ← policyKindFromRow client row simpleKind
  let uid ← row.load .int4 "uid"
  let slug ← row.load .text "slug"
  .ok { uid := uid, slug := slug, kind := kind }

/-- `find_optional`: the row that a statement answers, if any, is decoded. -/
def findRow {D : Type} (fromRow : Row → Except LoadFailure D) (query : Select × PgValue) :
    Except LoadFailure (Option D) := do
  match ← client.queryOpt query.1 query.2 with
  | some row => do
      let found ← fromRow row
      .ok (some found)
  | none => .ok none

/-- `FlowExecutor::find_optional` -/
def findFlow (query : FlowQuery) : Except LoadFailure (Option Flow) :=
  findRow client
    (fun row =>
      match flowFromRow client row with
      | some flow => .ok flow
      | none => .error .panicked)
    query.select

/-- `StageExecutor::find_optional` -/
def findStage (query : StageQuery) : Except LoadFailure (Option Stage) :=
  findRow client (stageFromRow client) query.select

/-- `PolicyExecutor::find_optional` -/
def findPolicy (query : PolicyQuery) : Except LoadFailure (Option Policy) :=
  findRow client (policyFromRow client) query.select

/-- The storage manager logs a failure and answers `None`; `none` where a row panics. This assumes
of the `datacache` crate that a failure is not kept for later lookups, and that a panic is not
caught. -/
def lookupData {D : Type} : Except LoadFailure (Option D) → Option (Option D)
  | .ok found => some found
  | .error .database => some none
  | .error .panicked => none

/-- The policies that a flow refers to: those of its bindings and of its entries' bindings. -/
def Flow.RefersTo (flow : Flow) (reference : DataRef PolicyQuery) : Prop :=
  ∃ binding ∈ flow.bindings ++ flow.entries.flatMap FlowEntry.bindings,
    binding.kind = .policy reference

/-- Everything that the flow refers to is referred to by its uid. -/
structure Flow.ByUid (flow : Flow) : Prop where
  stages : ∀ entry ∈ flow.entries, ∃ uid, entry.stage = .uid uid
  policies : ∀ reference, flow.RefersTo reference → ∃ uid, reference = .uid uid

/-- The stage that an identification stage refers to. -/
def Stage.password? (stage : Stage) : Option (DataRef StageQuery) :=
  match stage.kind with
  | .identification password _ => password
  | _ => none

/-- The password stage of a stage is referred to by its uid. -/
def Stage.ByUid (stage : Stage) : Prop :=
  ∀ reference, stage.password? = some reference → ∃ uid, reference = .uid uid

section Found

variable {client : Client} {db : Database} {row : Row}

theorem bind_eq_ok {ε α β : Type} {value : Except ε α} {f : α → Except ε β} {result : β} :
    value >>= f = .ok result ↔ ∃ inner, value = .ok inner ∧ f inner = .ok result := by
  cases value with
  | error error => simp [bind, Except.bind]
  | ok inner => simp [bind, Except.bind]

theorem lookupData_eq_some_some {D : Type} {answer : Except LoadFailure (Option D)} {found : D} :
    lookupData answer = some (some found) ↔ answer = .ok (some found) := by
  cases answer with
  | ok answer => simp [lookupData]
  | error failure => cases failure <;> simp [lookupData]

/-- What is found is decoded from a row that the statement selects. -/
theorem findRow_eq_some {D : Type} {fromRow : Row → Except LoadFailure D} {query : Select × PgValue}
    {found : D} (hserves : client.Serves db)
    (hfound : findRow client fromRow query = .ok (some found)) :
    ∃ row ∈ db query.1.table, row.lookup query.1.column = some (some query.2) ∧
      fromRow row = .ok found := by
  obtain ⟨answer, hanswer, hfound⟩ := bind_eq_ok.mp hfound
  cases answer with
  | none => cases hfound
  | some row =>
      obtain ⟨decoded, hdecoded, hfound⟩ := bind_eq_ok.mp hfound
      cases hfound
      have hrow := hserves.mem.mp (Client.mem_of_queryOpt hanswer)
      exact ⟨row, Database.mem_of_mem_select hrow, Database.lookup_of_mem_select hrow, hdecoded⟩

/-- The row that is selected is decoded. -/
theorem findRow_eq {D : Type} {fromRow : Row → Except LoadFailure D} {query : Select × PgValue}
    (hserves : client.Serves db) (hselect : db.select query.1 query.2 = [row]) :
    findRow client fromRow query = some <$> fromRow row := by
  rw [findRow, hserves.queryOpt_eq hselect]
  change (fromRow row >>= fun found => Except.ok (some found)) = _
  cases fromRow row <;> rfl

theorem findRow_eq_none {D : Type} {fromRow : Row → Except LoadFailure D} {query : Select × PgValue}
    (hserves : client.Serves db) (hselect : db.select query.1 query.2 = []) :
    findRow client fromRow query = .ok none := by
  rw [findRow, hserves.queryOpt_eq_none hselect]
  rfl

theorem stageFromRow_eq_ok {stage : Stage} (hstage : stageFromRow client row = .ok stage) :
    row.get .int4 "uid" = some stage.uid ∧ row.get .text "slug" = some stage.slug ∧
      (∀ reference, stage.password? = some reference →
        identificationStage client row = .ok stage.kind) := by
  obtain ⟨uid, huid, hstage⟩ := bind_eq_ok.mp hstage
  obtain ⟨simpleKind, _, hstage⟩ := bind_eq_ok.mp hstage
  obtain ⟨kind, hkind, hstage⟩ := bind_eq_ok.mp hstage
  obtain ⟨slug, hslug, hstage⟩ := bind_eq_ok.mp hstage
  obtain ⟨timeout, _, hstage⟩ := bind_eq_ok.mp hstage
  cases hstage
  refine ⟨Row.load_eq_ok_iff.mp huid, Row.load_eq_ok_iff.mp hslug, ?_⟩
  intro reference hreference
  cases simpleKind with
  | identification => exact hkind
  | prompt =>
      obtain ⟨bindings, _, hkind⟩ := bind_eq_ok.mp hkind
      cases hkind
      cases hreference
  | consent =>
      obtain ⟨_, _, hkind⟩ := bind_eq_ok.mp hkind
      cases hkind
  | _ => cases hkind; cases hreference

/-- A stage that is found is one that the query finds. -/
theorem findStage_finds (hserves : client.Serves db) {query : StageQuery} {stage : Stage}
    (hfound : findStage client query = .ok (some stage)) : query.finds stage = true := by
  obtain ⟨row, _, hselected, hstage⟩ := findRow_eq_some hserves hfound
  obtain ⟨huid, hslug, _⟩ := stageFromRow_eq_ok hstage
  cases query with
  | uid value =>
      simp only [StageQuery.select] at hselected
      simp only [Row.get, hselected, Option.bind_some, Decoder.int4, Option.some.injEq] at huid
      simp [StageQuery.finds, huid]
  | slug value =>
      simp only [StageQuery.select] at hselected
      simp only [Row.get, hselected, Option.bind_some, Decoder.text, Option.some.injEq] at hslug
      simp [StageQuery.finds, hslug]

theorem findStage_byUid (hserves : client.Serves db) {query : StageQuery} {stage : Stage}
    (hfound : findStage client query = .ok (some stage)) : stage.ByUid := by
  intro reference hreference
  obtain ⟨row, _, _, hstage⟩ := findRow_eq_some hserves hfound
  have hkind := (stageFromRow_eq_ok hstage).2.2 reference hreference
  obtain ⟨password, _, hkind⟩ := bind_eq_ok.mp hkind
  obtain ⟨_, _, hkind⟩ := bind_eq_ok.mp hkind
  obtain ⟨_, _, hkind⟩ := bind_eq_ok.mp hkind
  obtain ⟨userFields, _, hkind⟩ := bind_eq_ok.mp hkind
  simp only [Except.ok.injEq] at hkind
  simp only [Stage.password?, ← hkind, Option.map_eq_some_iff] at hreference
  obtain ⟨uid, _, rfl⟩ := hreference
  exact ⟨uid, rfl⟩

/-- A policy that is found is one that the query finds. -/
theorem findPolicy_finds (hserves : client.Serves db) {query : PolicyQuery} {policy : Policy}
    (hfound : findPolicy client query = .ok (some policy)) : query.finds policy = true := by
  obtain ⟨row, _, hselected, hpolicy⟩ := findRow_eq_some hserves hfound
  obtain ⟨_, _, hpolicy⟩ := bind_eq_ok.mp hpolicy
  obtain ⟨_, _, hpolicy⟩ := bind_eq_ok.mp hpolicy
  obtain ⟨uid, huid, hpolicy⟩ := bind_eq_ok.mp hpolicy
  obtain ⟨slug, hslug, hpolicy⟩ := bind_eq_ok.mp hpolicy
  cases hpolicy
  rw [Row.load_eq_ok_iff] at huid hslug
  cases query with
  | uid value =>
      simp only [PolicyQuery.select] at hselected
      simp only [Row.get, hselected, Option.bind_some, Decoder.int4, Option.some.injEq] at huid
      simp [PolicyQuery.finds, huid]
  | slug value =>
      simp only [PolicyQuery.select] at hselected
      simp only [Row.get, hselected, Option.bind_some, Decoder.text, Option.some.injEq] at hslug
      simp [PolicyQuery.finds, hslug]

theorem bindingFromRow_byUid {binding : FlowBinding} (hbinding : bindingFromRow row = some binding)
    {reference : DataRef PolicyQuery} (hkind : binding.kind = .policy reference) :
    ∃ uid, reference = .uid uid := by
  simp only [bindingFromRow, bindingKindFromRow, Option.bind_eq_bind,
    Option.bind_eq_some_iff] at hbinding
  obtain ⟨kind, ⟨user, _, hgroup⟩, _, _, _, _, _, _, hbinding⟩ := hbinding
  cases hbinding
  subst hkind
  cases user with
  | some user => cases hgroup
  | none =>
      obtain ⟨group, _, hpolicy⟩ := Option.bind_eq_some_iff.mp hgroup
      cases group with
      | some group => cases hpolicy
      | none =>
          obtain ⟨policy, _, hpolicy⟩ := Option.bind_eq_some_iff.mp hpolicy
          cases policy with
          | none => cases hpolicy
          | some policy =>
              cases hpolicy
              exact ⟨policy, rfl⟩

theorem getBindings_byUid {statement : Select} {id : Int} {bindings : List FlowBinding}
    (hbindings : getBindings client statement id = some bindings) {binding : FlowBinding}
    (hmem : binding ∈ bindings) {reference : DataRef PolicyQuery}
    (hkind : binding.kind = .policy reference) : ∃ uid, reference = .uid uid := by
  obtain ⟨decoded, hdecoded, hsorted⟩ := Option.bind_eq_some_iff.mp hbindings
  cases hsorted
  rw [sortByOrder, List.mem_insertionSort, eq_filterMap_of_mapM hdecoded,
    List.mem_filterMap] at hmem
  obtain ⟨row, _, hrow⟩ := hmem
  exact bindingFromRow_byUid hrow hkind

theorem getEntries_mem {id : Int} {entries : List FlowEntry}
    (hentries : getEntries client id = some entries) {entry : FlowEntry} (hmem : entry ∈ entries) :
    ∃ uid stage, getBindings client bindingsByEntry uid = some entry.bindings ∧
      entry.stage = .uid stage := by
  rw [eq_filterMap_of_mapM hentries, List.mem_filterMap] at hmem
  obtain ⟨row, _, hentry⟩ := hmem
  simp only [entryFromRow, Option.bind_eq_bind, Option.bind_eq_some_iff,
    Option.some.injEq] at hentry
  obtain ⟨uid, _, bindings, hbindings, _, _, stage, _, rfl⟩ := hentry
  exact ⟨uid, stage, hbindings, rfl⟩

theorem flowFromRow_byUid {flow : Flow} (hflow : flowFromRow client row = some flow) :
    flow.ByUid := by
  simp only [flowFromRow, Option.bind_eq_bind, Option.bind_eq_some_iff, Option.some.injEq] at hflow
  obtain ⟨_, _, bindings, hbindings, entries, hentries, _, _, _, _, _, _, _, _, rfl⟩ := hflow
  constructor
  · intro entry hentry
    obtain ⟨_, stage, _, hstage⟩ := getEntries_mem hentries hentry
    exact ⟨stage, hstage⟩
  · rintro reference ⟨binding, hmem, hkind⟩
    rcases List.mem_append.mp hmem with hmem | hmem
    · exact getBindings_byUid hbindings hmem hkind
    · obtain ⟨entry, hentry, hmem⟩ := List.mem_flatMap.mp hmem
      obtain ⟨_, _, hbound, _⟩ := getEntries_mem hentries hentry
      exact getBindings_byUid hbound hmem hkind

theorem findFlow_byUid (hserves : client.Serves db) {query : FlowQuery} {flow : Flow}
    (hfound : findFlow client query = .ok (some flow)) : flow.ByUid := by
  obtain ⟨row, _, _, hflow⟩ := findRow_eq_some hserves hfound
  split at hflow
  next hloaded =>
    cases hflow
    exact flowFromRow_byUid hloaded
  next => cases hflow

end Found

section StageSamples

/-- A row of `stages`. -/
def sampleStageRow (uid : Int) (slug kind : String) (password identification : Option PgValue) :
    Row :=
  [("uid", some (.int4 uid)), ("slug", some (.text slug)),
    ("kind", some (.enum "stage_kind" kind)), ("timeout", some (.int4 30)),
    ("identification_password_stage", password), ("identification_stage", identification),
    ("consent_stage", none)]

/-- A flow of an identification stage, with the given password stage, and a login stage. -/
def loginDatabase (password : Option PgValue) : Database := fun table =>
  ([("stages",
      [sampleStageRow 1 "id-stage" "identification" password (some (.int4 1)),
        sampleStageRow 2 "password-stage" "password" none none,
        sampleStageRow 3 "login-stage" "user_login" none none]),
    ("identification_stages",
      [[("uid", some (.int4 1)), ("fields", some (.enumArray "userid_field" 1 [some "name"]))]]),
    ("flows",
      [[("uid", some (.int4 1)), ("slug", some (.text "login")), ("title", some (.text "Login")),
        ("designation", some (.enum "flow_designation" "authentication")),
        ("authentication", some (.enum "authentication_requirement" "none"))]]),
    ("flow_entries",
      [[("uid", some (.int4 1)), ("flow", some (.int4 1)), ("stage", some (.int4 1)),
        ("ordering", some (.int2 30))],
      [("uid", some (.int4 2)), ("flow", some (.int4 1)), ("stage", some (.int4 3)),
        ("ordering", some (.int2 60))]])].lookup table).getD []

end StageSamples

end Authust
