import Mathlib.Data.List.Perm.Basic
import Authust.Storage.StageRows

/-! # What the row of a stage says

A stage carries its row when it is of the kind that the row names, with the data that the row
refers to. Stages are loaded so, except those that log a user out or ask for consent.
-/

namespace Authust

open Postgres

/-- The kind that names a stage's kind. -/
def StageKind.simple : StageKind → PgStageKind
  | deny => .deny
  | prompt _ => .prompt
  | identification _ _ => .identification
  | userLogin => .userLogin
  | userLogout => .userLogout
  | userWrite => .userWrite
  | password _ => .password
  | consent _ => .consent

def ConsentMode.simple : ConsentMode → PgConsentMode
  | always => .always
  | once => .once
  | .until _ => .until

/-- A consent mode carries its row, with the duration of one that is limited. -/
structure CarriesConsent (row : Row) (consent : ConsentMode) : Prop where
  mode : row.lookup "mode" = some (some (.enum "consent_mode" consent.simple.label))
  duration : ∀ duration, consent = .until duration →
    row.lookup "until" = some (some (.int4 duration))

structure CarriesPrompt (row : Row) (binding : PromptBinding) : Prop where
  order : row.lookup "ordering" = some (some (.int2 binding.order))
  prompt : ∃ uid, row.lookup "prompt" = some (some (.int4 uid)) ∧ binding.prompt = .uid uid

/-- The column of the row refers to a row of the table. -/
def Refers (db : Database) (row : Row) (column table : String) (target : Row) : Prop :=
  ∃ uid, row.lookup column = some (some (.int4 uid)) ∧ target ∈ db table ∧
    target.lookup "uid" = some (some (.int4 uid))

/-- The kind of a stage is the one that is named, with what the row refers to. -/
inductive CarriesKind (db : Database) (row : Row) : PgStageKind → StageKind → Prop
  | deny : CarriesKind db row .deny .deny
  | prompt {uid : Int} {bindings : List PromptBinding} {arranged : List Row}
      (huid : row.lookup "uid" = some (some (.int4 uid)))
      (hsorted : bindings.Pairwise fun first second => first.order ≤ second.order)
      (harranged : arranged.Perm (db.select promptBindingsByStage (.int4 uid)))
      (hcarries : arranged.Forall₂ CarriesPrompt bindings) :
      CarriesKind db row .prompt (.prompt bindings)
  | identification {password : Option Int} {userFields : List UserField} {target : Row}
      {dimensions : Nat}
      (hpassword : row.lookup "identification_password_stage" = some (password.map .int4))
      (htarget : Refers db row "identification_stage" "identification_stages" target)
      (hfields : target.lookup "fields" = some (some (.enumArray "userid_field" dimensions
        ((userFields.map UserField.label).map some))))
      (hdimensions : dimensions ≤ 1) :
      CarriesKind db row .identification
        (.identification (password.map StageQuery.uid) userFields)
  | userLogin : CarriesKind db row .userLogin .userLogin
  | userLogout : CarriesKind db row .userLogout .userLogout
  | userWrite : CarriesKind db row .userWrite .userWrite
  | password {backends : List PasswordBackend} : CarriesKind db row .password (.password backends)
  | consent {mode : ConsentMode} {target : Row}
      (htarget : Refers db row "consent_stage" "consent_stages" target)
      (hmode : CarriesConsent target mode) : CarriesKind db row .consent (.consent mode)

/-- A stage carries what its row holds, and is of the kind that the row names. -/
structure CarriesStage (db : Database) (row : Row) (stage : Stage) : Prop where
  uid : row.lookup "uid" = some (some (.int4 stage.uid))
  slug : row.lookup "slug" = some (some (.text stage.slug))
  timeout : row.lookup "timeout" = some (some (.int4 stage.timeout))
  kind : ∃ kind : PgStageKind, row.lookup "kind" = some (some (.enum "stage_kind" kind.label)) ∧
    CarriesKind db row kind stage.kind

/-- The row is of the kind. -/
def OfKind (row : Row) (kind : PgStageKind) : Prop :=
  row.lookup "kind" = some (some (.enum "stage_kind" kind.label))

instance (row : Row) (kind : PgStageKind) : Decidable (OfKind row kind) :=
  inferInstanceAs (Decidable (_ = _))

/-- The reference that the kind of the row requires is set and resolves. -/
structure Resolved (db : Database) (row : Row) : Prop where
  identification : OfKind row .identification →
    ∃ target, Refers db row "identification_stage" "identification_stages" target
  consent : OfKind row .consent → ∃ target, Refers db row "consent_stage" "consent_stages" target

/-- The fields of the identification stage that the row refers to are a plain list. -/
def FlatFields (db : Database) (row : Row) : Prop :=
  ∀ target, Refers db row "identification_stage" "identification_stages" target →
    target.Flat "fields"

section Kinds

variable {client : Client} {db : Database} {row : Row}

theorem PgStageKind.label_of_ofLabel {label : String} {kind : PgStageKind}
    (hlabel : ofLabel label = some kind) : kind.label = label := by
  simpa using List.find?_some hlabel

theorem PgStageKind.label_injective {first second : PgStageKind}
    (hlabel : first.label = second.label) : first = second := by
  cases first <;> cases second <;> first | rfl | exact absurd hlabel (by decide)

theorem OfKind.unique {first second : PgStageKind} (hfirst : OfKind row first)
    (hsecond : OfKind row second) : first = second := by
  rw [OfKind, hfirst] at hsecond
  simp only [Option.some.injEq, PgValue.enum.injEq, true_and] at hsecond
  exact PgStageKind.label_injective hsecond

theorem UserField.label_of_ofLabel {label : String} {field : UserField}
    (hlabel : ofLabel label = some field) : field.label = label := by
  simpa using List.find?_some hlabel

theorem UserField.map_label_of_forall₂ {labels : List String} {fields : List UserField}
    (hlabels : List.Forall₂ (fun label field => ofLabel label = some field) labels fields) :
    fields.map label = labels := by
  induction hlabels with
  | nil => rfl
  | cons hlabel _ ih => rw [List.map_cons, label_of_ofLabel hlabel, ih]

/-- The columns of a stage decode; its kind is left to decode. -/
theorem stageFromRow_eq_ok_iff (hdb : db.Satisfies Schema.initial) (hrow : row ∈ db "stages") :
    ∃ uid slug timeout kind, row.lookup "uid" = some (some (.int4 uid)) ∧
      row.lookup "slug" = some (some (.text slug)) ∧
        row.lookup "timeout" = some (some (.int4 timeout)) ∧ OfKind row kind ∧
          ∀ stage, stageFromRow client row = .ok stage ↔
            ∃ found, stageKindFromRow client uid row kind = .ok found ∧
              stage = { uid := uid, slug := slug, kind := found, timeout := timeout } := by
  have hadmits := hdb.rows Schema.stages (by simp [Schema.initial]) row hrow
  obtain ⟨uid, huid, hgetUid⟩ := hadmits.int4 (.head _)
  obtain ⟨slug, hslug, hgetSlug⟩ := hadmits.varchar (.tail _ (.head _))
  obtain ⟨label, kind, hkind, hlabel, hgetKind⟩ := hadmits.enum (.tail _ (.tail _ (.head _)))
    (by decide : ∀ label ∈ _, (PgStageKind.ofLabel label).isSome = true)
  obtain ⟨timeout, htimeout, hgetTimeout⟩ :=
    hadmits.int4 (.tail _ (.tail _ (.tail _ (.head _))))
  obtain rfl := PgStageKind.label_of_ofLabel hlabel
  refine ⟨uid, slug, timeout, kind, huid, hslug, htimeout, hkind, fun stage => ?_⟩
  rw [← Row.load_eq_ok_iff] at hgetUid hgetSlug hgetKind hgetTimeout
  unfold stageFromRow
  rw [hgetUid, hgetSlug, hgetKind, hgetTimeout]
  simp only [bind_eq_ok, Except.ok.injEq, exists_eq_left']
  simp only [eq_comm]

/-- A loop over rows that loads each of them. -/
theorem mapM_eq_ok_of_forall {α β ε : Type} {decode : α → Except ε β} {carries : α → β → Prop}
    {rows : List α} (hrows : ∀ row ∈ rows, ∃ result, decode row = .ok result ∧ carries row result) :
    ∃ results, rows.mapM decode = .ok results ∧ List.Forall₂ carries rows results := by
  induction rows with
  | nil => exact ⟨[], rfl, .nil⟩
  | cons row rest ih =>
      obtain ⟨⟨result, hresult, hcarries⟩, hrest⟩ := List.forall_mem_cons.mp hrows
      obtain ⟨results, hresults, hforall⟩ := ih hrest
      refine ⟨result :: results, ?_, .cons hcarries hforall⟩
      rw [List.mapM_cons, hresult, hresults]
      rfl

/-- The bindings of a prompt stage are loaded, sorted by their ordering. -/
theorem promptStage_carries (hdb : db.Satisfies Schema.initial) (hclient : client.Serves db)
    {uid : Int} (huid : row.lookup "uid" = some (some (.int4 uid))) :
    ∃ kind, promptStage client uid = .ok kind ∧ CarriesKind db row .prompt kind := by
  have hrows : ∀ bindingRow ∈ client promptBindingsByStage (.int4 uid), ∃ binding,
      promptBindingFromRow bindingRow = .ok binding ∧ CarriesPrompt bindingRow binding := by
    intro bindingRow hmem
    have hadmits := hdb.rows Schema.stagePromptBindings (by simp [Schema.initial]) bindingRow
      (Database.mem_of_mem_select (hclient.mem.mp hmem))
    obtain ⟨prompt, hprompt, hgetPrompt⟩ := hadmits.int4 (.head _)
    obtain ⟨order, horder, hgetOrder⟩ := hadmits.int2 (.tail _ (.tail _ (.head _)))
    rw [← Row.load_eq_ok_iff] at hgetPrompt hgetOrder
    refine ⟨⟨order, .uid prompt⟩, ?_, horder, prompt, hprompt, rfl⟩
    rw [promptBindingFromRow, hgetOrder, hgetPrompt]
    rfl
  obtain ⟨bindings, hbindings, hcarries⟩ := mapM_eq_ok_of_forall hrows
  have hperm := List.perm_insertionSort (fun first second => first.order ≤ second.order) bindings
  have hcomp : Relation.Comp (List.Forall₂ CarriesPrompt) List.Perm
      (client promptBindingsByStage (.int4 uid))
      (bindings.insertionSort fun first second => first.order ≤ second.order) :=
    ⟨bindings, hcarries, hperm.symm⟩
  rw [List.forall₂_comp_perm_eq_perm_comp_forall₂] at hcomp
  obtain ⟨arranged, harranged, hforall⟩ := hcomp
  refine ⟨_, by rw [promptStage, hbindings]; rfl, .prompt huid ?_ ?_ hforall⟩
  · exact List.pairwise_insertionSort _ _
  · exact harranged.symm.trans (hclient _ _)

/-- A reference refers to one row. -/
theorem Refers.unique {schema : List Table} (hdb : db.Satisfies schema) {table : Table}
    (htable : table ∈ schema) (hunique : ["uid"] ∈ table.unique) {column : String}
    {first second : Row} (hfirst : Refers db row column table.name first)
    (hsecond : Refers db row column table.name second) : first = second := by
  obtain ⟨uid, hreference, hmem, huid⟩ := hfirst
  obtain ⟨uid', hreference', hmem', huid'⟩ := hsecond
  rw [hreference] at hreference'
  cases hreference'
  exact hdb.row_unique htable hunique hmem huid hmem' huid'

/-- An identification stage is loaded with its fields and its password stage. -/
theorem identificationStage_carries (hdb : db.Satisfies Schema.initial) (hclient : client.Serves db)
    (hrow : row ∈ db "stages")
    (hresolved : ∃ target, Refers db row "identification_stage" "identification_stages" target)
    (hflat : FlatFields db row) : ∃ kind, identificationStage client row = .ok kind ∧
      CarriesKind db row .identification kind := by
  have hadmits := hdb.rows Schema.stages (by simp [Schema.initial]) row hrow
  obtain ⟨password, hpassword, hgetPassword⟩ :=
    hadmits.nullableInt4 (.tail _ (.tail _ (.tail _ (.tail _ (.head _)))))
  obtain ⟨target, uid, hreference, htarget, huid⟩ := hresolved
  have hselect := hdb.select_eq (by simp [Schema.initial] : Schema.identificationStages ∈ _)
    (.head _) htarget huid
  have htargetAdmits :=
    hdb.rows Schema.identificationStages (by simp [Schema.initial]) target htarget
  obtain ⟨userFields, hgetFields⟩ := htargetAdmits.enumArray (.tail _ (.head _))
    (by decide : ∀ label ∈ _, (UserField.ofLabel label).isSome = true)
    (hflat target ⟨uid, hreference, htarget, huid⟩)
  obtain ⟨dimensions, labels, hfields, hdimensions, hlabels⟩ :=
    Row.get_enumArray_eq_some_iff.mp hgetFields
  have hlabelled := UserField.map_label_of_forall₂ hlabels
  have hgetReference : row.load .int4 "identification_stage" = .ok uid := by
    rw [Row.load_eq_ok_iff, Row.get, hreference]
    rfl
  rw [← Row.load_eq_ok_iff] at hgetPassword hgetFields
  refine ⟨.identification (password.map StageQuery.uid) userFields, ?_, ?_⟩
  · rw [identificationStage, hgetPassword, hgetReference]
    simp only [bind_eq_ok, Except.ok.injEq, exists_eq_left']
    exact ⟨target, hclient.queryOne_eq hselect, userFields, hgetFields, rfl⟩
  · exact .identification hpassword ⟨uid, hreference, htarget, huid⟩ (hlabelled ▸ hfields)
      hdimensions

/-- A kind is decoded with what the row refers to, except for two of the kinds and for fields that
are no plain list. -/
theorem stageKindFromRow_carries_iff (hdb : db.Satisfies Schema.initial)
    (hclient : client.Serves db) (hrow : row ∈ db "stages") (hresolved : Resolved db row)
    {uid : Int} {kind : PgStageKind} (huid : row.lookup "uid" = some (some (.int4 uid)))
    (hkind : OfKind row kind) :
    (∃ found, stageKindFromRow client uid row kind = .ok found ∧ CarriesKind db row kind found) ↔
      kind ≠ .userLogout ∧ kind ≠ .consent ∧ (kind = .identification → FlatFields db row) := by
  cases kind with
  | deny => exact iff_of_true ⟨_, rfl, .deny⟩ (by simp)
  | prompt => exact iff_of_true (promptStage_carries hdb hclient huid) (by simp)
  | identification =>
      constructor
      · rintro ⟨found, _, hcarries⟩
        cases hcarries with
        | identification _ htarget hfields hdimensions =>
            refine ⟨by simp, by simp, fun _ target hrefers => ?_⟩
            have htable : Schema.identificationStages ∈ Schema.initial := by simp [Schema.initial]
            obtain rfl := Refers.unique hdb htable (.head _) hrefers htarget
            exact ⟨_, _, _, hfields, hdimensions⟩
      · rintro ⟨_, _, hflat⟩
        exact identificationStage_carries hdb hclient hrow (hresolved.identification hkind)
          (hflat rfl)
  | userLogin => exact iff_of_true ⟨_, rfl, .userLogin⟩ (by simp)
  | userWrite => exact iff_of_true ⟨_, rfl, .userWrite⟩ (by simp)
  | password => exact iff_of_true ⟨_, rfl, .password⟩ (by simp)
  | userLogout =>
      refine iff_of_false ?_ fun hkinds => hkinds.1 rfl
      rintro ⟨found, hfound, hcarries⟩
      cases hfound
      cases hcarries
  | consent =>
      refine iff_of_false ?_ fun hkinds => hkinds.2.1 rfl
      rintro ⟨found, hfound, _⟩
      obtain ⟨_, _, hfound⟩ := bind_eq_ok.mp hfound
      cases hfound

/-- A kind that is decoded is the one that the row names, unless that is to log out. -/
theorem simple_of_stageKindFromRow {uid : Int} {kind : PgStageKind} {found : StageKind}
    (hfound : stageKindFromRow client uid row kind = .ok found) (hkind : kind ≠ .userLogout) :
    found.simple = kind := by
  cases kind with
  | prompt =>
      obtain ⟨_, _, hfound⟩ := bind_eq_ok.mp hfound
      cases hfound
      rfl
  | identification =>
      obtain ⟨_, _, hfound⟩ := bind_eq_ok.mp hfound
      obtain ⟨_, _, hfound⟩ := bind_eq_ok.mp hfound
      obtain ⟨_, _, hfound⟩ := bind_eq_ok.mp hfound
      obtain ⟨_, _, hfound⟩ := bind_eq_ok.mp hfound
      cases hfound
      rfl
  | consent =>
      obtain ⟨_, _, hfound⟩ := bind_eq_ok.mp hfound
      cases hfound
  | userLogout => exact absurd rfl hkind
  | _ => cases hfound; rfl

theorem ofKind_of_stageFromRow (hdb : db.Satisfies Schema.initial) (hrow : row ∈ db "stages")
    {stage : Stage} (hstage : stageFromRow client row = .ok stage)
    (hlogout : ¬ OfKind row .userLogout) : OfKind row stage.kind.simple := by
  obtain ⟨uid, slug, timeout, kind, -, -, -, hkind, hdecodes⟩ :=
    @stageFromRow_eq_ok_iff client db row hdb hrow
  obtain ⟨found, hfound, rfl⟩ := (hdecodes stage).mp hstage
  rw [simple_of_stageKindFromRow hfound fun heq => hlogout (heq ▸ hkind)]
  exact hkind

/-- A stage is decoded from its row, with what the row refers to, when the row is neither of the
kind that logs out nor of the one that asks for consent, and the fields of an identification stage
are a plain list. Rows of different kinds are then decoded to stages of different kinds. -/
theorem stageFromRow_carries_iff (hdb : db.Satisfies Schema.initial) (hclient : client.Serves db)
    (hrow : row ∈ db "stages") (hresolved : Resolved db row) :
    ((∃ stage, stageFromRow client row = .ok stage ∧ CarriesStage db row stage) ↔
        ¬ OfKind row .userLogout ∧ ¬ OfKind row .consent ∧
          (OfKind row .identification → FlatFields db row)) ∧
      (¬ OfKind row .userLogout → ∀ other ∈ db "stages", ¬ OfKind other .userLogout →
        ∀ stage otherStage, stageFromRow client row = .ok stage →
          stageFromRow client other = .ok otherStage → stage.kind.simple = otherStage.kind.simple →
            row.lookup "kind" = other.lookup "kind") := by
  constructor
  · obtain ⟨uid, slug, timeout, kind, huid, hslug, htimeout, hkind, hdecodes⟩ :=
      @stageFromRow_eq_ok_iff client db row hdb hrow
    have hother : ∀ other, OfKind row other ↔ kind = other :=
      fun other => ⟨hkind.unique, fun heq => heq ▸ hkind⟩
    rw [hother, hother, hother, ← Ne, ← Ne, ← stageKindFromRow_carries_iff hdb hclient hrow
      hresolved huid hkind]
    constructor
    · rintro ⟨stage, hstage, hcarries⟩
      obtain ⟨found, hfound, rfl⟩ := (hdecodes stage).mp hstage
      obtain ⟨named, hnamed, hcarries⟩ := hcarries.kind
      obtain rfl := hkind.unique hnamed
      exact ⟨found, hfound, hcarries⟩
    · rintro ⟨found, hfound, hcarries⟩
      exact ⟨_, (hdecodes _).mpr ⟨found, hfound, rfl⟩, huid, hslug, htimeout, kind, hkind, hcarries⟩
  · intro hlogout other hmem hotherLogout stage otherStage hstage hotherStage hsame
    have hkind := ofKind_of_stageFromRow hdb hrow hstage hlogout
    have hotherKind := ofKind_of_stageFromRow hdb hmem hotherStage hotherLogout
    rw [OfKind] at hkind hotherKind
    rw [hkind, hotherKind, hsame]

end Kinds

section KindSamples

/-- An identification stage, a stage that logs out and one that writes the user. -/
def leaveDatabase : Database := fun table =>
  ([("stages",
      [sampleStageRow 1 "id-stage" "identification" none (some (.int4 1)),
        sampleStageRow 2 "logout-stage" "user_logout" none none,
        sampleStageRow 3 "write-stage" "user_write" none none]),
    ("identification_stages",
      [[("uid", some (.int4 1)),
        ("fields", some (.enumArray "userid_field" 1 [some "email", some "name"]))]])].lookup
          table).getD []

theorem leaveDatabase_satisfies : leaveDatabase.Satisfies Schema.initial := by
  decide +kernel

theorem leaveDatabase_resolved : ∀ row ∈ leaveDatabase "stages", Resolved leaveDatabase row := by
  have hidentification : ∀ row ∈ leaveDatabase "stages", OfKind row .identification →
      row.lookup "identification_stage" = some (some (.int4 1)) := by
    decide +kernel
  have hconsent : ∀ row ∈ leaveDatabase "stages", ¬ OfKind row .consent := by
    decide +kernel
  refine fun row hrow => ⟨fun hkind => ⟨_, 1, hidentification row hrow hkind, .head _, rfl⟩, ?_⟩
  exact fun hkind => absurd hkind (hconsent row hrow)

theorem identification_flat : FlatFields leaveDatabase
    (sampleStageRow 1 "id-stage" "identification" none (some (.int4 1))) := by
  rintro target ⟨uid, _, htarget, _⟩
  obtain rfl : target = [("uid", some (.int4 1)),
      ("fields", some (.enumArray "userid_field" 1 [some "email", some "name"]))] :=
    List.mem_singleton.mp htarget
  exact ⟨"userid_field", 1, ["email", "name"], rfl, le_refl 1⟩

theorem identification_decoded :
    ∃ stage, stageFromRow leaveDatabase.client
        (sampleStageRow 1 "id-stage" "identification" none (some (.int4 1))) = .ok stage ∧
      CarriesStage leaveDatabase
        (sampleStageRow 1 "id-stage" "identification" none (some (.int4 1))) stage :=
  (stageFromRow_carries_iff leaveDatabase_satisfies leaveDatabase.client_serves (.head _)
    (leaveDatabase_resolved _ (.head _))).1.mpr
      ⟨by decide +kernel, by decide +kernel, fun _ => identification_flat⟩

/-- A stage that logs out is read as one that writes the user, as is one of that kind. -/
theorem logout_decoded_as_write :
    ∃ db : Database, db.Satisfies Schema.initial ∧
      ∃ row ∈ db "stages", ∃ other ∈ db "stages", Resolved db row ∧ Resolved db other ∧
        row.lookup "kind" ≠ other.lookup "kind" ∧
          ∃ stage otherStage, stageFromRow db.client row = .ok stage ∧
            stageFromRow db.client other = .ok otherStage ∧ stage.kind = otherStage.kind ∧
              ¬ CarriesStage db row stage := by
  refine ⟨leaveDatabase, leaveDatabase_satisfies,
    sampleStageRow 2 "logout-stage" "user_logout" none none, .tail _ (.head _),
    sampleStageRow 3 "write-stage" "user_write" none none, .tail _ (.tail _ (.head _)),
    leaveDatabase_resolved _ (.tail _ (.head _)),
    leaveDatabase_resolved _ (.tail _ (.tail _ (.head _))),
    by decide +kernel, ⟨2, "logout-stage", .userWrite, 30⟩, ⟨3, "write-stage", .userWrite, 30⟩,
    by decide +kernel, by decide +kernel, rfl, ?_⟩
  rintro ⟨-, -, -, kind, hkind, hcarries⟩
  have hlogout : OfKind (sampleStageRow 2 "logout-stage" "user_logout" none none) .userLogout := by
    decide +kernel
  obtain rfl := hlogout.unique hkind
  cases hcarries

end KindSamples

end Authust
