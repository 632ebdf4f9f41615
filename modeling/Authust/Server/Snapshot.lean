import Authust.Server.Positions
import Authust.Server.Recording

/-! # The frozen snapshot is complete

A request looks a stage up only where the flow of its execution reaches it, and a policy only
where the flow refers to it. The frozen storage of the execution has recorded all of these, so
it answers every lookup with what upstream held when the execution was started.
-/

namespace Authust

open Coop Coop.Task Coop.Machine Relation

variable {X : Externals}

/-- The live storage. -/
def World.upstream (w : World X) : Upstream where
  flows := w.flows
  stages := w.stages
  policies := w.policies
  prompts := w.prompts

/-- The lookups in the live storage. -/
def Op.live : Op X → Bool
  | .liveFlow _ | .liveStage _ | .livePolicy _ | .livePrompt _ => true
  | _ => false

/-- Upstream has stayed the same while the request looked it up. -/
def StillUpstream (U : Upstream) (past : Log X) (who : Nat) : Prop :=
  ∀ entry ∈ past, entry.who = who → entry.event.op.live = true → entry.before.upstream = U

/-- Every lookup in the frozen storage of the execution `e` succeeds and answers what upstream
held. -/
structure SnapshotHolds (U : Upstream) (flow : Flow) (e : ExecId)
    (config : Config (sig X) (World X) (Except ApiErrorKind Response)) : Prop where
  complete : ∃ execution, config.state.heap[e]? = some execution ∧ execution.flow = flow ∧
    execution.context.storage.Complete U flow
  stages : ∀ entry ∈ config.log, ∀ reference answer,
    entry.event = ⟨.frozenStage e reference, answer⟩ →
      ∃ stage, U.stages reference = some stage ∧ answer = some stage
  policies : ∀ entry ∈ config.log, ∀ reference answer,
    entry.event = ⟨.frozenPolicy e reference, answer⟩ →
      ∃ policy, U.policies reference = some policy ∧ answer = some policy
  stage : ∀ who reference next,
    (config.procs who).left = some (.call (.frozenStage e reference) next) →
    ∃ stage, U.stages reference = some stage ∧ ∀ choice,
      exec X who (.frozenStage e reference) choice config.state = some (some stage, config.state)
  policy : ∀ who reference next,
    (config.procs who).left = some (.call (.frozenPolicy e reference) next) →
      ∃ policy, U.policies reference = some policy ∧ ∀ choice,
        exec X who (.frozenPolicy e reference) choice config.state =
          some (some policy, config.state)
  found : ∀ who key, (key, e) ∈ obtained (own who config.log) → ∀ message next,
    (config.procs who).left = some (.call (.panic message) next) →
      (@Op.panic X message).misses = false

section Planned

variable {calls : Nat → Call X} {start state after : World X} {log : Log X} {who : Nat}
  {event : Event (sig X)}

/-- An execution keeps the plan it was inserted with. -/
def Planned (state : World X) (log : Log X) : Prop :=
  ∀ entry ∈ log, ∀ (execution : FlowExecution) (e : ExecId),
    entry.event = ⟨.insertExecution execution, e⟩ →
      ∃ later, state.heap[e]? = some later ∧ later.plan = execution.plan

theorem Planned.exec (hplanned : Planned state log) (hstep : Step who state event after) :
    Planned after (log ++ [⟨who, state, event⟩]) := by
  intro entry hmem execution e hevent
  rcases List.mem_append.mp hmem with hmem | hmem
  · obtain ⟨middle, hmiddle, hplan⟩ := hplanned entry hmem execution e hevent
    obtain ⟨later, hafter, hprecedes, _⟩ := hstep.execution_later hmiddle
    exact ⟨later, hafter, hprecedes.plan.trans hplan⟩
  · obtain rfl := List.mem_singleton.mp hmem
    simp only at hevent
    subst hevent
    refine ⟨execution, ?_, rfl⟩
    cases hstep with
    | observe hobserves => cases hobserves
    | insertExecution => simp

theorem planned_preserved :
    Preserved desk (fun who => handle X (calls who)) start Planned where
  exec := fun hplanned _ _ _ hexec => hplanned.exec (exec_step hexec)
  release := fun hplanned => hplanned
  moves := by
    intro state after log hplanned hmoves
    unfold Planned
    rw [hmoves.heap]
    exact hplanned

end Planned

section Started

variable {calls : Nat → Call X} {log past rest : Log X} {who : Nat} {U : Upstream}
  {entry : Logged (sig X) (World X)}

theorem Choice.storage_some {α : Type} {choice : Choice} {found : Option α} {value : α}
    (hstorage : choice.storage found = some value) : found = some value := by
  cases choice with
  | fail conflict => cases hstorage
  | _ => exact hstorage

/-- What a request has found in the live storage is what upstream answers. -/
theorem StillUpstream.answered (hstill : StillUpstream U past who)
    (hexecuted : (server X).Executed past) : U.Answered (own who past) := by
  have hfound : ∀ {event : Event (sig X)}, event ∈ own who past → event.op.live = true →
      ∃ before after choice, before.upstream = U ∧
        exec X who event.op choice before = some (event.res, after) := by
    intro event hmem hlive
    obtain ⟨⟨who', before, event⟩, hentry, rfl, rfl⟩ := mem_own.mp hmem
    obtain ⟨after, choice, hexec⟩ := hexecuted _ hentry
    exact ⟨before, after, choice, hstill _ hentry rfl hlive, hexec⟩
  constructor
  · intro reference flow hmem
    obtain ⟨before, after, choice, rfl, hexec⟩ := hfound hmem rfl
    simp only [exec, Option.some.injEq, Prod.mk.injEq] at hexec
    exact Choice.storage_some hexec.1
  · intro reference stage hmem
    obtain ⟨before, after, choice, rfl, hexec⟩ := hfound hmem rfl
    simp only [exec, Option.some.injEq, Prod.mk.injEq] at hexec
    exact Choice.storage_some hexec.1
  · intro reference policy hmem
    obtain ⟨before, after, choice, rfl, hexec⟩ := hfound hmem rfl
    simp only [exec, Option.some.injEq, Prod.mk.injEq] at hexec
    exact Choice.storage_some hexec.1

/-- An execution is inserted with everything that its flow refers to. -/
theorem complete_of_inserted (hqueries : X.CreatesUidQueries) (hloaded : U.Loaded)
    (hissued : IssuedBy calls (past ++ entry :: rest)) {execution : FlowExecution}
    (hevent : entry.event.op = .insertExecution execution)
    (hstill : StillUpstream U past entry.who) :
    execution.context.storage.Complete U execution.flow := by
  have hgrounded := issued_grounded hissued
  rw [hevent] at hgrounded
  obtain ⟨before, freezing, key, flow, storage, now, hown, hfrozen, rfl⟩ := hgrounded.inserted
  have hearlier : IssuedBy calls past := hissued.initial
  have hanswered := hstill.answered hearlier.executed
  rw [hown] at hanswered
  have hflow := hanswered.flows key.flow flow (by simp)
  refine complete_of_reverseLookupFlow hqueries hloaded (hloaded.flow_byUid hflow) hfrozen ?_
  exact hanswered.mono fun event hmem => by simp [hmem]

end Started

section Named

variable {calls : Nat → Call X} {log : Log X} {who : Nat} {U : Upstream} {plan : Plan} {e : ExecId}

/-- Every entry of the log finds the execution with the plan, if it finds it. -/
def FoundWith (e : ExecId) (plan : Plan) (log : Log X) : Prop :=
  ∀ entry ∈ log, ∀ old, entry.before.heap[e]? = some old → old.plan = plan

/-- Every lookup of a stage has been for one that the flow reaches, and has found it. -/
def StagesFound (U : Upstream) (e : ExecId) (plan : Plan) (log : Log X) : Prop :=
  ∀ entry ∈ log, ∀ reference answer, entry.event = ⟨.frozenStage e reference, answer⟩ →
    ∃ stage, U.stages reference = some stage ∧ answer = some stage ∧ U.Reaches plan.flow reference

theorem FoundWith.entry_mem (hfound : FoundWith e plan log) (hexecuted : (server X).Executed log)
    {index : Nat} {entry : FlowEntry} (hmem : ⟨.getEntry e, (index, entry)⟩ ∈ own who log) :
    entry ∈ plan.flow.entries := by
  obtain ⟨before, after, hentry, hexec⟩ := executed_of_own hexecuted hmem
  obtain ⟨execution, hheap, _, hindex⟩ := exec_getEntry hexec
  rw [← hfound _ hentry execution hheap]
  exact List.mem_of_getElem? hindex

/-- A stage that is looked up is one that the flow reaches. -/
theorem StagesFound.reaches (hstages : StagesFound U e plan log) (hfound : FoundWith e plan log)
    (hexecuted : (server X).Executed log) {reference : DataRef StageQuery}
    (hworks : Works e (own who log) (.frozenStage e reference)) :
    U.Reaches plan.flow reference := by
  -- the stage of an entry, or the password stage of one that was looked up before
  rcases hworks.stage_named with ⟨index, entry, hmem, rfl⟩ | ⟨named, stage, userFields, hmem, hkind⟩
  · exact .entry (hfound.entry_mem hexecuted hmem)
  · obtain ⟨entry, hentry, _, hevent⟩ := mem_own.mp hmem
    obtain ⟨held, hheld, hanswer, hreaches⟩ := hstages entry hentry named _ hevent
    cases hanswer
    exact hreaches.password ⟨stage, hheld, by simp [Stage.password?, hkind]⟩

/-- A policy that is looked up is one that the flow refers to. -/
theorem FoundWith.refersTo (hfound : FoundWith e plan log) (hexecuted : (server X).Executed log)
    {reference : DataRef PolicyQuery} (hworks : Works e (own who log) (.frozenPolicy e reference)) :
    plan.flow.RefersTo reference := by
  rcases hworks.policy_named with
    ⟨flow, binding, hmem, hbinding, hkind⟩ | ⟨index, entry, binding, hmem, hbinding, hkind⟩
  · obtain ⟨before, after, hentry, hexec⟩ := executed_of_own hexecuted hmem
    obtain ⟨execution, hheap, rfl⟩ := exec_getFlow hexec
    have hflow : execution.flow = plan.flow := congrArg Plan.flow (hfound _ hentry execution hheap)
    rw [hflow] at hbinding
    exact ⟨binding, List.mem_append_left _ hbinding, hkind⟩
  · have hentry := hfound.entry_mem hexecuted hmem
    exact ⟨binding, List.mem_append_right _ (List.mem_flatMap.mpr ⟨entry, hentry, hbinding⟩), hkind⟩

/-- One lookup after another is for a stage that the flow reaches, and finds it. -/
theorem stagesFound_of_issued (hcomplete : plan.storage.Complete U plan.flow)
    (hissued : IssuedBy calls log) (hfound : FoundWith e plan log) : StagesFound U e plan log := by
  induction log using List.reverseRecOn with
  | nil =>
      intro entry hmem
      cases hmem
  | append_singleton log last ih =>
      have hearlier : IssuedBy calls log := hissued.initial
      have hbefore : FoundWith e plan log :=
        fun entry hmem => hfound entry (List.mem_append_left _ hmem)
      have hpast := ih hearlier hbefore
      intro entry hmem reference answer hevent
      rcases List.mem_append.mp hmem with hmem | hmem
      · exact hpast entry hmem reference answer hevent
      · obtain rfl := List.mem_singleton.mp hmem
        obtain ⟨who, before, event⟩ := entry
        simp only at hevent
        subst hevent
        obtain ⟨_, after, hexec⟩ := hissued.last
        obtain ⟨_, _, hworks⟩ := (issued_grounded hissued).working rfl
        -- that the flow reaches the stage rests on the lookups before this one
        have hreaches := hpast.reaches hbefore hearlier.executed hworks
        obtain ⟨stage, hstage, hholds⟩ := hcomplete.stages reference hreaches
        obtain ⟨execution, hheap, hanswer⟩ := exec_frozenStage hexec
        have hstorage : execution.context.storage = plan.storage :=
          congrArg Plan.storage (hfound _ (by simp) execution hheap)
        rw [hstorage, hholds] at hanswer
        exact ⟨stage, hstage, (Option.some.inj hanswer).symm, hreaches⟩

/-- Every lookup of a policy has found it. -/
def PoliciesFound (U : Upstream) (e : ExecId) (log : Log X) : Prop :=
  ∀ entry ∈ log, ∀ reference answer, entry.event = ⟨.frozenPolicy e reference, answer⟩ →
    ∃ policy, U.policies reference = some policy ∧ answer = some policy

theorem policiesFound_of_issued (hcomplete : plan.storage.Complete U plan.flow)
    (hissued : IssuedBy calls log) (hfound : FoundWith e plan log) : PoliciesFound U e log := by
  rintro ⟨who, before, event⟩ hmem reference answer hevent
  simp only at hevent
  subst hevent
  obtain ⟨past, rest, rfl⟩ := List.append_of_mem hmem
  have hearlier : IssuedBy calls past := hissued.initial
  have hbefore : FoundWith e plan past :=
    fun entry hentry => hfound entry (List.mem_append_left _ hentry)
  obtain ⟨_, after, hexec⟩ := hissued past _ rest rfl
  obtain ⟨_, _, hworks⟩ := (issued_grounded hissued).working rfl
  obtain ⟨policy, hpolicy, hholds⟩ :=
    hcomplete.policies reference (hbefore.refersTo hearlier.executed hworks)
  obtain ⟨execution, hheap, hanswer⟩ := exec_frozenPolicy hexec
  have hstorage : execution.context.storage = plan.storage :=
    congrArg Plan.storage (hfound _ hmem execution hheap)
  rw [hstorage, hholds] at hanswer
  exact ⟨policy, hpolicy, (Option.some.inj hanswer).symm⟩

/-- A request that works on the execution misses nothing. -/
theorem misses_nothing (hstages : StagesFound U e plan log) (hpolicies : PoliciesFound U e log)
    (hissued : IssuedBy calls log) {key : FlowKey} (hobtained : (key, e) ∈ obtained (own who log))
    {message : String} (hgrounded : Grounded (own who log) (.panic message)) :
    (@Op.panic X message).misses = false := by
  rw [← Bool.not_eq_true]
  intro hmisses
  obtain ⟨key', e', hobtained', hworks⟩ := hgrounded.missing hmisses
  obtain ⟨_, rfl⟩ := issued_obtained_unique hissued hobtained hobtained'
  -- the panic follows a lookup that found nothing, and there has been none
  rcases hworks.missed hmisses with ⟨reference, hmem⟩ | ⟨reference, hmem⟩
  · obtain ⟨entry, hentry, _, hevent⟩ := mem_own.mp hmem
    obtain ⟨_, _, hanswer, _⟩ := hstages entry hentry reference none hevent
    cases hanswer
  · obtain ⟨entry, hentry, _, hevent⟩ := mem_own.mp hmem
    obtain ⟨_, _, hanswer⟩ := hpolicies entry hentry reference none hevent
    cases hanswer

end Named

section Runs

variable {suspends : Op X → Bool} {calls : Nat → Call X} {start : World X}
  {config : Config (sig X) (World X) (Except ApiErrorKind Response)}

/-- The frozen snapshot is complete: in every run, wherever the await points are, an execution
that was inserted while upstream stayed the same answers every lookup in its frozen storage
with what upstream held. -/
theorem frozen_snapshot_complete {U : Upstream} {past rest : Log X}
    {entry : Logged (sig X) (World X)} {execution : FlowExecution} {e : ExecId}
    (hqueries : X.CreatesUidQueries) (hloaded : U.Loaded) (hstart : start.Initial)
    (hreach : InterleavedAt suspends calls start config) (hlog : config.log = past ++ entry :: rest)
    (hinserted : entry.event = ⟨.insertExecution execution, e⟩)
    (hstill : StillUpstream U past entry.who) : SnapshotHolds U execution.flow e config := by
  obtain ⟨hfinal, _, _, hissued, hpath⟩ := interleavedAt_standing hstart hreach
  have hplanned := (hreach.holds planned_preserved.regrain (by intro entry hmem; cases hmem)).1
  obtain ⟨later, hheap, hplan⟩ := hplanned entry (by simp [hlog]) execution e hinserted
  have hcomplete : execution.context.storage.Complete U execution.flow := by
    rw [hlog] at hissued
    exact complete_of_inserted hqueries hloaded hissued (congrArg Event.op hinserted) hstill
  -- the plan of an execution never changes, so every request found the one inserted
  have hfound : FoundWith e execution.plan config.log := by
    intro other hmem old hold
    obtain ⟨last, hlast, hprecedes⟩ := hfinal.later other hmem e old hold
    rw [hheap] at hlast
    cases hlast
    exact hprecedes.plan.symm.trans hplan
  have hflow : later.flow = execution.flow := congrArg Plan.flow hplan
  have hstorage : later.context.storage = execution.context.storage := congrArg Plan.storage hplan
  have hstages := stagesFound_of_issued hcomplete hissued hfound
  have hpolicies := policiesFound_of_issued hcomplete hissued hfound
  constructor
  · exact ⟨later, hheap, hflow, hstorage ▸ hcomplete⟩
  · intro other hmem reference answer hevent
    obtain ⟨stage, hstage, hanswer, _⟩ := hstages other hmem reference answer hevent
    exact ⟨stage, hstage, hanswer⟩
  · exact hpolicies
  · intro who reference next hleft
    obtain ⟨_, _, hworks⟩ := (grounded_of_path (hpath who _ hleft)).working rfl
    obtain ⟨stage, hstage, hholds⟩ :=
      hcomplete.stages reference (hstages.reaches hfound hissued.executed hworks)
    refine ⟨stage, hstage, fun choice => ?_⟩
    simp [exec, hheap, hstorage, hholds]
  · intro who reference next hleft
    obtain ⟨_, _, hworks⟩ := (grounded_of_path (hpath who _ hleft)).working rfl
    obtain ⟨policy, hpolicy, hholds⟩ :=
      hcomplete.policies reference (hfound.refersTo hissued.executed hworks)
    refine ⟨policy, hpolicy, fun choice => ?_⟩
    simp [exec, hheap, hstorage, hholds]
  · intro who key hobtained message next hleft
    exact misses_nothing hstages hpolicies hissued hobtained (grounded_of_path (hpath who _ hleft))

end Runs

section SnapshotSamples

theorem Step.upstream {who : Nat} {before after : World X} {event : Event (sig X)}
    (hstep : Step who before event after) : after.upstream = before.upstream := by
  cases hstep <;> rfl

/-- Without surroundings upstream stays as it was. -/
theorem upstream_preserved {tasks : Nat → Task (sig X) (Except ApiErrorKind Response)}
    {start : World X} :
    Preserved (@desk X).still tasks start fun state _ => state.upstream = start.upstream where
  exec := fun hsame _ _ _ hexec => (exec_step hexec).upstream.trans hsame
  release := fun hsame => hsame
  moves := fun _ hmoves => hmoves.elim

/-- The flow is loaded from its rows; the password stage of its first stage is no entry. -/
def loadedWorld : World Externals.plain :=
  let upstream := Upstream.ofClient (loginDatabase (some (.int4 2))).client fun _ => none
  { oneForm with
    flows := upstream.flows
    stages := upstream.stages
    policies := upstream.policies
    prompts := upstream.prompts }

def loadedSchedule : List (Act Choice) := Act.awaits 0 .normal 28

def insertsAs (e : ExecId) : Event (sig X) → Bool
  | ⟨.insertExecution _, inserted⟩ => inserted = e
  | _ => false

theorem insertsAs_iff {e : ExecId} {event : Event (sig X)} :
    insertsAs e event = true ↔ ∃ execution, event = ⟨.insertExecution execution, e⟩ := by
  constructor
  · intro hinserts
    unfold insertsAs at hinserts
    split at hinserts
    next execution inserted =>
      obtain rfl := of_decide_eq_true hinserts
      exact ⟨execution, rfl⟩
    next => cases hinserts
  · rintro ⟨execution, rfl⟩
    simp [insertsAs]

theorem loaded_run : (sampleRunFine loadedWorld (fun _ => sampleGet) loadedSchedule).map
    (fun config => (config.log.any fun entry => insertsAs 0 entry.event,
      (own 0 config.log).countP fun event => event.op.frozen)) = some (true, 2) := by
  decide +kernel

/-- Upstream is the same at every entry of a run that a schedule makes. -/
theorem sampleRunFine_upstream {start : World Externals.plain} {calls : Nat → Call Externals.plain}
    {schedule : List (Act Choice)}
    {config : Config (sig Externals.plain) (World Externals.plain) (Except ApiErrorKind Response)}
    (hrun : sampleRunFine start calls schedule = some config) :
    ∀ entry ∈ config.log, entry.before.upstream = start.upstream := by
  intro entry hmem
  rw [sampleRunFine, ← acts_still] at hrun
  obtain ⟨⟨_, hthroughout⟩, _⟩ := (Reachable.acts .start schedule hrun).holds
    (upstream_preserved.throughout.regrain) ⟨rfl, throughout_nil⟩
  obtain ⟨past, rest, hlog⟩ := List.append_of_mem hmem
  exact hthroughout past entry rest hlog

/-- A flow that is loaded from the database is fetched. -/
theorem loaded_snapshot_complete : ∃ config flow,
    InterleavedAt (fun _ => true) (fun _ => sampleGet) loadedWorld config ∧
      ((own 0 config.log).countP fun event => event.op.frozen) = 2 ∧
        SnapshotHolds loadedWorld.upstream flow 0 config := by
  obtain ⟨config, hrun, hresult⟩ := Option.map_eq_some_iff.mp loaded_run
  simp only [Prod.mk.injEq, List.any_eq_true] at hresult
  obtain ⟨⟨entry, hmem, hinserts⟩, hlookups⟩ := hresult
  obtain ⟨execution, hinserted⟩ := insertsAs_iff.mp hinserts
  have hreach : InterleavedAt (fun _ => true) (fun _ => sampleGet) loadedWorld config :=
    Reachable.acts .start _ hrun
  obtain ⟨past, rest, hlog⟩ := List.append_of_mem hmem
  have hstill : StillUpstream loadedWorld.upstream past entry.who := fun other hother _ _ =>
    sampleRunFine_upstream hrun other (by simp [hlog, hother])
  have hloaded : loadedWorld.upstream.Loaded :=
    (Upstream.ofClient_loadedFrom (Postgres.Database.client_serves _) _).loaded
  exact ⟨config, execution.flow, hreach, hlookups,
    frozen_snapshot_complete Externals.plain_createsUidQueries hloaded
      ⟨rfl, rfl, rfl, rfl, rfl⟩ hreach hlog hinserted hstill⟩

end SnapshotSamples

end Authust
