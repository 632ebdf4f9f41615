import Authust.Server.Starts

/-! # What a request asks of an execution

A request works on the one execution that it has obtained. It looks a stage up only where
an entry or a stage has named it, and a policy only where a binding has.
-/

namespace Authust

open Coop Coop.Task

variable {X : Externals}

/-- The execution that an operation names. -/
def Op.execution? : Op X → Option ExecId
  | .getFlow e | .getKey e | .readContext e | .useMutContext e _ | .getEntry e
  | .completeCurrent e | .isCompleted e | .lockContext e | .unlockContext e | .frozenStage e _
  | .frozenPolicy e _ => some e
  | _ => none

/-- The lookups in a frozen storage. -/
def Op.frozen : Op X → Bool
  | .frozenStage _ _ | .frozenPolicy _ _ => true
  | _ => false

/-- The operations that need no reason in the history. -/
def Op.plain : Op X → Bool
  | .cachedExecution _ | .insertExecution _ | .insertSession _ => false
  | op => op.execution?.isNone && !op.misses

/-- The operations of work on the execution `e`, with what names the data they look up. -/
inductive Works (e : ExecId) : History X → Op X → Prop
  | plain {history : History X} {op : Op X} (hplain : op.plain = true) : Works e history op
  | direct {history : History X} {op : Op X} (hexecution : op.execution? = some e)
      (hfrozen : op.frozen = false) : Works e history op
  | entryStage {history : History X} {index : Nat} {entry : FlowEntry}
      (hentry : ⟨.getEntry e, (index, entry)⟩ ∈ history) :
      Works e history (.frozenStage e entry.stage)
  | passwordStage {history : History X} {reference password : DataRef StageQuery} {stage : Stage}
      {userFields : List UserField} (hstage : ⟨.frozenStage e reference, some stage⟩ ∈ history)
      (hkind : stage.kind = .identification (some password) userFields) :
      Works e history (.frozenStage e password)
  | flowPolicy {history : History X} {flow : Flow} {binding : FlowBinding}
      {reference : DataRef PolicyQuery} (hflow : ⟨.getFlow e, flow⟩ ∈ history)
      (hbinding : binding ∈ flow.bindings) (hkind : binding.kind = .policy reference) :
      Works e history (.frozenPolicy e reference)
  | entryPolicy {history : History X} {index : Nat} {entry : FlowEntry} {binding : FlowBinding}
      {reference : DataRef PolicyQuery} (hentry : ⟨.getEntry e, (index, entry)⟩ ∈ history)
      (hbinding : binding ∈ entry.bindings) (hkind : binding.kind = .policy reference) :
      Works e history (.frozenPolicy e reference)
  | missingStage {history : History X} {reference : DataRef StageQuery}
      (hmissing : ⟨.frozenStage e reference, none⟩ ∈ history) :
      Works e history (.panic "Missing stage in storage")
  | missingPolicy {history : History X} {reference : DataRef PolicyQuery}
      (hmissing : ⟨.frozenPolicy e reference, none⟩ ∈ history) :
      Works e history (.panic "Missing policy in storage")

/-- Nothing has been obtained yet, and the key is of the session that has been created, if
one has. -/
structure Seeking (history : History X) (key : FlowKey) : Prop where
  unobtained : obtained history = []
  keyed : ∀ sid, ⟨.insertSession sid, .ok ()⟩ ∈ history → key.session = sid

/-- Why a request issues an operation: it needs no reason, belongs to the work on the
execution that has been obtained, or comes before any has been. -/
inductive Grounded : History X → Op X → Prop
  | plain {history : History X} {op : Op X} (hplain : op.plain = true) : Grounded history op
  | works {history : History X} {op : Op X} {key : FlowKey} {e : ExecId}
      (hobtained : (key, e) ∈ obtained history) (hworks : Works e history op) : Grounded history op
  | insertSession {history : History X} {sid : String} (hnone : obtained history = []) :
      Grounded history (.insertSession sid)
  | cachedExecution {history : History X} {key : FlowKey} (hseeking : Seeking history key) :
      Grounded history (.cachedExecution key)
  | insertExecution {before freezing : History X} {key : FlowKey} {flow : Flow}
      {storage : FreezedStorage} {now : OffsetDateTime}
      (hseeking :
        Seeking (before ++ ⟨.liveFlow key.flow, some flow⟩ :: freezing ++ [⟨.now, now⟩]) key)
      (hentries : flow.entries ≠ [])
      (hfrozen : Trace (reverseLookupFlow X flow) freezing storage) :
      Grounded (before ++ ⟨.liveFlow key.flow, some flow⟩ :: freezing ++ [⟨.now, now⟩])
        (.insertExecution (.new key flow storage now))

/-- The rule of work on an execution, whatever it returns. -/
abbrev Working {α : Type} (e : ExecId) (task : Task (sig X) α) (history : History X) : Prop :=
  @Obeys (sig X) α (Works e) (fun _ _ => True) task history

section Combinators

variable {α β : Type} {e : ExecId} {history : History X}

theorem Works.append {op : Op X} (hworks : Works e history op) (more : History X) :
    Works e (history ++ more) op := by
  cases hworks with
  | plain hplain => exact .plain hplain
  | direct hexecution hfrozen => exact .direct hexecution hfrozen
  | entryStage hentry => exact .entryStage (List.mem_append_left _ hentry)
  | passwordStage hstage hkind => exact .passwordStage (List.mem_append_left _ hstage) hkind
  | flowPolicy hflow hbinding hkind =>
      exact .flowPolicy (List.mem_append_left _ hflow) hbinding hkind
  | entryPolicy hentry hbinding hkind =>
      exact .entryPolicy (List.mem_append_left _ hentry) hbinding hkind
  | missingStage hmissing => exact .missingStage (List.mem_append_left _ hmissing)
  | missingPolicy hmissing => exact .missingPolicy (List.mem_append_left _ hmissing)

/-- Work on an execution names no other. -/
theorem Works.names {op : Op X} {e' : ExecId} (hworks : Works e history op)
    (hexecution : op.execution? = some e') : e' = e := by
  have hnot : op.plain = false := by cases op <;> first | rfl | cases hexecution
  cases hworks with
  | plain hplain => simp [hnot] at hplain
  | direct hnamed _ =>
      rw [hexecution] at hnamed
      exact Option.some.inj hnamed
  | missingStage _ => cases hexecution
  | missingPolicy _ => cases hexecution
  | _ => exact (Option.some.inj hexecution).symm

/-- What names a stage that is looked up in the frozen storage. -/
theorem Works.stage_named {reference : DataRef StageQuery}
    (hworks : Works e history (.frozenStage e reference)) :
    (∃ index entry, ⟨.getEntry e, (index, entry)⟩ ∈ history ∧ reference = entry.stage) ∨
      ∃ named stage userFields, ⟨.frozenStage e named, some stage⟩ ∈ history ∧
        stage.kind = .identification (some reference) userFields := by
  cases hworks with
  | plain hplain => cases hplain
  | direct _ hfrozen => cases hfrozen
  | entryStage hentry => exact Or.inl ⟨_, _, hentry, rfl⟩
  | passwordStage hstage hkind => exact Or.inr ⟨_, _, _, hstage, hkind⟩

/-- What names a policy that is looked up in the frozen storage. -/
theorem Works.policy_named {reference : DataRef PolicyQuery}
    (hworks : Works e history (.frozenPolicy e reference)) :
    (∃ flow binding, ⟨.getFlow e, flow⟩ ∈ history ∧ binding ∈ flow.bindings ∧
      binding.kind = .policy reference) ∨
      ∃ index entry binding, ⟨.getEntry e, (index, entry)⟩ ∈ history ∧ binding ∈ entry.bindings ∧
        binding.kind = .policy reference := by
  cases hworks with
  | plain hplain => cases hplain
  | direct _ hfrozen => cases hfrozen
  | flowPolicy hflow hbinding hkind => exact Or.inl ⟨_, _, hflow, hbinding, hkind⟩
  | entryPolicy hentry hbinding hkind => exact Or.inr ⟨_, _, _, hentry, hbinding, hkind⟩

/-- A lookup is missed only where the frozen storage has answered none. -/
theorem Works.missed {message : String} (hworks : Works e history (.panic message))
    (hmisses : (@Op.panic X message).misses = true) :
    (∃ reference, ⟨.frozenStage e reference, none⟩ ∈ history) ∨
      ∃ reference, ⟨.frozenPolicy e reference, none⟩ ∈ history := by
  cases hworks with
  | plain hplain => simp [Op.plain, Op.execution?, hmisses] at hplain
  | direct hexecution _ => cases hexecution
  | missingStage hmissing => exact Or.inl ⟨_, hmissing⟩
  | missingPolicy hmissing => exact Or.inr ⟨_, hmissing⟩

theorem working_op {op : Op X} (hop : Works e history op) : Working e (Authust.op op) history :=
  ⟨hop, fun _ => trivial⟩

theorem working_access {op : Op X} (hop : Works e history op) : Working e (access op).run history :=
  ⟨hop, fun _ => trivial⟩

theorem working_panic {message : String} (hmessage : Works e history (.panic message)) :
    Working e (panic message : Task (sig X) α) history :=
  ⟨hmessage, fun res => res.elim⟩

theorem working_lift {task : Task (sig X) α} (htask : Working e task history) :
    Working e (ExceptT.lift task : Handler X α).run history := by
  rw [run_lift]
  exact Obeys.bind htask fun _ _ _ => trivial

theorem working_lift_bind {task : Task (sig X) α} {f : α → Handler X β}
    (htask : Working e task history)
    (hrest : ∀ tail value, Trace task tail value → Working e (f value).run (history ++ tail)) :
    Working e (ExceptT.lift task >>= f).run history := by
  rw [run_lift_bind]
  exact Obeys.bind htask hrest

theorem Asking.working {task : Task (sig X) α} (hasking : Asking task) (history : History X) :
    Working e task history := by
  refine hasking.obeys (fun past op hop => .plain ?_) history
  cases op with
  | prepareCached | queryUser => rfl
  | _ => exact absurd rfl hop

end Combinators

section Checking

variable {e : ExecId} {history : History X} {context : CheckContext}

theorem working_lookupStage {reference : DataRef StageQuery}
    (hnamed : Works e history (.frozenStage e reference)) :
    Working e (lookupStage X e reference) history := by
  apply obeys_perform_bind (.direct rfl rfl)
  intro _
  apply obeys_perform_bind (hnamed.append _)
  intro stage
  apply obeys_perform_bind (.direct rfl rfl)
  intro _
  cases stage with
  | none => exact working_panic (@Works.missingStage X e _ reference (by simp))
  | some stage => trivial

theorem working_lookupPolicy {reference : DataRef PolicyQuery}
    (hnamed : Works e history (.frozenPolicy e reference)) :
    Working e (lookupPolicy X e reference) history := by
  apply obeys_perform_bind (.direct rfl rfl)
  intro _
  apply obeys_perform_bind (hnamed.append _)
  intro policy
  apply obeys_perform_bind (.direct rfl rfl)
  intro _
  cases policy with
  | none => exact working_panic (@Works.missingPolicy X e _ reference (by simp))
  | some policy => trivial

theorem working_getAst {reference : DataRef PolicyQuery} :
    Working e (getAst X reference) history := by
  apply obeys_perform_bind (.plain rfl)
  intro policy
  cases policy with
  | none => trivial
  | some policy => exact obeys_perform_bind (.plain rfl) fun _ => trivial

theorem working_checkPolicy (hcontext : context.execution = e) {policy : Policy} :
    Working e (checkPolicy X context policy) history := by
  unfold checkPolicy
  split
  next =>
    apply obeys_perform_bind (.direct (congrArg some hcontext) rfl)
    intro _
    split <;> trivial
  next => trivial
  next =>
    apply Obeys.bind working_getAst
    intro _ ast _
    cases ast with
    | none => trivial
    | some ast =>
        simp only
        split <;> trivial

theorem working_flowCheck (hcontext : context.execution = e) {flowCheck : FlowCheck}
    (hnamed : ∀ reference, flowCheck = .policy reference →
      Works e history (.frozenPolicy e reference)) :
    Working e (flowCheck.check X context) history := by
  cases flowCheck with
  | authentication requirement => trivial
  | isUser uid => trivial
  | policy reference =>
      refine Obeys.bind ?_ fun _ policy _ => working_checkPolicy hcontext
      rw [hcontext]
      exact working_lookupPolicy (hnamed reference rfl)

theorem trace_ofBindingKind {kind : FlowBindingKind} {flowCheck : FlowCheck}
    (htrace : Trace (FlowCheck.ofBindingKind X kind) history flowCheck) :
    ∀ reference, flowCheck = .policy reference → kind = .policy reference := by
  rintro reference rfl
  cases kind with
  | group uid =>
      obtain ⟨res, _⟩ := trace_perform_bind.mp htrace
      exact res.elim
  | user uid => cases (trace_done.mp htrace).2
  | policy named =>
      cases (trace_done.mp htrace).2
      rfl

theorem working_checkBinding (hcontext : context.execution = e) {binding : FlowBinding}
    (hnamed : ∀ reference, binding.kind = .policy reference →
      Works e history (.frozenPolicy e reference)) :
    Working e (checkBinding X binding context) history := by
  unfold checkBinding
  split
  next =>
    refine Obeys.bind ?_ fun converting flowCheck hconverted => ?_
    · cases binding.kind with
      | group uid => exact working_panic (.plain rfl)
      | user uid => trivial
      | policy reference => trivial
    · refine Obeys.bind (working_flowCheck hcontext ?_) fun _ output _ => ?_
      · intro reference hpolicy
        exact (hnamed reference (trace_ofBindingKind hconverted reference hpolicy)).append _
      · simp only
        split <;> split <;> trivial
  next => trivial

theorem working_checkBindings (hcontext : context.execution = e) {bindings : List FlowBinding}
    (hnamed : ∀ binding ∈ bindings, ∀ reference, binding.kind = .policy reference →
      Works e history (.frozenPolicy e reference)) :
    Working e (checkBindings X context bindings) history := by
  induction bindings generalizing history with
  | nil => trivial
  | cons binding rest ih =>
      refine Obeys.bind ?_ fun checking verdict _ => ?_
      · exact working_checkBinding hcontext (hnamed binding List.mem_cons_self)
      · cases verdict with
        | some message => trivial
        | none =>
            apply ih
            intro other hmem reference hkind
            exact (hnamed other (List.mem_cons_of_mem _ hmem) reference hkind).append _

theorem working_check (hcontext : context.execution = e) :
    Working e (check X e context) history := by
  apply obeys_perform_bind (.direct rfl rfl)
  intro flow
  simp only [FlowCheck.check, pure_eq_done, done_bind]
  split
  next =>
    refine Obeys.bind (working_checkBindings hcontext ?_) fun checking verdict _ => ?_
    · exact fun binding hbinding reference hkind => .flowPolicy (by simp) hbinding hkind
    · cases verdict with
      | some message => trivial
      | none =>
          refine obeys_perform_bind (.direct rfl rfl) fun entry => working_checkBindings hcontext ?_
          exact fun binding hbinding reference hkind =>
            @Works.entryPolicy X e _ entry.1 _ _ _ (by simp) hbinding hkind
  next => trivial

/-- A check context names the execution that it was made for. -/
theorem trace_checkContext {request : Request X} {host : String} {session : Session}
    (htrace : Trace (checkContext X request host session e).run history (.ok context)) :
    context.execution = e := by
  obtain ⟨_, _, _, _, hreading, rfl⟩ := trace_bind_ok.mp htrace
  rw [run_lift, getCheckContext] at hreading
  obtain ⟨_, _, _, hread, hdone, rfl⟩ := trace_bind.mp hreading
  cases (trace_done.mp hdone).2
  obtain ⟨_, _, _, hread⟩ := trace_perform_bind.mp hread
  obtain ⟨_, rfl⟩ := trace_done.mp hread
  rfl

end Checking

section Showing

variable {e : ExecId} {history : History X} {context : CheckContext} {stage : Stage}

theorem working_asComponent {reference : DataRef StageQuery}
    (hstage : ⟨.frozenStage e reference, some stage⟩ ∈ history) :
    Working e (asComponent X stage e) history := by
  unfold asComponent
  split
  next => trivial
  next => exact working_panic (.plain rfl)
  next password userFields hkind =>
    cases password with
    | none => trivial
    | some password =>
        exact Obeys.bind (working_lookupStage (.passwordStage hstage hkind)) fun _ _ _ => trivial
  next => trivial
  next => trivial
  next => trivial
  next => trivial
  next => exact working_panic (.plain rfl)

theorem working_currentComponent {reference : DataRef StageQuery}
    (hstage : ⟨.frozenStage e reference, some stage⟩ ∈ history) :
    Working e (currentComponent X e stage) history := by
  apply obeys_perform_bind (.direct rfl rfl)
  intro _
  apply obeys_perform_bind (.direct rfl rfl)
  intro inner
  split
  next => exact obeys_perform_bind (.direct rfl rfl) fun _ => trivial
  next =>
    refine Obeys.bind (@working_asComponent X e _ stage reference ?_) fun _ component _ => ?_
    · simp [hstage]
    · apply obeys_perform_bind (.direct rfl rfl)
      intro _
      cases component <;> trivial

theorem working_completedComponent : Working e (completedComponent X e context) history := by
  unfold completedComponent
  split
  next =>
    exact obeys_perform_bind (.direct rfl rfl) fun _ => obeys_perform_bind (.plain rfl)
      fun _ => trivial
  next => trivial

/-- A stage that has been looked up has been answered. -/
theorem mem_of_trace_lookupStage {reference : DataRef StageQuery}
    (htrace : Trace (lookupStage X e reference) history stage) :
    ⟨.frozenStage e reference, some stage⟩ ∈ history := by
  obtain rfl := trace_lookupStage.mp htrace
  simp [stageLookup]

theorem working_data (hcontext : context.execution = e) {error : Option SubmissionError} :
    Working e (data X e error context) history := by
  apply obeys_perform_bind (.direct rfl rfl)
  intro flow
  apply obeys_perform_bind (.direct rfl rfl)
  intro entry
  refine Obeys.bind (working_lookupStage ?_) fun lookup stage hlookup => ?_
  · exact @Works.entryStage X e _ entry.1 _ (by simp)
  apply obeys_perform_bind (.direct rfl rfl)
  intro completed
  apply Obeys.bind (working_check hcontext)
  intro checking denied _
  split
  next => trivial
  next =>
    simp only
    split
    next =>
      apply Obeys.bind working_completedComponent
      intro _ _ _
      exact obeys_perform_bind (.direct rfl rfl) fun _ => trivial
    next =>
      have hstage := mem_of_trace_lookupStage hlookup
      refine Obeys.bind (@working_currentComponent X e _ stage entry.2.stage ?_) fun _ _ _ => ?_
      · simp [hstage]
      · exact obeys_perform_bind (.direct rfl rfl) fun _ => trivial

end Showing

section Posting

variable {e : ExecId} {history : History X} {context : CheckContext} {request : Request X}
  {session : Session} {form : Value}

theorem working_handlePasswordStage {backends : List PasswordBackend} :
    Working e (handlePasswordStage X form e backends).run history := by
  apply obeys_lift_perform_bind (.direct rfl rfl)
  intro context
  split
  next => trivial
  next pending _ =>
    split
    next => trivial
    next password _ =>
      split
      next =>
        apply Obeys.run_bind (working_op (.plain rfl))
        intro _ _ _
        apply Obeys.run_bind (working_op (.plain rfl))
        intro _ stored _
        split
        next => trivial
        next stored =>
          split
          next => trivial
          next hash _ =>
            apply obeys_lift_perform_bind (.plain rfl)
            intro result
            split
            next => exact working_access (.direct rfl rfl)
            next => trivial
            next => trivial
      next => trivial

theorem working_handleIdentification {password : Option (DataRef StageQuery)}
    {userFields : List UserField}
    (hnamed : ∀ reference, password = some reference →
      Works e history (.frozenStage e reference)) :
    Working e (handleIdentification X form e password userFields).run history := by
  unfold handleIdentification
  split
  next => trivial
  next uid _ =>
    apply Obeys.run_bind (asking_lookupUser.working _)
    intro _ found _
    cases found with
    | none => trivial
    | some user =>
        apply obeys_lift_perform_bind (.direct rfl rfl)
        intro _
        cases password with
        | none => trivial
        | some reference =>
            refine working_lift_bind (working_lookupStage ?_) fun _ stage _ => ?_
            · exact ((hnamed reference rfl).append _).append _
            · split
              next => exact working_handlePasswordStage
              next => exact working_lift (working_panic (.plain rfl))

theorem working_handleStage {stage : Stage} {reference : DataRef StageQuery}
    (hstage : ⟨.frozenStage e reference, some stage⟩ ∈ history) :
    Working e (handleStage X form e stage).run history := by
  unfold handleStage
  split
  next => trivial
  next => trivial
  next password userFields hkind =>
    refine working_handleIdentification ?_
    rintro named rfl
    exact .passwordStage hstage hkind
  next => trivial
  next => trivial
  next => trivial
  next => exact working_handlePasswordStage
  next => trivial

theorem working_handleSubmission : Working e (handleSubmission X form e).run history := by
  apply obeys_lift_perform_bind (.direct rfl rfl)
  intro completed
  split
  next => trivial
  next =>
    apply obeys_lift_perform_bind (.direct rfl rfl)
    intro entry
    refine working_lift_bind (working_lookupStage ?_) fun _ stage hlookup => ?_
    · exact @Works.entryStage X e _ entry.1 _ (by simp)
    · exact working_handleStage (List.mem_append_right _ (mem_of_trace_lookupStage hlookup))

theorem working_getSessionCookie : Working e (getSessionCookie X request) history := by
  apply obeys_perform_bind (.plain rfl)
  intro added
  cases added <;> trivial

theorem working_setSessionCookie {claims : Claims} :
    Working e (setSessionCookie X claims).run history := by
  unfold setSessionCookie
  split
  next => trivial
  next => exact working_access (.plain rfl)

theorem working_userLogin {entry : FlowEntry} :
    Working e (userLogin X request session e entry).run history := by
  apply obeys_lift_perform_bind (.direct rfl rfl)
  intro context
  split
  next => trivial
  next user _ =>
    split
    next =>
      apply working_lift_bind working_getSessionCookie
      intro _ cookie _
      split
      next => trivial
      next token =>
        split
        next => trivial
        next claims _ =>
          apply Obeys.run_bind working_setSessionCookie
          intro _ _ _
          apply Obeys.run_bind (working_op (.plain rfl))
          intro _ _ _
          exact Obeys.run_bind (working_op (.plain rfl)) fun _ _ _ => trivial
    next => exact obeys_lift_perform_bind (.direct rfl rfl) fun _ => trivial

theorem working_completeTurn {exhausted : Bool} :
    Working e (completeTurn X request session e exhausted).run history := by
  apply obeys_lift_perform_bind (.direct rfl rfl)
  intro completed
  split
  next => trivial
  next =>
    apply obeys_lift_perform_bind (.direct rfl rfl)
    intro entry
    refine working_lift_bind (working_lookupStage ?_) fun _ stage _ => ?_
    · exact @Works.entryStage X e _ entry.1 _ (by simp)
    split
    next => trivial
    next =>
      split
      next => trivial
      next =>
        split
        next => exact working_userLogin
        next => exact working_lift (working_panic (.plain rfl))
        next => exact working_lift (working_panic (.plain rfl))
        next => exact working_lift (working_panic (.plain rfl))

theorem working_completeLoop {left : Nat} :
    Working e (completeLoop X request session e left).run history := by
  induction left generalizing history with
  | zero => exact Obeys.run_bind working_completeTurn fun _ _ _ => trivial
  | succ left ih =>
      apply Obeys.run_bind working_completeTurn
      intro _ control _
      cases control with
      | leave => trivial
      | proceed => exact obeys_lift_perform_bind (.direct rfl rfl) fun _ => ih

theorem working_submit (hcontext : context.execution = e) :
    Working e (submit X request form session e context).run history := by
  unfold submit
  rw [run_lift_bind]
  apply Obeys.bind working_handleSubmission
  intro _ result _
  split
  next => exact working_lift_bind (working_data hcontext) fun _ _ _ => trivial
  next => trivial
  next =>
    apply obeys_lift_perform_bind (.direct rfl rfl)
    intro _
    apply Obeys.run_bind working_completeLoop
    intro _ _ _
    exact Obeys.run_bind (working_op (.plain rfl)) fun _ _ _ => trivial

theorem working_checkContext {host : String} :
    Working e (checkContext X request host session e).run history := by
  apply Obeys.run_bind (asking_getUser.working _)
  intro _ user _
  exact working_lift (obeys_perform_bind (.direct rfl rfl) fun _ => trivial)

theorem trace_openPost {host : String}
    (htrace : Trace (openPost X request host session e).run history (.ok context)) :
    context.execution = e := by
  obtain ⟨_, _, _, _, htransaction, rfl⟩ := trace_bind_ok.mp htrace
  obtain ⟨_, _, _, _, hchecking, rfl⟩ := trace_bind_ok.mp htransaction
  exact trace_checkContext hchecking

theorem working_postExecution {host : String} :
    Working e (postExecution X request host form session e).run history := by
  refine Obeys.run_bind ?_ fun _ context hopened => ?_
  · apply Obeys.run_bind (working_op (.plain rfl))
    intro _ _ _
    exact Obeys.run_bind (working_op (.plain rfl)) fun _ _ _ => working_checkContext
  · have hcontext := trace_openPost hopened
    apply working_lift_bind (working_check hcontext)
    intro _ verdict _
    cases verdict with
    | some message => exact working_lift_bind (working_data hcontext) fun _ _ _ => trivial
    | none => exact working_submit hcontext

theorem working_getExecutionData {host : String} :
    Working e (getExecutionData X request host session e).run history := by
  apply Obeys.run_bind (working_op (.plain rfl))
  intro _ _ _
  apply Obeys.run_bind working_checkContext
  intro _ context hread
  exact working_lift_bind (working_data (trace_checkContext hread)) fun _ _ _ => trivial

end Posting

/-- The rule of a whole request. -/
abbrev Grounding {α : Type} (task : Task (sig X) α) (history : History X) : Prop :=
  @Obeys (sig X) α Grounded (fun _ _ => True) task history

section Requests

variable {α : Type} {history : History X} {request : Request X} {session : Session}
  {extension : AuthExtension}

/-- Work on an execution that has been obtained is grounded. -/
theorem grounding_of_working {e : ExecId} {key : FlowKey} {task : Task (sig X) α}
    (hworking : Working e task history) (hobtained : (key, e) ∈ obtained history) :
    Grounding task history := by
  induction task generalizing history with
  | done value => trivial
  | call op next ih =>
      refine ⟨.works hobtained hworking.1, fun res => ih res (hworking.2 res) ?_⟩
      rw [obtained_append]
      exact List.mem_append_left _ hobtained

theorem grounding_of_asking {task : Task (sig X) α} (hasking : Asking task) (history : History X) :
    Grounding task history := by
  refine hasking.obeys (fun past op hop => .plain ?_) history
  cases op with
  | prepareCached | queryUser => rfl
  | _ => exact absurd rfl hop

/-- Whatever obtains an execution is issued while none has been obtained. -/
theorem Grounded.seeking {op : Op X} {res : op.Res} {key : FlowKey} {e : ExecId}
    (hgrounded : Grounded history op) (hobtains : @obtains X ⟨op, res⟩ = some (key, e)) :
    Seeking history key := by
  cases op with
  | cachedExecution asked =>
      obtain ⟨found, _, heq⟩ := Option.map_eq_some_iff.mp hobtains
      cases heq
      cases hgrounded with
      | plain hplain => cases hplain
      | works _ hworks =>
          cases hworks with
          | plain hplain => cases hplain
          | direct hexecution _ => cases hexecution
      | cachedExecution hseeking => exact hseeking
  | insertExecution execution =>
      cases hobtains
      cases hgrounded with
      | plain hplain => cases hplain
      | works _ hworks =>
          cases hworks with
          | plain hplain => cases hplain
          | direct hexecution _ => cases hexecution
      | insertExecution hseeking _ _ => exact hseeking
  | _ => cases hobtains

/-- A request works on the execution that it has obtained. -/
theorem Grounded.working {op : Op X} {e : ExecId} (hgrounded : Grounded history op)
    (hexecution : op.execution? = some e) : ∃ key, (key, e) ∈ obtained history ∧
    Works e history op := by
  have hnot : op.plain = false := by cases op <;> first | rfl | cases hexecution
  cases hgrounded with
  | plain hplain => simp [hnot] at hplain
  | works hobtained hworks =>
      obtain rfl := hworks.names hexecution
      exact ⟨_, hobtained, hworks⟩
  | insertSession _ => cases hexecution
  | cachedExecution _ => cases hexecution
  | insertExecution _ _ _ => cases hexecution

/-- A request names the execution that it has obtained. -/
theorem Grounded.names {op : Op X} {e : ExecId} (hgrounded : Grounded history op)
    (hexecution : op.execution? = some e) : ∃ key, (key, e) ∈ obtained history := by
  obtain ⟨key, hobtained, _⟩ := hgrounded.working hexecution
  exact ⟨key, hobtained⟩

/-- A lookup is missed on the execution that the request has obtained. -/
theorem Grounded.missing {message : String} (hgrounded : Grounded history (.panic message))
    (hmisses : (@Op.panic X message).misses = true) :
    ∃ key e, (key, e) ∈ obtained history ∧ Works e history (.panic message) := by
  cases hgrounded with
  | plain hplain => simp [Op.plain, Op.execution?, hmisses] at hplain
  | works hobtained hworks => exact ⟨_, _, hobtained, hworks⟩

/-- What an inserted execution was made of. -/
theorem Grounded.inserted {execution : FlowExecution}
    (hgrounded : Grounded history (.insertExecution execution)) :
    ∃ before freezing key flow storage now,
      history = before ++ ⟨.liveFlow key.flow, some flow⟩ :: freezing ++ [⟨.now, now⟩] ∧
        Trace (reverseLookupFlow X flow) freezing storage ∧
          execution = .new key flow storage now := by
  cases hgrounded with
  | plain hplain => cases hplain
  | works _ hworks =>
      cases hworks with
      | plain hplain => cases hplain
      | direct hexecution _ => cases hexecution
  | insertExecution _ _ hfrozen => exact ⟨_, _, _, _, _, _, rfl, hfrozen, rfl⟩

/-- A session is created before anything is obtained. -/
theorem Grounded.insertSession_first {sid : String}
    (hgrounded : Grounded history (.insertSession sid)) : obtained history = [] := by
  cases hgrounded with
  | plain hplain => cases hplain
  | works _ hworks =>
      cases hworks with
      | plain hplain => cases hplain
      | direct hexecution _ => cases hexecution
  | insertSession hnone => exact hnone

theorem obtained_snoc {event : Event (sig X)} (hnone : obtained history = [])
    (hevent : obtains event = none) : obtained (history ++ [event]) = [] := by
  rw [obtained_append, hnone]
  simp [obtained, hevent]

/-- Nothing is obtained while the session is extracted. -/
theorem grounding_of_opening {task : Task (sig X) α} (hopening : Opening task)
    (hnone : obtained history = []) :
    @Obeys (sig X) α Grounded (fun past _ => obtained past = []) task history := by
  refine hopening.obeys_while ?_ ?_ hnone
  · intro past op hnone hop
    rw [Bool.not_eq_false] at hop
    cases op with
    | insertSession sid => exact .insertSession hnone
    | connection | prepareCached | querySession | sampleSessionKey | addCookie => exact .plain rfl
    | _ => cases hop
  · intro past op res hnone hop
    rw [Bool.not_eq_false] at hop
    refine obtained_snoc hnone ?_
    cases op with
    | connection | prepareCached | querySession | sampleSessionKey | addCookie | insertSession =>
        rfl
    | _ => cases hop

theorem grounding_of_recording {task : Task (sig X) α} (hrecording : Recording task)
    (history : History X) : Grounding task history := by
  refine hrecording.obeys (fun past op hop => .plain ?_) history
  rw [Bool.not_eq_false] at hop
  cases op with
  | liveFlow | liveStage | livePolicy | livePrompt => rfl
  | panic message => exact hop
  | _ => cases hop

theorem Seeking.snoc {key : FlowKey} {event : Event (sig X)} (hseeking : Seeking history key)
    (hevent : obtains event = none) (hop : ∀ sid, event.op ≠ .insertSession sid) :
    Seeking (history ++ [event]) key where
  unobtained := obtained_snoc hseeking.unobtained hevent
  keyed := by
    intro sid hmem
    rcases List.mem_append.mp hmem with hmem | hmem
    · exact hseeking.keyed sid hmem
    · obtain rfl := List.mem_singleton.mp hmem
      exact absurd rfl (hop sid)

/-- A traversal of the live storage changes nothing of this. -/
theorem Seeking.recording {key : FlowKey} {task rest : Task (sig X) α} {more : History X}
    (hseeking : Seeking history key) (hrecording : Recording task) (hpath : Path task more rest) :
    Seeking (history ++ more) key where
  unobtained := by
    rw [obtained_append, hseeking.unobtained, obtained_recording hrecording hpath, List.nil_append]
  keyed := by
    intro sid hmem
    rcases List.mem_append.mp hmem with hmem | hmem
    · exact hseeking.keyed sid hmem
    · exact absurd rfl (hrecording.path hpath _ hmem)

/-- The extractor of the session leaves a key of that session. -/
theorem seeking_of_opened {key : FlowKey} {slug : DataRef FlowQuery}
    (hsession : Trace (Session.fromRequestParts X extension).run history (.ok session))
    (hkey : getKey session slug = some key) : Seeking history key where
  unobtained := by
    apply List.filterMap_eq_nil_iff.mpr
    intro event hmem
    have hop := opening_fromRequestParts.path hsession event hmem
    obtain ⟨op, res⟩ := event
    cases op with
    | cachedExecution | insertExecution => exact absurd rfl hop
    | _ => rfl
  keyed := by
    intro sid hmem
    unfold getKey at hkey
    split at hkey
    next =>
      cases hkey
      cases extracted_fromRequestParts hsession with
      | presented _ _ => simp at hmem
      | fresh asking hunknown hfresh _ =>
          rcases List.mem_append.mp hmem with hmem | hmem
          · cases hunknown.reads _ hmem
          · rw [hfresh]
            simpa [eq_comm] using hmem
    next => cases hkey

theorem grounding_start {key : FlowKey} (hseeking : Seeking history key) :
    @Obeys (sig X) _ Grounded (fun past result => ∀ e, result = some e → (key, e) ∈ obtained past)
      (start X key) history := by
  apply obeys_perform_bind (.plain rfl)
  intro found
  cases found with
  | none => exact fun e he => by cases he
  | some flow =>
      simp only
      split
      next => exact fun e he => by cases he
      next hentries =>
        refine Obeys.bind (grounding_of_recording recording_reverseLookupFlow _) ?_
        refine fun freezing storage hfrozen => obeys_perform_bind (.plain rfl) fun now => ?_
        refine obeys_perform_bind ?_ fun inserted => ?_
        · have hfreezing := (@Seeking.snoc X history key ⟨.liveFlow key.flow, some flow⟩
            hseeking rfl (by simp)).recording recording_reverseLookupFlow hfrozen
          have hpast : history ++ [⟨.liveFlow key.flow, some flow⟩] ++ freezing =
              history ++ ⟨.liveFlow key.flow, some flow⟩ :: freezing := by simp
          rw [hpast] at hfreezing ⊢
          exact .insertExecution (hfreezing.snoc rfl (by simp)) (by simpa using hentries) hfrozen
        · intro e he
          cases he
          rw [obtained_append]
          exact List.mem_append_right _ List.mem_cons_self

theorem grounding_getExecution {key : FlowKey} (startNew : Bool) (hseeking : Seeking history key) :
    @Obeys (sig X) _ Grounded (fun past result => ∀ e, result = some e → (key, e) ∈ obtained past)
      (getExecution X key startNew) history := by
  apply obeys_perform_bind (.cachedExecution hseeking)
  intro cached
  cases cached with
  | some found =>
      intro e he
      cases he
      rw [obtained_append]
      exact List.mem_append_right _ List.mem_cons_self
  | none =>
      simp only
      split
      next => exact grounding_start (hseeking.snoc rfl (by simp))
      next => exact fun e he => by cases he

theorem grounding_fromRequestParts : Grounding (Session.fromRequestParts X extension).run [] :=
  (grounding_of_opening opening_fromRequestParts rfl).mono (fun _ _ hrule => hrule)
    fun _ _ _ => trivial

theorem grounding_postFlow : Grounding (postFlow X extension request).run [] := by
  apply Obeys.run_bind grounding_fromRequestParts
  intro opening session hsession
  split
  next =>
    split
    next => trivial
    next key hkey =>
      rw [run_lift_bind]
      refine Obeys.bind_post (grounding_getExecution false (seeking_of_opened hsession hkey)) ?_
      intro later found hobtained
      cases found with
      | none => trivial
      | some e => exact grounding_of_working working_postExecution (hobtained e rfl)
  next => trivial

theorem grounding_getFlow : Grounding (getFlow X extension request).run [] := by
  apply Obeys.run_bind grounding_fromRequestParts
  intro opening session hsession
  split
  next => trivial
  next =>
    split
    next => trivial
    next key hkey =>
      rw [run_lift_bind]
      refine Obeys.bind_post (grounding_getExecution true (seeking_of_opened hsession hkey)) ?_
      intro later found hobtained
      cases found with
      | none => trivial
      | some e => exact grounding_of_working working_getExecutionData (hobtained e rfl)

/-- Every operation that a call issues is grounded in its own history. -/
theorem grounding_handle (call : Call X) : Grounding (handle X call) [] := by
  unfold handle
  split
  next => trivial
  next extension _ =>
    cases call with
    | getFlow request => exact grounding_getFlow
    | postFlow request => exact grounding_postFlow
    | userInfo cookie =>
        apply Obeys.run_bind grounding_fromRequestParts
        intro _ session _
        refine Obeys.run_bind ⟨.plain rfl, fun _ => trivial⟩ fun _ _ _ => ?_
        exact Obeys.run_bind (grounding_of_asking asking_getUser _) fun _ _ _ => trivial
    | admin cookie =>
        refine Obeys.run_bind ?_ fun _ _ _ => trivial
        apply Obeys.run_bind grounding_fromRequestParts
        intro _ session _
        split <;> trivial

theorem grounded_of_path {call : Call X} {op : Op X}
    {next : op.Res → Task (sig X) (Except ApiErrorKind Response)}
    (hpath : Path (handle X call) history (@Coop.Task.call (sig X) _ op next)) :
    Grounded history op :=
  (grounding_handle call).allows hpath

/-- A request obtains one execution at most. -/
theorem obtained_of_path {call : Call X} {rest : Task (sig X) (Except ApiErrorKind Response)}
    (hpath : Path (handle X call) history rest) :
    obtained history = [] ∨ ∃ found, obtained history = [found] := by
  induction history using List.reverseRecOn generalizing rest with
  | nil => exact Or.inl rfl
  | append_singleton past event ih =>
      obtain ⟨middle, hpast, hlast⟩ := hpath.split
      cases hevent : obtains event with
      | none =>
          have hsame : obtained (past ++ [event]) = obtained past := by
            rw [obtained_append]
            simp [obtained, hevent]
          rw [hsame]
          exact ih hpast
      | some found =>
          cases hlast with
          | step _ =>
              have hnone : obtained past = [] :=
                ((grounded_of_path hpast).seeking hevent).unobtained
              refine Or.inr ⟨found, ?_⟩
              rw [obtained_append, hnone]
              simp [obtained, hevent]

end Requests

end Authust
