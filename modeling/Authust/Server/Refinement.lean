import Authust.Server.Undisturbed

/-! # The handlers refine the visit

When nothing disturbs it, a request comes to what the visit of its session says: the same verdict,
the same answer, the same execution and the same row, with nothing else changed.
-/

namespace Authust

open Coop Coop.Task Coop.Machine

variable {X : Externals} {who : Nat} {w after last : World X}

/-- Only trees have been compiled, and those that were to be. -/
structure Recompiled (w after : World X) : Prop where
  same : after = w.reconfigure w.policies after.asts
  trees : ∀ uid, liveAst after uid = liveAst w uid

theorem Recompiled.refl (w : World X) : Recompiled w w := ⟨rfl, fun _ => rfl⟩

theorem Recompiled.trans (hfirst : Recompiled w after) (hsecond : Recompiled after last) :
    Recompiled w last where
  same := by
    rw [hsecond.same, hfirst.same]
    rfl
  trees := fun uid => (hsecond.trees uid).trans (hfirst.trees uid)

theorem Recompiled.finds (hcompiled : Recompiled w after) (hfinds : w.FindsByUid) :
    after.FindsByUid := by
  rw [hcompiled.same]
  exact hfinds

section Checks

variable {α β : Type} {context : CheckContext}

/-- A task that compiles trees at most. -/
def Compiles (task : Task (sig X) α) : Prop :=
  ∀ who w value after, World.FindsByUid w →
    (server X).alone who .normal task w = some (value, after) → Recompiled w after

theorem compiles_pure (value : α) : Compiles (pure value : Task (sig X) α) := by
  intro who w result after _ halone
  cases halone
  exact .refl w

theorem Compiles.bind {task : Task (sig X) α} {f : α → Task (sig X) β} (htask : Compiles task)
    (hrest : ∀ value, Compiles (f value)) : Compiles (task >>= f) := by
  intro who w result after hfinds halone
  rw [alone_bind] at halone
  obtain ⟨⟨value, middle⟩, hfirst, hsecond⟩ := Option.bind_eq_some_iff.mp halone
  have hmiddle := htask who w value middle hfinds hfirst
  exact hmiddle.trans (hrest value who middle result after (hmiddle.finds hfinds) hsecond)

theorem compiles_panic {message : String} : Compiles (panic message : Task (sig X) α) := by
  intro who w value after _ halone
  rw [alone_panic] at halone
  cases halone

/-- An operation that answers without changing anything. -/
theorem compiles_op {op : Op X} (hop : ∀ who w answer after,
    exec X who op .normal w = some (answer, after) → after = w) : Compiles (Authust.op op) := by
  intro who w answer after _ halone
  obtain ⟨⟨res, middle⟩, hexec, hdone⟩ := Option.bind_eq_some_iff.mp halone
  cases hdone
  have hsame := hop who w res middle hexec
  subst hsame
  exact .refl _

theorem compiles_getFlow {e : ExecId} : Compiles (op (.getFlow e) : Task (sig X) _) :=
  compiles_op fun who w answer after hexec => by
    obtain ⟨_, _, hsame⟩ := Option.map_eq_some_iff.mp hexec
    exact (congrArg Prod.snd hsame).symm

theorem compiles_readContext {e : ExecId} : Compiles (op (.readContext e) : Task (sig X) _) :=
  compiles_op fun who w answer after hexec => by
    obtain ⟨_, _, hsame⟩ := Option.map_eq_some_iff.mp hexec
    exact (congrArg Prod.snd hsame).symm

theorem compiles_getEntry {e : ExecId} : Compiles (op (.getEntry e) : Task (sig X) _) :=
  compiles_op fun who w answer after hexec => by
    obtain ⟨_, _, hentry⟩ := Option.bind_eq_some_iff.mp hexec
    obtain ⟨_, _, hsame⟩ := Option.map_eq_some_iff.mp hentry
    exact (congrArg Prod.snd hsame).symm

theorem compiles_lookupPolicy {reference : DataRef PolicyQuery} :
    Compiles (lookupPolicy X context.execution reference) := by
  intro who w value after _ halone
  cases hheap : w.heap[context.execution]? with
  | none =>
      rw [lookupPolicy, alone_op_bind rfl, alone_op_bind_none (by simp [exec, hheap])] at halone
      cases halone
  | some execution =>
      rw [@alone_lookupPolicy X w who context execution reference hheap] at halone
      obtain ⟨_, _, hsame⟩ := Option.map_eq_some_iff.mp halone
      obtain rfl := congrArg Prod.snd hsame
      exact .refl _

theorem compiles_getAst {uid : Int} : Compiles (getAst X (.uid uid)) := by
  intro who w value after hfinds halone
  rw [alone_getAst] at halone
  cases halone
  exact ⟨rfl, (steady_filled hfinds uid).asts⟩

theorem compiles_checkPolicy {policy : Policy} : Compiles (checkPolicy X context policy) := by
  unfold checkPolicy
  split
  next =>
    apply compiles_readContext.bind
    intro inner
    split
    next => exact compiles_pure _
    next => exact compiles_pure _
  next => exact compiles_pure _
  next =>
    apply compiles_getAst.bind
    intro tree
    split
    next =>
      split
      next => exact compiles_pure _
      next => exact compiles_pure _
    next => exact compiles_pure _

theorem compiles_flowCheck {check : FlowCheck} : Compiles (check.check X context) := by
  cases check with
  | authentication | isUser => exact compiles_pure _
  | policy reference => exact compiles_lookupPolicy.bind fun policy => compiles_checkPolicy

theorem compiles_checkBinding {binding : FlowBinding} :
    Compiles (checkBinding X binding context) := by
  unfold checkBinding
  split
  next =>
    apply Compiles.bind
    · cases binding.kind with
      | group uid => exact compiles_panic
      | user | policy => exact compiles_pure _
    · intro check
      apply compiles_flowCheck.bind
      intro result
      by_cases hpass : (if binding.negate then result.negate else result).deref = true
      · simp only [hpass, ↓reduceIte]
        exact compiles_pure _
      · simp only [hpass]
        exact compiles_pure _
  next => exact compiles_pure _

theorem compiles_checkBindings {bindings : List FlowBinding} :
    Compiles (checkBindings X context bindings) := by
  induction bindings with
  | nil => exact compiles_pure _
  | cons binding rest ih =>
      apply compiles_checkBinding.bind
      intro verdict
      cases verdict with
      | none => exact ih
      | some message => exact compiles_pure _

theorem compiles_check {e : ExecId} : Compiles (check X e context) := by
  apply compiles_getFlow.bind
  intro flow
  apply compiles_flowCheck.bind
  intro output
  split
  next =>
    apply compiles_checkBindings.bind
    intro verdict
    split
    next => exact compiles_pure _
    next => exact compiles_getEntry.bind fun entry => compiles_checkBindings
  next => exact compiles_pure _

end Checks

/-- The visitor of a setting stands there, and nobody keeps a guard. -/
structure Paid (setting : Setting X) (visit : Visit) (w : World X) : Prop where
  heap : w.heap[setting.e]? = some (visit.place setting.execution)
  formed : (visit.place setting.execution).WellFormed
  users : w.users = setting.world.users
  finds : w.FindsByUid
  trees : ∀ uid, liveAst w uid = liveAst setting.world uid
  readers : w.readers = []

/-- The visitor who has been shown the way out is gone. -/
def World.dismiss (w : World X) (key : FlowKey) (departs : Bool) : World X :=
  if departs then { w with executions := Function.update w.executions key none } else w

@[simp] theorem World.dismiss_heap (w : World X) (key : FlowKey) (departs : Bool) :
    (w.dismiss key departs).heap = w.heap := by
  unfold dismiss
  split <;> rfl

@[simp] theorem World.dismiss_liveAst (w : World X) (key : FlowKey) (departs : Bool) (uid : Int) :
    liveAst (w.dismiss key departs) uid = liveAst w uid := by
  unfold dismiss
  split <;> rfl

section Shown

variable {setting : Setting X} {visit : Visit} {context : CheckContext}

theorem Paid.recompiled (hpaid : Paid setting visit w) (hcompiled : Recompiled w after) :
    Paid setting visit after where
  heap := by
    rw [hcompiled.same]
    exact hpaid.heap
  formed := hpaid.formed
  users := by
    rw [hcompiled.same]
    exact hpaid.users
  finds := hcompiled.finds hpaid.finds
  trees := fun uid => (hcompiled.trees uid).trans (hpaid.trees uid)
  readers := by
    rw [hcompiled.same]
    exact hpaid.readers

/-- A binding is decided by the snapshot, the request and the live trees. -/
theorem bindingAnswer_congr {inner other : ExecutionContext} {w w' : World X}
    (hstorage : inner.storage = other.storage) (hstart : inner.startTime = other.startTime)
    (htrees : ∀ uid, liveAst w uid = liveAst w' uid) (binding : FlowBinding) :
    bindingAnswer inner context w binding = bindingAnswer other context w' binding := by
  have hkind : ∀ kind, kindOutput inner context w kind = kindOutput other context w' kind := by
    intro kind
    cases kind with
    | group | user => rfl
    | policy reference =>
        have hpolicy : policyOutput inner context w = policyOutput other context w' := by
          funext policy
          unfold policyOutput
          rw [hstart, htrees]
        rw [kindOutput, kindOutput, hstorage, hpolicy]
  rw [bindingAnswer, bindingAnswer, hkind]

/-- A check comes to the verdict on the visitor. -/
theorem alone_check (hpaid : Paid setting visit w) (hcontext : context.execution = setting.e) :
    ∃ after, Recompiled w after ∧ (server X).alone who .normal (check X setting.e context) w =
      (setting.judge context visit).map fun verdict => (verdict, after) := by
  have hheap := hpaid.heap
  rw [← hcontext] at hheap
  have hanswer := @checkResult_first X w who context _ hpaid.finds hheap hpaid.formed.index
  have hjudge : setting.judge context visit = checkResult who context w := by
    rw [hanswer, Setting.judge]
    congr 2
    apply List.map_congr_left
    intro binding _
    exact bindingAnswer_congr rfl rfl (fun uid => (hpaid.trees uid).symm) binding
  rw [hjudge, checkResult, hcontext]
  cases halone : (server X).alone who .normal (check X setting.e context) w with
  | none => exact ⟨w, .refl w, rfl⟩
  | some answer => exact ⟨answer.2, compiles_check who w _ _ hpaid.finds halone, rfl⟩

theorem alone_asComponent {stage : Stage}
    (hheap : w.heap[setting.e]? = some (visit.place setting.execution)) :
    (server X).alone who .normal (asComponent X stage setting.e) w =
      (setting.component stage.kind).map fun component =>
        (if stage.kind.requiresInput then some component else none, w) := by
  unfold asComponent
  cases stage.kind with
  | deny | password | userLogin | userLogout | userWrite => rfl
  | prompt | consent => exact alone_panic
  | identification password fields =>
      cases password with
      | none => rfl
      | some reference =>
          have hstage := @alone_lookupStage X who w _ _ reference hheap
          change _ = Option.map _
            (setting.execution.context.storage.stage.findOptional reference).join at hstage
          simp only [Setting.component]
          cases hfound : (setting.execution.context.storage.stage.findOptional reference).join with
          | none =>
              rw [hfound] at hstage
              exact alone_bind_none hstage
          | some stage =>
              rw [hfound] at hstage
              exact alone_bind_some hstage

/-- What a visitor is shown who is neither denied nor done. -/
theorem alone_currentComponent {stage : Stage}
    (hheap : w.heap[setting.e]? = some (visit.place setting.execution)) :
    (server X).alone who .normal (currentComponent X setting.e stage) w =
      (setting.current visit stage.kind).map fun component => (component, w) := by
  have hread : ∀ readers, exec X who (.readContext setting.e) .normal
      { w with readers := readers } =
        some ((visit.place setting.execution).context, { w with readers := readers }) := by
    intro readers
    simp [exec, hheap]
  have herror : (visit.place setting.execution).context.error = visit.error := rfl
  have hunlock : exec X who (.unlockContext setting.e) .normal
      { w with readers := (who, setting.e) :: w.readers } = some ((), w) := by
    simp [exec]
  unfold currentComponent Setting.current
  rw [alone_op_bind rfl, alone_op_bind (hread _), herror]
  cases visit.error with
  | some error => exact alone_op_bind hunlock
  | none =>
      have hcomponent := @alone_asComponent X who
        { w with readers := (who, setting.e) :: w.readers } setting visit stage hheap
      simp only
      cases hsome : setting.component stage.kind with
      | none =>
          rw [hsome] at hcomponent
          exact alone_bind_none hcomponent
      | some component =>
          rw [hsome] at hcomponent
          rw [alone_bind_some hcomponent, alone_op_bind hunlock]
          cases hkind : stage.kind with
          | userLogin | userLogout | userWrite =>
              rw [hkind] at hsome
              cases hsome
              rfl
          | deny | prompt | identification | password | consent => rfl

/-- What a visitor is shown who is done. -/
theorem alone_completedComponent
    (hheap : w.heap[setting.e]? = some (visit.place setting.execution)) :
    (server X).alone who .normal (completedComponent X setting.e context) w =
      some (context.request.next.elim (FlowComponent.error "Missing Redirect")
        FlowComponent.redirect,
          w.dismiss setting.execution.key context.request.next.isSome) := by
  unfold completedComponent
  cases context.request.next with
  | none => rfl
  | some target =>
      have hkey : exec X who (.getKey setting.e) .normal w = some (setting.execution.key, w) := by
        simp [exec, hheap, Visit.place]
      simp only
      rw [alone_op_bind hkey, alone_op_bind rfl]
      rfl

/-- The stage of the entry that the visitor is at is the one of the plan. -/
theorem alone_currentStage {α : Type} {f : Nat × FlowEntry → Stage → Task (sig X) α}
    (hheap : w.heap[setting.e]? = some (visit.place setting.execution))
    (hindex : visit.currentEntryIdx < setting.execution.flow.entries.length) :
    (server X).alone who .normal (do
      let entry ← op (.getEntry setting.e)
      let stage ← lookupStage X setting.e entry.2.stage
      f entry stage) w =
        (setting.plan.stageAt visit.currentEntryIdx).bind fun stage =>
          (server X).alone who .normal (f (visit.currentEntryIdx,
            setting.execution.flow.entries[visit.currentEntryIdx]) stage) w := by
  have hentry : exec X who (.getEntry setting.e) .normal w =
      some ((visit.currentEntryIdx, setting.execution.flow.entries[visit.currentEntryIdx]), w) := by
    simp [exec, hheap, FlowExecution.getEntry, Visit.place, hindex]
  have hstage := @alone_lookupStage X who w _ _
    setting.execution.flow.entries[visit.currentEntryIdx].stage hheap
  have hplan : setting.plan.stageAt visit.currentEntryIdx =
      ((visit.place setting.execution).context.storage.stage.findOptional
        setting.execution.flow.entries[visit.currentEntryIdx].stage).join := by
    have hat : setting.plan.flow.entries[visit.currentEntryIdx]? =
        some setting.execution.flow.entries[visit.currentEntryIdx] :=
      List.getElem?_eq_getElem hindex
    rw [Plan.stageAt, hat]
    rfl
  rw [← hplan] at hstage
  rw [alone_op_bind hentry]
  cases hfound : setting.plan.stageAt visit.currentEntryIdx with
  | none =>
      rw [hfound] at hstage
      exact alone_bind_none hstage
  | some stage =>
      rw [hfound] at hstage
      exact alone_bind_some hstage

/-- What is made of a component and of the context behind it. -/
theorem alone_answer {α : Type} {task : Task (sig X) FlowComponent} {shown : Option FlowComponent}
    {answer : FlowComponent → ExecutionContext → α}
    (hheap : after.heap[setting.e]? = some (visit.place setting.execution))
    (htask : (server X).alone who .normal task w = shown.map fun component => (component, after)) :
    (server X).alone who .normal (do
      let component ← task
      let inner ← op (.readContext setting.e)
      pure (answer component inner)) w =
        shown.map fun component =>
          (answer component (visit.place setting.execution).context, after) := by
  have hread : exec X who (.readContext setting.e) .normal after =
      some ((visit.place setting.execution).context, after) := by
    simp [exec, hheap]
  cases shown with
  | none => exact alone_bind_none htask
  | some component =>
      rw [alone_bind_some htask, alone_op_bind hread]
      rfl

/-- `data` shows the visitor what the setting presents. -/
theorem alone_data {error : Option SubmissionError} (hpaid : Paid setting visit w)
    (hcontext : context.execution = setting.e) :
    ∃ after, Recompiled w after ∧
      (server X).alone who .normal (data X setting.e error context) w =
        ((setting.judge context visit).bind fun verdict =>
          setting.present context.request.next verdict error visit).map fun shown =>
            (shown, after.dismiss setting.execution.key
              (visit.isCompleted && context.request.next.isSome)) := by
  obtain ⟨after, hcompiled, hcheck⟩ := @alone_check X who w setting visit context hpaid hcontext
  have hafter := hpaid.recompiled hcompiled
  have hflow : exec X who (.getFlow setting.e) .normal w = some (setting.execution.flow, w) := by
    simp [exec, hpaid.heap, Visit.place]
  have hasked : exec X who (.isCompleted setting.e) .normal w = some (visit.isCompleted, w) := by
    simp [exec, hpaid.heap, Visit.place]
  refine ⟨after, hcompiled, ?_⟩
  unfold data Setting.present
  rw [alone_op_bind hflow, alone_currentStage hpaid.heap hpaid.formed.index]
  cases hfound : setting.plan.stageAt visit.currentEntryIdx with
  | none => simp
  | some stage =>
      rw [Option.bind_some, alone_op_bind hasked]
      cases hjudge : setting.judge context visit with
      | none =>
          rw [hjudge] at hcheck
          exact alone_bind_none hcheck
      | some verdict =>
          rw [hjudge] at hcheck
          rw [alone_bind_some hcheck, Option.bind_some, Option.bind_some]
          by_cases hcompleted : visit.isCompleted = true
          · have hcomponent :
                (server X).alone who .normal (completedComponent X setting.e context) after =
                  (some (context.request.next.elim (FlowComponent.error "Missing Redirect")
                    FlowComponent.redirect)).map fun component => (component,
                      after.dismiss setting.execution.key context.request.next.isSome) :=
              alone_completedComponent hafter.heap
            have hheap : (after.dismiss setting.execution.key
                context.request.next.isSome).heap[setting.e]? = _ :=
              (congrArg (fun heap => heap[setting.e]?) (World.dismiss_heap ..)).trans hafter.heap
            simp only [hcompleted, Bool.not_true, Bool.and_false, Bool.false_eq_true, ↓reduceIte]
            exact alone_answer hheap hcomponent
          · rw [Bool.not_eq_true] at hcompleted
            simp only [hcompleted, Bool.not_false, Bool.and_true, Bool.false_eq_true, ↓reduceIte]
            cases verdict with
            | some message => rfl
            | none =>
                have hcomponent :=
                  @alone_currentComponent X who after setting visit stage hafter.heap
                simp only [Option.isSome_none, Bool.false_eq_true, ↓reduceIte]
                rw [alone_answer hafter.heap hcomponent, Option.map_map]
                rfl

end Shown

section Requests

variable {setting : Setting X} {visit later : Visit} {request : Request X} {host : String}
  {claims : Claims} {outcome : Outcome}

/-- A request of the session to the flow of the setting, with nobody else about. -/
structure Calls (setting : Setting X) (visit : Visit) (request : Request X) (host : String)
    (claims : Claims) (who : Nat) (w : World X) : Prop where
  paid : Paid setting visit w
  cookie : ∃ token, request.cookie = some token ∧ X.decodeToken token = .ok claims
  session : claims.sid = setting.execution.key.session
  row : w.sessions setting.execution.key.session = some visit.user
  slug : setting.execution.key.flow = .slug request.flowSlug
  host : request.host = some host
  cached : w.executions setting.execution.key = some setting.e
  desk : w.desk who = ⟨[], none⟩

/-- What a request leaves: the visitor at the new place, the row that names the new user, and a
cookie that says so. -/
structure Afterwards (setting : Setting X) (request : Request X) (claims : Claims) (who : Nat)
    (visit : Visit) (outcome : Outcome) (later : Visit) (w after : World X) : Prop where
  trees : ∀ uid, liveAst after uid = liveAst w uid
  released : after.release who =
    { w with
      heap := w.heap.set setting.e (later.place setting.execution)
      sessions := Function.update w.sessions setting.execution.key.session (some later.user)
      executions := (w.dismiss setting.execution.key (outcome.departs request visit)).executions
      asts := after.asts }
  signed : ∀ user, outcome = .moved (some user) → ∃ token, after.cookies who = some token ∧
    X.decodeToken token = .ok (loginClaims claims user)

/-- What is left of a handler comes to what the visit says, from the state it has reached. -/
inductive Simulates (request : Request X) (claims : Claims) (who : Nat) (setting : Setting X)
    (visit : Visit) (w reached : World X) (task : Task (sig X) (Except ApiErrorKind Response)) :
    Option (Outcome × Visit) → Prop
  | panicked (hpanics : (server X).alone who .normal task reached = none) :
      Simulates request claims who setting visit w reached task none
  | answered {outcome : Outcome} {later : Visit} {after : World X}
      (halone : (server X).alone who .normal task reached = some (outcome.reply request, after))
      (hleaves : Afterwards setting request claims who visit outcome later w after) :
      Simulates request claims who setting visit w reached task (some (outcome, later))

theorem Simulates.of_alone {reached reached' : World X}
    {task task' : Task (sig X) (Except ApiErrorKind Response)} {answer : Option (Outcome × Visit)}
    (hsimulates : Simulates request claims who setting visit w reached' task' answer)
    (halone : (server X).alone who .normal task reached =
      (server X).alone who .normal task' reached') :
    Simulates request claims who setting visit w reached task answer := by
  cases hsimulates with
  | panicked hpanics => exact .panicked (halone.trans hpanics)
  | answered hanswered hleaves => exact .answered (halone.trans hanswered) hleaves

/-- The user of a session is looked up. -/
theorem alone_getUser {session : Session} (husers : w.users = setting.world.users) :
    (server X).alone who .normal (session.getUser X).run w =
      some (setting.findUser session.userId, w) := by
  unfold Session.getUser Setting.findUser
  cases session.userId with
  | none => rfl
  | some uid =>
      simp only [lookupUserUid]
      rw [alone_lookupUserBy, World.queryUser, World.queryUser, husers]

theorem alone_fromRequestParts {user : Option Uuid} (hrow : w.sessions claims.sid = some user) :
    (server X).alone who .normal (Session.fromRequestParts X (.valid claims)).run w =
      some (.ok ⟨claims.sid, user, claims.isAdmin⟩, w) := by
  have hquery : exec X who (.querySession claims.sid) .normal w = some (.ok (some user), w) := by
    simp [exec, Choice.db, hrow]
  unfold Session.fromRequestParts
  rw [alone_await (alone_op rfl)]
  simp only [getAuthExtensionData]
  rw [alone_await (alone_op rfl), alone_await (alone_op hquery)]
  rfl

theorem alone_checkContext {session : Session} (hpaid : Paid setting visit w) :
    (server X).alone who .normal (checkContext X request host session setting.e).run w =
      some ((setting.findUser session.userId).map fun user =>
        setting.asking request host user visit, w) := by
  have hread : exec X who (.readContext setting.e) .normal w =
      some ((visit.place setting.execution).context, w) := by
    simp [exec, hpaid.heap]
  have huser := @alone_getUser X who w setting session hpaid.users
  unfold checkContext
  cases hfound : setting.findUser session.userId with
  | error kind =>
      rw [hfound] at huser
      exact alone_run_error huser
  | ok user =>
      rw [hfound] at huser
      rw [alone_run_ok huser, run_lift, getCheckContext, bind_assoc, alone_op_bind hread]
      rfl

theorem alone_openPost {session : Session} (hpaid : Paid setting visit w) :
    (server X).alone who .normal (openPost X request host session setting.e).run w =
      some ((setting.findUser session.userId).map fun user =>
        setting.asking request host user visit, w) := by
  unfold openPost
  rw [alone_await (alone_op rfl), alone_await (alone_op rfl)]
  exact alone_checkContext hpaid

/-- The session that a request of the setting is extracted with. -/
abbrev Visit.session (visit : Visit) (claims : Claims) : Session :=
  ⟨claims.sid, visit.user, claims.isAdmin⟩

section Found

variable (hcalls : Calls setting visit request host claims who w)

include hcalls

theorem Calls.handleAuth : handleAuth X request.cookie = .ok (.valid claims) := by
  obtain ⟨token, htoken, hdecoded⟩ := hcalls.cookie
  rw [htoken, Authust.handleAuth, hdecoded]
  rfl

theorem Calls.extracted : (server X).alone who .normal
    (Session.fromRequestParts X (.valid claims)).run w =
      some (.ok (visit.session claims), w) :=
  alone_fromRequestParts (hcalls.session ▸ hcalls.row)

theorem Calls.key : getKey (visit.session claims) (.slug request.flowSlug) =
    some setting.execution.key := by
  have hsession : (visit.session claims).sessionId = setting.execution.key.session := hcalls.session
  rw [getKey, ← hcalls.slug, hsession]

theorem Calls.found (startNew : Bool) : (server X).alone who .normal
    (getExecution X setting.execution.key startNew) w = some (some setting.e, w) := by
  have hexec : exec X who (.cachedExecution setting.execution.key) .normal w =
      some (some setting.e, w) := by
    simp [exec, hcalls.cached]
  unfold getExecution
  rw [alone_op_bind hexec]
  rfl

theorem Calls.alone_getFlow : (server X).alone who .normal (handle X (.getFlow request)) w =
    (server X).alone who .normal
      (getExecutionData X request host (visit.session claims) setting.e).run w := by
  unfold handle
  simp only [Call.cookie, hcalls.handleAuth, Call.route, Authust.getFlow]
  rw [alone_run_ok hcalls.extracted]
  simp only [hcalls.host, hcalls.key]
  rw [alone_lift_some (hcalls.found true)]

theorem Calls.alone_postFlow {form : Value} (hform : request.form = some form) :
    (server X).alone who .normal (handle X (.postFlow request)) w =
      (server X).alone who .normal
        (postExecution X request host form (visit.session claims) setting.e).run w := by
  unfold handle
  simp only [Call.cookie, hcalls.handleAuth, Call.route, Authust.postFlow]
  rw [alone_run_ok hcalls.extracted]
  simp only [hcalls.host, hform, hcalls.key]
  rw [alone_lift_some (hcalls.found false)]

end Found

/-- Who has left nothing behind is released without a trace. -/
theorem World.release_idle (hreaders : w.readers = []) (hdesk : w.desk who = ⟨[], none⟩) :
    w.release who = w := by
  have hupdates : w.transactions who = [] := congrArg Desk.updates hdesk
  have hcookie : w.cookies who = none := congrArg Desk.cookie hdesk
  have htransactions : Function.update w.transactions who [] = w.transactions := by
    rw [← hupdates, Function.update_eq_self]
  have hcookies : Function.update w.cookies who none = w.cookies := by
    rw [← hcookie, Function.update_eq_self]
  rw [release, htransactions, hcookies, hreaders, List.filter_nil, ← hreaders]

/-- What a request may have changed before it is released. -/
theorem afterwards_of (hcalls : Calls setting visit request host claims who w) (desk : Desk X)
    (htrees : ∀ uid, liveAst after uid = liveAst w uid)
    (hafter : after =
      { w with
        heap := w.heap.set setting.e (later.place setting.execution)
        sessions := Function.update w.sessions setting.execution.key.session (some later.user)
        executions := (w.dismiss setting.execution.key (outcome.departs request visit)).executions
        asts := after.asts }.withDesk who desk)
    (hsigned : ∀ user, outcome = .moved (some user) → ∃ token, desk.cookie = some token ∧
      X.decodeToken token = .ok (loginClaims claims user)) :
    Afterwards setting request claims who visit outcome later w after where
  trees := htrees
  released := by
    generalize after.asts = asts at hafter
    subst hafter
    rw [World.release_withDesk]
    exact World.release_idle hcalls.paid.readers hcalls.desk
  signed := by
    intro user houtcome
    obtain ⟨token, htoken, hdecoded⟩ := hsigned user houtcome
    refine ⟨token, ?_, hdecoded⟩
    rw [hafter]
    simpa [World.withDesk] using htoken

/-- A visitor who has not been signed in leaves as the form has left him. -/
theorem afterwards_placed (hcalls : Calls setting visit request host claims who w)
    (huser : later.user = visit.user) (hlogin : ∀ user, outcome ≠ .moved (some user))
    (hcompiled : Recompiled (w.place setting.e (later.place setting.execution)) after)
    (desk : Desk X) :
    Afterwards setting request claims who visit outcome later w
      ((after.dismiss setting.execution.key
        (outcome.departs request visit)).withDesk who desk) := by
  have hsessions : Function.update w.sessions setting.execution.key.session (some later.user) =
      w.sessions := by
    rw [huser, ← hcalls.row, Function.update_eq_self]
  apply afterwards_of hcalls desk
  · intro uid
    exact (World.dismiss_liveAst _ _ _ _).trans (hcompiled.trees uid)
  · rw [hsessions]
    generalize hasts : after.asts = asts
    have hsame := hcompiled.same
    rw [hasts] at hsame
    subst hsame
    congr 1
    unfold World.dismiss
    split <;> rfl
  · intro user houtcome
    exact absurd houtcome (hlogin user)

/-- A visitor whose form was refused leaves where he stood. -/
theorem afterwards_refused (hcalls : Calls setting visit request host claims who w)
    (hlogin : ∀ user, outcome ≠ .moved (some user)) (pending : Option PendingUser)
    (hcompiled : Recompiled
      (w.place setting.e ({ visit with pending := pending }.place setting.execution)) after) :
    Afterwards setting request claims who visit outcome { visit with pending := pending } w
      (after.dismiss setting.execution.key (outcome.departs request visit)) := by
  have hleaves := @afterwards_placed X who w after setting visit { visit with pending := pending }
    request host claims outcome hcalls rfl hlogin hcompiled
    ((after.dismiss setting.execution.key (outcome.departs request visit)).desk who)
  rw [World.withDesk_self] at hleaves
  exact hleaves

/-- A visitor who has handed no form in leaves as he came. -/
theorem afterwards_unmoved (hcalls : Calls setting visit request host claims who w)
    (hlogin : ∀ user, outcome ≠ .moved (some user)) (hcompiled : Recompiled w after) :
    Afterwards setting request claims who visit outcome visit w
      (after.dismiss setting.execution.key (outcome.departs request visit)) := by
  have hplaced : Recompiled (w.place setting.e (visit.place setting.execution)) after := by
    rw [World.place_self hcalls.paid.heap]
    exact hcompiled
  exact afterwards_refused hcalls hlogin visit.pending hplaced

/-- A GET comes to what a visitor is shown who looks. -/
theorem getFlow_simulates (hcalls : Calls setting visit request host claims who w) :
    Simulates request claims who setting visit w w (handle X (.getFlow request))
      (setting.fetch request host visit) := by
  have hroute := hcalls.alone_getFlow
  have hasking := @alone_checkContext X who w setting visit request host (visit.session claims)
    hcalls.paid
  unfold getExecutionData at hroute
  rw [alone_await (alone_op rfl)] at hroute
  unfold Setting.fetch
  cases huser : setting.findUser visit.user with
  | error kind =>
      rw [huser] at hasking
      rw [alone_run_error hasking] at hroute
      exact .answered hroute (afterwards_unmoved hcalls (by simp) (.refl w))
  | ok user =>
      rw [huser] at hasking
      obtain ⟨after, hcompiled, hdata⟩ := @alone_data X who w setting visit
        (setting.asking request host user visit) none hcalls.paid rfl
      rw [alone_run_ok hasking] at hroute
      simp only
      cases hshown : (setting.judge (setting.asking request host user visit) visit).bind
          fun verdict => setting.present request.next verdict none visit with
      | none =>
          have hdata := hdata.trans (congrArg (Option.map _) hshown)
          rw [alone_lift_none hdata] at hroute
          exact .panicked hroute
      | some shown =>
          have hdata := hdata.trans (congrArg (Option.map _) hshown)
          rw [alone_lift_some hdata] at hroute
          exact .answered hroute (afterwards_unmoved hcalls (by simp) hcompiled)

/-- What a submission goes on with when it has been accepted. -/
def accepted (X : Externals) (request : Request X) (session : Session) (e : ExecId) :
    Handler X Response := do
  access (.completeCurrent e)
  complete X request session e
  await (op .commit)
  pure (.redirect request.uri)

/-- The logins of a user name him in the row of the session. -/
theorem applyUpdates_logins {sessions : SessionTable} {sid : String} {row : Option Uuid}
    (hrow : sessions sid = some row) (uid : Uuid) (count : Nat) :
    SessionTable.applyUpdates sessions (List.replicate (count + 1) (uid, sid)) =
      Function.update sessions sid (some (some uid)) := by
  funext other
  by_cases hother : other = sid
  · subst hother
    rw [Function.update_self, List.replicate_succ']
    exact SessionTable.applyUpdates_last (by rw [hrow]; rfl)
  · rw [Function.update_of_ne hother]
    apply SessionTable.applyUpdates_other
    intro update hupdate
    rw [List.eq_of_mem_replicate hupdate]
    exact Ne.symm hother

/-- The statements on the desk take effect together. -/
theorem exec_commits (w : World X) (desk : Desk X) :
    exec X who .commit .normal (w.withDesk who desk) = some (.ok (),
      { w with sessions := SessionTable.applyUpdates w.sessions desk.updates }.withDesk who
        ⟨[], desk.cookie⟩) := by
  simp [exec, World.withDesk]

theorem accepted_simulates (htokens : TokensRoundTrip X) (hencodes : EncodesTokens X)
    (hcalls : Calls setting visit request host claims who w) (huser : later.user = visit.user) :
    Simulates request claims who setting visit w
      (w.place setting.e (later.place setting.execution))
      (accepted X request (visit.session claims) setting.e).run (setting.proceed later) := by
  have hplaced := World.place_heap hcalls.paid.heap (later.place setting.execution)
  have hcompleted := @exec_completes X who _ _ _ hplaced
  rw [World.place_place, Visit.place_completeCurrent] at hcompleted
  have hadvanced := World.place_heap hcalls.paid.heap
    ((later.advance setting.entries).place setting.execution)
  have hcookie : ShowsCookie who request claims (w.place setting.e
      ((later.advance setting.entries).place setting.execution)) := by
    obtain ⟨token, htoken, hdecoded⟩ := hcalls.cookie
    have hempty : w.cookies who = none := congrArg Desk.cookie hcalls.desk
    exact ⟨token, by simp [World.place, hempty, htoken], hdecoded⟩
  obtain ⟨desk, hdesk, hloop⟩ := @alone_completeLoop X who _ request (visit.session claims) setting
    _ claims 41 htokens hencodes hadvanced hcalls.paid.readers hcookie
  unfold accepted Setting.proceed
  refine Simulates.of_alone ?_ (alone_access hcompleted)
  cases hbehind : setting.passLogins 41 (later.advance setting.entries) with
  | none =>
      rw [hbehind] at hloop
      exact .panicked (alone_run_none hloop)
  | some behind =>
      obtain ⟨result, last⟩ := behind
      obtain ⟨hpending, hlast⟩ := Setting.passLogins_keeps hbehind
      have hkept : last.user = visit.user := by
        rw [hlast, Visit.advance_user, huser]
      have hleaves := hdesk _ hbehind
      rw [hbehind, Option.map_some, World.place_place] at hloop
      rcases result with kind | _ | _
      · apply Simulates.answered (alone_run_error hloop)
        exact afterwards_placed hcalls hkept (by simp) (.refl _) desk
      · have hnothing : desk = ⟨[], none⟩ := (hleaves.kept rfl).trans hcalls.desk
        subst hnothing
        apply Simulates.answered
          ((alone_run_ok hloop).trans (alone_run_ok (alone_op (exec_commits _ _))))
        exact afterwards_placed hcalls hkept (by simp) (.refl _) ⟨[], none⟩
      · obtain ⟨user, hsignedIn, count, token, hsigned, hdecoded⟩ := hleaves.signs rfl
        have hupdates : desk.updates =
            List.replicate (count + 1) (user.uid, setting.execution.key.session) := by
          have hempty : w.transactions who = [] := congrArg Desk.updates hcalls.desk
          rw [hsigned, ← hcalls.session]
          exact (congrArg (· ++ _) hempty).trans (List.nil_append _)
        have hrow : (w.place setting.e (last.place setting.execution)).sessions
            setting.execution.key.session = some visit.user := hcalls.row
        have hcommits := @exec_commits X who (w.place setting.e (last.place setting.execution)) desk
        rw [hupdates, applyUpdates_logins hrow] at hcommits
        apply Simulates.answered ((alone_run_ok hloop).trans (alone_run_ok (alone_op hcommits)))
        apply afterwards_of hcalls ⟨[], desk.cookie⟩
        · intro uid
          rfl
        · rw [hsignedIn]
          rfl
        · intro other hother
          rw [hsignedIn] at hother
          cases hother
          exact ⟨token, congrArg Desk.cookie hsigned, hdecoded⟩

/-- The visitor of a setting with another pending user. -/
theorem Paid.placed (hpaid : Paid setting visit w) (pending : Option PendingUser) :
    Paid setting { visit with pending := pending }
      (w.place setting.e ({ visit with pending := pending }.place setting.execution)) where
  heap := World.place_heap hpaid.heap _
  formed := ⟨hpaid.formed.index, hpaid.formed.completed⟩
  users := hpaid.users
  finds := hpaid.finds
  trees := hpaid.trees
  readers := hpaid.readers

/-- A form of an admitted visitor. -/
theorem submit_simulates (htokens : TokensRoundTrip X) (hencodes : EncodesTokens X)
    (hcalls : Calls setting visit request host claims who w) {form : Value}
    {user : Option PartialUser}
    (hjudge : setting.judge (setting.asking request host user visit) visit = some none) :
    Simulates request claims who setting visit w w
      (submit X request form (visit.session claims) setting.e
        (setting.asking request host user visit)).run
      (setting.handIn request.next form visit) := by
  have hsubmission := @alone_handleSubmission X who w form setting visit hcalls.paid.heap
    hcalls.paid.users hcalls.paid.readers
  unfold submit Setting.handIn
  cases hsubmit : setting.submit form visit with
  | none =>
      rw [hsubmit] at hsubmission
      exact .panicked (alone_lift_none hsubmission)
  | some answer =>
      obtain ⟨result, later⟩ := answer
      have hkeeps := Setting.submit_keeps hsubmit
      rw [hsubmit, Option.map_some] at hsubmission
      refine Simulates.of_alone ?_ (alone_lift_some hsubmission)
      simp only at hkeeps
      cases result with
      | ok value =>
          have huser : later.user = visit.user := by rw [hkeeps]
          exact accepted_simulates htokens hencodes hcalls huser
      | error kind =>
          generalize later.pending = pending at hkeeps
          subst hkeeps
          have hplaced := hcalls.paid.placed pending
          cases kind with
          | submissionError error =>
              obtain ⟨after, hcompiled, hdata⟩ := @alone_data X who _ setting _
                (setting.asking request host user visit) (some error) hplaced rfl
              rw [Setting.judge_pending, hjudge, Option.bind_some] at hdata
              simp only [Option.bind_some]
              cases hshown : setting.present request.next none (some error)
                  { visit with pending := pending } with
              | none =>
                  have hdata := hdata.trans (congrArg (Option.map _) hshown)
                  exact .panicked (alone_lift_none hdata)
              | some shown =>
                  have hdata := hdata.trans (congrArg (Option.map _) hshown)
                  exact .answered (alone_lift_some hdata)
                    (afterwards_refused hcalls (by simp) pending hcompiled)
          | axum | invalidLoginData | sessionCookieMissing | invalidSessionCookie | notFound
            | miscInternal | forbidden | conflict | missingMiddleware | pwHash | poolError
            | postgresError | jsonWebToken =>
              exact .answered rfl (afterwards_refused hcalls (by simp) pending (.refl _))

theorem Calls.recompiled (hcalls : Calls setting visit request host claims who w)
    (hcompiled : Recompiled w after) : Calls setting visit request host claims who after where
  paid := hcalls.paid.recompiled hcompiled
  cookie := hcalls.cookie
  session := hcalls.session
  row := by
    rw [hcompiled.same]
    exact hcalls.row
  slug := hcalls.slug
  host := hcalls.host
  cached := by
    rw [hcompiled.same]
    exact hcalls.cached
  desk := by
    rw [hcompiled.same]
    exact hcalls.desk

theorem Afterwards.recompiled {middle : World X} (hcompiled : Recompiled w middle)
    (hleaves : Afterwards setting request claims who visit outcome later middle after) :
    Afterwards setting request claims who visit outcome later w after where
  trees := fun uid => (hleaves.trees uid).trans (hcompiled.trees uid)
  released := by
    have hexecutions : ∀ departs, (middle.dismiss setting.execution.key departs).executions =
        (w.dismiss setting.execution.key departs).executions := by
      intro departs
      rw [hcompiled.same]
      unfold World.dismiss
      split <;> rfl
    rw [hleaves.released, hexecutions, hcompiled.same]
    rfl
  signed := hleaves.signed

theorem Simulates.recompiled {middle reached : World X}
    {task : Task (sig X) (Except ApiErrorKind Response)} {answer : Option (Outcome × Visit)}
    (hsimulates : Simulates request claims who setting visit middle reached task answer)
    (hcompiled : Recompiled w middle) :
    Simulates request claims who setting visit w reached task answer := by
  cases hsimulates with
  | panicked hpanics => exact .panicked hpanics
  | answered hanswered hleaves => exact .answered hanswered (hleaves.recompiled hcompiled)

/-- A POST comes to what becomes of a visitor who hands a form in. -/
theorem postFlow_simulates (htokens : TokensRoundTrip X) (hencodes : EncodesTokens X)
    (hcalls : Calls setting visit request host claims who w) {form : Value}
    (hform : request.form = some form) :
    Simulates request claims who setting visit w w (handle X (.postFlow request))
      (setting.post request host form visit) := by
  have hasking := @alone_openPost X who w setting visit request host (visit.session claims)
    hcalls.paid
  refine Simulates.of_alone ?_ (hcalls.alone_postFlow hform)
  unfold postExecution Setting.post
  cases huser : setting.findUser visit.user with
  | error kind =>
      rw [huser] at hasking
      exact .answered (alone_run_error hasking) (afterwards_unmoved hcalls (by simp) (.refl w))
  | ok user =>
      rw [huser] at hasking
      refine Simulates.of_alone ?_ (alone_run_ok hasking)
      obtain ⟨middle, hcompiled, hcheck⟩ := @alone_check X who w setting visit
        (setting.asking request host user visit) hcalls.paid rfl
      have hafter := hcalls.recompiled hcompiled
      simp only
      cases hjudge : setting.judge (setting.asking request host user visit) visit with
      | none =>
          rw [hjudge] at hcheck
          exact .panicked (alone_lift_none hcheck)
      | some verdict =>
          rw [hjudge] at hcheck
          refine Simulates.of_alone ?_ (alone_lift_some hcheck)
          rw [Option.bind_some]
          cases verdict with
          | none =>
              have hsubmit := @submit_simulates X who middle setting visit request host claims
                htokens hencodes hafter form user hjudge
              exact hsubmit.recompiled hcompiled
          | some message =>
              obtain ⟨after, hmore, hdata⟩ := @alone_data X who middle setting visit
                (setting.asking request host user visit) none hafter.paid rfl
              rw [hjudge, Option.bind_some] at hdata
              simp only
              cases hshown : setting.present request.next (some message) none visit with
              | none =>
                  have hdata := hdata.trans (congrArg (Option.map _) hshown)
                  exact .panicked (alone_lift_none hdata)
              | some shown =>
                  have hdata := hdata.trans (congrArg (Option.map _) hshown)
                  exact .answered (alone_lift_some hdata)
                    (afterwards_unmoved hcalls (by simp) (hcompiled.trans hmore))

end Requests

end Authust
