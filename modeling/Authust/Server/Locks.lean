import Authust.Coop.RwLock
import Authust.Server.Runs
import Authust.Server.Histories

/-! # The lock of an execution context

The context of an execution is behind a readers-writer lock. Lookups and the construction of
a component keep a read guard across their awaits, reading the context takes one for a moment,
and `use_mut_context` tries for the write guard and panics when it does not get it.
-/

namespace Authust

open Coop Coop.Task Coop.Machine

variable {X : Externals}

/-- Where the operations take the lock of which context. -/
def contextRegion : Op X → Region ExecId
  | .lockContext e => .acquire e
  | .unlockContext e => .release e
  | .readContext e => .reading e
  | .useMutContext e _ => .writing e
  | _ => .plain

/-- The operations that keep and drop no guard and write no context. -/
def Op.unlocked : Op X → Bool
  | .lockContext _ | .unlockContext _ | .useMutContext _ _ => false
  | _ => true

/-- A part of a handler that is entered with the read guards `kept` and left with `left`, and that
writes only contexts on which none is kept. -/
def Leaves {α : Type} (kept left : List ExecId) (task : Task (sig X) α) : Prop :=
  ∀ history : History X, keptAfter contextRegion history = kept →
    Obeys (WritesUnguarded contextRegion) (fun past _ => keptAfter contextRegion past = left)
      task history

abbrev Keeps {α : Type} (kept : List ExecId) (task : Task (sig X) α) : Prop := Leaves kept kept task

section Keeps

variable {α β : Type} {kept middle left : List ExecId}

theorem keeps_done {value : α} : Keeps kept (done value : Task (sig X) α) :=
  fun _ hkept => hkept

/-- The second part is entered with the guards that the first has left. -/
theorem Leaves.bind {task : Task (sig X) α} {f : α → Task (sig X) β}
    (htask : Leaves kept middle task)
    (hrest : ∀ value, Leaves middle left (f value)) : Leaves kept left (task >>= f) :=
  fun history hkept => (htask history hkept).bind_post fun past value hpast =>
    hrest value past hpast

theorem keeps_bind {task : Task (sig X) α} {f : α → Task (sig X) β} (htask : Keeps kept task)
    (hrest : ∀ value, Keeps kept (f value)) : Keeps kept (task >>= f) :=
  htask.bind hrest

theorem keeps_run_bind {task : Handler X α} {f : α → Handler X β} (htask : Keeps kept task.run)
    (hrest : ∀ value, Keeps kept (f value).run) : Keeps kept (task >>= f).run := by
  rw [Task.run_bind]
  apply htask.bind
  intro result
  cases result with
  | ok value => exact hrest value
  | error error => exact keeps_done

theorem keeps_lift {task : Task (sig X) α} (htask : Keeps kept task) :
    Keeps kept (ExceptT.lift task : Handler X α).run := by
  rw [run_lift]
  exact htask.bind fun _ => keeps_done

theorem keptNext_unlocked {event : Event (sig X)} (hop : event.op.unlocked = true) :
    keptNext contextRegion kept event = kept := by
  obtain ⟨op, res⟩ := event
  cases op with
  | lockContext | unlockContext => cases hop
  | _ => rfl

theorem writesUnguarded_unlocked {op : Op X} (hop : op.unlocked = true) (history : History X) :
    WritesUnguarded contextRegion history op := by
  intro e hwriting
  cases op with
  | useMutContext => cases hop
  | _ => cases hwriting

/-- What touches no lock keeps any guards. -/
theorem keeps_of_avoids {task : Task (sig X) α}
    (havoids : @Avoids (sig X) α (fun op => op.unlocked = false) task) : Keeps kept task := by
  induction task with
  | done value => exact keeps_done
  | call op next ih =>
      obtain ⟨hop, hrest⟩ := havoids
      rw [Bool.not_eq_false] at hop
      refine fun history hkept => ⟨writesUnguarded_unlocked hop history, fun res => ?_⟩
      refine ih res (hrest res) _ ?_
      rw [keptAfter_snoc, keptNext_unlocked hop, hkept]

theorem keeps_op {op : Op X} (hop : op.unlocked = true) : Keeps kept (Authust.op op) :=
  keeps_of_avoids ⟨by simp [hop], fun _ => avoids_done⟩

theorem keeps_op_bind {op : Op X} {f : op.Res → Task (sig X) α} (hop : op.unlocked = true)
    (hrest : ∀ res, Keeps kept (f res)) : Keeps kept (Authust.op op >>= f) :=
  (keeps_op hop).bind hrest

theorem keeps_panic {message : String} : Keeps kept (panic message : Task (sig X) α) :=
  (keeps_op rfl).bind fun res => res.elim

/-- The guard is kept from here on. -/
theorem leaves_lockContext {e : ExecId} :
    Leaves kept (e :: kept) (op (.lockContext e) : Task (sig X) Unit) := by
  refine fun history hkept => ⟨fun _ hwriting => (by cases hwriting), fun _ => ?_⟩
  rw [obeys_done, keptAfter_snoc, hkept]
  rfl

/-- The guard is dropped. -/
theorem leaves_unlockContext {e : ExecId} :
    Leaves (e :: kept) kept (op (.unlockContext e) : Task (sig X) Unit) := by
  refine fun history hkept => ⟨fun _ hwriting => (by cases hwriting), fun _ => ?_⟩
  rw [obeys_done, keptAfter_snoc, hkept]
  exact List.erase_cons_head ..

/-- Writing a context when no guard is kept. -/
theorem keeps_useMutContext {e : ExecId} {update : ContextUpdate} :
    Keeps [] (op (.useMutContext e update) : Task (sig X) Unit) := by
  refine fun history hkept => ⟨fun lock _ => ?_, fun _ => ?_⟩
  · rw [hkept]
    exact List.not_mem_nil
  · rw [obeys_done, keptAfter_snoc, hkept]
    rfl

end Keeps

section Readers

variable {kept : List ExecId} {e : ExecId} {context : CheckContext}

/-- A lookup drops the guard that it has taken. -/
theorem keeps_lookupStage {reference : DataRef StageQuery} :
    Keeps kept (lookupStage X e reference) := by
  refine leaves_lockContext.bind fun _ => (keeps_op rfl).bind fun stage =>
    leaves_unlockContext.bind fun _ => ?_
  cases stage with
  | none => exact keeps_panic
  | some stage => exact keeps_done

theorem keeps_lookupPolicy {reference : DataRef PolicyQuery} :
    Keeps kept (lookupPolicy X e reference) := by
  refine leaves_lockContext.bind fun _ => (keeps_op rfl).bind fun policy =>
    leaves_unlockContext.bind fun _ => ?_
  cases policy with
  | none => exact keeps_panic
  | some policy => exact keeps_done

theorem keeps_flowCheck {check : FlowCheck} : Keeps kept (check.check X context) := by
  cases check with
  | authentication requirement => exact keeps_done
  | isUser uid => exact keeps_done
  | policy reference =>
      refine keeps_lookupPolicy.bind fun policy => keeps_of_avoids ?_
      exact avoids_checkPolicy (fun _ => by simp [Op.unlocked]) (fun _ => by simp [Op.unlocked])
        (fun _ _ => by simp [Op.unlocked]) context policy

theorem keeps_checkBinding {binding : FlowBinding} :
    Keeps kept (checkBinding X binding context) := by
  unfold checkBinding
  split
  next =>
    refine keeps_bind ?_ fun check => keeps_bind keeps_flowCheck fun output => ?_
    · cases binding.kind with
      | group uid => exact keeps_panic
      | user uid => exact keeps_done
      | policy reference => exact keeps_done
    · simp only
      split <;> split <;> exact keeps_done
  next => exact keeps_done

/-- The guards that the lookups of the policies take are dropped before the next binding. -/
theorem keeps_checkBindings {bindings : List FlowBinding} :
    Keeps kept (checkBindings X context bindings) := by
  induction bindings with
  | nil => exact keeps_done
  | cons binding rest ih =>
      apply keeps_checkBinding.bind
      intro verdict
      cases verdict with
      | some message => exact keeps_done
      | none => exact ih

/-- A check leaves the guards as it has found them. -/
theorem keeps_check : Keeps kept (check X e context) := by
  refine keeps_op_bind rfl fun flow => keeps_flowCheck.bind fun output => ?_
  split
  next =>
    apply keeps_checkBindings.bind
    intro verdict
    cases verdict with
    | some message => exact keeps_done
    | none => exact keeps_op_bind rfl fun entry => keeps_checkBindings
  next => exact keeps_done

theorem keeps_asComponent {stage : Stage} : Keeps kept (asComponent X stage e) := by
  unfold asComponent
  split
  next => exact keeps_done
  next => exact keeps_panic
  next password userFields _ =>
    cases password with
    | none => exact keeps_done
    | some reference => exact keeps_lookupStage.bind fun _ => keeps_done
  next => exact keeps_done
  next => exact keeps_done
  next => exact keeps_done
  next => exact keeps_done
  next => exact keeps_panic

theorem keeps_currentComponent {stage : Stage} : Keeps kept (currentComponent X e stage) := by
  refine leaves_lockContext.bind fun _ => (keeps_op rfl).bind fun context => ?_
  split
  next => exact leaves_unlockContext.bind fun _ => keeps_done
  next =>
    refine keeps_asComponent.bind fun component => leaves_unlockContext.bind fun _ => ?_
    cases component <;> exact keeps_done

theorem keeps_completedComponent : Keeps kept (completedComponent X e context) := by
  unfold completedComponent
  split
  next => exact keeps_op_bind rfl fun _ => keeps_op_bind rfl fun _ => keeps_done
  next => exact keeps_done

/-- So does the making of an answer. -/
theorem keeps_data {error : Option SubmissionError} : Keeps kept (data X e error context) := by
  refine keeps_op_bind rfl fun flow => keeps_op_bind rfl fun entry =>
    keeps_bind keeps_lookupStage fun stage => keeps_op_bind rfl fun completed =>
      keeps_bind keeps_check fun denied => ?_
  split
  next => exact keeps_done
  next =>
    simp only
    split
    next => exact keeps_bind keeps_completedComponent fun _ => keeps_op_bind rfl fun _ => keeps_done
    next => exact keeps_bind keeps_currentComponent fun _ => keeps_op_bind rfl fun _ => keeps_done

theorem keeps_getCheckContext {request : CheckContextRequest} :
    Keeps kept (getCheckContext X e request) :=
  keeps_op_bind rfl fun _ => keeps_done

end Readers

section Handlers

variable {kept : List ExecId} {e : ExecId} {session : Session} {request : Request X} {form : Value}

theorem Asking.keeps {α : Type} {task : Task (sig X) α} (hasking : Asking task) : Keeps kept task :=
  keeps_of_avoids (hasking.mono fun op hop => by
    cases op with
    | lockContext | unlockContext | useMutContext => rfl
    | _ => cases hop)

theorem Recording.keeps {α : Type} {task : Task (sig X) α} (hrecording : Recording task) :
    Keeps kept task :=
  keeps_of_avoids (hrecording.mono fun op hop => by
    cases op with
    | lockContext | unlockContext | useMutContext => rfl
    | _ => cases hop)

theorem Opening.keeps {α : Type} {task : Task (sig X) α} (hopening : Opening task) :
    Keeps kept task :=
  keeps_of_avoids (hopening.mono fun op hop => by
    cases op with
    | lockContext | unlockContext | useMutContext => rfl
    | _ => cases hop)

theorem keeps_access {op : Op X} (hop : op.unlocked = true) : Keeps kept (access op).run :=
  keeps_lift (keeps_op hop)

theorem keeps_checkContext {host : String} :
    Keeps kept (checkContext X request host session e).run :=
  keeps_run_bind asking_getUser.keeps fun _ => keeps_lift keeps_getCheckContext

theorem keeps_openPost {host : String} : Keeps kept (openPost X request host session e).run :=
  keeps_run_bind (keeps_op rfl) fun _ => keeps_run_bind (keeps_op rfl) fun _ => keeps_checkContext

/-- Finding or starting an execution takes no guard. -/
theorem keeps_getExecution {key : FlowKey} {startNew : Bool} :
    Keeps kept (getExecution X key startNew) := by
  apply keeps_op_bind rfl
  intro cached
  cases cached with
  | some e => exact keeps_done
  | none =>
      simp only
      split
      next =>
        apply keeps_op_bind rfl
        intro found
        cases found with
        | none => exact keeps_done
        | some flow =>
            simp only
            split
            next => exact keeps_done
            next =>
              exact keeps_bind recording_reverseLookupFlow.keeps fun storage =>
                keeps_op_bind rfl fun now => keeps_op_bind rfl fun e => keeps_done
      next => exact keeps_done

/-- No guard is kept while the hash is fetched, nor when the flag is set. -/
theorem keeps_handlePasswordStage {backends : List PasswordBackend} :
    Keeps [] (handlePasswordStage X form e backends).run := by
  apply keeps_run_bind (keeps_access rfl)
  intro context
  split
  next => exact keeps_done
  next =>
    split
    next => exact keeps_done
    next =>
      split
      next =>
        refine keeps_run_bind (keeps_op rfl) fun _ => keeps_run_bind (keeps_op rfl) fun stored => ?_
        split
        next => exact keeps_done
        next =>
          split
          next => exact keeps_done
          next =>
            apply keeps_run_bind (keeps_access rfl)
            intro result
            split
            next => exact keeps_lift keeps_useMutContext
            next => exact keeps_done
            next => exact keeps_done
      next => exact keeps_done

theorem keeps_handleIdentification {password : Option (DataRef StageQuery)}
    {userFields : List UserField} :
    Keeps [] (handleIdentification X form e password userFields).run := by
  unfold handleIdentification
  split
  next => exact keeps_done
  next =>
    apply keeps_run_bind asking_lookupUser.keeps
    intro found
    split
    next => exact keeps_done
    next =>
      apply keeps_run_bind (keeps_lift keeps_useMutContext)
      intro _
      split
      next => exact keeps_done
      next =>
        apply keeps_run_bind (keeps_lift keeps_lookupStage)
        intro stage
        split
        next => exact keeps_handlePasswordStage
        next => exact keeps_lift keeps_panic

/-- A stage writes the context when the guards of its lookups have been dropped. -/
theorem keeps_handleStage {stage : Stage} : Keeps [] (handleStage X form e stage).run := by
  unfold handleStage
  split
  next => exact keeps_done
  next => exact keeps_done
  next => exact keeps_handleIdentification
  next => exact keeps_done
  next => exact keeps_done
  next => exact keeps_done
  next => exact keeps_handlePasswordStage
  next => exact keeps_done

theorem keeps_handleSubmission : Keeps [] (handleSubmission X form e).run := by
  apply keeps_run_bind (keeps_access rfl)
  intro completed
  split
  next => exact keeps_done
  next =>
    exact keeps_run_bind (keeps_access rfl) fun entry =>
      keeps_run_bind (keeps_lift keeps_lookupStage) fun stage => keeps_handleStage

theorem keeps_getSessionCookie : Keeps kept (getSessionCookie X request) := by
  apply keeps_op_bind rfl
  intro cookie
  cases cookie <;> exact keeps_done

theorem keeps_setSessionCookie {claims : Claims} : Keeps kept (setSessionCookie X claims).run := by
  unfold setSessionCookie
  split
  next => exact keeps_done
  next => exact keeps_access rfl

/-- A login only reads the context, or writes an error to it without a guard. -/
theorem keeps_userLogin {entry : FlowEntry} :
    Keeps [] (userLogin X request session e entry).run := by
  apply keeps_run_bind (keeps_access rfl)
  intro context
  split
  next => exact keeps_done
  next =>
    split
    next =>
      apply keeps_run_bind (keeps_lift keeps_getSessionCookie)
      intro cookie
      split
      next => exact keeps_done
      next =>
        split
        next => exact keeps_done
        next =>
          exact keeps_run_bind keeps_setSessionCookie fun _ =>
            keeps_run_bind (keeps_op rfl) fun _ =>
            keeps_run_bind (keeps_op rfl) fun _ => keeps_done
    next => exact keeps_run_bind (keeps_lift keeps_useMutContext) fun _ => keeps_done

theorem keeps_completeTurn {exhausted : Bool} :
    Keeps [] (completeTurn X request session e exhausted).run := by
  apply keeps_run_bind (keeps_access rfl)
  intro completed
  split
  next => exact keeps_done
  next =>
    refine keeps_run_bind (keeps_access rfl) fun entry =>
      keeps_run_bind (keeps_lift keeps_lookupStage) fun stage => ?_
    split
    next => exact keeps_done
    next =>
      split
      next => exact keeps_done
      next =>
        split
        next => exact keeps_userLogin
        next => exact keeps_lift keeps_panic
        next => exact keeps_lift keeps_panic
        next => exact keeps_lift keeps_panic

/-- Each turn of the completion loop begins and ends without a guard. -/
theorem keeps_completeLoop {left : Nat} : Keeps [] (completeLoop X request session e left).run := by
  induction left with
  | zero => exact keeps_run_bind keeps_completeTurn fun _ => keeps_done
  | succ left ih =>
      apply keeps_run_bind keeps_completeTurn
      intro control
      cases control with
      | leave => exact keeps_done
      | proceed => exact keeps_run_bind (keeps_access rfl) fun _ => ih

theorem keeps_submit {context : CheckContext} :
    Keeps [] (submit X request form session e context).run := by
  apply keeps_run_bind (keeps_lift keeps_handleSubmission)
  intro result
  split
  next => exact keeps_run_bind (keeps_lift keeps_data) fun _ => keeps_done
  next => exact keeps_done
  next =>
    exact keeps_run_bind (keeps_access rfl) fun _ => keeps_run_bind keeps_completeLoop fun _ =>
      keeps_run_bind (keeps_op rfl) fun _ => keeps_done

/-- A POST comes to each of its writes without a guard. -/
theorem keeps_postFlow {extension : AuthExtension} :
    Keeps [] (postFlow X extension request).run := by
  apply keeps_run_bind opening_fromRequestParts.keeps
  intro session
  split
  next =>
    split
    next => exact keeps_done
    next =>
      apply keeps_run_bind (keeps_lift keeps_getExecution)
      intro found
      split
      next => exact keeps_done
      next =>
        refine keeps_run_bind keeps_openPost fun context =>
          keeps_run_bind (keeps_lift keeps_check) fun verdict => ?_
        split
        next => exact keeps_run_bind (keeps_lift keeps_data) fun _ => keeps_done
        next => exact keeps_submit
  next => exact keeps_done

theorem keeps_getFlow {extension : AuthExtension} : Keeps [] (getFlow X extension request).run := by
  apply keeps_run_bind opening_fromRequestParts.keeps
  intro session
  split
  next => exact keeps_done
  next =>
    split
    next => exact keeps_done
    next =>
      apply keeps_run_bind (keeps_lift keeps_getExecution)
      intro found
      split
      next => exact keeps_done
      next =>
        exact keeps_run_bind (keeps_op rfl) fun _ =>
          keeps_run_bind keeps_checkContext fun context =>
          keeps_run_bind (keeps_lift keeps_data) fun _ => keeps_done

/-- A handler drops its own guards before it writes. -/
theorem keeps_handle (call : Call X) : Keeps [] (handle X call) := by
  unfold handle
  split
  next => exact keeps_done
  next extension _ =>
    cases call with
    | getFlow request => exact keeps_getFlow
    | postFlow request => exact keeps_postFlow
    | userInfo cookie =>
        exact keeps_run_bind opening_fromRequestParts.keeps fun session =>
          keeps_run_bind (keeps_op rfl) fun _ => keeps_run_bind asking_getUser.keeps
            fun _ => keeps_done
    | admin cookie =>
        refine keeps_run_bind (keeps_run_bind opening_fromRequestParts.keeps fun session => ?_)
          fun _ => keeps_done
        split <;> exact keeps_done

end Handlers

section Locks

variable (X) in
/-- The server with the lock steps of every context. -/
abbrev lockServer : Machine ((sig X).locked ExecId) (Locked ExecId (World X)) Choice :=
  (server X).locked ExecId

abbrev LockConfig (X : Externals) :=
  Config ((sig X).locked ExecId) (Locked ExecId (World X)) (Except ApiErrorKind Response)

/-- Configurations that calls reach when any two of their lock steps may interleave. -/
abbrev LockInterleaved (calls : Nat → Call X) (start : World X) (config : LockConfig X) : Prop :=
  ReachableWhen (lockServer X) lockEnabled
    (lockTasks contextRegion fun who => handle X (calls who)) ⟨start, [], []⟩ config

/-- No call of `use_mut_context` finds the lock held. -/
def NeverLocked (config : LockConfig X) : Prop :=
  ∀ who e, config.Tries who e →
    ∀ choice, (lockServer X).exec who (.tryWrite e) choice config.state ≠ none

/-- Who calls `use_mut_context` is alone in the lock regions of the execution. -/
def AloneInRegion (config : LockConfig X) : Prop :=
  ∀ who e, config.Tries who e → ∀ other, other ≠ who → ¬ config.Inside other e

/-- Under every interleaving of lock steps, `use_mut_context` panics exactly where another
request is inside a lock region of the execution. -/
theorem neverLocked_iff_alone {calls : Nat → Call X} {start : World X} {config : LockConfig X}
    (hreach : LockInterleaved calls start config) : NeverLocked config ↔ AloneInRegion config := by
  have hwrites : ∀ who, Obeys (WritesUnguarded contextRegion) (fun _ _ => True)
      (handle X (calls who)) [] := fun who =>
    (keeps_handle (calls who) [] rfl).mono (fun _ _ hrule => hrule) fun _ _ _ => trivial
  have hfails : ∀ {who e}, config.Tries who e → ∀ choice,
      (lockServer X).exec who (.tryWrite e) choice config.state = none ↔
        ∃ other, other ≠ who ∧ config.Inside other e := fun htries choice =>
    hreach.reachable.tryWrite_fails_iff hwrites rfl rfl htries choice
  constructor
  · intro hnever who e htries other hne hinside
    exact hnever who e htries .normal ((hfails htries .normal).mpr ⟨other, hne, hinside⟩)
  · intro halone who e htries choice hnone
    obtain ⟨other, hne, hinside⟩ := (hfails htries choice).mp hnone
    exact halone who e htries other hne hinside

end Locks

section LockRuns

/-- A GET that starts the execution, a second GET and a login. -/
def overlappingCalls : Nat → Call Externals.plain
  | 0 => sampleGet
  | 1 => sampleGet
  | _ => memberLogin

/-- The login has come to `use_mut_context`. -/
def writingSchedule : List (Act Choice) := Act.awaits 0 .normal 38 ++ Act.awaits 2 .normal 20

/-- Meanwhile the second GET looks the stage up. -/
def overlappingSchedule : List (Act Choice) := writingSchedule ++ Act.awaits 1 .normal 12

def lockRun (schedule : List (Act Choice)) : Option (LockConfig Externals.plain) :=
  (lockServer Externals.plain).actsWhen lockEnabled
    ⟨⟨oneForm, [], []⟩, fun who => .running (lockTasks contextRegion
      (fun who => handle Externals.plain (overlappingCalls who)) who), []⟩ schedule

theorem lockRun_interleaved {schedule : List (Act Choice)} {config : LockConfig Externals.plain}
    (hrun : lockRun schedule = some config) : LockInterleaved overlappingCalls oneForm config :=
  ReachableWhen.start.acts schedule hrun

/-- The context whose write guard is tried for next. -/
def triedContext (proc : Proc ((sig X).locked ExecId) (Except ApiErrorKind Response)) :
    Option ExecId :=
  match proc with
  | .waiting (.tryWrite e) _ => some e
  | _ => none

theorem tries_of_triedContext {config : LockConfig X} {who : Nat} {e : ExecId}
    (htried : triedContext (config.procs who) = some e) : config.Tries who e := by
  unfold triedContext at htried
  split at htried
  next tried next hproc =>
    cases htried
    exact ⟨next, by rw [hproc]; rfl⟩
  next => cases htried

theorem overlapping_run : ((lockRun overlappingSchedule).map fun config =>
    (triedContext (config.procs 2),
      ((lockServer Externals.plain).exec 2 (.tryWrite 0) .normal config.state).isNone)) =
        some (some 0, true) := by
  decide +kernel

/-- The login panics while the other request looks its stage up. -/
theorem overlapping_panics : ∃ config, LockInterleaved overlappingCalls oneForm config ∧
    ¬ NeverLocked config := by
  obtain ⟨config, hrun, hresult⟩ := Option.map_eq_some_iff.mp overlapping_run
  obtain ⟨htried, hnone⟩ := Prod.mk.injEq .. ▸ hresult
  refine ⟨config, lockRun_interleaved hrun, ?_⟩
  intro hnever
  exact hnever 2 0 (tries_of_triedContext htried) .normal (Option.isNone_iff_eq_none.mp hnone)

theorem writing_run : ((lockRun writingSchedule).map fun config =>
    triedContext (config.procs 2)) = some (some 0) := by
  decide +kernel

/-- Where the login has come to `use_mut_context`, it is decided by who is in a lock region. -/
theorem writing_alone : ∃ config, LockInterleaved overlappingCalls oneForm config ∧
    config.Tries 2 0 ∧ (NeverLocked config ↔ AloneInRegion config) := by
  obtain ⟨config, hrun, htried⟩ := Option.map_eq_some_iff.mp writing_run
  exact ⟨config, lockRun_interleaved hrun, tries_of_triedContext htried,
    neverLocked_iff_alone (lockRun_interleaved hrun)⟩

end LockRuns

end Authust
