import Authust.Server.Verdict

/-! # The parts of the handlers that only read

Lookups, checks and the traversal of the storage never issue one of the operations that
write shared state.
-/

namespace Authust

open Coop Coop.Task

variable {X : Externals}

/-- The operations that write an execution, the cache, the sessions or the jar. -/
def Op.writes : Op X → Bool
  | .addCookie _ | .insertExecution _ | .invalidateExecution _ | .useMutContext _ _
  | .completeCurrent _ | .insertSession _ | .updateSession _ _ | .commit => true
  | _ => false

/-- The operations of a lookup, which do not ask where an execution stands either. -/
def Op.looks : Op X → Bool
  | .getEntry _ => false
  | op => !op.writes

/-- The panics of a lookup that a frozen storage does not answer. -/
def Op.misses : Op X → Bool
  | .panic message => message = "Missing stage in storage" || message = "Missing policy in storage"
  | _ => false

/-- The operations of a traversal of the live storage. -/
def Op.records : Op X → Bool
  | .liveFlow _ | .liveStage _ | .livePolicy _ | .livePrompt _ => true
  | .panic message => !(@panic X message).misses
  | _ => false

/-- The operations of a lookup in the table of users. -/
def Op.asks : Op X → Bool
  | .prepareCached _ | .queryUser _ => true
  | _ => false

/-- The operations of the check of a binding. -/
def Op.judges : Op X → Bool
  | .lockContext _ | .unlockContext _ | .readContext _ | .frozenPolicy _ _ | .livePolicy _
  | .optionallyGetWith _ _ | .panic _ => true
  | _ => false

abbrev ReadOnly {α : Type} (task : Task (sig X) α) : Prop :=
  @Avoids (sig X) α (fun op => op.writes = true) task

abbrev Looks {α : Type} (task : Task (sig X) α) : Prop :=
  @Avoids (sig X) α (fun op => op.looks = false) task

abbrev Asking {α : Type} (task : Task (sig X) α) : Prop :=
  @Avoids (sig X) α (fun op => op.asks = false) task

abbrev Judging {α : Type} (task : Task (sig X) α) : Prop :=
  @Avoids (sig X) α (fun op => op.judges = false) task

abbrev Recording {α : Type} (task : Task (sig X) α) : Prop :=
  @Avoids (sig X) α (fun op => op.records = false) task

theorem Op.looks_eq_false_of_writes {op : Op X} (hop : op.writes = true) : op.looks = false := by
  cases op with
  | getEntry e => rfl
  | _ => simp [Op.looks, hop]

/-- What only looks writes nothing. -/
theorem Looks.readOnly {α : Type} {task : Task (sig X) α} (hlooks : Looks task) : ReadOnly task :=
  hlooks.mono fun _ hop => Op.looks_eq_false_of_writes hop

section Looks

variable {α : Type}

theorem looks_panic {message : String} : Looks (panic message : Task (sig X) α) :=
  avoids_perform_bind rfl fun res => res.elim

/-- A stage is looked up in the frozen storage, under a guard of the context. -/
theorem looks_lookupStage {e : ExecId} {reference : DataRef StageQuery} :
    Looks (lookupStage X e reference) := by
  refine avoids_perform_bind rfl fun _ => avoids_perform_bind rfl fun stage =>
    avoids_perform_bind rfl fun _ => ?_
  cases stage with
  | none => exact looks_panic
  | some stage => exact avoids_done

theorem looks_getSessionCookie {request : Request X} : Looks (getSessionCookie X request) := by
  apply avoids_perform_bind rfl
  intro cookie
  cases cookie <;> exact avoids_done

end Looks

section Asking

variable {α : Type}

/-- To ask for users is to look. -/
theorem Asking.looks {task : Task (sig X) α} (hasking : Asking task) : Looks task := by
  apply hasking.mono
  intro op hop
  cases op with
  | prepareCached | queryUser => cases hop
  | _ => rfl

theorem asking_lookupUserBy {sql : String} {key : UserKey} :
    Asking (lookupUserBy X sql key).run :=
  Avoids.run_bind (avoids_perform rfl) fun _ => Avoids.run_bind (avoids_perform rfl)
    fun _ => avoids_done

theorem asking_lookupUserByUuid {text : String} {useUuid : Bool} :
    Asking (lookupUserByUuid X text useUuid).run := by
  unfold lookupUserByUuid
  split
  next =>
    split
    next => exact asking_lookupUserBy
    next => exact avoids_done
  next => exact avoids_done

theorem asking_lookupUserByEmail {text : String} {useEmail useUuid : Bool} :
    Asking (lookupUserByEmail X text useEmail useUuid).run := by
  unfold lookupUserByEmail
  split
  next =>
    apply Avoids.run_bind asking_lookupUserBy
    intro found
    cases found with
    | some user => exact avoids_done
    | none => exact asking_lookupUserByUuid
  next => exact asking_lookupUserByUuid

/-- An identification asks for users, by each of the fields in turn. -/
theorem asking_lookupUser {text : String} {useName useEmail useUuid : Bool} :
    Asking (lookupUser X text useName useEmail useUuid).run := by
  unfold lookupUser
  split
  next =>
    apply Avoids.run_bind asking_lookupUserBy
    intro found
    cases found with
    | some user => exact avoids_done
    | none => exact asking_lookupUserByEmail
  next => exact asking_lookupUserByEmail

theorem looks_lookupUser {text : String} {useName useEmail useUuid : Bool} :
    Looks (lookupUser X text useName useEmail useUuid).run :=
  asking_lookupUser.looks

/-- The user of a session is asked for by the uid in its row. -/
theorem asking_getUser {session : Session} : Asking (session.getUser X).run := by
  unfold Session.getUser
  split
  next => exact asking_lookupUserBy
  next => exact avoids_done

end Asking

section Judging

variable {α : Type}

/-- To judge a binding is to look. -/
theorem Judging.looks {task : Task (sig X) α} (hjudging : Judging task) : Looks task := by
  apply hjudging.mono
  intro op hop
  cases op with
  | lockContext | unlockContext | readContext | frozenPolicy | livePolicy => cases hop
  | optionallyGetWith | panic => cases hop
  | _ => rfl

theorem judging_panic {message : String} : Judging (panic message : Task (sig X) α) :=
  avoids_perform_bind rfl fun res => res.elim

theorem judging_lookupPolicy {e : ExecId} {reference : DataRef PolicyQuery} :
    Judging (lookupPolicy X e reference) := by
  refine avoids_perform_bind rfl fun _ => avoids_perform_bind rfl fun policy =>
    avoids_perform_bind rfl fun _ => ?_
  cases policy with
  | none => exact judging_panic
  | some policy => exact avoids_done

theorem judging_flowCheck {context : CheckContext} {check : FlowCheck} :
    Judging (check.check X context) := by
  cases check with
  | authentication requirement => exact avoids_done
  | isUser uid => exact avoids_done
  | policy reference =>
      apply Avoids.bind judging_lookupPolicy
      intro policy
      exact avoids_checkPolicy (fun _ => Bool.true_eq_false.mp) (fun _ => Bool.true_eq_false.mp)
        (fun _ _ => Bool.true_eq_false.mp) context policy

theorem judging_checkBinding {binding : FlowBinding} {context : CheckContext} :
    Judging (checkBinding X binding context) := by
  unfold checkBinding
  split
  next =>
    refine Avoids.bind ?_ fun check => Avoids.bind judging_flowCheck fun output => ?_
    · cases binding.kind with
      | group uid => exact judging_panic
      | user uid => exact avoids_done
      | policy reference => exact avoids_done
    · simp only
      split <;> split <;> exact avoids_done
  next => exact avoids_done

/-- The bindings are judged by the frozen policies, the live ones and the compiled ones. -/
theorem judging_checkBindings {context : CheckContext} {bindings : List FlowBinding} :
    Judging (checkBindings X context bindings) := by
  induction bindings with
  | nil => exact avoids_done
  | cons binding rest ih =>
      apply Avoids.bind judging_checkBinding
      intro verdict
      cases verdict with
      | some message => exact avoids_done
      | none => exact ih

end Judging

section ReadOnly

variable {α : Type}

theorem readOnly_flowCheck {context : CheckContext} {check : FlowCheck} :
    ReadOnly (check.check X context) :=
  judging_flowCheck.looks.readOnly

theorem readOnly_checkBindings {context : CheckContext} {bindings : List FlowBinding} :
    ReadOnly (checkBindings X context bindings) :=
  judging_checkBindings.looks.readOnly

/-- A check writes nothing, whatever it comes to. -/
theorem readOnly_check {e : ExecId} {context : CheckContext} : ReadOnly (check X e context) := by
  refine avoids_perform_bind rfl fun flow => Avoids.bind readOnly_flowCheck fun output => ?_
  split
  next =>
    apply Avoids.bind readOnly_checkBindings
    intro verdict
    cases verdict with
    | some message => exact avoids_done
    | none => exact avoids_perform_bind rfl fun entry => readOnly_checkBindings
  next => exact avoids_done

theorem readOnly_getCheckContext {e : ExecId} {request : CheckContextRequest} :
    ReadOnly (getCheckContext X e request) :=
  avoids_perform_bind rfl fun _ => avoids_done

theorem readOnly_asComponent {stage : Stage} {e : ExecId} : ReadOnly (asComponent X stage e) := by
  unfold asComponent
  split
  next => exact avoids_done
  next => exact looks_panic.readOnly
  next password userFields _ =>
    cases password with
    | none => exact avoids_done
    | some reference => exact Avoids.bind looks_lookupStage.readOnly fun _ => avoids_done
  next => exact avoids_done
  next => exact avoids_done
  next => exact avoids_done
  next => exact avoids_done
  next => exact looks_panic.readOnly

/-- Making the form of an entry writes nothing. -/
theorem readOnly_currentComponent {e : ExecId} {stage : Stage} :
    ReadOnly (currentComponent X e stage) := by
  refine avoids_perform_bind rfl fun _ => avoids_perform_bind rfl fun context => ?_
  split
  next => exact avoids_perform_bind rfl fun _ => avoids_done
  next =>
    refine Avoids.bind readOnly_asComponent fun component => avoids_perform_bind rfl fun _ => ?_
    cases component <;> exact avoids_done

theorem readOnly_getUser {session : Session} : ReadOnly (session.getUser X).run :=
  asking_getUser.looks.readOnly

theorem readOnly_checkContext {request : Request X} {host : String} {session : Session}
    {e : ExecId} : ReadOnly (checkContext X request host session e).run := by
  apply Avoids.run_bind readOnly_getUser
  intro user
  rw [run_lift]
  exact Avoids.bind readOnly_getCheckContext fun _ => avoids_done

/-- Up to the end of its check a POST writes nothing. -/
theorem readOnly_openPost {request : Request X} {host : String} {session : Session}
    {e : ExecId} : ReadOnly (openPost X request host session e).run :=
  Avoids.run_bind (avoids_perform rfl) fun _ => Avoids.run_bind (avoids_perform rfl) fun _ =>
    readOnly_checkContext

end ReadOnly

section Recording

variable {α : Type}

/-- The traversal leaves executions, cache, sessions and jar alone. -/
theorem Recording.readOnly {task : Task (sig X) α} (hrecording : Recording task) :
    ReadOnly task := by
  apply hrecording.mono
  intro op hop
  cases op with
  | liveFlow | liveStage | livePolicy | livePrompt | panic => cases hop
  | _ => rfl

theorem recording_panic {message : String} (hmessage : (@Op.panic X message).records = true) :
    Recording (panic message : Task (sig X) α) :=
  avoids_perform_bind hmessage fun res => res.elim

theorem recording_proxiedPolicy {storage : FreezedStorage} {reference : DataRef PolicyQuery} :
    Recording (proxiedPolicy X storage reference) := by
  apply avoids_perform_bind rfl
  intro answer
  cases answer with
  | none => exact recording_panic rfl
  | some found => exact avoids_done

theorem recording_proxiedPrompt {storage : FreezedStorage} {reference : DataRef PromptQuery} :
    Recording (proxiedPrompt X storage reference) := by
  apply avoids_perform_bind rfl
  intro answer
  cases answer with
  | none => exact recording_panic rfl
  | some found => exact avoids_done

theorem recording_proxiedStage {storage : FreezedStorage} {reference : DataRef StageQuery} :
    Recording (proxiedStage X storage reference) := by
  apply avoids_perform_bind rfl
  intro answer
  cases answer with
  | none => exact recording_panic rfl
  | some found => exact avoids_done

theorem recording_proxiedFlow {storage : FreezedStorage} {reference : DataRef FlowQuery} :
    Recording (proxiedFlow X storage reference) := by
  apply avoids_perform_bind rfl
  intro answer
  cases answer with
  | none => exact recording_panic rfl
  | some found => exact avoids_done

theorem recording_reverseLookupPrompts {bindings : List PromptBinding} {storage : FreezedStorage} :
    Recording (reverseLookupPrompts X storage bindings) := by
  induction bindings generalizing storage with
  | nil => exact avoids_done
  | cons binding rest ih => exact Avoids.bind recording_proxiedPrompt fun _ => ih

/-- The traversal follows a stage to the stages and prompts it refers to. -/
theorem recording_reverseLookupStage {depth : Nat} {storage : FreezedStorage} {stage : Stage} :
    Recording (reverseLookupStage X depth storage stage) := by
  induction depth generalizing storage stage with
  | zero => exact recording_panic rfl
  | succ depth ih =>
      unfold reverseLookupStage
      split
      next => exact recording_reverseLookupPrompts
      next => exact Avoids.bind recording_proxiedStage fun _ => ih
      next => exact avoids_done

theorem recording_reverseLookupBindings {bindings : List FlowBinding} {storage : FreezedStorage} :
    Recording (reverseLookupBindings X storage bindings) := by
  induction bindings generalizing storage with
  | nil => exact avoids_done
  | cons binding rest ih =>
      unfold reverseLookupBindings
      split
      next => exact Avoids.bind recording_proxiedPolicy fun _ => ih
      next => exact ih

theorem recording_reverseLookupEntries {entries : List FlowEntry} {storage : FreezedStorage} :
    Recording (reverseLookupEntries X storage entries) := by
  induction entries generalizing storage with
  | nil => exact avoids_done
  | cons entry rest ih =>
      apply Avoids.bind recording_reverseLookupBindings
      intro _
      exact Avoids.bind recording_proxiedStage fun _ =>
        Avoids.bind recording_reverseLookupStage fun _ => ih

/-- A snapshot is taken from the live storage alone. -/
theorem recording_reverseLookupFlow {flow : Flow} : Recording (reverseLookupFlow X flow) :=
  Avoids.bind recording_proxiedFlow fun _ => Avoids.bind recording_reverseLookupBindings fun _ =>
    recording_reverseLookupEntries

end Recording

end Authust
