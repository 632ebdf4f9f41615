import Authust.Coop.Settles
import Authust.Server.Frame
import Authust.Server.Jar

/-! # Where the completion loop comes to rest

After a submission the loop passes one UserLogin stage after another. It rests where the next
stage requires input or the flow has ended, or where it has set the error of the execution.
-/

namespace Authust

open Coop Coop.Task Coop.Machine

variable {X : Externals}

namespace Plan

/-- The flow ends before the entry, or the stage of the entry requires input. -/
def InputAt (plan : Plan) (index : Nat) : Prop :=
  index = plan.flow.entries.length ∨
    ∃ stage, plan.stageAt index = some stage ∧ stage.kind.requiresInput = true

def LoginAt (plan : Plan) (index : Nat) : Prop :=
  ∃ stage, plan.stageAt index = some stage ∧ stage.kind = .userLogin

/-- From the entry on, at most so many UserLogin stages stand before one that requires input or
before the end of the flow. -/
def LoginsEnd (plan : Plan) : Nat → Nat → Prop
  | 0, index => plan.InputAt index
  | left + 1, index => plan.InputAt index ∨ plan.LoginAt index ∧ plan.LoginsEnd left (index + 1)

instance (plan : Plan) (index : Nat) : Decidable (plan.InputAt index) :=
  decidable_of_iff (index = plan.flow.entries.length ∨
    (plan.stageAt index).any (fun stage => stage.kind.requiresInput) = true) (by
      rw [Option.any_eq_true]
      rfl)

instance (plan : Plan) (index : Nat) : Decidable (plan.LoginAt index) :=
  decidable_of_iff ((plan.stageAt index).any (fun stage => stage.kind = .userLogin) = true) (by
    simp [LoginAt, Option.any_eq_true])

instance decidableLoginsEnd (plan : Plan) : ∀ left index, Decidable (plan.LoginsEnd left index)
  | 0, index => inferInstanceAs (Decidable (plan.InputAt index))
  | left + 1, index =>
      have := decidableLoginsEnd plan left (index + 1)
      inferInstanceAs (Decidable (plan.InputAt index ∨ plan.LoginAt index ∧ _))

end Plan

namespace FlowExecution

/-- The execution is done with, or a client can go on with it. -/
def Continuable (execution : FlowExecution) : Prop :=
  execution.isCompleted = true ∨ execution.context.error.isSome = true ∨
    ∃ stage, execution.plan.stageAt execution.currentEntryIdx = some stage ∧
      stage.kind.requiresInput = true

/-- Whether a user is pending, and is authenticated. -/
def pendingAuthenticated (execution : FlowExecution) : Option Bool :=
  execution.context.pending.map PendingUser.authenticated

/-- The same behind an accepted submission to the current entry. -/
def pendingBehind (execution : FlowExecution) : Option Bool :=
  match (execution.plan.stageAt execution.currentEntryIdx).map Stage.kind with
  | some (.identification password _) => some password.isSome
  | some (.password _) => some true
  | _ => execution.pendingAuthenticated

/-- The execution after a part of its submission, which has left its position alone. -/
structure HandledAs (execution later : FlowExecution) (pending : Option Bool) : Prop where
  plan : later.plan = execution.plan
  index : later.currentEntryIdx = execution.currentEntryIdx
  isCompleted : later.isCompleted = execution.isCompleted
  error : later.context.error = execution.context.error
  pending : later.pendingAuthenticated = pending

end FlowExecution

/-- The execution, if it exists, can be continued. -/
def Continued (e : ExecId) (w : World X) : Prop :=
  ∀ execution, w.heap[e]? = some execution → execution.Continuable

/-- A statement of a login has failed. -/
def failsLogin : Event (sig X) → Bool
  | ⟨.prepareCached sql, .error _⟩ => sql = "update sessions set user_id = $1 where uid = $2"
  | ⟨.updateSession _ _, .error _⟩ => true
  | _ => false

/-- Wherever the task comes to rest, the execution can be continued. -/
abbrev Rests {α : Type} (who : Nat) (allowed : Event (sig X) → Prop) (drops : Prop) (e : ExecId)
    (task : Task (sig X) α) (post : α → World X → Prop) (w : World X) : Prop :=
  (server X).Settles who allowed drops (Continued e) task post w

/-- The state of a request as it comes to a turn of the loop: it has a session cookie to show,
and nobody keeps a guard. -/
structure AtTurn (who : Nat) (request : Request X) (e : ExecId) (execution : FlowExecution)
    (w : World X) : Prop where
  heap : w.heap[e]? = some execution
  formed : execution.WellFormed
  readers : w.readers = []
  cookie : ∃ token claims, (w.cookies who).or request.cookie = some token ∧
    X.decodeToken token = .ok claims

section Submission

variable {who : Nat} {form : Value} {e : ExecId} {execution : FlowExecution} {w : World X}

/-- The submission leaves the execution so, where it is accepted. -/
abbrev Leaving (who : Nat) (e : ExecId) (execution : FlowExecution) (pending : Option Bool)
    (task : Handler X Unit) (w : World X) : Prop :=
  (server X).Ensures who (fun _ => True) task.run (succeeds fun _ after =>
    ∃ later, after.heap[e]? = some later ∧ execution.HandledAs later pending) w

theorem FlowExecution.HandledAs.trans {middle later : FlowExecution} {first second : Option Bool}
    (hfirst : execution.HandledAs middle first) (hsecond : middle.HandledAs later second) :
    execution.HandledAs later second where
  plan := hsecond.plan.trans hfirst.plan
  index := hsecond.index.trans hfirst.index
  isCompleted := hsecond.isCompleted.trans hfirst.isCompleted
  error := hsecond.error.trans hfirst.error
  pending := hsecond.pending

theorem leaving_handlePasswordStage {backends : List PasswordBackend}
    (hheap : w.heap[e]? = some execution) :
    Leaving who e execution (some true) (handlePasswordStage X form e backends) w := by
  unfold Leaving handlePasswordStage
  rw [run_lift_bind]
  refine ensures_perform_bind.mpr ⟨trivial, fun context w' hread => ?_⟩
  obtain ⟨found, hfound, rfl⟩ := exec_readContext hread
  rw [hheap] at hfound
  cases hfound
  replace hheap : w'.heap[e]? = some execution := by rw [((exec_step hread).alike rfl).heap, hheap]
  cases hpending : execution.context.pending with
  | none => exact ⟨trivial, trivial⟩
  | some user =>
      simp only
      split
      next => exact ⟨trivial, trivial⟩
      next =>
        split
        next =>
          refine ensures_readOnly_andThen (avoids_perform rfl) (fun _ _ => trivial)
            fun _ w₁ h₁ => ?_
          refine ensures_readOnly_andThen (avoids_perform rfl) (fun _ _ => trivial)
            fun stored w₂ h₂ => ?_
          cases stored with
          | none => exact ⟨trivial, trivial⟩
          | some stored =>
              simp only
              split
              next => exact ⟨trivial, trivial⟩
              next =>
                rw [run_lift_bind]
                refine ensures_perform_bind.mpr ⟨trivial, fun result w₃ hverified => ?_⟩
                have h₃ := (exec_step hverified).alike rfl
                split
                next =>
                  refine ⟨trivial, fun _ after hexec => ⟨trivial, ?_⟩⟩
                  obtain ⟨old, hold, hafter⟩ := exec_useMutContext hexec
                  rw [h₃.heap, h₂.heap, h₁.heap, hheap] at hold
                  cases hold
                  exact ⟨_, hafter, rfl, rfl, rfl, rfl, by
                    simp [FlowExecution.pendingAuthenticated, FlowExecution.useMutContext,
                      ContextUpdate.apply, hpending]⟩
                next => exact ⟨trivial, trivial⟩
                next => exact ⟨trivial, trivial⟩
        next => exact ⟨trivial, trivial⟩

theorem leaving_handleIdentification {password : Option (DataRef StageQuery)}
    {userFields : List UserField} (hheap : w.heap[e]? = some execution) :
    Leaving who e execution (some password.isSome)
      (handleIdentification X form e password userFields) w := by
  unfold Leaving handleIdentification
  split
  next => exact ⟨trivial, trivial⟩
  next =>
    refine ensures_readOnly_andThen looks_lookupUser.readOnly (fun _ _ => trivial)
      fun user w₁ h₁ => ?_
    cases user with
    | none => exact ⟨trivial, trivial⟩
    | some user =>
        simp only
        rw [run_lift_bind]
        refine ensures_perform_bind.mpr ⟨trivial, fun _ w₂ hset => ?_⟩
        obtain ⟨old, hold, hpending⟩ := exec_useMutContext hset
        rw [h₁.heap, hheap] at hold
        cases hold
        have hhandled : execution.HandledAs
            (execution.useMutContext (.setPending (.ofPartialUser user))) (some false) :=
          ⟨rfl, rfl, rfl, rfl, rfl⟩
        cases password with
        | none => exact ⟨trivial, _, hpending, hhandled⟩
        | some reference =>
            simp only
            rw [run_lift_bind]
            refine ensures_readOnly_bind looks_lookupStage.readOnly (fun _ _ => trivial)
              fun stage w₃ h₃ => ?_
            rw [← h₃.heap] at hpending
            split
            next =>
              apply (leaving_handlePasswordStage hpending).mono
              intro result after _ hresult
              cases result with
              | error error => trivial
              | ok value =>
                  obtain ⟨later, hlater, hpassword⟩ := hresult
                  exact ⟨later, hlater, hhandled.trans hpassword⟩
            next => exact ⟨trivial, fun res => res.elim⟩

/-- A stage that has been looked up is the one of the frozen storage. -/
theorem ensures_lookupStage_bind {α : Type} {reference : DataRef StageQuery}
    {f : Stage → Task (sig X) α} {post : α → World X → Prop} (hheap : w.heap[e]? = some execution)
    (hrest : ∀ stage w', w.Alike w' →
      execution.context.storage.stage.findOptional reference = some (some stage) →
        (server X).Ensures who (fun _ => True) (f stage) post w') :
    (server X).Ensures who (fun _ => True) (lookupStage X e reference >>= f) post w := by
  refine ⟨trivial, fun _ w₁ hlock =>
    ⟨trivial, fun stage w₂ hfrozen => ⟨trivial, fun _ w₃ hunlock => ?_⟩⟩⟩
  have h₁ := (exec_step hlock).alike rfl
  have h₂ := h₁.trans ((exec_step hfrozen).alike rfl)
  obtain ⟨found, hfound, hanswer⟩ := exec_frozenStage hfrozen
  rw [h₁.heap, hheap] at hfound
  cases hfound
  cases stage with
  | none => exact ⟨trivial, fun res => res.elim⟩
  | some stage => exact hrest stage w₃ (h₂.trans ((exec_step hunlock).alike rfl)) hanswer

/-- An accepted submission to an open execution. -/
theorem leaving_handleSubmission (hheap : w.heap[e]? = some execution)
    (hopen : execution.isCompleted = false) :
    Leaving who e execution execution.pendingBehind (handleSubmission X form e) w := by
  unfold Leaving handleSubmission
  rw [run_lift_bind]
  refine ensures_perform_bind.mpr ⟨trivial, fun completed w₁ hasked => ?_⟩
  obtain ⟨found, hfound, rfl⟩ := exec_isCompleted hasked
  rw [hheap] at hfound
  cases hfound
  replace hheap : w₁.heap[e]? = some execution := by rw [((exec_step hasked).alike rfl).heap, hheap]
  simp only [hopen, Bool.false_eq_true, ↓reduceIte]
  rw [run_lift_bind]
  refine ensures_perform_bind.mpr ⟨trivial, fun current w₂ hcurrent => ?_⟩
  obtain ⟨found, hfound, hindex, hentry⟩ := exec_getEntry hcurrent
  rw [hheap] at hfound
  cases hfound
  replace hheap : w₂.heap[e]? = some execution := by
    rw [((exec_step hcurrent).alike rfl).heap, hheap]
  rw [run_lift_bind]
  refine ensures_lookupStage_bind hheap fun stage w₃ halike hfound => ?_
  replace hheap : w₃.heap[e]? = some execution := by rw [halike.heap, hheap]
  have hstage : execution.plan.stageAt execution.currentEntryIdx = some stage := by
    simp [Plan.stageAt, FlowExecution.plan, hindex, hentry, hfound]
  have hkept : execution.HandledAs execution execution.pendingAuthenticated :=
    ⟨rfl, rfl, rfl, rfl, rfl⟩
  unfold FlowExecution.pendingBehind
  rw [hstage, Option.map_some]
  unfold handleStage
  -- the stages that the server passes by itself accept any submission
  cases stage.kind with
  | identification password userFields => exact leaving_handleIdentification hheap
  | password backends => exact leaving_handlePasswordStage hheap
  | deny | prompt | userLogin | userLogout | userWrite | consent =>
      exact ⟨trivial, execution, hheap, hkept⟩

end Submission

section Turn

variable {who : Nat} {allowed : Event (sig X) → Prop} {drops : Prop} {request : Request X}
  {session : Session} {e : ExecId} {execution : FlowExecution} {w : World X} {α : Type}

theorem continued_of_heap (hheap : w.heap[e]? = some execution)
    (hcontinuable : execution.Continuable) : Continued e w := by
  intro found hfound
  rw [hheap] at hfound
  cases hfound
  exact hcontinuable

/-- A stage that the frozen storage has is looked up without a trace. -/
theorem rests_lookupStage {reference : DataRef StageQuery} {stage : Stage}
    {f : Stage → Task (sig X) α} {post : α → World X → Prop} (hheap : w.heap[e]? = some execution)
    (hfound : execution.context.storage.stage.findOptional reference = some (some stage))
    (hdropped : drops → Continued e w) (hrest : Rests who allowed drops e (f stage) post w) :
    Rests who allowed drops e (lookupStage X e reference >>= f) post w := by
  let locked : World X := { w with readers := (who, e) :: w.readers }
  have hfrozen : ∀ choice, exec X who (.frozenStage e reference) choice locked =
      some (some stage, locked) := by
    simp [exec, locked, hheap, hfound]
  have hunlock : ∀ choice, exec X who (.unlockContext e) choice locked = some ((), w) := by
    simp [exec, locked]
  refine settles_perform_bind hdropped (fun _ => rfl) ?_
  refine settles_perform_bind hdropped hfrozen ?_
  exact settles_perform_bind hdropped hunlock hrest

/-- The start of a turn: the open execution is found at its stage. -/
theorem rests_completeTurn {exhausted : Bool} {entry : FlowEntry} {stage : Stage}
    {post : Except ApiErrorKind LoopControl → World X → Prop}
    (hturn : AtTurn who request e execution w) (hopen : execution.isCompleted = false)
    (hentry : execution.flow.entries[execution.currentEntryIdx]? = some entry)
    (hstage : execution.plan.stageAt execution.currentEntryIdx = some stage)
    (hdropped : drops → Continued e w)
    (hrest : Rests who allowed drops e
      (if stage.kind.requiresInput then pure .leave
      else if exhausted then pure .leave
      else
        match stage.kind with
        | .userLogin => userLogin X request session e entry
        | .userLogout => ExceptT.lift (panic "not yet implemented")
        | .userWrite => ExceptT.lift (panic "not yet implemented")
        | _ => ExceptT.lift (panic "Encountered client side stage") : Handler X LoopControl).run
      post w) :
    Rests who allowed drops e (completeTurn X request session e exhausted).run post w := by
  have hasked : ∀ choice, exec X who (.isCompleted e) choice w = some (false, w) := by
    simp [exec, hturn.heap, hopen]
  have hcurrent : ∀ choice, exec X who (.getEntry e) choice w =
      some ((execution.currentEntryIdx, entry), w) := by
    simp [exec, hturn.heap, FlowExecution.getEntry, hentry]
  have hfound : execution.context.storage.stage.findOptional entry.stage = some (some stage) := by
    simpa [Plan.stageAt, FlowExecution.plan, hentry, Option.join_eq_some_iff] using hstage
  unfold completeTurn
  rw [run_lift_bind]
  refine settles_perform_bind hdropped hasked ?_
  simp only [Bool.false_eq_true, ↓reduceIte]
  rw [run_lift_bind]
  refine settles_perform_bind hdropped hcurrent ?_
  rw [run_lift_bind]
  exact rests_lookupStage hturn.heap hfound hdropped hrest

/-- The statements of a login are prepared and executed when they do not fail. -/
theorem rests_prepareCached_bind {f : Unit → Handler X α}
    {post : Except ApiErrorKind α → World X → Prop}
    (hsucceeds : ∀ event, allowed event → failsLogin event = false) (hkept : ¬ drops)
    (hrest : Rests who allowed drops e (f ()).run post w) :
    Rests who allowed drops e
      (await (op (.prepareCached "update sessions set user_id = $1 where uid = $2")) >>= f).run
      post w := by
  rw [run_mk_bind]
  refine ⟨fun hdrops => absurd hdrops hkept, ?_, fun res after hexec hallowed => ?_⟩
  · rintro ⟨choice, hpanicked⟩
    cases hpanicked
  · obtain ⟨choice, hexec⟩ := hexec
    cases hexec
    cases choice with
    | fail conflict => cases hsucceeds _ hallowed
    | normal | key text => exact hrest

theorem rests_updateSession_bind {uid : Uuid} {sid : String} {f : Unit → Handler X α}
    {post : Except ApiErrorKind α → World X → Prop}
    (hsucceeds : ∀ event, allowed event → failsLogin event = false) (hkept : ¬ drops)
    (hrest : Rests who allowed drops e (f ()).run post { w with
      transactions := Function.update w.transactions who (w.transactions who ++ [(uid, sid)]) }) :
    Rests who allowed drops e (await (op (.updateSession uid sid)) >>= f).run post w := by
  rw [run_mk_bind]
  refine ⟨fun hdrops => absurd hdrops hkept, ?_, fun res after hexec hallowed => ?_⟩
  · rintro ⟨choice, hpanicked⟩
    cases choice with
    | normal | fail conflict | key text => cases hpanicked
  · obtain ⟨choice, hexec⟩ := hexec
    cases choice with
    | fail conflict =>
        cases hexec
        cases hsucceeds _ hallowed
    | normal | key text =>
        cases hexec
        exact hrest

/-- With an authenticated user the login goes through, and the turn proceeds. -/
theorem rests_userLogin {entry : FlowEntry} (htokens : TokensRoundTrip X)
    (hencodes : EncodesTokens X)
    (hsucceeds : ∀ event, allowed event → failsLogin event = false)
    (hturn : AtTurn who request e execution w)
    (hauthenticated : execution.pendingAuthenticated = some true) (hkept : ¬ drops) :
    Rests who allowed drops e (userLogin X request session e entry).run
      (fun result after => result = .ok .proceed ∧ AtTurn who request e execution after) w := by
  obtain ⟨user, hpending, hauthenticated⟩ := Option.map_eq_some_iff.mp hauthenticated
  obtain ⟨presented, claims, hpresented, hdecoded⟩ := hturn.cookie
  have hissuer : claims.iss = "authust" := htokens.issuer hdecoded
  obtain ⟨token, hencoded⟩ := hencodes (loginClaims claims user) hissuer
  have hdropped : ∀ {w : World X}, drops → Continued e w := fun hdrops => absurd hdrops hkept
  have hread : ∀ choice, exec X who (.readContext e) choice w = some (execution.context, w) := by
    simp [exec, hturn.heap]
  have hcookie : Rests who allowed drops e (getSessionCookie X request)
      (fun cookie after => cookie = some presented ∧ after = w) w := by
    unfold getSessionCookie
    refine settles_perform_bind hdropped (fun _ => rfl) ?_
    cases hadded : w.cookies who with
    | none => exact ⟨hdropped, by simpa [hadded] using hpresented, rfl⟩
    | some added => exact ⟨hdropped, by simpa [hadded] using hpresented, rfl⟩
  unfold userLogin
  rw [run_lift_bind]
  refine settles_perform_bind hdropped hread ?_
  simp only [hpending, hauthenticated, ↓reduceIte]
  rw [run_lift_bind, settles_bind]
  refine hcookie.mono ?_
  rintro cookie after _ ⟨rfl, rfl⟩
  simp only [hdecoded, setSessionCookie, hencoded]
  rw [run_lift_bind]
  refine settles_perform_bind hdropped (fun _ => rfl) ?_
  refine rests_prepareCached_bind hsucceeds hkept
    (rests_updateSession_bind hsucceeds hkept ⟨hdropped, rfl, ?_⟩)
  exact ⟨hturn.heap, hturn.formed, hturn.readers, token, loginClaims claims user, by simp,
    htokens.loginClaims hdecoded hencoded⟩

/-- Without one the error of the execution is set. -/
theorem rests_userLogin_denied {entry : FlowEntry} (hturn : AtTurn who request e execution w)
    (hdenied : execution.pendingAuthenticated = some false) (hkept : ¬ drops) :
    Rests who allowed drops e (userLogin X request session e entry).run
      (fun result after => result = .ok .leave ∧ Continued e after) w := by
  obtain ⟨user, hpending, hauthenticated⟩ := Option.map_eq_some_iff.mp hdenied
  have hdropped : ∀ {w : World X}, drops → Continued e w := fun hdrops => absurd hdrops hkept
  have hread : ∀ choice, exec X who (.readContext e) choice w = some (execution.context, w) := by
    simp [exec, hturn.heap]
  let error : ExecutionError :=
    { stage := some entry.stage, message := "Authentication of pending user failed" }
  have hset : ∀ choice, exec X who (.useMutContext e (.setError error)) choice w = some ((),
      w.modifyExecution e fun execution => execution.useMutContext (.setError error)) := by
    simp [exec, World.readLocked, hturn.readers, hturn.heap]
  unfold userLogin
  rw [run_lift_bind]
  refine settles_perform_bind hdropped hread ?_
  simp only [hpending, hauthenticated, Bool.false_eq_true, ↓reduceIte]
  rw [run_lift_bind]
  have herror : (execution.useMutContext (.setError error)).Continuable := Or.inr (Or.inl rfl)
  refine settles_perform_bind hdropped hset ⟨hdropped, rfl, continued_of_heap ?_ herror⟩
  simp [World.modifyExecution, hturn.heap]

end Turn

section Loop

variable {who : Nat} {allowed : Event (sig X) → Prop} {drops : Prop} {request : Request X}
  {session : Session} {e : ExecId} {execution : FlowExecution} {w : World X} {left : Nat}

/-- The loop is left at a turn that does not proceed. -/
theorem rests_completeLoop_leave
    (hturn : ∀ exhausted, (exhausted = true → left = 0) →
      Rests who allowed drops e (completeTurn X request session e exhausted).run
        (fun result after => result = .ok .leave ∧ Continued e after) w) :
    Rests who allowed drops e (completeLoop X request session e left).run
      (fun _ after => Continued e after) w := by
  cases left with
  | zero =>
      rw [completeLoop, Task.run_bind]
      refine settles_bind.mpr ((hturn true fun _ => rfl).mono ?_)
      rintro result after hdropped ⟨rfl, hcontinued⟩
      exact ⟨hdropped, hcontinued⟩
  | succ left =>
      rw [completeLoop, Task.run_bind]
      refine settles_bind.mpr ((hturn false fun hexhausted => by cases hexhausted).mono ?_)
      rintro result after hdropped ⟨rfl, hcontinued⟩
      exact ⟨hdropped, hcontinued⟩

/-- And goes on with the next entry behind one that does. -/
theorem rests_completeLoop_proceed
    (hturn : Rests who allowed drops e (completeTurn X request session e false).run
      (fun result after => result = .ok .proceed ∧
        Rests who allowed drops e (op (.completeCurrent e) >>= fun _ =>
          (completeLoop X request session e left).run) (fun _ after => Continued e after) after)
            w) :
    Rests who allowed drops e (completeLoop X request session e (left + 1)).run
      (fun _ after => Continued e after) w := by
  rw [completeLoop, Task.run_bind]
  refine settles_bind.mpr (hturn.mono ?_)
  rintro result after _ ⟨rfl, hrest⟩
  simp only [run_lift_bind]
  exact hrest

/-- An execution at an entry where the flow waits can be continued. -/
theorem FlowExecution.WellFormed.continuable (hformed : execution.WellFormed)
    (hinput : execution.plan.InputAt execution.currentEntryIdx) : execution.Continuable := by
  rcases hinput with hend | hstage
  · exact absurd hend (Nat.ne_of_lt hformed.index)
  · exact Or.inr (Or.inr hstage)

/-- Where the execution is completed or its stage requires input, the loop is left at once. -/
theorem rests_completeLoop_input (hturn : AtTurn who request e execution w)
    (hrests : execution.isCompleted = true ∨ execution.plan.InputAt execution.currentEntryIdx) :
    Rests who allowed drops e (completeLoop X request session e left).run
      (fun _ after => Continued e after) w := by
  have hcontinued : Continued e w :=
    continued_of_heap hturn.heap (hrests.elim Or.inl hturn.formed.continuable)
  apply rests_completeLoop_leave
  intro exhausted _
  cases hcompleted : execution.isCompleted with
  | true =>
      have hasked : ∀ choice, exec X who (.isCompleted e) choice w = some (true, w) := by
        simp [exec, hturn.heap, hcompleted]
      unfold completeTurn
      rw [run_lift_bind]
      exact settles_perform_bind (fun _ => hcontinued) hasked ⟨fun _ => hcontinued, rfl, hcontinued⟩
  | false =>
      rw [hcompleted] at hrests
      obtain hend | ⟨stage, hstage, hinput⟩ := hrests.resolve_left Bool.false_ne_true
      · exact absurd hend (Nat.ne_of_lt hturn.formed.index)
      · obtain ⟨entry, hentry, _⟩ := Option.bind_eq_some_iff.mp hstage
        refine rests_completeTurn hturn hcompleted hentry hstage (fun _ => hcontinued) ?_
        simp only [hinput, ↓reduceIte]
        exact ⟨fun _ => hcontinued, rfl, hcontinued⟩

/-- A login that is denied ends the loop with the error of the execution. -/
theorem rests_completeLoop_denied (hturn : AtTurn who request e execution w)
    (hopen : execution.isCompleted = false)
    (hlogin : execution.plan.LoginAt execution.currentEntryIdx)
    (hdenied : execution.pendingAuthenticated = some false) (hkept : ¬ drops) :
    Rests who allowed drops e (completeLoop X request session e (left + 1)).run
      (fun _ after => Continued e after) w := by
  obtain ⟨stage, hstage, hkind⟩ := hlogin
  obtain ⟨entry, hentry, _⟩ := Option.bind_eq_some_iff.mp hstage
  apply rests_completeLoop_leave
  intro exhausted hexhausted
  obtain rfl : exhausted = false := by
    cases exhausted with
    | true => cases hexhausted rfl
    | false => rfl
  refine rests_completeTurn hturn hopen hentry hstage (fun hdrops => absurd hdrops hkept) ?_
  simp only [hkind, StageKind.requiresInput, Bool.false_eq_true, ↓reduceIte]
  exact rests_userLogin_denied hturn hdenied hkept

/-- What `complete_current` does where the logins end behind the current entry. -/
theorem FlowExecution.loginsEnd_completeCurrent
    (hlogins : execution.plan.LoginsEnd left (execution.currentEntryIdx + 1)) :
    execution.completeCurrent.isCompleted = true ∨
      execution.completeCurrent.plan.LoginsEnd left execution.completeCurrent.currentEntryIdx := by
  cases hcompleted : execution.completeCurrent.isCompleted with
  | true => exact Or.inl rfl
  | false =>
      rw [completeCurrent_index_eq hcompleted, completeCurrent_plan]
      exact Or.inr hlogins

@[simp] theorem FlowExecution.completeCurrent_pendingAuthenticated (execution : FlowExecution) :
    execution.completeCurrent.pendingAuthenticated = execution.pendingAuthenticated := by
  rw [pendingAuthenticated, completeCurrent_context, pendingAuthenticated]

theorem AtTurn.completeCurrent (hturn : AtTurn who request e execution w) :
    AtTurn who request e execution.completeCurrent
      (w.modifyExecution e FlowExecution.completeCurrent) where
  heap := by simp [World.modifyExecution, hturn.heap]
  formed := hturn.formed.completeCurrent
  readers := hturn.readers
  cookie := hturn.cookie

/-- Logins that end within the limit of the loop all go through. -/
theorem rests_completeLoop (htokens : TokensRoundTrip X) (hencodes : EncodesTokens X)
    (hsucceeds : ∀ event, allowed event → failsLogin event = false)
    (hturn : AtTurn who request e execution w)
    (hauthenticated : execution.pendingAuthenticated = some true)
    (hrests : execution.isCompleted = true ∨
      execution.plan.LoginsEnd left execution.currentEntryIdx) (hkept : ¬ drops) :
    Rests who allowed drops e (completeLoop X request session e left).run
      (fun _ after => Continued e after) w := by
  -- every login takes one of the turns that are left, and leaves the user as authenticated
  induction left generalizing execution w with
  | zero => exact rests_completeLoop_input hturn hrests
  | succ left ih =>
      cases hcompleted : execution.isCompleted with
      | true => exact rests_completeLoop_input hturn (Or.inl hcompleted)
      | false =>
          rw [hcompleted] at hrests
          rcases hrests.resolve_left Bool.false_ne_true with hinput | ⟨hlogin, hlogins⟩
          · exact rests_completeLoop_input hturn (Or.inr hinput)
          obtain ⟨stage, hstage, hkind⟩ := hlogin
          obtain ⟨entry, hentry, _⟩ := Option.bind_eq_some_iff.mp hstage
          have hdropped : ∀ {w : World X}, drops → Continued e w :=
            fun hdrops => absurd hdrops hkept
          refine rests_completeLoop_proceed
            (rests_completeTurn hturn hcompleted hentry hstage hdropped ?_)
          simp only [hkind, StageKind.requiresInput, Bool.false_eq_true, ↓reduceIte]
          refine (rests_userLogin htokens hencodes hsucceeds hturn hauthenticated hkept).mono ?_
          rintro result after _ ⟨rfl, hturn⟩
          refine ⟨rfl, ?_⟩
          have hexec : ∀ choice, exec X who (.completeCurrent e) choice after =
              some ((), after.modifyExecution e FlowExecution.completeCurrent) := by
            simp [exec, hturn.heap]
          exact settles_perform_bind hdropped hexec (ih hturn.completeCurrent
            (by simpa using hauthenticated) (FlowExecution.loginsEnd_completeCurrent hlogins))

/-- The commit behind the loop leaves the executions alone, whether it fails or not. -/
theorem rests_committed (hloop : Rests who allowed drops e (complete X request session e).run
      (fun _ after => Continued e after) w) :
    Rests who allowed drops e (do
      complete X request session e
      await (op .commit)
      pure (.redirect request.uri) : Handler X Response).run
        (fun _ after => Continued e after) w := by
  rw [Task.run_bind]
  refine settles_bind.mpr (hloop.mono fun result after _ hcontinued => ?_)
  cases result with
  | error error => exact ⟨fun _ => hcontinued, hcontinued⟩
  | ok value =>
      refine Ensures.settles ⟨hcontinued, fun res later hexec => ?_⟩
      have hlater : Continued e later := by
        unfold Continued
        rw [(exec_step hexec).heap_eq rfl]
        exact hcontinued
      cases res with
      | ok value | error error => exact ⟨hlater, hlater⟩

end Loop

end Authust
