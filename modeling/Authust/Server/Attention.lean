import Authust.Server.Grounding

/-! # What a request attends to

A request that presents a session asks for the row of that session and for the execution filed
under one key, and takes up the tree of a policy that it has just been answered. It asks for
nothing else that others may change, unless the session has no row or the cache no execution.
-/

namespace Authust

open Coop Coop.Task

variable {X : Externals}

/-- The operations that find a session or an execution, and those that compile a tree. -/
def Op.strays : Op X → Bool
  | .querySession _ | .sampleSessionKey | .insertSession _ | .cachedExecution _
  | .insertExecution _ | .now | .liveFlow _ | .liveStage _ | .livePrompt _
  | .optionallyGetWith _ _ => true
  | _ => false

/-- The session has turned out to have no row, or the cache to hold nothing under the key. -/
def Astray (key : FlowKey) (history : History X) : Prop :=
  ⟨.querySession key.session, .ok none⟩ ∈ history ∨ ⟨.cachedExecution key, none⟩ ∈ history

/-- Why a request that presents the session of a key issues an operation. -/
inductive Attentive (key : FlowKey) (history : History X) : Op X → Prop
  | plain {op : Op X} (hplain : op.strays = false) : Attentive key history op
  | row : Attentive key history (.querySession key.session)
  | cached : Attentive key history (.cachedExecution key)
  | tree {uid : Int} {live : Policy}
      (hlive : ⟨.livePolicy (.uid uid), some live⟩ ∈ history) :
      Attentive key history (.optionallyGetWith live.uid (compilePolicy X live))
  | astray {op : Op X} (hastray : Astray key history) : Attentive key history op

abbrev Attending {α : Type} (key : FlowKey) (task : Task (sig X) α) (history : History X) : Prop :=
  @Obeys (sig X) α (Attentive key) (fun _ _ => True) task history

abbrev Straight {α : Type} (task : Task (sig X) α) : Prop :=
  @Avoids (sig X) α (fun op => op.strays = true) task

section Straight

variable {α : Type} {e : ExecId} {request : Request X} {form : Value} {session : Session}
  {context : CheckContext} {host : String}

theorem straight_panic {message : String} : Straight (panic message : Task (sig X) α) :=
  avoids_perform_bind rfl fun res => res.elim

theorem straight_lift {task : Task (sig X) α} (htask : Straight task) :
    Straight (ExceptT.lift task : Handler X α).run := by
  rw [run_lift]
  exact htask.bind fun _ => avoids_done

theorem Asking.straight {task : Task (sig X) α} (hasking : Asking task) : Straight task := by
  apply hasking.mono
  intro op hop
  cases op with
  | prepareCached | queryUser => cases hop
  | _ => rfl

theorem straight_lookupStage {reference : DataRef StageQuery} :
    Straight (lookupStage X e reference) := by
  apply avoids_perform_bind rfl
  intro _
  apply avoids_perform_bind rfl
  intro stage
  apply avoids_perform_bind rfl
  intro _
  cases stage with
  | none => exact straight_panic
  | some stage => exact avoids_done

theorem straight_lookupPolicy {reference : DataRef PolicyQuery} :
    Straight (lookupPolicy X e reference) := by
  apply avoids_perform_bind rfl
  intro _
  apply avoids_perform_bind rfl
  intro policy
  apply avoids_perform_bind rfl
  intro _
  cases policy with
  | none => exact straight_panic
  | some policy => exact avoids_done

theorem straight_checkContext : Straight (checkContext X request host session e).run := by
  apply Avoids.run_bind asking_getUser.straight
  intro user
  exact straight_lift (avoids_perform_bind rfl fun _ => avoids_done)

/-- Up to its check a POST finds nothing but its user. -/
theorem straight_openPost : Straight (openPost X request host session e).run := by
  apply Avoids.run_bind (avoids_perform rfl)
  intro _
  apply Avoids.run_bind (avoids_perform rfl)
  intro _
  exact straight_checkContext

theorem straight_asComponent {stage : Stage} : Straight (asComponent X stage e) := by
  unfold asComponent
  cases stage.kind with
  | deny | password | userLogin | userLogout | userWrite => exact avoids_done
  | prompt | consent => exact straight_panic
  | identification password fields =>
      cases password with
      | none => exact avoids_done
      | some reference => exact straight_lookupStage.bind fun _ => avoids_done

theorem straight_currentComponent {stage : Stage} : Straight (currentComponent X e stage) := by
  apply avoids_perform_bind rfl
  intro _
  apply avoids_perform_bind rfl
  intro context
  cases context.error with
  | some error => exact avoids_perform_bind rfl fun _ => avoids_done
  | none =>
      apply straight_asComponent.bind
      intro component
      apply avoids_perform_bind rfl
      intro _
      cases component with
      | none => exact avoids_done
      | some component => exact avoids_done

theorem straight_completedComponent : Straight (completedComponent X e context) := by
  unfold completedComponent
  cases context.request.next with
  | none => exact avoids_done
  | some target =>
      exact avoids_perform_bind rfl fun _ => avoids_perform_bind rfl fun _ => avoids_done

theorem straight_handlePasswordStage {backends : List PasswordBackend} :
    Straight (handlePasswordStage X form e backends).run := by
  apply avoids_lift_perform_bind rfl
  intro context
  split
  next => exact avoids_done
  next =>
    split
    next => exact avoids_done
    next =>
      split
      next =>
        apply Avoids.run_bind (avoids_perform rfl)
        intro _
        apply Avoids.run_bind (avoids_perform rfl)
        intro stored
        cases stored with
        | none => exact avoids_done
        | some stored =>
            simp only
            split
            next => exact avoids_done
            next =>
              apply avoids_lift_perform_bind rfl
              intro result
              split
              next => exact avoids_lift_perform_bind rfl fun _ => avoids_done
              next => exact avoids_done
              next => exact avoids_done
      next => exact avoids_done

theorem straight_handleIdentification {password : Option (DataRef StageQuery)}
    {userFields : List UserField} :
    Straight (handleIdentification X form e password userFields).run := by
  unfold handleIdentification
  split
  next => exact avoids_done
  next =>
    apply Avoids.run_bind asking_lookupUser.straight
    intro found
    cases found with
    | none => exact avoids_done
    | some user =>
        apply avoids_lift_perform_bind rfl
        intro _
        cases password with
        | none => exact avoids_done
        | some reference =>
            apply Avoids.run_bind (straight_lift straight_lookupStage)
            intro stage
            split
            next => exact straight_handlePasswordStage
            next => exact straight_lift straight_panic

/-- A stage finds what it needs by the execution and the users. -/
theorem straight_handleStage {stage : Stage} : Straight (handleStage X form e stage).run := by
  unfold handleStage
  cases stage.kind with
  | deny | prompt | userLogin | userLogout | userWrite | consent => exact avoids_done
  | identification => exact straight_handleIdentification
  | password => exact straight_handlePasswordStage

theorem straight_handleSubmission : Straight (handleSubmission X form e).run := by
  apply avoids_lift_perform_bind rfl
  intro completed
  cases completed with
  | true => exact avoids_done
  | false =>
      apply avoids_lift_perform_bind rfl
      intro entry
      apply Avoids.run_bind (straight_lift straight_lookupStage)
      intro stage
      exact straight_handleStage

theorem straight_userLogin {entry : FlowEntry} :
    Straight (userLogin X request session e entry).run := by
  apply avoids_lift_perform_bind rfl
  intro context
  split
  next => exact avoids_done
  next user _ =>
    split
    next =>
      apply Avoids.run_bind
      · apply straight_lift
        apply avoids_perform_bind rfl
        intro added
        cases added <;> exact avoids_done
      intro cookie
      split
      next => exact avoids_done
      next =>
        split
        next => exact avoids_done
        next =>
          apply Avoids.run_bind
          · unfold setSessionCookie
            split
            next => exact avoids_done
            next => exact avoids_lift_perform_bind rfl fun _ => avoids_done
          intro _
          apply Avoids.run_bind (avoids_perform rfl)
          intro _
          exact Avoids.run_bind (avoids_perform rfl) fun _ => avoids_done
    next => exact avoids_lift_perform_bind rfl fun _ => avoids_done

theorem straight_completeTurn {exhausted : Bool} :
    Straight (completeTurn X request session e exhausted).run := by
  apply avoids_lift_perform_bind rfl
  intro completed
  cases completed with
  | true => exact avoids_done
  | false =>
      apply avoids_lift_perform_bind rfl
      intro entry
      apply Avoids.run_bind (straight_lift straight_lookupStage)
      intro stage
      split
      next => exact avoids_done
      next =>
        split
        next => exact avoids_done
        next =>
          split
          next => exact straight_userLogin
          next => exact straight_lift straight_panic
          next => exact straight_lift straight_panic
          next => exact straight_lift straight_panic

/-- The completion loop stays with its execution, however many turns are left. -/
theorem straight_completeLoop {left : Nat} :
    Straight (completeLoop X request session e left).run := by
  induction left with
  | zero => exact Avoids.run_bind straight_completeTurn fun _ => avoids_done
  | succ left ih =>
      apply Avoids.run_bind straight_completeTurn
      intro control
      cases control with
      | leave => exact avoids_done
      | proceed => exact avoids_lift_perform_bind rfl fun _ => ih

end Straight

section Attending

variable {α β : Type} {key : FlowKey} {history : History X} {e : ExecId} {context : CheckContext}
  {request : Request X} {form : Value} {session : Session} {host : String} {claims : Claims}

theorem Astray.append (hastray : Astray key history) (more : History X) :
    Astray key (history ++ more) :=
  hastray.imp (List.mem_append_left more) (List.mem_append_left more)

/-- A request that has gone astray may do anything. -/
theorem obeys_astray {task : Task (sig X) α} (hastray : Astray key history) :
    @Obeys (sig X) α (Attentive key) (fun past _ => Astray key past) task history := by
  induction task generalizing history with
  | done value => exact hastray
  | call op next ih => exact ⟨.astray hastray, fun res => ih res (hastray.append _)⟩

theorem attending_astray {task : Task (sig X) α} (hastray : Astray key history) :
    Attending key task history :=
  (obeys_astray hastray).mono (fun _ _ hrule => hrule) fun _ _ _ => trivial

theorem Straight.attending {task : Task (sig X) α} (hstraight : Straight task) :
    Attending key task history :=
  hstraight.obeys (fun _ _ hop => .plain (by simpa using hop)) history

theorem attending_bind {task : Task (sig X) α} {f : α → Task (sig X) β}
    (htask : ∀ history, Attending key task history)
    (hrest : ∀ value history, Attending key (f value) history) :
    Attending key (task >>= f) history :=
  (htask history).bind fun _ value _ => hrest value _

theorem attending_run_bind {task : Handler X α} {f : α → Handler X β}
    (htask : ∀ history, Attending key task.run history)
    (hrest : ∀ value history, Attending key (f value).run history) :
    Attending key (task >>= f).run history :=
  (htask history).run_bind fun _ value _ => hrest value _

theorem attending_lift {task : Task (sig X) α} (htask : ∀ history, Attending key task history) :
    Attending key (ExceptT.lift task : Handler X α).run history := by
  rw [run_lift]
  exact attending_bind htask fun _ _ => trivial

/-- The tree of a policy is taken up by its own uid, for what the policy was just found to be. -/
theorem attending_getAst {uid : Int} : Attending key (getAst X (.uid uid)) history := by
  refine ⟨.plain rfl, fun found => ?_⟩
  cases found with
  | none => trivial
  | some live => exact ⟨.tree (List.mem_append_right _ List.mem_cons_self), fun _ => trivial⟩

theorem attending_checkPolicy {policy : Policy} :
    Attending key (checkPolicy X context policy) history := by
  unfold checkPolicy
  cases policy.kind with
  | passwordExpiry maxAge =>
      refine ⟨.plain rfl, fun inner => ?_⟩
      cases context.request.user <;> trivial
  | passwordStrength => trivial
  | expression source =>
      apply attending_bind fun _ => attending_getAst
      intro tree history
      cases tree with
      | none => trivial
      | some ast =>
          simp only
          split <;> trivial

theorem attending_flowCheck {flowCheck : FlowCheck} :
    Attending key (flowCheck.check X context) history := by
  cases flowCheck with
  | authentication | isUser => trivial
  | policy reference =>
      apply attending_bind fun _ => straight_lookupPolicy.attending
      intro policy history
      exact attending_checkPolicy

theorem attending_checkBinding {binding : FlowBinding} :
    Attending key (checkBinding X binding context) history := by
  unfold checkBinding
  split
  next =>
    apply attending_bind
    · intro history
      cases binding.kind with
      | group => exact straight_panic.attending
      | user | policy => trivial
    intro flowCheck history
    apply attending_bind fun _ => attending_flowCheck
    intro output history
    simp only
    split <;> split <;> trivial
  next => trivial

theorem attending_checkBindings {bindings : List FlowBinding} :
    Attending key (checkBindings X context bindings) history := by
  induction bindings generalizing history with
  | nil => trivial
  | cons binding rest ih =>
      apply attending_bind fun _ => attending_checkBinding
      intro verdict history
      cases verdict with
      | some message => trivial
      | none => exact ih

/-- A check compiles no tree but those of the policies it has looked up. -/
theorem attending_check : Attending key (check X e context) history := by
  refine ⟨.plain rfl, fun flow => ?_⟩
  apply attending_bind fun _ => attending_flowCheck
  intro output history
  split
  next =>
    apply attending_bind fun _ => attending_checkBindings
    intro verdict history
    cases verdict with
    | some message => trivial
    | none => exact ⟨.plain rfl, fun entry => attending_checkBindings⟩
  next => trivial

/-- An answer is made of the execution it is for, and of what its check looks up. -/
theorem attending_data {error : Option SubmissionError} :
    Attending key (data X e error context) history := by
  refine ⟨.plain rfl, fun flow => ⟨.plain rfl, fun entry => ?_⟩⟩
  apply attending_bind fun _ => straight_lookupStage.attending
  intro stage history
  refine ⟨.plain rfl, fun completed => ?_⟩
  apply attending_bind fun _ => attending_check
  intro denied history
  split
  next => trivial
  next =>
    simp only
    split
    next =>
      apply attending_bind fun _ => straight_completedComponent.attending
      intro component history
      exact ⟨.plain rfl, fun inner => trivial⟩
    next =>
      apply attending_bind fun _ => straight_currentComponent.attending
      intro component history
      exact ⟨.plain rfl, fun inner => trivial⟩

theorem attending_shown {error : Option SubmissionError} :
    Attending key (do
      let shown ← ExceptT.lift (data X e error context)
      pure (.json shown) : Handler X Response).run history :=
  attending_run_bind (fun _ => attending_lift fun _ => attending_data) fun _ _ => trivial

/-- What a POST does behind its check attends to the key. -/
theorem attending_submit : Attending key (submit X request form session e context).run history := by
  apply attending_run_bind fun _ => attending_lift fun _ => straight_handleSubmission.attending
  intro result history
  rcases result with kind | value
  · cases kind with
    | submissionError error => exact attending_shown
    | axum | invalidLoginData | sessionCookieMissing | invalidSessionCookie | notFound
      | miscInternal | forbidden | conflict | missingMiddleware | pwHash | poolError
      | postgresError | jsonWebToken => trivial
  · refine ⟨.plain rfl, fun _ => ?_⟩
    apply attending_run_bind fun _ => straight_completeLoop.attending
    intro _ history
    refine ⟨.plain rfl, fun committed => ?_⟩
    cases committed <;> trivial

theorem attending_postExecution :
    Attending key (postExecution X request host form session e).run history := by
  apply attending_run_bind fun _ => straight_openPost.attending
  intro context history
  apply attending_run_bind fun _ => attending_lift fun _ => attending_check
  intro verdict history
  cases verdict with
  | some message => exact attending_shown
  | none => exact attending_submit

theorem attending_getExecutionData :
    Attending key (getExecutionData X request host session e).run history := by
  have hconnection : Straight (op .connection : Task (sig X) (DbResult Unit)) := avoids_perform rfl
  apply attending_run_bind fun _ => hconnection.attending
  intro _ history
  apply attending_run_bind fun _ => straight_checkContext.attending
  intro context history
  exact attending_shown

/-- A presented session is the one of the key, unless it has no row. -/
theorem attending_fromRequestParts (hsession : claims.sid = key.session) :
    @Obeys (sig X) _ (Attentive key) (fun past result => ∀ session, result = .ok session →
      session.sessionId = key.session ∨ Astray key past)
      (Session.fromRequestParts X (.valid claims)).run history := by
  have hfails : ∀ {past : History X} {kind : ApiErrorKind}, ∀ session : Session,
      (.error kind : Except ApiErrorKind Session) = .ok session →
        session.sessionId = key.session ∨ Astray key past := by
    intro past kind session hresult
    cases hresult
  refine ⟨.plain rfl, fun connected => ?_⟩
  rcases connected with kind | _
  · exact hfails
  refine ⟨.plain rfl, fun prepared => ?_⟩
  rcases prepared with kind | _
  · exact hfails
  refine ⟨hsession ▸ .row, fun row => ?_⟩
  rcases row with kind | _ | user
  · exact hfails
  · refine (obeys_astray ?_).mono (fun _ _ hrule => hrule) fun past _ hastray _ _ => Or.inr hastray
    rw [hsession]
    exact Or.inl (List.mem_append_right _ List.mem_cons_self)
  · intro session hresult
    cases hresult
    exact Or.inl hsession

/-- The execution is looked for under the key. -/
theorem attending_getExecution {startNew : Bool} :
    Attending key (getExecution X key startNew) history := by
  refine ⟨.cached, fun cached => ?_⟩
  cases cached with
  | some e => trivial
  | none => exact attending_astray (Or.inr (List.mem_append_right _ List.mem_cons_self))

/-- A GET that presents the session of the key attends to it. -/
theorem attending_getFlow (hsession : claims.sid = key.session)
    (hslug : key.flow = .slug request.flowSlug) :
    Attending key (getFlow X (.valid claims) request).run history := by
  apply Obeys.run_bind_post (attending_fromRequestParts hsession)
  · intro past session hpast
    rcases hpast session rfl with hsame | hastray
    · have hkey : (⟨session.sessionId, .slug request.flowSlug⟩ : FlowKey) = key := by
        rw [hsame, ← hslug]
      cases request.host with
      | none => trivial
      | some host =>
          simp only [getKey, hkey]
          apply attending_run_bind fun _ => attending_lift fun _ => attending_getExecution
          intro found history
          cases found with
          | none => trivial
          | some e => exact attending_getExecutionData
    · exact attending_astray hastray
  · intro past kind _
    trivial

/-- A POST does, too. -/
theorem attending_postFlow (hsession : claims.sid = key.session)
    (hslug : key.flow = .slug request.flowSlug) :
    Attending key (postFlow X (.valid claims) request).run history := by
  apply Obeys.run_bind_post (attending_fromRequestParts hsession)
  · intro past session hpast
    rcases hpast session rfl with hsame | hastray
    · have hkey : (⟨session.sessionId, .slug request.flowSlug⟩ : FlowKey) = key := by
        rw [hsame, ← hslug]
      cases request.host with
      | none => trivial
      | some host =>
          cases request.form with
          | none => trivial
          | some form =>
              simp only [getKey, hkey]
              apply attending_run_bind fun _ => attending_lift fun _ => attending_getExecution
              intro found history
              cases found with
              | none => trivial
              | some e => exact attending_postExecution
    · exact attending_astray hastray
  · intro past kind _
    trivial

/-- A call to the executor that presents the session of a key attends to the key. -/
theorem attentive_of_path {call : Call X} {op : Op X}
    {next : op.Res → Task (sig X) (Except ApiErrorKind Response)}
    (hrequest : call.request? = some request)
    (hcookie : ∃ token, request.cookie = some token ∧ X.decodeToken token = .ok claims)
    (hsession : claims.sid = key.session) (hslug : key.flow = .slug request.flowSlug)
    (hpath : Path (handle X call) history (@Coop.Task.call (sig X) _ op next)) :
    Attentive key history op := by
  obtain ⟨token, htoken, hdecoded⟩ := hcookie
  have hextension : handleAuth X request.cookie = .ok (.valid claims) := by
    rw [htoken, handleAuth, hdecoded]
    rfl
  have hhandle : Attending key (handle X call) [] := by
    cases call with
    | userInfo | admin => cases hrequest
    | getFlow other =>
        cases hrequest
        simp only [handle, Call.cookie, hextension]
        exact attending_getFlow hsession hslug
    | postFlow other =>
        cases hrequest
        simp only [handle, Call.cookie, hextension]
        exact attending_postFlow hsession hslug
  exact hhandle.allows hpath

end Attending

end Authust
