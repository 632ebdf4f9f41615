import Authust.Server.Endings

/-! # How a request drops an execution

Showing a completed execution takes it out of the cache, once the request says where to go
next. The answer is then a redirect to that place.
-/

namespace Authust

open Coop Coop.Task

variable {X : Externals}

/-- The request has taken an execution out of the cache. -/
def Drops (history : History X) : Prop :=
  ∃ key, (⟨.invalidateExecution key, ()⟩ : Event (sig X)) ∈ history

/-- The answer of a call is a redirect. -/
def Redirects (result : Except ApiErrorKind Response) : Prop :=
  ∃ shown target, result = .ok (.json shown) ∧ shown.component = .redirect target

def Op.drops : Op X → Bool
  | .invalidateExecution _ => true
  | _ => false

abbrev Dropless {α : Type} (task : Task (sig X) α) : Prop :=
  @Avoids (sig X) α (fun op => op.drops = true) task

/-- A part that drops nothing. -/
abbrev Undropping {α : Type} (task : Task (sig X) α) (history : History X) : Prop :=
  @Obeys (sig X) α (fun _ _ => True) (fun past _ => ¬ Drops past) task history

/-- A handler that has dropped an execution answers a redirect. -/
abbrev Revealing (task : Handler X Response) (history : History X) : Prop :=
  @Obeys (sig X) _ (fun _ _ => True) (fun past result => Drops past → Redirects result)
    task.run history

section Redirects

variable {α : Type} {history : History X} {e : ExecId} {context : CheckContext}
  {request : Request X} {session : Session} {form : Value} {extension : AuthExtension}

theorem undropped_nil : ¬ Drops ([] : History X) := by
  simp [Drops]

theorem undropped_snoc {event : Event (sig X)} (hundropped : ¬ Drops history)
    (hop : event.op.drops = false) : ¬ Drops (history ++ [event]) := by
  rintro ⟨key, hmem⟩
  rcases List.mem_append.mp hmem with hmem | hmem
  · exact hundropped ⟨key, hmem⟩
  · obtain rfl := List.mem_singleton.mp hmem
    cases hop

/-- Where nothing has been dropped so far, a part without such an operation leaves it at that. -/
theorem Dropless.undropping {task : Task (sig X) α} (hdropless : Dropless task)
    (hundropped : ¬ Drops history) : Undropping task history :=
  hdropless.obeys_while (fun _ _ _ _ => trivial)
    (fun _ _ _ hpast hop => undropped_snoc hpast (by simpa using hop)) hundropped

theorem ReadOnly.dropless {task : Task (sig X) α} (hreads : ReadOnly task) : Dropless task := by
  apply hreads.mono
  intro op hop
  cases op with
  | invalidateExecution key => rfl
  | _ => cases hop

theorem Opening.dropless {task : Task (sig X) α} (hopening : Opening task) : Dropless task := by
  apply hopening.mono
  intro op hop
  cases op with
  | invalidateExecution key => rfl
  | _ => cases hop

theorem Handling.dropless {task : Task (sig X) α} (hhandling : Handling task) : Dropless task := by
  apply hhandling.mono
  intro op hop
  cases op with
  | invalidateExecution key => rfl
  | _ => cases hop

theorem Looping.dropless {task : Task (sig X) α} (hlooping : Looping task) : Dropless task := by
  apply hlooping.mono
  intro op hop
  cases op with
  | invalidateExecution key => rfl
  | _ => cases hop

/-- Finding or starting an execution drops none. -/
theorem dropless_getExecution {key : FlowKey} {startNew : Bool} :
    Dropless (getExecution X key startNew) := by
  apply avoids_perform_bind rfl
  intro cached
  cases cached with
  | some found => exact avoids_done
  | none =>
      simp only
      split
      next =>
        apply avoids_perform_bind rfl
        intro flow
        cases flow with
        | none => exact avoids_done
        | some flow =>
            simp only
            split
            next => exact avoids_done
            next =>
              apply Avoids.bind recording_reverseLookupFlow.readOnly.dropless
              intro storage
              exact avoids_perform_bind rfl fun now => avoids_perform_bind rfl fun _ => avoids_done
      next => exact avoids_done

/-- Handling a submission drops none. -/
theorem dropless_handleSubmission : Dropless (handleSubmission X form e).run := by
  apply avoids_perform_bind rfl
  intro completed
  cases completed with
  | true => exact avoids_done
  | false =>
      apply avoids_perform_bind rfl
      intro entry
      apply Avoids.run_bind (looping_lift looks_lookupStage.readOnly).dropless
      intro stage
      exact handling_handleStage.dropless

/-- Only the component of a completed execution drops it, and it is a redirect. -/
theorem redirecting_data {error : Option SubmissionError} (hundropped : ¬ Drops history) :
    @Obeys (sig X) _ (fun _ _ => True)
      (fun past shown => Drops past → ∃ target, shown.component = .redirect target)
      (data X e error context) history := by
  refine obeys_perform_bind trivial fun flow => obeys_perform_bind trivial fun entry => ?_
  refine Obeys.bind_post (looks_lookupStage.readOnly.dropless.undropping ?_)
    fun past stage hpast => ?_
  · exact undropped_snoc (undropped_snoc hundropped rfl) rfl
  apply obeys_perform_bind trivial
  intro completed
  refine Obeys.bind_post (readOnly_check.dropless.undropping (undropped_snoc hpast rfl)) ?_
  intro past denied hpast
  split
  next => exact fun hdrops => absurd hdrops hpast
  next =>
    simp only
    split
    next =>
      refine @Obeys.bind_post _ _ _ _ (fun past component =>
        Drops past → ∃ target, component = FlowComponent.redirect target) _ _ _ _ ?_ ?_
      · unfold completedComponent
        split
        next target _ => exact ⟨trivial, fun key => ⟨trivial, fun _ _ => ⟨target, rfl⟩⟩⟩
        next => exact fun hdrops => absurd hdrops hpast
      · intro past component hredirect
        apply obeys_perform_bind trivial
        intro inner
        rintro ⟨key, hmem⟩
        exact hredirect ⟨key, by simpa using hmem⟩
    next =>
      refine Obeys.bind_post (readOnly_currentComponent.dropless.undropping hpast) ?_
      intro past component hpast
      exact obeys_perform_bind trivial fun inner hdrops => absurd hdrops (undropped_snoc hpast rfl)

/-- What drops nothing may come before the part that answers. -/
theorem revealing_bind {task : Handler X α} {f : α → Handler X Response} (htask : Dropless task.run)
    (hundropped : ¬ Drops history) (hrest : ∀ past value, ¬ Drops past → Revealing (f value) past) :
    Revealing (task >>= f) history := by
  refine Obeys.run_bind_post (htask.undropping hundropped) (fun past value => hrest past value) ?_
  exact fun past kind hpast hdrops => absurd hdrops hpast

theorem revealing_lift_bind {task : Task (sig X) α} {f : α → Handler X Response}
    (htask : Dropless task) (hundropped : ¬ Drops history)
    (hrest : ∀ past value, ¬ Drops past → Revealing (f value) past) :
    Revealing (ExceptT.lift task >>= f) history := by
  unfold Revealing
  rw [run_lift_bind]
  exact Obeys.bind_post (htask.undropping hundropped) hrest

theorem revealing_done {result : Except ApiErrorKind Response} (hundropped : ¬ Drops history) :
    Revealing (ExceptT.mk (done result) : Handler X Response) history :=
  fun hdrops => absurd hdrops hundropped

theorem revealing_data {error : Option SubmissionError} (hundropped : ¬ Drops history) :
    Revealing (do
      let shown ← ExceptT.lift (data X e error context)
      pure (.json shown)) history := by
  unfold Revealing
  rw [run_lift_bind]
  apply Obeys.bind_post (redirecting_data hundropped)
  intro past shown hredirect hdrops
  obtain ⟨target, htarget⟩ := hredirect hdrops
  exact ⟨shown, target, rfl, htarget⟩

/-- What a POST does behind its check drops an execution only in making its answer. -/
theorem revealing_submit (hundropped : ¬ Drops history) :
    Revealing (submit X request form session e context) history := by
  unfold submit
  apply revealing_lift_bind dropless_handleSubmission hundropped
  intro past result hpast
  split
  next error => exact revealing_data hpast
  next => exact revealing_done hpast
  next =>
    apply obeys_lift_perform_bind trivial
    intro _
    refine revealing_bind looping_completeLoop.dropless (undropped_snoc hpast rfl) ?_
    intro later _ hlater
    apply revealing_bind (avoids_perform rfl) hlater
    intro last _ hlast
    exact revealing_done hlast

theorem revealing_postFlow : Revealing (postFlow X extension request) [] := by
  apply revealing_bind opening_fromRequestParts.dropless undropped_nil
  intro past session hpast
  split
  next =>
    split
    next => exact revealing_done hpast
    next =>
      apply revealing_lift_bind dropless_getExecution hpast
      intro past found hpast
      cases found with
      | none => exact revealing_done hpast
      | some e =>
          apply revealing_bind readOnly_openPost.dropless hpast
          intro past context hpast
          apply revealing_lift_bind readOnly_check.dropless hpast
          intro past verdict hpast
          cases verdict with
          | some message => exact revealing_data hpast
          | none => exact revealing_submit hpast
  next => exact revealing_done hpast

theorem revealing_getFlow : Revealing (getFlow X extension request) [] := by
  apply revealing_bind opening_fromRequestParts.dropless undropped_nil
  intro past session hpast
  split
  next => exact revealing_done hpast
  next =>
    split
    next => exact revealing_done hpast
    next =>
      apply revealing_lift_bind dropless_getExecution hpast
      intro past found hpast
      cases found with
      | none => exact revealing_done hpast
      | some e =>
          apply revealing_bind (avoids_perform rfl) hpast
          intro past _ hpast
          apply revealing_bind readOnly_checkContext.dropless hpast
          intro past context hpast
          exact revealing_data hpast

/-- Whatever the call, an execution is dropped only for an answer that is a redirect. -/
theorem revealing_handle (call : Call X) : @Obeys (sig X) _ (fun _ _ => True)
    (fun past result => Drops past → Redirects result) (handle X call) [] := by
  unfold handle
  split
  next => exact fun hdrops => absurd hdrops undropped_nil
  next extension _ =>
    cases call with
    | getFlow request => exact revealing_getFlow
    | postFlow request => exact revealing_postFlow
    | userInfo cookie =>
        refine revealing_bind opening_fromRequestParts.dropless undropped_nil
          fun past session hpast => ?_
        apply revealing_bind (avoids_perform rfl) hpast
        intro past _ hpast
        apply revealing_bind readOnly_getUser.dropless hpast
        intro past user hpast
        exact revealing_done hpast
    | admin cookie =>
        refine revealing_bind ?_ undropped_nil fun past _ hpast => revealing_done hpast
        apply Avoids.run_bind opening_fromRequestParts.dropless
        intro session
        split <;> exact avoids_done

/-- A call that has dropped an execution from the cache answers a redirect. -/
theorem redirects_of_drops {call : Call X} {result : Except ApiErrorKind Response}
    (htrace : Trace (handle X call) history result) (hdrops : Drops history) : Redirects result :=
  (revealing_handle call).returns htrace hdrops

end Redirects

end Authust
