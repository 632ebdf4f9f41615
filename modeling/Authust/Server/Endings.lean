import Authust.Server.Histories

/-! # How a POST ends

Two operations of a POST leave no choice of what follows. A user who is marked as
authenticated is followed by `complete_current` at once, with no await in between, and
nothing follows the commit.
-/

namespace Authust

open Coop Coop.Task

variable {X : Externals}

/-- The operations that bind what follows. -/
def Op.binds : Op X → Bool
  | .useMutContext _ .authenticate | .commit => true
  | _ => false

/-- The operations of the completion loop. -/
def Op.loops : Op X → Bool
  | .addCookie _ | .updateSession _ _ | .completeCurrent _ | .useMutContext _ (.setError _) => true
  | op => !op.writes

abbrev Looping {α : Type} (task : Task (sig X) α) : Prop :=
  @Avoids (sig X) α (fun op => op.loops = false) task

abbrev Free {α : Type} (task : Task (sig X) α) : Prop :=
  @Avoids (sig X) α (fun op => op.binds = true) task

/-- The rule of what may follow. -/
structure Concludes (history : History X) (op : Op X) : Prop where
  authenticated : ∀ past e, history = past ++ [⟨.useMutContext e .authenticate, ()⟩] →
    op = .completeCurrent e
  uncommitted : ∀ event ∈ history, event.op ≠ .commit

/-- The last operation has marked nobody. -/
def Unmarked (history : History X) : Prop :=
  ∀ past e, history ≠ past ++ [⟨.useMutContext e .authenticate, ()⟩]

/-- Anything may follow. -/
structure Settled (history : History X) : Prop where
  last : Unmarked history
  uncommitted : ∀ event ∈ history, event.op ≠ .commit

/-- What a submission on `e` may leave behind. -/
structure Answered (e : ExecId) (history : History X) (result : Except ApiErrorKind Unit) :
    Prop where
  last : ∀ past e', history = past ++ [⟨.useMutContext e' .authenticate, ()⟩] →
    e' = e ∧ result = .ok ()
  uncommitted : ∀ event ∈ history, event.op ≠ .commit

/-- The rule for a whole POST: it does not end with a mark. -/
abbrev Concluding {α : Type} (task : Task (sig X) α) (history : History X) : Prop :=
  @Obeys (sig X) α Concludes (fun past _ => Unmarked past) task history

section Settled

variable {history : History X} {e : ExecId}

theorem settled_nil : Settled ([] : History X) where
  last := by simp [Unmarked]
  uncommitted := by simp

theorem Settled.concludes (hsettled : Settled history) (op : Op X) : Concludes history op where
  authenticated := fun past e heq => absurd heq (hsettled.last past e)
  uncommitted := hsettled.uncommitted

theorem Settled.answered (hsettled : Settled history) (result : Except ApiErrorKind Unit) :
    Answered e history result where
  last := fun past e' heq => absurd heq (hsettled.last past e')
  uncommitted := hsettled.uncommitted

theorem Answered.settled {kind : ApiErrorKind} (hanswered : Answered e history (.error kind)) :
    Settled history where
  last := by
    intro past e' heq
    cases (hanswered.last past e' heq).2
  uncommitted := hanswered.uncommitted

theorem uncommitted_snoc (huncommitted : ∀ event ∈ history, event.op ≠ .commit)
    {event : Event (sig X)} (hevent : event.op ≠ .commit) :
    ∀ other ∈ history ++ [event], other.op ≠ .commit := by
  intro other hmem
  rcases List.mem_append.mp hmem with hmem | hmem
  · exact huncommitted other hmem
  · rw [List.mem_singleton.mp hmem]
    exact hevent

theorem unmarked_snoc {event : Event (sig X)}
    (hevent : ∀ e, event ≠ ⟨.useMutContext e .authenticate, ()⟩) :
    Unmarked (history ++ [event]) := by
  intro past e heq
  obtain ⟨_, hlast⟩ := List.append_inj' heq rfl
  exact hevent e (List.singleton_inj.mp hlast)

/-- An operation that does not bind what follows settles the history. -/
theorem settled_snoc (huncommitted : ∀ event ∈ history, event.op ≠ .commit)
    {event : Event (sig X)} (hevent : event.op.binds = false) : Settled (history ++ [event]) where
  last := by
    refine unmarked_snoc ?_
    rintro e rfl
    cases hevent
  uncommitted := by
    refine uncommitted_snoc huncommitted ?_
    intro hop
    rw [hop] at hevent
    cases hevent

variable {α β : Type}

/-- A part that never binds what follows may stand anywhere. -/
theorem Free.settles {task : Task (sig X) α} (hfree : Free task) (hsettled : Settled history) :
    @Obeys (sig X) α Concludes (fun past _ => Settled past) task history := by
  induction task generalizing history with
  | done value => exact hsettled
  | call op next ih =>
      refine ⟨hsettled.concludes op, fun res => ih res (hfree.2 res) ?_⟩
      exact settled_snoc hsettled.uncommitted (by simpa using hfree.1)

end Settled

section Free

variable {α : Type} {request : Request X} {session : Session} {e : ExecId}

theorem ReadOnly.free {task : Task (sig X) α} (hreads : ReadOnly task) : Free task := by
  apply hreads.mono
  intro op hop
  cases op with
  | useMutContext e update => rfl
  | commit => rfl
  | _ => cases hop

theorem Opening.free {task : Task (sig X) α} (hopening : Opening task) : Free task := by
  apply hopening.mono
  intro op hop
  cases op with
  | useMutContext e update => rfl
  | commit => rfl
  | _ => cases hop

theorem Showing.free {task : Task (sig X) α} (hshowing : Showing task) : Free task := by
  apply hshowing.mono
  intro op hop
  cases op with
  | useMutContext e update => rfl
  | commit => rfl
  | _ => cases hop

theorem free_lift {task : Task (sig X) α} (htask : Free task) :
    Free (ExceptT.lift task : Handler X α).run := by
  rw [run_lift]
  exact htask.bind fun _ => avoids_done

theorem ReadOnly.looping {task : Task (sig X) α} (hreads : ReadOnly task) : Looping task := by
  apply hreads.mono
  intro op hop
  cases op with
  | useMutContext e update => rfl
  | addCookie | updateSession | completeCurrent => cases hop
  | _ => simpa [Op.loops] using hop

theorem Looping.free {task : Task (sig X) α} (hlooping : Looping task) : Free task := by
  apply hlooping.mono
  intro op hop
  cases op with
  | useMutContext e update =>
      cases update with
      | authenticate => rfl
      | _ => cases hop
  | commit => rfl
  | _ => cases hop

theorem looping_lift {task : Task (sig X) α} (hreads : ReadOnly task) :
    Looping (ExceptT.lift task : Handler X α).run := by
  rw [run_lift]
  exact hreads.looping.bind fun _ => avoids_done

theorem looping_setSessionCookie {claims : Claims} : Looping (setSessionCookie X claims).run := by
  unfold setSessionCookie
  split
  next => exact avoids_done
  next => exact avoids_lift_perform_bind rfl fun _ => avoids_done

theorem looping_userLogin {entry : FlowEntry} :
    Looping (userLogin X request session e entry).run := by
  apply avoids_lift_perform_bind rfl
  intro context
  split
  next => exact avoids_done
  next user _ =>
    split
    next =>
      apply Avoids.run_bind (looping_lift looks_getSessionCookie.readOnly)
      intro cookie
      split
      next => exact avoids_done
      next =>
        split
        next => exact avoids_done
        next =>
          apply Avoids.run_bind looping_setSessionCookie
          intro _
          refine Avoids.run_bind (avoids_perform rfl) fun _ =>
            Avoids.run_bind (avoids_perform rfl) fun _ => ?_
          exact avoids_done
    next => exact avoids_lift_perform_bind rfl fun _ => avoids_done

theorem looping_completeTurn {exhausted : Bool} :
    Looping (completeTurn X request session e exhausted).run := by
  apply avoids_lift_perform_bind rfl
  intro completed
  cases completed with
  | true => exact avoids_done
  | false =>
      apply avoids_lift_perform_bind rfl
      intro entry
      apply Avoids.run_bind (looping_lift looks_lookupStage.readOnly)
      intro stage
      split
      next => exact avoids_done
      next =>
        split
        next => exact avoids_done
        next =>
          split
          next => exact looping_userLogin
          next => exact looping_lift looks_panic.readOnly
          next => exact looping_lift looks_panic.readOnly
          next => exact looping_lift looks_panic.readOnly

theorem looping_completeLoop {left : Nat} :
    Looping (completeLoop X request session e left).run := by
  induction left with
  | zero => exact Avoids.run_bind looping_completeTurn fun _ => avoids_done
  | succ left ih =>
      apply Avoids.run_bind looping_completeTurn
      intro control
      cases control with
      | leave => exact avoids_done
      | proceed => exact avoids_lift_perform_bind rfl fun _ => ih

end Free

section Answering

variable {form : Value} {e : ExecId} {history : History X}

/-- A part of a submission may go on, once the history is settled. -/
abbrev Answering (e : ExecId) (task : Handler X Unit) : Prop :=
  ∀ history, Settled history → @Obeys (sig X) _ Concludes (Answered e) task.run history

theorem answering_throw {kind : ApiErrorKind} : Answering e (throw kind : Handler X Unit) :=
  fun _ hsettled => hsettled.answered _

theorem answering_pure : Answering e (pure () : Handler X Unit) :=
  fun _ hsettled => hsettled.answered _

theorem answering_access_bind {op : Op X} {f : op.Res → Handler X Unit} (hop : op.binds = false)
    (hrest : ∀ res, Answering e (f res)) : Answering e (access op >>= f) :=
  fun _ hsettled => ⟨hsettled.concludes op, fun res =>
    hrest res _ (settled_snoc hsettled.uncommitted hop)⟩

theorem answering_bind {α : Type} {task : Handler X α} {f : α → Handler X Unit}
    (hfree : Free task.run) (hrest : ∀ value, Answering e (f value)) : Answering e (task >>= f) :=
  fun _ hsettled => Obeys.run_bind_post (hfree.settles hsettled)
    (fun past value hpast => hrest value past hpast) fun _ _ hpast => hpast.answered _

/-- The mark itself is the last operation of a submission. -/
theorem answering_authenticate :
    Answering e (access (X := X) (.useMutContext e .authenticate)) := by
  intro history hsettled
  refine ⟨hsettled.concludes _, fun _ => ⟨?_, ?_⟩⟩
  · intro past e' heq
    obtain ⟨_, hlast⟩ := List.append_inj' heq rfl
    cases hlast
    exact ⟨rfl, rfl⟩
  · exact uncommitted_snoc hsettled.uncommitted (by simp)

theorem answering_panic {message : String} :
    Answering e (ExceptT.lift (panic message) : Handler X Unit) := by
  intro history hsettled
  have hfree : Free (ExceptT.lift (panic message) : Handler X Unit).run :=
    free_lift looks_panic.readOnly.free
  exact (hfree.settles hsettled).mono (fun _ _ hrule => hrule) fun _ _ hpost => hpost.answered _

theorem answering_handlePasswordStage {backends : List PasswordBackend} :
    Answering e (handlePasswordStage X form e backends) := by
  apply answering_access_bind rfl
  intro context
  split
  next => exact answering_throw
  next =>
    split
    next => exact answering_throw
    next =>
      split
      next =>
        refine answering_bind (avoids_perform rfl) fun _ => answering_bind (avoids_perform rfl)
          fun answer => ?_
        cases answer with
        | none => exact answering_throw
        | some stored =>
            simp only
            split
            next => exact answering_throw
            next =>
              apply answering_access_bind rfl
              intro result
              split
              next => exact answering_authenticate
              next => exact answering_throw
              next => exact answering_throw
      next => exact answering_throw

theorem answering_handleIdentification {password : Option (DataRef StageQuery)}
    {userFields : List UserField} :
    Answering e (handleIdentification X form e password userFields) := by
  unfold handleIdentification
  split
  next => exact answering_throw
  next =>
    apply answering_bind looks_lookupUser.readOnly.free
    intro found
    cases found with
    | none => exact answering_throw
    | some user =>
        apply answering_access_bind rfl
        intro _
        cases password with
        | none => exact answering_pure
        | some reference =>
            apply answering_bind (free_lift looks_lookupStage.readOnly.free)
            intro stage
            split
            next => exact answering_handlePasswordStage
            next => exact answering_panic

theorem answering_handleStage {stage : Stage} : Answering e (handleStage X form e stage) := by
  unfold handleStage
  split
  next => exact answering_pure
  next => exact answering_pure
  next => exact answering_handleIdentification
  next => exact answering_pure
  next => exact answering_pure
  next => exact answering_pure
  next => exact answering_handlePasswordStage
  next => exact answering_pure

theorem answering_handleSubmission : Answering e (handleSubmission X form e) := by
  apply answering_access_bind rfl
  intro completed
  cases completed with
  | true => exact answering_pure
  | false =>
      apply answering_access_bind rfl
      intro entry
      exact answering_bind (free_lift looks_lookupStage.readOnly.free) fun stage =>
        answering_handleStage

end Answering

section Concluding

variable {request : Request X}

theorem concluding_bind {α β : Type} {task : Handler X α} {f : α → Handler X β}
    {history : History X} (hsettled : Settled history) (hfree : Free task.run)
    (hrest : ∀ past value, Settled past → Concluding (f value).run past) :
    Concluding (task >>= f).run history :=
  Obeys.run_bind_post (hfree.settles hsettled) hrest fun _ _ hpast => hpast.last

theorem concluding_submit {form : Value} {session : Session} {e : ExecId} {context : CheckContext}
    {history : History X} (hsettled : Settled history) :
    Concluding (submit X request form session e context).run history := by
  unfold submit
  rw [run_lift_bind]
  refine Obeys.bind_post (answering_handleSubmission history hsettled)
    fun past result hanswered => ?_
  split
  next =>
    refine concluding_bind hanswered.settled (free_lift showing_data.free)
      fun past data hsettled => ?_
    exact hsettled.last
  next => exact hanswered.settled.last
  next =>
    refine ⟨⟨fun front e' heq => ?_, hanswered.uncommitted⟩, fun _ => ?_⟩
    · rw [(hanswered.last front e' heq).1]
    · have hcompleted : Settled (past ++ [⟨.completeCurrent e, ()⟩]) :=
        settled_snoc hanswered.uncommitted rfl
      apply concluding_bind hcompleted looping_completeLoop.free
      intro past _ hsettled
      have hcommit : Concluding (Authust.op (X := X) .commit) past :=
        ⟨hsettled.concludes _, fun res => unmarked_snoc (by simp)⟩
      exact Obeys.run_bind_post hcommit (fun _ _ hpast => hpast) fun _ _ hpast => hpast

theorem concluding_postFlow {extension : AuthExtension} :
    Concluding (postFlow X extension request).run [] := by
  apply concluding_bind settled_nil opening_fromRequestParts.free
  intro past session hsettled
  split
  next =>
    split
    next => exact hsettled.last
    next =>
      refine concluding_bind hsettled (free_lift readOnly_getExecution.free) ?_
      intro past found hsettled
      cases found with
      | none => exact hsettled.last
      | some e =>
          apply concluding_bind hsettled readOnly_openPost.free
          intro past context hsettled
          refine concluding_bind hsettled (free_lift readOnly_check.free) ?_
          intro past verdict hsettled
          cases verdict with
          | some message =>
              refine concluding_bind hsettled (free_lift showing_data.free)
                fun past data hsettled => ?_
              exact hsettled.last
          | none => exact concluding_submit hsettled
  next => exact hsettled.last

theorem concluding_handle : Concluding (handle X (.postFlow request)) [] := by
  unfold handle
  split
  next => exact settled_nil.last
  next => exact concluding_postFlow

variable {history past tail : History X}
  {rest : Task (sig X) (Except ApiErrorKind Response)}

/-- Whoever is marked as authenticated, the entry is completed next. -/
theorem authenticate_completes (hpath : Path (handle X (.postFlow request)) history rest)
    {e : ExecId} (hhistory : history = past ++ ⟨.useMutContext e .authenticate, ()⟩ :: tail) :
    (∃ more, tail = ⟨.completeCurrent e, ()⟩ :: more) ∨
      tail = [] ∧ ∃ next, rest = @Coop.Task.call (sig X) _ (.completeCurrent e) next := by
  rw [hhistory, List.append_cons] at hpath
  obtain ⟨middle, hfirst, hsecond⟩ := hpath.split
  have hobeys := (concluding_handle (X := X)).path hfirst
  cases middle with
  | done value => exact absurd rfl (hobeys past e)
  | call op next =>
      obtain rfl := hobeys.1.authenticated past e rfl
      rcases path_call.mp hsecond with ⟨rfl, rfl⟩ | ⟨res, more, rfl, _⟩
      · exact Or.inr ⟨rfl, next, rfl⟩
      · exact Or.inl ⟨more, rfl⟩

/-- Whatever a POST issues, it has not committed before. -/
theorem uncommitted_of_call {op : Op X}
    {next : op.Res → Task (sig X) (Except ApiErrorKind Response)}
    (hpath : Path (handle X (.postFlow request)) history (@Coop.Task.call (sig X) _ op next)) :
    ∀ event ∈ history, event.op ≠ .commit :=
  ((concluding_handle (X := X)).path hpath).1.uncommitted

theorem uncommitted_before (hpath : Path (handle X (.postFlow request)) history rest)
    {event : Event (sig X)} (hhistory : history = past ++ event :: tail) :
    ∀ event ∈ past, event.op ≠ .commit := by
  rw [hhistory] at hpath
  obtain ⟨middle, hfirst, hsecond⟩ := hpath.split
  cases middle with
  | done value => cases (path_done.mp hsecond).1
  | call op next => exact uncommitted_of_call hfirst

/-- The commit is the last operation of a POST. -/
theorem commit_last (hpath : Path (handle X (.postFlow request)) history rest)
    {event : Event (sig X)} (hevent : event.op = .commit)
    (hhistory : history = past ++ event :: tail) : tail = [] := by
  cases tail with
  | nil => rfl
  | cons next more =>
      rw [List.append_cons] at hhistory
      exact absurd hevent (uncommitted_before hpath hhistory event (by simp))

/-- A commit comes after everything else. -/
theorem commit_after (hpath : Path (handle X (.postFlow request)) history rest)
    {event : Event (sig X)} (hevent : event.op ≠ .commit)
    (hhistory : history = past ++ event :: tail) {res : DbResult Unit}
    (hcommitted : ⟨.commit, res⟩ ∈ history) : ∃ front, tail = front ++ [⟨.commit, res⟩] := by
  obtain ⟨front, back, hsplit⟩ := List.append_of_mem hcommitted
  obtain rfl := commit_last hpath rfl hsplit
  rw [hhistory] at hsplit
  rcases List.eq_nil_or_concat' tail with rfl | ⟨middle, last, rfl⟩
  · obtain ⟨_, hlast⟩ := List.append_inj' hsplit rfl
    rw [List.singleton_inj.mp hlast] at hevent
    exact absurd rfl hevent
  · rw [← List.cons_append, ← List.append_assoc] at hsplit
    obtain ⟨_, hlast⟩ := List.append_inj' hsplit rfl
    exact ⟨middle, by rw [hlast]⟩

end Concluding

section Returning

variable {request : Request X} {form : Value} {session : Session} {e : ExecId}
  {context : CheckContext} {history : History X}

/-- No entry has been completed. -/
def Unmoved (history : History X) : Prop :=
  ∀ e, (⟨.completeCurrent e, ()⟩ : Event (sig X)) ∉ history

theorem Unmoved.append {first second : History X} (hfirst : Unmoved first)
    (hsecond : Unmoved second) : Unmoved (first ++ second) := by
  intro e hmem
  rcases List.mem_append.mp hmem with hmem | hmem
  · exact hfirst e hmem
  · exact hsecond e hmem

theorem Untouching.unmoved {α : Type} {task rest : Task (sig X) α}
    (huntouching : Untouching task) (hpath : Path task history rest) : Unmoved history :=
  fun _ hmem => absurd rfl (huntouching.path hpath _ hmem)

theorem unmoved_handleSubmission {result : Except ApiErrorKind Unit}
    (htrace : Trace (handleSubmission X form e).run history result) : Unmoved history := by
  intro completed hmem
  rcases trace_handleSubmission.mp htrace with ⟨rfl, _⟩ | ⟨index, entry, stage, tail, rfl, htail⟩
  · simp at hmem
  · rcases List.mem_append.mp hmem with hmem | hmem
    · simp [entering, stageLookup] at hmem
    · exact absurd rfl (handling_handleStage.path htail _ hmem)

theorem trace_submit_ok {response : Response}
    (htrace : Trace (submit X request form session e context).run history (.ok response)) :
    Unmoved history ∨ ⟨.commit, .ok ()⟩ ∈ history := by
  obtain ⟨handled, result, _, hhandled, hanswer, rfl⟩ := trace_lift_bind.mp htrace
  split at hanswer
  next =>
    obtain ⟨showing, _, _, hshowing, hshown, rfl⟩ := trace_lift_bind.mp hanswer
    obtain ⟨rfl, _⟩ := trace_done.mp hshown
    rw [List.append_nil]
    exact Or.inl ((unmoved_handleSubmission hhandled).append
      (showing_data.untouching.unmoved hshowing))
  next => cases (trace_done.mp hanswer).2
  next =>
    obtain ⟨_, _, rfl, hcompleted⟩ := trace_access_bind.mp hanswer
    obtain ⟨looped, _, _, _, hlooped, rfl⟩ := trace_bind_ok.mp hcompleted
    obtain ⟨_, _, _, hcommitting, _, rfl⟩ := trace_bind_ok.mp hlooped
    obtain rfl := trace_perform.mp hcommitting
    exact Or.inr (by simp)

theorem trace_postFlow_ok {extension : AuthExtension} {response : Response}
    (htrace : Trace (postFlow X extension request).run history (.ok response)) :
    Unmoved history ∨ ⟨.commit, .ok ()⟩ ∈ history := by
  obtain ⟨opening, session, _, hopening, hopened, rfl⟩ := trace_bind_ok.mp htrace
  have hunopened := opening_fromRequestParts.untouching.unmoved hopening
  split at hopened
  next =>
    split at hopened
    next => cases (trace_done.mp hopened).2
    next =>
      obtain ⟨finding, found, _, hfinding, hfound, rfl⟩ := trace_lift_bind.mp hopened
      have hunfound := readOnly_getExecution.untouching.unmoved hfinding
      cases found with
      | none => cases (trace_done.mp hfound).2
      | some e =>
          obtain ⟨connecting, context, _, hconnecting, hconnected, rfl⟩ := trace_bind_ok.mp hfound
          have hunconnected := readOnly_openPost.untouching.unmoved hconnecting
          obtain ⟨checking, verdict, _, hchecking, hchecked, rfl⟩ := trace_lift_bind.mp hconnected
          have hunchecked := readOnly_check.untouching.unmoved hchecking
          have hpast := hunopened.append (hunfound.append (hunconnected.append hunchecked))
          cases verdict with
          | some message =>
              obtain ⟨showing, _, _, hshowing, hshown, rfl⟩ := trace_lift_bind.mp hchecked
              obtain ⟨rfl, _⟩ := trace_done.mp hshown
              have hunshown := showing_data.untouching.unmoved hshowing
              exact Or.inl (by simpa using hpast.append hunshown)
          | none =>
              rcases trace_submit_ok hchecked with hunmoved | hcommitted
              · exact Or.inl (by simpa using hpast.append hunmoved)
              · exact Or.inr (by simp [hcommitted])
  next =>
    obtain ⟨rfl, _⟩ := trace_done.mp hopened
    rw [List.append_nil]
    exact Or.inl hunopened

/-- A POST that answers has committed whatever it has completed. -/
theorem answered_commits {response : Response}
    (htrace : Trace (handle X (.postFlow request)) history (.ok response))
    (hmoved : ⟨.completeCurrent e, ()⟩ ∈ history) : ⟨.commit, .ok ()⟩ ∈ history := by
  unfold handle at htrace
  split at htrace
  next => cases (trace_done.mp htrace).2
  next =>
    rcases trace_postFlow_ok htrace with hunmoved | hcommitted
    · exact absurd hmoved (hunmoved e)
    · exact hcommitted

end Returning

end Authust
