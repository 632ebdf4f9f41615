import Authust.Model.Conformance
import Authust.Server.Origin

/-! # What the executor answers

The pending user that is shown was read from an execution, and executions only have pending users
without an avatar. So of the answers of the executor none conforms to the published schema that
shows a pending user.
-/

namespace Authust

open Coop Coop.Task Coop.Machine

variable {X : Externals}

/-- The pending user that is shown is that of a context which has been read. -/
def ReadPending (history : History X) (shown : FlowData) : Prop :=
  shown.pendingUser = none ∨ ∃ e context,
    (⟨.readContext e, context⟩ : Event (sig X)) ∈ history ∧ shown.pendingUser = context.pending

/-- The handler shows no pending user that it has not read. -/
def ShowsRead (handler : Handler X Response) : Prop :=
  ∀ history shown, Trace handler.run history (.ok (.json shown)) → ReadPending history shown

section Handlers

variable {α : Type} {e : ExecId} {history : History X} {shown : FlowData}

theorem ReadPending.after (hread : ReadPending history shown) (first : History X) :
    ReadPending (first ++ history) shown := by
  rcases hread with hnone | ⟨e, context, hmem, hpending⟩
  · exact Or.inl hnone
  · exact Or.inr ⟨e, context, List.mem_append_right first hmem, hpending⟩

theorem ShowsRead.bind {handler : Handler X α} {f : α → Handler X Response}
    (hrest : ∀ value, ShowsRead (f value)) : ShowsRead (handler >>= f) := by
  intro history shown htrace
  obtain ⟨first, value, second, _, hsecond, rfl⟩ := trace_bind_ok.mp htrace
  exact (hrest value second shown hsecond).after first

theorem showsRead_throw (error : ApiErrorKind) : ShowsRead (throw error : Handler X Response) := by
  intro history shown htrace
  cases (trace_done.mp htrace).2

theorem showsRead_pure {response : Response} (hresponse : ∀ shown, response ≠ .json shown) :
    ShowsRead (pure response : Handler X Response) := by
  intro history shown htrace
  obtain ⟨_, heq⟩ := trace_done.mp htrace
  cases heq
  exact absurd rfl (hresponse shown)

/-- An answer shows the user of the context that it has read. -/
theorem showsRead_data (error : Option SubmissionError) (context : CheckContext) :
    ShowsRead (ExceptT.lift (data X e error context) >>= fun data => pure (.json data)) := by
  intro history shown htrace
  obtain ⟨first, _, _, hdata, hdone, rfl⟩ := trace_lift_bind.mp htrace
  obtain ⟨rfl, heq⟩ := trace_done.mp hdone
  cases heq
  rw [List.append_nil]
  rcases (trace_data_shown hdata).2 with hnone | ⟨inner, hmem, hpending⟩
  · exact Or.inl hnone
  · exact Or.inr ⟨e, inner, hmem, hpending⟩

/-- What a POST shows instead of a redirect is such an answer. -/
theorem showsRead_submit (request : Request X) (form : Value) (session : Session)
    (context : CheckContext) : ShowsRead (submit X request form session e context) := by
  apply ShowsRead.bind
  intro result
  split
  next => exact showsRead_data _ _
  next => exact showsRead_throw _
  next =>
    apply ShowsRead.bind
    intro _
    apply ShowsRead.bind
    intro _
    apply ShowsRead.bind
    intro _
    apply showsRead_pure
    simp

theorem showsRead_postExecution (request : Request X) (host : String) (form : Value)
    (session : Session) : ShowsRead (postExecution X request host form session e) := by
  apply ShowsRead.bind
  intro context
  apply ShowsRead.bind
  intro denied
  split
  next => exact showsRead_data none context
  next => exact showsRead_submit request form session context

theorem showsRead_postFlow (extension : AuthExtension) (request : Request X) :
    ShowsRead (postFlow X extension request) := by
  apply ShowsRead.bind
  intro session
  split
  next host form _ _ =>
    split
    next => exact showsRead_throw _
    next =>
      apply ShowsRead.bind
      intro found
      split
      next => exact showsRead_throw _
      next => exact showsRead_postExecution request host form session
  next =>
    apply showsRead_pure
    simp

theorem showsRead_getFlow (extension : AuthExtension) (request : Request X) :
    ShowsRead (getFlow X extension request) := by
  apply ShowsRead.bind
  intro session
  split
  next =>
    apply showsRead_pure
    simp
  next =>
    split
    next => exact showsRead_throw _
    next =>
      apply ShowsRead.bind
      intro found
      split
      next => exact showsRead_throw _
      next =>
        apply ShowsRead.bind
        intro _
        apply ShowsRead.bind
        intro context
        exact showsRead_data none context

/-- No call shows a pending user that it has not read. -/
theorem showsRead_route (extension : AuthExtension) (call : Call X) :
    ShowsRead (call.route X extension) := by
  cases call with
  | getFlow request => exact showsRead_getFlow extension request
  | postFlow request => exact showsRead_postFlow extension request
  | userInfo cookie =>
      apply ShowsRead.bind
      intro _
      apply ShowsRead.bind
      intro _
      apply ShowsRead.bind
      intro user
      apply showsRead_pure
      simp
  | admin cookie =>
      apply ShowsRead.bind
      intro _
      apply showsRead_pure
      simp

/-- Who is shown as pending was pending on an execution that the call has read. -/
theorem trace_handle_pending {call : Call X}
    (htrace : Trace (handle X call) history (.ok (.json shown))) : ReadPending history shown := by
  unfold handle at htrace
  split at htrace
  next => cases (trace_done.mp htrace).2
  next extension _ => exact showsRead_route extension call history shown htrace

end Handlers

section Runs

variable {calls : Nat → Call X} {start : World X}

/-- Nobody is made pending with an avatar. -/
theorem PendingSince.avatarUrl {log : Log X} {e : ExecId} {pending : PendingUser}
    (hsince : PendingSince calls log e pending) : pending.avatarUrl = none := by
  obtain ⟨_, _, _, hpending, _⟩ := hsince
  rw [hpending]
  rfl

/-- Under every interleaving an answer conforms to the schema if and only if it shows neither a
pending user nor an error about a field. -/
theorem answered_valid_iff {config : Config (sig X) (World X) (Except ApiErrorKind Response)}
    (hstart : start.Initial) (hreach : Interleaved calls start config) {who : Nat}
    {shown : FlowData} (hended : config.procs who = .ended (.returned (.ok (.json shown)))) :
    flowDataSchema.valid shown.serialize = true ↔
      (shown.error = none ∨ shown.error = some .noPendingUser) ∧ shown.pendingUser = none := by
  obtain ⟨⟨_, hthroughout⟩, hissued, hlinked⟩ := hreach.holds originated_preserved.throughout
    ⟨originated_initial hstart, throughout_nil⟩
  rw [valid_iff_properties, accepts_dataProperties_iff]
  apply and_congr_right
  intro _
  constructor
  · intro havatar
    rcases trace_handle_pending (hlinked.trace hended) with hnone | ⟨e, context, hmem, hpending⟩
    · exact hnone
    · rw [Option.eq_none_iff_forall_ne_some]
      intro user huser
      have havatar := havatar user huser
      obtain ⟨entry, hentry, _, hevent⟩ := mem_own.mp hmem
      obtain ⟨past, rest, hlog⟩ := List.append_of_mem hentry
      obtain ⟨_, after, hexec⟩ := hissued past entry rest hlog
      rw [hevent] at hexec
      obtain ⟨execution, hheap, rfl⟩ := exec_readContext hexec
      rw [huser] at hpending
      -- the user was pending on an execution when the context was read
      have hsince := hthroughout past entry rest hlog e execution user hheap hpending.symm
      rw [hsince.avatarUrl] at havatar
      cases havatar
  · intro hnone user huser
    rw [hnone] at huser
    cases huser

/-- What an ended request was shown. -/
def Proc.shown (proc : Proc (sig X) (Except ApiErrorKind Response)) : Option FlowData :=
  match proc with
  | .ended (.returned (.ok (.json shown))) => some shown
  | _ => none

theorem eq_of_shown {proc : Proc (sig X) (Except ApiErrorKind Response)} {shown : FlowData}
    (hshown : Proc.shown proc = some shown) : proc = .ended (.returned (.ok (.json shown))) := by
  unfold Proc.shown at hshown
  split at hshown
  next =>
    cases hshown
    rfl
  next => cases hshown

/-- A member fetches the first form, submits his name and fetches the second one. -/
def memberCalls : Nat → Call Externals.plain
  | 1 => samplePost [("uid", "member")]
  | _ => sampleGet

def memberSchedule : List (Act Choice) :=
  Act.awaits 0 .normal 10 ++ Act.awaits 1 .normal 10 ++ Act.awaits 2 .normal 5

theorem memberGet_shown : (sampleRun twoForms memberCalls memberSchedule).bind (fun config =>
    (Proc.shown (config.procs 0)).bind fun first => (Proc.shown (config.procs 2)).map fun second =>
      (first.error, first.pendingUser.isSome, second.pendingUser.isSome)) =
        some (none, false, true) := by
  decide +kernel

/-- The first form is answered as the schema has it, and the second, with the member pending, is
not. -/
theorem memberGet_valid : ∃ config first second, Interleaved memberCalls twoForms config ∧
    config.procs 0 = .ended (.returned (.ok (.json first))) ∧
      config.procs 2 = .ended (.returned (.ok (.json second))) ∧
        flowDataSchema.valid first.serialize = true ∧
          flowDataSchema.valid second.serialize = false := by
  obtain ⟨config, hrun, hshown⟩ := Option.bind_eq_some_iff.mp memberGet_shown
  obtain ⟨first, hfirst, hshown⟩ := Option.bind_eq_some_iff.mp hshown
  obtain ⟨second, hsecond, hshown⟩ := Option.map_eq_some_iff.mp hshown
  simp only [Prod.mk.injEq] at hshown
  obtain ⟨herror, hnobody, hmember⟩ := hshown
  have hstart : twoForms.Initial := World.boot_initial _ _ _ _ _ _
  have hreach := sampleRun_interleaved hrun
  have hended := eq_of_shown hfirst
  have hended' := eq_of_shown hsecond
  refine ⟨config, first, second, hreach, hended, hended', ?_, ?_⟩
  · exact (answered_valid_iff hstart hreach hended).mpr
      ⟨Or.inl herror, Option.not_isSome_iff_eq_none.mp (by simp [hnobody])⟩
  · rw [← Bool.not_eq_true, answered_valid_iff hstart hreach hended']
    rintro ⟨_, hnone⟩
    rw [hnone] at hmember
    cases hmember

end Runs

end Authust
