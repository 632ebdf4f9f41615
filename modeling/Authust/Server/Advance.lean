import Authust.Server.Progress

/-! # Who advances an execution

A submission is validated against the entry that is current when it begins; the entry that
it completes is the one that is current when it ends. The two are the same as long as no
other request completes an entry in between.
-/

namespace Authust

open Coop Coop.Task Coop.Machine

variable {X : Externals}

/-- The call has handled the stage of an entry: its submission succeeded on it, or its
completion loop processed it. -/
inductive Handled (call : Call X) (e : ExecId) (index : Nat) : History X → Prop
  | submission {request : Request X} {form : Value} {session : Session} {context : CheckContext}
      {admitted tail : History X} {entry : FlowEntry} {stage : Stage}
      (hcall : call = .postFlow request)
      (hadmission : Admission request admitted form session e context)
      (hhandled : Trace (handleSubmission X form e).run (entering e index entry stage ++ tail)
        (.ok ())) :
      Handled call e index (admitted ++ (entering e index entry stage ++ tail))
  | turn {request : Request X} {session : Session} {past tail : History X} {entry : FlowEntry}
      {stage : Stage} (hcall : call = .postFlow request)
      (hcompleting : Completing request past session e)
      (hturn : Trace (completeTurn X request session e false).run
        (entering e index entry stage ++ tail) (.ok .proceed)) :
      Handled call e index (past ++ (entering e index entry stage ++ tail))

/-- A call completes the current entry after it has seen the execution completed, or after
it has handled the entry it asked for last. -/
theorem Justified.completes {call : Call X} {history : History X} {e : ExecId}
    (hjustified : Justified call history (.completeCurrent e)) :
    ⟨.isCompleted e, true⟩ ∈ history ∨ ∃ index, Handled call e index history ∧
      ∀ known, history.foldl (knownNext e) known = some index := by
  cases hjustified with
  | plain hplain => cases hplain
  | @completeSubmission request admitted handled form session e context hadmission hhandled =>
      rcases trace_handleSubmission.mp hhandled with
        ⟨rfl, _⟩ | ⟨index, entry, stage, tail, rfl, htail⟩
      · exact Or.inl (by simp)
      · refine Or.inr ⟨index, .submission rfl hadmission hhandled, fun known => ?_⟩
        rw [← List.append_assoc]
        refine foldl_knownNext_entering (fun event hmem => ?_) known
        have hhandles := handling_handleStage.path htail event hmem
        exact Op.tracks_of_handles (by simpa using hhandles)
  | @completeTurn request past turn session e hcompleting hturn =>
      obtain ⟨_, index, entry, stage, tail, _, rfl, htail⟩ := trace_completeTurn_proceed hturn
      refine Or.inr ⟨index, .turn rfl hcompleting hturn, fun known => ?_⟩
      rw [← List.append_assoc]
      refine foldl_knownNext_entering (fun event hmem => ?_) known
      obtain ⟨context, user, added, cookie, claims, token, rfl, _⟩ := trace_userLogin htail
      simp only [loginEvents, List.mem_cons, List.not_mem_nil, or_false] at hmem
      rcases hmem with rfl | rfl | rfl | rfl | rfl
      all_goals rfl

/-- Nobody has completed an entry of the execution since the call asked for the current one,
or there is none left to complete. -/
def unshared (past : Log X) (entry : Logged (sig X) (World X)) : Bool :=
  match entry.event.op with
  | .completeCurrent e =>
      (entry.before.heap[e]?.all FlowExecution.isCompleted) || (heldEntry entry.who e past).isSome
  | _ => true

abbrev Unshared (log : Log X) : Prop := Throughout (fun past entry => unshared past entry) log

/-- Every `complete_current` that moves an execution is the work of a call that has handled
the entry it completes. -/
def AdvancesHandled (calls : Nat → Call X) (log : Log X) : Prop :=
  ∀ past entry rest e execution, log = past ++ entry :: rest →
    entry.event.op = .completeCurrent e → entry.before.heap[e]? = some execution →
      execution.completeCurrent ≠ execution →
        Handled (calls entry.who) e execution.currentEntryIdx (own entry.who past)

/-- Every passed entry has been handled by some call. -/
def PassedHandled (calls : Nat → Call X) (state : World X) (log : Log X) : Prop :=
  ∀ e execution index, state.heap[e]? = some execution → execution.Passed index →
    ∃ past entry rest, log = past ++ entry :: rest ∧ entry.event.op = .completeCurrent e ∧
      Handled (calls entry.who) e index (own entry.who past)

theorem AdvancesHandled.passed {calls : Nat → Call X} {state : World X} {log : Log X}
    (hadvances : AdvancesHandled calls log) (hplaced : Placed state log) :
    PassedHandled calls state log := by
  intro e execution index hheap hpassed
  obtain ⟨past, entry, rest, old, rfl, hop, hold, rfl, hopen⟩ :=
    hplaced.passed e execution index hheap hpassed
  exact ⟨past, entry, rest, rfl, hop,
    hadvances past entry rest e old rfl hop hold (FlowExecution.completeCurrent_ne hopen)⟩

theorem advancesHandled_of_unshared {calls : Nat → Call X} {log : Log X}
    (hissued : IssuedBy calls log)
    (hplaced : Throughout (fun past entry => Placed entry.before past) log)
    (hunshared : Unshared log) : AdvancesHandled calls log := by
  rintro past entry rest e execution rfl hop hheap hmoves
  have hbefore := hplaced past entry rest rfl
  have hjustified := issued_justified hissued
  rw [hop] at hjustified
  have hopen : execution.isCompleted = false := by
    by_contra hcompleted
    rw [Bool.not_eq_false] at hcompleted
    exact hmoves ((hbefore.formed e execution hheap).completeCurrent_eq hcompleted)
  rcases hjustified.completes with hseen | ⟨index, hhandled, hknown⟩
  · -- an execution that was seen completed still is
    obtain ⟨found, hfound, _, hevent⟩ := mem_own.mp hseen
    obtain ⟨later, hlater, hcompleted⟩ := hbefore.completed found hfound e hevent
    rw [hheap] at hlater
    cases hlater
    rw [hopen] at hcompleted
    cases hcompleted
  · have hheld : (heldEntry entry.who e past).isSome = true := by
      simpa [unshared, hop, hheap, hopen] using hunshared past entry rest rfl
    obtain ⟨current, hcurrent⟩ := Option.isSome_iff_exists.mp hheld
    obtain ⟨later, hlater, hindex⟩ := hbefore.held entry.who e current hcurrent
    rw [hheap] at hlater
    cases hlater
    rcases @heldEntry_own X entry.who e past with hnone | hsame
    · rw [hnone] at hcurrent
      cases hcurrent
    · rw [hsame, hknown none] at hcurrent
      cases hcurrent
      rw [hindex]
      exact hhandled

/-- In every run in which requests do not overtake each other between asking for the current
entry and completing it, no entry is passed without its own stage having been handled. -/
theorem interleaved_advances_handled {calls : Nat → Call X} {start : World X}
    {config : Config (sig X) (World X) (Except ApiErrorKind Response)} (hstart : start.Initial)
    (hreach : Interleaved calls start config) (hunshared : Unshared config.log) :
    AdvancesHandled calls config.log ∧ PassedHandled calls config.state config.log := by
  have hissued : IssuedBy calls config.log :=
    (hreach.holds placed_preserved (placed_initial hstart)).2.1
  obtain ⟨hplaced, hbefore⟩ := interleaved_placed hstart hreach
  have hadvances := advancesHandled_of_unshared hissued hbefore hunshared
  exact ⟨hadvances, hadvances.passed hplaced⟩

section Doubled

/-- The identification form is submitted twice. -/
def doubledCalls : Nat → Call Externals.plain
  | 0 => sampleGet
  | _ => samplePost [("uid", "member")]

def singleSchedule : List (Act Choice) := Act.awaits 0 .normal 10 ++ Act.awaits 1 .normal 10

/-- The second submission overtakes the first, which waits for the user. -/
def doubledSchedule : List (Act Choice) :=
  Act.awaits 0 .normal 10 ++ Act.awaits 1 .normal 7 ++ Act.awaits 2 .normal 10 ++
    .answer 1 .normal :: Act.awaits 1 .normal 2

def asksEntry (e : ExecId) (index : Nat) (history : History X) : Bool :=
  history.any fun event =>
    match event with
    | ⟨.getEntry asked, answer⟩ => asked = e && answer.1 = index
    | _ => false

theorem asksEntry_of_handled {call : Call X} {e : ExecId} {index : Nat} {history : History X}
    (hhandled : Handled call e index history) : asksEntry e index history = true := by
  cases hhandled <;> simp [asksEntry, entering]

/-- An open execution is advanced by a call that has never asked for the entry. -/
def advancesUnasked (past : Log X) (entry : Logged (sig X) (World X)) : Bool :=
  match entry.event.op with
  | .completeCurrent e => entry.before.heap[e]?.any fun execution =>
      !execution.isCompleted && !asksEntry e execution.currentEntryIdx (own entry.who past)
  | _ => false

theorem not_advancesHandled {calls : Nat → Call X} {log : Log X}
    (hunasked : ¬ Throughout (fun past entry => advancesUnasked past entry = false) log) :
    ¬ AdvancesHandled calls log := by
  intro hhandled
  apply hunasked
  rintro past entry rest rfl
  by_contra hadvances
  rw [Bool.not_eq_false, advancesUnasked] at hadvances
  split at hadvances
  next e hop =>
    obtain ⟨execution, hheap, hunasked⟩ := (Option.any_eq_true _ _).mp hadvances
    rw [Bool.and_eq_true, Bool.not_eq_true', Bool.not_eq_true'] at hunasked
    have hasked := asksEntry_of_handled (hhandled past entry rest e execution rfl hop hheap
      (FlowExecution.completeCurrent_ne hunasked.1))
    rw [hunasked.2] at hasked
    cases hasked
  next => cases hadvances

theorem singleSchedule_run : (sampleRun twoForms doubledCalls singleSchedule).map
    (fun config => (config.state.heap.map FlowExecution.currentEntryIdx,
      decide (Unshared config.log))) = some ([1], true) := by
  decide +kernel

theorem doubledSchedule_run : (sampleRun twoForms doubledCalls doubledSchedule).map
    (fun config => (config.state.heap.map FlowExecution.currentEntryIdx,
      decide (Throughout (fun past entry => advancesUnasked past entry = false) config.log))) =
        some ([2], false) := by
  decide +kernel

/-- A single submission advances the entry it was made for. -/
theorem single_advances_handled : ∃ config, Interleaved doubledCalls twoForms config ∧
    config.state.heap.map FlowExecution.currentEntryIdx = [1] ∧
      AdvancesHandled doubledCalls config.log ∧
        PassedHandled doubledCalls config.state config.log := by
  obtain ⟨config, hrun, hresult⟩ := Option.map_eq_some_iff.mp singleSchedule_run
  rw [Prod.mk.injEq, decide_eq_true_eq] at hresult
  have hreach := sampleRun_interleaved hrun
  exact ⟨config, hreach, hresult.1,
    interleaved_advances_handled (World.boot_initial _ _ _ _ _ _) hreach hresult.2⟩

/-- The doubled submission passes the password entry, which nobody has handled. -/
theorem doubled_advances_unhandled : ∃ config, Interleaved doubledCalls twoForms config ∧
    config.state.heap.map FlowExecution.currentEntryIdx = [2] ∧
      ¬ AdvancesHandled doubledCalls config.log := by
  obtain ⟨config, hrun, hresult⟩ := Option.map_eq_some_iff.mp doubledSchedule_run
  rw [Prod.mk.injEq, decide_eq_false_iff_not] at hresult
  exact ⟨config, sampleRun_interleaved hrun, hresult.1, not_advancesHandled hresult.2⟩

end Doubled

end Authust
