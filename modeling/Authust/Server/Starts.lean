import Authust.Server.Ownership

/-! # Concurrent starts

`get_execution` looks the cache up, starts an execution when there is none, and inserts it
without looking again. While no start inserts over another, a key has one execution and no
progress of it is lost.
-/

namespace Authust

open Coop Coop.Task Coop.Machine

variable {X : Externals}

/-- Surroundings that evict no execution. -/
structure Retaining (w w' : World X) : Prop extends Surroundings w w' where
  retained : w'.executions = w.executions

/-- Configurations that calls reach when nothing is evicted. -/
abbrev InterleavedRetaining (calls : Nat → Call X) (start : World X)
    (config : Config (sig X) (World X) (Except ApiErrorKind Response)) : Prop :=
  (machine X Retaining).Reachable (fun who => handle X (calls who)) start config

/-- A call of `get_execution` in the history of the request has answered the execution. -/
def Returned (log : Log X) (who : Nat) (key : FlowKey) (e : ExecId) : Prop :=
  ∃ opening finding rest startNew, own who log = opening ++ finding ++ rest ∧
    Trace (getExecution X key startNew) finding (some e)

/-- What an event makes of an execution. -/
def FlowExecution.worked (e : ExecId) (execution : FlowExecution) :
    Event (sig X) → FlowExecution
  | ⟨.useMutContext e' update, _⟩ => if e' = e then execution.useMutContext update else execution
  | ⟨.completeCurrent e', _⟩ => if e' = e then execution.completeCurrent else execution
  | _ => execution

/-- All calls that find an execution find the same one, and with it everything that was made
of it since. -/
structure NoneLost (key : FlowKey) (log : Log X) : Prop where
  same : ∀ who other e e', Returned log who key e → Returned log other key e' → e = e'
  visible : ∀ past seen middle later rest, log = past ++ seen :: middle ++ later :: rest →
    ∀ who e old answer, Returned past who key e → seen.before.heap[e]? = some old →
      later.event = ⟨.cachedExecution key, answer⟩ →
        answer = some e ∧ later.before.heap[e]? =
          some (((seen :: middle).map Logged.event).foldl (FlowExecution.worked e) old)

/-- `invalidate_flow` of the key. -/
def Op.invalidates (key : FlowKey) : Op X → Bool
  | .invalidateExecution dropped => dropped = key
  | _ => false

/-- A start that inserts over an execution which another start has inserted since it looked. -/
def Overwrites (key : FlowKey) (entry : Logged (sig X) (World X)) : Bool :=
  match entry.event.op with
  | .insertExecution execution => execution.key = key && (entry.before.executions key).isSome
  | _ => false

/-- The execution that a lookup or a start answers, with its key. -/
def obtains : Event (sig X) → Option (FlowKey × ExecId)
  | ⟨.cachedExecution key, answer⟩ => answer.map fun e => (key, e)
  | ⟨.insertExecution execution, e⟩ => some (execution.key, e)
  | _ => none

def obtained (history : History X) : List (FlowKey × ExecId) := history.filterMap obtains

section Obtained

theorem obtained_append (first second : History X) :
    obtained (first ++ second) = obtained first ++ obtained second :=
  List.filterMap_append

theorem obtained_recording {α : Type} {task rest : Task (sig X) α} {history : History X}
    (hrecording : Recording task) (hpath : Path task history rest) : obtained history = [] := by
  refine List.filterMap_eq_nil_iff.mpr ?_
  intro event hmem
  have hop := hrecording.path hpath event hmem
  obtain ⟨op, res⟩ := event
  cases op with
  | cachedExecution key => exact absurd rfl hop
  | insertExecution execution => exact absurd rfl hop
  | _ => rfl

/-- A call of `get_execution` obtains what it answers and nothing else. -/
theorem obtained_getExecution {key : FlowKey} {startNew : Bool} {finding : History X}
    {result : Option ExecId} (htrace : Trace (getExecution X key startNew) finding result) :
    obtained finding = (result.map fun e => (key, e)).toList := by
  obtain ⟨cached, tail, rfl, htail⟩ := trace_perform_bind.mp htrace
  cases cached with
  | some e =>
      obtain ⟨rfl, rfl⟩ := trace_done.mp htail
      rfl
  | none =>
      simp only at htail
      split at htail
      next =>
        obtain ⟨flow, _, rfl, hflow⟩ := trace_perform_bind.mp htail
        cases flow with
        | none =>
            obtain ⟨rfl, rfl⟩ := trace_done.mp hflow
            rfl
        | some flow =>
            simp only at hflow
            split at hflow
            next =>
              obtain ⟨rfl, rfl⟩ := trace_done.mp hflow
              rfl
            next =>
              obtain ⟨freezing, storage, _, hfreezing, hfrozen, rfl⟩ := trace_bind.mp hflow
              obtain ⟨now, _, rfl, hnow⟩ := trace_perform_bind.mp hfrozen
              obtain ⟨e, _, rfl, hinserted⟩ := trace_perform_bind.mp hnow
              obtain ⟨rfl, rfl⟩ := trace_done.mp hinserted
              have hnothing := obtained_recording recording_reverseLookupFlow hfreezing
              refine (obtained_append freezing _).trans ?_
              rw [hnothing]
              rfl
      next =>
        obtain ⟨rfl, rfl⟩ := trace_done.mp htail
        rfl

theorem Returned.entry {log : Log X} {who : Nat} {key : FlowKey} {e : ExecId}
    (hreturned : Returned log who key e) : ∃ entry ∈ log, obtains entry.event = some (key, e) := by
  obtain ⟨opening, finding, rest, startNew, hown, htrace⟩ := hreturned
  have hobtained : (key, e) ∈ obtained finding := by
    rw [obtained_getExecution htrace]
    exact List.mem_singleton_self _
  obtain ⟨event, hevent, hobtains⟩ := List.mem_filterMap.mp hobtained
  have hmem : event ∈ own who log := by
    rw [hown]
    simp [hevent]
  obtain ⟨entry, hentry, _, rfl⟩ := mem_own.mp hmem
  exact ⟨entry, hentry, hobtains⟩

end Obtained

section Worked

variable {who : Nat} {state after : World X} {log : Log X} {event : Event (sig X)}

theorem FlowExecution.worked_observes (hobserves : Observes event = true) (e : ExecId)
    (execution : FlowExecution) : execution.worked e event = execution := by
  obtain ⟨op, res⟩ := event
  cases op with
  | useMutContext e' update => cases hobserves
  | completeCurrent e' => cases hobserves
  | _ => rfl

theorem Step.execution_worked (hstep : Step who state event after) {e : ExecId}
    {old : FlowExecution} (hold : state.heap[e]? = some old) :
    after.heap[e]? = some (old.worked e event) := by
  cases hstep with
  | observe hobserves => rw [FlowExecution.worked_observes hobserves, hold]
  | insertExecution execution =>
      simp only [FlowExecution.worked]
      rw [List.getElem?_append_left (List.getElem?_eq_some_iff.mp hold).1, hold]
  | @useMutContext e' update execution hheap hlock =>
      simp only [FlowExecution.worked, World.modifyExecution, List.getElem?_modify, hold]
      split <;> rfl
  | @completeCurrent e' execution hheap =>
      simp only [FlowExecution.worked, World.modifyExecution, List.getElem?_modify, hold]
      split <;> rfl
  | _ => exact hold

/-- Every execution is what the events since have made of it. -/
def Worked (state : World X) (log : Log X) : Prop :=
  ∀ past seen middle, log = past ++ seen :: middle → ∀ (e : ExecId) (old : FlowExecution),
    seen.before.heap[e]? = some old →
      state.heap[e]? = some (((seen :: middle).map Logged.event).foldl (FlowExecution.worked e) old)

theorem Worked.exec (hworked : Worked state log) (hstep : Step who state event after) :
    Worked after (log ++ [⟨who, state, event⟩]) := by
  intro past seen middle hlog e old hold
  rcases List.eq_nil_or_concat middle with rfl | ⟨middle, last, rfl⟩
  · obtain ⟨rfl, hlast⟩ := List.append_inj' hlog rfl
    cases List.singleton_inj.mp hlast
    exact hstep.execution_worked hold
  · rw [List.concat_eq_append, ← List.cons_append, ← List.append_assoc] at hlog
    obtain ⟨rfl, hlast⟩ := List.append_inj' hlog rfl
    obtain rfl := List.singleton_inj.mp hlast
    rw [List.concat_eq_append, ← List.cons_append, List.map_append, List.foldl_append]
    exact hstep.execution_worked (hworked past seen middle rfl e old hold)

theorem Worked.of_heap_eq (hworked : Worked state log) (hheap : after.heap = state.heap) :
    Worked after log := by
  intro past seen middle hlog e old hold
  rw [hheap]
  exact hworked past seen middle hlog e old hold

end Worked

/-- What has been obtained for the key is cached under it. -/
def KeptCached (key : FlowKey) (state : World X) (log : Log X) : Prop :=
  ∀ entry ∈ log, ∀ e, obtains entry.event = some (key, e) → state.executions key = some e

/-- No entry drops the execution of the key, and none overwrites it. -/
structure Undisturbed (key : FlowKey) (log : Log X) : Prop where
  kept : ∀ entry ∈ log, entry.event.op.invalidates key = false
  first : ∀ entry ∈ log, Overwrites key entry = false

section Cached

variable {who : Nat} {key : FlowKey} {state after : World X} {log : Log X}
  {event : Event (sig X)}

theorem Undisturbed.initial {more : Log X} (hundisturbed : Undisturbed key (log ++ more)) :
    Undisturbed key log where
  kept := fun entry hmem => hundisturbed.kept entry (List.mem_append_left _ hmem)
  first := fun entry hmem => hundisturbed.first entry (List.mem_append_left _ hmem)

/-- An operation that disturbs nothing leaves what is cached. -/
theorem Step.cached_stays (hstep : Step who state event after)
    (hkept : event.op.invalidates key = false) (hfirst : Overwrites key ⟨who, state, event⟩ = false)
    {e : ExecId} (hcached : state.executions key = some e) : after.executions key = some e := by
  rcases hstep.executions with heq | ⟨execution, rfl, heq⟩ | ⟨dropped, rfl, heq⟩
  · rw [heq, hcached]
  · rw [heq]
    by_cases hkey : execution.key = key
    · simp [Overwrites, hkey, hcached] at hfirst
    · rw [Function.update_of_ne (Ne.symm hkey), hcached]
  · rw [heq]
    have hother : key ≠ dropped := by
      rintro rfl
      simp [Op.invalidates] at hkept
    rw [Function.update_of_ne hother, hcached]

theorem KeptCached.exec {moves : World X → World X → Prop} (hkept : KeptCached key state log)
    (hundisturbed : Undisturbed key (log ++ [⟨who, state, event⟩]))
    (hexec : (machine X moves).Exec who state event after) :
    KeptCached key after (log ++ [⟨who, state, event⟩]) := by
  have hstep := exec_step hexec
  have hmem : ⟨who, state, event⟩ ∈ log ++ [⟨who, state, event⟩] := by simp
  intro entry hentry e hobtains
  rcases List.mem_append.mp hentry with hentry | hentry
  · exact hstep.cached_stays (hundisturbed.kept _ hmem) (hundisturbed.first _ hmem)
      (hkept entry hentry e hobtains)
  · obtain rfl := List.mem_singleton.mp hentry
    obtain ⟨op, res⟩ := event
    cases op with
    | cachedExecution asked =>
        obtain ⟨found, hfound, heq⟩ := Option.map_eq_some_iff.mp hobtains
        simp only [Prod.mk.injEq] at heq
        obtain ⟨rfl, rfl⟩ := heq
        have hcached := exec_cachedExecution hexec
        exact hstep.cached_stays (hundisturbed.kept _ hmem) (hundisturbed.first _ hmem)
          (hcached.trans hfound)
    | insertExecution execution =>
        simp only [obtains, Option.some.injEq, Prod.mk.injEq] at hobtains
        obtain ⟨rfl, rfl⟩ := hobtains
        obtain ⟨choice, hexec⟩ := hexec
        cases hexec
        exact Function.update_self ..
    | _ => cases hobtains

theorem kept_preserved {tasks : Nat → Task (sig X) (Except ApiErrorKind Response)}
    {start : World X} :
    Preserved (privateDesk fun hmoves => hmoves.toSurroundings : Private
      (machine X Retaining) (Desk X)) tasks start fun state log =>
        Worked state log ∧ (Undisturbed key log → KeptCached key state log) where
  exec := fun hinvariant _ _ _ hexec =>
    ⟨hinvariant.1.exec (exec_step hexec), fun hundisturbed =>
      (hinvariant.2 hundisturbed.initial).exec hundisturbed hexec⟩
  release := fun hinvariant => ⟨hinvariant.1.of_heap_eq rfl, hinvariant.2⟩
  moves := by
    intro state after log hinvariant hmoves
    refine ⟨hinvariant.1.of_heap_eq hmoves.heap, fun hundisturbed => ?_⟩
    unfold KeptCached
    rw [hmoves.retained]
    exact hinvariant.2 hundisturbed

end Cached

/-- Unless an execution is invalidated or overwritten, none is lost under any interleaving. -/
theorem noneLost_of_first {calls : Nat → Call X} {start : World X} {key : FlowKey}
    {config : Config (sig X) (World X) (Except ApiErrorKind Response)}
    (hreach : InterleavedRetaining calls start config)
    (hkept : ∀ entry ∈ config.log, entry.event.op.invalidates key = false)
    (hfirst : ∀ entry ∈ config.log, Overwrites key entry = false) : NoneLost key config.log := by
  have hbegin : Worked start ([] : Log X) ∧
      (Undisturbed key ([] : Log X) → KeptCached key start []) := by
    refine ⟨?_, fun _ entry hmem => by cases hmem⟩
    intro past seen middle hlog
    simp at hlog
  obtain ⟨⟨⟨_, hcached⟩, hthroughout⟩, hissued, _⟩ :=
    hreach.holds kept_preserved.throughout ⟨hbegin, throughout_nil⟩
  have hundisturbed : Undisturbed key config.log := ⟨hkept, hfirst⟩
  constructor
  · intro who other e e' hreturned hreturned'
    obtain ⟨entry, hentry, hobtains⟩ := hreturned.entry
    obtain ⟨entry', hentry', hobtains'⟩ := hreturned'.entry
    have hsame := hcached hundisturbed entry hentry e hobtains
    rw [hcached hundisturbed entry' hentry' e' hobtains'] at hsame
    exact (Option.some.inj hsame).symm
  · intro past seen middle later rest hlog who e old answer hreturned hold hevent
    obtain ⟨hworked, hstill⟩ := hthroughout _ later rest hlog
    rw [hlog] at hundisturbed
    obtain ⟨entry, hentry, hobtains⟩ := hreturned.entry
    have hanswer := hstill hundisturbed.initial entry (List.mem_append_left _ hentry) e hobtains
    obtain ⟨_, after, hexec⟩ := hissued _ later rest hlog
    rw [hevent] at hexec
    rw [exec_cachedExecution hexec] at hanswer
    exact ⟨hanswer, hworked past seen middle rfl e old hold⟩

section StartRuns

/-- A call that is shown a flow has found an execution. -/
theorem trace_getFlow {request : Request X} {history : History X} {shown : FlowData}
    (htrace : Trace (handle X (.getFlow request)) history (.ok (.json shown))) :
    ∃ session e, Found (.getFlow request) history session e := by
  unfold handle at htrace
  split at htrace
  next => cases (trace_done.mp htrace).2
  next extension hextension =>
    obtain ⟨opening, session, _, hsession, hrest, rfl⟩ := trace_bind_ok.mp htrace
    split at hrest
    next => cases (trace_done.mp hrest).2
    next host _ =>
      split at hrest
      next => cases (trace_done.mp hrest).2
      next key hkey =>
        obtain ⟨finding, found, rest, hfound, hshown, rfl⟩ := trace_lift_bind.mp hrest
        cases found with
        | none => cases (trace_done.mp hshown).2
        | some e =>
            rw [← List.append_assoc]
            exact ⟨session, e, .intro rest rfl hextension hsession hkey hfound⟩

/-- What a request has found is the one execution that it has obtained. -/
theorem returned_of_found {call : Call X} {log : Log X} {who : Nat} {session : Session}
    {e e' : ExecId} {key : FlowKey} (hfound : Found call (own who log) session e)
    (hobtained : obtained (own who log) = [(key, e')]) : Returned log who key e' := by
  generalize hown : own who log = history at hfound
  cases hfound with
  | @intro request extension session asked e startNew opening finding rest _ _ _ _ htrace =>
      have hmem : (asked, e) ∈ obtained (own who log) := by
        rw [hown, obtained_append, obtained_append, obtained_getExecution htrace]
        simp
      rw [hobtained] at hmem
      cases List.mem_singleton.mp hmem
      exact ⟨opening, finding, rest, startNew, hown, htrace⟩

def sampleKey : FlowKey := ⟨"s", .slug "login"⟩

def retainingRun (start : World Externals.plain) (calls : Nat → Call Externals.plain)
    (schedule : List (Act Choice)) :
    Option (Config (sig Externals.plain) (World Externals.plain) (Except ApiErrorKind Response)) :=
  (machine Externals.plain Retaining).acts
    ⟨start, fun who => .running (handle Externals.plain (calls who)), []⟩ schedule

/-- Two GETs and a submission of the identification form. -/
def racingCalls : Nat → Call Externals.plain
  | 0 => sampleGet
  | 1 => sampleGet
  | _ => samplePost [("uid", "member")]

/-- The second GET finds no execution; the first starts one and the submission moves it on
before the second inserts its own. -/
def racingSchedule : List (Act Choice) :=
  Act.awaits 1 .normal 3 ++ Act.awaits 0 .normal 10 ++ Act.awaits 2 .normal 10 ++
    .answer 1 .normal :: Act.awaits 1 .normal 6

def answeredData (proc : Proc (sig X) (Except ApiErrorKind Response)) : Bool :=
  match proc with
  | .ended (.returned (.ok (.json _))) => true
  | _ => false

theorem racing_found : ((retainingRun twoForms racingCalls racingSchedule).map fun config =>
    (obtained (own 0 config.log), obtained (own 1 config.log))) =
      some ([(sampleKey, 0)], [(sampleKey, 1)]) := by
  decide +kernel

theorem racing_left : ((retainingRun twoForms racingCalls racingSchedule).map fun config =>
    (answeredData (config.procs 0) && answeredData (config.procs 1),
      config.log.all fun entry => !entry.event.op.invalidates sampleKey,
      config.state.executions sampleKey, config.state.heap.map FlowExecution.currentEntryIdx)) =
        some (true, true, some 1, [1, 0]) := by
  decide +kernel

theorem returned_of_answered {calls : Nat → Call X} {start : World X}
    {config : Config (sig X) (World X) (Except ApiErrorKind Response)} {who : Nat}
    {request : Request X} (hreach : InterleavedRetaining calls start config)
    (hcall : calls who = .getFlow request) (hended : answeredData (config.procs who) = true)
    {key : FlowKey} {e : ExecId} (hobtained : obtained (own who config.log) = [(key, e)]) :
    Returned config.log who key e := by
  unfold answeredData at hended
  split at hended
  next shown hproc =>
    have hlinked := (hreach.holds (viewed_preserved (P := privateDesk Retaining.toSurroundings))
      throughout_nil).2.2
    have htrace := hlinked.trace hproc
    simp only [hcall] at htrace
    obtain ⟨session, found, hfound⟩ := trace_getFlow htrace
    exact returned_of_found hfound hobtained
  next => cases hended

/-- Two starts that overlap answer two executions, and the progress of the first is lost. -/
theorem racing_loses_execution : ∃ config,
    InterleavedRetaining racingCalls twoForms config ∧
      (∀ entry ∈ config.log, entry.event.op.invalidates sampleKey = false) ∧
        config.state.heap.map FlowExecution.currentEntryIdx = [1, 0] ∧
          config.state.executions sampleKey = some 1 ∧ ¬ NoneLost sampleKey config.log := by
  obtain ⟨config, hrun, hfound⟩ := Option.map_eq_some_iff.mp racing_found
  have hleft := racing_left
  rw [hrun, Option.map_some, Option.some.injEq] at hleft
  simp only [Prod.mk.injEq, Bool.and_eq_true, List.all_eq_true, Bool.not_eq_true'] at hfound hleft
  obtain ⟨⟨hended, hended'⟩, hkept, hcached, hindices⟩ := hleft
  have hreach : InterleavedRetaining racingCalls twoForms config := .acts .start racingSchedule hrun
  refine ⟨config, hreach, hkept, hindices, hcached, ?_⟩
  intro hlost
  have hsame := hlost.same 0 1 0 1 (returned_of_answered hreach rfl hended hfound.1)
    (returned_of_answered hreach rfl hended' hfound.2)
  cases hsame

/-- Two GETs around a submission, one after another. -/
def resumingCalls : Nat → Call Externals.plain
  | 0 => sampleGet
  | 1 => samplePost [("uid", "member")]
  | _ => sampleGet

def resumingSchedule : List (Act Choice) :=
  Act.awaits 0 .normal 10 ++ Act.awaits 1 .normal 10 ++ Act.awaits 2 .normal 5

theorem resuming_run : ((retainingRun twoForms resumingCalls resumingSchedule).map fun config =>
    (config.log.all fun entry => !entry.event.op.invalidates sampleKey && !Overwrites
      sampleKey entry, obtained (own 2 config.log))) = some (true, [(sampleKey, 0)]) := by
  decide +kernel

/-- Where the second GET comes after the first, it finds the same execution. -/
theorem resuming_noneLost : ∃ config, InterleavedRetaining resumingCalls twoForms config ∧
    obtained (own 2 config.log) = [(sampleKey, 0)] ∧ NoneLost sampleKey config.log := by
  obtain ⟨config, hrun, hresult⟩ := Option.map_eq_some_iff.mp resuming_run
  simp only [Prod.mk.injEq, List.all_eq_true, Bool.and_eq_true, Bool.not_eq_true'] at hresult
  obtain ⟨hcalm, hobtained⟩ := hresult
  have hreach : InterleavedRetaining resumingCalls twoForms config :=
    .acts .start resumingSchedule hrun
  exact ⟨config, hreach, hobtained, noneLost_of_first hreach
    (fun entry hmem => (hcalm entry hmem).1) fun entry hmem => (hcalm entry hmem).2⟩

end StartRuns

end Authust
