import Authust.Server.Login
import Authust.Server.Rollback
import Authust.Server.Grounding
import Authust.Server.Redirects

/-! # The position of an execution

Wherever the await points are, the index of an execution stays within its entries and does
not go back, and a completed execution rests at its last entry. A request that begins when
its execution is completed changes neither an execution nor the table of sessions.
-/

namespace Authust

open Coop Coop.Task Coop.Machine

variable {X : Externals}

/-- Configurations that calls reach when they interleave at the given operations. -/
abbrev InterleavedAt (suspends : Op X → Bool) (calls : Nat → Call X) (start : World X)
    (config : Config (sig X) (World X) (Except ApiErrorKind Response)) : Prop :=
  (regrain suspends (server X)).Reachable (fun who => handle X (calls who)) start config

/-- Executions only move on, and the session of each has its row. -/
structure Standing (state : World X) (log : Log X) : Prop where
  placed : Placed state log
  owned : Owned state log
  later : ∀ entry ∈ log, ∀ (e : ExecId) (old : FlowExecution), entry.before.heap[e]? = some old →
    ∃ execution, state.heap[e]? = some execution ∧ old.Precedes execution
  row : ∀ (e : ExecId) (execution : FlowExecution), state.heap[e]? = some execution →
    (state.sessions execution.key.session).isSome

section Standing

variable {calls : Nat → Call X} {start state after : World X} {log : Log X} {who : Nat}
  {event : Event (sig X)} {call : Call X}

theorem Standing.later_exec (hstanding : Standing state log) (hstep : Step who state event after)
    {entry : Logged (sig X) (World X)} (hmem : entry ∈ log ++ [⟨who, state, event⟩]) {e : ExecId}
    {old : FlowExecution} (hold : entry.before.heap[e]? = some old) :
    ∃ execution, after.heap[e]? = some execution ∧ old.Precedes execution := by
  rcases List.mem_append.mp hmem with hmem | hmem
  · obtain ⟨middle, hmiddle, hfirst⟩ := hstanding.later entry hmem e old hold
    obtain ⟨execution, hafter, hsecond, _⟩ := hstep.execution_later hmiddle
    exact ⟨execution, hafter, hfirst.trans hsecond⟩
  · obtain rfl := List.mem_singleton.mp hmem
    obtain ⟨execution, hafter, hprecedes, _⟩ := hstep.execution_later hold
    exact ⟨execution, hafter, hprecedes⟩

theorem Standing.row_exec (hstanding : Standing state log)
    (hjustified : Justified call (own who log) event.op) (hstep : Step who state event after)
    {e : ExecId} {execution : FlowExecution} (hafter : after.heap[e]? = some execution) :
    (after.sessions execution.key.session).isSome := by
  refine hstep.row_stays ?_
  rcases hstep.execution hafter with hbefore | rfl | ⟨update, old, rfl, hold, rfl⟩ |
      ⟨old, rfl, hold, rfl⟩
  · exact hstanding.row e execution hbefore
  · obtain ⟨session, hopened, hsession⟩ := hjustified.opened_of_insert
    rw [hsession]
    exact hstanding.owned.row_of_opened hopened
  · exact hstanding.row e old hold
  · have hkey : old.completeCurrent.key = old.key := congrArg Plan.key old.completeCurrent_plan
    rw [hkey]
    exact hstanding.row e old hold

theorem standing_preserved :
    Preserved desk (fun who => handle X (calls who)) start Standing where
  exec := by
    intro who state after log event next hstanding _ hpath _ hexec
    have hjustified := justified_of_path hpath
    have hstep := exec_step hexec
    exact ⟨hstanding.placed.exec hjustified hexec, hstanding.owned.exec hexec,
      fun _ hmem _ _ => hstanding.later_exec hstep hmem,
      fun _ _ => hstanding.row_exec hjustified hstep⟩
  release := fun hstanding =>
    ⟨hstanding.placed.of_heap_eq rfl, hstanding.owned.release, hstanding.later, hstanding.row⟩
  moves := by
    intro state after log hstanding hmoves
    refine ⟨hstanding.placed.of_heap_eq hmoves.heap, hstanding.owned.moved hmoves, ?_, ?_⟩
    · rw [hmoves.heap]
      exact hstanding.later
    · rw [hmoves.heap, hmoves.sessions]
      exact hstanding.row

theorem standing_initial (hinitial : state.Initial) : Standing state [] where
  placed := placed_initial hinitial
  owned := owned_initial hinitial
  later := by
    intro entry hmem
    cases hmem
  row := by
    intro e execution hheap
    simp [hinitial.heap] at hheap

end Standing

section Obtained

variable {calls : Nat → Call X} {state : World X} {log past rest : Log X} {who : Nat}
  {key : FlowKey} {e : ExecId} {entry : Logged (sig X) (World X)}

/-- An execution that has been obtained is filed under its key. -/
theorem Owned.filed_of_obtained (howned : Owned state log)
    (hobtained : (key, e) ∈ obtained (own who log)) : state.FiledUnder e key := by
  obtain ⟨event, hmem, hobtains⟩ := List.mem_filterMap.mp hobtained
  obtain ⟨entry, hentry, _, rfl⟩ := mem_own.mp hmem
  unfold obtains at hobtains
  split at hobtains
  next asked answer hevent =>
    obtain ⟨found, rfl, heq⟩ := Option.map_eq_some_iff.mp hobtains
    cases heq
    exact howned.found entry hentry key e hevent
  next execution inserted hevent =>
    cases hobtains
    exact howned.inserted entry hentry execution e hevent
  next => cases hobtains

theorem issued_grounded (hissued : IssuedBy calls (past ++ entry :: rest)) :
    Grounded (own entry.who past) entry.event.op := by
  obtain ⟨⟨next, hpath⟩, _⟩ := hissued past entry rest rfl
  exact grounded_of_path hpath

/-- A request has obtained one execution at most. -/
theorem issued_obtained_unique (hissued : IssuedBy calls log)
    (hobtained : (key, e) ∈ obtained (own who log)) {key' : FlowKey} {e' : ExecId}
    (hobtained' : (key', e') ∈ obtained (own who log)) : key' = key ∧ e' = e := by
  obtain ⟨_, hpath⟩ := hissued.path who
  rcases obtained_of_path hpath with hnone | ⟨found, hfound⟩
  · rw [hnone] at hobtained
    cases hobtained
  · rw [hfound] at hobtained hobtained'
    obtain rfl := List.mem_singleton.mp hobtained
    cases List.mem_singleton.mp hobtained'
    exact ⟨rfl, rfl⟩

theorem obtained_own_mono (hobtained : (key, e) ∈ obtained (own who past)) :
    (key, e) ∈ obtained (own who (past ++ rest)) := by
  rw [own_append, obtained_append]
  exact List.mem_append_left _ hobtained

/-- A request names no other execution than the one that it obtains. -/
theorem issued_names (hissued : IssuedBy calls log)
    (hobtained : (key, e) ∈ obtained (own who log)) {event : Event (sig X)}
    (hmem : event ∈ own who log) {e' : ExecId} (hexecution : event.op.execution? = some e') :
    e' = e := by
  obtain ⟨entry, hentry, rfl, rfl⟩ := mem_own.mp hmem
  obtain ⟨past, rest, rfl⟩ := List.append_of_mem hentry
  obtain ⟨key', hnamed⟩ := (issued_grounded hissued).names hexecution
  exact (issued_obtained_unique hissued hobtained (obtained_own_mono hnamed)).2

end Obtained

/-- The execution was completed before the request began. -/
def BegunCompleted (log : Log X) (who : Nat) (e : ExecId) : Prop :=
  ∀ entry ∈ log, entry.who = who →
    ∃ execution, entry.before.heap[e]? = some execution ∧ execution.isCompleted = true

/-- The execution that a request obtains has been filed under the key since it is there. -/
theorem Standing.key_of_obtained {state : World X} {log : Log X} (hstanding : Standing state log)
    {who : Nat} {key : FlowKey} {e : ExecId} (hobtained : (key, e) ∈ obtained (own who log))
    {entry : Logged (sig X) (World X)} (hmem : entry ∈ log) {old : FlowExecution}
    (hold : entry.before.heap[e]? = some old) : old.key = key := by
  obtain ⟨execution, hheap, rfl⟩ := hstanding.owned.filed_of_obtained hobtained
  obtain ⟨later, hlater, hprecedes⟩ := hstanding.later entry hmem e old hold
  rw [hheap] at hlater
  cases hlater
  exact (congrArg Plan.key hprecedes.plan).symm

/-- What the work on a completed execution may change: the execution may leave the cache. -/
structure Untouched (key : FlowKey) (before : World X) (event : Event (sig X)) (after : World X) :
    Prop where
  heap : after.heap = before.heap
  sessions : after.sessions = before.sessions
  executions : after.executions = before.executions ∨ event.op = .invalidateExecution key ∧
    after.executions = Function.update before.executions key none

section Completed

variable {calls : Nat → Call X} {start state after : World X} {log past rest : Log X}
  {entry : Logged (sig X) (World X)} {key : FlowKey} {e : ExecId}

theorem Step.inserted_last {who : Nat} {before : World X} {execution : FlowExecution}
    {inserted : ExecId} (hstep : Step who before ⟨.insertExecution execution, inserted⟩ after) :
    inserted = before.heap.length := by
  cases hstep with
  | observe hobserves => cases hobserves
  | insertExecution => rfl

/-- A login has seen its execution open. -/
theorem SignedIn.asked {request : Request X} {session : Session} {e : ExecId} {user : PendingUser}
    {token : X.Token} {history : History X}
    (hsigned : SignedIn request session e user token history) :
    ⟨.isCompleted e, false⟩ ∈ history := by
  cases hsigned
  simp [entering]

/-- Such a request never sees the execution open. -/
theorem BegunCompleted.never_open {who : Nat} (hbegun : BegunCompleted log who e)
    (hissued : IssuedBy calls log) : ⟨.isCompleted e, false⟩ ∉ own who log := by
  intro hmem
  obtain ⟨⟨by', before, event⟩, hentry, hwho, rfl⟩ := mem_own.mp hmem
  obtain ⟨execution, hheap, hcompleted⟩ := hbegun _ hentry hwho
  obtain ⟨_, hexec⟩ := hissued.executed _ hentry
  obtain ⟨found, hfound, hopen⟩ := exec_isCompleted hexec
  simp only at hheap hfound
  rw [hheap] at hfound
  cases hfound
  rw [hcompleted] at hopen
  cases hopen

variable (hissued : IssuedBy calls (past ++ entry :: rest))
  (hobtained : (key, e) ∈ obtained (own entry.who (past ++ entry :: rest)))
  (hbegun : BegunCompleted (past ++ entry :: rest) entry.who e)

include hissued hobtained hbegun

/-- It has not marked its execution as open in its past either. -/
theorem past_never_open {e' : ExecId} : ⟨.isCompleted e', false⟩ ∉ own entry.who past := by
  intro hmem
  have hown : ⟨.isCompleted e', false⟩ ∈ own entry.who (past ++ entry :: rest) := own_mono hmem
  obtain rfl := issued_names hissued hobtained hown rfl
  exact hbegun.never_open hissued hown

/-- It updates no execution and takes no entry up. -/
theorem not_useMutContext {e' : ExecId} {update : ContextUpdate} :
    entry.event.op ≠ .useMutContext e' update := by
  intro hop
  have hjustified := issued_justified hissued
  rw [hop] at hjustified
  exact past_never_open hissued hobtained hbegun hjustified.update_open

/-- It starts no execution. -/
theorem not_insertExecution (hexec : (server X).Exec entry.who entry.before entry.event after)
    {execution : FlowExecution} {inserted : ExecId} :
    entry.event ≠ ⟨.insertExecution execution, inserted⟩ := by
  intro hevent
  obtain ⟨who, before, event⟩ := entry
  simp only at hevent
  subst hevent
  -- what it had started would be the execution it works on
  have hmine : (execution.key, inserted) ∈
      obtained (own who
        (past ++ ⟨who, before, ⟨.insertExecution execution, inserted⟩⟩ :: rest)) := by
    rw [own_append, own_cons_self]
    exact List.mem_filterMap.mpr ⟨_, List.mem_append_right _ List.mem_cons_self, rfl⟩
  obtain ⟨_, rfl⟩ := issued_obtained_unique hissued hobtained hmine
  obtain ⟨old, hold, _⟩ := hbegun _ (by simp) rfl
  have hlt := (List.getElem?_eq_some_iff.mp hold).1
  rw [(exec_step hexec).inserted_last] at hlt
  exact absurd hlt (Nat.lt_irrefl _)

/-- It creates no session, since the execution's own has been there before. -/
theorem not_insertSession (hfinal : Standing state (past ++ entry :: rest))
    (hpast : Standing entry.before past)
    (hexec : (server X).Exec entry.who entry.before entry.event after) {sid : String} :
    entry.event ≠ ⟨.insertSession sid, .ok ()⟩ := by
  intro hevent
  have hgrounded := issued_grounded hissued
  obtain ⟨old, hold, _⟩ := hbegun entry (by simp) rfl
  have hkey := hfinal.key_of_obtained hobtained (by simp) hold
  obtain ⟨who, before, event⟩ := entry
  simp only at hevent hgrounded hold
  subst hevent
  have hnone := hgrounded.insertSession_first
  -- the execution is obtained later on, under the key of the session that was created
  rw [own_append, own_cons_self, obtained_append, hnone, List.nil_append] at hobtained
  obtain ⟨event, hmem, hobtains⟩ := List.mem_filterMap.mp hobtained
  rcases List.mem_cons.mp hmem with rfl | hmem
  · cases hobtains
  obtain ⟨later, hlater, rfl, rfl⟩ := mem_own.mp hmem
  obtain ⟨front, back, rfl⟩ := List.append_of_mem hlater
  rw [← List.cons_append, ← List.append_assoc] at hissued
  have hkeyed := ((issued_grounded hissued).seeking hobtains).keyed sid <| by
    rw [own_append, own_cons_self]
    simp
  have hrow := hpast.row e old hold
  rw [hkey, hkeyed] at hrow
  cases exec_step hexec with
  | observe hobserves => cases hobserves
  | insertSession hfresh =>
      simp only at hrow
      rw [hfresh] at hrow
      cases hrow

/-- It has nothing to commit. -/
theorem nothing_to_commit (hstart : start.Initial)
    (hviewed : Viewed desk start (past ++ entry :: rest)) (hcommit : entry.event.op = .commit) :
    entry.before.transactions entry.who = [] := by
  have hjustified := issued_justified hissued
  rw [hcommit] at hjustified
  cases hjustified.committing with
  | @intro request session taken _ _ _ hlast =>
      rcases hlast with hunlisted | ⟨user, token, hsigned⟩
      · have hview : entry.before.transactions entry.who =
            ((own entry.who past).foldl Desk.next (start.desk entry.who)).updates :=
          congrArg Desk.updates (hviewed past entry rest rfl)
        rw [hview, Desk.foldl_updates hunlisted, hstart.desk]
      · exact absurd hsigned.asked (past_never_open hissued hobtained hbegun)

/-- Whatever it does, executions and sessions stay as they are. -/
theorem untouched_of_begunCompleted (hstart : start.Initial)
    (hviewed : Viewed desk start (past ++ entry :: rest))
    (hfinal : Standing state (past ++ entry :: rest)) (hpast : Standing entry.before past)
    (hexec : (server X).Exec entry.who entry.before entry.event after) :
    Untouched key entry.before entry.event after := by
  have hstep := exec_step hexec
  have hnamed : ∀ {e'}, entry.event.op.execution? = some e' → e' = e := by
    intro e' hexecution
    refine issued_names hissued hobtained ?_ hexecution
    rw [own_append, own_cons_self]
    exact List.mem_append_right _ List.mem_cons_self
  constructor
  · rcases hstep.heap with
      heq | ⟨execution, hevent, _⟩ | ⟨e', update, hevent, _⟩ | ⟨e', hevent, heq⟩
    · exact heq
    · exact absurd hevent (not_insertExecution hissued hobtained hbegun hexec)
    · exact absurd (congrArg Event.op hevent) (not_useMutContext hissued hobtained hbegun)
    · obtain rfl : e' = e := hnamed (by rw [hevent]; rfl)
      obtain ⟨execution, hheap, hcompleted⟩ := hbegun entry (by simp) rfl
      have hformed := hpast.placed.formed _ execution hheap
      rw [heq]
      refine List.ext_getElem? fun index => ?_
      by_cases hindex : e' = index
      · rw [← hindex, List.getElem?_modify_eq, hheap]
        exact congrArg some (hformed.completeCurrent_eq hcompleted)
      · rw [List.getElem?_modify_ne _ _ hindex]
  · rcases hstep.sessions with heq | ⟨sid, hevent, _⟩ | ⟨hevent, heq⟩
    · exact heq
    · exact absurd hevent (not_insertSession hissued hobtained hbegun hfinal hpast hexec)
    · rw [heq, nothing_to_commit hissued hobtained hbegun hstart hviewed (congrArg Event.op hevent)]
      rfl
  · rcases hstep.executions with heq | ⟨execution, hevent, _⟩ | ⟨dropped, hevent, heq⟩
    · exact Or.inl heq
    · exact absurd hevent (not_insertExecution hissued hobtained hbegun hexec)
    · have hjustified := issued_justified hissued
      rw [hevent] at hjustified
      obtain ⟨_, e', _, hasked⟩ := hjustified.found_of_invalidate
      have hown : ⟨.getKey e', dropped⟩ ∈ own entry.who (past ++ entry :: rest) := own_mono hasked
      obtain rfl := issued_names hissued hobtained hown rfl
      obtain ⟨before, middle, hmem, hgot⟩ := executed_of_own hissued.executed hown
      obtain ⟨old, hold, rfl⟩ := exec_getKey hgot
      have hkey := hfinal.key_of_obtained hobtained hmem hold
      rw [hkey] at hevent heq
      exact Or.inr ⟨congrArg Event.op hevent, heq⟩

end Completed

/-- The request leaves the completed execution it works on as it is, and every row of the table
of sessions; it may drop the execution from the cache, and then its answer is a redirect. -/
structure LeavesCompleted (config : Config (sig X) (World X) (Except ApiErrorKind Response))
    (who : Nat) (key : FlowKey) : Prop where
  steps : ∀ past entry rest after, config.log = past ++ entry :: rest → entry.who = who →
    (server X).Exec who entry.before entry.event after →
      Untouched key entry.before entry.event after
  redirects : ∀ result, config.procs who = .ended (.returned result) →
    Drops (own who config.log) → Redirects result

/-- The position of every execution, in the state of a configuration and along its log. -/
structure PositionsHold (config : Config (sig X) (World X) (Except ApiErrorKind Response)) :
    Prop where
  formed : ∀ (e : ExecId) (execution : FlowExecution), config.state.heap[e]? = some execution →
    execution.WellFormed
  entry : ∀ who e next, config.procs who = .waiting (.getEntry e) next →
    ∃ answer, ∀ choice, exec X who (.getEntry e) choice config.state = some (answer, config.state)
  later : ∀ entry ∈ config.log, ∀ (e : ExecId) (old : FlowExecution),
    entry.before.heap[e]? = some old → ∃ execution, config.state.heap[e]? = some execution ∧
      old.Precedes execution ∧
        (old.isCompleted = true → execution.currentEntryIdx = old.currentEntryIdx)
  completed : ∀ who key e, (key, e) ∈ obtained (own who config.log) →
    BegunCompleted config.log who e → LeavesCompleted config who key

section Runs

variable {suspends : Op X → Bool} {calls : Nat → Call X} {start : World X}
  {config : Config (sig X) (World X) (Except ApiErrorKind Response)}

/-- What is known of a run, wherever its await points are. -/
theorem interleavedAt_standing (hstart : start.Initial)
    (hreach : InterleavedAt suspends calls start config) :
    Standing config.state config.log ∧
      Throughout (fun past entry => Standing entry.before past) config.log ∧
        Viewed desk start config.log ∧ IssuedBy calls config.log ∧
          ∀ who left, (config.procs who).left = some left →
            Path (handle X (calls who)) (own who config.log) left := by
  obtain ⟨⟨hstanding, hthroughout⟩, hissued, hlinked⟩ :=
    hreach.holds (standing_preserved.throughout.regrain) ⟨standing_initial hstart, throughout_nil⟩
  have hviewed := (hreach.holds ((@viewed_preserved _ _ _ _ (server X) _ desk _ start).regrain)
    throughout_nil).1
  exact ⟨hstanding, hthroughout, hviewed, hissued, hlinked.path⟩

/-- A request that is about to ask for the current entry is answered. -/
theorem Standing.entry_answered {state : World X} {log : Log X} (hstanding : Standing state log)
    {call : Call X} {who : Nat} {e : ExecId}
    {next : Op.Res (.getEntry e : Op X) → Task (sig X) (Except ApiErrorKind Response)}
    (hpath : Path (handle X call) (own who log) (@Coop.Task.call (sig X) _ (.getEntry e) next)) :
    ∃ answer, ∀ choice, exec X who (.getEntry e) choice state = some (answer, state) := by
  obtain ⟨key, hobtained⟩ := (grounded_of_path hpath).names rfl
  obtain ⟨execution, hheap, _⟩ := hstanding.owned.filed_of_obtained hobtained
  have hindex := (hstanding.placed.formed e execution hheap).index
  refine ⟨(execution.currentEntryIdx, execution.flow.entries[execution.currentEntryIdx]), ?_⟩
  intro choice
  simp [exec, hheap, FlowExecution.getEntry, hindex]

/-- In every run, wherever the await points are: the index of each execution stays within its
entries and never decreases, a completed execution stays completed and at its last entry, and
a request that begins then leaves it and the sessions as they are. -/
theorem interleaved_positions_hold (hstart : start.Initial)
    (hreach : InterleavedAt suspends calls start config) : PositionsHold config := by
  obtain ⟨hfinal, hthroughout, hviewed, hissued, hpath⟩ := interleavedAt_standing hstart hreach
  constructor
  · exact hfinal.placed.formed
  · intro who e next hwaiting
    exact hfinal.entry_answered (hpath who _ (by rw [hwaiting]; rfl))
  · intro entry hmem e old hold
    obtain ⟨execution, hheap, hprecedes⟩ := hfinal.later entry hmem e old hold
    refine ⟨execution, hheap, hprecedes, fun hcompleted => ?_⟩
    obtain ⟨past, rest, hlog⟩ := List.append_of_mem hmem
    have hbefore :=
      ((hthroughout past entry rest hlog).placed.formed e old hold).completed hcompleted
    have hafter :=
      (hfinal.placed.formed e execution hheap).completed (hprecedes.completed hcompleted)
    have hflow : execution.flow = old.flow := congrArg Plan.flow hprecedes.plan
    rw [hflow] at hafter
    omega
  · intro who key e hobtained hbegun
    constructor
    · rintro past entry rest after hlog rfl hexec
      have hpast := hthroughout past entry rest hlog
      rw [hlog] at hissued hobtained hbegun hviewed hfinal
      exact untouched_of_begunCompleted hissued hobtained hbegun hstart hviewed hfinal hpast hexec
    · intro result hended hdrops
      refine redirects_of_drops (hpath who (.done result) ?_) hdrops
      rw [hended]
      rfl

end Runs

section Revisit

/-- The flow is fetched, completed and, by a request that says where to go next, fetched again. -/
def revisitCalls : Nat → Call Externals.plain
  | 0 => sampleGet
  | 1 => memberLogin
  | _ => .getFlow { sampleRequest [] with next := some "/" }

def revisitSchedule : List (Act Choice) :=
  Act.awaits 0 .normal 28 ++ Act.awaits 1 .normal 39 ++ Act.awaits 2 .normal 19

/-- Run a schedule in which every operation is an await point. -/
def sampleRunFine (start : World Externals.plain) (calls : Nat → Call Externals.plain)
    (schedule : List (Act Choice)) :
    Option (Config (sig Externals.plain) (World Externals.plain) (Except ApiErrorKind Response)) :=
  (regrain (fun _ => true) (server Externals.plain)).acts
    ⟨start, fun who => .running (handle Externals.plain (calls who)), []⟩ schedule

def begunCompleted (log : Log X) (who : Nat) (e : ExecId) : Bool :=
  log.all fun entry =>
    entry.who != who || entry.before.heap[e]?.any FlowExecution.isCompleted

theorem begunCompleted_sound {log : Log X} {who : Nat} {e : ExecId}
    (hbegun : begunCompleted log who e = true) : BegunCompleted log who e := by
  intro entry hmem hwho
  have hentry := List.all_eq_true.mp hbegun entry hmem
  simpa [hwho, Option.any_eq_true] using hentry

theorem revisit_run : (sampleRunFine oneForm revisitCalls revisitSchedule).map
    (fun config => (config.state.heap.map FlowExecution.currentEntryIdx,
      begunCompleted config.log 2 0)) = some ([1], true) := by
  decide +kernel

/-- The completed flow is fetched once more. -/
theorem revisit_positions_hold :
    ∃ config, InterleavedAt (fun _ => true) revisitCalls oneForm config ∧
    config.state.heap.map FlowExecution.currentEntryIdx = [1] ∧
      BegunCompleted config.log 2 0 ∧ PositionsHold config := by
  obtain ⟨config, hrun, hresult⟩ := Option.map_eq_some_iff.mp revisit_run
  rw [Prod.mk.injEq] at hresult
  have hreach : InterleavedAt (fun _ => true) revisitCalls oneForm config :=
    Reachable.acts .start _ hrun
  exact ⟨config, hreach, hresult.1, begunCompleted_sound hresult.2,
    interleaved_positions_hold (World.boot_initial _ _ _ _ _ _) hreach⟩

end Revisit

end Authust
