import Authust.Server.Ownership
import Authust.Server.Endings
import Authust.Server.Passage

/-! # Requests that end without a commit

The database forgets what such a request has done; the execution in memory does not. Its
progress is as it was only where the request had not come as far as moving it.
-/

namespace Authust

open Coop Coop.Task Coop.Machine

variable {X : Externals}

/-- What requests move of an execution. -/
structure Progress where
  currentEntryIdx : Nat
  isCompleted : Bool
  pending : Option PendingUser
  error : Option ExecutionError
  deriving DecidableEq

def FlowExecution.progress (execution : FlowExecution) : Progress where
  currentEntryIdx := execution.currentEntryIdx
  isCompleted := execution.isCompleted
  pending := execution.context.pending
  error := execution.context.error

/-- The request has ended in an error or was cut off, and its transaction is not committed. -/
structure Abandoned (reply : Reply X) : Prop where
  uncommitted : (⟨.commit, .ok ()⟩ : Event (sig X)) ∉ reply.log.map Logged.event
  unanswered : ∀ response, reply.ending ≠ .returned (.ok response)

/-- The request has not reached its first `complete_current`, and a user it has made pending
was pending already. -/
structure Unadvanced (reply : Reply X) (e : ExecId) (execution : FlowExecution) : Prop where
  advance : (⟨.completeCurrent e, ()⟩ : Event (sig X)) ∉ reply.log.map Logged.event
  pending : ∀ user, (⟨.useMutContext e (.setPending user), ()⟩ : Event (sig X)) ∈
    reply.log.map Logged.event → execution.context.pending = some user

section Updates

variable {call : Call X} {history : History X} {e : ExecId}

/-- Only an open execution is updated. -/
theorem Justified.update_open {update : ContextUpdate}
    (hjustified : Justified call history (.useMutContext e update)) :
    ⟨.isCompleted e, false⟩ ∈ history := by
  cases hjustified with
  | plain hplain => cases hplain
  | setPending _ _ _ _ => simp [entering]
  | authenticate _ _ _ _ _ => simp [entering]
  | setError _ _ _ _ => simp [entering]

theorem not_justified_insertExecution {request : Request X} {execution : FlowExecution} :
    ¬ Justified (.postFlow request) history (.insertExecution execution) := by
  intro hjustified
  cases hjustified with
  | plain hplain => cases hplain

theorem Justified.setError_advanced {error : ExecutionError}
    (hjustified : Justified call history (.useMutContext e (.setError error))) :
    ⟨.completeCurrent e, ()⟩ ∈ history := by
  cases hjustified with
  | plain hplain => cases hplain
  | setError hcompleting _ _ _ =>
      cases hcompleting with
      | intro middle _ _ => simp

end Updates

section Abandoned

variable {request : Request X} {reply : Reply X} {e : ExecId} {execution : FlowExecution}

variable (hserves : (server X).Serves (handle X (.postFlow request)) reply)
  (hheap : reply.before.heap[e]? = some execution)

include hserves hheap

/-- However a POST ends, it does not end between marking a user and completing the entry. -/
theorem authenticate_advances
    (hmarked : ⟨.useMutContext e .authenticate, ()⟩ ∈ reply.log.map Logged.event) :
    ⟨.completeCurrent e, ()⟩ ∈ reply.log.map Logged.event := by
  obtain ⟨past, tail, hevents⟩ := List.append_of_mem hmarked
  obtain ⟨rest, hpath, hstops⟩ := hserves.stops
  rcases authenticate_completes hpath hevents with ⟨more, rfl⟩ | ⟨rfl, next, rfl⟩
  · simp [hevents]
  · obtain ⟨later, hlater, _⟩ := chain_execution_later hserves.chain hheap
    generalize reply.log = log at hevents hstops
    generalize reply.ending = ending at hstops
    cases hstops with
    | panicked choice hpanic => simp [machine, exec, hlater] at hpanic
    | waiting hsuspends => cases hsuspends
    | @answered _ log entry _ hsuspends =>
        rw [List.map_append, List.map_singleton] at hevents
        obtain ⟨_, hlast⟩ := List.append_inj' hevents rfl
        rw [List.singleton_inj.mp hlast] at hsuspends
        cases hsuspends

/-- Short of completing an entry, a POST only sets the pending user. -/
theorem update_pending
    (hadvance : (⟨.completeCurrent e, ()⟩ : Event (sig X)) ∉ reply.log.map Logged.event)
    {update : ContextUpdate}
    (hupdate : ⟨.useMutContext e update, ()⟩ ∈ reply.log.map Logged.event) :
    ∃ user, update = .setPending user := by
  cases update with
  | setPending user => exact ⟨user, rfl⟩
  | authenticate => exact absurd (authenticate_advances hserves hheap hupdate) hadvance
  | setError error =>
      obtain ⟨past, tail, hevents⟩ := List.append_of_mem hupdate
      have hcompleted := (served_justified hserves hevents).setError_advanced
      refine absurd ?_ hadvance
      rw [hevents]
      exact List.mem_append_left _ hcompleted

theorem kept_of_unadvanced (hunadvanced : Unadvanced reply e execution) :
    ∃ later, reply.after.heap[e]? = some later ∧ later.progress = execution.progress := by
  refine hserves.chain.invariant
    (fun state => ∃ later, state.heap[e]? = some later ∧ later.progress = execution.progress) ?_
    ⟨execution, hheap, rfl⟩
  rintro state event next ⟨entry, hmem, rfl, _⟩ hexec ⟨later, hlater, hprogress⟩
  have hevent : entry.event ∈ reply.log.map Logged.event := List.mem_map_of_mem hmem
  rcases (exec_step hexec).execution_stays hlater with hsame | ⟨update, hop, hafter⟩ | ⟨hop, _⟩
  · exact ⟨later, hsame, hprogress⟩
  · rw [hop] at hevent
    obtain ⟨user, rfl⟩ := update_pending hserves hheap hunadvanced.advance hevent
    refine ⟨_, hafter, ?_⟩
    have hpending : later.context.pending = some user := by
      rw [← hunadvanced.pending user hevent]
      exact congrArg Progress.pending hprogress
    rw [← hprogress]
    simp [FlowExecution.progress, FlowExecution.useMutContext, ContextUpdate.apply, hpending]
  · rw [hop] at hevent
    exact absurd hevent hunadvanced.advance

theorem open_of_asked (hasked : ⟨.isCompleted e, false⟩ ∈ reply.log.map Logged.event) :
    execution.isCompleted = false := by
  obtain ⟨_, _, _, _, _, hearlier, hasking, _⟩ := hserves.chain.of_mem hasked
  obtain ⟨old, hold, hprecedes⟩ := chain_execution_later hearlier hheap
  obtain ⟨found, hfound, hopen⟩ := exec_isCompleted hasking
  rw [hold] at hfound
  cases hfound
  by_contra hcompleted
  rw [Bool.not_eq_false] at hcompleted
  rw [hprecedes.completed hcompleted] at hopen
  cases hopen

/-- A POST on a completed execution leaves it as it is. -/
theorem kept_of_completed (hformed : execution.WellFormed)
    (hcompleted : execution.isCompleted = true) : reply.after.heap[e]? = some execution := by
  refine hserves.chain.snoc_induction (motive := fun _ state => state.heap[e]? = some execution)
    hheap ?_
  intro first state event next second hlog hchain hexec hstate
  rcases (exec_step hexec).execution_stays hstate with hsame | ⟨update, rfl, _⟩ | ⟨rfl, hafter⟩
  · exact hsame
  · -- the request has seen the execution open
    have hevents : reply.log.map Logged.event = first.map Logged.event ++
        ⟨.useMutContext e update, ()⟩ :: second.map Logged.event := by
      rw [hlog, List.map_append, List.map_cons]
    have hasked := (served_justified hserves hevents).update_open
    have hopen := open_of_asked hserves hheap (by
      rw [hevents]
      exact List.mem_append_left _ hasked)
    rw [hcompleted] at hopen
    cases hopen
  · rw [hafter, hformed.completeCurrent_eq hcompleted]

theorem moved_of_advanced (hopen : execution.isCompleted = false)
    (hadvance : ⟨.completeCurrent e, ()⟩ ∈ reply.log.map Logged.event) {later : FlowExecution}
    (hlater : reply.after.heap[e]? = some later) : later.progress ≠ execution.progress := by
  intro hprogress
  obtain ⟨_, _, _, _, _, hearlier, hexec, hrest⟩ := hserves.chain.of_mem hadvance
  obtain ⟨old, hold, hbefore⟩ := chain_execution_later hearlier hheap
  obtain ⟨last, hlast, hafter⟩ := chain_execution_later hrest (exec_completeCurrent hexec hold)
  rw [hlater] at hlast
  cases hlast
  have hindex : later.currentEntryIdx = execution.currentEntryIdx :=
    congrArg Progress.currentEntryIdx hprogress
  have hstill : later.isCompleted = false :=
    (congrArg Progress.isCompleted hprogress).trans hopen
  have hincomplete : old.completeCurrent.isCompleted = false := by
    by_contra hcompleted
    rw [Bool.not_eq_false] at hcompleted
    rw [hafter.completed hcompleted] at hstill
    cases hstill
  have hmoved := FlowExecution.completeCurrent_index_eq hincomplete
  have hfirst := hbefore.index
  have hthen := hafter.index
  omega

theorem moved_of_pending
    (hadvance : (⟨.completeCurrent e, ()⟩ : Event (sig X)) ∉ reply.log.map Logged.event)
    {user : PendingUser}
    (hset : ⟨.useMutContext e (.setPending user), ()⟩ ∈ reply.log.map Logged.event) :
    ∃ later, reply.after.heap[e]? = some later ∧ later.context.pending = some user := by
  obtain ⟨first, marked, _, _, hlog, _, hexec, hrest⟩ := hserves.chain.of_mem hset
  obtain ⟨old, _, hmiddle⟩ := exec_useMutContext hexec
  refine hrest.snoc_induction (motive := fun _ state =>
    ∃ later, state.heap[e]? = some later ∧ later.context.pending = some user)
    ⟨_, hmiddle, rfl⟩ ?_
  rintro front state event next back rfl _ hstep ⟨later, hlater, hpending⟩
  have hevents : reply.log.map Logged.event =
      (first.map Logged.event ++ ⟨.useMutContext e (.setPending user), ()⟩ ::
        front.map Logged.event) ++ event :: back.map Logged.event := by
    rw [hlog]
    simp
  rcases (exec_step hstep).execution_stays hlater with hsame | ⟨update, rfl, _⟩ | ⟨rfl, _⟩
  · exact ⟨later, hsame, hpending⟩
  · -- a second user would have been set after the first
    have hupdate : ⟨.useMutContext e update, ()⟩ ∈ reply.log.map Logged.event := by
      rw [hevents]
      simp
    obtain ⟨again, rfl⟩ := update_pending hserves hheap hadvance hupdate
    have huntouched := (served_justified hserves hevents).setPending_untouched
      ⟨.useMutContext e (.setPending user), ()⟩ (by simp)
    cases huntouched
  · exact absurd (by simp [hevents]) hadvance

omit hheap in
/-- A POST starts no execution. -/
theorem post_heap_length : reply.after.heap.length = reply.before.heap.length := by
  refine hserves.chain.snoc_induction
    (motive := fun _ state => state.heap.length = reply.before.heap.length) rfl ?_
  intro first state event next second hlog _ hexec hlength
  rw [← hlength]
  rcases (exec_step hexec).heap with heq | ⟨inserted, rfl, _⟩ | ⟨_, _, _, heq⟩ | ⟨_, _, heq⟩
  · rw [heq]
  · have hevents : reply.log.map Logged.event = first.map Logged.event ++
        ⟨.insertExecution inserted, state.heap.length⟩ :: second.map Logged.event := by
      rw [hlog, List.map_append, List.map_cons]
    exact absurd (served_justified hserves hevents) not_justified_insertExecution
  · rw [heq, List.length_modify]
  · rw [heq, List.length_modify]

end Abandoned

section Logins

variable {start state : World X} {runs first second : List (Call X × Reply X)} {call : Call X}
  {reply : Reply X} {e : ExecId} {index : Nat}

/-- Whoever updates the session row has completed an entry of the execution before. -/
theorem Justified.updateSession_advanced {past : History X} {context : ExecutionContext}
    {added : Option X.Token} {token : X.Token} {sql : String} {uid : Uuid} {sid : String}
    (hjustified : Justified call (past ++ [⟨.readContext e, context⟩, ⟨.addedCookie, added⟩,
      ⟨.addCookie token, ()⟩, ⟨.prepareCached sql, .ok ()⟩]) (.updateSession uid sid)) :
    ⟨.completeCurrent e, ()⟩ ∈ past := by
  generalize hhistory : past ++ _ = history at hjustified
  cases hjustified with
  | plain hplain => cases hplain
  | updateSession hcompleting _ _ _ _ =>
      obtain ⟨rfl, hlast⟩ := List.append_inj' hhistory rfl
      cases hlast
      cases hcompleting with
      | intro middle _ _ => simp

/-- A login comes after the completion of the entry that its POST submitted. -/
theorem LoggedIn.advanced (hserves : (server X).Serves (handle X call) reply)
    (hlogin : LoggedIn call reply e index) :
    ⟨.isCompleted e, false⟩ ∈ reply.log.map Logged.event ∧
      ⟨.completeCurrent e, ()⟩ ∈ reply.log.map Logged.event := by
  cases hlogin with
  | @intro request session past rest entry stage context added token user _ _ _ _ _ hevents =>
      refine ⟨by simp [hevents, entering], ?_⟩
      have hupdate : reply.log.map Logged.event = past ++ entering e index entry stage ++
          [⟨.readContext e, context⟩, ⟨.addedCookie, added⟩, ⟨.addCookie token, ()⟩,
            ⟨.prepareCached "update sessions set user_id = $1 where uid = $2", .ok ()⟩] ++
            ⟨.updateSession user.uid session.sessionId, .ok ()⟩ :: rest := by
        rw [hevents]
        simp [loginEvents]
      have hadvanced := (served_justified hserves hupdate).updateSession_advanced
      rw [hupdate]
      exact List.mem_append_left _ (List.mem_append_left _ hadvanced)

/-- The update of a login, on an execution that the call has found for the session before. -/
theorem LoggedIn.update (hlogin : LoggedIn call reply e index) :
    ∃ request session past uid rest, call = .postFlow request ∧
      Found (.postFlow request) past session e ∧
        reply.log.map Logged.event =
          past ++ ⟨.updateSession uid session.sessionId, .ok ()⟩ :: rest := by
  cases hlogin with
  | @intro request session past rest entered stage context added token user hcall hfound _
      _ _ hevents =>
      subst hcall
      refine ⟨request, session, past ++ (entering e index entered stage ++
        [⟨.readContext e, context⟩, ⟨.addedCookie, added⟩, ⟨.addCookie token, ()⟩,
          ⟨.prepareCached "update sessions set user_id = $1 where uid = $2", .ok ()⟩]),
        user.uid, rest, rfl, hfound.append _, ?_⟩
      rw [hevents]
      simp [loginEvents]

/-- The call has logged somebody in to the session, and has committed that as the last it did. -/
def CommitsLogin (reply : Reply X) (sid : String) : Prop :=
  ∃ uid past rest, reply.log.map Logged.event =
    past ++ ⟨.updateSession uid sid, .ok ()⟩ :: (rest ++ [⟨.commit, .ok ()⟩])

/-- A committed login is one to the session that the execution is filed under, and is in its
row. -/
theorem LoggedIn.row (hstart : start.Initial) (hrun : OneByOne start runs state)
    (hruns : runs = first ++ (call, reply) :: second) (hlogin : LoggedIn call reply e index)
    (hcommitted : ⟨.commit, .ok ()⟩ ∈ reply.log.map Logged.event) {execution : FlowExecution}
    (hheap : state.heap[e]? = some execution) :
    CommitsLogin reply execution.key.session ∧
      ∃ uid, state.sessions execution.key.session = some (some uid) := by
  obtain ⟨howned, hownedbefore⟩ := served_owned hstart hrun
  obtain ⟨request, session, past, uid, rest, rfl, hfound, hupdate⟩ := hlogin.update
  obtain ⟨_, hpath, _⟩ := (hrun.request hruns).2.2.stops
  obtain ⟨front, rfl⟩ := commit_after hpath (by simp) hupdate hcommitted
  have hcut : reply.log.map Logged.event = (past ++
      ⟨.updateSession uid session.sessionId, .ok ()⟩ :: front) ++ [⟨.commit, .ok ()⟩] := by
    rw [hupdate]
    simp
  obtain ⟨mine, last, hreply, hmine, hlast⟩ := List.map_eq_append_iff.mp hcut
  obtain ⟨entry, rfl, hentry⟩ := List.map_eq_singleton_iff.mp hlast
  have hwithin := within_of_reply hrun hruns hreply
  have hlog : logOf runs = (logOf first ++ mine) ++ entry :: logOf second := by
    rw [hruns, logOf_append, logOf_cons, hreply]
    simp
  have hmem : entry ∈ logOf runs := by
    rw [hlog]
    simp
  have hbefore := hownedbefore _ _ _ hlog
  -- the commit finds the update among those of the transaction
  have hlisted : (uid, session.sessionId) ∈ entry.before.transactions entry.who := by
    have hview := congrArg Desk.updates (hwithin.chain.view_eq desk)
    rw [hmine] at hview
    rw [hwithin.who]
    change _ ∈ (entry.before.desk reply.who).updates
    rw [show entry.before.desk reply.who = desk.view reply.who entry.before from rfl, hview]
    exact Desk.mem_foldl_updates (uncommitted_before hpath hcut) (by simp) _
  -- the session of the update is the one that the execution is filed under
  have hfiled : Found (.postFlow request) (own entry.who (logOf first ++ mine)) session e := by
    rw [hwithin.own_eq, hmine]
    exact hfound.append _
  obtain ⟨_, _, old, hold, hkey⟩ := hbefore.filed_of_found hfiled
  obtain ⟨later, hlater, hplan⟩ := (served_placed hstart hrun).1.planned entry hmem e old hold
  rw [hheap] at hlater
  cases hlater
  have hsame : execution.key = old.key := congrArg Plan.key hplan
  rw [hsame, hkey]
  refine ⟨⟨uid, past, front, hupdate⟩, ?_⟩
  exact howned.committed entry hmem hentry _ _ hlisted (hbefore.row_of_opened hfiled.opened)

end Logins

/-- A POST served on its own leaves the progress of an execution as it was, exactly if the
execution was completed before or the POST has not advanced it. -/
theorem progress_kept_iff {calls : Nat → Call X} {start : World X}
    {config : Config (sig X) (World X) (Except ApiErrorKind Response)} (hstart : start.Initial)
    (hreach : Interleaved calls start config) {request : Request X} {reply : Reply X}
    (hbefore : reply.before = config.state)
    (hserves : (server X).Serves (handle X (.postFlow request)) reply) {e : ExecId}
    {execution : FlowExecution} (hheap : config.state.heap[e]? = some execution) :
    (∃ later, reply.after.heap[e]? = some later ∧ later.progress = execution.progress) ↔
      execution.isCompleted = true ∨ Unadvanced reply e execution := by
  have hformed := (interleaved_placed hstart hreach).1.formed e execution hheap
  rw [← hbefore] at hheap
  constructor
  · rintro ⟨later, hlater, hprogress⟩
    by_contra hmoved
    rw [not_or, Bool.not_eq_true] at hmoved
    obtain ⟨hopen, hadvanced⟩ := hmoved
    apply hadvanced
    have hadvance : (⟨.completeCurrent e, ()⟩ : Event (sig X)) ∉ reply.log.map Logged.event :=
      fun hadvance => moved_of_advanced hserves hheap hopen hadvance hlater hprogress
    refine ⟨hadvance, fun user hset => ?_⟩
    obtain ⟨last, hlast, hpending⟩ := moved_of_pending hserves hheap hadvance hset
    rw [hlater] at hlast
    cases hlast
    rw [← hpending]
    exact (congrArg Progress.pending hprogress).symm
  · rintro (hcompleted | hunadvanced)
    · exact ⟨execution, kept_of_completed hserves hheap hformed hcompleted, rfl⟩
    · exact kept_of_unadvanced hserves hheap hunadvanced

/-- Every abandoned POST of the run has found each execution completed or has not advanced
it. -/
def AbandonedUnadvanced (runs : List (Call X × Reply X)) : Prop :=
  ∀ run ∈ runs, ∀ request, run.1 = .postFlow request → Abandoned run.2 →
    ∀ (e : ExecId) (execution : FlowExecution), run.2.before.heap[e]? = some execution →
      execution.isCompleted = true ∨ Unadvanced run.2 e execution

/-- Where an execution is past a UserLogin entry, a call has logged in at that entry and has
committed the login, and the session has a user in its row. -/
def LoginsCommitted (runs : List (Call X × Reply X)) (w : World X) : Prop :=
  ∀ (e : ExecId) (execution : FlowExecution) index stage, w.heap[e]? = some execution →
    execution.plan.stageAt index = some stage → stage.kind = .userLogin →
      (index < execution.currentEntryIdx ∨ execution.isCompleted = true) →
        (∃ run ∈ runs, LoggedIn run.1 run.2 e index ∧
            CommitsLogin run.2 execution.key.session) ∧
          ∃ uid, w.sessions execution.key.session = some (some uid)

/-- A login that moved its execution has been committed, unless its POST was abandoned. -/
theorem LoggedIn.commits {call : Call X} {reply : Reply X} {e : ExecId} {index : Nat}
    (hserves : (server X).Serves (handle X call) reply) (hlogin : LoggedIn call reply e index)
    (hkept : ∀ request, call = .postFlow request → Abandoned reply →
      ∀ (e : ExecId) (execution : FlowExecution), reply.before.heap[e]? = some execution →
        execution.isCompleted = true ∨ Unadvanced reply e execution) :
    ⟨.commit, .ok ()⟩ ∈ reply.log.map Logged.event := by
  obtain ⟨hasked, hadvanced⟩ := hlogin.advanced hserves
  obtain ⟨request, rfl⟩ : ∃ request, call = .postFlow request := by
    cases hlogin with
    | intro hcall _ _ _ _ _ => exact ⟨_, hcall⟩
  by_contra huncommitted
  by_cases hanswered : ∃ response, reply.ending = .returned (.ok response)
  · obtain ⟨response, hending⟩ := hanswered
    exact huncommitted (answered_commits (hserves.trace hending) hadvanced)
  · rw [not_exists] at hanswered
    obtain ⟨_, before, _, _, _, _, hexec, hrest⟩ := hserves.chain.of_mem hadvanced
    obtain ⟨old, hold⟩ : ∃ old, before.heap[e]? = some old := by
      obtain ⟨choice, hexec⟩ := hexec
      obtain ⟨old, hold, _⟩ := Option.map_eq_some_iff.mp hexec
      exact ⟨old, hold⟩
    obtain ⟨later, hlater, _⟩ := chain_execution_later hrest (exec_completeCurrent hexec hold)
    have hlt := (List.getElem?_eq_some_iff.mp hlater).1
    rw [post_heap_length hserves] at hlt
    obtain ⟨execution, hheap⟩ : ∃ execution, reply.before.heap[e]? = some execution :=
      ⟨_, List.getElem?_eq_getElem hlt⟩
    rcases hkept request rfl ⟨huncommitted, hanswered⟩ e execution hheap with
      hcompleted | hunadvanced
    · rw [open_of_asked hserves hheap hasked] at hcompleted
      cases hcompleted
    · exact hunadvanced.advance hadvanced

/-- Served one after another, calls never leave an execution past a UserLogin entry without the
login in the sessions table, as long as abandoned POSTs do not advance executions and nobody's
submission is admitted at such an entry. -/
theorem logins_committed {start state : World X} {runs : List (Call X × Reply X)}
    (hstart : start.Initial) (hrun : OneByOne start runs state)
    (hnever : NeverSubmittedAt .userLogin runs) (hkept : AbandonedUnadvanced runs) :
    LoginsCommitted runs state := by
  intro e execution index stage hheap hstage hkind hpassed
  obtain ⟨hplaced, _⟩ := served_placed hstart hrun
  have hpast := (hplaced.formed e execution hheap).passed hstage hpassed
  rw [← hkind] at hnever
  obtain ⟨_, ⟨call, reply⟩, hmem, hlogin⟩ :=
    passed_by_login hstart hrun (List.append_nil _).symm hplaced hheap hstage hnever hpast
  obtain ⟨first, second, hruns⟩ := List.append_of_mem hmem
  have hcommitted := hlogin.commits (hrun.request hruns).2.2 (hkept (call, reply) hmem)
  obtain ⟨hcommits, hrow⟩ := hlogin.row hstart hrun hruns hcommitted hheap
  exact ⟨⟨(call, reply), hmem, hlogin, hcommits⟩, hrow⟩

/-- Memory and database move together, exactly as far as a POST that does not commit has not
advanced an open execution; and then no execution is past an entry whose login has not been
committed. -/
theorem abandoned_progress_kept {start : World X} (hstart : start.Initial) :
    (∀ (calls : Nat → Call X) (config : Config (sig X) (World X) (Except ApiErrorKind Response))
      (request : Request X) (reply : Reply X) (e : ExecId) (execution : FlowExecution),
      Interleaved calls start config → reply.before = config.state →
        (server X).Serves (handle X (.postFlow request)) reply → Abandoned reply →
          config.state.heap[e]? = some execution →
            ((∃ later, reply.after.heap[e]? = some later ∧ later.progress = execution.progress) ↔
              execution.isCompleted = true ∨ Unadvanced reply e execution)) ∧
      ∀ (runs : List (Call X × Reply X)) (state : World X), OneByOne start runs state →
        NeverSubmittedAt .userLogin runs → AbandonedUnadvanced runs →
          LoginsCommitted runs state := by
  refine ⟨?_, ?_⟩
  · intro calls config request reply e execution hreach hbefore hserves _ hheap
    exact progress_kept_iff hstart hreach hbefore hserves hheap
  · intro runs state hrun hnever hkept
    exact logins_committed hstart hrun hnever hkept

section RollbackRuns

/-- The form has been fetched; the member's login is served next, with its own script. -/
def fetched : Option (Config (sig Externals.plain) (World Externals.plain)
    (Except ApiErrorKind Response)) :=
  sampleRun oneForm (fun _ => sampleGet) (Act.awaits 0 .normal 11)

def servedLogin (script : Nat → Turn Choice)
    (config : Config (sig Externals.plain) (World Externals.plain) (Except ApiErrorKind Response)) :
    Reply Externals.plain :=
  (server Externals.plain).served 1 (handle Externals.plain memberLogin) script config.state

/-- The statement that looks the member up fails, after the check has admitted the login. -/
def lookupFails (index : Nat) : Turn Choice :=
  ⟨if index = 15 then .fail false else .normal, .never⟩

/-- The commit, the last operation of the login, fails. -/
def commitFails (index : Nat) : Turn Choice :=
  ⟨if index = 38 then .fail false else .normal, .never⟩

def answers (reply : Reply X) : Bool :=
  match reply.ending with
  | .returned (.ok _) => true
  | _ => false

def commits (reply : Reply X) : Bool :=
  reply.log.any fun entry =>
    match entry.event with
    | ⟨.commit, .ok _⟩ => true
    | _ => false

def abandons (reply : Reply X) : Bool := !answers reply && !commits reply

theorem abandoned_of_abandons {reply : Reply X} (habandons : abandons reply = true) :
    Abandoned reply := by
  rw [abandons, Bool.and_eq_true, Bool.not_eq_true', Bool.not_eq_true'] at habandons
  refine ⟨?_, ?_⟩
  · intro hmem
    obtain ⟨entry, hentry, hevent⟩ := List.mem_map.mp hmem
    have hcommit : commits reply = true := by
      refine List.any_eq_true.mpr ⟨entry, hentry, ?_⟩
      rw [hevent]
    rw [habandons.2] at hcommit
    cases hcommit
  · intro response hending
    simp [answers, hending] at habandons

theorem not_abandoned_of_answers {reply : Reply X} (hanswers : answers reply = true) :
    ¬ Abandoned reply := by
  intro habandoned
  unfold answers at hanswers
  split at hanswers
  next response hending => exact habandoned.unanswered response hending
  next => cases hanswers

/-- The call has not written to an execution. -/
def unmoved (reply : Reply X) : Bool :=
  reply.log.all fun entry =>
    match entry.event.op with
    | .completeCurrent _ | .useMutContext _ _ => false
    | _ => true

theorem unadvanced_of_unmoved {reply : Reply X} (hunmoved : unmoved reply = true) (e : ExecId)
    (execution : FlowExecution) : Unadvanced reply e execution := by
  have hother : ∀ event ∈ reply.log.map Logged.event,
      ∀ e update, event.op ≠ .completeCurrent e ∧ event.op ≠ .useMutContext e update := by
    intro event hmem e update
    obtain ⟨entry, hentry, rfl⟩ := List.mem_map.mp hmem
    have hkept := List.all_eq_true.mp hunmoved entry hentry
    constructor <;> intro hop <;> rw [hop] at hkept <;> cases hkept
  constructor
  · intro hmem
    exact (hother _ hmem e .authenticate).1 rfl
  · intro user hmem
    exact absurd rfl (hother _ hmem e _).2

/-- Which executions are completed although nobody is logged in to their session. -/
def stranded (w : World X) : List Bool :=
  w.heap.map fun execution =>
    execution.isCompleted && w.sessions execution.key.session = some none

theorem lookupFails_run : (fetched.map fun config =>
    (config.state.heap.map FlowExecution.isCompleted, abandons (servedLogin lookupFails config),
      unmoved (servedLogin lookupFails config))) = some ([false], true, true) := by
  decide +kernel

theorem commitFails_run : (fetched.map fun config =>
    (config.state.heap.map FlowExecution.isCompleted, abandons (servedLogin commitFails config),
      stranded (servedLogin commitFails config).after)) = some ([false], true, [true]) := by
  decide +kernel

/-- The form is fetched, a login fails, and the next one is served to its end. -/
def failThenLogin : List (Call Externals.plain × Reply Externals.plain) × World Externals.plain :=
  (server Externals.plain).serveAll (handle Externals.plain) oneForm
    [(sampleGet, undisturbed), (memberLogin, lookupFails), (memberLogin, undisturbed)]

theorem failThenLogin_run : failThenLogin.1.map (fun run => (answers run.2, unmoved run.2)) =
    [(true, true), (false, true), (true, false)] := by
  decide +kernel

/-- A login that fails before it has made anybody pending leaves the execution as it was, and the
login that is served to its end is in the table. -/
theorem lookupFails_progress_kept :
    (∃ config execution later, Interleaved (fun _ => sampleGet) oneForm config ∧
      config.state.heap[0]? = some execution ∧
        (servedLogin lookupFails config).after.heap[0]? = some later ∧
          later.progress = execution.progress) ∧
      LoginsCommitted failThenLogin.1 failThenLogin.2 := by
  have hstart : oneForm.Initial := World.boot_initial _ _ _ _ _ _
  refine ⟨?_, ?_⟩
  · obtain ⟨config, hrun, hresult⟩ := Option.map_eq_some_iff.mp lookupFails_run
    simp only [Prod.mk.injEq] at hresult
    obtain ⟨hheap, habandons, hunmoved⟩ := hresult
    obtain ⟨execution, hheap, _⟩ := List.map_eq_singleton_iff.mp hheap
    have hexecution : config.state.heap[0]? = some execution := by
      rw [hheap]
      rfl
    have hreach := sampleRun_interleaved hrun
    obtain ⟨later, hlater, hprogress⟩ := ((abandoned_progress_kept hstart).1 (fun _ => sampleGet)
      config (sampleRequest [("uid", "member"), ("password", "tulip")])
      (servedLogin lookupFails config) 0 execution hreach rfl (serve_serves _ _ _ _)
      (abandoned_of_abandons habandons) hexecution).mpr
        (Or.inr (unadvanced_of_unmoved hunmoved 0 execution))
    exact ⟨config, execution, later, hreach, hexecution, hlater, hprogress⟩
  · have hnever : neverPostedAt .userLogin failThenLogin.1 = true := by
      decide +kernel
    refine (abandoned_progress_kept hstart).2 _ _ (serveAll_serial _ _ _)
      (neverSubmittedAt_of_neverPostedAt hnever) ?_
    intro run hmem request _ habandoned e execution _
    have hkinds : (answers run.2, unmoved run.2) ∈
        [(true, true), (false, true), (true, false)] := by
      rw [← failThenLogin_run]
      exact List.mem_map_of_mem hmem
    cases hanswers : answers run.2 with
    | true => exact absurd habandoned (not_abandoned_of_answers hanswers)
    | false =>
        rw [hanswers] at hkinds
        exact Or.inr (unadvanced_of_unmoved (by simpa using hkinds) e execution)

/-- A login whose commit fails leaves the execution completed and nobody logged in. -/
theorem commitFails_progress_moved : ∃ config request reply execution later,
    Interleaved (fun _ => sampleGet) oneForm config ∧ reply.before = config.state ∧
      (server Externals.plain).Serves (handle Externals.plain (.postFlow request)) reply ∧
        Abandoned reply ∧ config.state.heap[0]? = some execution ∧
          reply.after.heap[0]? = some later ∧ later.progress ≠ execution.progress ∧
            later.isCompleted = true ∧ reply.after.sessions later.key.session = some none := by
  obtain ⟨config, hrun, hresult⟩ := Option.map_eq_some_iff.mp commitFails_run
  simp only [Prod.mk.injEq] at hresult
  obtain ⟨hbefore, habandons, hafter⟩ := hresult
  obtain ⟨execution, hheap, hopen⟩ := List.map_eq_singleton_iff.mp hbefore
  obtain ⟨later, hlater, hcompleted⟩ := List.map_eq_singleton_iff.mp hafter
  rw [Bool.and_eq_true, decide_eq_true_eq] at hcompleted
  refine ⟨config, sampleRequest [("uid", "member"), ("password", "tulip")],
    servedLogin commitFails config, execution, later, sampleRun_interleaved hrun, rfl,
    serve_serves _ _ _ _, abandoned_of_abandons habandons, by simp [hheap], by simp [hlater], ?_,
    hcompleted.1, hcompleted.2⟩
  intro hprogress
  have hstill := congrArg Progress.isCompleted hprogress
  simp only [FlowExecution.progress] at hstill
  rw [hcompleted.1, hopen] at hstill
  cases hstill

end RollbackRuns

end Authust
