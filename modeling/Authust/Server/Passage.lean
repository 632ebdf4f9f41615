import Authust.Server.Alone

/-! # How an entry is passed

One after another, calls pass an entry in two ways: an admitted submission while the
execution rests there, or a login in the completion loop. Deny and UserLogin stages are
meant to leave no way, or only the second.
-/

namespace Authust

open Coop Coop.Task Coop.Machine

variable {X : Externals}

/-- The kind of the stage an execution rests at that is not completed. -/
def World.restingKind (w : World X) (e : ExecId) : Option StageKind :=
  (w.heap[e]?.bind fun execution =>
    if execution.isCompleted then none
    else execution.plan.stageAt execution.currentEntryIdx).map Stage.kind

/-- The call is a POST on the execution which the check lets through to the submission. -/
inductive Admitted (call : Call X) (reply : Reply X) (e : ExecId) (context : CheckContext) : Prop
  | intro {request : Request X} {form : Value} {session : Session}
      {admitted rest : History X} (hcall : call = .postFlow request)
      (hadmission : Admission request admitted form session e context)
      (hevents : reply.log.map Logged.event = admitted ++ rest)

/-- The call has run the UserLogin branch at the entry with an authenticated pending user,
and issued the update that logs the user in to its session. -/
inductive LoggedIn (call : Call X) (reply : Reply X) (e : ExecId) (index : Nat) : Prop
  | intro {request : Request X} {session : Session} {past rest : History X} {entry : FlowEntry}
      {stage : Stage} {context : ExecutionContext} {added : Option X.Token} {token : X.Token}
      {user : PendingUser} (hcall : call = .postFlow request)
      (hfound : Found call past session e) (hkind : stage.kind = .userLogin)
      (hpending : context.pending = some user) (hauthenticated : user.authenticated = true)
      (hevents : reply.log.map Logged.event =
        past ++ entering e index entry stage ++ loginEvents e context added token user
          session ++ rest)

/-- No POST that the check admits is served while the execution is not completed and rests at such
a stage. -/
def NeverSubmittedAt (kind : StageKind) (runs : List (Call X × Reply X)) : Prop :=
  ∀ run ∈ runs, ∀ e context, Admitted run.1 run.2 e context → run.2.before.restingKind e ≠ some kind

section Passed

variable {start state : World X} {runs first : List (Call X × Reply X)}
  {past mine tail log more : Log X} {entry : Logged (sig X) (World X)} {call : Call X}
  {reply : Reply X} {e : ExecId}

/-- Whoever handles an entry was admitted while the execution rested there, or logged in. -/
theorem Within.handled (hwithin : Within start runs first past mine tail entry call reply)
    {index : Nat} (hhandled : Handled call e index (mine.map Logged.event)) {plan : Plan}
    (hplan : ∃ execution, entry.before.heap[e]? = some execution ∧ execution.plan = plan) :
    ∃ stage, plan.stageAt index = some stage ∧
      (((∃ context, Admitted call reply e context) ∧ ∃ resting,
        reply.before.heap[e]? = some resting ∧
          resting.currentEntryIdx = index ∧ resting.isCompleted = false ∧ resting.plan = plan) ∨
        stage.kind = .userLogin ∧ LoggedIn call reply e index) := by
  obtain ⟨last, hlast, rfl⟩ := hplan
  have hevents : reply.log.map Logged.event =
      mine.map Logged.event ++ (entry :: tail).map Logged.event := by
    rw [hwithin.log_eq, List.map_append]
  generalize hmine : mine.map Logged.event = history at hhandled hevents
  cases hhandled with
  | @submission request form session context admitted tail entry stage hcall hadmission _ =>
      obtain ⟨_, _, _, _, hopening, hrest, hopened, hchain⟩ := hwithin.chain.of_append hmine
      obtain ⟨_, _, _, _, hentered, _, hentering, hlater⟩ := hchain.of_append hrest
      have huntouched := hadmission.untouching
      rw [← hopening] at huntouched
      -- nothing moves the execution between the admission and the entering
      have hheap := chain_heap_eq hopened huntouched
      obtain ⟨hsame, resting, hresting, hindex, hopen, _, hstage⟩ :=
        chain_entering hentering hentered
      obtain ⟨later, hafter, hprecedes⟩ := chain_execution_later hlater (hsame ▸ hresting)
      rw [hlast] at hafter
      cases hafter
      rw [hheap] at hresting
      rw [hprecedes.plan]
      refine ⟨stage, hstage, Or.inl ⟨⟨context, ?_⟩, resting, hresting, hindex, hopen, rfl⟩⟩
      rw [List.append_assoc] at hevents
      exact .intro hcall hadmission hevents
  | @turn request session earlier tail entry stage hcall hcompleting hturn =>
      obtain ⟨_, index', entry', stage', tail', hkind, heq, hlogin⟩ :=
        trace_completeTurn_proceed hturn
      obtain ⟨rfl, rfl, rfl, rfl⟩ := entering_append_inj heq
      obtain ⟨context, user, added, cookie, claims, token, rfl, hpending, hauthenticated, _⟩ :=
        trace_userLogin hlogin
      obtain ⟨_, _, _, _, _, hrest, _, hchain⟩ := hwithin.chain.of_append hmine
      obtain ⟨_, _, _, _, hentered, _, hentering, hlater⟩ := hchain.of_append hrest
      obtain ⟨hsame, resting, hresting, _, _, _, hstage⟩ := chain_entering hentering hentered
      obtain ⟨later, hafter, hprecedes⟩ := chain_execution_later hlater (hsame ▸ hresting)
      rw [hlast] at hafter
      cases hafter
      rw [hprecedes.plan]
      refine ⟨stage, hstage, Or.inr ⟨hkind, ?_⟩⟩
      rw [← List.append_assoc] at hevents
      exact .intro hcall (hcall ▸ hcompleting.found) hkind hpending hauthenticated hevents

/-- How an entry was passed that is passed after the operations of an initial part of the log. -/
theorem passed_by (hstart : start.Initial) (hrun : OneByOne start runs state)
    (hlog : logOf runs = log ++ more) {now : World X} (hplaced : Placed now log)
    {execution : FlowExecution} (hheap : now.heap[e]? = some execution) {index : Nat}
    (hpassed : execution.Passed index) : ∃ run ∈ runs, ∃ stage,
      execution.plan.stageAt index = some stage ∧
        (((∃ context, Admitted run.1 run.2 e context) ∧ ∃ resting,
          run.2.before.heap[e]? = some resting ∧
            resting.currentEntryIdx = index ∧ resting.isCompleted = false ∧
              resting.plan = execution.plan) ∨
          stage.kind = .userLogin ∧ LoggedIn run.1 run.2 e index) := by
  obtain ⟨past, entry, rest, old, rfl, hop, hold, rfl, hopen⟩ :=
    hplaced.passed e execution index hheap hpassed
  have hlog' : logOf runs = past ++ entry :: (rest ++ more) := by
    rw [hlog, List.append_assoc, List.cons_append]
  have hhandled := served_advancesHandled hstart hrun past entry (rest ++ more) e old hlog' hop hold
    (FlowExecution.completeCurrent_ne hopen)
  obtain ⟨first, call, reply, mine, tail, hwithin⟩ := within_of_log hrun hlog'
  rw [hwithin.callAt, hwithin.own_eq] at hhandled
  obtain ⟨later, hlater, hplan⟩ := hplaced.planned entry (by simp) e old hold
  rw [hheap] at hlater
  cases hlater
  exact ⟨(call, reply), hwithin.mem, hwithin.handled hhandled ⟨old, hold, hplan.symm⟩⟩

/-- The resting kind of an execution whose plan is known. -/
theorem restingKind_eq {w : World X} {resting : FlowExecution} {plan : Plan} {stage : Stage}
    (hresting : w.heap[e]? = some resting) (hopen : resting.isCompleted = false)
    (hplan : resting.plan = plan) (hstage : plan.stageAt resting.currentEntryIdx = some stage) :
    w.restingKind e = some stage.kind := by
  simp [World.restingKind, hresting, hopen, hplan, hstage]

/-- Without a submission there, only a login passes an entry. -/
theorem passed_by_login (hstart : start.Initial) (hrun : OneByOne start runs state)
    (hlog : logOf runs = log ++ more) {now : World X} (hplaced : Placed now log)
    {execution : FlowExecution} (hheap : now.heap[e]? = some execution) {index : Nat}
    {stage : Stage} (hstage : execution.plan.stageAt index = some stage)
    (hnever : NeverSubmittedAt stage.kind runs) (hpassed : execution.Passed index) :
    stage.kind = .userLogin ∧ ∃ run ∈ runs, LoggedIn run.1 run.2 e index := by
  obtain ⟨run, hmem, found, hfound, hhow⟩ := passed_by hstart hrun hlog hplaced hheap hpassed
  rw [hstage] at hfound
  cases hfound
  rcases hhow with ⟨⟨context, hadmitted⟩, resting, hresting, rfl, hopen, hplan⟩ | ⟨hkind, hlogin⟩
  · exact absurd (restingKind_eq hresting hopen hplan hstage) (hnever run hmem e context hadmitted)
  · exact ⟨hkind, run, hmem, hlogin⟩

/-- A completed execution has passed all its entries. -/
theorem FlowExecution.WellFormed.passed {execution : FlowExecution} (hformed : execution.WellFormed)
    {index : Nat} {stage : Stage} (hstage : execution.plan.stageAt index = some stage)
    (hpassed : index < execution.currentEntryIdx ∨ execution.isCompleted = true) :
    execution.Passed index := by
  rcases hpassed with hlt | hcompleted
  · exact Or.inl hlt
  · have hlast := hformed.completed hcompleted
    have hlt := Plan.stageAt_lt hstage
    simp only [FlowExecution.plan] at hlt
    by_cases hindex : index < execution.currentEntryIdx
    · exact Or.inl hindex
    · exact Or.inr ⟨by omega, hcompleted⟩

/-- No POST at all is served while some execution that is not completed rests at such a stage. -/
def neverPostedAt (kind : StageKind) (runs : List (Call X × Reply X)) : Bool :=
  runs.all fun run =>
    match run.1 with
    | .postFlow _ => (List.range run.2.before.heap.length).all fun e =>
        run.2.before.restingKind e ≠ some kind
    | _ => true

theorem neverSubmittedAt_of_neverPostedAt {kind : StageKind}
    (hnever : neverPostedAt kind runs = true) : NeverSubmittedAt kind runs := by
  rintro ⟨call, reply⟩ hmem e context hadmitted hrests
  cases hadmitted with
  | @intro request form session admitted rest hcall hadmission hevents =>
      have hrun := List.all_eq_true.mp hnever (call, reply) hmem
      simp only at hcall
      subst hcall
      obtain ⟨stage, hfound, _⟩ := Option.map_eq_some_iff.mp hrests
      obtain ⟨execution, hheap, _⟩ := Option.bind_eq_some_iff.mp hfound
      have hlt := (List.getElem?_eq_some_iff.mp hheap).1
      have hother := List.all_eq_true.mp hrun e (List.mem_range.mpr hlt)
      simp [hrests] at hother

end Passed

/-- An execution is never past an entry with a Deny stage, as long as nobody's submission is
admitted there: the entry is not completed and no entry after it is ever asked for. -/
theorem deny_never_passed {start state : World X} {runs : List (Call X × Reply X)}
    (hstart : start.Initial) (hrun : OneByOne start runs state)
    (hnever : NeverSubmittedAt .deny runs) {e : ExecId} {execution : FlowExecution}
    (hheap : state.heap[e]? = some execution) {d : Nat} {stage : Stage}
    (hstage : execution.plan.stageAt d = some stage) (hkind : stage.kind = .deny) :
    execution.currentEntryIdx ≤ d ∧ execution.isCompleted = false ∧
      ∀ entry ∈ logOf runs, ∀ index found, entry.event = ⟨.getEntry e, (index, found)⟩ →
        index ≤ d := by
  obtain ⟨hplaced, hbefore⟩ := served_placed hstart hrun
  have hunpassed : ∀ now log more execution, logOf runs = log ++ more → Placed now log →
      now.heap[e]? = some execution → execution.plan.stageAt d = some stage →
        ¬ execution.Passed d := by
    intro now log more execution hlog hplaced hheap hstage hpassed
    rw [← hkind] at hnever
    obtain ⟨hlogin, _⟩ :=
      passed_by_login hstart hrun hlog hplaced hheap hstage hnever hpassed
    rw [hkind] at hlogin
    cases hlogin
  have hnow := hunpassed state (logOf runs) [] execution (by simp) hplaced hheap hstage
  have hindex : execution.currentEntryIdx ≤ d := by
    by_contra hlt
    exact hnow (Or.inl (Nat.lt_of_not_le hlt))
  refine ⟨hindex, ?_, ?_⟩
  · by_contra hcompleted
    rw [Bool.not_eq_false] at hcompleted
    have hlast := (hplaced.formed e execution hheap).completed hcompleted
    have hlt := Plan.stageAt_lt hstage
    refine hnow (Or.inr ⟨?_, hcompleted⟩)
    simp only [FlowExecution.plan] at hlt
    omega
  · intro entry hmem index found hevent
    obtain ⟨past, rest, hlog⟩ := List.append_of_mem hmem
    obtain ⟨first, call, reply, mine, tail, hwithin⟩ := within_of_log hrun hlog
    obtain ⟨after, hexec⟩ := hwithin.exec
    rw [hevent] at hexec
    obtain ⟨old, hold, rfl, _⟩ := exec_getEntry hexec
    -- the plan then is the plan now
    obtain ⟨later, hlater, hplan⟩ := hplaced.planned entry hmem e old hold
    rw [hheap] at hlater
    cases hlater
    by_contra hlt
    exact hunpassed entry.before past (entry :: rest) old hlog (hbefore past entry rest hlog) hold
      (hplan ▸ hstage) (Or.inl (Nat.lt_of_not_le hlt))

section DenyRuns

/-- An identification form before a Deny stage. -/
def denyLast : World Externals.plain :=
  sampleWorld [sampleEntry 0 [], sampleEntry 1 []]
    [sampleStage 0 "identification" (.identification none [.name]), sampleStage 1 "deny" .deny] []

/-- A Deny stage before an identification form. -/
def denyFirst : World Externals.plain :=
  sampleWorld [sampleEntry 1 [], sampleEntry 0 []]
    [sampleStage 0 "identification" (.identification none [.name]), sampleStage 1 "deny" .deny] []

/-- Where the first execution stands, and the kind of the stage of an entry. -/
def firstExecution (index : Nat) (w : World X) : Option (Option StageKind × Nat × Bool) :=
  w.heap[0]?.map fun execution => ((execution.plan.stageAt index).map Stage.kind,
    execution.currentEntryIdx, execution.isCompleted)

theorem firstExecution_eq_some {index : Nat} {w : World X} {kind : StageKind} {current : Nat}
    {completed : Bool} (hfirst : firstExecution index w = some (some kind, current, completed)) :
    ∃ execution stage, w.heap[0]? = some execution ∧ execution.plan.stageAt index = some stage ∧
      stage.kind = kind ∧ execution.currentEntryIdx = current ∧
        execution.isCompleted = completed := by
  obtain ⟨execution, hheap, heq⟩ := Option.map_eq_some_iff.mp hfirst
  simp only [Prod.mk.injEq] at heq
  obtain ⟨hkind, hcurrent, hcompleted⟩ := heq
  obtain ⟨stage, hstage, hkind⟩ := Option.map_eq_some_iff.mp hkind
  exact ⟨execution, stage, hheap, hstage, hkind, hcurrent, hcompleted⟩

theorem denyLast_deny_never_passed :
    ∃ execution, (sampleServe denyLast [sampleGet, samplePost [("uid", "member")]]).2.heap[0]? =
      some execution ∧ execution.currentEntryIdx ≤ 1 ∧ execution.isCompleted = false := by
  have hfirst : firstExecution 1 (sampleServe denyLast
      [sampleGet, samplePost [("uid", "member")]]).2 = some (some .deny, 1, false) := by
    decide +kernel
  have hnever : neverPostedAt .deny (sampleServe denyLast
      [sampleGet, samplePost [("uid", "member")]]).1 = true := by
    decide +kernel
  obtain ⟨execution, stage, hheap, hstage, hkind, _⟩ := firstExecution_eq_some hfirst
  obtain ⟨hindex, hopen, _⟩ := deny_never_passed (World.boot_initial _ _ _ _ _ _)
    (sampleServe_oneByOne _ _) (neverSubmittedAt_of_neverPostedAt hnever) hheap hstage hkind
  exact ⟨execution, hheap, hindex, hopen⟩

/-- An empty form passes a Deny stage. -/
theorem deny_passed_by_submission : ∃ runs state, OneByOne denyFirst runs state ∧
    ∃ execution stage, state.heap[0]? = some execution ∧
      execution.plan.stageAt 0 = some stage ∧ stage.kind = .deny ∧
        ¬ execution.currentEntryIdx ≤ 0 := by
  have hfirst : firstExecution 0 (sampleServe denyFirst [sampleGet, samplePost []]).2 =
      some (some .deny, 1, false) := by
    decide +kernel
  obtain ⟨execution, stage, hheap, hstage, hkind, hcurrent, _⟩ := firstExecution_eq_some hfirst
  exact ⟨_, _, sampleServe_oneByOne _ _, execution, stage, hheap, hstage, hkind, by omega⟩

end DenyRuns

/-- An entry with a UserLogin stage is passed only by a login at it, as long as nobody's
submission is admitted there. -/
theorem login_passed_by_login {start state : World X} {runs : List (Call X × Reply X)}
    (hstart : start.Initial) (hrun : OneByOne start runs state)
    (hnever : NeverSubmittedAt .userLogin runs) {e : ExecId} {execution : FlowExecution}
    (hheap : state.heap[e]? = some execution) {index : Nat} {stage : Stage}
    (hstage : execution.plan.stageAt index = some stage) (hkind : stage.kind = .userLogin)
    (hpassed : index < execution.currentEntryIdx ∨ execution.isCompleted = true) :
    ∃ run ∈ runs, LoggedIn run.1 run.2 e index := by
  obtain ⟨hplaced, _⟩ := served_placed hstart hrun
  have hpast := (hplaced.formed e execution hheap).passed hstage hpassed
  rw [← hkind] at hnever
  exact (passed_by_login hstart hrun (List.append_nil _).symm hplaced hheap hstage hnever hpast).2

section LoginRuns

/-- A flow that begins with the login. -/
def loginFirst : World Externals.plain :=
  sampleWorld [sampleEntry 2 [], sampleEntry 0 []]
    [sampleStage 0 "identification" (.identification none [.name]),
      sampleStage 2 "login" .userLogin] []

/-- Whether some call has issued the update of a login. -/
def updatesSession (runs : List (Call X × Reply X)) : Bool :=
  runs.any fun run => run.2.log.any fun entry =>
    match entry.event.op with
    | .updateSession _ _ => true
    | _ => false

theorem LoggedIn.updatesSession {runs : List (Call X × Reply X)} {run : Call X × Reply X}
    {e : ExecId} {index : Nat} (hmem : run ∈ runs) (hlogin : LoggedIn run.1 run.2 e index) :
    updatesSession runs = true := by
  cases hlogin with
  | @intro request session past rest entry stage context added token user _ _ _ _ _ hevents =>
      refine List.any_eq_true.mpr ⟨run, hmem, List.any_eq_true.mpr ?_⟩
      have hupdate : ⟨.updateSession user.uid session.sessionId, .ok ()⟩ ∈
          run.2.log.map Logged.event := by
        rw [hevents]
        simp [loginEvents]
      obtain ⟨logged, hlogged, hevent⟩ := List.mem_map.mp hupdate
      exact ⟨logged, hlogged, by rw [hevent]⟩

/-- The login is posted once more when the flow is completed. -/
theorem oneForm_login_passed_by_login :
    ∃ run ∈ (sampleServe oneForm [sampleGet, memberLogin, memberLogin]).1,
      LoggedIn run.1 run.2 0 1 := by
  have hfirst : firstExecution 1 (sampleServe oneForm [sampleGet, memberLogin, memberLogin]).2 =
      some (some .userLogin, 1, true) := by
    decide +kernel
  have hnever : neverPostedAt .userLogin
      (sampleServe oneForm [sampleGet, memberLogin, memberLogin]).1 = true := by
    decide +kernel
  obtain ⟨execution, stage, hheap, hstage, hkind, _, hcompleted⟩ := firstExecution_eq_some hfirst
  exact login_passed_by_login (World.boot_initial _ _ _ _ _ _) (sampleServe_oneByOne _ _)
    (neverSubmittedAt_of_neverPostedAt hnever) hheap hstage hkind (Or.inr hcompleted)

/-- An empty form passes a UserLogin stage that the flow begins with, and nobody logs in. -/
theorem login_passed_by_submission : ∃ runs state, OneByOne loginFirst runs state ∧
    ∃ execution stage, state.heap[0]? = some execution ∧
      execution.plan.stageAt 0 = some stage ∧ stage.kind = .userLogin ∧
        0 < execution.currentEntryIdx ∧ ¬ ∃ run ∈ runs, LoggedIn run.1 run.2 0 0 := by
  have hfirst : firstExecution 0 (sampleServe loginFirst [sampleGet, samplePost []]).2 =
      some (some .userLogin, 1, false) := by
    decide +kernel
  have hnone : updatesSession (sampleServe loginFirst [sampleGet, samplePost []]).1 = false := by
    decide +kernel
  obtain ⟨execution, stage, hheap, hstage, hkind, hcurrent, _⟩ := firstExecution_eq_some hfirst
  refine ⟨_, _, sampleServe_oneByOne _ _, execution, stage, hheap, hstage, hkind, by omega, ?_⟩
  rintro ⟨run, hmem, hlogin⟩
  rw [hlogin.updatesSession hmem] at hnone
  cases hnone

end LoginRuns

end Authust
