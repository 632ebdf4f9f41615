import Authust.Server.Completion
import Authust.Server.Locks
import Authust.Server.Passage
import Authust.Server.Snapshot

/-! # Where executions rest between requests

A client is only shown stages that require input. An execution rests at another one where its
flow begins with it, where more UserLogin stages follow one another than the loop has turns, and
where a request ends within the loop; otherwise every execution can always be continued.
-/

namespace Authust

open Coop Coop.Task Coop.Machine

variable {X : Externals}

/-- Between two requests: every execution is completed, has its error set, or rests at a stage
that requires input. -/
def World.Continuable (w : World X) : Prop := ∀ e, Continued e w

/-- The POST was admitted to the execution, and its submission has been accepted. -/
inductive Accepted (call : Call X) (reply : Reply X) (e : ExecId) : Prop
  | intro {request : Request X} {form : Value} {session : Session} {context : CheckContext}
      {admitted handled rest : History X} (hcall : call = .postFlow request)
      (hadmission : Admission request admitted form session e context)
      (hhandled : Trace (handleSubmission X form e).run handled (.ok ()))
      (hevents : reply.log.map Logged.event = admitted ++ handled ++ rest)

/-- The flow of the slug begins with a stage that requires input. -/
def Upstream.BeginsAtInput (U : Upstream) (slug : String) : Prop :=
  ∀ flow entry stage, U.flows (.slug slug) = some flow → flow.entries.head? = some entry →
    U.stages entry.stage = some stage → stage.kind.requiresInput = true

/-- What an accepted submission needs behind the current entry: a stage that requires input, a
login that is denied, or logins within the limit that the environment lets through. -/
inductive LeadsOn (execution : FlowExecution) (reply : Reply X) : Prop
  | input (hinput : execution.plan.InputAt (execution.currentEntryIdx + 1))
  | denied (hlogin : execution.plan.LoginAt (execution.currentEntryIdx + 1))
      (hdenied : execution.pendingBehind = some false) (hkept : reply.ending ≠ .dropped)
  | logins (hlogins : execution.plan.LoginsEnd 41 (execution.currentEntryIdx + 1))
      (hauthenticated : execution.pendingBehind = some true) (hkept : reply.ending ≠ .dropped)
      (hstatements : ∀ event ∈ reply.log.map Logged.event, failsLogin event = false)

/-- What a served call has to meet. -/
structure Continues (call : Call X) (reply : Reply X) : Prop where
  starts : ∀ request execution e, call = .getFlow request →
    ⟨.insertExecution execution, e⟩ ∈ reply.log.map Logged.event →
      reply.before.upstream.BeginsAtInput request.flowSlug
  leads : ∀ e execution, Accepted call reply e → reply.before.heap[e]? = some execution →
    execution.isCompleted = false → execution.context.error = none → LeadsOn execution reply

section Chains

variable {who : Nat} {before after : World X} {log : Log X} {e : ExecId}

/-- A context keeps its error. -/
theorem FlowExecution.useMutContext_error {execution : FlowExecution} (update : ContextUpdate)
    (herror : execution.context.error.isSome = true) :
    (execution.useMutContext update).context.error.isSome = true := by
  cases update with
  | setError error => rfl
  | setPending | authenticate => exact herror

theorem FlowExecution.Continuable.useMutContext {execution : FlowExecution}
    (hcontinuable : execution.Continuable) (update : ContextUpdate) :
    (execution.useMutContext update).Continuable := by
  rcases hcontinuable with hcompleted | herror | ⟨stage, hstage, hinput⟩
  · exact Or.inl hcompleted
  · exact Or.inr (Or.inl (useMutContext_error update herror))
  · exact Or.inr (Or.inr ⟨stage, by rwa [useMutContext_plan], hinput⟩)

/-- Only `complete_current` can bring an execution to where it cannot be continued. -/
theorem chain_continued (hchain : (server X).Chain who before log after)
    (hunmoved : ∀ event ∈ log.map Logged.event, event.op ≠ .completeCurrent e)
    (hinserted : ∀ execution, ⟨.insertExecution execution, e⟩ ∈ log.map Logged.event →
      execution.Continuable)
    (hbefore : Continued e before) : Continued e after := by
  refine hchain.invariant (fun w => Continued e w) ?_ hbefore
  rintro w event next ⟨entry, hmem, rfl, rfl⟩ hexec hcontinued execution hnext
  have hevent := List.mem_map_of_mem (f := Logged.event) hmem
  rcases (exec_step hexec).execution hnext with hsame | hinsert | ⟨update, old, _, hold, rfl⟩ |
      ⟨old, hcompleting, _⟩
  · exact hcontinued execution hsame
  · exact hinserted execution (hinsert ▸ hevent)
  · exact (hcontinued old hold).useMutContext update
  · exact absurd (congrArg Event.op hcompleting) (hunmoved _ hevent)

/-- An execution that is completed or has its error set stays so. -/
theorem chain_ended (hchain : (server X).Chain who before log after) {execution : FlowExecution}
    (hbefore : before.heap[e]? = some execution)
    (hended : execution.isCompleted = true ∨ execution.context.error.isSome = true) :
    Continued e after := by
  suffices hlater : ∃ later, after.heap[e]? = some later ∧
      (later.isCompleted = true ∨ later.context.error.isSome = true) by
    obtain ⟨later, hheap, hended⟩ := hlater
    exact continued_of_heap hheap (hended.imp_right Or.inl)
  refine hchain.invariant (fun w => ∃ later, w.heap[e]? = some later ∧
    (later.isCompleted = true ∨ later.context.error.isSome = true)) ?_ ⟨execution, hbefore, hended⟩
  rintro w event next _ hexec ⟨old, hold, hended⟩
  rcases (exec_step hexec).execution_stays hold with hsame | ⟨update, _, hnext⟩ | ⟨_, hnext⟩
  · exact ⟨old, hsame, hended⟩
  · exact ⟨_, hnext, hended.imp_right (FlowExecution.useMutContext_error update)⟩
  · refine ⟨_, hnext, hended.imp (old.precedes_completeCurrent).completed ?_⟩
    rw [FlowExecution.completeCurrent_context]
    exact id

end Chains

section Guards

variable {who : Nat} {start state before after : World X} {log : Log X}
  {runs : List (Call X × Reply X)} {kept left : List ExecId} {α : Type}

/-- Among the guards on contexts are those that a request that is served alone has kept. -/
theorem chain_readers (hchain : (server X).Chain who before log after)
    (hbefore : before.readers = []) :
    after.readers = (keptAfter contextRegion (log.map Logged.event)).map (Prod.mk who) := by
  refine hchain.snoc_induction (motive := fun first w =>
    w.readers = (keptAfter contextRegion (first.map Logged.event)).map (Prod.mk who))
    (by rw [hbefore]; rfl) ?_
  intro first w event next second _ _ hexec hreaders
  rw [List.map_append, List.map_singleton, keptAfter_snoc]
  cases exec_step hexec with
  | lockContext e => exact congrArg (List.cons (who, e)) hreaders
  | unlockContext e =>
      simp only [hreaders, keptNext, contextRegion]
      exact (List.map_erase (Prod.mk_right_injective who) _).symm
  | observe hobserves =>
      obtain ⟨op, res⟩ := event
      cases op with
      | lockContext | unlockContext => cases hobserves
      | _ => exact hreaders
  | _ => exact hreaders

/-- One after another, requests leave no guard behind. -/
theorem readers_between (hstart : start.Initial) (hrun : OneByOne start runs state) :
    state.readers = [] := by
  induction hrun with
  | start => exact hstart.readers
  | moves _ hmoves ih => rw [hmoves.readers, ih]
  | serve _ _ hserves ih =>
      have hreaders := chain_readers hserves.chain ih
      simp [machine, World.release, hreaders]

/-- What a part of a handler has kept behind its whole history. -/
theorem Leaves.trace {task : Task (sig X) α} {history first : History X} {value : α}
    (hleaves : Leaves kept left task) (hkept : keptAfter contextRegion history = kept)
    (htrace : Trace task first value) : keptAfter contextRegion (history ++ first) = left :=
  (hleaves history hkept).path htrace

end Guards

section Admitted

variable {request : Request X} {form : Value} {session : Session} {e : ExecId}
  {context : CheckContext} {admitted handled : History X}

/-- When a submission is handled, no guard is kept any more. -/
theorem Admission.unguarded (hadmission : Admission request admitted form session e context)
    {result : Except ApiErrorKind Unit}
    (hhandled : Trace (handleSubmission X form e).run handled result) :
    keptAfter contextRegion (admitted ++ handled) = [] := by
  refine keeps_handleSubmission.trace ?_ hhandled
  cases hadmission with
  | @intro _ _ _ _ _ _ _ opening finding connecting checking _ _ _ hsession _ hfound
      hcontext hcheck =>
      have hopened : keptAfter contextRegion ([] ++ opening) = [] :=
        opening_fromRequestParts.keeps.trace rfl hsession
      exact keeps_check.trace (keeps_openPost.trace (keeps_getExecution.trace hopened hfound)
        hcontext) hcheck

/-- The session cookie that the loop is shown is the one presented, or that of a new session. -/
theorem Admission.shows_cookie (htokens : TokensRoundTrip X)
    (hadmission : Admission request admitted form session e context) :
    ∃ token claims, (jarOf admitted).or request.cookie = some token ∧
      X.decodeToken token = .ok claims := by
  obtain ⟨extension, opening, rest, rfl, hextension, hextracted, hunfilled⟩ := hadmission.extracted
  rw [jarOf_append hunfilled]
  rcases hextracted.jar_cases with ⟨claims, rfl, hjar⟩ | ⟨sid, token, hencoded, hjar⟩
  · obtain ⟨token, hpresented, hdecoded⟩ := decoded_of_handleAuth hextension
    exact ⟨token, claims, by rw [hjar, hpresented, Option.none_or], hdecoded⟩
  · exact ⟨token, newClaims sid, by rw [hjar, Option.some_or], htokens.newClaims hencoded⟩

/-- Behind an admission there is the submission. -/
theorem Admission.resume (hadmission : Admission request admitted form session e context)
    {more : History X} {rest : Task (sig X) (Except ApiErrorKind Response)}
    (hpath : Path (handle X (.postFlow request)) (admitted ++ more) rest) :
    Path (submit X request form session e context).run more rest := by
  cases hadmission with
  | @intro extension host _ _ key _ _ opening finding connecting checking hextension hhost hform
      hsession hkey hfound hcontext hcheck =>
      have hhandle : handle X (.postFlow request) = (postFlow X extension request).run := by
        rw [handle, Call.cookie, hextension]
        rfl
      rw [hhandle, postFlow, List.append_assoc, List.append_assoc, List.append_assoc] at hpath
      have hopened := hpath.resume_run hsession
      simp only [hhost, hform, hkey] at hopened
      have hconnected := (hopened.resume_lift hfound).resume_run hcontext
      exact hconnected.resume_lift hcheck

/-- Behind an accepted submission there is the loop. -/
theorem Admission.resume_completing (hadmission : Admission request admitted form session e context)
    (hhandled : Trace (handleSubmission X form e).run handled (.ok ()))
    {more : History X} {rest : Task (sig X) (Except ApiErrorKind Response)}
    (hpath : Path (handle X (.postFlow request))
      (admitted ++ handled ++ ⟨.completeCurrent e, ()⟩ :: more) rest) :
    Path (do
      complete X request session e
      await (op .commit)
      pure (.redirect request.uri) : Handler X Response).run more rest := by
  rw [List.append_assoc] at hpath
  have hsubmitted := hadmission.resume hpath
  rw [submit] at hsubmitted
  have hcompleting := hsubmitted.resume_lift hhandled
  rw [run_lift_bind] at hcompleting
  cases hcompleting with
  | step hlooping => exact hlooping

end Admitted

section Completing

variable {request : Request X} {form : Value} {session : Session} {e : ExecId} {reply : Reply X}
  {context : CheckContext} {admitted handled more : History X} {execution later : FlowExecution}

theorem FlowExecution.HandledAs.wellFormed {pending : Option Bool}
    (hhandled : execution.HandledAs later pending) (hformed : execution.WellFormed) :
    later.WellFormed := by
  have hflow : later.flow = execution.flow := congrArg Plan.flow hhandled.plan
  constructor
  · rw [hhandled.index, hflow]
    exact hformed.index
  · rw [hhandled.index, hhandled.isCompleted, hflow]
    exact hformed.completed

/-- The request comes to the loop with a cookie to show and no guard kept. -/
theorem Admission.atTurn (htokens : TokensRoundTrip X)
    (hadmission : Admission request admitted form session e context)
    {result : Except ApiErrorKind Unit}
    (hhandled : Trace (handleSubmission X form e).run handled result) {who : Nat}
    {before w : World X} {log : Log X} (hchain : (server X).Chain who before log w)
    (hevents : log.map Logged.event = admitted ++ handled) (hreaders : before.readers = [])
    (hdesk : before.desk who = ⟨[], none⟩) (hheap : w.heap[e]? = some later)
    (hformed : later.WellFormed) : AtTurn who request e later w where
  heap := hheap
  formed := hformed
  readers := by
    rw [chain_readers hchain hreaders, hevents, hadmission.unguarded hhandled]
    rfl
  cookie := by
    have hview : w.desk who = (log.map Logged.event).foldl Desk.next (before.desk who) :=
      hchain.view_eq desk
    have hjar : w.cookies who = jarOf admitted := by
      rw [hdesk, hevents] at hview
      rw [← jarOf_append fun event hmem =>
        Op.fills_of_signs (unsigned_handleSubmission hhandled event hmem), jarOf, ← hview]
      rfl
    rw [hjar]
    exact hadmission.shows_cookie htokens

/-- The loop behind an accepted submission rests where the execution can be continued, if what is
behind the current entry leads on. -/
theorem LeadsOn.rests {who : Nat} {w : World X} (hleads : LeadsOn execution reply)
    (htokens : TokensRoundTrip X) (hencodes : EncodesTokens X)
    (hleft : execution.HandledAs later execution.pendingBehind)
    (hturn : AtTurn who request e later w) :
    Rests who (fun event => event ∈ reply.log.map Logged.event) (reply.ending = .dropped) e
      (complete X request session e).run (fun _ after => Continued e after)
      (w.modifyExecution e FlowExecution.completeCurrent) := by
  have hpending : later.completeCurrent.pendingAuthenticated = execution.pendingBehind := by
    rw [FlowExecution.completeCurrent_pendingAuthenticated, hleft.pending]
  cases hleads with
  | input hinput =>
      rw [← hleft.plan, ← hleft.index] at hinput
      have hnext : later.plan.LoginsEnd 0 (later.currentEntryIdx + 1) := hinput
      exact rests_completeLoop_input hturn.completeCurrent
        (FlowExecution.loginsEnd_completeCurrent hnext)
  | denied hlogin hdenied hkept =>
      rw [← hleft.plan, ← hleft.index] at hlogin
      cases hcompleted : later.completeCurrent.isCompleted with
      | true => exact rests_completeLoop_input hturn.completeCurrent (Or.inl hcompleted)
      | false =>
          -- the execution has moved on to the entry of the login
          have hlogin : later.completeCurrent.plan.LoginAt
              later.completeCurrent.currentEntryIdx := by
            rwa [FlowExecution.completeCurrent_plan,
              FlowExecution.completeCurrent_index_eq hcompleted]
          exact rests_completeLoop_denied hturn.completeCurrent hcompleted hlogin
            (hpending.trans hdenied) hkept
  | logins hlogins hauthenticated hkept hstatements =>
      rw [← hleft.plan, ← hleft.index] at hlogins
      exact rests_completeLoop htokens hencodes hstatements hturn.completeCurrent
        (hpending.trans hauthenticated) (FlowExecution.loginsEnd_completeCurrent hlogins) hkept

/-- A POST whose submission is accepted leads the execution on to where it can be continued. -/
theorem accepted_continued (htokens : TokensRoundTrip X) (hencodes : EncodesTokens X)
    (hserves : (server X).Serves (handle X (.postFlow request)) reply)
    (hformed : ∀ execution, reply.before.heap[e]? = some execution → execution.WellFormed)
    (hreaders : reply.before.readers = []) (hdesk : reply.before.desk reply.who = ⟨[], none⟩)
    (hadmission : Admission request admitted form session e context)
    (hhandled : Trace (handleSubmission X form e).run handled (.ok ()))
    (hevents : reply.log.map Logged.event =
      admitted ++ handled ++ ⟨.completeCurrent e, ()⟩ :: more)
    (hleads : ∀ execution, reply.before.heap[e]? = some execution → execution.isCompleted = false →
      execution.context.error = none → LeadsOn execution reply) : Continued e reply.after := by
  obtain ⟨head, tail, w₁, _, hhead, htail, hfirst, hsecond⟩ := hserves.chain.of_append hevents
  obtain ⟨opening, handling, w₀, rfl, hopening, hhandling, hopened, hsubmitted⟩ :=
    hfirst.of_append hhead
  obtain ⟨looping, w₂, rfl, hlooping, hcompleting, hlooped⟩ := hsecond.of_cons htail
  have hheap : w₀.heap = reply.before.heap := by
    refine chain_heap_eq hopened ?_
    rw [hopening]
    exact hadmission.untouching
  obtain ⟨execution, hexecution⟩ : ∃ execution, w₀.heap[e]? = some execution := by
    obtain ⟨completed, asked, rfl, _⟩ := trace_access_bind.mp hhandled
    obtain ⟨_, _, _, _, hasked, _⟩ := hsubmitted.of_cons hhandling
    obtain ⟨execution, hexecution, _⟩ := exec_isCompleted hasked
    exact ⟨execution, hexecution⟩
  have hbefore : reply.before.heap[e]? = some execution := by rw [← hheap, hexecution]
  -- what is completed or has its error set needs no condition
  by_cases hended : execution.isCompleted = true ∨ execution.context.error.isSome = true
  · exact chain_ended hserves.chain hbefore hended
  rw [not_or, Bool.not_eq_true, Option.not_isSome_iff_eq_none] at hended
  obtain ⟨hopen, herror⟩ := hended
  obtain ⟨_, later, hlater, hleft⟩ := (leaving_handleSubmission hexecution hopen).came
    ⟨handling, hsubmitted, hhandling, hhandled⟩
  have hturn : AtTurn reply.who request e later w₁ := hadmission.atTurn htokens hhandled
    (hopened.append hsubmitted) hhead hreaders hdesk hlater
      (hleft.wellFormed (hformed execution hbefore))
  obtain ⟨rest, hpath, hstops⟩ := hserves.stops
  rw [hevents] at hpath
  have hcame : (server X).Came reply.who _ w₂ more rest reply.after :=
    ⟨looping, hlooped, hlooping, hadmission.resume_completing hhandled hpath⟩
  cases exec_step hcompleting with
  | observe hobserves => cases hobserves
  | completeCurrent _ =>
      have hloop : Rests reply.who (fun event => event ∈ reply.log.map Logged.event)
          (reply.ending = .dropped) e (complete X request session e).run
            (fun _ after => Continued e after) _ :=
        (hleads execution hbefore hopen herror).rests htokens hencodes hleft hturn
      have hallowed : ∀ event ∈ more, event ∈ reply.log.map Logged.event := by
        intro event hmem
        simp [hevents, hmem]
      rcases ((rests_committed hloop).came hcame hallowed).stops hstops id with
        hrested | ⟨_, _, hrested⟩
      · exact hrested
      · exact hrested

end Completing

section Steps

variable {start state : World X} {runs : List (Call X × Reply X)} {call : Call X} {reply : Reply X}
  {request : Request X} {e : ExecId} {execution : FlowExecution}

/-- The live storage of a request that is served alone. -/
theorem stillUpstream_of_chain {who : Nat} {before after : World X} {log : Log X}
    (hchain : (server X).Chain who before log after) : StillUpstream before.upstream log who := by
  intro entry hmem _ _
  obtain ⟨first, second, rfl⟩ := List.append_of_mem hmem
  obtain ⟨_, hfirst, _⟩ := hchain.entry
  refine hfirst.invariant (fun w => w.upstream = before.upstream) ?_ rfl
  intro w event next _ hexec hsame
  rw [(exec_step hexec).upstream, hsame]

/-- An execution is started at the first stage of its flow, as the live storage has it. -/
theorem started_continuable (hqueries : X.CreatesUidQueries)
    (hserves : (server X).Serves (handle X (.getFlow request)) reply)
    (hloaded : reply.before.upstream.Loaded)
    (hinserted : ⟨.insertExecution execution, e⟩ ∈ reply.log.map Logged.event)
    (hbegins : reply.before.upstream.BeginsAtInput request.flowSlug) : execution.Continuable := by
  obtain ⟨mine, w, next, rest, hlog, hchain, _, _⟩ := hserves.chain.of_mem hinserted
  obtain ⟨stop, hpath, _⟩ := hserves.stops
  rw [hlog, List.map_append, List.map_cons] at hpath
  obtain ⟨asking, hmine, hasking⟩ := hpath.split
  cases hasking with
  | step _ =>
      obtain ⟨before, freezing, key, flow, storage, now, hhistory, hfrozen, rfl⟩ :=
        (grounded_of_path hmine).inserted
      have hanswered := (stillUpstream_of_chain hchain).answered hchain.executed
      rw [hchain.own_eq, hhistory] at hanswered
      have hflow := hanswered.flows key.flow flow (by simp)
      have hcomplete := complete_of_reverseLookupFlow hqueries hloaded (hloaded.flow_byUid hflow)
        hfrozen (hanswered.mono fun event hmem => by simp [hmem])
      obtain ⟨hslug, hentries⟩ : key.flow = .slug request.flowSlug ∧ flow.entries ≠ [] := by
        have hjustified := justified_of_path hmine
        generalize hsame : FlowExecution.new key flow storage now = inserted at hjustified
        cases hjustified with
        | plain hplain => cases hplain
        | insertExecution _ hkey hentries =>
            cases hkey
            refine ⟨congrArg (fun execution => execution.key.flow) hsame, fun hnil => hentries ?_⟩
            exact (congrArg (fun execution => execution.flow.entries) hsame).symm.trans hnil
      obtain ⟨entry, others, heq⟩ := List.exists_cons_of_ne_nil hentries
      obtain ⟨stage, hstage, hfound⟩ := hcomplete.stages entry.stage (.entry (by simp [heq]))
      refine Or.inr (Or.inr
        ⟨stage, ?_, hbegins flow entry stage (hslug ▸ hflow) (by simp [heq]) hstage⟩)
      simp [Plan.stageAt, FlowExecution.plan, FlowExecution.new, ExecutionContext.new, heq, hfound]

/-- Only a POST whose submission is accepted moves an execution. -/
theorem accepted_of_completes (hserves : (server X).Serves (handle X call) reply)
    (hmoved : ∃ event ∈ reply.log.map Logged.event, event.op = .completeCurrent e) :
    ∃ request form session context admitted handled more, call = .postFlow request ∧
      Admission request admitted form session e context ∧
        Trace (handleSubmission X form e).run handled (.ok ()) ∧
          reply.log.map Logged.event = admitted ++ handled ++ ⟨.completeCurrent e, ()⟩ :: more := by
  obtain ⟨⟨op, res⟩, hmem, rfl⟩ := hmoved
  obtain ⟨past, tail, hevents⟩ := List.append_of_mem hmem
  have hjustified := served_justified hserves hevents
  cases hjustified with
  | plain hplain => cases hplain
  | completeSubmission hadmission hhandled =>
      exact ⟨_, _, _, _, _, _, tail, rfl, hadmission, hhandled, hevents⟩
  | @completeTurn request history turn session e hcompleting hturn =>
      cases hcompleting with
      | intro middle hadmission hhandled =>
          exact ⟨_, _, _, _, _, _, middle ++ turn ++ ⟨.completeCurrent e, res⟩ :: tail, rfl,
            hadmission, hhandled, by simp [hevents]⟩

/-- From a state in which every execution can be continued, a request that meets the condition
leads to another one. -/
theorem served_continuable (hqueries : X.CreatesUidQueries) (htokens : TokensRoundTrip X)
    (hencodes : EncodesTokens X) (hstart : start.Initial)
    (hrun : OneByOne start runs reply.before) (hwho : reply.who = runs.length)
    (hserves : (server X).Serves (handle X call) reply) (hloaded : reply.before.upstream.Loaded)
    (hcontinues : Continues call reply) (hbefore : reply.before.Continuable) :
    reply.after.Continuable := by
  intro e
  by_cases hmoved : ∃ event ∈ reply.log.map Logged.event, event.op = .completeCurrent e
  · obtain ⟨request, form, session, context, admitted, handled, more, rfl, hadmission, hhandled,
      hevents⟩ := accepted_of_completes hserves hmoved
    refine accepted_continued htokens hencodes hserves ((served_placed hstart hrun).1.formed e)
      (readers_between hstart hrun) (OneByOne.desk_fresh hstart hrun (Nat.le_of_eq hwho.symm))
      hadmission hhandled hevents fun execution => ?_
    exact hcontinues.leads e execution (.intro rfl hadmission hhandled hevents)
  · refine chain_continued hserves.chain
      (fun event hmem hop => hmoved ⟨event, hmem, hop⟩) ?_ (hbefore e)
    intro execution hinserted
    obtain ⟨past, tail, hevents⟩ := List.append_of_mem hinserted
    have hjustified := served_justified hserves hevents
    cases hjustified with
    | plain hplain => cases hplain
    | insertExecution _ _ _ =>
        exact started_continuable hqueries hserves hloaded hinserted
          (hcontinues.starts _ _ e rfl hinserted)

end Steps

/-- An execution at rest can always be continued, as long as flows begin with a stage that requires
input and every accepted submission leads on to one. -/
theorem rests_continuable {start state : World X} {runs : List (Call X × Reply X)}
    (hqueries : X.CreatesUidQueries) (htokens : TokensRoundTrip X)
    (hencodes : EncodesTokens X) (hstart : start.Initial)
    (hrun : OneByOne start runs state) (hloaded : ∀ run ∈ runs, run.2.before.upstream.Loaded)
    (hcontinues : ∀ run ∈ runs, Continues run.1 run.2) :
    state.Continuable ∧ ∀ run ∈ runs, run.2.before.Continuable := by
  induction hrun with
  | start =>
      refine ⟨fun e execution hheap => ?_, fun run hmem => absurd hmem List.not_mem_nil⟩
      simp [hstart.heap] at hheap
  | moves _ hmoves ih =>
      obtain ⟨hcontinuable, hearlier⟩ := ih hloaded hcontinues
      refine ⟨fun e => ?_, hearlier⟩
      unfold Continued
      rw [hmoves.heap]
      exact hcontinuable e
  | @serve runs call reply hpast hwho hserves ih =>
      obtain ⟨hcontinuable, hearlier⟩ :=
        ih (fun run hmem => hloaded run (List.mem_append_left _ hmem))
        fun run hmem => hcontinues run (List.mem_append_left _ hmem)
      have hlast : (call, reply) ∈ runs ++ [(call, reply)] := by simp
      refine ⟨?_, fun run hmem => ?_⟩
      · exact served_continuable hqueries htokens hencodes hstart hpast hwho hserves
          (hloaded _ hlast) (hcontinues _ hlast) hcontinuable
      · rcases List.mem_append.mp hmem with hmem | hmem
        · exact hearlier run hmem
        · rw [List.mem_singleton.mp hmem]
          exact hcontinuable

section RestingRuns

/-- Undisturbed, upstream stays as it was from request to request. -/
theorem sampleServe_upstream (start : World Externals.plain) (calls : List (Call Externals.plain)) :
    (sampleServe start calls).2.upstream = start.upstream ∧
      ∀ run ∈ (sampleServe start calls).1, run.2.before.upstream = start.upstream := by
  unfold sampleServe serveAll
  induction calls using List.reverseRecOn with
  | nil => exact ⟨rfl, fun run hmem => absurd hmem List.not_mem_nil⟩
  | append_singleton calls call ih =>
      rw [List.map_append, List.foldl_append]
      generalize (calls.map fun call => (call, undisturbed)).foldl _ _ = done at ih ⊢
      obtain ⟨hstate, hearlier⟩ := ih
      have hchain := (serve_serves (M := server Externals.plain) done.1.length
        (handle Externals.plain call) undisturbed done.2).chain
      refine ⟨?_, fun run hmem => ?_⟩
      · refine hchain.invariant (fun w => w.upstream = start.upstream) ?_ hstate
        intro w event next _ hexec hsame
        rw [(exec_step hexec).upstream, hsame]
      · rcases List.mem_append.mp hmem with hmem | hmem
        · exact hearlier run hmem
        · rw [List.mem_singleton.mp hmem]
          exact hstate

/-- Behind every execution that a request finds there are logins that go through. -/
def logsInOnwards (runs : List (Call X × Reply X)) : Bool :=
  runs.all fun run =>
    run.2.before.heap.all (fun execution =>
      execution.plan.LoginsEnd 41 (execution.currentEntryIdx + 1) &&
        execution.pendingBehind = some true) &&
    run.2.log.all (fun entry => !failsLogin entry.event) &&
      match run.2.ending with
      | .dropped => false
      | _ => true

theorem leadsOn_of_logsInOnwards {runs : List (Call X × Reply X)}
    (honwards : logsInOnwards runs = true) {run : Call X × Reply X} (hmem : run ∈ runs) {e : ExecId}
    {execution : FlowExecution}
    (hheap : run.2.before.heap[e]? = some execution) : LeadsOn execution run.2 := by
  have hrun := List.all_eq_true.mp honwards run hmem
  simp only [Bool.and_eq_true, List.all_eq_true, decide_eq_true_eq, Bool.not_eq_true'] at hrun
  obtain ⟨⟨hexecutions, hstatements⟩, hending⟩ := hrun
  obtain ⟨hlogins, hauthenticated⟩ := hexecutions execution (List.mem_of_getElem? hheap)
  refine .logins hlogins hauthenticated (fun hdropped => ?_) fun event hevent => ?_
  · rw [hdropped] at hending
    cases hending
  · obtain ⟨entry, hentry, rfl⟩ := List.mem_map.mp hevent
    exact hstatements entry hentry

theorem loadedWorld_logsInOnwards :
    logsInOnwards (sampleServe loadedWorld [sampleGet, memberLogin]).1 = true ∧
      ((loadedWorld.upstream.flows (.slug "login")).bind fun flow =>
        flow.entries.head?.bind fun entry =>
        loadedWorld.upstream.stages entry.stage).all
          (fun stage => stage.kind.requiresInput) = true ∧
        (sampleServe loadedWorld [sampleGet, memberLogin]).2.heap.length = 1 := by
  decide +kernel

/-- A member logs in to the flow that is loaded from its rows. -/
theorem loadedWorld_rests_continuable :
    (sampleServe loadedWorld [sampleGet, memberLogin]).2.heap.length = 1 ∧
      (sampleServe loadedWorld [sampleGet, memberLogin]).2.Continuable := by
  obtain ⟨honwards, hfirst, hheap⟩ := loadedWorld_logsInOnwards
  obtain ⟨_, hupstream⟩ := sampleServe_upstream loadedWorld [sampleGet, memberLogin]
  have hinitial : loadedWorld.Initial := ⟨rfl, rfl, rfl, rfl, rfl⟩
  have hloaded : loadedWorld.upstream.Loaded :=
    (Upstream.ofClient_loadedFrom (Postgres.Database.client_serves _) _).loaded
  have hcontinues : ∀ run ∈ (sampleServe loadedWorld [sampleGet, memberLogin]).1,
      Continues run.1 run.2 := by
    refine fun run hmem =>
      ⟨?_, fun e execution _ hheap _ _ => leadsOn_of_logsInOnwards honwards hmem hheap⟩
    intro request _ _ hcall _ flow entry stage hflow hentry hstage
    have hcalled : run.1 ∈ [sampleGet, memberLogin] := List.mem_map_of_mem (f := Prod.fst) hmem
    rw [hcall] at hcalled
    rw [hupstream run hmem] at hflow hstage
    simp only [List.mem_cons, List.not_mem_nil, or_false] at hcalled
    rcases hcalled with hget | hpost
    · cases hget
      have hlogin : loadedWorld.upstream.flows (.slug "login") = some flow := hflow
      simpa [hlogin, hentry, hstage] using hfirst
    · cases hpost
  refine ⟨hheap, (rests_continuable Externals.plain_createsUidQueries tokensRoundTrip_plain
    encodesTokens_plain hinitial (sampleServe_oneByOne _ _) (fun run hmem => ?_) hcontinues).1⟩
  rw [hupstream run hmem]
  exact hloaded

/-- A form, and more logins behind it than the loop has turns. -/
def manyLogins : World Externals.plain :=
  sampleWorld (sampleEntry 0 [] :: List.replicate 42 (sampleEntry 2 []))
    [sampleStage 0 "identification" (.identification (some (.uid 1)) [.name]),
      sampleStage 1 "password" (.password [.internal]), sampleStage 2 "login" .userLogin] []

/-- Whether the first execution can be continued. -/
def firstContinuable (w : World X) : Option Bool :=
  w.heap[0]?.map fun execution => execution.isCompleted || execution.context.error.isSome ||
    (execution.plan.stageAt execution.currentEntryIdx).any fun stage => stage.kind.requiresInput

theorem not_continuable_of_first {w : World X} (hfirst : firstContinuable w = some false) :
    ¬ w.Continuable := by
  intro hcontinuable
  obtain ⟨execution, hheap, hstuck⟩ := Option.map_eq_some_iff.mp hfirst
  have hcontinued := hcontinuable 0 execution hheap
  simp only [Bool.or_eq_false_iff] at hstuck
  obtain ⟨⟨hopen, herror⟩, hstage⟩ := hstuck
  rcases hcontinued with hcompleted | hset | ⟨stage, hfound, hinput⟩
  · rw [hopen] at hcompleted
    cases hcompleted
  · rw [herror] at hset
    cases hset
  · rw [hfound, Option.any_some, hinput] at hstage
    cases hstage

/-- Right behind its start an execution rests at the login that its flow begins with, and behind
the last turn of the loop at a login that is left over. -/
theorem rests_at_logins : (∃ runs state, loginFirst.Initial ∧ OneByOne loginFirst runs state ∧
      ¬ state.Continuable) ∧
    ∃ runs state, manyLogins.Initial ∧ OneByOne manyLogins runs state ∧ ¬ state.Continuable := by
  have hstarted : firstContinuable (sampleServe loginFirst [sampleGet]).2 = some false := by
    decide +kernel
  have hlimited :
      firstContinuable (sampleServe manyLogins [sampleGet, memberLogin]).2 = some false := by
    decide +kernel
  exact ⟨⟨_, _, World.boot_initial _ _ _ _ _ _, sampleServe_oneByOne _ _,
      not_continuable_of_first hstarted⟩,
    ⟨_, _, World.boot_initial _ _ _ _ _ _, sampleServe_oneByOne _ _,
      not_continuable_of_first hlimited⟩⟩

end RestingRuns

end Authust
