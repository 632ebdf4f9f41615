import Authust.Coop.Replay
import Authust.Server.Passage

/-! # What the bindings guard

A check evaluates the flow and the entry that is current when a POST begins. The completion
loop runs through the server side stages behind that entry without another check.
-/

namespace Authust

open Coop Coop.Task Coop.Machine

variable {X : Externals}

/-- In this state the binding is evaluated to a pass, with nothing that disturbs the evaluation. -/
def Passes (who : Nat) (w : World X) (context : CheckContext) (binding : FlowBinding) : Prop :=
  ∃ after, (server X).alone who .normal (checkBinding X binding context) w = some (none, after)

/-- No lookup in the live policies has failed: it has answered what is there. -/
def policyFound (entry : Logged (sig X) (World X)) : Bool :=
  match entry.event with
  | ⟨.livePolicy reference, found⟩ => found = entry.before.policies reference
  | _ => true

/-- The surroundings have no part in the check of a binding but the failures of the live
storage. -/
theorem exec_of_judges {op : Op X} (hjudges : op.judges = true) (choice : Choice) (w : World X)
    (hlive : ∀ reference, op ≠ .livePolicy reference) {who : Nat} :
    exec X who op choice w = exec X who op .normal w := by
  cases op with
  | livePolicy reference => exact absurd rfl (hlive reference)
  | lockContext | unlockContext | readContext | frozenPolicy => rfl
  | optionallyGetWith | panic => rfl
  | _ => cases hjudges

theorem exec_of_policyFound {who : Nat} {entry : Logged (sig X) (World X)} {after : World X}
    (hexec : (server X).Exec who entry.before entry.event after)
    (hjudges : entry.event.op.judges = true) (hfound : policyFound entry = true) :
    (server X).exec who entry.event.op .normal entry.before = some (entry.event.res, after) := by
  obtain ⟨_, before, op, res⟩ := entry
  obtain ⟨choice, hexec⟩ := hexec
  by_cases hlive : ∃ reference, op = .livePolicy reference
  · obtain ⟨reference, rfl⟩ := hlive
    have hlooked : some (choice.storage (before.policies reference), before) =
        some (res, after) := hexec
    obtain rfl : before = after := congrArg Prod.snd (Option.some.inj hlooked)
    simp only [policyFound, decide_eq_true_eq] at hfound
    rw [hfound]
    rfl
  · rw [← hexec]
    exact (exec_of_judges hjudges choice before fun reference heq => hlive ⟨reference, heq⟩).symm

section Segments

/-- A state that the call goes through. -/
def Reached (reply : Reply X) (w : World X) : Prop :=
  ∃ first second, reply.log = first ++ second ∧
    (server X).Chain reply.who reply.before first w

/-- A part of the run of the call. -/
def Segment (reply : Reply X) (before : World X) (log : Log X) (after : World X) : Prop :=
  ∃ first second, reply.log = first ++ log ++ second ∧
    (server X).Chain reply.who reply.before first before ∧
      (server X).Chain reply.who before log after

variable {reply : Reply X} {before after : World X} {log : Log X}

theorem Segment.chain (hsegment : Segment reply before log after) :
    (server X).Chain reply.who before log after := by
  obtain ⟨_, _, _, _, hchain⟩ := hsegment
  exact hchain

theorem Segment.before_reached (hsegment : Segment reply before log after) :
    Reached reply before := by
  obtain ⟨first, second, hlog, hfirst, _⟩ := hsegment
  exact ⟨first, log ++ second, by rw [hlog, List.append_assoc], hfirst⟩

theorem Segment.after_reached (hsegment : Segment reply before log after) :
    Reached reply after := by
  obtain ⟨first, second, hlog, hfirst, hchain⟩ := hsegment
  exact ⟨first ++ log, second, hlog, hfirst.append hchain⟩

theorem Segment.mem {entry : Logged (sig X) (World X)} (hsegment : Segment reply before log after)
    (hmem : entry ∈ log) : entry ∈ reply.log := by
  obtain ⟨first, second, hlog, _⟩ := hsegment
  rw [hlog]
  exact List.mem_append_left _ (List.mem_append_right _ hmem)

theorem Segment.of_append {first second : History X} (hsegment : Segment reply before log after)
    (hevents : log.map Logged.event = first ++ second) :
    ∃ head tail middle, head.map Logged.event = first ∧ tail.map Logged.event = second ∧
      Segment reply before head middle ∧ Segment reply middle tail after := by
  obtain ⟨earlier, later, hlog, hfirst, hchain⟩ := hsegment
  obtain ⟨head, tail, middle, rfl, hhead, htail, hheadchain, htailchain⟩ :=
    hchain.of_append hevents
  refine ⟨head, tail, middle, hhead, htail, ⟨earlier, tail ++ later, ?_, hfirst, hheadchain⟩,
    earlier ++ head, later, ?_, hfirst.append hheadchain, htailchain⟩
  · rw [hlog]
    simp
  · rw [hlog]
    simp

theorem Segment.of_cons {event : Event (sig X)} {rest : History X}
    (hsegment : Segment reply before log after) (hevents : log.map Logged.event = event :: rest) :
    ∃ tail middle, (server X).Exec reply.who before event middle ∧
      tail.map Logged.event = rest ∧ Segment reply middle tail after := by
  obtain ⟨earlier, later, hlog, hfirst, hchain⟩ := hsegment
  obtain ⟨tail, middle, rfl, htail, hexec, htailchain⟩ := hchain.of_cons hevents
  refine ⟨tail, middle, hexec, htail, earlier ++ [⟨reply.who, before, event⟩], later, ?_,
    hfirst.snoc hexec, htailchain⟩
  rw [hlog]
  simp

theorem Segment.whole {call : Call X} (hserves : (server X).Serves (handle X call) reply) :
    Segment reply reply.before reply.log reply.after :=
  ⟨[], [], by simp, .nil _, hserves.chain⟩

end Segments

/-- The call has evaluated the binding itself, and to a pass. -/
def Evaluated (reply : Reply X) (context : CheckContext) (binding : FlowBinding) : Prop :=
  ∃ before log after, Segment reply before log after ∧
    Trace (checkBinding X binding context) (log.map Logged.event) none

/-- At some point of the run of the call the binding is evaluated to a pass, undisturbed. -/
def PassesDuring (reply : Reply X) (context : CheckContext) (binding : FlowBinding) : Prop :=
  ∃ w, Reached reply w ∧ Passes reply.who w context binding

/-- The binding lets the call pass: by what the call was answered itself, or undisturbed. -/
def LetsPass (reply : Reply X) (context : CheckContext) (binding : FlowBinding) : Prop :=
  Evaluated reply context binding ∨ PassesDuring reply context binding

/-- The flow and one of its entries let the request pass. -/
structure Guarded (passes : FlowBinding → Prop) (context : CheckContext) (plan : Plan)
    (index : Nat) : Prop where
  authentication : (plan.flow.authentication.output context.request.user).deref = true
  flow : ∀ binding ∈ plan.flow.bindings, passes binding
  entry : ∀ entry, plan.flow.entries[index]? = some entry →
    ∀ binding ∈ entry.bindings, passes binding

theorem Guarded.mono {passes passes' : FlowBinding → Prop} {context : CheckContext} {plan : Plan}
    {index : Nat} (hguarded : Guarded passes context plan index)
    (hpasses : ∀ binding, passes binding → passes' binding) :
    Guarded passes' context plan index where
  authentication := hguarded.authentication
  flow := fun binding hmem => hpasses binding (hguarded.flow binding hmem)
  entry := fun entry hentry binding hmem =>
    hpasses binding (hguarded.entry entry hentry binding hmem)

/-- No lookup of the call in the live policies has failed. -/
def LookupsFound (reply : Reply X) : Prop :=
  ∀ entry ∈ reply.log, policyFound entry = true

section Checks

variable {reply : Reply X} {context : CheckContext} {history : History X}

theorem trace_checkBindings_cons {binding : FlowBinding} {rest : List FlowBinding} :
    Trace (checkBindings X context (binding :: rest)) history none ↔
      ∃ first second, Trace (checkBinding X binding context) first none ∧
        Trace (checkBindings X context rest) second none ∧ history = first ++ second := by
  rw [checkBindings, trace_bind]
  constructor
  · rintro ⟨first, verdict, second, hfirst, hsecond, rfl⟩
    cases verdict with
    | none => exact ⟨first, second, hfirst, hsecond, rfl⟩
    | some message => cases (trace_done.mp hsecond).2
  · rintro ⟨first, second, hfirst, hsecond, rfl⟩
    exact ⟨first, none, second, hfirst, hsecond, rfl⟩

/-- A check that passes has evaluated everything to a pass. -/
theorem trace_check_none {e : ExecId} (htrace : Trace (check X e context) history none) :
    ∃ flow first answer second,
      history = ⟨.getFlow e, flow⟩ :: (first ++ ⟨.getEntry e, answer⟩ :: second) ∧
        (flow.authentication.output context.request.user).deref = true ∧
          Trace (checkBindings X context flow.bindings) first none ∧
            Trace (checkBindings X context answer.2.bindings) second none := by
  obtain ⟨flow, tail, rfl, htail⟩ := trace_perform_bind.mp htrace
  simp only [FlowCheck.check, pure_eq_done, done_bind] at htail
  split at htail
  next hauthentication =>
    obtain ⟨first, verdict, _, hfirst, hrest, rfl⟩ := trace_bind.mp htail
    cases verdict with
    | some message => cases (trace_done.mp hrest).2
    | none =>
        obtain ⟨answer, second, rfl, hsecond⟩ := trace_perform_bind.mp hrest
        exact ⟨flow, first, answer, second, rfl, hauthentication, hfirst, hsecond⟩
  next => cases (trace_done.mp htail).2

/-- What a call has evaluated with every lookup answered comes to the same undisturbed. -/
theorem Evaluated.passes {binding : FlowBinding} (hevaluated : Evaluated reply context binding)
    (hfound : LookupsFound reply) : PassesDuring reply context binding := by
  obtain ⟨before, log, after, hsegment, htrace⟩ := hevaluated
  refine ⟨before, hsegment.before_reached, after, ?_⟩
  refine (hsegment.chain.replays ?_).alone htrace
  intro entry hmem later hexec
  have hjudges : entry.event.op.judges = true := by
    simpa using judging_checkBinding.path htrace entry.event (List.mem_map_of_mem hmem)
  exact exec_of_policyFound hexec hjudges (hfound entry (hsegment.mem hmem))

theorem LetsPass.passes {binding : FlowBinding} (hpasses : LetsPass reply context binding)
    (hfound : LookupsFound reply) : PassesDuring reply context binding :=
  hpasses.elim (fun hevaluated => hevaluated.passes hfound) id

theorem Segment.checkBindings {bindings : List FlowBinding} {before after : World X} {log : Log X}
    (hsegment : Segment reply before log after)
    (htrace : Trace (checkBindings X context bindings) (log.map Logged.event) none) :
    ∀ binding ∈ bindings, Evaluated reply context binding := by
  induction bindings generalizing before log with
  | nil =>
      intro binding hmem
      cases hmem
  | cons binding rest ih =>
      obtain ⟨first, second, hfirst, hsecond, hevents⟩ := trace_checkBindings_cons.mp htrace
      obtain ⟨head, tail, middle, rfl, rfl, hhead, htail⟩ := hsegment.of_append hevents
      intro other hmem
      rcases List.mem_cons.mp hmem with rfl | hmem
      · exact ⟨_, _, _, hhead, hfirst⟩
      · exact ih htail hsecond other hmem

/-- A check that passes guards the entry that is current. -/
theorem Segment.check {e : ExecId} {before after : World X} {log : Log X}
    (hsegment : Segment reply before log after)
    (htrace : Trace (check X e context) (log.map Logged.event) none) :
    ∃ execution, before.heap[e]? = some execution ∧
      Guarded (Evaluated reply context) context execution.plan execution.currentEntryIdx := by
  obtain ⟨flow, first, ⟨index, current⟩, second, hevents, hauthentication, hflow, hentry⟩ :=
    trace_check_none htrace
  obtain ⟨_, _, hgot, hrest, hlater⟩ := hsegment.of_cons hevents
  obtain ⟨head, _, _, rfl, hasking, hflowing, hlast⟩ := hlater.of_append hrest
  obtain ⟨_, _, hasked, rfl, hentering⟩ := hlast.of_cons hasking
  obtain ⟨execution, hheap, rfl⟩ := exec_getFlow hgot
  obtain ⟨found, hfound, hindex, hentries⟩ := exec_getEntry hasked
  have hreading : ∀ event ∈ head.map Logged.event, event.op.touches = false := by
    intro event hmem
    simpa using readOnly_checkBindings.untouching.path hflow event hmem
  rw [chain_heap_eq hflowing.chain hreading, (exec_step hgot).heap_eq rfl, hheap] at hfound
  cases hfound
  refine ⟨execution, hheap, hauthentication, hflowing.checkBindings hflow, ?_⟩
  intro entry hentry'
  rw [hindex] at hentry'
  simp only [FlowExecution.plan] at hentry'
  rw [hentries] at hentry'
  cases hentry'
  exact hentering.checkBindings hentry

end Checks

/-- The stage of the entry is one that the completion loop processes by itself. -/
def Plan.ServerSide (plan : Plan) (index : Nat) : Prop :=
  ∃ stage, plan.stageAt index = some stage ∧ stage.kind.requiresInput = false

/-- The entry is reached from the resting one through server side stages alone. -/
structure Plan.InStretch (plan : Plan) (resting index : Nat) : Prop where
  behind : resting < index
  serverSide : ∀ between, resting < between → between ≤ index → plan.ServerSide between

section Stretches

variable {start state : World X} {runs first second : List (Call X × Reply X)} {call : Call X}
  {reply : Reply X} {e : ExecId} {now : World X} {resting : FlowExecution}

/-- All that a call passes behind the entry it found current are server side stages. -/
theorem stretch (hstart : start.Initial) (hrun : OneByOne start runs state)
    (hruns : runs = first ++ (call, reply) :: second) (hreached : Reached reply now)
    (hresting : reply.before.heap[e]? = some resting) :
    ∃ execution, now.heap[e]? = some execution ∧ resting.Precedes execution ∧
      ∀ index, resting.currentEntryIdx < index → index < execution.currentEntryIdx →
        execution.plan.ServerSide index := by
  obtain ⟨mine, rest, hlog, hchain⟩ := hreached
  refine hchain.snoc_induction (motive := fun _ now => ∃ execution,
    now.heap[e]? = some execution ∧ resting.Precedes execution ∧
      ∀ index, resting.currentEntryIdx < index → index < execution.currentEntryIdx →
        execution.plan.ServerSide index) ?_ ?_
  · refine ⟨resting, hresting, .refl resting, ?_⟩
    intro index hlt hlt'
    exact absurd hlt (Nat.lt_asymm hlt')
  · rintro earlier before event after later hmine - hexec ⟨execution, hheap, hprecedes, hbetween⟩
    have hreply : reply.log = earlier ++ ⟨reply.who, before, event⟩ :: (later ++ rest) := by
      rw [hlog, hmine, List.append_assoc, List.cons_append]
    have hruns' : logOf runs = (logOf first ++ earlier) ++ ⟨reply.who, before, event⟩ ::
        (later ++ rest ++ logOf second) := by
      rw [hruns, logOf_append, logOf_cons, hreply]
      simp
    rcases (exec_step hexec).execution_stays hheap with hsame | ⟨update, rfl, hafter⟩ |
        ⟨rfl, hafter⟩
    · exact ⟨execution, hsame, hprecedes, hbetween⟩
    · refine ⟨_, hafter, hprecedes.trans (execution.precedes_useMutContext update), ?_⟩
      rw [FlowExecution.useMutContext_plan]
      exact hbetween
    · refine ⟨_, hafter, hprecedes.trans execution.precedes_completeCurrent, ?_⟩
      rw [FlowExecution.completeCurrent_plan]
      intro index hlt hlt'
      by_cases hindex : index < execution.currentEntryIdx
      · exact hbetween index hlt hindex
      have hplaced := (served_placed hstart hrun).2 _ _ _ hruns'
      have hopen : execution.isCompleted = false := by
        by_contra hcompleted
        rw [Bool.not_eq_false] at hcompleted
        rw [(hplaced.formed e execution hheap).completeCurrent_eq hcompleted] at hlt'
        exact hindex hlt'
      have hcurrent : index = execution.currentEntryIdx := by
        have hle := execution.completeCurrent_index_le
        omega
      have hwithin := within_of_reply hrun hruns hreply
      have hhandled := served_advancesHandled hstart hrun _ _ _ e execution hruns' rfl hheap
        (FlowExecution.completeCurrent_ne hopen)
      rw [hwithin.callAt, hwithin.own_eq] at hhandled
      obtain ⟨stage, hstage, ⟨_, found, hfound, hsame, _⟩ | ⟨hkind, _⟩⟩ :=
        hwithin.handled hhandled ⟨execution, hheap, rfl⟩
      · -- a submission handles the entry that was current when the call began
        rw [hresting] at hfound
        cases hfound
        omega
      · rw [hcurrent]
        exact ⟨stage, hstage, by rw [hkind]; rfl⟩

end Stretches

/-- The stage of an entry takes effect in a call: its submission is handled, or the completion
loop logs in. -/
inductive TakesEffect (call : Call X) (reply : Reply X) (e : ExecId) (context : CheckContext)
    (index : Nat) : Prop
  | submission {request : Request X} {form : Value} {session : Session} {admitted rest : History X}
      {entry : FlowEntry} {stage : Stage} (hcall : call = .postFlow request)
      (hadmission : Admission request admitted form session e context)
      (hevents : reply.log.map Logged.event =
        admitted ++ (entering e index entry stage ++ rest))
  | loop {request : Request X} {form : Value} {session : Session}
      {admitted middle between rest : History X} {entry : FlowEntry} {stage : Stage}
      {inner : ExecutionContext} (hcall : call = .postFlow request)
      (hadmission : Admission request admitted form session e context)
      (hkind : stage.kind = .userLogin)
      (hevents : reply.log.map Logged.event =
        admitted ++ (middle ++ ⟨.completeCurrent e, ()⟩ :: (between ++
          (entering e index entry stage ++ ⟨.readContext e, inner⟩ :: rest))))

/-- The call has completed the entry that was current. -/
def Completes (reply : Reply X) (e : ExecId) : Prop :=
  ⟨.completeCurrent e, ()⟩ ∈ reply.log.map Logged.event

/-- Whenever a POST is admitted and completes the entry it was admitted to, the server side stages
right behind that entry let it pass as well. -/
def StretchGuarded (runs : List (Call X × Reply X)) : Prop :=
  ∀ run ∈ runs, ∀ e context, Admitted run.1 run.2 e context → Completes run.2 e →
    ∀ execution, run.2.before.heap[e]? = some execution →
      ∀ index entry, execution.plan.InStretch execution.currentEntryIdx index →
        execution.flow.entries[index]? = some entry →
          ∀ binding ∈ entry.bindings, Passes run.2.who run.2.before context binding

section Effects

variable {start state : World X} {runs first second : List (Call X × Reply X)} {call : Call X}
  {reply : Reply X} {e : ExecId} {context : CheckContext}

/-- An admission guards the entry that is current when the call begins. -/
theorem Admission.guarded {request : Request X} {admitted rest : History X} {form : Value}
    {session : Session} (hadmission : Admission request admitted form session e context)
    (hserves : (server X).Serves (handle X call) reply)
    (hevents : reply.log.map Logged.event = admitted ++ rest) :
    ∃ execution, reply.before.heap[e]? = some execution ∧
      Guarded (Evaluated reply context) context execution.plan execution.currentEntryIdx := by
  have huntouched := hadmission.untouching
  cases hadmission with
  | @intro extension host form session key e context opening finding connecting checking _ _ _ _ _ _
      _ hcheck =>
      rw [List.append_assoc] at hevents
      obtain ⟨opened, _, _, hopened, hrest, hopening, hlater⟩ :=
        (Segment.whole hserves).of_append hevents
      obtain ⟨_, _, _, rfl, _, hchecking, _⟩ := hlater.of_append hrest
      obtain ⟨execution, hheap, hguarded⟩ := hchecking.check hcheck
      rw [chain_heap_eq hopening.chain ?_] at hheap
      · exact ⟨execution, hheap, hguarded⟩
      · intro event hmem
        rw [hopened] at hmem
        exact huntouched event (List.mem_append_left _ hmem)

/-- What the completion loop takes up lies in the stretch behind the entry found current. -/
theorem inStretch_of_loop (hstart : start.Initial) (hrun : OneByOne start runs state)
    (hruns : runs = first ++ (call, reply) :: second) {earlier between rest : History X}
    {index : Nat} {entry : FlowEntry} {stage : Stage} (hkind : stage.kind = .userLogin)
    (hevents : reply.log.map Logged.event = earlier ++ ⟨.completeCurrent e, ()⟩ :: (between ++
      (entering e index entry stage ++ rest)))
    {resting : FlowExecution} (hresting : reply.before.heap[e]? = some resting) :
    resting.plan.InStretch resting.currentEntryIdx index := by
  obtain ⟨_, _, hserves⟩ := hrun.request hruns
  obtain ⟨_, _, _, _, hrest, hbefore, hlater⟩ := (Segment.whole hserves).of_append hevents
  obtain ⟨_, _, hcompleting, hrest, hlater⟩ := hlater.of_cons hrest
  obtain ⟨_, _, _, _, hrest, hbetween, hlater⟩ := hlater.of_append hrest
  obtain ⟨_, _, _, hentered, _, hentering, _⟩ := hlater.of_append hrest
  obtain ⟨passed, hpassed, hprecedes, _⟩ :=
    stretch hstart hrun hruns hbefore.after_reached hresting
  obtain ⟨current, hcurrent, hlast⟩ :=
    chain_execution_later hbetween.chain (exec_completeCurrent hcompleting hpassed)
  obtain ⟨same, hsame, hfrom, hserver⟩ :=
    stretch hstart hrun hruns hbetween.after_reached hresting
  obtain ⟨_, found, hfound, rfl, hopen, _, hstage⟩ := chain_entering hentering.chain hentered
  rw [hcurrent] at hsame hfound
  cases hsame
  cases hfound
  -- the first `complete_current` did move the execution, since it is still open
  have hadvanced : passed.completeCurrent.currentEntryIdx = passed.currentEntryIdx + 1 := by
    refine FlowExecution.completeCurrent_index_eq ?_
    by_contra hcompleted
    rw [Bool.not_eq_false] at hcompleted
    rw [hlast.completed hcompleted] at hopen
    cases hopen
  have hbehind := hprecedes.index
  have hmoved := hlast.index
  rw [← hfrom.plan]
  refine ⟨by omega, ?_⟩
  intro between hlt hle
  rcases Nat.lt_or_eq_of_le hle with hlt' | rfl
  · exact hserver between hlt hlt'
  · exact ⟨stage, hstage, by rw [hkind]; rfl⟩

/-- The bindings guard every stage that takes effect, as long as the server side stages that the
completion loop may reach let each admitted POST pass. -/
theorem effect_guarded (hstart : start.Initial) (hrun : OneByOne start runs state)
    (hstretch : StretchGuarded runs) {run : Call X × Reply X} (hmem : run ∈ runs) {index : Nat}
    (heffect : TakesEffect run.1 run.2 e context index) :
    ∃ execution, run.2.before.heap[e]? = some execution ∧
      Guarded (LetsPass run.2 context) context execution.plan index ∧
      (LookupsFound run.2 → Guarded (PassesDuring run.2 context) context execution.plan index) := by
  obtain ⟨first, second, hruns⟩ := List.append_of_mem hmem
  obtain ⟨call, reply⟩ := run
  obtain ⟨_, _, hserves⟩ := hrun.request hruns
  simp only at heffect hserves ⊢
  suffices hpasses : ∃ execution, reply.before.heap[e]? = some execution ∧
      Guarded (LetsPass reply context) context execution.plan index by
    obtain ⟨execution, hheap, hguarded⟩ := hpasses
    exact ⟨execution, hheap, hguarded, fun hfound =>
      hguarded.mono fun _ hpasses => hpasses.passes hfound⟩
  cases heffect with
  | @submission request form session admitted rest entry stage hcall hadmission hevents =>
      obtain ⟨execution, hheap, hguarded⟩ := hadmission.guarded hserves hevents
      obtain ⟨opened, _, _, _, rfl, hrest, hopening, hlater⟩ := hserves.chain.of_append hevents
      obtain ⟨_, _, _, _, hentered, _, hentering, _⟩ := hlater.of_append hrest
      obtain ⟨_, found, hfound, rfl, _⟩ := chain_entering hentering hentered
      rw [chain_heap_eq hopening hadmission.untouching, hheap] at hfound
      cases hfound
      exact ⟨execution, hheap, hguarded.mono fun _ => Or.inl⟩
  | @loop request form session admitted middle between rest entry stage inner hcall hadmission hkind
      hevents =>
      obtain ⟨execution, hheap, hguarded⟩ := hadmission.guarded hserves hevents
      have hadmitted : Admitted call reply e context := .intro hcall hadmission hevents
      have hcompletes : Completes reply e := by
        rw [Completes, hevents]
        simp
      refine ⟨execution, hheap, hguarded.authentication,
        fun binding hbinding => Or.inl (hguarded.flow binding hbinding), ?_⟩
      intro entry hentry binding hbinding
      refine Or.inr ⟨reply.before, ⟨[], reply.log, rfl, .nil _⟩, ?_⟩
      refine hstretch (call, reply) hmem e context hadmitted hcompletes execution hheap index entry
        ?_ hentry binding hbinding
      rw [← List.append_assoc] at hevents
      exact inStretch_of_loop hstart hrun hruns hkind hevents hheap

end Effects

section GuardRuns

variable {start state : World X} {runs : List (Call X × Reply X)} {e : ExecId}
  {context : CheckContext}

/-- Where a login is written, a UserLogin stage takes effect. -/
theorem takesEffect_of_update (hrun : OneByOne start runs state)
    (hupdates : updatesSession runs = true) :
    ∃ run ∈ runs, ∃ e context index, TakesEffect run.1 run.2 e context index ∧
      ∃ execution stage, run.2.before.heap[e]? = some execution ∧
        execution.plan.stageAt index = some stage ∧ stage.kind = .userLogin := by
  obtain ⟨run, hmem, hany⟩ := List.any_eq_true.mp hupdates
  obtain ⟨entry, hentry, hop⟩ := List.any_eq_true.mp hany
  obtain ⟨first, second, hruns⟩ := List.append_of_mem hmem
  obtain ⟨mine, tail, hreply⟩ := List.append_of_mem hentry
  have hwithin := within_of_reply hrun hruns hreply
  have hjustified := hwithin.justified
  split at hop
  next uid sid heq =>
    rw [heq] at hjustified
    generalize hcall : run.1 = call at hjustified
    generalize hmine : mine.map Logged.event = history at hjustified
    cases hjustified with
    | plain hplain => cases hplain
    | @updateSession request past session e index taken stage inner user added token claims sql
        hcompleting hkind _ _ _ =>
        have hevents : run.2.log.map Logged.event =
            past ++ (entering e index taken stage ++ ⟨.readContext e, inner⟩ ::
              ([⟨.addedCookie, added⟩, ⟨.addCookie token, ()⟩, ⟨.prepareCached sql, .ok ()⟩] ++
                (entry :: tail).map Logged.event)) := by
          rw [hreply, List.map_append, hmine]
          simp
        cases hcompleting with
        | @intro form session e context admitted handled middle hadmission _ =>
            rw [List.append_assoc, List.append_assoc, List.cons_append] at hevents
            obtain ⟨execution, hheap, _⟩ := hadmission.guarded hwithin.serves hevents
            refine ⟨run, hmem, e, context, index, .loop hcall hadmission hkind hevents, execution,
              stage, hheap, ?_, hkind⟩
            rw [← List.cons_append, ← List.append_assoc, ← List.append_assoc] at hevents
            -- the stage that is entered is the one of the plan, which has not changed since
            obtain ⟨_, _, _, _, hrest, hearlier, hlater⟩ :=
              (Segment.whole hwithin.serves).of_append hevents
            obtain ⟨_, _, _, hentered, _, hentering, _⟩ := hlater.of_append hrest
            obtain ⟨later, hafter, hprecedes⟩ := chain_execution_later hearlier.chain hheap
            obtain ⟨_, found, hfound, _, _, _, hstage⟩ := chain_entering hentering.chain hentered
            rw [hafter] at hfound
            cases hfound
            rw [← hprecedes.plan]
            exact hstage
  next => cases hop

/-- The user of a check is a row that the call was answered. -/
theorem Admission.user {request : Request X} {admitted : History X} {form : Value}
    {session : Session} (hadmission : Admission request admitted form session e context)
    {user : PartialUser} (huser : context.request.user = some user) :
    ∃ key, AnsweredBy admitted key user := by
  cases hadmission with
  | @intro extension host form session key e context opening finding connecting checking _ _ _ _ _ _
      hcontext _ =>
      obtain ⟨_, _, _, _, htransaction, rfl⟩ := trace_bind_ok.mp hcontext
      obtain ⟨_, _, _, _, hchecking, rfl⟩ := trace_bind_ok.mp htransaction
      obtain ⟨_, asked, _, hasking, hreading, rfl⟩ := trace_bind_ok.mp hchecking
      rw [run_lift, getCheckContext] at hreading
      obtain ⟨_, _, _, hread, hdone, rfl⟩ := trace_bind.mp hreading
      obtain ⟨rfl, heq⟩ := trace_done.mp hdone
      cases heq
      obtain ⟨_, _, _, hread⟩ := trace_perform_bind.mp hread
      obtain ⟨rfl, rfl⟩ := trace_done.mp hread
      simp only at huser
      subst huser
      unfold Session.getUser at hasking
      split at hasking
      next => exact ⟨_, ((answeredBy_of_lookupUserBy hasking).extend.append.append.append).extend⟩
      next => cases (trace_done.mp hasking).2

/-- No execution has bindings on an entry behind the current one. -/
def unboundBehind (runs : List (Call X × Reply X)) : Bool :=
  runs.all fun run => run.2.before.heap.all fun execution =>
    (execution.flow.entries.drop (execution.currentEntryIdx + 1)).all fun entry =>
      entry.bindings.isEmpty

theorem stretchGuarded_of_unboundBehind (hunbound : unboundBehind runs = true) :
    StretchGuarded runs := by
  intro run hmem e context _ _ execution hheap index entry hstretch hentry binding hbinding
  have hruns := List.all_eq_true.mp hunbound run hmem
  have hentries := List.all_eq_true.mp hruns execution (List.mem_of_getElem? hheap)
  have hbehind : entry ∈ execution.flow.entries.drop (execution.currentEntryIdx + 1) := by
    refine List.mem_of_getElem? (i := index - (execution.currentEntryIdx + 1)) ?_
    rw [List.getElem?_drop, Nat.add_sub_of_le hstretch.behind]
    exact hentry
  have hempty := List.all_eq_true.mp hentries entry hbehind
  rw [List.isEmpty_iff] at hempty
  rw [hempty] at hbinding
  cases hbinding

/-- No lookup of the run in the live policies has failed. -/
def allFound (runs : List (Call X × Reply X)) : Bool :=
  runs.all fun run => run.2.log.all policyFound

theorem lookupsFound_of_allFound (hfound : allFound runs = true) {run : Call X × Reply X}
    (hmem : run ∈ runs) : LookupsFound run.2 :=
  fun entry hentry => List.all_eq_true.mp (List.all_eq_true.mp hfound run hmem) entry hentry

/-- The form asks for the policy `true`; the login behind it asks for nothing. -/
def boundForm : World Externals.plain := oneFormBound [guardBinding false] [] [guardPolicy]

theorem boundForm_effect_guarded :
    ∃ run ∈ (sampleServe boundForm [sampleGet, memberLogin]).1, ∃ e context index,
      TakesEffect run.1 run.2 e context index ∧ ∃ execution,
        run.2.before.heap[e]? = some execution ∧
          Guarded (PassesDuring run.2 context) context execution.plan index := by
  have hrun := sampleServe_oneByOne boundForm [sampleGet, memberLogin]
  have hupdates : updatesSession (sampleServe boundForm [sampleGet, memberLogin]).1 = true := by
    decide +kernel
  have hunbound : unboundBehind (sampleServe boundForm [sampleGet, memberLogin]).1 = true := by
    decide +kernel
  have hfound : allFound (sampleServe boundForm [sampleGet, memberLogin]).1 = true := by
    decide +kernel
  obtain ⟨run, hmem, e, context, index, heffect, _⟩ := takesEffect_of_update hrun hupdates
  obtain ⟨execution, hheap, _, hguarded⟩ := effect_guarded (World.boot_initial _ _ _ _ _ _) hrun
    (stretchGuarded_of_unboundBehind hunbound) hmem heffect
  exact ⟨run, hmem, e, context, index, heffect, execution, hheap,
    hguarded (lookupsFound_of_allFound hfound hmem)⟩

/-- The login is reserved for a user who does not exist. -/
def boundLogin : World Externals.plain := oneFormBound [] [⟨true, false, 0, .user 3⟩] []

/-- Only the entry with the binding logs in, in every execution. -/
def loginBound (runs : List (Call X × Reply X)) : Bool :=
  runs.all fun run => run.2.before.heap.all fun execution =>
    execution.flow.entries.map FlowEntry.bindings = [[], [⟨true, false, 0, .user 3⟩]] &&
      (execution.plan.stageAt 0).map Stage.kind ≠ some .userLogin

/-- No statement has answered that user. -/
def neverAnswered (uid : Uuid) (runs : List (Call X × Reply X)) : Bool :=
  runs.all fun run => run.2.log.all fun entry =>
    match entry.event with
    | ⟨.queryUser _, .ok (some row)⟩ => row.uid ≠ uid
    | _ => true

/-- A binding to a user denies everybody else, without a look at the server. -/
theorem checkBinding_user {uid : Uuid} {order : Int}
    (hother : context.request.user.map PartialUser.uid ≠ some uid) :
    checkBinding X ⟨true, false, order, .user uid⟩ context = .done (some "Access denied") := by
  simp only [checkBinding, if_true, FlowCheck.ofBindingKind, pure_eq_done, done_bind,
    FlowCheck.check]
  rw [decide_eq_false hother]
  rfl

/-- A binding to a user lets that user pass and nobody else. -/
theorem LetsPass.user {reply : Reply X} {uid : Uuid} {order : Int}
    (hpasses : LetsPass reply context ⟨true, false, order, .user uid⟩) :
    context.request.user.map PartialUser.uid = some uid := by
  by_contra hother
  have hdenies := @checkBinding_user X context uid order hother
  rcases hpasses with ⟨_, _, _, _, htrace⟩ | ⟨_, _, _, halone⟩
  · rw [hdenies] at htrace
    cases (trace_done.mp htrace).2
  · rw [hdenies] at halone
    cases halone

theorem not_guarded_of_loginBound (hbound : loginBound runs = true)
    (hanswered : neverAnswered 3 runs = true)
    {run : Call X × Reply X} (hmem : run ∈ runs) {index : Nat}
    (heffect : TakesEffect run.1 run.2 e context index) {execution : FlowExecution} {stage : Stage}
    (hheap : run.2.before.heap[e]? = some execution)
    (hstage : execution.plan.stageAt index = some stage) (hkind : stage.kind = .userLogin) :
    ¬ Guarded (LetsPass run.2 context) context execution.plan index := by
  intro hguarded
  have hexecution := List.all_eq_true.mp (List.all_eq_true.mp hbound run hmem) execution
    (List.mem_of_getElem? hheap)
  rw [Bool.and_eq_true, decide_eq_true_eq, decide_eq_true_eq] at hexecution
  obtain ⟨hentries, hfirst⟩ := hexecution
  -- the plan has two entries and the first has another stage
  have hindex : index = 1 := by
    have hlt := Plan.stageAt_lt hstage
    have hlength := congrArg List.length hentries
    rw [List.length_map] at hlength
    simp only [FlowExecution.plan] at hlt
    rw [hlength] at hlt
    have hpositive : index ≠ 0 := by
      rintro rfl
      exact hfirst (by rw [hstage, Option.map_some, hkind])
    simp only [List.length_cons, List.length_nil] at hlt
    omega
  subst hindex
  have hentry : (execution.flow.entries.map FlowEntry.bindings)[1]? =
      some [⟨true, false, 0, .user 3⟩] := by
    rw [hentries]
    rfl
  rw [List.getElem?_map] at hentry
  obtain ⟨entry, hentry, hbindings⟩ := Option.map_eq_some_iff.mp hentry
  have hpasses := hguarded.entry entry hentry ⟨true, false, 0, .user 3⟩ (by simp [hbindings])
  obtain ⟨user, huser, huid⟩ := Option.map_eq_some_iff.mp hpasses.user
  have hadmitted : ∃ key row, ⟨.queryUser key, .ok (some row)⟩ ∈ run.2.log.map Logged.event ∧
      user = row.toPartialUser := by
    cases heffect with
    | submission _ hadmission hevents | loop _ hadmission _ hevents =>
        obtain ⟨key, row, hrow, heq⟩ := hadmission.user huser
        rw [hevents]
        exact ⟨key, row, List.mem_append_left _ hrow, heq⟩
  obtain ⟨key, row, hrow, rfl⟩ := hadmitted
  obtain ⟨logged, hlogged, hevent⟩ := List.mem_map.mp hrow
  have hother := List.all_eq_true.mp (List.all_eq_true.mp hanswered run hmem) logged hlogged
  simp only [hevent, decide_eq_true_eq] at hother
  exact hother huid

/-- The binding of the login denies everybody, but the login behind the form is not checked. -/
theorem boundLogin_effect_unguarded : ∃ runs state, OneByOne boundLogin runs state ∧
    ∃ run ∈ runs, ∃ e context index, TakesEffect run.1 run.2 e context index ∧
      ¬ ∃ execution, run.2.before.heap[e]? = some execution ∧
        Guarded (LetsPass run.2 context) context execution.plan index := by
  have hrun := sampleServe_oneByOne boundLogin [sampleGet, memberLogin]
  have hupdates : updatesSession (sampleServe boundLogin [sampleGet, memberLogin]).1 = true := by
    decide +kernel
  have hbound : loginBound (sampleServe boundLogin [sampleGet, memberLogin]).1 = true := by
    decide +kernel
  have hanswered : neverAnswered 3 (sampleServe boundLogin [sampleGet, memberLogin]).1 = true := by
    decide +kernel
  obtain ⟨run, hmem, e, context, index, heffect, execution, stage, hheap, hstage, hkind⟩ :=
    takesEffect_of_update hrun hupdates
  refine ⟨_, _, hrun, run, hmem, e, context, index, heffect, ?_⟩
  rintro ⟨other, hother, hguarded⟩
  rw [hheap] at hother
  cases hother
  exact not_guarded_of_loginBound hbound hanswered hmem heffect hheap hstage hkind hguarded

end GuardRuns

end Authust
