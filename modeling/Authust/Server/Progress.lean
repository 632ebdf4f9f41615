import Authust.Server.Runs
import Authust.Server.Histories

/-! # Where an execution stands

An execution keeps its plan for ever. Its position is moved by `complete_current` alone, so
a request that has asked for the current entry knows the position until somebody completes
that entry.
-/

namespace Authust

open Coop Coop.Task Coop.Machine

variable {X : Externals}

/-- What never changes about an execution. -/
structure Plan where
  flow : Flow
  key : FlowKey
  storage : FreezedStorage

/-- The stage of an entry, as the frozen storage answers it. -/
def Plan.stageAt (plan : Plan) (index : Nat) : Option Stage :=
  (plan.flow.entries[index]?).bind fun entry =>
    (plan.storage.stage.findOptional entry.stage).join

theorem Plan.stageAt_lt {plan : Plan} {index : Nat} {stage : Stage}
    (hstage : plan.stageAt index = some stage) : index < plan.flow.entries.length := by
  obtain ⟨entry, hentry, _⟩ := Option.bind_eq_some_iff.mp hstage
  exact (List.getElem?_eq_some_iff.mp hentry).1

namespace FlowExecution

def plan (execution : FlowExecution) : Plan where
  flow := execution.flow
  key := execution.key
  storage := execution.context.storage

@[simp] theorem completeCurrent_plan (execution : FlowExecution) :
    execution.completeCurrent.plan = execution.plan := by
  unfold completeCurrent
  split <;> rfl

@[simp] theorem useMutContext_plan (execution : FlowExecution) (update : ContextUpdate) :
    (execution.useMutContext update).plan = execution.plan := by
  cases update <;> rfl

@[simp] theorem completeCurrent_context (execution : FlowExecution) :
    execution.completeCurrent.context = execution.context := by
  unfold completeCurrent
  split <;> rfl

/-- The current entry exists, and a completed execution rests at its last one. -/
structure WellFormed (execution : FlowExecution) : Prop where
  index : execution.currentEntryIdx < execution.flow.entries.length
  completed : execution.isCompleted = true →
    execution.currentEntryIdx + 1 = execution.flow.entries.length

theorem wellFormed_new {key : FlowKey} {flow : Flow} {storage : FreezedStorage}
    {now : OffsetDateTime} (hentries : flow.entries ≠ []) :
    (FlowExecution.new key flow storage now).WellFormed where
  index := List.length_pos_iff.mpr hentries
  completed := by
    intro hcompleted
    cases hcompleted

variable {execution : FlowExecution}

theorem WellFormed.useMutContext (hformed : execution.WellFormed) (update : ContextUpdate) :
    (execution.useMutContext update).WellFormed :=
  ⟨hformed.index, hformed.completed⟩

theorem WellFormed.completeCurrent (hformed : execution.WellFormed) :
    execution.completeCurrent.WellFormed := by
  unfold FlowExecution.completeCurrent
  split
  next entry hnext =>
    have hlt := (List.getElem?_eq_some_iff.mp hnext).1
    refine ⟨hlt, ?_⟩
    intro hcompleted
    have hlast := hformed.completed hcompleted
    simp only at hlast ⊢
    omega
  next hnone =>
    have hlast := List.getElem?_eq_none_iff.mp hnone
    have hindex := hformed.index
    refine ⟨hindex, fun _ => ?_⟩
    simp only
    omega

/-- A completed execution is not moved any further. -/
theorem WellFormed.completeCurrent_eq (hformed : execution.WellFormed)
    (hcompleted : execution.isCompleted = true) : execution.completeCurrent = execution := by
  have hnone : execution.flow.entries[execution.currentEntryIdx + 1]? = none := by
    exact List.getElem?_eq_none_iff.mpr (Nat.le_of_eq (hformed.completed hcompleted).symm)
  unfold FlowExecution.completeCurrent
  rw [hnone]
  simp only
  rw [← hcompleted]

/-- An open execution is moved or completed. -/
theorem completeCurrent_ne (hopen : execution.isCompleted = false) :
    execution.completeCurrent ≠ execution := by
  intro hsame
  unfold completeCurrent at hsame
  split at hsame
  next => exact absurd (congrArg currentEntryIdx hsame) (Nat.succ_ne_self _)
  next =>
    have hcompleted := congrArg isCompleted hsame
    rw [hopen] at hcompleted
    cases hcompleted

theorem completeCurrent_index_le (execution : FlowExecution) :
    execution.completeCurrent.currentEntryIdx ≤ execution.currentEntryIdx + 1 := by
  unfold completeCurrent
  split
  next => exact Nat.le_refl _
  next => exact Nat.le_succ _

theorem completeCurrent_index_eq (hopen : execution.completeCurrent.isCompleted = false) :
    execution.completeCurrent.currentEntryIdx = execution.currentEntryIdx + 1 := by
  unfold completeCurrent at hopen ⊢
  split at hopen
  next => rfl
  next => cases hopen

/-- The entry has been passed. -/
def Passed (execution : FlowExecution) (index : Nat) : Prop :=
  index < execution.currentEntryIdx ∨ index = execution.currentEntryIdx ∧
    execution.isCompleted = true

/-- What `complete_current` passes had been passed before, or is the current entry. -/
theorem WellFormed.passed_completeCurrent (hformed : execution.WellFormed) {index : Nat}
    (hpassed : execution.completeCurrent.Passed index) :
    execution.Passed index ∨ index = execution.currentEntryIdx ∧ execution.isCompleted = false := by
  by_cases hcompleted : execution.isCompleted = true
  · rw [hformed.completeCurrent_eq hcompleted] at hpassed
    exact Or.inl hpassed
  · rw [Bool.not_eq_true] at hcompleted
    unfold FlowExecution.completeCurrent Passed at hpassed
    unfold Passed
    split at hpassed
    all_goals
      simp only [hcompleted, and_true, Bool.false_eq_true, and_false, or_false] at hpassed ⊢
      omega

/-- An execution later on: the plan is the same, and what is done stays done. -/
structure Precedes (old execution : FlowExecution) : Prop where
  plan : execution.plan = old.plan
  index : old.currentEntryIdx ≤ execution.currentEntryIdx
  completed : old.isCompleted = true → execution.isCompleted = true

theorem Precedes.refl (execution : FlowExecution) : Precedes execution execution :=
  ⟨rfl, Nat.le_refl _, id⟩

theorem Precedes.trans {first second third : FlowExecution} (hfirst : Precedes first second)
    (hsecond : Precedes second third) : Precedes first third where
  plan := hsecond.plan.trans hfirst.plan
  index := Nat.le_trans hfirst.index hsecond.index
  completed := hsecond.completed ∘ hfirst.completed

theorem precedes_completeCurrent (execution : FlowExecution) :
    Precedes execution execution.completeCurrent where
  plan := execution.completeCurrent_plan
  index := by
    unfold completeCurrent
    split
    next => exact Nat.le_succ _
    next => exact Nat.le_refl _
  completed := by
    unfold completeCurrent
    split
    next => exact id
    next => exact fun _ => rfl

theorem precedes_useMutContext (execution : FlowExecution) (update : ContextUpdate) :
    Precedes execution (execution.useMutContext update) :=
  ⟨execution.useMutContext_plan update, Nat.le_refl _, id⟩

end FlowExecution

/-- What a history of its own tells a request about the current entry. -/
def knownNext (e : ExecId) (known : Option Nat) : Event (sig X) → Option Nat
  | ⟨.getEntry asked, answer⟩ => if asked = e then some answer.1 else known
  | ⟨.completeCurrent completed, _⟩ => if completed = e then none else known
  | _ => known

/-- What the request `who` still knows after any operation. -/
def heldNext (who : Nat) (e : ExecId) (known : Option Nat) (entry : Logged (sig X) (World X)) :
    Option Nat :=
  if entry.who = who then knownNext e known entry.event
  else
    match entry.event.op with
    | .completeCurrent completed => if completed = e then none else known
    | _ => known

/-- The current entry the request has asked for last, unless it has been completed since. -/
def heldEntry (who : Nat) (e : ExecId) (log : Log X) : Option Nat :=
  log.foldl (heldNext who e) none

section Known

variable {who : Nat} {e : ExecId}

theorem heldEntry_snoc (log : Log X) (entry : Logged (sig X) (World X)) :
    heldEntry who e (log ++ [entry]) = heldNext who e (heldEntry who e log) entry := by
  simp [heldEntry]

/-- Where held knowledge comes from. -/
theorem heldNext_eq_some {known : Option Nat} {entry : Logged (sig X) (World X)} {index : Nat}
    (hheld : heldNext who e known entry = some index) :
    (entry.who = who ∧ ∃ found, entry.event = ⟨.getEntry e, (index, found)⟩) ∨
      known = some index ∧ entry.event.op ≠ .completeCurrent e := by
  obtain ⟨by', before, op, res⟩ := entry
  unfold heldNext at hheld
  split at hheld
  next hwho =>
    unfold knownNext at hheld
    split at hheld
    next asked answer heq =>
      cases heq
      split at hheld
      next hasked =>
        subst hasked
        cases hheld
        exact Or.inl ⟨hwho, answer.2, rfl⟩
      next => exact Or.inr ⟨hheld, by simp⟩
    next completed answer heq =>
      cases heq
      split at hheld
      next => cases hheld
      next hother => exact Or.inr ⟨hheld, by simpa using hother⟩
    next _ hcompleted => exact Or.inr ⟨hheld, fun hop => by cases hop; exact hcompleted e () rfl⟩
  next =>
    split at hheld
    next completed heq =>
      split at hheld
      next => cases hheld
      next hother =>
        refine Or.inr ⟨hheld, fun hop => hother ?_⟩
        rw [heq] at hop
        cases hop
        rfl
    next hcompleted => exact Or.inr ⟨hheld, fun hop => hcompleted e hop⟩

/-- Another request can only spoil what is known. -/
theorem heldNext_other {entry : Logged (sig X) (World X)} (hwho : entry.who ≠ who)
    (known : Option Nat) :
    heldNext who e known entry = none ∨ heldNext who e known entry = known := by
  unfold heldNext
  rw [if_neg hwho]
  split
  next =>
    split
    next => exact Or.inl rfl
    next => exact Or.inr rfl
  next => exact Or.inr rfl

/-- An own event tells the same, whatever was known, or nothing. -/
theorem knownNext_none (known : Option Nat) (event : Event (sig X)) :
    knownNext e none event = none ∨ knownNext e none event = knownNext e known event := by
  unfold knownNext
  split
  next =>
    split
    next => exact Or.inr rfl
    next => exact Or.inl rfl
  next =>
    split
    next => exact Or.inr rfl
    next => exact Or.inl rfl
  next => exact Or.inl rfl

/-- What is held is what the own history tells. -/
theorem heldEntry_own (log : Log X) : heldEntry who e log = none ∨
    heldEntry who e log = (own who log).foldl (knownNext e) none := by
  induction log using List.reverseRecOn with
  | nil => exact Or.inl rfl
  | append_singleton log entry ih =>
      rw [heldEntry_snoc, own_append]
      by_cases hwho : entry.who = who
      · have hown : own who [entry] = [entry.event] := by simp [own, hwho]
        rw [hown, List.foldl_append, heldNext, if_pos hwho]
        rcases ih with hnone | hknown
        · rw [hnone]
          exact knownNext_none _ _
        · rw [hknown]
          exact Or.inr rfl
      · have hown : own who [entry] = [] := by simp [own, hwho]
        rw [hown, List.append_nil]
        rcases heldNext_other hwho (heldEntry who e log) with hnone | hsame
        · exact Or.inl hnone
        · rw [hsame]
          exact ih

/-- Along the events of one request alone, nothing spoils what it knows. -/
theorem foldl_heldNext {log : Log X} (hwho : ∀ entry ∈ log, entry.who = who) (known : Option Nat) :
    log.foldl (heldNext who e) known = (log.map Logged.event).foldl (knownNext e) known := by
  induction log generalizing known with
  | nil => rfl
  | cons entry log ih =>
      rw [List.foldl_cons, List.map_cons, List.foldl_cons, heldNext,
        if_pos (hwho entry List.mem_cons_self)]
      exact ih (fun other hmem => hwho other (List.mem_cons_of_mem _ hmem)) _

theorem knownNext_untracked {event : Event (sig X)} (hevent : event.op.tracks = false)
    (known : Option Nat) : knownNext e known event = known := by
  obtain ⟨op, res⟩ := event
  cases op with
  | getEntry asked => cases hevent
  | completeCurrent completed => cases hevent
  | _ => rfl

/-- Who has taken up an entry knows it, as long as only untracked operations follow. -/
theorem foldl_knownNext_entering {index : Nat} {entry : FlowEntry} {stage : Stage}
    {past tail : History X} (htail : ∀ event ∈ tail, event.op.tracks = false)
    (known : Option Nat) :
    (past ++ entering e index entry stage ++ tail).foldl (knownNext e) known = some index := by
  rw [List.foldl_append, List.foldl_append]
  have hentered : ∀ known,
      (entering e index entry stage : History X).foldl (knownNext e) known = some index := by
    intro known
    simp [entering, stageLookup, knownNext]
  rw [hentered]
  clear hentered
  induction tail with
  | nil => rfl
  | cons event tail ih =>
      rw [List.foldl_cons, knownNext_untracked (htail event List.mem_cons_self)]
      exact ih fun other hmem => htail other (List.mem_cons_of_mem _ hmem)

end Known

section Steps

variable {who : Nat} {before after : World X} {event : Event (sig X)}

/-- What one operation leaves of an execution. -/
theorem Step.execution_later (hstep : Step who before event after) {e : ExecId}
    {old : FlowExecution} (hbefore : before.heap[e]? = some old) :
    ∃ execution, after.heap[e]? = some execution ∧ old.Precedes execution ∧
      (event.op ≠ .completeCurrent e → execution.currentEntryIdx = old.currentEntryIdx ∧
        execution.isCompleted = old.isCompleted) := by
  rcases hstep.execution_stays hbefore with hsame | ⟨update, rfl, hafter⟩ | ⟨rfl, hafter⟩
  · exact ⟨old, hsame, .refl old, fun _ => ⟨rfl, rfl⟩⟩
  · exact ⟨_, hafter, old.precedes_useMutContext update, fun _ => ⟨rfl, rfl⟩⟩
  · exact ⟨_, hafter, old.precedes_completeCurrent, fun hop => absurd rfl hop⟩

theorem Step.heap_eq (hstep : Step who before event after) (hop : event.op.touches = false) :
    after.heap = before.heap := by
  rcases hstep.heap with heq | ⟨_, rfl, _⟩ | ⟨_, _, rfl, _⟩ | ⟨_, rfl, _⟩
  · exact heq
  all_goals cases hop

variable {moves : World X → World X → Prop} {log : Log X}

theorem exec_completeCurrent {e : ExecId} {old : FlowExecution}
    (hexec : (machine X moves).Exec who before ⟨.completeCurrent e, ()⟩ after)
    (hbefore : before.heap[e]? = some old) : after.heap[e]? = some old.completeCurrent := by
  obtain ⟨choice, hexec⟩ := hexec
  simp only [machine, exec, hbefore, Option.map_some, Option.some.injEq, Prod.mk.injEq,
    true_and] at hexec
  rw [← hexec, World.modifyExecution, List.getElem?_modify_eq, hbefore]
  rfl

theorem exec_useMutContext {e : ExecId} {update : ContextUpdate}
    (hexec : (machine X moves).Exec who before ⟨.useMutContext e update, ()⟩ after) :
    ∃ old, before.heap[e]? = some old ∧ after.heap[e]? = some (old.useMutContext update) := by
  obtain ⟨choice, hexec⟩ := hexec
  simp only [machine, exec] at hexec
  split at hexec
  next => cases hexec
  next =>
    obtain ⟨old, hold, hresult⟩ := Option.map_eq_some_iff.mp hexec
    simp only [Prod.mk.injEq, true_and] at hresult
    refine ⟨old, hold, ?_⟩
    rw [← hresult, World.modifyExecution, List.getElem?_modify_eq, hold]
    rfl

theorem chain_execution_later (hchain : (machine X moves).Chain who before log after) {e : ExecId}
    {old : FlowExecution} (hbefore : before.heap[e]? = some old) :
    ∃ execution, after.heap[e]? = some execution ∧ old.Precedes execution := by
  refine hchain.invariant
    (fun state => ∃ execution, state.heap[e]? = some execution ∧ old.Precedes execution) ?_
    ⟨old, hbefore, .refl old⟩
  rintro state event next _ hexec ⟨execution, hheap, hprecedes⟩
  obtain ⟨later, hlater, hnext, _⟩ := (exec_step hexec).execution_later hheap
  exact ⟨later, hlater, hprecedes.trans hnext⟩

/-- Operations that do not touch executions leave all of them as they are. -/
theorem chain_heap_eq (hchain : (machine X moves).Chain who before log after)
    (huntouched : ∀ event ∈ log.map Logged.event, event.op.touches = false) :
    after.heap = before.heap := by
  refine hchain.invariant (fun state => state.heap = before.heap) ?_ rfl
  rintro state event next ⟨entry, hmem, rfl, _⟩ hexec hstate
  have hop := huntouched entry.event (List.mem_map_of_mem hmem)
  rw [(exec_step hexec).heap_eq hop, hstate]

/-- A request that takes up an entry finds the execution there, with that stage. -/
theorem chain_entering {e : ExecId} {index : Nat} {entry : FlowEntry} {stage : Stage}
    (hchain : (machine X moves).Chain who before log after)
    (hevents : log.map Logged.event = entering e index entry stage) :
    after.heap = before.heap ∧ ∃ execution, before.heap[e]? = some execution ∧
      execution.currentEntryIdx = index ∧ execution.isCompleted = false ∧
        execution.flow.entries[index]? = some entry ∧
          execution.plan.stageAt index = some stage := by
  have hheap : after.heap = before.heap := by
    refine chain_heap_eq hchain ?_
    rw [hevents]
    simp [entering, stageLookup, Op.touches]
  obtain ⟨_, first, rfl, hevents, hasked, hchain⟩ := hchain.of_cons hevents
  obtain ⟨_, second, rfl, hevents, hentry, hchain⟩ := hchain.of_cons hevents
  obtain ⟨_, third, rfl, hevents, hlock, hchain⟩ := hchain.of_cons hevents
  obtain ⟨_, fourth, rfl, hevents, hfrozen, hchain⟩ := hchain.of_cons hevents
  have hfirst := (exec_step hasked).heap_eq rfl
  have hsecond := (exec_step hentry).heap_eq rfl
  have hthird := (exec_step hlock).heap_eq rfl
  obtain ⟨execution, hexecution, hcompleted⟩ := exec_isCompleted hasked
  obtain ⟨found, hfound, hindex, hentries⟩ := exec_getEntry hentry
  obtain ⟨owner, howner, hstage⟩ := exec_frozenStage hfrozen
  rw [hfirst] at hsecond hfound
  rw [hthird, hsecond] at howner
  rw [hexecution] at hfound howner
  cases hfound
  cases howner
  refine ⟨hheap, execution, hexecution, hindex, hcompleted, hentries, ?_⟩
  simp [Plan.stageAt, FlowExecution.plan, hentries, hstage]

end Steps

/-- What is known in a state of the executions after the operations of a log. -/
structure Placed (state : World X) (log : Log X) : Prop where
  formed : ∀ (e : ExecId) (execution : FlowExecution),
    state.heap[e]? = some execution → execution.WellFormed
  held : ∀ who e index, heldEntry who e log = some index →
    ∃ execution, state.heap[e]? = some execution ∧ execution.currentEntryIdx = index
  completed : ∀ entry ∈ log, ∀ e, entry.event = ⟨.isCompleted e, true⟩ →
    ∃ execution, state.heap[e]? = some execution ∧ execution.isCompleted = true
  planned : ∀ entry ∈ log, ∀ (e : ExecId) (old : FlowExecution), entry.before.heap[e]? = some old →
    ∃ execution, state.heap[e]? = some execution ∧ execution.plan = old.plan
  passed : ∀ (e : ExecId) (execution : FlowExecution) index,
    state.heap[e]? = some execution → execution.Passed index →
    ∃ past entry rest old, log = past ++ entry :: rest ∧ entry.event.op = .completeCurrent e ∧
      entry.before.heap[e]? = some old ∧ old.currentEntryIdx = index ∧ old.isCompleted = false

section Placed

variable {call : Call X} {history : History X} {who : Nat} {state after : World X} {log : Log X}
  {event : Event (sig X)}

theorem Placed.formed_exec (hplaced : Placed state log)
    (hjustified : Justified call history event.op)
    (hstep : Step who state event after) {e : ExecId} {execution : FlowExecution}
    (hafter : after.heap[e]? = some execution) : execution.WellFormed := by
  rcases hstep.execution hafter with hbefore | rfl | ⟨update, old, rfl, hold, rfl⟩ |
      ⟨old, rfl, hold, rfl⟩
  · exact hplaced.formed e execution hbefore
  · cases hjustified with
    | plain hplain => cases hplain
    | insertExecution _ _ hentries => exact FlowExecution.wellFormed_new hentries
  · exact (hplaced.formed e old hold).useMutContext update
  · exact (hplaced.formed e old hold).completeCurrent

theorem Placed.held_exec {moves : World X → World X → Prop} (hplaced : Placed state log)
    (hexec : (machine X moves).Exec who state event after) {asker : Nat} {e : ExecId} {index : Nat}
    (hheld : heldEntry asker e (log ++ [⟨who, state, event⟩]) = some index) :
    ∃ execution, after.heap[e]? = some execution ∧ execution.currentEntryIdx = index := by
  rw [heldEntry_snoc] at hheld
  rcases heldNext_eq_some hheld with ⟨rfl, found, rfl⟩ | ⟨hknown, hop⟩
  · obtain ⟨execution, hheap, hindex, _⟩ := exec_getEntry hexec
    obtain ⟨later, hafter, _, hkept⟩ := (exec_step hexec).execution_later hheap
    refine ⟨later, hafter, ?_⟩
    rw [(hkept (by simp)).1, hindex]
  · obtain ⟨execution, hheap, rfl⟩ := hplaced.held asker e index hknown
    obtain ⟨later, hafter, _, hkept⟩ := (exec_step hexec).execution_later hheap
    exact ⟨later, hafter, (hkept hop).1⟩

theorem Placed.completed_exec {moves : World X → World X → Prop} (hplaced : Placed state log)
    (hexec : (machine X moves).Exec who state event after) {entry : Logged (sig X) (World X)}
    (hmem : entry ∈ log ++ [⟨who, state, event⟩]) {e : ExecId}
    (hevent : entry.event = ⟨.isCompleted e, true⟩) :
    ∃ execution, after.heap[e]? = some execution ∧ execution.isCompleted = true := by
  have hbefore : ∃ execution, state.heap[e]? = some execution ∧ execution.isCompleted = true := by
    rcases List.mem_append.mp hmem with hmem | hmem
    · exact hplaced.completed entry hmem e hevent
    · obtain rfl := List.mem_singleton.mp hmem
      cases hevent
      exact exec_isCompleted hexec
  obtain ⟨execution, hheap, hcompleted⟩ := hbefore
  obtain ⟨later, hafter, hprecedes, _⟩ := (exec_step hexec).execution_later hheap
  exact ⟨later, hafter, hprecedes.completed hcompleted⟩

theorem Placed.planned_exec (hplaced : Placed state log) (hstep : Step who state event after)
    {entry : Logged (sig X) (World X)} (hmem : entry ∈ log ++ [⟨who, state, event⟩]) {e : ExecId}
    {old : FlowExecution} (hold : entry.before.heap[e]? = some old) :
    ∃ execution, after.heap[e]? = some execution ∧ execution.plan = old.plan := by
  have hbefore : ∃ execution, state.heap[e]? = some execution ∧ execution.plan = old.plan := by
    rcases List.mem_append.mp hmem with hmem | hmem
    · exact hplaced.planned entry hmem e old hold
    · obtain rfl := List.mem_singleton.mp hmem
      exact ⟨old, hold, rfl⟩
  obtain ⟨execution, hheap, hplan⟩ := hbefore
  obtain ⟨later, hafter, hprecedes, _⟩ := hstep.execution_later hheap
  exact ⟨later, hafter, hprecedes.plan.trans hplan⟩

theorem Placed.passed_exec (hplaced : Placed state log)
    (hjustified : Justified call history event.op)
    (hstep : Step who state event after) {e : ExecId} {execution : FlowExecution} {index : Nat}
    (hafter : after.heap[e]? = some execution) (hpassed : execution.Passed index) :
    ∃ past entry rest old, log ++ [⟨who, state, event⟩] = past ++ entry :: rest ∧
      entry.event.op = .completeCurrent e ∧ entry.before.heap[e]? = some old ∧
        old.currentEntryIdx = index ∧ old.isCompleted = false := by
  have hearlier : ∀ old, state.heap[e]? = some old → old.Passed index →
      ∃ past entry rest old, log ++ [⟨who, state, event⟩] = past ++ entry :: rest ∧
        entry.event.op = .completeCurrent e ∧ entry.before.heap[e]? = some old ∧
          old.currentEntryIdx = index ∧ old.isCompleted = false := by
    intro old hold hpassed
    obtain ⟨past, entry, rest, found, rfl, hfound⟩ := hplaced.passed e old index hold hpassed
    exact ⟨past, entry, rest ++ [⟨who, state, event⟩], found, by simp, hfound⟩
  rcases hstep.execution hafter with hbefore | rfl | ⟨update, old, rfl, hold, rfl⟩ |
      ⟨old, rfl, hold, rfl⟩
  · exact hearlier execution hbefore hpassed
  · cases hjustified with
    | plain hplain => cases hplain
    | insertExecution _ _ _ =>
        rcases hpassed with hpassed | ⟨_, hcompleted⟩
        · exact absurd hpassed (Nat.not_lt_zero _)
        · cases hcompleted
  · exact hearlier old hold hpassed
  · rcases (hplaced.formed e old hold).passed_completeCurrent hpassed with hpassed | ⟨rfl, hopen⟩
    · exact hearlier old hold hpassed
    · exact ⟨log, _, [], old, rfl, rfl, hold, rfl, hopen⟩

theorem Placed.exec {moves : World X → World X → Prop} (hplaced : Placed state log)
    (hjustified : Justified call history event.op)
    (hexec : (machine X moves).Exec who state event after) :
    Placed after (log ++ [⟨who, state, event⟩]) where
  formed := fun _ _ => hplaced.formed_exec hjustified (exec_step hexec)
  held := fun _ _ _ => hplaced.held_exec hexec
  completed := fun _ hmem _ => hplaced.completed_exec hexec hmem
  planned := fun _ hmem _ _ => hplaced.planned_exec (exec_step hexec) hmem
  passed := fun _ _ _ => hplaced.passed_exec hjustified (exec_step hexec)

theorem Placed.of_heap_eq (hplaced : Placed state log) (hheap : after.heap = state.heap) :
    Placed after log := by
  constructor
  all_goals rw [hheap]
  · exact hplaced.formed
  · exact hplaced.held
  · exact hplaced.completed
  · exact hplaced.planned
  · exact hplaced.passed

theorem placed_initial (hinitial : state.Initial) : Placed state [] where
  formed := by
    intro e execution hheap
    simp [hinitial.heap] at hheap
  held := by
    intro who e index hheld
    cases hheld
  completed := by
    intro entry hmem
    cases hmem
  planned := by
    intro entry hmem
    cases hmem
  passed := by
    intro e execution index hheap
    simp [hinitial.heap] at hheap

theorem placed_preserved {calls : Nat → Call X} {start : World X} :
    Preserved desk (fun who => handle X (calls who)) start Placed where
  exec := fun hplaced _ hpath _ hexec => hplaced.exec (justified_of_path hpath) hexec
  release := fun hplaced => hplaced.of_heap_eq rfl
  moves := fun hplaced hmoves => hplaced.of_heap_eq hmoves.heap

/-- Under every interleaving the positions are known at the end and before every operation. -/
theorem interleaved_placed {calls : Nat → Call X} {start : World X}
    {config : Config (sig X) (World X) (Except ApiErrorKind Response)} (hstart : start.Initial)
    (hreach : Interleaved calls start config) : Placed config.state config.log ∧
      Throughout (fun past entry => Placed entry.before past) config.log :=
  (hreach.holds placed_preserved.throughout ⟨placed_initial hstart, throughout_nil⟩).1

/-- The same of calls served one after another. -/
theorem served_placed {start state : World X} {runs : List (Call X × Reply X)}
    (hstart : start.Initial) (hrun : OneByOne start runs state) : Placed state (logOf runs) ∧
      Throughout (fun past entry => Placed entry.before past) (logOf runs) :=
  (hrun.preserves placed_preserved.throughout ⟨placed_initial hstart, throughout_nil⟩
    (handle_callAt hrun)).1

end Placed

end Authust