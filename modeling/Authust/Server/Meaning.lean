import Authust.Server.Isolation
import Authust.Server.Snapshot

/-! # What a check means

A check lets a request pass when the authentication requirement holds for its user and every
enabled binding admits it. The bindings are evaluated in order up to the first that denies, but
the order does not matter: evaluating one compiles trees at most, and these are the ones that
were to be compiled.
-/

namespace Authust

open Coop Coop.Task Coop.Machine

section Returned

variable (X : Externals)

/-- `check_binding`, with the `Result` of its type. -/
def checkBindingReturned (binding : FlowBinding) (context : CheckContext) :
    Task (sig X) (Except Unit (Option String)) :=
  if binding.enabled then do
    let check ← FlowCheck.ofBindingKind X binding.kind
    let result ← check.check X context
    let result := if binding.negate then result.negate else result
    if result.deref then pure (.ok none) else pure (.ok (some check.message))
  else pure (.ok none)

/-- The loops of `check`, where an error of a binding is passed on. -/
def checkBindingsReturned (context : CheckContext) :
    List FlowBinding → Task (sig X) (Except Unit (Option String))
  | [] => pure (.ok none)
  | binding :: rest => do
      match ← checkBindingReturned X binding context with
      | .error error => pure (.error error)
      | .ok (some message) => pure (.ok (some message))
      | .ok none => checkBindingsReturned context rest

/-- `FlowExecution::check`, with the `Result` of its type. -/
def checkReturned (e : ExecId) (context : CheckContext) :
    Task (sig X) (Except Unit (Option String)) := do
  let flow ← op (.getFlow e)
  let authCheck := FlowCheck.authentication flow.authentication
  let output ← authCheck.check X context
  if output.deref then do
    match ← checkBindingsReturned X context flow.bindings with
    | .error error => pure (.error error)
    | .ok (some message) => pure (.ok (some message))
    | .ok none => do
        let entry ← op (.getEntry e)
        checkBindingsReturned X context entry.2.bindings
  else pure (.ok (some authCheck.message))

variable {X} {context : CheckContext}

theorem checkBindingReturned_eq {binding : FlowBinding} :
    checkBindingReturned X binding context =
      (Except.ok <$> checkBinding X binding context) := by
  unfold checkBindingReturned checkBinding
  split
  · simp only [map_bind]
    congr 1
    funext check
    congr 1
    funext result
    generalize (if binding.negate then result.negate else result) = judged
    cases judged.deref <;> rfl
  · rfl

theorem checkBindingsReturned_eq {bindings : List FlowBinding} :
    checkBindingsReturned X context bindings =
      (Except.ok <$> checkBindings X context bindings) := by
  induction bindings with
  | nil => rfl
  | cons binding rest ih =>
      rw [checkBindingsReturned, checkBindings, checkBindingReturned_eq, bind_map_left, map_bind]
      congr 1
      funext verdict
      cases verdict with
      | some message => rfl
      | none => exact ih

/-- A check returns no error. -/
theorem checkReturned_eq {e : ExecId} :
    checkReturned X e context = (Except.ok <$> check X e context) := by
  rw [checkReturned, check, map_bind]
  congr 1
  funext flow
  simp only [map_bind]
  congr 1
  funext output
  split
  · rw [checkBindingsReturned_eq, bind_map_left, map_bind]
    congr 1
    funext verdict
    cases verdict with
    | some message => rfl
    | none =>
        simp only [map_bind]
        congr 1
        funext entry
        exact checkBindingsReturned_eq
  · rfl

end Returned

section Folds

/-- The answer of a loop that ends at the first binding that denies or panics. -/
def firstDenial : List (Option (Option String)) → Option (Option String)
  | [] => some none
  | some none :: rest => firstDenial rest
  | answer :: _ => answer

theorem firstDenial_eq_pass_iff {answers : List (Option (Option String))} :
    firstDenial answers = some none ↔ ∀ answer ∈ answers, answer = some none := by
  induction answers with
  | nil => simp [firstDenial]
  | cons answer rest ih =>
      rw [List.forall_mem_cons, ← ih]
      match answer with
      | some none => simp [firstDenial]
      | some (some message) => simp [firstDenial]
      | none => simp [firstDenial]

theorem firstDenial_isSome {answers : List (Option (Option String))}
    (hanswers : ∀ answer ∈ answers, answer.isSome = true) :
    (firstDenial answers).isSome = true := by
  induction answers with
  | nil => rfl
  | cons answer rest ih =>
      obtain ⟨hanswer, hrest⟩ := List.forall_mem_cons.mp hanswers
      match answer, hanswer with
      | some none, _ => exact ih hrest
      | some (some message), _ => rfl

end Folds

section Outcomes

variable {X : Externals}

/-- The outcome of evaluating the kind of a binding in a context; `none` where that panics. -/
def outcome (who : Nat) (context : CheckContext) (w : World X) (kind : FlowBindingKind) :
    Option FlowCheckOutput :=
  ((server X).alone who .normal (do
    let check ← FlowCheck.ofBindingKind X kind
    check.check X context) w).map Prod.fst

/-- What a check returns when it runs by itself; `none` where it panics. -/
def returned (who : Nat) (context : CheckContext) (w : World X) :
    Option (Except Unit (Option String)) :=
  ((server X).alone who .normal (checkReturned X context.execution context) w).map Prod.fst

def Allows (who : Nat) (context : CheckContext) (w : World X) : Prop :=
  returned who context w = some (.ok none)

def Denies (who : Nat) (context : CheckContext) (w : World X) : Prop :=
  ∃ message, returned who context w = some (.ok (some message))

/-- The authentication requirement holds for the user of the request. -/
def AuthenticationRequirement.Holds (requirement : AuthenticationRequirement)
    (user : Option PartialUser) : Prop :=
  match requirement with
  | superuser => ∃ admin, user = some admin ∧ admin.isAdmin = true
  | required => ∃ someone, user = some someone
  | none => user = .none
  | ignored => True

/-- A binding with the outcome lets the request pass. -/
def Admits (negate : Bool) (output : FlowCheckOutput) : Prop :=
  output = .neutral ∨ output = if negate then .failed else .passed

/-- The policies of the live storage are found by their own uid. -/
def World.FindsByUid (w : World X) : Prop :=
  ∀ uid policy, w.policies (.uid uid) = some policy → policy.uid = uid

/-- Nothing that a check depends on has changed, with some trees compiled at most. -/
structure Steady (w after : World X) : Prop where
  heap : after.heap = w.heap
  policies : after.policies = w.policies
  asts : ∀ uid, liveAst after uid = liveAst w uid

variable {w after last : World X} {who : Nat} {context : CheckContext} {execution : FlowExecution}
  {binding : FlowBinding}

theorem AuthenticationRequirement.output_deref_iff {requirement : AuthenticationRequirement}
    {user : Option PartialUser} :
    (requirement.output user).deref = true ↔ requirement.Holds user := by
  cases requirement with
  | superuser =>
      cases user with
      | none => simp [output, Holds, FlowCheckOutput.deref]
      | some user =>
          cases hadmin : user.isAdmin <;>
            simp [output, Holds, FlowCheckOutput.ofBool, FlowCheckOutput.deref, hadmin]
  | ignored => simp [output, Holds, FlowCheckOutput.deref]
  | _ => cases user <;> simp [output, Holds, FlowCheckOutput.ofBool, FlowCheckOutput.deref]

theorem bindingVerdict_eq_none_iff {message : String} {output : FlowCheckOutput} :
    bindingVerdict binding message output = none ↔ Admits binding.negate output := by
  unfold bindingVerdict Admits
  cases binding.negate <;> cases output <;> simp [FlowCheckOutput.negate, FlowCheckOutput.deref]

theorem Steady.refl : Steady w w := ⟨rfl, rfl, fun _ => rfl⟩

theorem Steady.trans (hfirst : Steady w after) (hsecond : Steady after last) : Steady w last where
  heap := hsecond.heap.trans hfirst.heap
  policies := hsecond.policies.trans hfirst.policies
  asts := fun uid => (hsecond.asts uid).trans (hfirst.asts uid)

/-- A tree that is filled in is that of the live policy. -/
theorem filledAsts_cases (w : World X) (uid key : Int) :
    filledAsts w uid key = w.asts key ∨
      ∃ live ast, w.policies (.uid uid) = some live ∧ live.uid = key ∧ w.asts key = none ∧
        compilePolicy X live = some ast ∧ filledAsts w uid key = some ast := by
  unfold filledAsts
  cases hpolicy : w.policies (.uid uid) with
  | none => exact Or.inl rfl
  | some live =>
      rw [Option.elim_some]
      cases hempty : w.asts live.uid with
      | some ast => exact Or.inl rfl
      | none =>
          cases hcompiled : compilePolicy X live with
          | none => exact Or.inl rfl
          | some ast =>
              by_cases hkey : live.uid = key
              · subst hkey
                exact Or.inr ⟨live, ast, rfl, rfl, hempty, hcompiled, Function.update_self ..⟩
              · exact Or.inl (Function.update_of_ne (Ne.symm hkey) ..)

/-- The tree that is compiled is the one that was going to be. -/
theorem steady_filled (hfinds : w.FindsByUid) (uid : Int) :
    Steady w (w.reconfigure w.policies (filledAsts w uid)) where
  heap := rfl
  policies := rfl
  asts := by
    intro other
    apply Option.bind_congr
    intro policy hpolicy
    obtain rfl := hfinds other policy hpolicy
    simp only [availableAst, World.reconfigure]
    rcases filledAsts_cases w uid policy.uid with
      hkept | ⟨live, ast, hlive, huid, hempty, hast, hfilled⟩
    · rw [hkept]
    · obtain rfl := hfinds uid live hlive
      rw [huid] at hlive
      obtain rfl : live = policy := Option.some.inj (hlive.symm.trans hpolicy)
      rw [hfilled, hempty, hast]
      rfl

theorem Steady.finds (hsteady : Steady w after) (hfinds : w.FindsByUid) : after.FindsByUid := by
  intro uid policy hpolicy
  rw [hsteady.policies] at hpolicy
  exact hfinds uid policy hpolicy

/-- What a policy comes to, by the context of the execution and the live trees. -/
def policyOutput (inner : ExecutionContext) (context : CheckContext) (w : World X)
    (policy : Policy) : FlowCheckOutput :=
  match policy.kind with
  | .passwordExpiry maxAge =>
      match context.request.user with
      | some user => .ofBool (inner.startTime - user.passwordChangeDate < secondsToDuration maxAge)
      | none => .neutral
  | .passwordStrength => .neutral
  | .expression _ => expressionOutput context (liveAst w policy.uid)

def kindOutput (inner : ExecutionContext) (context : CheckContext) (w : World X) :
    FlowBindingKind → Option FlowCheckOutput
  | .group _ => none
  | .user uid => some (.ofBool (context.request.user.map PartialUser.uid = some uid))
  | .policy reference =>
      (inner.storage.policy.findOptional reference).join.map (policyOutput inner context w)

theorem Steady.kindOutput_eq (hsteady : Steady w after) {inner : ExecutionContext}
    {kind : FlowBindingKind} :
    kindOutput inner context after kind = kindOutput inner context w kind := by
  cases kind with
  | policy reference =>
      refine congrArg (Option.map · _) (funext fun policy => ?_)
      unfold policyOutput
      rw [hsteady.asts]
  | _ => rfl

theorem alone_checkPolicy (hfinds : w.FindsByUid)
    (hheap : w.heap[context.execution]? = some execution)
    {policy : Policy} : ∃ after, Steady w after ∧
      (server X).alone who .normal (checkPolicy X context policy) w =
        some (policyOutput execution.context context w policy, after) := by
  unfold policyOutput
  split
  next maxAge hkind =>
    have hread : exec X who (.readContext context.execution) .normal w =
        some (execution.context, w) := by
      simp [exec, hheap]
    refine ⟨w, .refl, ?_⟩
    unfold checkPolicy
    rw [hkind]
    simp only
    rw [alone_op_bind hread]
    cases context.request.user with
    | none => rfl
    | some user => rfl
  next hkind =>
    refine ⟨w, .refl, ?_⟩
    unfold checkPolicy
    rw [hkind]
    rfl
  next source hkind =>
    exact ⟨_, steady_filled hfinds policy.uid, alone_checkPolicy_expression hkind⟩

theorem alone_lookup (hfinds : w.FindsByUid) (hheap : w.heap[context.execution]? = some execution)
    {reference : DataRef PolicyQuery} : ∃ after, Steady w after ∧
      (server X).alone who .normal ((FlowCheck.policy reference).check X context) w =
        (kindOutput execution.context context w (.policy reference)).map
          fun output => (output, after) := by
  simp only [FlowCheck.check, kindOutput]
  rw [alone_bind, alone_lookupPolicy hheap]
  cases (execution.context.storage.policy.findOptional reference).join with
  | none => exact ⟨w, .refl, rfl⟩
  | some policy => exact alone_checkPolicy hfinds hheap

/-- The outcome of a kind, as it is evaluated. -/
theorem outcome_eq (hfinds : w.FindsByUid) (hheap : w.heap[context.execution]? = some execution)
    {kind : FlowBindingKind} :
    outcome who context w kind = kindOutput execution.context context w kind := by
  unfold outcome
  cases kind with
  | group uid => rw [FlowCheck.ofBindingKind, alone_panic_bind]; rfl
  | user uid => rfl
  | policy reference =>
      obtain ⟨after, _, hcheck⟩ := @alone_lookup X w who context execution hfinds hheap reference
      simp only [FlowCheck.ofBindingKind, pure_eq_done, done_bind, hcheck, Option.map_map]
      exact Option.map_id_apply

/-- What a loop over bindings gets from one of them. -/
def bindingAnswer (inner : ExecutionContext) (context : CheckContext) (w : World X)
    (binding : FlowBinding) : Option (Option String) :=
  if binding.enabled then
    (kindOutput inner context w binding.kind).map (bindingVerdict binding "Access denied")
  else some none

theorem alone_checkBinding (hfinds : w.FindsByUid)
    (hheap : w.heap[context.execution]? = some execution) : ∃ after, Steady w after ∧
      (server X).alone who .normal (checkBinding X binding context) w =
        (bindingAnswer execution.context context w binding).map fun answer => (answer, after) := by
  unfold checkBinding bindingAnswer
  split
  next =>
    cases binding.kind with
    | group uid => exact ⟨w, .refl, alone_panic_bind⟩
    | user uid =>
        simp only [FlowCheck.ofBindingKind, FlowCheck.check, pure_eq_done, done_bind]
        rw [← pure_eq_done, ← pure_eq_done, alone_judged]
        exact ⟨w, .refl, rfl⟩
    | policy reference =>
        obtain ⟨after, hsteady, hcheck⟩ :=
          @alone_lookup X w who context execution hfinds hheap reference
        refine ⟨after, hsteady, ?_⟩
        simp only [FlowCheck.ofBindingKind, pure_eq_done, done_bind]
        rw [alone_bind, hcheck]
        simp only [← pure_eq_done, FlowCheck.message, alone_judged, Option.bind_map, Option.map_map]
        rw [Option.map_eq_bind]
        rfl
  next => exact ⟨w, .refl, rfl⟩

/-- A loop over bindings, each of them answering as it does by itself. -/
theorem alone_checkBindings {bindings : List FlowBinding} (hfinds : w.FindsByUid)
    (hheap : w.heap[context.execution]? = some execution) : ∃ after, Steady w after ∧
      (server X).alone who .normal (checkBindings X context bindings) w =
        (firstDenial (bindings.map (bindingAnswer execution.context context w))).map
          fun answer => (answer, after) := by
  induction bindings generalizing w with
  | nil => exact ⟨w, .refl, rfl⟩
  | cons binding rest ih =>
      obtain ⟨middle, hsteady, hbinding⟩ := @alone_checkBinding X w who context execution binding
        hfinds hheap
      rw [checkBindings, alone_bind, hbinding, List.map_cons]
      rcases bindingAnswer execution.context context w binding with _ | _ | message
      · exact ⟨w, .refl, rfl⟩
      · obtain ⟨after, hrest, hanswer⟩ := ih (hsteady.finds hfinds) (hsteady.heap ▸ hheap)
        have hsame : bindingAnswer execution.context context middle =
            bindingAnswer execution.context context w := by
          funext other
          unfold bindingAnswer
          rw [hsteady.kindOutput_eq]
        rw [hsame] at hanswer
        exact ⟨after, hsteady.trans hrest, hanswer⟩
      · exact ⟨middle, hsteady, rfl⟩

end Outcomes

section Meaning

variable {X : Externals} {w : World X} {who : Nat} {context : CheckContext}
  {execution : FlowExecution}

/-- The bindings of the current entry. -/
def FlowExecution.entryBindings (execution : FlowExecution) : List FlowBinding :=
  execution.flow.entries[execution.currentEntryIdx]?.elim [] FlowEntry.bindings

/-- The execution, with other bindings of its flow and of its current entry. -/
def FlowExecution.rebind (execution : FlowExecution)
    (flowBindings entryBindings : List FlowBinding) : FlowExecution :=
  { execution with
    flow :=
      { execution.flow with
        bindings := flowBindings
        entries := execution.flow.entries.modify execution.currentEntryIdx fun entry =>
          { entry with bindings := entryBindings } } }

/-- The world with other bindings of an execution. -/
def World.rebind (w : World X) (e : ExecId) (flowBindings entryBindings : List FlowBinding) :
    World X :=
  { w with heap := w.heap.modify e fun execution => execution.rebind flowBindings entryBindings }

/-- The snapshot has every policy that the flow refers to. -/
def FlowExecution.HoldsPolicies (execution : FlowExecution) : Prop :=
  ∀ reference, execution.flow.RefersTo reference →
    ∃ policy, execution.context.storage.policy.findOptional reference = some (some policy)

/-- The bindings are the same up to their order and the disabled ones. -/
def SameEnabled (bindings others : List FlowBinding) : Prop :=
  (others.filter FlowBinding.enabled).Perm (bindings.filter FlowBinding.enabled)

theorem checkReturned_result :
    returned who context w = (checkResult who context w).map Except.ok := by
  rw [returned, checkResult, checkReturned_eq, ← bind_pure_comp, alone_bind, Option.map_eq_bind,
    Option.map_eq_bind, Option.map_eq_bind, Option.bind_assoc, Option.bind_assoc]
  rfl

theorem allows_iff_checkResult : Allows who context w ↔ checkResult who context w = some none := by
  simp [Allows, checkReturned_result]

theorem denies_iff_checkResult :
    Denies who context w ↔ ∃ message, checkResult who context w = some (some message) := by
  simp [Denies, checkReturned_result]

/-- A binding admits the request if it is not enabled, or by its outcome. -/
theorem bindingAnswer_eq_pass_iff (hfinds : w.FindsByUid)
    (hheap : w.heap[context.execution]? = some execution) {binding : FlowBinding} :
    bindingAnswer execution.context context w binding = some none ↔
      (binding.enabled = true →
        ∃ output, outcome who context w binding.kind = some output ∧
          Admits binding.negate output) := by
  rw [outcome_eq hfinds hheap, bindingAnswer]
  cases binding.enabled with
  | false => simp
  | true => simp [bindingVerdict_eq_none_iff]

section Decided

variable (hfinds : w.FindsByUid) (hheap : w.heap[context.execution]? = some execution)
  (hindex : execution.currentEntryIdx < execution.flow.entries.length)

include hfinds hheap hindex

/-- The check runs over what each of the bindings answers by itself. -/
theorem checkResult_first :
    checkResult who context w =
      if (execution.flow.authentication.output context.request.user).deref then
        firstDenial ((execution.flow.bindings ++ execution.entryBindings).map
          (bindingAnswer execution.context context w))
      else some (some (FlowCheck.authentication execution.flow.authentication).message) := by
  obtain ⟨after, _, hbindings⟩ := @alone_checkBindings X w who context execution
    (execution.flow.bindings ++ execution.entryBindings) hfinds hheap
  rw [checkResult_eq hheap hindex, bindingsResult, ← FlowExecution.entryBindings, hbindings,
    Option.map_map]
  simp only [Function.comp_def, Option.map_id']

theorem allows_iff : Allows who context w ↔
    execution.flow.authentication.Holds context.request.user ∧
      ∀ binding ∈ execution.flow.bindings ++ execution.entryBindings, binding.enabled = true →
        ∃ output, outcome who context w binding.kind = some output ∧
          Admits binding.negate output := by
  rw [allows_iff_checkResult, checkResult_first hfinds hheap hindex,
    ← AuthenticationRequirement.output_deref_iff]
  split
  next hholds =>
    rw [firstDenial_eq_pass_iff, List.forall_mem_map]
    simp only [@bindingAnswer_eq_pass_iff X w who context execution hfinds hheap, hholds, true_and]
  next hholds => simp [hholds]

/-- Where every enabled binding can be evaluated, the check allows or denies. -/
theorem allows_or_denies
    (hevaluable : ∀ binding ∈ execution.flow.bindings ++ execution.entryBindings,
      binding.enabled = true → (outcome who context w binding.kind).isSome = true) :
    Allows who context w ∨ Denies who context w := by
  rw [allows_iff_checkResult, denies_iff_checkResult, checkResult_first hfinds hheap hindex]
  split
  next =>
    have hanswers : ∀ answer ∈ (execution.flow.bindings ++ execution.entryBindings).map
        (bindingAnswer execution.context context w), answer.isSome = true := by
      refine List.forall_mem_map.mpr fun binding hbinding => ?_
      have houtcome := hevaluable binding hbinding
      rw [outcome_eq hfinds hheap] at houtcome
      unfold bindingAnswer
      split
      next henabled => simpa using houtcome henabled
      next => rfl
    obtain ⟨verdict, hverdict⟩ := Option.isSome_iff_exists.mp (firstDenial_isSome hanswers)
    rw [hverdict]
    cases verdict with
    | none => exact Or.inl rfl
    | some message => exact Or.inr ⟨message, rfl⟩
  next => exact Or.inr ⟨_, rfl⟩

end Decided

section Rebound

variable {flowBindings entryBindings : List FlowBinding} (hfinds : w.FindsByUid)
  (hheap : w.heap[context.execution]? = some execution)
  (hindex : execution.currentEntryIdx < execution.flow.entries.length)

theorem SameEnabled.mem {bindings others : List FlowBinding} (hsame : SameEnabled bindings others)
    {binding : FlowBinding} (henabled : binding.enabled = true) :
    binding ∈ others ↔ binding ∈ bindings := by
  have hmem : binding ∈ others.filter FlowBinding.enabled ↔
      binding ∈ bindings.filter FlowBinding.enabled := hsame.mem_iff
  simpa [henabled] using hmem

include hheap

theorem heap_rebind :
    (w.rebind context.execution flowBindings entryBindings).heap[context.execution]? =
    some (execution.rebind flowBindings entryBindings) := by
  simp [World.rebind, hheap]

include hfinds

/-- The outcome of a binding does not depend on which bindings there are. -/
theorem outcome_rebind {kind : FlowBindingKind} :
    outcome who context (w.rebind context.execution flowBindings entryBindings) kind =
      outcome who context w kind := by
  have hfinds' : (w.rebind context.execution flowBindings entryBindings).FindsByUid := hfinds
  rw [outcome_eq hfinds' (heap_rebind hheap), outcome_eq hfinds hheap]
  rfl

include hindex

/-- A check of the execution with other bindings. -/
theorem allows_rebind_iff :
    Allows who context (w.rebind context.execution flowBindings entryBindings) ↔
      execution.flow.authentication.Holds context.request.user ∧
        ∀ binding ∈ flowBindings ++ entryBindings, binding.enabled = true →
          ∃ output, outcome who context w binding.kind = some output ∧
            Admits binding.negate output := by
  have hfinds' : (w.rebind context.execution flowBindings entryBindings).FindsByUid := hfinds
  have hentry : (execution.rebind flowBindings entryBindings).entryBindings = entryBindings := by
    simp [FlowExecution.entryBindings, FlowExecution.rebind, hindex]
  rw [allows_iff hfinds' (heap_rebind hheap) (by simpa [FlowExecution.rebind] using hindex), hentry]
  simp only [outcome_rebind hfinds hheap]
  rfl

theorem allows_or_denies_rebind
    (hevaluable : ∀ binding ∈ flowBindings ++ entryBindings,
      binding.enabled = true → (outcome who context w binding.kind).isSome = true) :
    Allows who context (w.rebind context.execution flowBindings entryBindings) ∨
      Denies who context (w.rebind context.execution flowBindings entryBindings) := by
  have hfinds' : (w.rebind context.execution flowBindings entryBindings).FindsByUid := hfinds
  have hentry : (execution.rebind flowBindings entryBindings).entryBindings = entryBindings := by
    simp [FlowExecution.entryBindings, FlowExecution.rebind, hindex]
  refine allows_or_denies hfinds' (heap_rebind hheap)
    (by simpa [FlowExecution.rebind] using hindex) ?_
  rw [hentry]
  intro binding hbinding henabled
  rw [outcome_rebind hfinds hheap]
  exact hevaluable binding hbinding henabled

end Rebound

theorem Denies.not_allows (hdenies : Denies who context w) : ¬ Allows who context w := by
  intro hallows
  obtain ⟨message, hmessage⟩ := hdenies
  rw [Allows, hmessage] at hallows
  cases hallows

/-- What the check of an execution means. -/
structure MeansAccess (who : Nat) (context : CheckContext) (w : World X)
    (execution : FlowExecution) : Prop where
  no_error : ∀ history result, Trace (checkReturned X context.execution context) history result →
    ∃ verdict, result = .ok verdict
  decides : Allows who context w ∨ Denies who context w
  allows_iff : Allows who context w ↔
    execution.flow.authentication.Holds context.request.user ∧
      ∀ binding ∈ execution.flow.bindings ++ execution.entryBindings, binding.enabled = true →
        ∃ output, outcome who context w binding.kind = some output ∧ Admits binding.negate output
  same_enabled : ∀ flowBindings entryBindings, SameEnabled execution.flow.bindings flowBindings →
    SameEnabled execution.entryBindings entryBindings →
      (Allows who context (w.rebind context.execution flowBindings entryBindings) ↔
        Allows who context w) ∧
      (Denies who context (w.rebind context.execution flowBindings entryBindings) ↔
        Denies who context w)
  added : ∀ flowBindings entryBindings, execution.flow.bindings ⊆ flowBindings →
    execution.entryBindings ⊆ entryBindings → Denies who context w →
      ¬ Allows who context (w.rebind context.execution flowBindings entryBindings)
  failed_hard : ∀ binding ∈ execution.flow.bindings ++ execution.entryBindings,
    binding.enabled = true → outcome who context w binding.kind = some .failedHard →
      Denies who context w

section Decided

variable (hfinds : w.FindsByUid) (hheap : w.heap[context.execution]? = some execution)
  (hindex : execution.currentEntryIdx < execution.flow.entries.length)

include hfinds hheap hindex

/-- Bindings to users and to the policies of the snapshot can be evaluated. -/
theorem FlowExecution.HoldsPolicies.evaluates (hpolicies : execution.HoldsPolicies)
    {binding : FlowBinding}
    (hbinding : binding ∈ execution.flow.bindings ++ execution.entryBindings)
    (hgroup : ∀ uid, binding.kind ≠ .group uid) :
    (outcome who context w binding.kind).isSome = true := by
  rw [outcome_eq hfinds hheap]
  cases hkind : binding.kind with
  | group uid => exact absurd hkind (hgroup uid)
  | user uid => rfl
  | policy reference =>
      have hmem : binding ∈ execution.flow.bindings ++
          execution.flow.entries.flatMap FlowEntry.bindings := by
        refine List.mem_append.mpr ((List.mem_append.mp hbinding).imp_right fun hentry => ?_)
        rw [entryBindings, List.getElem?_eq_getElem hindex] at hentry
        exact List.mem_flatMap.mpr ⟨_, List.getElem_mem hindex, hentry⟩
      obtain ⟨policy, hpolicy⟩ := hpolicies reference ⟨binding, hmem, hkind⟩
      simp [kindOutput, hpolicy]

/-- Neither the order of the bindings nor those that are disabled matter. -/
theorem same_enabled
    (hevaluable : ∀ binding ∈ execution.flow.bindings ++ execution.entryBindings,
      binding.enabled = true → (outcome who context w binding.kind).isSome = true)
    {flowBindings entryBindings : List FlowBinding}
    (hflow : SameEnabled execution.flow.bindings flowBindings)
    (hentry : SameEnabled execution.entryBindings entryBindings) :
    (Allows who context (w.rebind context.execution flowBindings entryBindings) ↔
      Allows who context w) ∧
    (Denies who context (w.rebind context.execution flowBindings entryBindings) ↔
      Denies who context w) := by
  have hmem : ∀ binding, binding.enabled = true → (binding ∈ flowBindings ++ entryBindings ↔
      binding ∈ execution.flow.bindings ++ execution.entryBindings) := by
    intro binding henabled
    rw [List.mem_append, List.mem_append, hflow.mem henabled, hentry.mem henabled]
  have hallows : Allows who context (w.rebind context.execution flowBindings entryBindings) ↔
      Allows who context w := by
    rw [allows_rebind_iff hfinds hheap hindex, allows_iff hfinds hheap hindex]
    refine and_congr_right fun _ => forall_congr' fun binding => ?_
    constructor
    · exact fun hpasses hbinding henabled => hpasses ((hmem binding henabled).mpr hbinding) henabled
    · exact fun hpasses hbinding henabled => hpasses ((hmem binding henabled).mp hbinding) henabled
  have hdecides := allows_or_denies hfinds hheap hindex hevaluable
  have hrebound : Allows who context (w.rebind context.execution flowBindings entryBindings) ∨
      Denies who context (w.rebind context.execution flowBindings entryBindings) :=
    allows_or_denies_rebind hfinds hheap hindex fun binding hbinding henabled =>
      hevaluable binding ((hmem binding henabled).mp hbinding) henabled
  refine ⟨hallows, fun hdenied => ?_, fun hdenied => ?_⟩
  · exact hdecides.resolve_left fun hallowed => hdenied.not_allows (hallows.mpr hallowed)
  · exact hrebound.resolve_left fun hallowed => hdenied.not_allows (hallows.mp hallowed)

end Decided

/-- A check means access: neither the order of the bindings nor those that are disabled matter, and
no binding lets pass what was denied without it. -/
theorem check_meaning (hfinds : w.FindsByUid) (hheap : w.heap[context.execution]? = some execution)
    (hindex : execution.currentEntryIdx < execution.flow.entries.length)
    (hpolicies : execution.HoldsPolicies)
    (hgroups : ∀ binding ∈ execution.flow.bindings ++ execution.entryBindings,
      binding.enabled = true → ∀ uid, binding.kind ≠ .group uid) :
    MeansAccess who context w execution := by
  have hevaluable : ∀ binding ∈ execution.flow.bindings ++ execution.entryBindings,
      binding.enabled = true → (outcome who context w binding.kind).isSome = true :=
    fun binding hbinding henabled => hpolicies.evaluates hfinds hheap hindex hbinding
      (hgroups binding hbinding henabled)
  have hmeaning := @allows_iff X w who context execution hfinds hheap hindex
  have hdecides := allows_or_denies hfinds hheap hindex hevaluable
  refine ⟨?_, hdecides, hmeaning, ?_, ?_, ?_⟩
  · intro history result htrace
    rw [checkReturned_eq, trace_map] at htrace
    obtain ⟨verdict, _, rfl⟩ := htrace
    exact ⟨verdict, rfl⟩
  · exact fun _ _ hflow hentry => same_enabled hfinds hheap hindex hevaluable hflow hentry
  · intro flowBindings entryBindings hflow hentry hdenied hallowed
    rw [allows_rebind_iff hfinds hheap hindex] at hallowed
    refine hdenied.not_allows (hmeaning.mpr ⟨hallowed.1, fun binding hbinding => ?_⟩)
    exact hallowed.2 binding (List.mem_append.mpr
      ((List.mem_append.mp hbinding).imp (fun hmem => hflow hmem) fun hmem => hentry hmem))
  · intro binding hbinding henabled houtcome
    apply hdecides.resolve_left
    intro hallowed
    obtain ⟨output, houtput, hadmits⟩ := (hmeaning.mp hallowed).2 binding hbinding henabled
    rw [houtcome] at houtput
    cases houtput
    cases hnegate : binding.negate <;> simp [Admits, hnegate] at hadmits

end Meaning

section MeaningSamples

/-- A running execution whose flow has a guard, and whose entry has a binding that is disabled. -/
def guardedExecution : FlowExecution :=
  .new ⟨"s", .slug "f"⟩ ⟨1, "f", "F", .authentication, .none, [guardBinding false],
      [⟨0, [⟨false, false, 0, .group 1⟩], .uid 1⟩]⟩
    { FreezedStorage.empty with
      policy := ExportedData.empty.insertData 1 [.uid 1, .slug "guard"] guardPolicy } 0

def guardedWorld : World .plain :=
  { World.boot .plain [] [] [] [] [guardPolicy] with heap := [guardedExecution] }

theorem guarded_check_meaning : MeansAccess 0 guardContext guardedWorld guardedExecution := by
  refine check_meaning ?_ rfl (by decide) ?_ ?_
  · intro uid policy hpolicy
    simpa [PolicyQuery.finds] using List.find?_some hpolicy
  · rintro reference ⟨binding, hbinding, hkind⟩
    have hlisted : binding ∈ [guardBinding false, ⟨false, false, 0, .group 1⟩] := hbinding
    rcases List.mem_pair.mp hlisted with rfl | rfl
    · cases hkind
      exact ⟨guardPolicy, rfl⟩
    · cases hkind
  · intro binding hbinding henabled uid hkind
    have hlisted : binding ∈ [guardBinding false, ⟨false, false, 0, .group 1⟩] := hbinding
    rcases List.mem_pair.mp hlisted with rfl | rfl
    · cases hkind
    · cases henabled

end MeaningSamples

end Authust
