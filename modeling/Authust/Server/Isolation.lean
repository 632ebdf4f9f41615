import Authust.Server.Positions

/-! # Is a running execution isolated

The policies of an execution are frozen with it, but the syntax tree of an expression policy
comes from the live storage and the cache of the policy service. The result of a check does
not depend on these exactly where it is decided before a tree can matter: by the snapshot and
the request alone.
-/

namespace Authust

open Coop Coop.Task Coop.Machine

variable {X : Externals}

/-- What a check answers when it runs by itself; `none` where it panics. -/
def checkResult (who : Nat) (context : CheckContext) (w : World X) : Option (Option String) :=
  ((server X).alone who .normal (check X context.execution context) w).map Prod.fst

/-- The policies of the live storage and the compiled ones have come to be the given ones. -/
def World.reconfigure (w : World X) (policies : PolicyQuery → Option Policy)
    (asts : Int → Option (Option X.Ast)) : World X :=
  { w with policies := policies, asts := asts }

/-- The check answers the same whatever has become of the live policies and the compiled ones. -/
def CheckIsolated (w : World X) (context : CheckContext) : Prop :=
  ∀ who policies asts policies' asts', checkResult who context (w.reconfigure policies asts) =
    checkResult who context (w.reconfigure policies' asts')

/-- What the snapshot and the request say of a binding. -/
inductive Fate : Type
  | passes
  | denies
  | panics
  /-- An enabled binding to an expression policy. -/
  | asks (uid : Int)
  deriving DecidableEq

def Fate.ofVerdict : Option String → Fate
  | none => passes
  | some _ => denies

def policyFate (execution : FlowExecution) (context : CheckContext) (binding : FlowBinding)
    (policy : Policy) : Fate :=
  match policy.kind with
  | .passwordExpiry maxAge =>
      match context.request.user with
      | some user =>
          .ofVerdict (bindingVerdict binding "Access denied" (.ofBool
            (execution.context.startTime - user.passwordChangeDate < secondsToDuration maxAge)))
      | none => .ofVerdict (bindingVerdict binding "Access denied" .neutral)
  | .passwordStrength => .ofVerdict (bindingVerdict binding "Access denied" .neutral)
  | .expression _ => .asks policy.uid

def bindingFate (execution : FlowExecution) (context : CheckContext) (binding : FlowBinding) :
    Fate :=
  if binding.enabled then
    match binding.kind with
    | .group _ => .panics
    | .user uid =>
        .ofVerdict (bindingVerdict binding "Access denied"
          (.ofBool (context.request.user.map PartialUser.uid = some uid)))
    | .policy reference =>
        match (execution.context.storage.policy.findOptional reference).join with
        | some policy => policyFate execution context binding policy
        | none => .panics
  else .passes

/-- The result of the bindings when no expression policy denies. -/
def Fate.result : List Fate → Option (Option String)
  | [] => some none
  | passes :: rest => result rest
  | denies :: _ => some (some "Access denied")
  | panics :: _ => none
  | asks _ :: rest => result rest

/-- No expression policy is asked, or a later binding denies in any case. -/
def Fate.Settled : List Fate → Prop
  | [] => True
  | passes :: rest => Settled rest
  | denies :: _ => True
  | panics :: _ => True
  | asks _ :: rest => result rest = some (some "Access denied")

/-- The authentication requirement denies, or the snapshot settles the bindings. -/
def SettledBySnapshot (execution : FlowExecution) (context : CheckContext) : Prop :=
  (execution.flow.authentication.output context.request.user).deref = false ∨
    Fate.Settled ((execution.flow.bindings ++
      execution.flow.entries[execution.currentEntryIdx]?.elim []
      FlowEntry.bindings).map (bindingFate execution context))

/-- Each of the constants is what some source compiles to: the text `true` or `false`, in whatever
encoding `compile` takes its sources. -/
def Externals.EvaluatesConstants (X : Externals) : Prop :=
  ∀ value : Bool, ∃ source ast, X.compile source = some ast ∧
    ∀ scope, X.eval ast scope = .ok value

theorem Externals.plain_evaluatesConstants : Externals.plain.EvaluatesConstants := by
  intro value
  refine ⟨toString value, value, ?_, fun _ => rfl⟩
  cases value <;> rfl

/-- The tree that the policy service answers for a uid. -/
def liveAst (w : World X) (uid : Int) : Option X.Ast :=
  (w.policies (.uid uid)).bind (availableAst w)

/-- The compiled policies after the tree for a uid has been asked for. -/
def filledAsts (w : World X) (uid : Int) : Int → Option (Option X.Ast) :=
  (w.policies (.uid uid)).elim w.asts fun live =>
    match w.asts live.uid, compilePolicy X live with
    | none, some ast => Function.update w.asts live.uid (some ast)
    | _, _ => w.asts

section Evaluating

variable {w : World X} {who : Nat} {context : CheckContext} {execution : FlowExecution}
  {binding : FlowBinding}

theorem alone_lookupPolicy {reference : DataRef PolicyQuery}
    (hheap : w.heap[context.execution]? = some execution) :
    (server X).alone who .normal (lookupPolicy X context.execution reference) w =
      (execution.context.storage.policy.findOptional reference).join.map
        fun policy => (policy, w) := by
  rw [lookupPolicy, alone_op_bind rfl]
  cases hfound : execution.context.storage.policy.findOptional reference with
  | none => exact alone_op_bind_none (by simp [exec, hheap, hfound])
  | some found =>
      have hfrozen : ∀ readers, exec X who (.frozenPolicy context.execution reference) .normal
          { w with readers := readers } = some (found, { w with readers := readers }) := by
        intro readers
        simp [exec, hheap, hfound]
      rw [alone_op_bind (hfrozen _), alone_op_bind rfl]
      simp only [List.erase_cons_head]
      cases found with
      | none => exact alone_panic
      | some policy => rfl

theorem alone_getAst {uid : Int} :
    (server X).alone who .normal (getAst X (.uid uid)) w =
      some (liveAst w uid, w.reconfigure w.policies (filledAsts w uid)) := by
  rw [getAst, alone_op_bind rfl]
  cases hlive : w.policies (.uid uid) with
  | none => simp [Choice.storage, liveAst, filledAsts, hlive, World.reconfigure]
  | some live =>
      have hfill : exec X who (.optionallyGetWith live.uid (compilePolicy X live)) .normal w =
          some ((w.asts live.uid).or (compilePolicy X live),
            w.reconfigure w.policies (filledAsts w uid)) := by
        simp only [exec, filledAsts, hlive, Option.elim_some]
        cases w.asts live.uid with
        | some ast => rfl
        | none =>
            cases compilePolicy X live with
            | some ast => rfl
            | none => rfl
      simp only [Choice.storage]
      rw [alone_op_bind hfill, pure_eq_done, alone_done, availableAst_eq, liveAst, hlive,
        Option.bind_some]

/-- What the fate of a binding says of the result of its check. -/
def Fate.Foretells (w : World X) (context : CheckContext) (binding : FlowBinding) :
    Fate → Option (Option String × World X) → Prop
  | passes, result => result = some (none, w)
  | denies, result => result = some (some "Access denied", w)
  | panics, result => result = none
  | asks uid, result => ∃ asts, result =
      some (bindingVerdict binding "Access denied" (expressionOutput context (liveAst w uid)),
        w.reconfigure w.policies asts)

theorem bindingVerdict_cases {message : String} (output : FlowCheckOutput) :
    bindingVerdict binding message output = none ∨
      bindingVerdict binding message output = some message := by
  unfold bindingVerdict
  generalize (if binding.negate then output.negate else output) = judged
  cases judged.deref
  · exact Or.inr rfl
  · exact Or.inl rfl

theorem foretells_ofVerdict (output : FlowCheckOutput) :
    (Fate.ofVerdict (bindingVerdict binding "Access denied" output)).Foretells w context binding
      (some (bindingVerdict binding "Access denied" output, w)) := by
  rcases @bindingVerdict_cases binding "Access denied" output with hnone | hsome
  · rw [hnone]
    rfl
  · rw [hsome]
    rfl

/-- The last part of `check_binding`. -/
theorem alone_judged {message : String} {output : FlowCheckOutput} :
    (server X).alone who .normal
      (if (if binding.negate then output.negate else output).deref then pure none
        else pure (some message)) w = some (bindingVerdict binding message output, w) := by
  unfold bindingVerdict
  generalize (if binding.negate then output.negate else output) = judged
  cases judged.deref <;> rfl

theorem alone_checkPolicy_expression {policy : Policy} {source : String}
    (hkind : policy.kind = .expression source) :
    (server X).alone who .normal (checkPolicy X context policy) w =
      some (expressionOutput context (liveAst w policy.uid),
        w.reconfigure w.policies (filledAsts w policy.uid)) := by
  unfold checkPolicy
  rw [hkind]
  simp only [alone_bind, alone_getAst, Option.bind_some]
  cases liveAst w policy.uid with
  | none => rfl
  | some tree =>
      simp only [expressionOutput]
      cases X.eval tree (createScope context) <;> rfl

/-- The snapshot and the request foretell the check of a policy. -/
theorem foretold_checkPolicy (hheap : w.heap[context.execution]? = some execution)
    {policy : Policy} : (policyFate execution context binding policy).Foretells w context binding
      (((server X).alone who .normal (checkPolicy X context policy) w).map fun answer =>
        (bindingVerdict binding "Access denied" answer.1, answer.2)) := by
  unfold policyFate
  split
  next maxAge hkind =>
    have hread : exec X who (.readContext context.execution) .normal w =
        some (execution.context, w) := by
      simp [exec, hheap]
    unfold checkPolicy
    rw [hkind]
    simp only
    rw [alone_op_bind hread]
    cases context.request.user with
    | none => exact foretells_ofVerdict _
    | some user => exact foretells_ofVerdict _
  next hkind =>
    unfold checkPolicy
    rw [hkind]
    exact foretells_ofVerdict _
  next source hkind =>
    exact ⟨_, by rw [alone_checkPolicy_expression hkind]; rfl⟩

/-- The snapshot and the request foretell the check of a binding. -/
theorem foretold_checkBinding (hheap : w.heap[context.execution]? = some execution) :
    (bindingFate execution context binding).Foretells w context binding
      ((server X).alone who .normal (checkBinding X binding context) w) := by
  unfold bindingFate checkBinding
  split
  next =>
    cases binding.kind with
    | group uid => exact alone_panic_bind
    | user uid =>
        simp only [FlowCheck.ofBindingKind, FlowCheck.check, pure_eq_done, done_bind]
        rw [← pure_eq_done, ← pure_eq_done, alone_judged]
        exact foretells_ofVerdict _
    | policy reference =>
        simp only [FlowCheck.ofBindingKind, FlowCheck.check, pure_eq_done, done_bind]
        rw [alone_bind, alone_bind, alone_lookupPolicy hheap]
        cases (execution.context.storage.policy.findOptional reference).join with
        | none => rfl
        | some policy =>
            have hforetold := @foretold_checkPolicy X w who context execution binding hheap policy
            rw [Option.map_eq_bind] at hforetold
            simp only [Option.map_some, Option.bind_some, ← pure_eq_done, FlowCheck.message,
              alone_judged]
            exact hforetold
  next => rfl

/-- The result of the bindings, one after another. -/
def bindingsResult (who : Nat) (context : CheckContext) (bindings : List FlowBinding)
    (w : World X) : Option (Option String) :=
  ((server X).alone who .normal (checkBindings X context bindings) w).map Prod.fst

theorem bindingsResult_pass {rest : List FlowBinding} {after : World X}
    (hbinding : (server X).alone who .normal (checkBinding X binding context) w =
    some (none, after)) :
    bindingsResult who context (binding :: rest) w = bindingsResult who context rest after := by
  rw [bindingsResult, checkBindings, alone_bind, hbinding, Option.bind_some]
  rfl

theorem bindingsResult_deny {rest : List FlowBinding} {message : String} {after : World X}
    (hbinding : (server X).alone who .normal (checkBinding X binding context) w =
      some (some message, after)) :
    bindingsResult who context (binding :: rest) w = some (some message) := by
  rw [bindingsResult, checkBindings, alone_bind, hbinding, Option.bind_some]
  rfl

section Fates

variable {bindings rest : List FlowBinding} (hheap : w.heap[context.execution]? = some execution)

include hheap

theorem bindingsResult_passes (hfate : bindingFate execution context binding = .passes) :
    bindingsResult who context (binding :: rest) w = bindingsResult who context rest w := by
  have hforetold := @foretold_checkBinding X w who context execution binding hheap
  rw [hfate] at hforetold
  exact bindingsResult_pass hforetold

theorem bindingsResult_denies (hfate : bindingFate execution context binding = .denies) :
    bindingsResult who context (binding :: rest) w = some (some "Access denied") := by
  have hforetold := @foretold_checkBinding X w who context execution binding hheap
  rw [hfate] at hforetold
  exact bindingsResult_deny hforetold

theorem bindingsResult_panics (hfate : bindingFate execution context binding = .panics) :
    bindingsResult who context (binding :: rest) w = none := by
  have hforetold := @foretold_checkBinding X w who context execution binding hheap
  rw [hfate] at hforetold
  rw [bindingsResult, checkBindings, alone_bind, hforetold]
  rfl

/-- An expression policy passes, with some trees compiled since, or denies. -/
theorem bindingsResult_asks {uid : Int}
    (hfate : bindingFate execution context binding = .asks uid) :
    (bindingVerdict binding "Access denied" (expressionOutput context (liveAst w uid)) = none →
      ∃ asts, bindingsResult who context (binding :: rest) w =
        bindingsResult who context rest (w.reconfigure w.policies asts)) ∧
    (bindingVerdict binding "Access denied" (expressionOutput context (liveAst w uid)) ≠ none →
      bindingsResult who context (binding :: rest) w = some (some "Access denied")) := by
  have hforetold := @foretold_checkBinding X w who context execution binding hheap
  rw [hfate] at hforetold
  obtain ⟨asts, hforetold⟩ := hforetold
  constructor
  · intro hpasses
    rw [hpasses] at hforetold
    exact ⟨asts, bindingsResult_pass hforetold⟩
  · intro hdenies
    rw [(bindingVerdict_cases _).resolve_left hdenies] at hforetold
    exact bindingsResult_deny hforetold

/-- Where no policy is live, no expression policy denies. -/
theorem bindingsResult_unconfigured (hpolicies : w.policies = fun _ => none) :
    bindingsResult who context bindings w =
      Fate.result (bindings.map (bindingFate execution context)) := by
  induction bindings generalizing w with
  | nil => rfl
  | cons binding rest ih =>
      rw [List.map_cons]
      cases hfate : bindingFate execution context binding with
      | passes =>
          rw [bindingsResult_passes hheap hfate]
          exact ih hheap hpolicies
      | denies => exact bindingsResult_denies hheap hfate
      | panics => exact bindingsResult_panics hheap hfate
      | asks uid =>
          have hneutral : bindingVerdict binding "Access denied"
              (expressionOutput context (liveAst w uid)) = none := by
            rw [liveAst, hpolicies]
            exact bindingVerdict_neutral
          obtain ⟨asts, hrest⟩ := (bindingsResult_asks hheap hfate).1 hneutral
          rw [hrest]
          exact ih hheap hpolicies

/-- A denial behind expression policies denies in any case. -/
theorem bindingsResult_denied
    (hdenied : Fate.result (bindings.map (bindingFate execution context)) =
      some (some "Access denied")) :
    bindingsResult who context bindings w = some (some "Access denied") := by
  induction bindings generalizing w with
  | nil => cases hdenied
  | cons binding rest ih =>
      rw [List.map_cons] at hdenied
      cases hfate : bindingFate execution context binding with
      | passes =>
          rw [hfate] at hdenied
          rw [bindingsResult_passes hheap hfate]
          exact ih hheap hdenied
      | denies => exact bindingsResult_denies hheap hfate
      | panics =>
          rw [hfate] at hdenied
          cases hdenied
      | asks uid =>
          rw [hfate] at hdenied
          obtain ⟨hpasses, hdenies⟩ := bindingsResult_asks hheap hfate
          by_cases hverdict : bindingVerdict binding "Access denied"
              (expressionOutput context (liveAst w uid)) = none
          · obtain ⟨asts, hrest⟩ := hpasses hverdict
            rw [hrest]
            exact ih hheap hdenied
          · exact hdenies hverdict

/-- What the snapshot settles does not depend on the live policies. -/
theorem bindingsResult_settled
    (hsettled : Fate.Settled (bindings.map (bindingFate execution context))) :
    bindingsResult who context bindings w =
      Fate.result (bindings.map (bindingFate execution context)) := by
  induction bindings with
  | nil => rfl
  | cons binding rest ih =>
      rw [List.map_cons] at hsettled ⊢
      cases hfate : bindingFate execution context binding with
      | passes =>
          rw [hfate] at hsettled
          rw [bindingsResult_passes hheap hfate]
          exact ih hsettled
      | denies => exact bindingsResult_denies hheap hfate
      | panics => exact bindingsResult_panics hheap hfate
      | asks uid =>
          rw [hfate] at hsettled
          have hdenied : Fate.result ((binding :: rest).map (bindingFate execution context)) =
              some (some "Access denied") := by
            rw [List.map_cons, hfate]
            exact hsettled
          rw [bindingsResult_denied hheap hdenied]
          exact hsettled.symm

end Fates

/-- Every policy has been edited to be the expression. -/
def editedPolicies (source : String) : PolicyQuery → Option Policy
  | .uid uid => some ⟨uid, "edited", .expression source⟩
  | .slug _ => none

/-- The constant that a binding denies. -/
theorem bindingVerdict_edited {uid : Int} {source : String} {ast : X.Ast}
    (hcompiled : X.compile source = some ast)
    (heval : ∀ scope, X.eval ast scope = .ok binding.negate) :
    bindingVerdict binding "Access denied" (expressionOutput context
      (liveAst (w.reconfigure (editedPolicies source) fun _ => none) uid)) ≠ none := by
  have hlive : liveAst (w.reconfigure (editedPolicies source) fun _ => none) uid = some ast := by
    simp [liveAst, World.reconfigure, editedPolicies, availableAst, compilePolicy, hcompiled]
  rw [hlive, expressionOutput, heval]
  intro hpasses
  obtain ⟨value, heq, hvalue⟩ := bindingVerdict_evaluation.mp hpasses
  cases heq
  exact hvalue rfl

/-- What is not settled can be denied by a constant expression, and is not denied without. -/
theorem exists_edit_of_not_settled {bindings : List FlowBinding} (hconstants : X.EvaluatesConstants)
    (hheap : w.heap[context.execution]? = some execution)
    (hsettled : ¬ Fate.Settled (bindings.map (bindingFate execution context))) :
    (∃ source, bindingsResult who context bindings
        (w.reconfigure (editedPolicies source) fun _ => none) = some (some "Access denied")) ∧
      Fate.result (bindings.map (bindingFate execution context)) ≠ some (some "Access denied") := by
  have hheap' : ∀ source,
      (w.reconfigure (editedPolicies source) fun _ => none).heap[context.execution]? =
      some execution := fun _ => hheap
  induction bindings with
  | nil => exact absurd trivial hsettled
  | cons binding rest ih =>
      rw [List.map_cons] at hsettled ⊢
      cases hfate : bindingFate execution context binding with
      | passes =>
          rw [hfate] at hsettled
          obtain ⟨⟨source, hedited⟩, hresult⟩ := ih hsettled
          exact ⟨⟨source, by rw [bindingsResult_passes (hheap' source) hfate, hedited]⟩, hresult⟩
      | denies =>
          rw [hfate] at hsettled
          exact absurd trivial hsettled
      | panics =>
          rw [hfate] at hsettled
          exact absurd trivial hsettled
      | asks uid =>
          rw [hfate] at hsettled
          obtain ⟨source, ast, hcompiled, heval⟩ := hconstants binding.negate
          refine ⟨⟨source, ?_⟩, hsettled⟩
          exact (bindingsResult_asks (hheap' _) hfate).2 (bindingVerdict_edited hcompiled heval)

theorem alone_checkBindings_append {first second : List FlowBinding} :
    (server X).alone who .normal (checkBindings X context (first ++ second)) w =
      ((server X).alone who .normal (checkBindings X context first) w).bind fun answer =>
        match answer.1 with
        | some message => some (some message, answer.2)
        | none => (server X).alone who .normal (checkBindings X context second) answer.2 := by
  induction first generalizing w with
  | nil => rfl
  | cons binding rest ih =>
      simp only [List.cons_append, checkBindings, alone_bind, Option.bind_assoc]
      apply Option.bind_congr
      intro answer _
      cases answer.1 with
      | some message => rfl
      | none => exact ih

/-- A task that touches no execution leaves them as they are. -/
theorem heap_alone {α : Type} {task : Task (sig X) α} (huntouching : Untouching task)
    {answer : α × World X} (halone : (server X).alone who .normal task w = some answer) :
    answer.2.heap = w.heap := by
  induction task generalizing w with
  | done value =>
      cases halone
      rfl
  | call op next ih =>
      obtain ⟨⟨res, middle⟩, hexec, hrest⟩ := Option.bind_eq_some_iff.mp halone
      have hstep : Step who w ⟨op, res⟩ middle := @exec_step X _ _ _ _ _ ⟨.normal, hexec⟩
      have htouches : op.touches = false := Bool.not_eq_true _ ▸ huntouching.1
      exact (ih res (huntouching.2 res) hrest).trans (hstep.heap_eq htouches)

/-- A check is decided by the authentication requirement and the bindings of the flow and of the
current entry. -/
theorem checkResult_eq (hheap : w.heap[context.execution]? = some execution)
    (hindex : execution.currentEntryIdx < execution.flow.entries.length) :
    checkResult who context w =
      if (execution.flow.authentication.output context.request.user).deref then
        bindingsResult who context (execution.flow.bindings ++
          execution.flow.entries[execution.currentEntryIdx]?.elim [] FlowEntry.bindings) w
      else some (some (FlowCheck.authentication execution.flow.authentication).message) := by
  have hflow : exec X who (.getFlow context.execution) .normal w = some (execution.flow, w) := by
    simp [exec, hheap]
  rw [checkResult, check, alone_op_bind hflow]
  simp only [FlowCheck.check, pure_eq_done, done_bind]
  split
  next =>
    rw [bindingsResult, alone_checkBindings_append, alone_bind]
    refine congrArg _ (Option.bind_congr fun answer hanswer => ?_)
    obtain ⟨verdict, after⟩ := answer
    cases verdict with
    | some message => rfl
    | none =>
        have hafter : after.heap[context.execution]? = some execution := by
          rw [heap_alone readOnly_checkBindings.untouching hanswer, hheap]
        have hentry : exec X who (.getEntry context.execution) .normal after =
            some ((execution.currentEntryIdx, execution.flow.entries[execution.currentEntryIdx]),
              after) := by
          simp [exec, hafter, FlowExecution.getEntry, hindex]
        simp only
        rw [alone_op_bind hentry, List.getElem?_eq_getElem hindex]
        rfl
  next => rfl

theorem checkIsolated_iff (hconstants : X.EvaluatesConstants)
    (hheap : w.heap[context.execution]? = some execution)
    (hindex : execution.currentEntryIdx < execution.flow.entries.length) :
    CheckIsolated w context ↔ SettledBySnapshot execution context := by
  have hresult : ∀ who policies asts, checkResult who context (w.reconfigure policies asts) = _ :=
    fun who policies asts => checkResult_eq hheap hindex
  have hheap' : ∀ policies asts, (w.reconfigure policies asts).heap[context.execution]? =
      some execution := fun _ _ => hheap
  unfold SettledBySnapshot
  generalize hbindings : execution.flow.bindings ++
    execution.flow.entries[execution.currentEntryIdx]?.elim [] FlowEntry.bindings = bindings at *
  constructor
  · intro hisolated
    cases hrequirement : (execution.flow.authentication.output context.request.user).deref with
    | false => exact Or.inl rfl
    | true =>
        refine Or.inr (by_contra fun hsettled => ?_)
        obtain ⟨⟨source, hedited⟩, hundenied⟩ :=
          @exists_edit_of_not_settled X w 0 context execution bindings hconstants hheap hsettled
        have hsame := hisolated 0 (editedPolicies source) (fun _ => none)
          (fun _ => none) fun _ => none
        rw [hresult, hresult, if_pos hrequirement, if_pos hrequirement, hedited,
          bindingsResult_unconfigured (hheap' _ _) rfl] at hsame
        exact hundenied hsame.symm
  · rintro (hrequirement | hsettled) who policies asts policies' asts'
    · rw [hresult, hresult, if_neg (by simp [hrequirement]), if_neg (by simp [hrequirement])]
    · rw [hresult, hresult, bindingsResult_settled (hheap' policies asts) hsettled,
        bindingsResult_settled (hheap' policies' asts') hsettled]

end Evaluating

section Runs

variable {suspends : Op X → Bool} {calls : Nat → Call X} {start : World X}
  {config : Config (sig X) (World X) (Except ApiErrorKind Response)}

/-- In every run, the check of an execution is isolated from the live policies exactly where the
snapshot and the request settle it. -/
theorem running_check_isolated_iff (hconstants : X.EvaluatesConstants) (hstart : start.Initial)
    (hreach : InterleavedAt suspends calls start config) {context : CheckContext}
    {execution : FlowExecution} (hheap : config.state.heap[context.execution]? = some execution) :
    CheckIsolated config.state context ↔ SettledBySnapshot execution context := by
  obtain ⟨hfinal, _⟩ := interleavedAt_standing hstart hreach
  exact checkIsolated_iff hconstants hheap (hfinal.placed.formed _ execution hheap).index

end Runs

section IsolationSamples

/-- A member is admitted by a binding to the user. -/
def memberBinding : FlowBinding := ⟨true, false, 0, .user 1⟩

def isolationSchedule : List (Act Choice) := Act.awaits 0 .normal 9

theorem member_fates : ((sampleRun (oneFormBound [memberBinding] [] []) (fun _ => sampleGet)
    isolationSchedule).bind fun config => config.state.heap[0]?.map fun execution =>
      (execution.flow.bindings ++ execution.flow.entries[execution.currentEntryIdx]?.elim []
        FlowEntry.bindings).map (bindingFate execution guardContext)) = some [.denies] := by
  decide +kernel

theorem guard_results : (sampleRun (oneFormBound [guardBinding true] [] [guardPolicy])
    (fun _ => sampleGet) isolationSchedule).map (fun config => (config.state.heap.length,
      checkResult 0 guardContext config.state,
      checkResult 0 guardContext (config.state.reconfigure (fun _ => none) config.state.asts))) =
        some (1, some (some "Access denied"), some none) := by
  decide +kernel

/-- A check that a binding to a user decides. -/
theorem member_check_isolated : ∃ config execution,
    InterleavedAt Op.suspends (fun _ => sampleGet) (oneFormBound [memberBinding] [] []) config ∧
      config.state.heap[0]? = some execution ∧ CheckIsolated config.state guardContext := by
  obtain ⟨config, hrun, hfates⟩ := Option.bind_eq_some_iff.mp member_fates
  obtain ⟨execution, hheap, hfates⟩ := Option.map_eq_some_iff.mp hfates
  have hreach : InterleavedAt Op.suspends (fun _ => sampleGet)
      (oneFormBound [memberBinding] [] []) config := Reachable.acts .start _ hrun
  refine ⟨config, execution, hreach, hheap, ?_⟩
  refine (@running_check_isolated_iff _ _ _ _ config Externals.plain_evaluatesConstants
    (World.boot_initial _ _ _ _ _ _) hreach guardContext execution hheap).mpr (Or.inr ?_)
  rw [hfates]
  trivial

/-- An execution is denied by a negated expression policy until the live policy is deleted. -/
theorem deleted_policy_admits : ∃ config, InterleavedAt Op.suspends (fun _ => sampleGet)
    (oneFormBound [guardBinding true] [] [guardPolicy]) config ∧
      config.state.heap.length = 1 ∧ ¬ CheckIsolated config.state guardContext := by
  obtain ⟨config, hrun, hresult⟩ := Option.map_eq_some_iff.mp guard_results
  simp only [Prod.mk.injEq] at hresult
  obtain ⟨hlength, hdenied, hadmitted⟩ := hresult
  refine ⟨config, Reachable.acts .start _ hrun, hlength, fun hisolated => ?_⟩
  have hsame := hisolated 0 config.state.policies config.state.asts
    (fun _ => none) config.state.asts
  rw [hadmitted] at hsame
  have hcurrent : checkResult 0 guardContext
      (config.state.reconfigure config.state.policies config.state.asts) =
        some (some "Access denied") := hdenied
  rw [hcurrent] at hsame
  cases hsame

end IsolationSamples

end Authust
