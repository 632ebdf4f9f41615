import Authust.Server.Flow

/-! # What a check decides

Complete histories of the lookups and of a check. An expression policy is judged by the
syntax tree that the policy service answers; the storage and the cache decide whether it
answers one.
-/

namespace Authust

open Coop Coop.Task Coop.Machine

variable {X : Externals}

@[simp] theorem not_trace_panic {α : Type} {message : String} {history : List (Event (sig X))}
    {value : α} : ¬ Trace (panic message : Task (sig X) α) history value := by
  simp only [panic, perform_eq_call, call_bind, trace_call]
  rintro ⟨res, _⟩
  exact Empty.elim res

/-- The events of a successful lookup in the frozen storage. -/
def policyLookup (e : ExecId) (reference : DataRef PolicyQuery) (policy : Policy) :
    List (Event (sig X)) :=
  [⟨.lockContext e, ()⟩, ⟨.frozenPolicy e reference, some policy⟩, ⟨.unlockContext e, ()⟩]

def stageLookup (e : ExecId) (reference : DataRef StageQuery) (stage : Stage) :
    List (Event (sig X)) :=
  [⟨.lockContext e, ()⟩, ⟨.frozenStage e reference, some stage⟩, ⟨.unlockContext e, ()⟩]

theorem trace_lookupPolicy {e : ExecId} {reference : DataRef PolicyQuery} {policy : Policy}
    {history : List (Event (sig X))} :
    Trace (lookupPolicy X e reference) history policy ↔
      history = policyLookup e reference policy := by
  simp only [lookupPolicy, perform_eq_call, call_bind, done_bind, trace_call, policyLookup]
  constructor
  · rintro ⟨_, _, rfl, found, _, rfl, _, _, rfl, hfound⟩
    cases found with
    | none => exact absurd hfound not_trace_panic
    | some found =>
        obtain ⟨rfl, rfl⟩ := trace_done.mp hfound
        rfl
  · rintro rfl
    exact ⟨(), _, rfl, some policy, _, rfl, (), _, rfl, .refl _⟩

theorem trace_lookupStage {e : ExecId} {reference : DataRef StageQuery} {stage : Stage}
    {history : List (Event (sig X))} :
    Trace (lookupStage X e reference) history stage ↔
      history = stageLookup e reference stage := by
  simp only [lookupStage, perform_eq_call, call_bind, done_bind, trace_call, stageLookup]
  constructor
  · rintro ⟨_, _, rfl, found, _, rfl, _, _, rfl, hfound⟩
    cases found with
    | none => exact absurd hfound not_trace_panic
    | some found =>
        obtain ⟨rfl, rfl⟩ := trace_done.mp hfound
        rfl
  · rintro rfl
    exact ⟨(), _, rfl, some stage, _, rfl, (), _, rfl, .refl _⟩

theorem trace_getAst {reference : DataRef PolicyQuery} {ast : Option X.Ast}
    {history : List (Event (sig X))} :
    Trace (getAst X reference) history ast ↔
      (history = [⟨.livePolicy reference, none⟩] ∧ ast = none) ∨
        ∃ live cached, history = [⟨.livePolicy reference, some live⟩,
          ⟨.optionallyGetWith live.uid (compilePolicy X live), cached⟩] ∧ ast = cached.join := by
  simp only [getAst, perform_eq_call, call_bind, done_bind, trace_call]
  constructor
  · rintro ⟨answer, tail, rfl, htail⟩
    cases answer with
    | none =>
        obtain ⟨rfl, rfl⟩ := trace_done.mp htail
        exact Or.inl ⟨rfl, rfl⟩
    | some live =>
        obtain ⟨cached, rest, rfl, hrest⟩ := trace_call.mp htail
        obtain ⟨rfl, rfl⟩ := trace_done.mp hrest
        exact Or.inr ⟨live, cached, rfl, rfl⟩
  · rintro (⟨rfl, rfl⟩ | ⟨live, cached, rfl, rfl⟩)
    · exact ⟨none, [], rfl, .refl _⟩
    · exact ⟨some live, _, rfl, trace_call.mpr ⟨cached, [], rfl, .refl _⟩⟩

def evaluationOutput : Except Unit Bool → FlowCheckOutput
  | .ok passed => .ofBool passed
  | .error _ => .failedHard

/-- What an expression policy comes to once its syntax tree is known. -/
def expressionOutput (context : CheckContext) : Option X.Ast → FlowCheckOutput
  | some tree => evaluationOutput (X.eval tree (createScope context))
  | none => .neutral

theorem trace_checkPolicy_expression {context : CheckContext} {policy : Policy} {source : String}
    (hsource : policy.kind = .expression source) {output : FlowCheckOutput}
    {history : List (Event (sig X))} :
    Trace (checkPolicy X context policy) history output ↔
      ∃ ast, Trace (getAst X (PolicyQuery.uid policy.uid)) history ast ∧
        output = expressionOutput context ast := by
  unfold checkPolicy
  rw [hsource]
  simp only [trace_bind, pure_eq_done]
  have hjudged : ∀ (ast : Option X.Ast) (second : List (Event (sig X))),
      Trace (match ast with
        | some tree =>
            match X.eval tree (createScope context) with
            | .ok passed => done (.ofBool passed)
            | .error _ => done .failedHard
        | none => done .neutral : Task (sig X) FlowCheckOutput) second output ↔
          second = [] ∧ output = expressionOutput context ast := by
    intro ast second
    cases ast with
    | none => exact trace_done
    | some tree =>
        simp only [expressionOutput]
        cases X.eval tree (createScope context) <;> exact trace_done
  constructor
  · rintro ⟨first, ast, second, hfirst, hsecond, rfl⟩
    obtain ⟨rfl, rfl⟩ := (hjudged ast second).mp hsecond
    exact ⟨ast, by simpa using hfirst, rfl⟩
  · rintro ⟨ast, hhistory, rfl⟩
    exact ⟨history, ast, [], hhistory, (hjudged ast []).mpr ⟨rfl, rfl⟩, by simp⟩

/-- A policy check reads the context, the live storage and the cache, and nothing else. -/
theorem avoids_checkPolicy {bad : Op X → Prop} (hread : ∀ e, ¬ bad (.readContext e))
    (hlive : ∀ reference, ¬ bad (.livePolicy reference))
    (hcache : ∀ uid init, ¬ bad (.optionallyGetWith uid init)) (context : CheckContext)
    (policy : Policy) : @Avoids (sig X) _ bad (checkPolicy X context policy) := by
  unfold checkPolicy
  split
  next maxAge =>
    refine ⟨hread _, ?_⟩
    intro inner
    cases context.request.user <;> exact avoids_done
  next => exact avoids_done
  next source =>
    refine Avoids.bind ?_ ?_
    · refine ⟨hlive _, ?_⟩
      intro answer
      cases answer with
      | none => exact avoids_done
      | some live => exact ⟨hcache _ _, fun _ => avoids_done⟩
    · intro ast
      cases ast with
      | none => exact avoids_done
      | some tree =>
          simp only
          cases X.eval tree (createScope context) <;> exact avoids_done

/-- The verdict of `check_binding` on the output of its check. -/
def bindingVerdict (binding : FlowBinding) (message : String) (output : FlowCheckOutput) :
    Option String :=
  if (if binding.negate then output.negate else output).deref then none else some message

theorem trace_checkBinding_policy {binding : FlowBinding} {context : CheckContext}
    {reference : DataRef PolicyQuery} (henabled : binding.enabled = true)
    (hkind : binding.kind = .policy reference) {verdict : Option String}
    {history : List (Event (sig X))} :
    Trace (checkBinding X binding context) history verdict ↔
      ∃ policy tail output, history = policyLookup context.execution reference policy ++ tail ∧
        Trace (checkPolicy X context policy) tail output ∧
          verdict = bindingVerdict binding "Access denied" output := by
  unfold checkBinding
  rw [if_pos henabled, hkind]
  simp only [FlowCheck.ofBindingKind, FlowCheck.check, pure_eq_done, done_bind, trace_bind,
    trace_lookupPolicy, FlowCheck.message]
  have hverdict : ∀ (output : FlowCheckOutput) (second : List (Event (sig X))),
      Trace (if (if binding.negate then output.negate else output).deref = true then done none
          else done (some "Access denied") : Task (sig X) (Option String)) second verdict ↔
        second = [] ∧ verdict = bindingVerdict binding "Access denied" output := by
    intro output second
    unfold bindingVerdict
    by_cases hpass : (if binding.negate then output.negate else output).deref = true
    · rw [if_pos hpass, if_pos hpass, trace_done]
    · rw [if_neg hpass, if_neg hpass, trace_done]
  constructor
  · rintro ⟨_, output, second, ⟨_, policy, tail, rfl, htail, rfl⟩, hsecond, rfl⟩
    obtain ⟨rfl, rfl⟩ := (hverdict output second).mp hsecond
    exact ⟨policy, tail, output, by simp, htail, rfl⟩
  · rintro ⟨policy, tail, output, rfl, htail, rfl⟩
    exact ⟨_, output, [], ⟨_, policy, tail, rfl, htail, rfl⟩, (hverdict output []).mpr ⟨rfl, rfl⟩,
      by simp⟩

section FailClosed

/-- The syntax tree a check was answered, if any. -/
def astAnswer (history : List (Event (sig X))) : Option X.Ast :=
  (history.findSome? fun event =>
    match event with
    | ⟨.optionallyGetWith _ _, answer⟩ => some answer.join
    | _ => none).join

/-- The policy denies unless its tree was obtained and evaluated against `negate`. -/
def FailsClosed (binding : FlowBinding) (context : CheckContext) (ast : Option X.Ast)
    (verdict : Option String) : Prop :=
  (verdict = none → ∃ tree value, ast = some tree ∧ X.eval tree (createScope context) = .ok value ∧
    value ≠ binding.negate) ∧
  ((ast = none ∨ ∃ tree error, ast = some tree ∧ X.eval tree (createScope context) = .error error) →
    verdict ≠ none)

/-- The tree that a policy has in the cache, or that it is compiled to where the cache has
no entry for it. -/
def availableAst (w : World X) (policy : Policy) : Option X.Ast :=
  match w.asts policy.uid with
  | some ast => ast
  | none => (compilePolicy X policy).join

/-- The live storage answers the policy, and at that time it has a tree. -/
def AstAvailable (policy : Policy) (log : List (Logged (sig X) (World X))) : Prop :=
  ∃ live, ⟨.livePolicy (.uid policy.uid), some live⟩ ∈ log.map Logged.event ∧
    ∃ entry ∈ log, entry.event.op = .optionallyGetWith live.uid (compilePolicy X live) ∧
      (availableAst entry.before live).isSome = true

theorem bindingVerdict_evaluation {binding : FlowBinding} {message : String}
    {result : Except Unit Bool} :
    bindingVerdict binding message (evaluationOutput result) = none ↔
      ∃ value, result = .ok value ∧ value ≠ binding.negate := by
  unfold bindingVerdict
  cases result with
  | error error =>
      cases binding.negate <;>
        simp [evaluationOutput, FlowCheckOutput.negate, FlowCheckOutput.deref]
  | ok value =>
      cases value <;> cases binding.negate <;>
        simp [evaluationOutput, FlowCheckOutput.negate, FlowCheckOutput.deref,
          FlowCheckOutput.ofBool]

theorem bindingVerdict_neutral {binding : FlowBinding} {message : String} :
    bindingVerdict binding message .neutral = none := by
  unfold bindingVerdict
  cases binding.negate <;> rfl

theorem failsClosed_iff {binding : FlowBinding} {context : CheckContext} {ast : Option X.Ast}
    {message : String} :
    FailsClosed binding context ast
        (bindingVerdict binding message (expressionOutput context ast)) ↔ ast.isSome = true := by
  unfold FailsClosed
  cases ast with
  | none =>
      simp only [expressionOutput, bindingVerdict_neutral]
      simp
  | some tree =>
      simp only [expressionOutput, ne_eq, bindingVerdict_evaluation]
      refine ⟨fun _ => rfl, fun _ => ⟨?_, ?_⟩⟩
      · rintro ⟨value, heval, hvalue⟩
        exact ⟨tree, value, rfl, heval, hvalue⟩
      · rintro (habsent | ⟨_, error, htree, herror⟩) ⟨value, heval, _⟩
        · cases habsent
        · cases htree
          rw [heval] at herror
          cases herror

theorem optionallyGetWith_answer {moves : World X → World X → Prop} {who : Nat}
    {before after : World X} {uid : Int} {init cached : Option (Option X.Ast)}
    (hexec : (machine X moves).Exec who before ⟨.optionallyGetWith uid init, cached⟩ after) :
    cached = (before.asts uid).or init := by
  obtain ⟨choice, hexec⟩ := hexec
  simp only [machine, exec] at hexec
  split at hexec
  next ast hasts =>
    cases hexec
    rw [hasts]
    rfl
  next ast hasts =>
    cases hexec
    rw [hasts]
    rfl
  next hasts =>
    cases hexec
    rw [hasts]
    rfl

theorem availableAst_eq {w : World X} {policy : Policy} :
    ((w.asts policy.uid).or (compilePolicy X policy)).join = availableAst w policy := by
  unfold availableAst
  cases w.asts policy.uid <;> rfl

/-- What a check was answered is some tree exactly when a tree was available to it. -/
theorem astAnswer_isSome_iff {moves : World X → World X → Prop} {policy : Policy} {e : ExecId}
    {reference : DataRef PolicyQuery} {log : List (Logged (sig X) (World X))}
    {tail : List (Event (sig X))} {ast : Option X.Ast}
    (hexecuted : (machine X moves).Executed log)
    (hhistory : log.map Logged.event = policyLookup e reference policy ++ tail)
    (htail : Trace (getAst X (PolicyQuery.uid policy.uid)) tail ast) :
    ast = astAnswer (log.map Logged.event) ∧ (ast.isSome = true ↔ AstAvailable policy log) := by
  have hevent : ∀ {entry : Logged (sig X) (World X)}, entry ∈ log →
      entry.event ∈ policyLookup e reference policy ++ tail := by
    intro entry hmem
    rw [← hhistory]
    exact List.mem_map_of_mem hmem
  unfold AstAvailable
  rcases trace_getAst.mp htail with ⟨rfl, rfl⟩ | ⟨live, cached, rfl, rfl⟩
  · rw [hhistory]
    refine ⟨rfl, ?_⟩
    simp [policyLookup]
  rw [hhistory]
  refine ⟨rfl, ?_⟩
  have hanswer : ∀ entry ∈ log,
      entry.event = ⟨.optionallyGetWith live.uid (compilePolicy X live), cached⟩ →
        cached.join = availableAst entry.before live := by
    intro entry hmem heq
    obtain ⟨after, hexec⟩ := hexecuted entry hmem
    rw [heq] at hexec
    rw [optionallyGetWith_answer hexec, availableAst_eq]
  constructor
  · intro hsome
    have hmem : ⟨.optionallyGetWith live.uid (compilePolicy X live), cached⟩ ∈
        log.map Logged.event := by
      rw [hhistory]
      simp
    obtain ⟨entry, hmem, heq⟩ := List.mem_map.mp hmem
    refine ⟨live, by simp, entry, hmem, by rw [heq], ?_⟩
    rw [← hanswer entry hmem heq]
    exact hsome
  · rintro ⟨found, hfound, entry, hmem, hop, hsome⟩
    have hlive : found = live := by
      simpa [policyLookup] using hfound
    subst found
    -- no other event of the check asks the cache of trees
    have hlast : entry.event = ⟨.optionallyGetWith live.uid (compilePolicy X live), cached⟩ := by
      have hlisted := hevent hmem
      simp only [policyLookup, List.cons_append, List.nil_append, List.mem_cons,
        List.not_mem_nil, or_false] at hlisted
      rcases hlisted with heq | heq | heq | heq | heq
      all_goals first | exact heq | (rw [heq] at hop; cases hop)
    rw [hanswer entry hmem hlast]
    exact hsome

/-- An enabled binding to an expression policy fails closed exactly when the policy's tree
is available: a missing tree passes, negated or not. -/
theorem checkBinding_failsClosed_iff {moves : World X → World X → Prop} {binding : FlowBinding}
    {context : CheckContext} {reference : DataRef PolicyQuery} {policy : Policy} {source : String}
    {log : List (Logged (sig X) (World X))} {verdict : Option String}
    (henabled : binding.enabled = true) (hkind : binding.kind = .policy reference)
    (hsource : policy.kind = .expression source)
    (hexecuted : (machine X moves).Executed log)
    (hfrozen : ⟨.frozenPolicy context.execution reference, some policy⟩ ∈ log.map Logged.event)
    (htrace : Trace (checkBinding X binding context) (log.map Logged.event) verdict) :
    FailsClosed binding context (astAnswer (log.map Logged.event)) verdict ↔
      AstAvailable policy log := by
  obtain ⟨found, tail, output, hhistory, hcheck, rfl⟩ :=
    (trace_checkBinding_policy henabled hkind).mp htrace
  have hfound : found = policy := by
    have havoids : @Avoids (sig X) _ (fun op => op = .frozenPolicy context.execution reference)
        (checkPolicy X context found) :=
      avoids_checkPolicy (fun _ => by simp) (fun _ => by simp) (fun _ _ => by simp) context found
    rw [hhistory, List.mem_append] at hfrozen
    rcases hfrozen with hlookup | htail
    · simp only [policyLookup, List.mem_cons, Event.mk.injEq, reduceCtorEq, false_and, or_false,
        List.not_mem_nil, false_or, heq_eq_eq, Option.some.injEq, true_and] at hlookup
      exact hlookup.symm
    · exact absurd rfl (havoids.path hcheck _ htail)
  subst found
  obtain ⟨ast, hast, rfl⟩ := (trace_checkPolicy_expression hsource).mp hcheck
  obtain ⟨hanswer, havailable⟩ := astAnswer_isSome_iff hexecuted hhistory hast
  rw [← hanswer, failsClosed_iff, havailable]

/-- A binding to the policy `true`, over a live storage that may have lost it. -/
def guardBinding (negate : Bool) : FlowBinding := ⟨true, negate, 0, .policy (.uid 1)⟩

def guardPolicy : Policy := ⟨1, "guard", .expression "true"⟩

def guardContext : CheckContext :=
  ⟨⟨"/", "host", .http, none, none⟩, none, 0⟩

def guardWorld (live : List Policy) : World .plain :=
  { World.boot .plain [] [] [] [] live with
    heap := [.new ⟨"s", .slug "f"⟩ ⟨1, "f", "F", .authentication, .ignored, [], []⟩
      { FreezedStorage.empty with
        policy := ExportedData.empty.insertData 1 [.uid 1, .slug "guard"] guardPolicy } 0] }

def guardCheck (live : List Policy) (negate : Bool) :
    Served (sig .plain) (World .plain) (Option String) :=
  (machine .plain fun _ _ => False).served 0
    (checkBinding .plain (guardBinding negate) guardContext)
    (fun _ => ⟨.normal, .never⟩) (guardWorld live)

theorem guardCheck_serves (live : List Policy) (negate : Bool) :
    (machine .plain fun _ _ => False).Serves
      (checkBinding .plain (guardBinding negate) guardContext) (guardCheck live negate) :=
  serve_serves _ _ _ _

theorem guardCheck_failsClosed_iff :
    FailsClosed (guardBinding false) guardContext
        (astAnswer ((guardCheck [guardPolicy] false).log.map Logged.event)) none ↔
      AstAvailable guardPolicy (guardCheck [guardPolicy] false).log :=
  checkBinding_failsClosed_iff rfl rfl rfl (guardCheck_serves [guardPolicy] false).chain.executed
    (List.mem_cons_of_mem _ List.mem_cons_self)
    ((guardCheck_serves [guardPolicy] false).trace rfl)

/-- The negated policy `true` denies everyone until it is deleted from the live storage;
then it lets everyone pass. -/
theorem checkBinding_passes_without_ast :
    ¬ ∀ (X : Externals) (moves : World X → World X → Prop) (binding : FlowBinding)
      (context : CheckContext) (reference : DataRef PolicyQuery) (policy : Policy)
      (source : String) (log : List (Logged (sig X) (World X))) (verdict : Option String),
      binding.enabled = true → binding.kind = .policy reference →
      policy.kind = .expression source → (machine X moves).Executed log →
      ⟨.frozenPolicy context.execution reference, some policy⟩ ∈ log.map Logged.event →
      Trace (checkBinding X binding context) (log.map Logged.event) verdict →
        FailsClosed binding context (astAnswer (log.map Logged.event)) verdict := by
  intro hclaim
  have hclosed := hclaim .plain (fun _ _ => False) (guardBinding true) guardContext (.uid 1)
    guardPolicy "true" (guardCheck [] true).log none rfl rfl rfl
    (guardCheck_serves [] true).chain.executed (List.mem_cons_of_mem _ List.mem_cons_self)
    ((guardCheck_serves [] true).trace rfl)
  obtain ⟨tree, value, habsent, _⟩ := hclosed.1 rfl
  cases habsent

end FailClosed

end Authust
