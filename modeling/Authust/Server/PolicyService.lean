import Authust.Coop.Extend
import Authust.Server.Verdict

/-! # The policy service

Compiled policies are cached by uid and do not expire. `get_ast` looks its policy up in
the live storage, which keeps a cache of its own, and compiles it where it finds no tree;
`invalidate` drops the tree before it drops the cached policy. The machine makes explicit
what the live storage serves policies from; every other operation is the server's.
-/

namespace Authust

open Coop Coop.Task Coop.Machine

variable (X : Externals)

/-- What is done to a policy besides looking it up. -/
inductive PolicyOp : Type
  /-- A statement that updates the expression in the database. -/
  | setExpression (uid : Int) (source : String)
  | invalidateAst (uid : Int)
  | invalidateStorage (uid : Int)
  deriving DecidableEq

abbrev policySig : Signature := (sig X).sum ⟨PolicyOp, fun _ => Unit⟩

structure PolicyWorld where
  world : World X
  /-- The rows of `policies` with their expressions. -/
  database : List Policy
  /-- The policies the live storage has cached. -/
  cached : List Policy

variable {X}

def Policy.setExpression (uid : Int) (source : String) (policy : Policy) : Policy :=
  if policy.uid = uid then { policy with kind := .expression source } else policy

namespace PolicyWorld

/-- The lookup of the live storage: a cached policy, or one it reads and caches. Of the storage
manager, which is the `datacache` crate's, this assumes that it caches what it finds under every
query that finds it, and not that something is missing. -/
def lookup (reference : DataRef PolicyQuery) (w : PolicyWorld X) : Option Policy × PolicyWorld X :=
  match w.cached.find? reference.finds with
  | some policy => (some policy, w)
  | none =>
      match w.database.find? reference.finds with
      | some policy => (some policy, { w with cached := policy :: w.cached })
      | none => (none, w)

def setExpression (uid : Int) (source : String) (w : PolicyWorld X) : PolicyWorld X :=
  { w with database := w.database.map (Policy.setExpression uid source) }

def invalidateAst (uid : Int) (w : PolicyWorld X) : PolicyWorld X :=
  { w with world := { w.world with asts := Function.update w.world.asts uid none } }

def invalidateStorage (uid : Int) (w : PolicyWorld X) : PolicyWorld X :=
  { w with cached := w.cached.filter fun policy => policy.uid ≠ uid }

end PolicyWorld

variable (X)

def policyExec (who : Nat) :
    (op : (policySig X).Op) → Choice → PolicyWorld X → Option ((policySig X).Res op × PolicyWorld X)
  | .inl (.livePolicy reference), _, w => some (w.lookup reference)
  | .inl op, choice, w =>
      (exec X who op choice w.world).map fun answer => (answer.1, { w with world := answer.2 })
  | .inr (.setExpression uid source), _, w => some ((), w.setExpression uid source)
  | .inr (.invalidateAst uid), _, w => some ((), w.invalidateAst uid)
  | .inr (.invalidateStorage uid), choice, w =>
      match choice with
      -- `expect("Invalidation of policy failed")`
      | .fail _ => none
      | _ => some ((), w.invalidateStorage uid)

def policySuspends : (policySig X).Op → Bool
  | .inl op => op.suspends
  | .inr (.invalidateAst _) => false
  | .inr _ => true

def policyMachine : Machine (policySig X) (PolicyWorld X) Choice where
  suspends := policySuspends X
  exec := policyExec X
  release := fun who w => { w with world := w.world.release who }
  moves := fun _ _ => False

def policyOp (op : PolicyOp) : Task (policySig X) Unit := @perform (policySig X) (.inr op)

/-- `InternalPolicyService::invalidate`. -/
def invalidate (uid : Int) : Task (policySig X) Unit := do
  policyOp X (.invalidateAst uid)
  policyOp X (.invalidateStorage uid)

inductive PolicyReply : Type
  | invalidated
  | ast (ast : Option X.Ast)

/-- The expression is updated in the database and the policy invalidated. -/
def updatePolicy (uid : Int) (source : String) : Task (policySig X) (PolicyReply X) := do
  policyOp X (.setExpression uid source)
  invalidate X uid
  pure .invalidated

/-- One update next to any calls of `get_ast`. -/
def policyTasks (uid : Int) (source : String) (references : Nat → DataRef PolicyQuery) :
    Nat → Task (policySig X) (PolicyReply X)
  | 0 => updatePolicy X uid source
  | caller + 1 => (PolicyReply.ast <$> getAst X (references caller)).translate

variable {X}

section Steps

variable {who : Nat} {before after : PolicyWorld X}

theorem policyExec_livePolicy {reference : DataRef PolicyQuery} {found : Option Policy}
    (hexec : (policyMachine X).Exec who before ⟨.inl (.livePolicy reference), found⟩ after) :
    before.lookup reference = (found, after) := by
  obtain ⟨choice, hexec⟩ := hexec
  exact Option.some.inj hexec

theorem policyExec_optionallyGetWith {uid : Int} {init tree : Option (Option X.Ast)}
    (hexec : (policyMachine X).Exec who before ⟨.inl (.optionallyGetWith uid init), tree⟩ after) :
    tree = (before.world.asts uid).or init ∧
      after = { before with world := { before.world with
        asts := Function.update before.world.asts uid tree } } := by
  obtain ⟨choice, hexec⟩ := hexec
  obtain ⟨answer, hanswer, heq⟩ := Option.map_eq_some_iff.mp hexec
  obtain ⟨htree, hworld⟩ := exec_optionallyGetWith hanswer
  cases heq
  exact ⟨htree, by rw [← hworld]⟩

theorem policyExec_setExpression {uid : Int} {source : String} {answer : Unit}
    (hexec : (policyMachine X).Exec who before ⟨.inr (.setExpression uid source), answer⟩ after) :
    after = before.setExpression uid source := by
  obtain ⟨choice, hexec⟩ := hexec
  cases hexec
  rfl

theorem policyExec_invalidateAst {uid : Int} {answer : Unit}
    (hexec : (policyMachine X).Exec who before ⟨.inr (.invalidateAst uid), answer⟩ after) :
    after = before.invalidateAst uid := by
  obtain ⟨choice, hexec⟩ := hexec
  cases hexec
  rfl

theorem policyExec_invalidateStorage {uid : Int} {answer : Unit}
    (hexec : (policyMachine X).Exec who before ⟨.inr (.invalidateStorage uid), answer⟩ after) :
    after = before.invalidateStorage uid := by
  obtain ⟨choice, hexec⟩ := hexec
  cases choice with
  | fail conflict => cases hexec
  | normal =>
      cases hexec
      rfl
  | key text =>
      cases hexec
      rfl

/-- What a lookup answers was cached or stored, and nothing else enters the cache. -/
theorem PolicyWorld.lookup_cases {reference : DataRef PolicyQuery} {found : Option Policy}
    (hlookup : before.lookup reference = (found, after)) :
    (∃ policy, found = some policy ∧ reference.finds policy ∧
      ((policy ∈ before.cached ∧ after = before) ∨
        (policy ∈ before.database ∧ after = { before with cached := policy :: before.cached }))) ∨
    (found = none ∧ after = before ∧ ∀ policy ∈ before.database, ¬ reference.finds policy) := by
  unfold lookup at hlookup
  split at hlookup
  next policy hcached =>
    cases hlookup
    exact Or.inl ⟨policy, rfl, List.find?_some hcached,
      Or.inl ⟨List.mem_of_find?_eq_some hcached, rfl⟩⟩
  next =>
    split at hlookup
    next policy hstored =>
      cases hlookup
      exact Or.inl ⟨policy, rfl, List.find?_some hstored,
        Or.inr ⟨List.mem_of_find?_eq_some hstored, rfl⟩⟩
    next hstored =>
      cases hlookup
      exact Or.inr ⟨rfl, rfl, List.find?_eq_none.mp hstored⟩

end Steps

theorem PolicyQuery.finds_setExpression {reference : PolicyQuery} {uid : Int} {source : String}
    {policy : Policy} :
    reference.finds (policy.setExpression uid source) = reference.finds policy := by
  unfold Policy.setExpression
  split
  next => cases reference <;> rfl
  next => rfl

theorem Policy.setExpression_uid {uid : Int} {source : String} {policy : Policy} :
    (policy.setExpression uid source).uid = policy.uid := by
  unfold setExpression
  split <;> rfl

theorem Policy.setExpression_kind {uid : Int} {source : String} {policy : Policy}
    (huid : (policy.setExpression uid source).uid = uid) :
    (policy.setExpression uid source).kind = .expression source := by
  rw [setExpression_uid] at huid
  rw [setExpression, if_pos huid]

end Authust
