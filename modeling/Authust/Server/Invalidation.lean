import Authust.Server.PolicyService

/-! # Invalidation of compiled policies

Once `invalidate` has dropped the tree of a policy, the tree comes back only through a
call that finds none. As long as every such call was served the updated expression, no
call that starts after the update is answered another tree.
-/

namespace Authust

open Coop Coop.Task Coop.Machine

variable {X : Externals}

abbrev PolicyLog (X : Externals) := List (Logged (policySig X) (PolicyWorld X))

abbrev PolicyEvent (X : Externals) := Event (policySig X)

def performs (op : PolicyOp) (event : PolicyEvent X) : Bool :=
  match event.op with
  | .inl _ => false
  | .inr other => other = op

abbrev Performed (op : PolicyOp) (log : PolicyLog X) : Prop :=
  ∃ entry ∈ log, performs op entry.event = true

/-- A lookup that is served a policy with this expression. -/
def servesSource (source : String) : PolicyEvent X → Bool
  | ⟨.inl (.livePolicy _), some policy⟩ => policy.kind = .expression source
  | _ => false

/-- A call that finds no tree after the update has dropped it has been served the updated
expression. -/
def refillsUpdated (uid : Int) (source : String) (past : PolicyLog X)
    (entry : Logged (policySig X) (PolicyWorld X)) : Bool :=
  match entry.event.op with
  | .inl (.optionallyGetWith key _) =>
      if key = uid ∧ (entry.before.world.asts uid).isNone ∧ Performed (.invalidateAst uid) past
      then (own entry.who past).any (servesSource source)
      else true
  | _ => true

abbrev RefillsUpdated (uid : Int) (source : String) (log : PolicyLog X) : Prop :=
  Throughout (fun past entry => refillsUpdated uid source past entry) log

/-- The reference finds the policy, and no other policy is stored or cached under it. -/
structure PolicyWorld.Refers (w : PolicyWorld X) (uid : Int) (reference : DataRef PolicyQuery) :
    Prop where
  stored : ∃ policy ∈ w.database, reference.finds policy
  only : ∀ policy, policy ∈ w.cached ∨ policy ∈ w.database → reference.finds policy →
    policy.uid = uid

theorem PolicyWorld.refers_uid {w : PolicyWorld X} {policy : Policy}
    (hstored : policy ∈ w.database) : w.Refers policy.uid (.uid policy.uid) where
  stored := ⟨policy, hstored, by simp [PolicyQuery.finds]⟩
  only := fun _ _ hfinds => of_decide_eq_true hfinds

/-- Every call for the policy whose operations all come after those of the update answers
what the updated expression compiles to, unless it is dropped. -/
def AnswersUpdated (uid : Int) (source : String) (references : Nat → DataRef PolicyQuery)
    (start : PolicyWorld X)
    (config : Config (policySig X) (PolicyWorld X) (PolicyReply X)) : Prop :=
  ∀ past rest caller ending, config.log = past ++ rest →
    Trace (updatePolicy X uid source) (own 0 past) .invalidated → own (caller + 1) past = [] →
      start.Refers uid (references caller) → config.procs (caller + 1) = .ended ending →
        ending = .dropped ∨ ending = .returned (.ast (X.compile source))

section Calls

variable {uid : Int} {source : String} {references : Nat → DataRef PolicyQuery}

def policyEvent (op : PolicyOp) : PolicyEvent X := ⟨.inr op, ()⟩

/-- The operations of the update and of `get_ast`, each with what its task did before. -/
inductive PolicyCall (uid : Int) (source : String) :
    List (PolicyEvent X) → (policySig X).Op → Prop
  | setExpression : PolicyCall uid source [] (.inr (.setExpression uid source))
  | invalidateAst :
      PolicyCall uid source [policyEvent (.setExpression uid source)] (.inr (.invalidateAst uid))
  | invalidateStorage :
      PolicyCall uid source
        [policyEvent (.setExpression uid source), policyEvent (.invalidateAst uid)]
        (.inr (.invalidateStorage uid))
  | livePolicy (reference : DataRef PolicyQuery) :
      PolicyCall uid source [] (.inl (.livePolicy reference))
  | optionallyGetWith (reference : DataRef PolicyQuery) (live : Policy) :
      PolicyCall uid source [⟨.inl (.livePolicy reference), some live⟩]
        (.inl (.optionallyGetWith live.uid (compilePolicy X live)))

theorem path_updatePolicy {history : List (PolicyEvent X)}
    {rest : Task (policySig X) (PolicyReply X)}
    (hpath : Path (updatePolicy X uid source) history rest) :
    (∃ op next, rest = .call op next ∧ PolicyCall uid source history op) ∨
      history = [policyEvent (.setExpression uid source), policyEvent (.invalidateAst uid),
        policyEvent (.invalidateStorage uid)] ∧ rest = .done .invalidated := by
  rcases path_call.mp hpath with ⟨rfl, rfl⟩ | ⟨_, _, rfl, hupdated⟩
  · exact Or.inl ⟨_, _, rfl, .setExpression⟩
  rcases path_call.mp hupdated with ⟨rfl, rfl⟩ | ⟨_, _, rfl, hdropped⟩
  · exact Or.inl ⟨_, _, rfl, .invalidateAst⟩
  rcases path_call.mp hdropped with ⟨rfl, rfl⟩ | ⟨_, _, rfl, hdone⟩
  · exact Or.inl ⟨_, _, rfl, .invalidateStorage⟩
  obtain ⟨rfl, rfl⟩ := path_done.mp hdone
  exact Or.inr ⟨rfl, rfl⟩

theorem policyCall_of_getAst {reference : DataRef PolicyQuery} {history : List (Event (sig X))}
    {op : Op X} {next : op.Res → Task (sig X) (PolicyReply X)}
    (hpath : Path (PolicyReply.ast <$> getAst X reference) history (.call op next)) :
    PolicyCall uid source (history.map Event.translate) (.inl op) := by
  rcases path_call.mp hpath with ⟨rfl, hcall⟩ | ⟨live, _, rfl, hserved⟩
  · cases hcall
    exact .livePolicy reference
  cases live with
  | none => cases (path_done.mp hserved).2
  | some live =>
      rcases path_call.mp hserved with ⟨rfl, hcall⟩ | ⟨_, _, rfl, hdone⟩
      · cases hcall
        exact .optionallyGetWith reference live
      · cases (path_done.mp hdone).2

/-- What the tasks issue. -/
theorem policyCall_of_path {who : Nat} {history : List (PolicyEvent X)} {op : (policySig X).Op}
    {next : (policySig X).Res op → Task (policySig X) (PolicyReply X)}
    (hpath : Path (policyTasks X uid source references who) history (.call op next)) :
    PolicyCall uid source history op := by
  cases who with
  | zero =>
      rcases path_updatePolicy hpath with ⟨_, _, hcall, hissued⟩ | ⟨_, hdone⟩
      · cases hcall
        exact hissued
      · cases hdone
  | succ caller =>
      obtain ⟨events, left, hevents, rfl, hleft⟩ := path_translate.mp hpath
      cases left with
      | done value => cases hleft
      | call op' next' =>
          cases hleft
          exact policyCall_of_getAst hevents

end Calls

theorem performed_policyEvent {op other : PolicyOp} {log : PolicyLog X} {who : Nat}
    {w : PolicyWorld X} :
    Performed op (log ++ [⟨who, w, policyEvent other⟩]) ↔ Performed op log ∨ other = op := by
  simp [Performed, performs, policyEvent, or_and_right, exists_or]

theorem performed_inl {op : PolicyOp} {log : PolicyLog X} {who : Nat} {w : PolicyWorld X}
    {event : Event (sig X)} :
    Performed op (log ++ [⟨who, w, event.translate⟩]) ↔ Performed op log := by
  simp [Performed, performs, Event.translate, or_and_right, exists_or]

theorem performed_of_own {op : PolicyOp} {log : PolicyLog X} {who : Nat}
    (hmem : policyEvent op ∈ own who log) : Performed op log := by
  obtain ⟨entry, hlog, _, hevent⟩ := mem_own.mp hmem
  exact ⟨entry, hlog, by simp [hevent, performs, policyEvent]⟩

section Fresh

variable {uid : Int} {source : String} {reference : DataRef PolicyQuery}

/-- How far the update has come is how fresh the policy is: in the database, in the tree
cache and in the cache of the live storage. -/
structure Fresh (uid : Int) (source : String) (reference : DataRef PolicyQuery)
    (w : PolicyWorld X) (log : PolicyLog X) : Prop where
  refers : w.Refers uid reference
  order : Performed (.invalidateStorage uid) log → Performed (.setExpression uid source) log
  stored : Performed (.setExpression uid source) log → ∀ policy ∈ w.database, policy.uid = uid →
    policy.kind = .expression source
  tree : Performed (.invalidateAst uid) log → ∀ ast, w.world.asts uid = some ast →
    ast = X.compile source
  cached : Performed (.invalidateStorage uid) log → ∀ policy ∈ w.cached, policy.uid = uid →
    policy.kind = .expression source

variable {w : PolicyWorld X} {log : PolicyLog X} {who : Nat}

theorem Fresh.setExpression (hfresh : Fresh uid source reference w log) :
    Fresh uid source reference (w.setExpression uid source)
      (log ++ [⟨who, w, policyEvent (.setExpression uid source)⟩]) := by
  have hstored : ∀ policy ∈ (w.setExpression uid source).database,
      ∃ row ∈ w.database, policy = row.setExpression uid source := by
    intro policy hmem
    obtain ⟨row, hrow, rfl⟩ := List.mem_map.mp hmem
    exact ⟨row, hrow, rfl⟩
  refine ⟨⟨?_, ?_⟩, ?_, ?_, ?_, ?_⟩
  · obtain ⟨row, hrow, hfinds⟩ := hfresh.refers.stored
    exact ⟨_, List.mem_map_of_mem hrow, by rwa [PolicyQuery.finds_setExpression]⟩
  · rintro policy (hcached | hmem) hfinds
    · exact hfresh.refers.only policy (Or.inl hcached) hfinds
    · obtain ⟨row, hrow, rfl⟩ := hstored policy hmem
      rw [PolicyQuery.finds_setExpression] at hfinds
      rw [Policy.setExpression_uid]
      exact hfresh.refers.only row (Or.inr hrow) hfinds
  · exact fun _ => performed_policyEvent.mpr (Or.inr rfl)
  · intro _ policy hmem huid
    obtain ⟨row, _, rfl⟩ := hstored policy hmem
    exact Policy.setExpression_kind huid
  · intro hdropped
    exact hfresh.tree ((performed_policyEvent.mp hdropped).resolve_right (by simp))
  · intro hinvalidated
    exact hfresh.cached ((performed_policyEvent.mp hinvalidated).resolve_right (by simp))

theorem Fresh.invalidateAst (hfresh : Fresh uid source reference w log) :
    Fresh uid source reference (w.invalidateAst uid)
      (log ++ [⟨who, w, policyEvent (.invalidateAst uid)⟩]) := by
  refine ⟨⟨hfresh.refers.stored, hfresh.refers.only⟩, ?_, ?_, ?_, ?_⟩
  · intro hinvalidated
    have hbefore := (performed_policyEvent.mp hinvalidated).resolve_right (by simp)
    exact performed_policyEvent.mpr (Or.inl (hfresh.order hbefore))
  · intro hupdated
    exact hfresh.stored ((performed_policyEvent.mp hupdated).resolve_right (by simp))
  · intro _ ast hast
    simp [PolicyWorld.invalidateAst] at hast
  · intro hinvalidated
    exact hfresh.cached ((performed_policyEvent.mp hinvalidated).resolve_right (by simp))

theorem Fresh.invalidateStorage (hfresh : Fresh uid source reference w log)
    (hupdated : Performed (.setExpression uid source) log) :
    Fresh uid source reference (w.invalidateStorage uid)
      (log ++ [⟨who, w, policyEvent (.invalidateStorage uid)⟩]) := by
  refine ⟨⟨hfresh.refers.stored, ?_⟩, ?_, fun _ => hfresh.stored hupdated, ?_, ?_⟩
  · rintro policy (hcached | hstored) hfinds
    · exact hfresh.refers.only policy (Or.inl (List.mem_of_mem_filter hcached)) hfinds
    · exact hfresh.refers.only policy (Or.inr hstored) hfinds
  · exact fun _ => performed_policyEvent.mpr (Or.inl hupdated)
  · intro hdropped
    exact hfresh.tree ((performed_policyEvent.mp hdropped).resolve_right (by simp))
  · intro _ policy hcached huid
    exact absurd huid (of_decide_eq_true (List.mem_filter.mp hcached).2)

/-- A lookup caches a stored policy at most. -/
theorem Fresh.lookup (hfresh : Fresh uid source reference w log) {key : DataRef PolicyQuery}
    {found : Option Policy} {after : PolicyWorld X} (hlookup : w.lookup key = (found, after)) :
    Fresh uid source reference after
      (log ++ [⟨who, w, Event.translate ⟨.livePolicy key, found⟩⟩]) := by
  have hgrown : after.world = w.world ∧ after.database = w.database ∧
      ∀ policy ∈ after.cached, policy ∈ w.cached ∨ policy ∈ w.database := by
    rcases PolicyWorld.lookup_cases hlookup with
      ⟨policy, _, _, ⟨_, rfl⟩ | ⟨hstored, rfl⟩⟩ | ⟨_, rfl, _⟩
    · exact ⟨rfl, rfl, fun _ hcached => Or.inl hcached⟩
    · refine ⟨rfl, rfl, fun other hcached => ?_⟩
      rcases List.mem_cons.mp hcached with rfl | hcached
      · exact Or.inr hstored
      · exact Or.inl hcached
    · exact ⟨rfl, rfl, fun _ hcached => Or.inl hcached⟩
  obtain ⟨hworld, hdatabase, hcached⟩ := hgrown
  constructor
  · constructor
    · rw [hdatabase]
      exact hfresh.refers.stored
    · intro policy hmem
      rw [hdatabase] at hmem
      exact hfresh.refers.only policy (hmem.elim (hcached policy) Or.inr)
  · simpa only [performed_inl] using hfresh.order
  · rw [performed_inl, hdatabase]
    exact hfresh.stored
  · rw [performed_inl, hworld]
    exact hfresh.tree
  · rw [performed_inl]
    intro hinvalidated policy hmem huid
    rcases hcached policy hmem with hold | hstored
    · exact hfresh.cached hinvalidated policy hold huid
    · exact hfresh.stored (hfresh.order hinvalidated) policy hstored huid

theorem compilePolicy_expression {policy : Policy} (hkind : policy.kind = .expression source) :
    compilePolicy X policy = some (X.compile source) := by
  rw [compilePolicy, hkind]

/-- A tree comes into the cache from a call that was served the updated expression. -/
theorem Fresh.optionallyGetWith (hfresh : Fresh uid source reference w log)
    {key : DataRef PolicyQuery} {live : Policy} {tree : Option (Option X.Ast)}
    {after : PolicyWorld X}
    (hown : own who log = [⟨.inl (.livePolicy key), some live⟩])
    (hexec : (policyMachine X).Exec who w
      (Event.translate ⟨.optionallyGetWith live.uid (compilePolicy X live), tree⟩) after)
    (hrefills : refillsUpdated uid source log
      ⟨who, w, Event.translate ⟨.optionallyGetWith live.uid (compilePolicy X live), tree⟩⟩ = true) :
    Fresh uid source reference after
      (log ++ [⟨who, w, Event.translate
        ⟨.optionallyGetWith live.uid (compilePolicy X live), tree⟩⟩]) := by
  obtain ⟨rfl, rfl⟩ := policyExec_optionallyGetWith hexec
  constructor
  · exact ⟨hfresh.refers.stored, hfresh.refers.only⟩
  · simpa only [performed_inl] using hfresh.order
  · simpa only [performed_inl] using hfresh.stored
  · rw [performed_inl]
    intro hdropped ast (hast : Function.update w.world.asts live.uid
      ((w.world.asts live.uid).or (compilePolicy X live)) uid = some ast)
    -- only the entry of the policy that was served is touched
    by_cases huid : live.uid = uid
    · subst huid
      rw [Function.update_self] at hast
      cases hbefore : w.world.asts live.uid with
      | some held =>
          rw [hbefore, Option.some_or] at hast
          exact hfresh.tree hdropped ast (hbefore.trans hast)
      | none =>
          rw [hbefore, Option.none_or] at hast
          -- the entry was empty, so what it is filled with is what was served
          have hserved : live.kind = .expression source := by
            simpa [refillsUpdated, Event.translate, hbefore, hdropped, hown, servesSource]
              using hrefills
          rw [compilePolicy_expression hserved] at hast
          exact (Option.some.inj hast).symm
    · rw [Function.update_of_ne (Ne.symm huid)] at hast
      exact hfresh.tree hdropped ast hast
  · simpa only [performed_inl] using hfresh.cached

/-- After the update the policy is served with its new expression. -/
theorem Fresh.served (hfresh : Fresh uid source reference w log)
    (hinvalidated : Performed (.invalidateStorage uid) log) {found : Option Policy}
    {after : PolicyWorld X} (hlookup : w.lookup reference = (found, after)) :
    ∃ live, found = some live ∧ live.uid = uid ∧ live.kind = .expression source := by
  rcases PolicyWorld.lookup_cases hlookup with
    ⟨live, rfl, hfinds, ⟨hcached, _⟩ | ⟨hstored, _⟩⟩ | ⟨_, _, habsent⟩
  · have huid := hfresh.refers.only live (Or.inl hcached) hfinds
    exact ⟨live, rfl, huid, hfresh.cached hinvalidated live hcached huid⟩
  · have huid := hfresh.refers.only live (Or.inr hstored) hfinds
    exact ⟨live, rfl, huid, hfresh.stored (hfresh.order hinvalidated) live hstored huid⟩
  · obtain ⟨policy, hstored, hfinds⟩ := hfresh.refers.stored
    exact absurd hfinds (habsent policy hstored)

theorem Fresh.answer (hfresh : Fresh uid source reference w log)
    (hdropped : Performed (.invalidateAst uid) log) {live : Policy} (huid : live.uid = uid)
    (hkind : live.kind = .expression source) :
    (w.world.asts live.uid).or (compilePolicy X live) = some (X.compile source) := by
  subst huid
  rw [compilePolicy_expression hkind]
  cases htree : w.world.asts live.uid with
  | none => rfl
  | some ast =>
      rw [hfresh.tree hdropped ast htree]
      rfl

end Fresh

section Runs

variable {uid : Int} {source : String} {references : Nat → DataRef PolicyQuery}
  {reference : DataRef PolicyQuery} {start : PolicyWorld X}

theorem fresh_preserved :
    Preserved (Private.nothing (policyMachine X)) (policyTasks X uid source references) start
      fun w log => RefillsUpdated uid source log → Fresh uid source reference w log where
  exec := by
    intro who w after log event next hinvariant _ hpath _ hexec hrefills
    have hfresh := hinvariant hrefills.initial
    have hcall := policyCall_of_path hpath
    obtain ⟨op, res⟩ := event
    generalize hown : own who log = history at hcall
    cases hcall with
    | setExpression =>
        obtain rfl := policyExec_setExpression hexec
        exact hfresh.setExpression
    | invalidateAst =>
        obtain rfl := policyExec_invalidateAst hexec
        exact hfresh.invalidateAst
    | invalidateStorage =>
        obtain rfl := policyExec_invalidateStorage hexec
        exact hfresh.invalidateStorage (performed_of_own (hown ▸ List.mem_cons_self))
    | livePolicy key => exact hfresh.lookup (policyExec_livePolicy hexec)
    | optionallyGetWith key live => exact hfresh.optionallyGetWith hown hexec hrefills.last
  release := by
    intro who w log hinvariant hrefills
    obtain ⟨⟨hstored, honly⟩, horder, hdatabase, htree, hcached⟩ := hinvariant hrefills
    exact ⟨⟨hstored, honly⟩, horder, hdatabase, htree, hcached⟩
  moves := fun _ hmoves => hmoves.elim

variable {config : Config (policySig X) (PolicyWorld X) (PolicyReply X)}

/-- An operation after the update found a fresh policy. -/
theorem fresh_later
    (hthroughout : Throughout (fun past entry =>
      RefillsUpdated uid source past → Fresh uid source reference entry.before past) config.log)
    (hissued : Issued (policyMachine X) (policyTasks X uid source references) config.log)
    (hrefills : RefillsUpdated uid source config.log) {past rest : PolicyLog X} {who : Nat}
    (hlog : config.log = past ++ rest) (hstarts : own who past = []) {event : PolicyEvent X}
    (hmem : event ∈ own who config.log) :
    ∃ w more after, Fresh uid source reference w (past ++ more) ∧
      (policyMachine X).Exec who w event after := by
  rw [hlog, own_append, hstarts, List.nil_append] at hmem
  obtain ⟨⟨who, w, event⟩, hentry, rfl, rfl⟩ := mem_own.mp hmem
  obtain ⟨more, later, rfl⟩ := List.append_of_mem hentry
  rw [← List.append_assoc] at hlog
  have hfresh := hthroughout _ _ _ hlog
  obtain ⟨_, after, hexec⟩ := hissued _ _ _ hlog
  rw [hlog] at hrefills
  exact ⟨w, more, after, hfresh hrefills.initial, hexec⟩

theorem Performed.append {op : PolicyOp} {past : PolicyLog X} (hperformed : Performed op past)
    (more : PolicyLog X) : Performed op (past ++ more) := by
  obtain ⟨entry, hmem, hperforms⟩ := hperformed
  exact ⟨entry, List.mem_append_left _ hmem, hperforms⟩

/-- Neither the lookup nor the compiled policies of `get_ast` panic. -/
theorem avoids_getAst {caller : Nat} :
    Avoids (policyMachine X).MayPanic (policyTasks X uid source references (caller + 1)) := by
  have hlookup : ∀ key, ¬ (policyMachine X).MayPanic (.inl (.livePolicy key)) := by
    rintro key ⟨_, _, _, hpanic⟩
    cases hpanic
  have htree : ∀ key init, ¬ (policyMachine X).MayPanic (.inl (.optionallyGetWith key init)) := by
    rintro key init ⟨who, choice, w, hpanic⟩
    have hnone := Option.map_eq_none_iff.mp hpanic
    simp only [exec] at hnone
    split at hnone <;> cases hnone
  refine ⟨hlookup _, fun found => ?_⟩
  cases found with
  | none => trivial
  | some live => exact ⟨htree _ _, fun _ => trivial⟩

/-- No stale tree is answered as long as no stale tree is cached again. -/
theorem refilled_answersUpdated
    (hreach : (policyMachine X).Reachable (policyTasks X uid source references) start config)
    (hrefills : RefillsUpdated uid source config.log) :
    AnswersUpdated uid source references start config := by
  intro past rest caller ending hlog hupdated hstarts hrefers hproc
  have hstart : Fresh uid source (references caller) start [] := by
    constructor
    · exact hrefers
    all_goals
      rintro ⟨_, hnone, _⟩
      cases hnone
  obtain ⟨⟨_, hthroughout⟩, hissued, hlinked⟩ := Reachable.holds fresh_preserved.throughout
    ⟨fun _ => hstart, throughout_nil⟩ hreach
  have hperformed : own 0 past = [policyEvent (.setExpression uid source),
      policyEvent (.invalidateAst uid), policyEvent (.invalidateStorage uid)] := by
    rcases path_updatePolicy hupdated with ⟨_, _, hcall, _⟩ | ⟨hhistory, _⟩
    · cases hcall
    · exact hhistory
  have hdropped : Performed (.invalidateAst uid) past :=
    performed_of_own (by rw [hperformed]; simp)
  have hinvalidated : Performed (.invalidateStorage uid) past :=
    performed_of_own (by rw [hperformed]; simp)
  cases ending with
  | dropped => exact Or.inl rfl
  | panicked => exact absurd hproc (hreach.not_panicked avoids_getAst)
  | returned reply =>
      right
      obtain ⟨events, hevents, hown⟩ := trace_translate.mp (hlinked.trace hproc)
      obtain ⟨ast, hast, rfl⟩ := trace_map.mp hevents
      -- both operations of the call come after the update
      have hlater : ∀ event ∈ events, ∃ w more after,
          Fresh uid source (references caller) w (past ++ more) ∧
            (policyMachine X).Exec (caller + 1) w event.translate after := by
        intro event hmem
        refine fresh_later hthroughout hissued hrefills hlog hstarts ?_
        rw [hown]
        exact List.mem_map_of_mem hmem
      have hserved : ∀ found, ⟨.livePolicy (references caller), found⟩ ∈ events →
          ∃ live, found = some live ∧ live.uid = uid ∧ live.kind = .expression source := by
        intro found hmem
        obtain ⟨w, more, after, hfresh, hexec⟩ := hlater _ hmem
        exact hfresh.served (hinvalidated.append more) (policyExec_livePolicy hexec)
      rcases trace_getAst.mp hast with ⟨rfl, rfl⟩ | ⟨live, tree, rfl, rfl⟩
      · obtain ⟨_, hnone, _⟩ := hserved none (by simp)
        cases hnone
      · obtain ⟨_, hlive, huid, hkind⟩ := hserved (some live) (by simp)
        cases hlive
        obtain ⟨w, more, after, hfresh, hexec⟩ := hlater
          ⟨.optionallyGetWith live.uid (compilePolicy X live), tree⟩ (by simp)
        have htree : tree = some (X.compile source) :=
          (policyExec_optionallyGetWith hexec).1.trans
            (hfresh.answer (hdropped.append more) huid hkind)
        rw [htree, Option.join_some]

end Runs

section Samples

/-! The expression of policy 1 is updated from `true` to `false`. -/

def samplePolicies : PolicyWorld Externals.plain where
  world := World.boot _ [] [] [] [] []
  database := [⟨1, "members", .expression "true"⟩]
  cached := [⟨1, "members", .expression "true"⟩]

def samplePolicyTasks : Nat → Task (policySig Externals.plain) (PolicyReply Externals.plain) :=
  policyTasks Externals.plain 1 "false" fun _ => .uid 1

def samplePolicyRun (schedule : List (Act Choice)) :=
  (policyMachine Externals.plain).acts
    ⟨samplePolicies, fun who => .running (samplePolicyTasks who), []⟩ schedule

/-- A call fills the cache before the update, and another one reads it afterwards. -/
def quietUpdate : List (Act Choice) :=
  Act.awaits 1 .normal 1 ++ Act.awaits 0 .normal 2 ++ Act.awaits 2 .normal 1

/-- A call runs while `invalidate` waits for the live storage. -/
def overtakenUpdate : List (Act Choice) :=
  Act.awaits 0 .normal 1 ++ Act.awaits 1 .normal 1 ++ [.answer 0 .normal, .poll 0 fun _ => .normal]

def answeredTree : Proc (policySig Externals.plain) (PolicyReply Externals.plain) →
    Option (Option Bool)
  | .ended (.returned (.ast tree)) => some tree
  | _ => none

theorem eq_of_answeredTree {proc : Proc (policySig Externals.plain) (PolicyReply Externals.plain)}
    {tree : Option Bool} (hanswered : answeredTree proc = some tree) :
    proc = .ended (.returned (.ast tree)) := by
  unfold answeredTree at hanswered
  split at hanswered
  next =>
    cases hanswered
    rfl
  next => cases hanswered

theorem quietUpdate_run : (samplePolicyRun quietUpdate).map
    (fun config => (answeredTree (config.procs 1), answeredTree (config.procs 2),
      decide (RefillsUpdated 1 "false" config.log))) =
        some (some (some true), some (some false), true) := by
  decide +kernel

theorem overtakenUpdate_run : (samplePolicyRun overtakenUpdate).map
    (fun config => (config.procs 0, config.procs 2, own 2 config.log)) =
      some (.ended (.returned .invalidated), .running (samplePolicyTasks 2), []) := rfl

theorem overtakenUpdate_stale : (samplePolicyRun overtakenUpdate).bind (fun config =>
    ((policyMachine Externals.plain).acts config (Act.awaits 2 .normal 1)).map
      fun later => answeredTree (later.procs 2)) = some (some (some true)) := by
  decide +kernel

/-- An update that nothing overtakes. -/
theorem quiet_answersUpdated : ∃ config,
    (policyMachine Externals.plain).Reachable samplePolicyTasks samplePolicies config ∧
      answeredTree (config.procs 1) = some (some true) ∧
        answeredTree (config.procs 2) = some (some false) ∧
          AnswersUpdated 1 "false" (fun _ => .uid 1) samplePolicies config := by
  obtain ⟨config, hrun, hresult⟩ := Option.map_eq_some_iff.mp quietUpdate_run
  simp only [Prod.mk.injEq, decide_eq_true_eq] at hresult
  obtain ⟨hbefore, hafter, hrefills⟩ := hresult
  have hreach : (policyMachine Externals.plain).Reachable samplePolicyTasks samplePolicies config :=
    Reachable.acts .start quietUpdate hrun
  exact ⟨config, hreach, hbefore, hafter, refilled_answersUpdated hreach hrefills⟩

/-- After the update has returned, a call that has not begun is still answered the old tree. -/
theorem overtaken_answers_stale : ∃ middle config schedule,
    samplePolicyRun overtakenUpdate = some middle ∧
      middle.procs 0 = .ended (.returned .invalidated) ∧
        middle.procs 2 = .running (samplePolicyTasks 2) ∧
          (policyMachine Externals.plain).acts middle schedule = some config ∧
            config.procs 2 = .ended (.returned (.ast (Externals.plain.compile "true"))) ∧
              ¬ AnswersUpdated 1 "false" (fun _ => .uid 1) samplePolicies config := by
  obtain ⟨middle, hmiddle, hprocs⟩ := Option.map_eq_some_iff.mp overtakenUpdate_run
  have hstale := overtakenUpdate_stale
  rw [hmiddle, Option.bind_some] at hstale
  obtain ⟨config, hrun, hanswered⟩ := Option.map_eq_some_iff.mp hstale
  have hstale := eq_of_answeredTree hanswered
  simp only [Prod.mk.injEq] at hprocs
  obtain ⟨hreturned, hwaits, hstarts⟩ := hprocs
  refine ⟨middle, config, _, hmiddle, hreturned, hwaits, hrun, hstale, fun hanswers => ?_⟩
  obtain ⟨rest, hlog⟩ := acts_log hrun
  have hreach : (policyMachine Externals.plain).Reachable samplePolicyTasks samplePolicies middle :=
    Reachable.acts .start overtakenUpdate hmiddle
  have hlinked := (hreach.holds (viewed_preserved (P := .nothing _)) throughout_nil).2.2
  have hrefers : samplePolicies.Refers 1 (.uid 1) :=
    @PolicyWorld.refers_uid _ samplePolicies _ (List.mem_singleton_self _)
  rcases hanswers middle.log rest 1 _ hlog (hlinked.trace hreturned) hstarts hrefers hstale
    with hdropped | hupdated
  · cases hdropped
  · cases hupdated

end Samples

end Authust
