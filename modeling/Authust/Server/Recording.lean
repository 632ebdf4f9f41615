import Authust.Storage.Upstream
import Authust.Server.Grounding

/-! # The traversal records what its flow refers to

`reverse_lookup` visits the stage of each entry, the password stage of each identification
stage that it meets, and the policy of each binding. What it has recorded in the end holds
whatever the flow refers to, as the live storage has answered it.
-/

namespace Authust

open Coop Coop.Task Relation

variable {X : Externals}

/-- The queries created from a datum contain the one for its uid, and for no other uid. -/
structure Externals.CreatesUidQueries (X : Externals) : Prop where
  stages : ∀ (stage : Stage) (uid : Int), .uid uid ∈ X.stageQueries stage ↔ uid = stage.uid
  policies : ∀ (policy : Policy) (uid : Int), .uid uid ∈ X.policyQueries policy ↔ uid = policy.uid

theorem Externals.plain_createsUidQueries : Externals.plain.CreatesUidQueries where
  stages := by simp [Externals.plain]
  policies := by simp [Externals.plain]

/-- What has been found in the live storage is what upstream answers. -/
structure Upstream.Answered (U : Upstream) (history : History X) : Prop where
  flows : ∀ reference flow, ⟨.liveFlow reference, some flow⟩ ∈ history →
    U.flows reference = some flow
  stages : ∀ reference stage, ⟨.liveStage reference, some stage⟩ ∈ history →
    U.stages reference = some stage
  policies : ∀ reference policy, ⟨.livePolicy reference, some policy⟩ ∈ history →
    U.policies reference = some policy

/-- Every stage that can be reached from the reference is held. -/
def FreezedStorage.Covers (storage : FreezedStorage) (U : Upstream)
    (reference : DataRef StageQuery) : Prop :=
  ∀ target, ReflTransGen U.References reference target → storage.HoldsStage U target

section Traversal

variable {U : Upstream} {storage storage' : FreezedStorage} {history more : History X} {flow : Flow}

theorem Upstream.Answered.mono (hanswered : U.Answered history) (hsubset : more ⊆ history) :
    U.Answered more where
  flows := fun reference flow hmem => hanswered.flows reference flow (hsubset hmem)
  stages := fun reference stage hmem => hanswered.stages reference stage (hsubset hmem)
  policies := fun reference policy hmem => hanswered.policies reference policy (hsubset hmem)

theorem Upstream.Answered.left (hanswered : U.Answered (history ++ more)) : U.Answered history :=
  hanswered.mono (List.subset_append_left _ _)

theorem Upstream.Answered.right (hanswered : U.Answered (history ++ more)) : U.Answered more :=
  hanswered.mono (List.subset_append_right _ _)

/-- A stage is covered once it is held and what it refers to is covered. -/
theorem FreezedStorage.covers_of_password {reference : DataRef StageQuery} {stage : Stage}
    (hstage : U.stages reference = some stage) (hholds : storage.HoldsStage U reference)
    (hpassword : ∀ next, stage.password? = some next → storage.Covers U next) :
    storage.Covers U reference := by
  intro target hpath
  rcases hpath.cases_head with rfl | ⟨next, ⟨found, hfound, hreferences⟩, htail⟩
  · exact hholds
  · rw [hstage] at hfound
    cases hfound
    exact hpassword next hreferences target htail

theorem FreezedStorage.Extends.covers (hextends : Extends U storage storage') (hloaded : U.Loaded)
    {uid : Int} (hcovers : storage.Covers U (.uid uid)) : storage'.Covers U (.uid uid) := by
  intro target hpath
  have htarget := hcovers target hpath
  cases hpath with
  | refl => exact hextends.stages uid htarget
  | tail _ hlast =>
      obtain ⟨last, rfl⟩ := hloaded.references_byUid hlast
      exact hextends.stages last htarget

theorem trace_proxiedPolicy {reference : DataRef PolicyQuery}
    (htrace : Trace (proxiedPolicy X storage reference) history storage') :
    ∃ policy, history = [⟨.livePolicy reference, some policy⟩] ∧ storage' =
      { storage with
        policy := storage.policy.insertData policy.uid (X.policyQueries policy) policy } := by
  obtain ⟨found, tail, rfl, hrest⟩ := trace_perform_bind.mp htrace
  cases found with
  | none => exact absurd hrest not_trace_panic
  | some policy =>
      obtain ⟨rfl, rfl⟩ := trace_done.mp hrest
      exact ⟨policy, rfl, rfl⟩

theorem trace_proxiedStage {reference : DataRef StageQuery} {answer : FreezedStorage × Stage}
    (htrace : Trace (proxiedStage X storage reference) history answer) :
    ∃ stage, history = [⟨.liveStage reference, some stage⟩] ∧ answer =
      ({ storage with
        stage := storage.stage.insertData stage.uid (X.stageQueries stage) stage }, stage) := by
  obtain ⟨found, tail, rfl, hrest⟩ := trace_perform_bind.mp htrace
  cases found with
  | none => exact absurd hrest not_trace_panic
  | some stage =>
      obtain ⟨rfl, rfl⟩ := trace_done.mp hrest
      exact ⟨stage, rfl, rfl⟩

/-- The prompts are recorded apart from the stages and the policies. -/
theorem trace_reverseLookupPrompts {bindings : List PromptBinding}
    (htrace : Trace (reverseLookupPrompts X storage bindings) history storage') :
    storage'.stage = storage.stage ∧ storage'.policy = storage.policy := by
  induction bindings generalizing storage history with
  | nil =>
      obtain ⟨rfl, rfl⟩ := trace_done.mp htrace
      exact ⟨rfl, rfl⟩
  | cons binding rest ih =>
      obtain ⟨_, middle, _, hprompt, hrest, rfl⟩ := trace_bind.mp htrace
      obtain ⟨found, tail, rfl, hinserted⟩ := trace_perform_bind.mp hprompt
      cases found with
      | none => exact absurd hinserted not_trace_panic
      | some prompt =>
          obtain ⟨rfl, rfl⟩ := trace_done.mp hinserted
          have hsame := ih hrest
          exact hsame

theorem trace_proxiedFlow {reference : DataRef FlowQuery}
    (htrace : Trace (proxiedFlow X storage reference) history storage') :
    storage'.stage = storage.stage ∧ storage'.policy = storage.policy := by
  obtain ⟨found, tail, rfl, hrest⟩ := trace_perform_bind.mp htrace
  cases found with
  | none => exact absurd hrest not_trace_panic
  | some flow =>
      obtain ⟨rfl, rfl⟩ := trace_done.mp hrest
      exact ⟨rfl, rfl⟩

theorem FreezedStorage.Keyed.extends_of_eq (hkeyed : storage.Keyed)
    (hsame : storage'.stage = storage.stage ∧ storage'.policy = storage.policy) :
    Extends U storage storage' where
  keyed := ⟨hsame.1 ▸ hkeyed.stage, hsame.2 ▸ hkeyed.policy⟩
  stages := by
    rintro uid ⟨stage, hstage, hfound⟩
    exact ⟨stage, hstage, by rw [hsame.1, hfound]⟩
  policies := by
    rintro uid ⟨policy, hpolicy, hfound⟩
    exact ⟨policy, hpolicy, by rw [hsame.2, hfound]⟩

variable (hqueries : X.CreatesUidQueries) (hloaded : U.Loaded)

include hqueries hloaded

theorem extends_proxiedPolicy (hkeyed : storage.Keyed) {uid : Int}
    (htrace : Trace (proxiedPolicy X storage (.uid uid)) history storage')
    (hanswered : U.Answered history) :
    FreezedStorage.Extends U storage storage' ∧ storage'.HoldsPolicy U (.uid uid) := by
  obtain ⟨policy, rfl, rfl⟩ := trace_proxiedPolicy htrace
  have hpolicy := hanswered.policies _ _ List.mem_cons_self
  obtain rfl := hloaded.policy_uid hpolicy
  exact hkeyed.insertPolicy (hqueries.policies policy) hpolicy

theorem extends_proxiedStage (hkeyed : storage.Keyed) {uid : Int} {answer : FreezedStorage × Stage}
    (htrace : Trace (proxiedStage X storage (.uid uid)) history answer)
    (hanswered : U.Answered history) :
    FreezedStorage.Extends U storage answer.1 ∧ answer.1.HoldsStage U (.uid uid) ∧
      U.stages (.uid uid) = some answer.2 := by
  obtain ⟨stage, rfl, rfl⟩ := trace_proxiedStage htrace
  have hstage := hanswered.stages _ _ List.mem_cons_self
  obtain rfl := hloaded.stage_uid hstage
  obtain ⟨hextends, hholds⟩ := hkeyed.insertStage (hqueries.stages stage) hstage
  exact ⟨hextends, hholds, hstage⟩

/-- Following the password stages of a stage that is held covers it. -/
theorem extends_reverseLookupStage {depth : Nat} (hkeyed : storage.Keyed) {uid : Int}
    {stage : Stage} (hstage : U.stages (.uid uid) = some stage)
    (hholds : storage.HoldsStage U (.uid uid))
    (htrace : Trace (reverseLookupStage X depth storage stage) history storage')
    (hanswered : U.Answered history) :
    FreezedStorage.Extends U storage storage' ∧ storage'.Covers U (.uid uid) := by
  induction depth generalizing storage uid stage history with
  | zero => exact absurd htrace not_trace_panic
  | succ depth ih =>
      -- a stage that refers to none is covered once it is held
      have hleaf : FreezedStorage.Extends U storage storage' → stage.password? = none →
          storage'.Covers U (.uid uid) := by
        intro hextends hpassword
        apply FreezedStorage.covers_of_password hstage (hextends.stages uid hholds)
        intro next hnext
        rw [hpassword] at hnext
        cases hnext
      unfold reverseLookupStage at htrace
      split at htrace
      next bindings hkind =>
        have hextends : FreezedStorage.Extends U storage storage' :=
          hkeyed.extends_of_eq (trace_reverseLookupPrompts htrace)
        exact ⟨hextends, hleaf hextends (by simp [Stage.password?, hkind])⟩
      next password userFields hkind =>
        have hpassword : stage.password? = some password := by simp [Stage.password?, hkind]
        obtain ⟨target, rfl⟩ := hloaded.references_byUid ⟨stage, hstage, hpassword⟩
        obtain ⟨first, ⟨middle, found⟩, second, hproxied, hrest, rfl⟩ := trace_bind.mp htrace
        obtain ⟨hfirst, hheld, hfound⟩ :=
          extends_proxiedStage hqueries hloaded hkeyed hproxied hanswered.left
        -- the password stage is held by now, so the rest of the walk covers what it refers to
        obtain ⟨hsecond, hcovers⟩ := ih hfirst.keyed hfound hheld hrest hanswered.right
        have hextends := hfirst.trans hsecond
        refine ⟨hextends, ?_⟩
        apply FreezedStorage.covers_of_password hstage (hextends.stages uid hholds)
        intro next hnext
        rw [hpassword] at hnext
        cases hnext
        exact hcovers
      next hprompt hidentification =>
        obtain ⟨rfl, rfl⟩ := trace_done.mp htrace
        refine ⟨hkeyed.extends, hleaf hkeyed.extends ?_⟩
        unfold Stage.password?
        split
        next password userFields hkind =>
          cases password with
          | none => rfl
          | some password => exact absurd hkind (hidentification password userFields)
        next => rfl

theorem extends_reverseLookupBindings {bindings : List FlowBinding} (hkeyed : storage.Keyed)
    (hbyUid : ∀ binding ∈ bindings, ∀ reference, binding.kind = .policy reference →
      ∃ uid, reference = .uid uid)
    (htrace : Trace (reverseLookupBindings X storage bindings) history storage')
    (hanswered : U.Answered history) :
    FreezedStorage.Extends U storage storage' ∧ ∀ binding ∈ bindings, ∀ reference,
      binding.kind = .policy reference → storage'.HoldsPolicy U reference := by
  induction bindings generalizing storage history with
  | nil =>
      obtain ⟨rfl, rfl⟩ := trace_done.mp htrace
      exact ⟨hkeyed.extends, fun _ hmem => by cases hmem⟩
  | cons binding rest ih =>
      have hrestUid := fun other hmem => hbyUid other (List.mem_cons_of_mem _ hmem)
      unfold reverseLookupBindings at htrace
      split at htrace
      next reference hkind =>
        obtain ⟨uid, rfl⟩ := hbyUid binding List.mem_cons_self reference hkind
        obtain ⟨first, middle, second, hproxied, hrest, rfl⟩ := trace_bind.mp htrace
        obtain ⟨hfirst, hheld⟩ :=
          extends_proxiedPolicy hqueries hloaded hkeyed hproxied hanswered.left
        obtain ⟨hsecond, hholds⟩ := ih hfirst.keyed hrestUid hrest hanswered.right
        refine ⟨hfirst.trans hsecond, ?_⟩
        intro other hmem reference hother
        rcases List.mem_cons.mp hmem with rfl | hmem
        · rw [hkind] at hother
          cases hother
          exact hsecond.policies uid hheld
        · exact hholds other hmem reference hother
      next hnot =>
        obtain ⟨hextends, hholds⟩ := ih hkeyed hrestUid htrace hanswered
        refine ⟨hextends, ?_⟩
        intro other hmem reference hother
        rcases List.mem_cons.mp hmem with rfl | hmem
        · exact absurd hother (hnot reference)
        · exact hholds other hmem reference hother

theorem extends_reverseLookupEntries {entries : List FlowEntry} (hkeyed : storage.Keyed)
    (hstages : ∀ entry ∈ entries, ∃ uid, entry.stage = .uid uid)
    (hpolicies : ∀ entry ∈ entries, ∀ binding ∈ entry.bindings, ∀ reference,
      binding.kind = .policy reference → ∃ uid, reference = .uid uid)
    (htrace : Trace (reverseLookupEntries X storage entries) history storage')
    (hanswered : U.Answered history) :
    FreezedStorage.Extends U storage storage' ∧
      (∀ entry ∈ entries, storage'.Covers U entry.stage) ∧
        ∀ entry ∈ entries, ∀ binding ∈ entry.bindings, ∀ reference,
          binding.kind = .policy reference → storage'.HoldsPolicy U reference := by
  induction entries generalizing storage history with
  | nil =>
      obtain ⟨rfl, rfl⟩ := trace_done.mp htrace
      refine ⟨hkeyed.extends, ?_, ?_⟩
      · intro entry hmem
        cases hmem
      · intro entry hmem
        cases hmem
  | cons entry rest ih =>
      obtain ⟨_, bound, _, hbinding, hentry, rfl⟩ := trace_bind.mp htrace
      obtain ⟨_, ⟨looked, stage⟩, _, hlooking, hstaged, rfl⟩ := trace_bind.mp hentry
      obtain ⟨_, followed, _, hfollowing, hmore, rfl⟩ := trace_bind.mp hstaged
      obtain ⟨hbound, hheld⟩ := extends_reverseLookupBindings hqueries hloaded hkeyed
        (hpolicies entry List.mem_cons_self) hbinding hanswered.left
      obtain ⟨uid, huid⟩ := hstages entry List.mem_cons_self
      rw [huid] at hlooking
      obtain ⟨hlooked, hholds, hstage⟩ :=
        extends_proxiedStage hqueries hloaded hbound.keyed hlooking hanswered.right.left
      obtain ⟨hfollowed, hcovers⟩ :=
        extends_reverseLookupStage hqueries hloaded hlooked.keyed hstage
        hholds hfollowing hanswered.right.right.left
      obtain ⟨hrest, hrestCovers, hrestHeld⟩ := ih hfollowed.keyed
        (fun other hmem => hstages other (List.mem_cons_of_mem _ hmem))
        (fun other hmem => hpolicies other (List.mem_cons_of_mem _ hmem)) hmore
        hanswered.right.right.right
      have hafter := (hlooked.trans hfollowed).trans hrest
      refine ⟨hbound.trans hafter, ?_, ?_⟩
      · intro other hmem
        rcases List.mem_cons.mp hmem with rfl | hmem
        · rw [huid]
          exact hrest.covers hloaded hcovers
        · exact hrestCovers other hmem
      · intro other hmem binding hmember reference hkind
        rcases List.mem_cons.mp hmem with rfl | hmem
        · obtain ⟨target, rfl⟩ := hpolicies other List.mem_cons_self binding hmember reference hkind
          exact hafter.policies target (hheld binding hmember _ hkind)
        · exact hrestHeld other hmem binding hmember reference hkind

/-- A flow that upstream has answered is recorded with all that it refers to. -/
theorem complete_of_reverseLookupFlow (hbyUid : flow.ByUid)
    (htrace : Trace (reverseLookupFlow X flow) history storage) (hanswered : U.Answered history) :
    storage.Complete U flow := by
  obtain ⟨_, initial, _, hproxied, hrest, rfl⟩ := trace_bind.mp htrace
  obtain ⟨_, bound, _, hbinding, hentries, rfl⟩ := trace_bind.mp hrest
  have hinitial : FreezedStorage.Extends U .empty initial :=
    FreezedStorage.keyed_empty.extends_of_eq (trace_proxiedFlow hproxied)
  have hrefers : ∀ {binding : FlowBinding} {reference : DataRef PolicyQuery},
      binding ∈ flow.bindings ++ flow.entries.flatMap FlowEntry.bindings →
        binding.kind = .policy reference → ∃ uid, reference = .uid uid :=
    fun hmem hkind => hbyUid.policies _ ⟨_, hmem, hkind⟩
  obtain ⟨hbound, hheld⟩ := extends_reverseLookupBindings hqueries hloaded hinitial.keyed
    (fun other hmem reference hkind => hrefers (List.mem_append_left _ hmem) hkind) hbinding
    hanswered.right.left
  obtain ⟨hafter, hcovers, hentriesHeld⟩ := extends_reverseLookupEntries hqueries hloaded
    hbound.keyed hbyUid.stages (fun entry hentry other hmem reference hkind =>
      hrefers (List.mem_append_right _ (List.mem_flatMap.mpr ⟨entry, hentry, hmem⟩)) hkind)
    hentries hanswered.right.right
  constructor
  · rintro reference ⟨entry, hentry, hpath⟩
    exact hcovers entry hentry reference hpath
  · rintro reference ⟨other, hmem, hkind⟩
    rcases List.mem_append.mp hmem with hmem | hmem
    · obtain ⟨uid, rfl⟩ := hrefers (List.mem_append_left _ hmem) hkind
      exact hafter.policies uid (hheld other hmem _ hkind)
    · obtain ⟨entry, hentry, hmem⟩ := List.mem_flatMap.mp hmem
      exact hentriesHeld entry hentry other hmem reference hkind

end Traversal

end Authust
