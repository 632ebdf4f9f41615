import Mathlib.Logic.Relation
import Authust.Storage.Frozen
import Authust.Storage.StageRows

/-! # What a flow refers to

The live storage as it stands at one time, and the stages and policies that a flow reaches
in it: the stages of its entries, the password stage of each stage that is reached, and the
policies of all bindings.
-/

namespace Authust

open Postgres Relation

/-- What the live storage answers. -/
structure Upstream where
  flows : FlowQuery → Option Flow
  stages : StageQuery → Option Stage
  policies : PolicyQuery → Option Policy
  prompts : PromptQuery → Option Prompt

namespace Upstream

/-- The storage manager logs a failure and answers `None`. Where a row panics there is nothing to
answer either. -/
def ofClient (client : Client) (prompts : PromptQuery → Option Prompt) : Upstream where
  flows := fun query => (findFlow client query).toOption.join
  stages := fun query => (findStage client query).toOption.join
  policies := fun query => (findPolicy client query).toOption.join
  prompts := prompts

/-- What is answered has been loaded from the database. -/
structure LoadedFrom (U : Upstream) (db : Database) : Prop where
  flows : ∀ query flow, U.flows query = some flow →
    ∃ client : Client, client.Serves db ∧ findFlow client query = .ok (some flow)
  stages : ∀ query stage, U.stages query = some stage →
    ∃ client : Client, client.Serves db ∧ findStage client query = .ok (some stage)
  policies : ∀ query policy, U.policies query = some policy →
    ∃ client : Client, client.Serves db ∧ findPolicy client query = .ok (some policy)

/-- What is answered has been loaded, each datum when the database was in some state. -/
structure Loaded (U : Upstream) : Prop where
  flows : ∀ query flow, U.flows query = some flow →
    ∃ (db : Database) (client : Client), client.Serves db ∧ findFlow client query = .ok (some flow)
  stages : ∀ query stage, U.stages query = some stage →
    ∃ (db : Database) (client : Client), client.Serves db ∧
      findStage client query = .ok (some stage)
  policies : ∀ query policy, U.policies query = some policy →
    ∃ (db : Database) (client : Client),
      client.Serves db ∧ findPolicy client query = .ok (some policy)

/-- The stage of the first reference has the second for its password stage. -/
def References (U : Upstream) (reference password : DataRef StageQuery) : Prop :=
  ∃ stage, U.stages reference = some stage ∧ stage.password? = some password

/-- The stages of the entries, and the password stages from there on. -/
def Reaches (U : Upstream) (flow : Flow) (reference : DataRef StageQuery) : Prop :=
  ∃ entry ∈ flow.entries, ReflTransGen U.References entry.stage reference

variable {U : Upstream}

theorem LoadedFrom.loaded {db : Database} (hloaded : U.LoadedFrom db) : U.Loaded where
  flows := fun query flow hflow => ⟨db, hloaded.flows query flow hflow⟩
  stages := fun query stage hstage => ⟨db, hloaded.stages query stage hstage⟩
  policies := fun query policy hpolicy => ⟨db, hloaded.policies query policy hpolicy⟩

theorem ofClient_loadedFrom {client : Client} {db : Database} (hserves : client.Serves db)
    (prompts : PromptQuery → Option Prompt) : (ofClient client prompts).LoadedFrom db := by
  have hok : ∀ {D : Type} {result : Except LoadFailure (Option D)} {datum : D},
      result.toOption.join = some datum → result = .ok (some datum) := by
    intro D result datum hresult
    match result, hresult with
    | .ok (some _), hresult => cases hresult; rfl
  exact ⟨fun _ _ hflow => ⟨client, hserves, hok hflow⟩, fun _ _ hstage =>
    ⟨client, hserves, hok hstage⟩, fun _ _ hpolicy => ⟨client, hserves, hok hpolicy⟩⟩

theorem Loaded.stage_uid (hloaded : U.Loaded) {uid : Int} {stage : Stage}
    (hstage : U.stages (.uid uid) = some stage) : stage.uid = uid := by
  obtain ⟨db, client, hserves, hfound⟩ := hloaded.stages _ _ hstage
  exact of_decide_eq_true (findStage_finds hserves hfound)

theorem Loaded.policy_uid (hloaded : U.Loaded) {uid : Int} {policy : Policy}
    (hpolicy : U.policies (.uid uid) = some policy) : policy.uid = uid := by
  obtain ⟨db, client, hserves, hfound⟩ := hloaded.policies _ _ hpolicy
  exact of_decide_eq_true (findPolicy_finds hserves hfound)

theorem Loaded.flow_byUid (hloaded : U.Loaded) {query : FlowQuery} {flow : Flow}
    (hflow : U.flows query = some flow) : flow.ByUid := by
  obtain ⟨db, client, hserves, hfound⟩ := hloaded.flows _ _ hflow
  exact findFlow_byUid hserves hfound

theorem Loaded.references_byUid (hloaded : U.Loaded) {reference password : DataRef StageQuery}
    (hreferences : U.References reference password) : ∃ uid, password = .uid uid := by
  obtain ⟨stage, hstage, hpassword⟩ := hreferences
  obtain ⟨db, client, hserves, hfound⟩ := hloaded.stages _ _ hstage
  exact findStage_byUid hserves hfound password hpassword

theorem Reaches.entry {flow : Flow} {entry : FlowEntry} (hentry : entry ∈ flow.entries) :
    U.Reaches flow entry.stage :=
  ⟨entry, hentry, .refl⟩

theorem Reaches.password {flow : Flow} {reference password : DataRef StageQuery}
    (hreaches : U.Reaches flow reference) (hreferences : U.References reference password) :
    U.Reaches flow password := by
  obtain ⟨entry, hentry, hpath⟩ := hreaches
  exact ⟨entry, hentry, hpath.tail hreferences⟩

/-- What a loaded flow reaches is referred to by its uid. -/
theorem Reaches.byUid {flow : Flow} {reference : DataRef StageQuery}
    (hreaches : U.Reaches flow reference) (hloaded : U.Loaded) (hbyUid : flow.ByUid) :
    ∃ uid, reference = .uid uid := by
  obtain ⟨entry, hentry, hpath⟩ := hreaches
  cases hpath with
  | refl => exact hbyUid.stages entry hentry
  | tail _ hlast => exact hloaded.references_byUid hlast

end Upstream

/-- The uid queries that are recorded lead to the datum of that uid. -/
structure FreezedStorage.Keyed (storage : FreezedStorage) : Prop where
  stage : storage.stage.Keyed .uid
  policy : storage.policy.Keyed .uid

namespace FreezedStorage

theorem keyed_empty : empty.Keyed where
  stage := ExportedData.keyed_empty
  policy := ExportedData.keyed_empty

variable {U : Upstream} {storage storage' storage'' : FreezedStorage} {flow : Flow}

/-- The stage that upstream answers is found in the frozen storage. -/
def HoldsStage (storage : FreezedStorage) (U : Upstream) (reference : DataRef StageQuery) : Prop :=
  ∃ stage, U.stages reference = some stage ∧
    storage.stage.findOptional reference = some (some stage)

def HoldsPolicy (storage : FreezedStorage) (U : Upstream)
    (reference : DataRef PolicyQuery) : Prop :=
  ∃ policy, U.policies reference = some policy ∧
    storage.policy.findOptional reference = some (some policy)

/-- The frozen storage has whatever the flow refers to, as upstream answers it. -/
structure Complete (storage : FreezedStorage) (U : Upstream) (flow : Flow) : Prop where
  stages : ∀ reference, U.Reaches flow reference → storage.HoldsStage U reference
  policies : ∀ reference, flow.RefersTo reference → storage.HoldsPolicy U reference

/-- What was recorded stays, and each uid still leads to its own datum. -/
structure Extends (U : Upstream) (storage storage' : FreezedStorage) : Prop where
  keyed : storage'.Keyed
  stages : ∀ uid, storage.HoldsStage U (.uid uid) → storage'.HoldsStage U (.uid uid)
  policies : ∀ uid, storage.HoldsPolicy U (.uid uid) → storage'.HoldsPolicy U (.uid uid)

theorem Keyed.extends (hkeyed : storage.Keyed) : Extends U storage storage where
  keyed := hkeyed
  stages := fun _ hholds => hholds
  policies := fun _ hholds => hholds

theorem Extends.trans (hfirst : Extends U storage storage')
    (hsecond : Extends U storage' storage'') : Extends U storage storage'' where
  keyed := hsecond.keyed
  stages := fun uid hholds => hsecond.stages uid (hfirst.stages uid hholds)
  policies := fun uid hholds => hsecond.policies uid (hfirst.policies uid hholds)

/-- Recording a stage that upstream answers. -/
theorem Keyed.insertStage (hkeyed : storage.Keyed) {stage : Stage} {queries : List StageQuery}
    (hqueries : ∀ uid, .uid uid ∈ queries ↔ uid = stage.uid)
    (hstage : U.stages (.uid stage.uid) = some stage) :
    Extends U storage { storage with stage := storage.stage.insertData stage.uid queries stage } ∧
      HoldsStage { storage with stage := storage.stage.insertData stage.uid queries stage } U
        (.uid stage.uid) := by
  have hself : HoldsStage
      { storage with stage := storage.stage.insertData stage.uid queries stage } U
      (.uid stage.uid) :=
    ⟨stage, hstage, ExportedData.findOptional_insertData_self hqueries⟩
  refine ⟨⟨⟨hkeyed.stage.insertData hqueries, hkeyed.policy⟩, ?_, fun _ hholds => hholds⟩, hself⟩
  rintro uid ⟨held, hheld, hfound⟩
  by_cases huid : uid = stage.uid
  · rw [huid]
    exact hself
  · exact ⟨held, hheld, (hkeyed.stage.findOptional_insertData_of_ne hqueries huid).trans hfound⟩

/-- Recording a policy that upstream answers. -/
theorem Keyed.insertPolicy (hkeyed : storage.Keyed) {policy : Policy} {queries : List PolicyQuery}
    (hqueries : ∀ uid, .uid uid ∈ queries ↔ uid = policy.uid)
    (hpolicy : U.policies (.uid policy.uid) = some policy) :
    Extends U storage
      { storage with policy := storage.policy.insertData policy.uid queries policy } ∧
      HoldsPolicy { storage with policy := storage.policy.insertData policy.uid queries policy } U
        (.uid policy.uid) := by
  have hself : HoldsPolicy
      { storage with policy := storage.policy.insertData policy.uid queries policy } U
        (.uid policy.uid) :=
    ⟨policy, hpolicy, ExportedData.findOptional_insertData_self hqueries⟩
  refine ⟨⟨⟨hkeyed.stage, hkeyed.policy.insertData hqueries⟩, fun _ hholds => hholds, ?_⟩, hself⟩
  rintro uid ⟨held, hheld, hfound⟩
  by_cases huid : uid = policy.uid
  · rw [huid]
    exact hself
  · exact ⟨held, hheld, (hkeyed.policy.findOptional_insertData_of_ne hqueries huid).trans hfound⟩

end FreezedStorage

end Authust
