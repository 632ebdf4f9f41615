import Authust.Storage.Traversal
import Authust.Server.Snapshot

/-! # Starting a flow

The recursion of `reverse_lookup` follows references through the storage. With a deep enough
stack `start` returns where everything that the flow refers to is found and no stage is
reached again from itself; a stage that is its own password stage exhausts every stack.
-/

namespace Authust

open Coop Coop.Task Coop.Machine Relation

/-- With a deep enough stack, `start` returns when nothing disturbs it. -/
def StartReturns (U : Upstream) (key : FlowKey) : Prop :=
  ∃ limit, ∀ (X : Externals) (w : World X) (who : Nat), limit ≤ X.recursionLimit → w.upstream = U →
    ((server X).alone who .normal (start X key) w).isSome

variable {X : Externals}

/-- The task returns when it runs by itself. -/
def Returns {α : Type} (w : World X) (who : Nat) (task : Task (sig X) α) : Prop :=
  ((server X).alone who .normal task w).isSome

section Traversing

variable {α β : Type} {w : World X} {who : Nat} {storage : FreezedStorage}

theorem returns_done {value : α} : Returns w who (done value : Task (sig X) α) :=
  rfl

theorem not_returns_panic {message : String} :
    ¬ Returns w who (panic message : Task (sig X) α) := by
  simp [Returns, alone_panic]

theorem not_returns_panic_bind {message : String} {f : α → Task (sig X) β} :
    ¬ Returns w who ((panic message : Task (sig X) α) >>= f) := by
  simp [Returns, alone_panic_bind]

theorem returns_op_bind {op : Op X} {f : op.Res → Task (sig X) α} {answer : op.Res}
    (hexec : exec X who op .normal w = some (answer, w)) :
    Returns w who (Authust.op op >>= f) ↔ Returns w who (f answer) := by
  rw [Returns, alone_op_bind hexec, Returns]

/-- A traversal of the live storage leaves the state as it is. -/
theorem alone_recording {task : Task (sig X) α} (hrecording : Recording task) {value : α}
    {after : World X} (halone : (server X).alone who .normal task w = some (value, after)) :
    after = w := by
  induction task generalizing w with
  | done result =>
      cases halone
      rfl
  | call op next ih =>
      obtain ⟨⟨res, middle⟩, hexec, hrest⟩ := Option.bind_eq_some_iff.mp halone
      have hrecords : op.records = true := by simpa using hrecording.1
      have hsame : middle = w := by
        cases op with
        | liveFlow | liveStage | livePolicy | livePrompt => cases hexec; rfl
        | panic message => cases hexec
        | _ => cases hrecords
      subst hsame
      exact ih res (hrecording.2 res) hrest

theorem returns_bind {task : Task (sig X) α} (hrecording : Recording task)
    {f : α → Task (sig X) β} : Returns w who (task >>= f) ↔
      ∃ value, (server X).alone who .normal task w = some (value, w) ∧ Returns w who (f value) := by
  unfold Returns
  rw [alone_bind]
  constructor
  · intro hreturns
    obtain ⟨result, hresult⟩ := Option.isSome_iff_exists.mp hreturns
    obtain ⟨⟨value, after⟩, halone, hrest⟩ := Option.bind_eq_some_iff.mp hresult
    obtain rfl := alone_recording hrecording halone
    exact ⟨value, halone, by simp [hrest]⟩
  · rintro ⟨value, halone, hrest⟩
    simpa [halone] using hrest

/-- A first part whose value the second part's success does not depend on. -/
theorem returns_bind_of_forall {task : Task (sig X) α} (hrecording : Recording task)
    {f : α → Task (sig X) β} {condition : Prop}
    (hrest : ∀ value, Returns w who (f value) ↔ condition) :
    Returns w who (task >>= f) ↔ Returns w who task ∧ condition := by
  rw [returns_bind hrecording]
  constructor
  · rintro ⟨value, halone, hreturns⟩
    exact ⟨by simp [Returns, halone], (hrest value).mp hreturns⟩
  · rintro ⟨hreturns, hcondition⟩
    obtain ⟨⟨value, after⟩, halone⟩ := Option.isSome_iff_exists.mp hreturns
    obtain rfl := alone_recording hrecording halone
    exact ⟨value, halone, (hrest value).mpr hcondition⟩

theorem returns_proxiedPolicy {reference : DataRef PolicyQuery} :
    Returns w who (proxiedPolicy X storage reference) ↔ (w.policies reference).isSome := by
  rw [proxiedPolicy, returns_op_bind rfl]
  cases hfound : w.policies reference with
  | none => simpa [Choice.storage, hfound] using not_returns_panic
  | some found => simp [Choice.storage, returns_done]

theorem returns_proxiedPrompt {reference : DataRef PromptQuery} :
    Returns w who (proxiedPrompt X storage reference) ↔ (w.prompts reference).isSome := by
  rw [proxiedPrompt, returns_op_bind rfl]
  cases hfound : w.prompts reference with
  | none => simpa [Choice.storage, hfound] using not_returns_panic
  | some found => simp [Choice.storage, returns_done]

theorem returns_proxiedFlow {reference : DataRef FlowQuery} :
    Returns w who (proxiedFlow X storage reference) ↔ (w.flows reference).isSome := by
  rw [proxiedFlow, returns_op_bind rfl]
  cases hfound : w.flows reference with
  | none => simpa [Choice.storage, hfound] using not_returns_panic
  | some found => simp [Choice.storage, returns_done]

theorem returns_proxiedStage_bind {reference : DataRef StageQuery}
    {f : FreezedStorage × Stage → Task (sig X) β} {condition : Stage → Prop}
    (hrest : ∀ storage stage, Returns w who (f (storage, stage)) ↔ condition stage) :
    Returns w who (proxiedStage X storage reference >>= f) ↔
      ∃ stage, w.stages reference = some stage ∧ condition stage := by
  rw [proxiedStage, bind_assoc, returns_op_bind rfl]
  cases hfound : w.stages reference with
  | none => simpa [Choice.storage] using not_returns_panic_bind
  | some stage => simp [Choice.storage, hrest]

theorem returns_reverseLookupPrompts {bindings : List PromptBinding} :
    Returns w who (reverseLookupPrompts X storage bindings) ↔
      ∀ binding ∈ bindings, (w.prompts binding.prompt).isSome := by
  induction bindings generalizing storage with
  | nil => simp [reverseLookupPrompts, returns_done]
  | cons binding rest ih =>
      rw [reverseLookupPrompts, returns_bind_of_forall recording_proxiedPrompt fun _ => ih,
        returns_proxiedPrompt, List.forall_mem_cons]

/-- Following the password stages within a depth. -/
theorem returns_reverseLookupStage {depth : Nat} {stage : Stage} :
    Returns w who (reverseLookupStage X depth storage stage) ↔ w.upstream.Follows depth stage := by
  induction depth generalizing storage stage with
  | zero => simpa [reverseLookupStage, Upstream.Follows] using not_returns_panic
  | succ depth ih =>
      unfold reverseLookupStage Upstream.Follows
      cases stage.kind with
      | prompt bindings => exact returns_reverseLookupPrompts
      | identification password userFields =>
          cases password with
          | none => simp [returns_done]
          | some password => exact returns_proxiedStage_bind fun _ _ => ih
      | _ => simp [returns_done]

theorem returns_reverseLookupBindings {bindings : List FlowBinding} :
    Returns w who (reverseLookupBindings X storage bindings) ↔ ∀ binding ∈ bindings,
      ∀ reference, binding.kind = .policy reference → (w.policies reference).isSome := by
  induction bindings generalizing storage with
  | nil => simp [reverseLookupBindings, returns_done]
  | cons binding rest ih =>
      unfold reverseLookupBindings
      split
      next reference hkind =>
        rw [returns_bind_of_forall recording_proxiedPolicy fun _ => ih, returns_proxiedPolicy,
          List.forall_mem_cons]
        simp [hkind]
      next hnot =>
        have hnone : ∀ reference,
            binding.kind = .policy reference → (w.policies reference).isSome :=
          fun reference hkind => (hnot reference hkind).elim
        rw [ih, List.forall_mem_cons, and_iff_right hnone]

theorem returns_staged_bind {reference : DataRef StageQuery}
    {rest : FreezedStorage → Task (sig X) FreezedStorage} {condition : Prop}
    (hrest : ∀ storage, Returns w who (rest storage) ↔ condition) :
    Returns w who (do
        let (storage, stage) ← proxiedStage X storage reference
        let storage ← reverseLookupStage X X.recursionLimit storage stage
        rest storage) ↔
      ∃ stage, w.stages reference = some stage ∧
        (w.upstream.Follows X.recursionLimit stage ∧ condition) := by
  apply returns_proxiedStage_bind
  intro _ _
  rw [returns_bind_of_forall recording_reverseLookupStage hrest, returns_reverseLookupStage]

theorem returns_reverseLookupEntries {entries : List FlowEntry} :
    Returns w who (reverseLookupEntries X storage entries) ↔ ∀ entry ∈ entries,
      (∀ binding ∈ entry.bindings, ∀ reference, binding.kind = .policy reference →
        (w.policies reference).isSome) ∧
          ∃ stage, w.stages entry.stage = some stage ∧
            w.upstream.Follows X.recursionLimit stage := by
  induction entries generalizing storage with
  | nil => simp [reverseLookupEntries, returns_done]
  | cons entry rest ih =>
      rw [reverseLookupEntries, returns_bind_of_forall recording_reverseLookupBindings fun _ =>
        returns_staged_bind fun _ => ih, returns_reverseLookupBindings, List.forall_mem_cons]
      grind

/-- The traversal of a flow ends where everything is found within the depth of the stack. -/
theorem returns_reverseLookupFlow {flow : Flow} :
    Returns w who (reverseLookupFlow X flow) ↔ w.upstream.Visits X.recursionLimit flow := by
  have hbound : ∀ storage, Returns w who (do
      let storage ← reverseLookupBindings X storage flow.bindings
      reverseLookupEntries X storage flow.entries) ↔ _ := fun storage =>
    (returns_bind_of_forall recording_reverseLookupBindings fun _ =>
      returns_reverseLookupEntries).trans (and_congr_left' returns_reverseLookupBindings)
  rw [reverseLookupFlow, returns_bind_of_forall recording_proxiedFlow hbound, returns_proxiedFlow]
  constructor
  · rintro ⟨hself, hbindings, hentries⟩
    refine ⟨hself, ?_, fun entry hentry => (hentries entry hentry).2⟩
    rintro reference ⟨binding, hmem, hkind⟩
    rcases List.mem_append.mp hmem with hmem | hmem
    · exact hbindings binding hmem reference hkind
    · obtain ⟨entry, hentry, hmem⟩ := List.mem_flatMap.mp hmem
      exact (hentries entry hentry).1 binding hmem reference hkind
  · intro hvisits
    refine ⟨hvisits.self, fun binding hmem reference hkind => ?_, fun entry hentry => ⟨?_, ?_⟩⟩
    · exact hvisits.policies reference ⟨binding, List.mem_append_left _ hmem, hkind⟩
    · intro binding hmem reference hkind
      have hbinding := List.mem_flatMap.mpr ⟨entry, hentry, hmem⟩
      exact hvisits.policies reference ⟨binding, List.mem_append_right _ hbinding, hkind⟩
    · exact hvisits.stages entry hentry

theorem returns_start {key : FlowKey} :
    Returns w who (start X key) ↔ ∀ flow, w.upstream.flows key.flow = some flow →
      flow.entries ≠ [] → w.upstream.Visits X.recursionLimit flow := by
  have hinsert : ∀ flow storage, Returns w who (do
      let now ← op .now
      let e ← op (.insertExecution (.new key flow storage now))
      pure (some e)) ↔ True := by
    intro flow storage
    rw [returns_op_bind rfl, iff_true]
    rfl
  rw [start, returns_op_bind rfl]
  cases hflow : w.upstream.flows key.flow with
  | none =>
      have hnone : w.flows key.flow = none := hflow
      simp [Choice.storage, hnone, returns_done]
  | some flow =>
      have hsome : w.flows key.flow = some flow := hflow
      by_cases hentries : flow.entries = []
      · simp [Choice.storage, hsome, hentries, returns_done]
      · simp only [Choice.storage, hsome, List.isEmpty_iff, hentries, if_false, Option.some.injEq,
          forall_eq', ne_eq, not_false_eq_true, forall_const]
        rw [returns_bind_of_forall recording_reverseLookupFlow (hinsert flow), and_true,
          returns_reverseLookupFlow]

/-- A server over the given live storage, with the given depth of the stack. -/
def Upstream.world (U : Upstream) (X : Externals) : World X where
  users := []
  sessions := fun _ => none
  flows := U.flows
  stages := U.stages
  policies := U.policies
  prompts := U.prompts
  asts := fun _ => none
  now := 0
  heap := []
  executions := fun _ => none
  readers := []
  transactions := fun _ => []
  cookies := fun _ => none

/-- A stack is deep enough when the traversal stays within its depth. -/
theorem startReturns_iff_visits {U : Upstream} {key : FlowKey} :
    StartReturns U key ↔ ∃ depth, ∀ flow, U.flows key.flow = some flow → flow.entries ≠ [] →
      U.Visits depth flow := by
  constructor
  · rintro ⟨limit, hreturns⟩
    let X : Externals := { Externals.plain with recursionLimit := limit }
    exact ⟨limit, (returns_start (w := U.world X)).mp
      (hreturns X (U.world X) 0 (Nat.le_refl _) rfl)⟩
  · rintro ⟨depth, hvisits⟩
    refine ⟨depth, fun X w who hdepth hupstream => ?_⟩
    subst hupstream
    apply returns_start.mpr
    intro flow hflow hentries
    exact (hvisits flow hflow hentries).mono hdepth

end Traversing

/-- Over a finite database, `start` returns with some stack exactly where it needs none, or where
everything that the flow refers to is found and no stage that it reaches is reached again from
itself. -/
theorem startReturns_iff {U : Upstream} {db : Postgres.Database} (hloaded : U.LoadedFrom db)
    (key : FlowKey) : StartReturns U key ↔ ∀ flow, U.flows key.flow = some flow →
      flow.entries ≠ [] → U.Resolves flow ∧ U.Acyclic flow := by
  rw [startReturns_iff_visits]
  constructor
  · rintro ⟨depth, hvisits⟩ flow hflow hentries
    exact ⟨(hvisits flow hflow hentries).resolves, (hvisits flow hflow hentries).acyclic⟩
  · intro hcondition
    cases hflow : U.flows key.flow with
    | none => exact ⟨0, fun flow hsome => by cases hsome⟩
    | some flow =>
        by_cases hentries : flow.entries = []
        · refine ⟨0, fun found hfound hne => ?_⟩
          cases hfound
          exact absurd hentries hne
        · obtain ⟨hresolves, hacyclic⟩ := hcondition flow hflow hentries
          obtain ⟨depth, hvisits⟩ :=
            hresolves.visits hloaded (hloaded.loaded.flow_byUid hflow) hacyclic
          refine ⟨depth, fun found hfound _ => ?_⟩
          cases hfound
          exact hvisits

section LoginSamples

/-- The live storage over the sample flow, with the given password stage of its first stage. -/
def loginUpstream (password : Int) : Upstream :=
  .ofClient (loginDatabase (some (.int4 password))).client fun _ => none

/-- The depth that the sample flow needs. -/
theorem loginUpstream_visits (flow : Flow)
    (hflow : (loginUpstream 2).flows (.slug "login") = some flow) :
    (loginUpstream 2).Visits 2 flow := by
  have hloaded : ((loginUpstream 2).flows (.slug "login")).map (fun flow =>
      (flow.uid, flow.bindings ++ flow.entries.flatMap FlowEntry.bindings,
        flow.entries.map FlowEntry.stage)) = some (1, [], [.uid 1, .uid 3]) := by
    decide +kernel
  have hkinds : [1, 2, 3].map (fun uid => ((loginUpstream 2).stages (.uid uid)).map Stage.kind) =
      [some (.identification (some (.uid 2)) [.name]), some (.password [.internal]),
        some .userLogin] := by
    decide +kernel
  simp only [hflow, Option.map_some, Option.some.injEq, Prod.mk.injEq] at hloaded
  simp only [List.map_cons, List.map_nil, List.cons.injEq,
    Option.map_eq_some_iff, and_true] at hkinds
  obtain ⟨huid, hbindings, hstages⟩ := hloaded
  obtain ⟨⟨first, hfirst, hfirstKind⟩, ⟨second, hsecond, hsecondKind⟩, third, hthird, hthirdKind⟩ :=
    hkinds
  constructor
  · rw [huid]
    decide +kernel
  · rintro reference ⟨binding, hmem, _⟩
    rw [hbindings] at hmem
    cases hmem
  · intro entry hentry
    have hmem : entry.stage ∈ flow.entries.map FlowEntry.stage := List.mem_map_of_mem hentry
    rw [hstages, List.mem_cons, List.mem_singleton] at hmem
    rcases hmem with heq | heq <;> rw [heq]
    · refine ⟨first, hfirst, (Upstream.follows_of_password ?_).mpr ⟨second, hsecond, ?_⟩⟩
      · simp [Stage.password?, hfirstKind]
      · simp [Upstream.Follows, hsecondKind]
    · exact ⟨third, hthird, by simp [Upstream.Follows, hthirdKind]⟩

/-- Where the password stage is another one, the flow is started. -/
theorem login_started : StartReturns (loginUpstream 2) sampleKey ∧
    ∀ flow, (loginUpstream 2).flows (.slug "login") = some flow → flow.entries ≠ [] →
      (loginUpstream 2).Resolves flow ∧ (loginUpstream 2).Acyclic flow := by
  have hreturns : StartReturns (loginUpstream 2) sampleKey :=
    startReturns_iff_visits.mpr ⟨2, fun flow hflow _ => loginUpstream_visits flow hflow⟩
  exact ⟨hreturns, (startReturns_iff
    (Upstream.ofClient_loadedFrom (Postgres.Database.client_serves _) _) sampleKey).mp hreturns⟩

theorem selfReferring_satisfies :
    (loginDatabase (some (.int4 1))).Satisfies Schema.initial := by
  decide +kernel

/-- The schema admits an identification stage that is its own password stage, and then `start`
returns with no stack. -/
theorem selfReferring_never_starts : ∃ db : Postgres.Database, db.Satisfies Schema.initial ∧
    ∃ U : Upstream, U.LoadedFrom db ∧ U.References (.uid 1) (.uid 1) ∧
      ¬ StartReturns U sampleKey := by
  have hself : ((loginUpstream 1).stages (.uid 1)).bind Stage.password? = some (.uid 1) := by
    decide +kernel
  have hentries : ((loginUpstream 1).flows (.slug "login")).map
      (fun flow => flow.entries.map FlowEntry.stage) = some [.uid 1, .uid 3] := by
    decide +kernel
  obtain ⟨stage, hstage, hpassword⟩ := Option.bind_eq_some_iff.mp hself
  obtain ⟨flow, hflow, hstages⟩ := Option.map_eq_some_iff.mp hentries
  have hreferences : (loginUpstream 1).References (.uid 1) (.uid 1) := ⟨stage, hstage, hpassword⟩
  refine ⟨loginDatabase (some (.int4 1)), selfReferring_satisfies, loginUpstream 1,
    Upstream.ofClient_loadedFrom (Postgres.Database.client_serves _) _, hreferences, ?_⟩
  intro hreturns
  obtain ⟨depth, hvisits⟩ := startReturns_iff_visits.mp hreturns
  have hmem : StageQuery.uid 1 ∈ flow.entries.map FlowEntry.stage := by
    rw [hstages]
    exact List.mem_cons_self
  obtain ⟨entry, hentry, hreference⟩ := List.mem_map.mp hmem
  have hne : flow.entries ≠ [] := List.ne_nil_of_mem hentry
  obtain ⟨found, hfound, hfollows⟩ := (hvisits flow hflow hne).stages entry hentry
  rw [hreference] at hfound
  exact (hfollows.ends hfound).not_transGen (.single hreferences)

end LoginSamples

end Authust
