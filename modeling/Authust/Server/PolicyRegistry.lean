import Authust.Server.PolicyListing

/-! # The policies that are listed

To an administrator the policies are a list that only grows. A request adds the policy that it
acknowledges, or one whose answer was cut off behind its commit, or nothing; a listing shows all
of them but those that the storage did not answer.
-/

namespace Authust

open Coop Coop.Task Coop.Machine Postgres

variable {X : Externals} {E : PolicyEngine X}

/-- What a row of `policies` shows without the row it refers to. -/
def partialFromRow (row : Row) : Option PartialPolicy := do
  let uid ← row.get .int4 "uid"
  let slug ← row.get .text "slug"
  let kind ← row.get (.enum "policy_kind" PolicyKindSimple.ofLabel) "kind"
  some { uid := uid, slug := slug, kind := kind }

/-- The policies as they are listed, in the order in which they were created. -/
def registry (db : Database) : List PartialPolicy :=
  (db "policies").filterMap partialFromRow

/-- What a request adds to the registry, by how it ended. -/
inductive Adds (E : PolicyEngine X) :
    PolicyRequest → Ending (PolicyAnswer X) → List PartialPolicy → Prop
  | nothing {request : PolicyRequest} {ending : Ending (PolicyAnswer X)}
      (hunacknowledged : ∀ created, ending ≠ .returned (.store (.response (.ok (.json created))))) :
      Adds E request ending []
  | acknowledged {request : StoreRequest} {policy : Policy} {created : PartialPolicy}
      (hrequested : Requested E request policy)
      (hcreated : PartialPolicy.of policy = created.stored) :
      Adds E (.store request) (.returned (.store (.response (.ok (.json created)))))
        [created.stored]
  /-- The request was cut off behind its commit. -/
  | unanswered {request : StoreRequest} {ending : Ending (PolicyAnswer X)} {policy : Policy}
      (hrequested : Requested E request policy) (hcut : ∀ answer, ending ≠ .returned answer) :
      Adds E (.store request) ending [.of policy]

section Rows

variable {db before after : Database} {client : Client} {row : Row} {policy : Policy}

theorem partialFromRow_eq (hpolicy : policyFromRow client row = .ok policy) :
    partialFromRow row = some (.of policy) := by
  obtain ⟨simpleKind, hsimple, hpolicy⟩ := bind_eq_ok.mp hpolicy
  obtain ⟨kind, hkind, hpolicy⟩ := bind_eq_ok.mp hpolicy
  obtain ⟨uid, huid, hpolicy⟩ := bind_eq_ok.mp hpolicy
  obtain ⟨slug, hslug, hpolicy⟩ := bind_eq_ok.mp hpolicy
  cases hpolicy
  have hof : PolicyKindSimple.of kind = simpleKind := by
    cases simpleKind with
    | passwordStrength =>
        obtain ⟨_, _, hkind⟩ := bind_eq_ok.mp hkind
        cases hkind
        rfl
    | _ =>
        obtain ⟨_, _, hkind⟩ := bind_eq_ok.mp hkind
        obtain ⟨_, _, hkind⟩ := bind_eq_ok.mp hkind
        obtain ⟨_, _, hkind⟩ := bind_eq_ok.mp hkind
        cases hkind
        rfl
  rw [partialFromRow, Row.load_eq_ok_iff.mp huid, Row.load_eq_ok_iff.mp hslug,
    Row.load_eq_ok_iff.mp hsimple, ← hof]
  rfl

/-- The registry grows at its end. -/
theorem AddsPolicy.registry (hadds : AddsPolicy before after policy) :
    registry after = registry before ++ [.of policy] := by
  cases hadds with
  | expiration hafter =>
      subst hafter
      rw [Authust.registry, insert_self, insert_of_ne (by decide), List.filterMap_append]
      rfl
  | expression hafter =>
      subst hafter
      rw [Authust.registry, insert_self, insert_of_ne (by decide), List.filterMap_append]
      rfl

/-- A row that a query selects shows the policy that the query finds. -/
theorem StoresPolicy.shown (hstores : StoresPolicy db policy) (hdb : db.Satisfies Schema.initial)
    {query : PolicyQuery} (hfinds : query.finds policy = true) (hrow : row ∈ db "policies")
    (hselected : row.lookup query.select.1.column = some (some query.select.2)) :
    partialFromRow row = some (.of policy) := by
  obtain ⟨other, hother, hdecodes⟩ := hstores
  have hlookup := hdecodes.lookup hfinds
  have heq : other = row := by
    cases query with
    | uid value =>
        exact hdb.row_unique (by simp [Schema.initial] : Schema.policies ∈ _) (.head _) hother
          hlookup hrow hselected
    | slug value =>
        exact hdb.row_unique (by simp [Schema.initial] : Schema.policies ∈ _) (.tail _ (.head _))
          hother hlookup hrow hselected
  rw [← heq]
  exact partialFromRow_eq (hdecodes _ db.client_serves)

/-- No two policies of the registry have the same uid or the same slug. -/
theorem registry_distinct (hdb : db.Satisfies Schema.initial) :
    (registry db).Pairwise fun first second =>
      first.uid ≠ second.uid ∧ first.slug ≠ second.slug := by
  have huid := hdb.unique Schema.policies (by simp [Schema.initial]) ["uid"] (.head _)
  have hslug := hdb.unique Schema.policies (by simp [Schema.initial]) ["slug"] (.tail _ (.head _))
  refine List.pairwise_filterMap.mpr ((huid.and hslug).imp ?_)
  intro first second hdistinct shown hshown other hother
  simp only [partialFromRow, Option.bind_eq_bind, Option.bind_eq_some_iff,
    Option.some.injEq] at hshown hother
  obtain ⟨uid, hfirstUid, slug, hfirstSlug, _, _, rfl⟩ := hshown
  obtain ⟨uid', hsecondUid, slug', hsecondSlug, _, _, rfl⟩ := hother
  rw [Row.get_int4_eq_some_iff] at hfirstUid hsecondUid
  rw [Row.get_text_eq_some_iff] at hfirstSlug hsecondSlug
  constructor
  · rintro rfl
    apply hdistinct.1
    simp [Row.Agree, hfirstUid, hsecondUid]
  · rintro rfl
    apply hdistinct.2
    simp [Row.Agree, hfirstSlug, hsecondSlug]

end Rows

section Listing

variable {who : Nat} {start state after : StoreWorld X}

/-- The operations of a listing that change nothing. -/
theorem listExec_still {op : (listSig X).Op} {res : (listSig X).Res op}
    (hop : op = .inl (.inl .connection) ∨ (∃ sql, op = .inl (.inl (.prepareCached sql))) ∨
      ∃ table columns, op = .inr (.query table columns))
    (hexec : (listMachine X).Exec who state ⟨op, res⟩ after) : after = state := by
  rcases hop with rfl | ⟨sql, rfl⟩ | ⟨table, columns, rfl⟩
  · exact storeExec_connection (listMachine_within who state _ res after hexec)
  · exact storeExec_prepareCached (listMachine_within who state _ res after hexec)
  · exact (listExec_query hexec).1

section Ensures

variable {always : StoreWorld X → Prop}
  (hlooks : ∀ {before after : StoreWorld X} {reference : DataRef PolicyQuery}
    {found : Option Policy}, always before →
      (storeMachine X).Exec who before ⟨.inl (.livePolicy reference), found⟩ after → always after)
include hlooks

/-- A listing keeps what its lookups keep. -/
theorem ensures_listPolicies {references : List (DataRef PolicyQuery)}
    {policies : List PartialPolicy} (hnow : always state) :
    (listMachine X).Ensures who always (listPolicies X references policies).run (fun _ _ => True)
      state := by
  induction references generalizing state policies with
  | nil => exact ⟨hnow, trivial⟩
  | cons reference rest ih =>
      refine ⟨hnow, fun found after hexec => ?_⟩
      have hlooked := hlooks hnow (listMachine_within who state _ found after hexec)
      cases found with
      | some policy => exact ih hlooked
      | none => exact ih hlooked

theorem ensures_collectReferences {records : List Row} (hnow : always state) :
    (listMachine X).Ensures who always
      (collectReferences X records >>= fun references => listPolicies X references []).run
      (fun _ _ => True) state := by
  unfold collectReferences
  split
  next references _ => exact ensures_listPolicies hlooks hnow
  next => exact ⟨hnow, fun res => res.elim⟩

theorem ensures_list (hnow : always start) :
    (listMachine X).Ensures who always (list X).run (fun _ _ => True) start := by
  refine ⟨hnow, fun connected after hexec => ?_⟩
  obtain rfl := listExec_still (Or.inl rfl) hexec
  cases connected with
  | error error => exact ⟨hnow, trivial⟩
  | ok =>
      refine ⟨hnow, fun prepared after hexec => ?_⟩
      obtain rfl := listExec_still (Or.inr (Or.inl ⟨_, rfl⟩)) hexec
      cases prepared with
      | error error => exact ⟨hnow, trivial⟩
      | ok =>
          refine ⟨hnow, fun answered after hexec => ?_⟩
          obtain rfl := listExec_still (Or.inr (Or.inr ⟨_, _, rfl⟩)) hexec
          cases answered with
          | error error => exact ⟨hnow, trivial⟩
          | ok records => exact ensures_collectReferences hlooks hnow

end Ensures

/-- A lookup leaves the caches sound and what has been committed as it is. -/
theorem sound_looks {before after : StoreWorld X} {reference : DataRef PolicyQuery}
    {found : Option Policy} (hnow : before.Sound ∧ before.committed = start.committed)
    (hexec : (storeMachine X).Exec who before ⟨.inl (.livePolicy reference), found⟩ after) :
    after.Sound ∧ after.committed = start.committed := by
  obtain ⟨_, hsound, hcommitted⟩ := hnow.1.livePolicy hexec
  exact ⟨hsound, hcommitted.trans hnow.2⟩

/-- The loop takes up what the lookups answer. -/
theorem listPolicies_trace {references : List (DataRef PolicyQuery)} {rows : List Row}
    (hselected : List.Forall₂ (fun (row : Row) (reference : PolicyQuery) =>
      row.lookup reference.select.1.column = some (some reference.select.2)) rows references)
    (hrows : ∀ row ∈ rows, row ∈ state.committed "policies") (hsound : state.Sound)
    {policies listed : List PartialPolicy} {log : List (Logged (listSig X) (StoreWorld X))}
    (hchain : (listMachine X).Chain who state log after)
    (htrace : Trace (listPolicies X references policies).run (log.map Logged.event)
      (.ok listed)) :
    ∃ found, listed = policies ++ found ∧ found.Sublist (rows.filterMap partialFromRow) ∧
      ((∀ entry ∈ log, missed entry.event = false) →
        found = rows.filterMap partialFromRow) := by
  induction hselected generalizing state policies log with
  | nil =>
      obtain ⟨_, hlisted⟩ := trace_done.mp htrace
      cases hlisted
      exact ⟨[], by simp, by simp, fun _ => rfl⟩
  | @cons row reference rows references hrow _ ih =>
      obtain ⟨found, middle, rest, rfl, hexec, hrest, htail⟩ := hchain.trace_call htrace
      have hlive := listMachine_within who state _ found middle hexec
      obtain ⟨hstores, hmiddle, hcommitted⟩ := hsound.livePolicy hlive
      have hothers : ∀ row ∈ rows, row ∈ middle.committed "policies" := by
        intro row hmem
        rw [hcommitted]
        exact hrows row (.tail _ hmem)
      cases found with
      | none =>
          obtain ⟨found, hlisted, hsublist, _⟩ := ih hothers hmiddle hrest htail
          refine ⟨found, hlisted, hsublist.trans ?_, fun hanswered => ?_⟩
          · exact (List.sublist_cons_self row rows).filterMap _
          · exact absurd (hanswered _ (.head _)) (by simp [missed])
      | some policy =>
          have hshown := (hstores policy rfl).shown hsound.satisfies
            (storeExec_livePolicy_finds hlive) (hrows row (.head _)) hrow
          obtain ⟨found, hlisted, hsublist, hall⟩ := ih hothers hmiddle hrest htail
          refine ⟨.of policy :: found, by simpa using hlisted, ?_, fun hanswered => ?_⟩
          · rw [List.filterMap_cons_some hshown]
            exact hsublist.cons_cons _
          · rw [List.filterMap_cons_some hshown, hall fun entry hmem =>
              hanswered entry (.tail _ hmem)]

/-- The references select the rows that have been answered, one each. -/
theorem collectReferences_trace {rows : List Row} {history : List (Event (listSig X))}
    {listed : List PartialPolicy}
    (htrace : Trace (collectReferences X (rows.map (Row.project ["uid"])) >>= fun references =>
      listPolicies X references []).run history (.ok listed)) :
    ∃ references, List.Forall₂ (fun (row : Row) (reference : PolicyQuery) =>
        row.lookup reference.select.1.column = some (some reference.select.2)) rows references ∧
      Trace (listPolicies X references []).run history (.ok listed) := by
  unfold collectReferences at htrace
  split at htrace
  next references hreferences =>
    refine ⟨references, ?_, htrace⟩
    rw [mapM_eq_some_iff, List.forall₂_map_left_iff] at hreferences
    refine hreferences.imp ?_
    intro row reference hreference
    obtain ⟨uid, huid, rfl⟩ := Option.map_eq_some_iff.mp hreference
    rw [Row.get_int4_eq_some_iff] at huid
    exact Option.join_eq_some_iff.mp (Option.some.inj huid)
  next =>
    obtain ⟨res, _⟩ := trace_call.mp htrace
    exact res.elim

/-- A listing shows what the lookups have answered of the registry. -/
theorem list_trace (hsound : start.Sound) {listed : List PartialPolicy}
    {log : List (Logged (listSig X) (StoreWorld X))}
    (hchain : (listMachine X).Chain who start log after)
    (htrace : Trace (list X).run (log.map Logged.event) (.ok listed)) :
    listed.Subperm (registry start.committed) ∧
      ((∀ entry ∈ log, missed entry.event = false) →
        listed.Perm (registry start.committed)) := by
  obtain ⟨connected, _, _, rfl, hconnects, hconnected, hlistAll⟩ := hchain.trace_call htrace
  obtain rfl := listExec_still (Or.inl rfl) hconnects
  cases connected with
  | error error => cases (trace_done.mp hlistAll).2
  | ok =>
      obtain ⟨prepared, _, _, rfl, hprepares, hprepared, hquery⟩ := hconnected.trace_call hlistAll
      obtain rfl := listExec_still (Or.inr (Or.inl ⟨_, rfl⟩)) hprepares
      cases prepared with
      | error error => cases (trace_done.mp hquery).2
      | ok =>
          obtain ⟨answered, _, _, rfl, hqueries, hqueried, hcollect⟩ := hprepared.trace_call hquery
          obtain ⟨rfl, hanswered⟩ := listExec_query hqueries
          cases answered with
          | error error => cases (trace_done.mp hcollect).2
          | ok records =>
              obtain ⟨rows, hperm, rfl⟩ := hanswered records rfl
              obtain ⟨references, hselected, hloop⟩ := collectReferences_trace hcollect
              obtain ⟨found, rfl, hsublist, hall⟩ := listPolicies_trace hselected
                (fun row hrow => hperm.mem_iff.mp hrow) hsound hqueried hloop
              have hregistry := hperm.filterMap partialFromRow
              refine ⟨hsublist.subperm.trans hregistry.subperm, fun hlookups => ?_⟩
              rw [← hall fun entry hmem =>
                hlookups entry (.tail _ (.tail _ (.tail _ hmem)))] at hregistry
              exact hregistry

end Listing

section Runs

variable {start state before after : StoreWorld X}

/-- A request that creates a policy adds it to the registry, and tells so unless it is cut off. -/
theorem Creates.adds {request : StoreRequest} (hcreates : Creates E request before after)
    {ending : Ending (PolicyAnswer X)}
    (hreturned : ∀ answer, ending = .returned answer → ∃ result,
      answer = .store (.response result) ∧ concludes (Reports E request before)
        (fun after => after.committed = before.committed) result after) :
    ∃ added, Adds E (.store request) ending added ∧
      registry after.committed = registry before.committed ++ added := by
  have hnothing : after.committed = before.committed →
      (∀ created, ending ≠ .returned (.store (.response (.ok (.json created))))) →
        ∃ added, Adds E (.store request) ending added ∧
          registry after.committed = registry before.committed ++ added :=
    fun hunchanged hunacknowledged =>
      ⟨[], .nothing hunacknowledged, by rw [hunchanged, List.append_nil]⟩
  by_cases hcut : ∀ answer, ending ≠ .returned answer
  · rcases hcreates.committed with hunchanged | ⟨policy, hrequested, hadds, _⟩
    · exact hnothing hunchanged fun created => hcut _
    · exact ⟨_, .unanswered hrequested hcut, hadds.registry⟩
  · obtain ⟨answer, hending⟩ := not_forall_not.mp hcut
    subst hending
    obtain ⟨result, rfl, hconcludes⟩ := hreturned answer rfl
    cases result with
    | error error => exact hnothing hconcludes nofun
    | ok response =>
        cases response with
        | json created =>
            obtain ⟨policy, hrequested, hadds, hcreated⟩ := hconcludes
            refine ⟨_, .acknowledged hrequested hcreated, ?_⟩
            rw [hadds.registry, hcreated]
        | text status message => exact hnothing hconcludes nofun
        | empty status => exact hnothing hconcludes nofun

/-- What one request does to the registry. -/
theorem request_adds (hE : E.Lawful) {request : PolicyRequest}
    {served : Served (listSig X) (StoreWorld X) (PolicyAnswer X)}
    (hserves : (listMachine X).Serves (handlePolicies E request) served)
    (hsound : served.before.Sound) :
    served.after.Sound ∧ ∃ added, Adds E request served.ending added ∧
      registry served.after.committed = registry served.before.committed ++ added := by
  cases request with
  | list =>
      obtain ⟨hafter, hreturned⟩ := Ensures.serves hserves
        (ensures_list sound_looks ⟨hsound, rfl⟩).map
      refine ⟨hafter.1, [], .nothing fun created hending => ?_, by rw [hafter.2, List.append_nil]⟩
      obtain ⟨_, hanswer, _⟩ := hreturned _ hending
      cases hanswer
  | store request =>
      cases request with
      | getAst reference =>
          obtain ⟨hafter, hreturned⟩ := Ensures.serves hserves
            ((ensures_getAst hsound).map.translate listMachine_within).map
          refine ⟨hafter.1, [], .nothing fun created hending => ?_,
            by rw [hafter.2, List.append_nil]⟩
          obtain ⟨_, hanswer, _, rfl, _⟩ := hreturned _ hending
          cases hanswer
      | createExpiration slug maxAge =>
          obtain ⟨hcreates, hreturned⟩ := Ensures.serves hserves
            (ensures_createExpiration.map.translate listMachine_within).map
          refine ⟨(hcreates.sound hsound).1, hcreates.adds fun answer hending => ?_⟩
          obtain ⟨_, rfl, result, rfl, hconcludes⟩ := hreturned answer hending
          exact ⟨result, rfl, hconcludes⟩
      | createExpression slug stream =>
          obtain ⟨hcreates, hreturned⟩ := Ensures.serves hserves
            ((ensures_createExpression hE).map.translate listMachine_within).map
          refine ⟨(hcreates.sound hsound).1, hcreates.adds fun answer hending => ?_⟩
          obtain ⟨_, rfl, result, rfl, hconcludes⟩ := hreturned answer hending
          exact ⟨result, rfl, hconcludes⟩

/-- The registry has grown by what each request has added. -/
theorem registry_of_serial (hE : E.Lawful) (hstart : start.Started)
    {runs : List (PolicyRequest × Served (listSig X) (StoreWorld X) (PolicyAnswer X))}
    (hrun : (listMachine X).Serial (handlePolicies E) start runs state) :
    state.Sound ∧ ∃ added : List (List PartialPolicy),
      List.Forall₂ (fun run new => Adds E run.1 run.2.ending new) runs added ∧
        registry state.committed = registry start.committed ++ added.flatten := by
  refine Serial.records StoreWorld.Sound (fun w => registry w.committed) (Adds E) hrun hstart.sound
    ?_ fun _ _ _ hmoves => hmoves.elim
  intro request served hsound hserves
  obtain ⟨hafter, hadded⟩ := request_adds hE hserves hsound
  exact ⟨⟨hafter.satisfies, hafter.cached, hafter.asts⟩, hadded⟩

/-- A listing shows the policies of the start and those that the requests before it have added,
each once. It shows all of them unless the storage does not answer a lookup. -/
theorem listing_shows_registry (hE : E.Lawful) (hstart : start.Started)
    {runs first second :
      List (PolicyRequest × Served (listSig X) (StoreWorld X) (PolicyAnswer X))}
    (hrun : (listMachine X).Serial (handlePolicies E) start runs state)
    {served : Served (listSig X) (StoreWorld X) (PolicyAnswer X)}
    (hruns : runs = first ++ (.list, served) :: second) {listed : List PartialPolicy}
    (hending : served.ending = .returned (.listed (.ok listed))) :
    ∃ added : List (List PartialPolicy),
      List.Forall₂ (fun run new => Adds E run.1 run.2.ending new) first added ∧
        listed.Subperm (registry start.committed ++ added.flatten) ∧
        (listed.Pairwise fun policy other =>
          policy.uid ≠ other.uid ∧ policy.slug ≠ other.slug) ∧
        ((∀ entry ∈ served.log, missed entry.event = false) →
          listed.Perm (registry start.committed ++ added.flatten)) := by
  obtain ⟨hpast, _, hserves⟩ := hrun.request hruns
  obtain ⟨hsound, added, hadded, hregistry⟩ := registry_of_serial hE hstart hpast
  obtain ⟨result, htrace, hresult⟩ := trace_map.mp (hserves.trace hending)
  cases hresult
  obtain ⟨hsubperm, hperm⟩ := list_trace hsound hserves.chain htrace
  have hdistinct := registry_distinct hsound.satisfies
  rw [hregistry] at hsubperm hperm hdistinct
  refine ⟨added, hadded, hsubperm, ?_, hperm⟩
  obtain ⟨shown, hshown, hsublist⟩ := hsubperm
  refine (hshown.pairwise_iff ?_).mp (hdistinct.sublist hsublist)
  intro policy other hne
  exact ⟨hne.1.symm, hne.2.symm⟩

end Runs

section Sample

/-- An expiration, one with a statement that fails, an expression whose request is dropped behind
its commit, and a listing. -/
def listRequests : List (PolicyRequest × (Nat → Turn ListChoice)) :=
  [(.store (.createExpiration "weekly" 604800), fun _ => ⟨⟨⟨.normal, 1⟩, id⟩, .never⟩),
    (.store (.createExpiration "daily" 86400), fun index =>
      ⟨⟨⟨if index = 5 then .fail false else .normal, 2⟩, id⟩, .never⟩),
    (.store (.createExpression "always" [.ok "tr".toUTF8, .ok "ue".toUTF8]), fun index =>
      ⟨⟨⟨.normal, 3⟩, id⟩, if index = 11 then .after else .never⟩),
    (.list, fun _ => ⟨⟨⟨.normal, 0⟩, List.reverse⟩, .never⟩)]

def listRun (count : Nat) : List (PolicyRequest ×
      Served (listSig .encoded) (StoreWorld .encoded) (PolicyAnswer .encoded)) ×
    StoreWorld .encoded :=
  (listMachine _).serveAll (handlePolicies .constants) storeStart (listRequests.take count)

/-- What a listing has answered. -/
def shown : Ending (PolicyAnswer X) → Option (List PartialPolicy)
  | .returned (.listed (.ok listed)) => some listed
  | _ => none

theorem shown_eq_some {ending : Ending (PolicyAnswer X)} {listed : List PartialPolicy}
    (hshown : shown ending = some listed) : ending = .returned (.listed (.ok listed)) := by
  unfold shown at hshown
  split at hshown
  next =>
    cases hshown
    rfl
  next => cases hshown

def sampleListing : Served (listSig .encoded) (StoreWorld .encoded) (PolicyAnswer .encoded) :=
  (listMachine _).served 3 (handlePolicies .constants .list)
    (fun _ => ⟨⟨⟨.normal, 0⟩, List.reverse⟩, .never⟩) (listRun 3).2

/-- The policy whose answer was cut off is listed, and the one that failed is not. -/
theorem sampleListing_shows : ∃ added : List (List PartialPolicy),
    List.Forall₂ (fun run new => Adds .constants run.1 run.2.ending new) (listRun 3).1 added ∧
      List.Perm [⟨3, "always", .expression⟩, ⟨1, "weekly", .passwordExpiry⟩]
        (registry storeStart.committed ++ added.flatten) := by
  have hshown : shown sampleListing.ending =
      some [⟨3, "always", .expression⟩, ⟨1, "weekly", .passwordExpiry⟩] := by decide +kernel
  have hanswered : ∀ entry ∈ sampleListing.log, missed entry.event = false := by decide +kernel
  have hrun : (listMachine _).Serial (handlePolicies .constants) storeStart (listRun 4).1
      (listRun 4).2 := serveAll_serial _ _ _
  have hruns : (listRun 4).1 = (listRun 3).1 ++ [(.list, sampleListing)] := rfl
  obtain ⟨added, hadded, _, _, hperm⟩ := listing_shows_registry PolicyEngine.constants_lawful
    storeStart_started hrun hruns (shown_eq_some hshown)
  exact ⟨added, hadded, hperm hanswered⟩

end Sample

end Authust
