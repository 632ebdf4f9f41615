import Authust.Coop.Abstraction
import Authust.Server.Ownership
import Authust.Server.PolicyRegistry

/-! # The executor and the policies

One server has the calls to the executor and the requests for policies, which come behind
`AdminSession`. To the executor its runs are runs of calls: the live storage finds what is
committed, and a policy is committed by whoever has been admitted, between two calls.
-/

namespace Authust

open Coop Coop.Task Coop.Machine Postgres

variable (X : Externals)

/-- The routes of `setup_policy_router`. -/
inductive ApiRequest : Type
  | createExpiration (slug : String) (maxAge : Int)
  | createExpression (slug : String) (stream : List (Except Unit ByteArray))
  | list

def ApiRequest.inner : ApiRequest → PolicyRequest
  | .createExpiration slug maxAge => .store (.createExpiration slug maxAge)
  | .createExpression slug stream => .store (.createExpression slug stream)
  | .list => .list

inductive SystemRequest : Type
  | call (request : Call X)
  | policies (cookie : Option X.Token) (request : ApiRequest)

inductive SystemAnswer : Type
  | response (result : Except ApiErrorKind Response)
  | policies (answer : PolicyAnswer X)

variable {X}

/-- What a request is to the executor. -/
def SystemRequest.entrance : SystemRequest X → Call X
  | .call request => request
  | .policies cookie _ => .admin cookie

/-- The handlers for policies come behind the extractor `AdminSession`. -/
def proceedTo (E : PolicyEngine X) :
    SystemRequest X → Except ApiErrorKind Response → Task (listSig X) (SystemAnswer X)
  | .policies _ request, .ok .admitted =>
      handlePolicies E request.inner >>= fun answer => pure (.policies answer)
  | _, result => pure (.response result)

def handleSystem (E : PolicyEngine X) (request : SystemRequest X) :
    Task (listSig X) (SystemAnswer X) :=
  (handle X request.entrance).translate.translate >>= proceedTo E request

section Machine

variable (X)

def systemExec (who : Nat) : (op : (listSig X).Op) → ListChoice → StoreWorld X →
    Option ((listSig X).Res op × StoreWorld X)
  | .inl (.inl .commit), choice, w =>
      -- the sessions and the policies are tables of one database
      (exec X who .commit choice.turn.choice w.world).bind fun answer =>
        listExec X who (.inl (.inl .commit)) choice { w with world := answer.2 }
  | op, choice, w => listExec X who op choice w

/-- What the surroundings may change: the part of the executor, and what is still cached. -/
structure SystemSurroundings (w w' : StoreWorld X) : Prop where
  world : Surroundings w.world w'.world
  committed : w'.committed = w.committed
  working : w'.working = w.working
  cached : ∀ policy ∈ w'.cached, policy ∈ w.cached

def systemMachine : Machine (listSig X) (StoreWorld X) ListChoice where
  suspends := listSuspends X
  exec := systemExec X
  release := (storeMachine X).release
  moves := SystemSurroundings X

end Machine

namespace StoreWorld

/-- What the live storage answers when it does not fail. -/
def answers (w : StoreWorld X) (query : PolicyQuery) : Option Policy :=
  (lookupData (findPolicy w.committed.client query)).join

/-- The state as the executor sees it. -/
def seen (w : StoreWorld X) : World X := { w.world with policies := w.answers }

/-- The policies that are cached are those that are stored. -/
structure Stocked (w : StoreWorld X) : Prop where
  satisfies : w.committed.Satisfies Schema.initial
  cached : ∀ policy ∈ w.cached, StoresPolicy w.committed policy

/-- Between two requests. -/
structure Closed (w : StoreWorld X) : Prop where
  stocked : w.Stocked
  working : w.working = none
  idle : ∀ who, w.world.transactions who = []

/-- While a call is served that writes no policy. -/
structure Reading (db : Database) (w : StoreWorld X) : Prop where
  stocked : w.Stocked
  current : w.current = db
  committed : w.committed = db

end StoreWorld

section Seen

variable {who : Nat} {before after : StoreWorld X} {db : Database}

theorem StoreWorld.Closed.reading (hclosed : before.Closed) :
    before.Reading before.committed where
  stocked := hclosed.stocked
  current := by rw [StoreWorld.current, hclosed.working, Option.getD_none]
  committed := rfl

/-- What the executor does, it does with any policies of the live storage. -/
theorem exec_policies (policies : PolicyQuery → Option Policy) {op : Op X}
    (hop : ∀ reference, op ≠ .livePolicy reference) (choice : Choice) (w : World X) :
    exec X who op choice { w with policies := policies } =
      (exec X who op choice w).map fun answer =>
        (answer.1, { answer.2 with policies := policies }) := by
  cases op with
  | livePolicy reference => exact absurd rfl (hop reference)
  | sampleSessionKey | connection | commit | updateSession => cases choice <;> rfl
  | insertSession sid =>
      simp only [exec]
      cases choice <;> cases w.sessions sid <;> rfl
  | optionallyGetWith uid init =>
      simp only [exec]
      cases w.asts uid <;> cases init <;> rfl
  | useMutContext e update =>
      have hsame : World.readLocked { w with policies := policies } e = w.readLocked e := rfl
      simp only [exec, hsame]
      by_cases hlocked : w.readLocked e = true
      · simp [hlocked]
      · simp [hlocked, World.modifyExecution, Function.comp_def]
  | getFlow | getKey | readContext | completeCurrent | isCompleted =>
      simp [exec, World.modifyExecution, Function.comp_def]
  | getEntry e =>
      simp only [exec]
      cases w.heap[e]? <;> simp [Function.comp_def]
  | frozenStage | frozenPolicy => simp [exec, Function.comp_def, Option.map_bind]
  | _ => rfl

theorem systemExec_other {op : Op X} (hcommit : op ≠ .commit) (choice : ListChoice)
    (w : StoreWorld X) :
    systemExec X who (.inl (.inl op)) choice w = storeExec X who (.inl op) choice.turn w := by
  cases op with
  | commit => exact absurd rfl hcommit
  | _ => rfl

theorem storeExec_other {op : Op X} (htransaction : op ≠ .transaction) (hcommit : op ≠ .commit)
    (hlive : ∀ reference, op ≠ .livePolicy reference) (turn : StoreChoice) (w : StoreWorld X) :
    storeExec X who (.inl op) turn w = (exec X who op turn.choice w.world).map fun answer =>
      (answer.1, { w with world := answer.2 }) := by
  cases op with
  | transaction => exact absurd rfl htransaction
  | commit => exact absurd rfl hcommit
  | livePolicy reference => exact absurd rfl (hlive reference)
  | _ => rfl

theorem StoreWorld.seen_congr (hworld : after.world = before.world)
    (hcommitted : after.committed = before.committed) : after.seen = before.seen := by
  unfold StoreWorld.seen StoreWorld.answers
  rw [hworld, hcommitted]

/-- What the live storage answers, the executor finds there. -/
theorem StoreWorld.Stocked.answers_eq (hstocked : before.Stocked) {reference : DataRef PolicyQuery}
    {policy : Policy}
    (hexec : (storeMachine X).Exec who before ⟨.inl (.livePolicy reference), some policy⟩ after) :
    before.answers reference = some policy := by
  have hfinds := storeExec_livePolicy_finds hexec
  have hfound : findPolicy before.committed.client reference = .ok (some policy) := by
    rcases (storeExec_livePolicy hexec).1 policy rfl with hcached | hfound
    · exact (hstocked.cached policy hcached).found hstocked.satisfies
        before.committed.client_serves hfinds
    · exact hfound
  rw [StoreWorld.answers, hfound]
  rfl

/-- A lookup leaves what is stored, and what the executor sees. -/
theorem StoreWorld.Stocked.livePolicy (hstocked : before.Stocked) {reference : DataRef PolicyQuery}
    {found : Option Policy}
    (hexec : (storeMachine X).Exec who before ⟨.inl (.livePolicy reference), found⟩ after) :
    after.Stocked ∧ after.world = before.world ∧ after.committed = before.committed ∧
      after.working = before.working := by
  obtain ⟨hfound, hafter⟩ := storeExec_livePolicy hexec
  rcases hafter with rfl | rfl
  · exact ⟨hstocked, rfl, rfl, rfl⟩
  · refine ⟨⟨hstocked.satisfies, fun policy hpolicy => ?_⟩, rfl, rfl, rfl⟩
    rcases List.mem_append.mp hpolicy with hpolicy | hpolicy
    · rcases hfound policy (Option.mem_toList.mp hpolicy) with hcached | hfound
      · exact hstocked.cached policy hcached
      · exact stores_of_found hstocked.satisfies before.committed.client_serves hfound
    · exact hstocked.cached policy hpolicy

/-- The session updates of a transaction take effect, and its policies with them. -/
theorem systemExec_commit {result : DbResult Unit}
    (hexec : (systemMachine X).Exec who before ⟨.inl (.inl .commit), result⟩ after) :
    (∃ conflict, result = .error (postgresError conflict) ∧ after = before) ∨
      (result = .ok () ∧ after =
        { before with
          world := { before.world with
            sessions := SessionTable.applyUpdates before.world.sessions
              (before.world.transactions who)
            transactions := Function.update before.world.transactions who [] }
          committed := before.current
          working := none }) := by
  obtain ⟨⟨⟨choice, serial⟩, order⟩, hexec⟩ := hexec
  change (exec X who .commit choice before.world).bind _ = _ at hexec
  cases choice with
  | fail conflict =>
      cases hexec
      exact Or.inl ⟨conflict, rfl, rfl⟩
  | normal | key =>
      cases hexec
      exact Or.inr ⟨rfl, rfl⟩

/-- While no policy is written, the operations of the executor are those of the server that sees
the policies that are stored. -/
theorem reading_exec {event : Event (sig X)} (hreading : before.Reading db)
    (hexec : (systemMachine X).left.left.Exec who before event after) :
    after.Reading db ∧ (server X).Exec who before.seen event after.seen := by
  obtain ⟨hstocked, hcurrent, hcommitted⟩ := hreading
  obtain ⟨op, res⟩ := event
  obtain ⟨choice, hexec⟩ := hexec
  change systemExec X who (.inl (.inl op)) choice before = some (res, after) at hexec
  by_cases hcommit : op = .commit
  · subst hcommit
    rcases systemExec_commit ⟨choice, hexec⟩ with ⟨conflict, rfl, rfl⟩ | ⟨rfl, rfl⟩
    · exact ⟨⟨hstocked, hcurrent, hcommitted⟩, .fail conflict, rfl⟩
    · have hsame : before.current = before.committed := hcurrent.trans hcommitted.symm
      refine ⟨⟨⟨?_, ?_⟩, hcurrent, hcurrent⟩, .normal, ?_⟩
      · change before.current.Satisfies Schema.initial
        rw [hsame]
        exact hstocked.satisfies
      · change ∀ policy ∈ before.cached, StoresPolicy before.current policy
        rw [hsame]
        exact hstocked.cached
      · change exec X who .commit .normal _ = _
        simp only [StoreWorld.seen, hsame]
        rfl
  · rw [systemExec_other hcommit] at hexec
    by_cases hlive : ∃ reference, op = .livePolicy reference
    · obtain ⟨reference, rfl⟩ := hlive
      have hlooked : (storeMachine X).Exec who before ⟨.inl (.livePolicy reference), res⟩ after :=
        ⟨choice.turn, hexec⟩
      obtain ⟨hafter, hworld, hsame, hworking⟩ := hstocked.livePolicy hlooked
      have hstill : after.current = before.current := by
        rw [StoreWorld.current, StoreWorld.current, hsame, hworking]
      refine ⟨⟨hafter, hstill.trans hcurrent, hsame.trans hcommitted⟩, ?_⟩
      rw [StoreWorld.seen_congr hworld hsame]
      cases res with
      | none => exact ⟨.fail false, rfl⟩
      | some policy =>
          refine ⟨.normal, ?_⟩
          change some (before.answers reference, before.seen) = _
          rw [hstocked.answers_eq hlooked]
    · by_cases htransaction : op = .transaction
      · subst htransaction
        obtain ⟨⟨turn, serial⟩, order⟩ := choice
        cases turn with
        | fail conflict =>
            cases hexec
            exact ⟨⟨hstocked, hcurrent, hcommitted⟩, .fail conflict, rfl⟩
        | normal | key =>
            cases hexec
            exact ⟨⟨⟨hstocked.satisfies, hstocked.cached⟩, hcommitted, hcommitted⟩, .normal, rfl⟩
      · rw [storeExec_other htransaction hcommit (not_exists.mp hlive)] at hexec
        obtain ⟨answer, hanswer, heq⟩ := Option.map_eq_some_iff.mp hexec
        cases heq
        refine ⟨⟨⟨hstocked.satisfies, hstocked.cached⟩, hcurrent, hcommitted⟩,
          choice.turn.choice, ?_⟩
        change exec X who op choice.turn.choice _ = _
        rw [StoreWorld.seen, exec_policies _ (not_exists.mp hlive), hanswer]
        rfl

/-- A call to the executor is served as by the server that sees the policies that are stored. -/
theorem reading_abstracts (db : Database) :
    (systemMachine X).left.left.Abstracts (server X) StoreWorld.seen (StoreWorld.Reading db) where
  exec := fun hreading hexec => reading_exec hreading hexec
  suspends := fun hsuspends => hsuspends
  panics := by
    intro who op choice state hreading hpanics
    change systemExec X who (.inl (.inl op)) choice state = none at hpanics
    by_cases hcommit : op = .commit
    · subst hcommit
      exact Or.inl rfl
    by_cases htransaction : op = .transaction
    · subst htransaction
      exact Or.inl rfl
    by_cases hlive : ∃ reference, op = .livePolicy reference
    · obtain ⟨reference, rfl⟩ := hlive
      exact Or.inl rfl
    rw [systemExec_other hcommit, storeExec_other htransaction hcommit (not_exists.mp hlive)]
      at hpanics
    have hnone : exec X who op choice.turn.choice state.world = none :=
      Option.map_eq_none_iff.mp hpanics
    refine Or.inr ⟨choice.turn.choice, ?_⟩
    change exec X who op choice.turn.choice state.seen = none
    rw [StoreWorld.seen, exec_policies _ (not_exists.mp hlive), hnone]
    rfl

end Seen

/-- What a request for policies leaves: the executor's part as it was, and what has been committed
or a policy more that it asked for. -/
structure Manages (E : PolicyEngine X) (request : ApiRequest) (before after : StoreWorld X) :
    Prop where
  stocked : after.Stocked
  world : after.world = before.world
  committed : after.committed = before.committed ∨ ∃ store policy, request.inner = .store store ∧
    Requested E store policy ∧ AddsPolicy before.committed after.committed policy

section Managing

variable {who : Nat} {before after : StoreWorld X} {E : PolicyEngine X}

/-- With no session update to commit the machine does what the policies' machine does. -/
theorem systemExec_idle {event : Event (listSig X)} (hidle : before.world.transactions who = [])
    (hexec : (systemMachine X).Exec who before event after) :
    (listMachine X).Exec who before event after := by
  obtain ⟨op, res⟩ := event
  by_cases hcommit : op = .inl (.inl .commit)
  · subst hcommit
    rcases systemExec_commit hexec with ⟨conflict, rfl, rfl⟩ | ⟨rfl, rfl⟩
    · exact ⟨⟨⟨.fail conflict, 0⟩, id⟩, rfl⟩
    · refine ⟨⟨⟨.normal, 0⟩, id⟩, ?_⟩
      rw [hidle, SessionTable.applyUpdates, ← hidle, Function.update_eq_self]
      rfl
  · obtain ⟨choice, hexec⟩ := hexec
    refine ⟨choice, ?_⟩
    rcases op with (op | op) | op
    · cases op with
      | commit => exact absurd rfl hcommit
      | _ => exact hexec
    · exact hexec
    · exact hexec

theorem Creates.manages {store : StoreRequest} {request : ApiRequest}
    (hcreates : Creates E store before after) (hstocked : before.Stocked)
    (hinner : request.inner = .store store) : Manages E request before after := by
  refine ⟨?_, hcreates.world, ?_⟩
  · rcases hcreates.committed with heq | ⟨policy, _, hadds, hdb⟩
    · refine ⟨heq ▸ hstocked.satisfies, fun policy hpolicy => ?_⟩
      rw [hcreates.cached] at hpolicy
      rw [heq]
      exact hstocked.cached policy hpolicy
    · refine ⟨hdb, fun policy hpolicy => ?_⟩
      rw [hcreates.cached] at hpolicy
      exact (hstocked.cached policy hpolicy).mono (fun _ _ => hadds.mono) hdb
  · rcases hcreates.committed with heq | ⟨policy, hrequested, hadds, _⟩
    · exact Or.inl heq
    · exact Or.inr ⟨store, policy, hinner, hrequested, hadds⟩

theorem ensures_handlePolicies (hE : E.Lawful) {request : ApiRequest} {w : StoreWorld X}
    (hstocked : w.Stocked) (hidle : w.world.transactions who = []) :
    (systemMachine X).Ensures who (Manages E request w) (handlePolicies E request.inner)
      (fun _ _ => True) w := by
  have htransfer : ∀ {before event after}, Manages E request w before →
      (systemMachine X).Exec who before event after →
        (listMachine X).Exec who before event after := by
    intro before event after hmanages hexec
    refine systemExec_idle ?_ hexec
    rw [hmanages.world]
    exact hidle
  refine Ensures.transfer htransfer ?_
  cases request with
  | list =>
      refine (Ensures.map (ensures_list ?_ ⟨hstocked, rfl, Or.inl rfl⟩)).mono
        fun _ _ _ _ => trivial
      intro before after reference found hmanages hexec
      obtain ⟨hafter, hworld, hcommitted, _⟩ := hmanages.stocked.livePolicy hexec
      refine ⟨hafter, hworld.trans hmanages.world, ?_⟩
      rw [hcommitted]
      exact hmanages.committed
  | createExpiration slug maxAge =>
      have hensures := @ensures_createExpiration X E who w slug maxAge
      refine ((hensures.map.translate listMachine_within).map).relax
        (fun _ hcreates => hcreates.manages hstocked rfl) fun _ _ _ _ => trivial
  | createExpression slug stream =>
      have hensures := @ensures_createExpression X E who w hE slug stream
      refine ((hensures.map.translate listMachine_within).map).relax
        (fun _ hcreates => hcreates.manages hstocked rfl) fun _ _ _ _ => trivial

end Managing

/-- How the executor sees a request: as the call that it is, or as an administrator that is
admitted, behind whom policies may have been added. -/
inductive ShownAs (E : PolicyEngine X) :
    SystemRequest X × Served (listSig X) (StoreWorld X) (SystemAnswer X) → Call X × Reply X → Prop
  | answered {request : SystemRequest X}
      {served : Served (listSig X) (StoreWorld X) (SystemAnswer X)}
      {entries : List (Logged (sig X) (StoreWorld X))}
      {ending : Ending (Except ApiErrorKind Response)}
      (hlog : served.log = (entries.map Logged.translate).map Logged.translate)
      (hanswer : ∀ result,
        served.ending = .returned (.response result) ↔ ending = .returned result)
      (hcommitted : served.after.committed = served.before.committed) :
      ShownAs E (request, served) (request.entrance, ⟨served.who, served.before.seen,
        entries.map (Logged.seen StoreWorld.seen), served.after.seen, ending⟩)
  | admitted {cookie : Option X.Token} {request : ApiRequest}
      {served : Served (listSig X) (StoreWorld X) (SystemAnswer X)}
      {entries : List (Logged (sig X) (StoreWorld X))}
      {rest : List (Logged (listSig X) (StoreWorld X))} {middle : StoreWorld X}
      (hlog : served.log = (entries.map Logged.translate).map Logged.translate ++ rest)
      (hanswer : ∀ result, served.ending ≠ .returned (.response result))
      (hcommitted : middle.committed = served.before.committed)
      (hmanages : Manages E request middle served.after) :
      ShownAs E (.policies cookie request, served) (.admin cookie, ⟨served.who, served.before.seen,
        entries.map (Logged.seen StoreWorld.seen), middle.seen, .returned (.ok .admitted)⟩)

section Serving

variable {who : Nat} {before after : StoreWorld X} {E : PolicyEngine X} {request : SystemRequest X}
  {served : Served (listSig X) (StoreWorld X) (SystemAnswer X)}

/-- Whoever is admitted has been asked about in the table of sessions, and nothing has changed. -/
theorem admitted_still {cookie : Option X.Token} {w after : World X} {log : Log X}
    (hchain : (server X).Chain who w log after)
    (htrace : Trace (handle X (.admin cookie)) (log.map Logged.event) (.ok .admitted)) :
    after = w := by
  have hasks : ∀ event ∈ log.map Logged.event, event.op = .connection ∨
      (∃ sql, event.op = .prepareCached sql) ∨ ∃ sid, event.op = .querySession sid := by
    unfold handle at htrace
    split at htrace
    next => cases (trace_done.mp htrace).2
    next extension hextension =>
      obtain ⟨first, _, _, hadmitting, hdone, hhistory⟩ := trace_bind_ok.mp htrace
      obtain ⟨opening, session, _, hsession, hadmitted, rfl⟩ := trace_bind_ok.mp hadmitting
      split at hadmitted
      next hflags =>
        obtain ⟨rfl, _⟩ := trace_done.mp hadmitted
        obtain ⟨rfl, _⟩ := trace_done.mp hdone
        rw [hhistory]
        cases extracted_fromRequestParts hsession with
        | @presented claims userId sql hclaims heq => simp
        | @fresh asking sid sql token _ heq _ =>
            rw [heq] at hflags
            simp at hflags
      next => cases (trace_done.mp hadmitted).2
  refine hchain.invariant (fun state => state = w) ?_ rfl
  rintro state event next ⟨entry, hmem, rfl, _⟩ hexec rfl
  have hop := hasks entry.event (List.mem_map_of_mem hmem)
  obtain ⟨who, before, op, res⟩ := entry
  obtain ⟨choice, hexec⟩ := hexec
  rcases hop with hop | ⟨sql, hop⟩ | ⟨sid, hop⟩
  all_goals
    cases hop
    simp only [server, machine, exec] at hexec
  · split at hexec <;>
      · cases hexec
        rfl
  · cases hexec
    rfl
  · cases hexec
    rfl

/-- The executor serves the first part of a request as it serves a call. -/
theorem serves_seen {call : Call X} {log : List (Logged (listSig X) (StoreWorld X))}
    {ending : Ending (Except ApiErrorKind Response)} (hclosed : before.Closed)
    (hserves : (systemMachine X).Serves (handle X call).translate.translate
      ⟨who, before, log, after, ending⟩) :
    after.Reading before.committed ∧ ∃ entries : List (Logged (sig X) (StoreWorld X)),
      log = (entries.map Logged.translate).map Logged.translate ∧ ∃ ended,
        (server X).Serves (handle X call) ⟨who, before.seen,
          entries.map (Logged.seen StoreWorld.seen), after.seen, ended⟩ ∧
        ∀ value, ending = .returned value ↔ ended = .returned value := by
  obtain ⟨_, rfl, hleft⟩ := hserves.left
  obtain ⟨entries, rfl, hleft⟩ := hleft.left
  obtain ⟨hafter, ended, hserved, hended⟩ :=
    (reading_abstracts before.committed).serves hleft hclosed.reading
  exact ⟨hafter, entries, rfl, ended, hserved, hended⟩

theorem closed_released (hstocked : after.Stocked)
    (hidle : ∀ other, other ≠ who → after.world.transactions other = []) :
    ((systemMachine X).release who after).Closed where
  stocked := ⟨hstocked.satisfies, hstocked.cached⟩
  working := rfl
  idle := by
    intro other
    change Function.update after.world.transactions who [] other = []
    by_cases hsame : other = who
    · rw [hsame, Function.update_self]
    · rw [Function.update_of_ne hsame]
      exact hidle other hsame

/-- Behind a call there is no session update left to commit. -/
theorem closed_of_reading {db : Database} {log : Log X} (hclosed : before.Closed)
    (hreading : after.Reading db) (hchain : (server X).Chain who before.seen log after.seen) :
    ((systemMachine X).release who after).Closed := by
  refine closed_released hreading.stocked fun other hsame => ?_
  have hdesk : after.seen.desk other = before.seen.desk other :=
    hchain.invariant (fun state => state.desk other = before.seen.desk other)
      (fun _ _ _ _ hexec hstate => (desk.exec_other hsame hexec).trans hstate) rfl
  exact (congrArg Desk.updates hdesk).trans (hclosed.idle other)

/-- What is released is released for the executor. -/
theorem released_surroundings (who : Nat) (w w' : StoreWorld X) (hworld : w'.world = w.world) :
    Surroundings ((server X).release who w.seen) ((systemMachine X).release who w').seen := by
  obtain ⟨world, committed, working, cached⟩ := w'
  subst hworld
  exact ⟨rfl, rfl, fun _ => Or.inl rfl, rfl, rfl, rfl⟩

/-- A request is shown to the executor as a call that is served. -/
theorem serves_shown (hE : E.Lawful) (hclosed : served.before.Closed)
    (hserves : (systemMachine X).Serves (handleSystem E request) served) :
    ((systemMachine X).release served.who served.after).Closed ∧
      ∃ call reply, ShownAs E (request, served) (call, reply) ∧ reply.who = served.who ∧
        reply.before = served.before.seen ∧ (server X).Serves (handle X call) reply ∧
          Surroundings ((server X).release reply.who reply.after)
            ((systemMachine X).release served.who served.after).seen := by
  obtain ⟨who, before, log, after, ending⟩ := served
  dsimp only at hclosed ⊢
  rcases hserves.bind_cases with ⟨stopped, hfirst, hcut, hending⟩ |
      ⟨first, middle, second, value, hlog, hfirst, hsecond⟩
  · obtain ⟨hafter, entries, rfl, ended, hserved, hended⟩ := serves_seen hclosed hfirst
    refine ⟨closed_of_reading hclosed hafter hserved.chain, _, _, .answered rfl ?_
      hafter.committed, rfl, rfl, hserved, released_surroundings who after after rfl⟩
    intro result
    exact iff_of_false (hending _) fun hreturned => hcut _ ((hended _).mpr hreturned)
  · dsimp only at hlog hfirst hsecond
    obtain ⟨hmiddle, entries, rfl, ended, hserved, hended⟩ := serves_seen hclosed hfirst
    have hreturned : ended = .returned value := (hended value).mp rfl
    subst hreturned
    by_cases hadmitted : ∃ cookie asked, request = .policies cookie asked ∧ value = .ok .admitted
    · obtain ⟨cookie, asked, rfl, rfl⟩ := hadmitted
      have hstill : middle.seen = before.seen :=
        admitted_still hserved.chain (hserved.trace rfl)
      have hsame : middle.seen.transactions = before.seen.transactions := by rw [hstill]
      have hidle : middle.world.transactions = before.world.transactions := hsame
      obtain ⟨hmanages, hanswer⟩ := Ensures.serves hsecond
        (ensures_handlePolicies hE hmiddle.stocked
          ((congrFun hidle who).trans (hclosed.idle who))).map
      refine ⟨closed_released hmanages.stocked fun other _ => ?_, _, _,
        .admitted hlog ?_ hmiddle.committed hmanages, rfl, rfl, hserved,
        released_surroundings who middle after hmanages.world⟩
      · rw [hmanages.world, hidle]
        exact hclosed.idle other
      · intro result hending
        obtain ⟨_, hanswer, _⟩ := hanswer _ hending
        cases hanswer
    · have hdone : proceedTo E request value = pure (.response value) := by
        unfold proceedTo
        split
        · exact absurd ⟨_, _, rfl, rfl⟩ hadmitted
        · rfl
      rw [hdone] at hsecond
      obtain ⟨hnothing, hsame, hending⟩ := hsecond.of_done
      dsimp only at hnothing hsame hending
      subst hnothing hsame hending
      rw [List.append_nil] at hlog
      subst hlog
      refine ⟨closed_of_reading hclosed hmiddle hserved.chain, _, _, .answered rfl ?_
        hmiddle.committed, rfl, rfl, hserved, released_surroundings who after after rfl⟩
      intro result
      simp

end Serving

/-- A run of the system is to the executor a run of calls. -/
theorem seen_of_serial {E : PolicyEngine X} {start state : StoreWorld X} (hE : E.Lawful)
    (hstart : start.Closed)
    {runs : List (SystemRequest X × Served (listSig X) (StoreWorld X) (SystemAnswer X))}
    (hrun : (systemMachine X).Serial (handleSystem E) start runs state) :
    state.Closed ∧ ∃ calls, OneByOne start.seen calls state.seen ∧
      List.Forall₂ (ShownAs E) runs calls := by
  refine Serial.seen (ShownAs E) hrun hstart ?_ ?_
  · intro request served hclosed hserves
    exact serves_shown hE hclosed hserves
  · intro before after hclosed hmoves
    refine ⟨⟨⟨?_, fun policy hcached => ?_⟩, ?_, fun who => ?_⟩, hmoves.world.sessions,
      hmoves.world.heap, hmoves.world.executions, hmoves.world.readers, hmoves.world.transactions,
      hmoves.world.cookies⟩
    · rw [hmoves.committed]
      exact hclosed.stocked.satisfies
    · rw [hmoves.committed]
      exact hclosed.stocked.cached policy (hmoves.cached policy hcached)
    · rw [hmoves.working]
      exact hclosed.working
    · rw [hmoves.world.transactions]
      exact hclosed.idle who

end Authust
