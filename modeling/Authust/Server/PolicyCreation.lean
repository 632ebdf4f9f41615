import Authust.Server.PolicyApi
import Authust.Text.Base64

/-! # Policies survive being stored

A request commits nothing, or a policy as it was asked for. What has been committed is decoded
ever after, and an expression among it has the tree that it was compiled to when it was
submitted.
-/

namespace Authust

open Coop Coop.Task Coop.Machine Postgres

variable {X : Externals} {E : PolicyEngine X}

/-- Base64 decodes to what has been encoded, and the server compiles in the dummy scope. -/
structure PolicyEngine.Lawful (E : PolicyEngine X) : Prop where
  decode : ∀ text, E.decodeBase64 (E.encodeBase64 text) = some text.toUTF8
  compile : ∀ source, X.compile source = (E.compile source).toOption

theorem PolicyEngine.toOption_compile (E : PolicyEngine X) (source : String) :
    (E.compile source).toOption = (E.decodeBase64 source).bind fun bytes =>
      (E.parse (Utf8.fromUtf8Lossy bytes)).toOption := by
  unfold PolicyEngine.compile
  cases E.decodeBase64 source with
  | none => rfl
  | some bytes =>
      simp only [Option.bind_some]
      cases E.parse (Utf8.fromUtf8Lossy bytes) <;> rfl

/-- The policy is what the request asks for. Its slug is as the column stores it, and of an
expression the text that is compiled is the body. -/
inductive Requested (E : PolicyEngine X) : StoreRequest → Policy → Prop
  | expiration {uid maxAge : Int} {slug : String} (hage : 0 ≤ maxAge) :
      Requested E (.createExpiration slug maxAge) ⟨uid, cutSpaces 128 slug, .passwordExpiry maxAge⟩
  | expression {uid : Int} {slug source text : String} {chunks : List ByteArray} {ast : X.Ast}
      (hbody : chunks.foldl (· ++ ·) .empty = text.toUTF8)
      (hdecodes : (E.decodeBase64 source).map Utf8.fromUtf8Lossy = some text)
      (hcompiles : E.compile source = .ok ast) :
      Requested E (.createExpression slug (chunks.map .ok))
        ⟨uid, cutSpaces 128 slug, .expression source⟩

/-- What a request leaves that creates a policy. -/
structure Creates (E : PolicyEngine X) (request : StoreRequest) (before after : StoreWorld X) :
    Prop where
  world : after.world = before.world
  cached : after.cached = before.cached
  committed : after.committed = before.committed ∨ ∃ policy, Requested E request policy ∧
    AddsPolicy before.committed after.committed policy ∧ after.committed.Satisfies Schema.initial

/-- What has been acknowledged as its row shows it. -/
def PartialPolicy.stored (created : PartialPolicy) : PartialPolicy :=
  { created with slug := cutSpaces 128 created.slug }

/-- `From<&Policy>` -/
def PartialPolicy.of (policy : Policy) : PartialPolicy where
  uid := policy.uid
  slug := policy.slug
  kind := .of policy.kind

/-- A response tells what has been created, and nothing has been where it does not. -/
def Reports (E : PolicyEngine X) (request : StoreRequest) (before : StoreWorld X) :
    PolicyResponse → StoreWorld X → Prop
  | .json created, after => ∃ policy, Requested E request policy ∧
      AddsPolicy before.committed after.committed policy ∧ PartialPolicy.of policy = created.stored
  | _, after => after.committed = before.committed

section Creation

variable {who : Nat} {always : StoreWorld X → Prop} {start state : StoreWorld X} {db : Database}

theorem ensures_prepareCached {sql : String} {good : Unit → StoreWorld X → Prop}
    (hnow : always state) (hgood : good () state) :
    (storeMachine X).Ensures who always (prepareCached X sql).run (succeeds good) state := by
  refine ⟨hnow, fun result after hexec => ?_⟩
  rw [storeExec_prepareCached hexec]
  cases result with
  | ok value => exact ⟨hnow, hgood⟩
  | error error => exact ⟨hnow, trivial⟩

theorem ensures_connection {good : Unit → StoreWorld X → Prop} (hnow : always state)
    (hgood : good () state) :
    (storeMachine X).Ensures who always (connection X).run (succeeds good) state := by
  refine ⟨hnow, fun result after hexec => ?_⟩
  rw [storeExec_connection hexec]
  cases result with
  | ok value => exact ⟨hnow, hgood⟩
  | error error => exact ⟨hnow, trivial⟩

theorem ensures_beginTransaction {good : Unit → StoreWorld X → Prop} (hnow : always state)
    (hbegun : always { state with working := some state.committed })
    (hgood : good () { state with working := some state.committed }) :
    (storeMachine X).Ensures who always (beginTransaction X).run (succeeds good) state := by
  refine ⟨hnow, fun result after hexec => ?_⟩
  rcases storeExec_transaction hexec with ⟨error, rfl, rfl⟩ | ⟨rfl, rfl⟩
  · exact ⟨hnow, trivial⟩
  · exact ⟨hbegun, hgood⟩

variable (hworking : ∀ db, always { start with working := some db })
include hworking

theorem ensures_insertReturning {table : Table} {values : List (String × PgValue)}
    {good : Int → StoreWorld X → Prop}
    (hgood : ∀ uid, (db.insert table.name (table.newRow uid values)).Satisfies Schema.initial →
      good uid { start with working := some (db.insert table.name (table.newRow uid values)) }) :
    (storeMachine X).Ensures who always (insertReturning X table values).run (succeeds good)
      { start with working := some db } := by
  refine ⟨hworking db, fun result after hexec => ?_⟩
  rcases storeExec_insert hexec with ⟨error, rfl, rfl⟩ | ⟨uid, hsatisfies, rfl, rfl⟩
  · exact ⟨hworking db, trivial⟩
  · exact ⟨hworking _, hgood uid hsatisfies⟩

theorem ensures_executeUpdate {table column : String} {value : PgValue} {uid : Int}
    {good : Unit → StoreWorld X → Prop}
    (hgood : (db.update table column value uid).Satisfies Schema.initial →
      good () { start with working := some (db.update table column value uid) }) :
    (storeMachine X).Ensures who always (executeUpdate X table column value uid).run (succeeds good)
      { start with working := some db } := by
  refine ⟨hworking db, fun result after hexec => ?_⟩
  rcases storeExec_update hexec with ⟨error, rfl, rfl⟩ | ⟨hsatisfies, rfl, rfl⟩
  · exact ⟨hworking db, trivial⟩
  · exact ⟨hworking _, hgood hsatisfies⟩

/-- Where no statement fails, the transaction has the rows of the policy. -/
theorem ensures_createPolicy {slug : String} {kind : PolicyKind} :
    (storeMachine X).Ensures who always (createPolicy X slug kind).run
      (succeeds fun created after => ∃ uid added, created = ⟨uid, slug, .of kind⟩ ∧
        AddsPolicy db added ⟨uid, cutSpaces 128 slug, kind⟩ ∧
        added.Satisfies Schema.initial ∧ after = { start with working := some added })
      { start with working := some db } := by
  have hnow := hworking db
  refine (ensures_prepareCached hnow ?_).andThen
  refine (ensures_insertReturning hworking fun uid hinserted => ?_).andThen
  cases kind with
  | passwordStrength => exact ⟨hworking _, fun res => res.elim⟩
  | passwordExpiry maxAge =>
      refine (ensures_prepareCached (hworking _) ?_).andThen
      refine (ensures_insertReturning hworking fun sub _ => ?_).andThen
      refine (ensures_prepareCached (hworking _) ?_).andThen
      refine (ensures_executeUpdate hworking fun hupdated => ?_).andThen
      refine ensures_pure (hworking _) ⟨uid, _, rfl, ?_, hupdated, rfl⟩
      exact .expiration (insert_insert_update (by decide) rfl hinserted)
  | expression source =>
      refine (ensures_prepareCached (hworking _) ?_).andThen
      refine (ensures_insertReturning hworking fun sub _ => ?_).andThen
      refine (ensures_prepareCached (hworking _) ?_).andThen
      refine (ensures_executeUpdate hworking fun hupdated => ?_).andThen
      refine ensures_pure (hworking _) ⟨uid, _, rfl, ?_, hupdated, rfl⟩
      exact .expression (insert_insert_update (by decide) rfl hinserted)

end Creation

section Requests

variable {who : Nat} {start : StoreWorld X}

theorem Creates.unchanged {request : StoreRequest} {working : Option Database} :
    Creates E request start { start with working := working } where
  world := rfl
  cached := rfl
  committed := Or.inl rfl

theorem Creates.added {request : StoreRequest} {db : Database} {policy : Policy}
    (hrequested : Requested E request policy)
    (hadds : AddsPolicy start.committed db policy) (hdb : db.Satisfies Schema.initial) :
    Creates E request start { start with committed := db, working := none } where
  world := rfl
  cached := rfl
  committed := Or.inr ⟨policy, hrequested, hadds, hdb⟩

/-- The open transaction is committed and its policy acknowledged, or it is not committed. -/
theorem ensures_commitCreated {request : StoreRequest} {db : Database} {policy : Policy}
    {created : PartialPolicy} (hrequested : Requested E request policy)
    (hadds : AddsPolicy start.committed db policy) (hdb : db.Satisfies Schema.initial)
    (hcreated : PartialPolicy.of policy = created.stored) :
    (storeMachine X).Ensures who (Creates E request start)
      (commitTransaction X >>= fun _ => pure (.json created) : StoreHandler X PolicyResponse).run
      (concludes (Reports E request start) fun after => after.committed = start.committed)
      { start with working := some db } := by
  have hcommitted := Creates.added hrequested hadds hdb
  refine ⟨.unchanged, fun result after hexec => ?_⟩
  rcases storeExec_commit hexec with ⟨error, rfl, rfl⟩ | ⟨rfl, rfl⟩
  · exact ⟨.unchanged, rfl⟩
  · exact ⟨hcommitted, policy, hrequested, hadds, hcreated⟩

/-- Nothing has been committed. -/
def Uncommitted (start after : StoreWorld X) : Prop :=
  ∃ working, after = { start with working := working }

theorem Uncommitted.creates {request : StoreRequest} {after : StoreWorld X}
    (hafter : Uncommitted start after) :
    Creates E request start after ∧ after.committed = start.committed := by
  obtain ⟨working, rfl⟩ := hafter
  exact ⟨.unchanged, rfl⟩

theorem ensures_createExpiration {slug : String} {maxAge : Int} :
    (storeMachine X).Ensures who (Creates E (.createExpiration slug maxAge) start)
      (createExpiration X slug maxAge).run
      (concludes (Reports E (.createExpiration slug maxAge) start)
        fun after => after.committed = start.committed) start := by
  have hworking : ∀ db, Uncommitted start { start with working := some db } := fun _ => ⟨_, rfl⟩
  have hstart : Uncommitted start start := ⟨_, rfl⟩
  unfold createExpiration
  split
  next => exact ⟨.unchanged, rfl⟩
  next hage =>
    refine (ensures_connection hstart ?_).andThen_concludes fun _ => Uncommitted.creates
    refine (ensures_beginTransaction hstart (hworking _) ?_).andThen_concludes
      fun _ => Uncommitted.creates
    refine ((ensures_createPolicy hworking).mono
      fun result after hnow hcreated => ?_).andThen_concludes fun _ => Uncommitted.creates
    cases result with
    | error error => trivial
    | ok created =>
        obtain ⟨uid, added, rfl, hadds, hsatisfies, rfl⟩ := hcreated
        exact ensures_commitCreated (.expiration (not_lt.mp hage)) hadds hsatisfies rfl

/-- The body is read as far as it is short enough, and then all of it. -/
theorem ensures_readBody {always : StoreWorld X → Prop} {state : StoreWorld X} (hnow : always state)
    {stream : List (Except Unit ByteArray)} {bytes : ByteArray} :
    (storeMachine X).Ensures who always (readBody X stream bytes).run
      (succeeds fun read after => after = state ∧
        (∀ response, read = .error response → response = .text 413 "Request body too large") ∧
        ∀ body, read = .ok body →
          ∃ chunks : List ByteArray, stream = chunks.map .ok ∧ body = chunks.foldl (· ++ ·) bytes)
      state := by
  have hchunk : ∀ good : Unit → StoreWorld X → Prop, good () state →
      (storeMachine X).Ensures who always
        (ExceptT.lift (@perform (storeSig X) (.inr .nextChunk)) : StoreHandler X Unit).run
        (succeeds good) state := by
    intro good hgood
    refine ⟨hnow, fun answer after hexec => ?_⟩
    rw [storeExec_nextChunk hexec]
    exact ⟨hnow, hgood⟩
  induction stream generalizing bytes with
  | nil =>
      refine (hchunk _ (ensures_pure hnow ⟨rfl, nofun, ?_⟩)).andThen
      rintro body ⟨⟩
      exact ⟨[], rfl, rfl⟩
  | cons chunk rest ih =>
      refine (hchunk _ ?_).andThen
      cases chunk with
      | error error => exact ⟨hnow, trivial⟩
      | ok chunk =>
          dsimp only
          split
          next =>
            refine ensures_pure hnow ⟨rfl, ?_, nofun⟩
            rintro response ⟨⟩
            rfl
          next =>
            apply ih.mono
            intro result after _ hread
            cases result with
            | error error => trivial
            | ok read =>
                refine ⟨hread.1, hread.2.1, fun body hbody => ?_⟩
                obtain ⟨chunks, rfl, rfl⟩ := hread.2.2 body hbody
                exact ⟨chunk :: chunks, rfl, rfl⟩

theorem ensures_createExpression (hE : E.Lawful) {slug : String}
    {stream : List (Except Unit ByteArray)} :
    (storeMachine X).Ensures who (Creates E (.createExpression slug stream) start)
      (createExpression E slug stream).run
      (concludes (Reports E (.createExpression slug stream) start)
        fun after => after.committed = start.committed) start := by
  have hworking : ∀ db, Uncommitted start { start with working := some db } := fun _ => ⟨_, rfl⟩
  have hstart : Uncommitted start start := ⟨_, rfl⟩
  refine (ensures_connection hstart ?_).andThen_concludes fun _ => Uncommitted.creates
  refine (ensures_beginTransaction hstart (hworking _) ?_).andThen_concludes
    fun _ => Uncommitted.creates
  refine ((ensures_readBody (hworking _)).mono
    fun result after hnow hread => ?_).andThen_concludes fun _ => Uncommitted.creates
  cases result with
  | error error => trivial
  | ok read =>
      obtain ⟨rfl, hrefused, hbody⟩ := hread
      rw [succeeds_ok]
      cases read with
      | error response =>
          obtain rfl := hrefused response rfl
          exact ⟨.unchanged, rfl⟩
      | ok bytes =>
          obtain ⟨chunks, rfl, rfl⟩ := hbody bytes rfl
          dsimp only
          split
          next => exact ⟨.unchanged, rfl⟩
          next text htext =>
            rw [Utf8.fromUTF8?_eq_some_iff] at htext
            split
            next => exact ⟨.unchanged, rfl⟩
            next => exact ⟨.unchanged, rfl⟩
            next ast hcompiles =>
              refine ((ensures_createPolicy hworking).mono
                fun result after hnow hcreated => ?_).andThen_concludes fun _ => Uncommitted.creates
              cases result with
              | error error => trivial
              | ok created =>
                  obtain ⟨uid, added, rfl, hadds, hsatisfies, rfl⟩ := hcreated
                  have hdecodes : (E.decodeBase64 (E.encodeBase64 text)).map Utf8.fromUtf8Lossy =
                      some text := by
                    rw [hE.decode, Option.map_some, Utf8.fromUtf8Lossy_toUTF8]
                  have hrequested := @Requested.expression X E uid slug _ _ _ _ htext hdecodes
                    hcompiles
                  exact ensures_commitCreated hrequested hadds hsatisfies rfl

end Requests

/-- What the caches hold comes from policies that are stored. -/
structure StoreWorld.Sound (w : StoreWorld X) : Prop where
  satisfies : w.committed.Satisfies Schema.initial
  cached : ∀ policy ∈ w.cached, StoresPolicy w.committed policy
  asts : ∀ uid tree, w.world.asts uid = some tree → ∃ policy,
    StoresPolicy w.committed policy ∧ policy.uid = uid ∧ compilePolicy X policy = some tree

/-- The server has just been started. -/
structure StoreWorld.Started (w : StoreWorld X) : Prop where
  satisfies : w.committed.Satisfies Schema.initial
  cached : w.cached = []
  asts : ∀ uid, w.world.asts uid = none

theorem StoreWorld.Started.sound {w : StoreWorld X} (hstart : w.Started) : w.Sound where
  satisfies := hstart.satisfies
  cached := by simp [hstart.cached]
  asts := by simp [hstart.asts]

section Runs

variable {who : Nat} {start before after state : StoreWorld X} {request : StoreRequest}

/-- Rows that are added leave the caches sound. -/
theorem StoreWorld.Sound.grow (hsound : before.Sound)
    (hrows : ∀ table, ∀ row ∈ before.committed table, row ∈ after.committed table)
    (hdb : after.committed.Satisfies Schema.initial) (hworld : after.world = before.world)
    (hcached : after.cached = before.cached) : after.Sound where
  satisfies := hdb
  cached := by
    intro policy hpolicy
    rw [hcached] at hpolicy
    exact (hsound.cached policy hpolicy).mono hrows hdb
  asts := by
    intro uid tree htree
    rw [hworld] at htree
    obtain ⟨policy, hstores, huid, hcompiled⟩ := hsound.asts uid tree htree
    exact ⟨policy, hstores.mono hrows hdb, huid, hcompiled⟩

theorem Creates.sound (hcreates : Creates E request before after) (hsound : before.Sound) :
    after.Sound ∧ ∀ table, ∀ row ∈ before.committed table, row ∈ after.committed table := by
  rcases hcreates.committed with heq | ⟨policy, _, hadds, hdb⟩
  · have hrows : ∀ table, ∀ row ∈ before.committed table, row ∈ after.committed table := by
      simp [heq]
    exact ⟨hsound.grow hrows (heq ▸ hsound.satisfies) hcreates.world hcreates.cached, hrows⟩
  · have hrows : ∀ table, ∀ row ∈ before.committed table, row ∈ after.committed table :=
      fun _ _ => hadds.mono
    exact ⟨hsound.grow hrows hdb hcreates.world hcreates.cached, hrows⟩

/-- A tree is cached for the policy that it was compiled from. -/
theorem StoreWorld.Sound.fill (hsound : state.Sound) {policy : Policy}
    (hstores : StoresPolicy state.committed policy) {tree : Option (Option X.Ast)}
    (htree : tree = (state.world.asts policy.uid).or (compilePolicy X policy)) :
    StoreWorld.Sound { state with world := { state.world with
      asts := Function.update state.world.asts policy.uid tree } } where
  satisfies := hsound.satisfies
  cached := hsound.cached
  asts := by
    intro uid found hfound
    change Function.update state.world.asts policy.uid tree uid = some found at hfound
    by_cases huid : uid = policy.uid
    · subst huid
      rw [Function.update_self, htree] at hfound
      cases hasts : state.world.asts policy.uid with
      | some held =>
          rw [hasts] at hfound
          cases hfound
          exact hsound.asts _ _ hasts
      | none =>
          rw [hasts] at hfound
          exact ⟨policy, hstores, rfl, hfound⟩
    · rw [Function.update_of_ne huid] at hfound
      exact hsound.asts uid found hfound

/-- A lookup leaves the caches sound, and what it answers is stored. -/
theorem StoreWorld.Sound.livePolicy (hsound : before.Sound) {reference : DataRef PolicyQuery}
    {found : Option Policy}
    (hexec : (storeMachine X).Exec who before ⟨.inl (.livePolicy reference), found⟩ after) :
    (∀ policy, found = some policy → StoresPolicy before.committed policy) ∧ after.Sound ∧
      after.committed = before.committed := by
  obtain ⟨hfound, hafter⟩ := storeExec_livePolicy hexec
  have hstores : ∀ policy, found = some policy → StoresPolicy before.committed policy := by
    intro policy hpolicy
    rcases hfound policy hpolicy with hcached | hfound
    · exact hsound.cached policy hcached
    · exact stores_of_found hsound.satisfies before.committed.client_serves hfound
  refine ⟨hstores, ?_⟩
  rcases hafter with rfl | rfl
  · exact ⟨hsound, rfl⟩
  · refine ⟨⟨hsound.satisfies, fun policy hpolicy => ?_, hsound.asts⟩, rfl⟩
    rcases List.mem_append.mp hpolicy with hpolicy | hpolicy
    · exact hstores policy (Option.mem_toList.mp hpolicy)
    · exact hsound.cached policy hpolicy

theorem ensures_getAst (hsound : start.Sound) {reference : DataRef PolicyQuery} :
    (storeMachine X).Ensures who (fun w => w.Sound ∧ w.committed = start.committed)
      (getAst X reference).translate (fun _ _ => True) start := by
  refine ⟨⟨hsound, rfl⟩, fun found after hexec => ?_⟩
  obtain ⟨hstores, hlooked⟩ := hsound.livePolicy hexec
  cases found with
  | none => exact ⟨hlooked, trivial⟩
  | some policy =>
      refine ⟨hlooked, fun (tree : Option (Option X.Ast)) filled hexec => ?_⟩
      obtain ⟨htree, rfl⟩ := storeExec_optionallyGetWith hexec
      exact ⟨⟨hlooked.1.fill (hlooked.2 ▸ hstores policy rfl) htree, hlooked.2⟩, trivial⟩

/-- What one request does: it creates a policy, or it reads. -/
theorem request_creates_or_reads (hE : E.Lawful)
    {served : Served (storeSig X) (StoreWorld X) (StoreReply X)}
    (hserves : (storeMachine X).Serves (handleStore E request) served)
    (hsound : served.before.Sound) :
    Creates E request served.before served.after ∨
      (served.after.Sound ∧ served.after.committed = served.before.committed) := by
  cases request with
  | createExpiration slug maxAge =>
      exact Or.inl (Ensures.serves hserves (ensures_createExpiration.map)).1
  | createExpression slug stream =>
      exact Or.inl (Ensures.serves hserves (ensures_createExpression hE).map).1
  | getAst reference => exact Or.inr (Ensures.serves hserves (ensures_getAst hsound).map).1

/-- The caches stay sound, and what has been committed stays. -/
theorem sound_of_serial (hE : E.Lawful) (hstart : start.Started)
    {runs : List (StoreRequest × Served (storeSig X) (StoreWorld X) (StoreReply X))}
    (hrun : (storeMachine X).Serial (handleStore E) start runs state) :
    state.Sound ∧ ∀ run ∈ runs, run.2.before.Sound ∧
      ∀ table, ∀ row ∈ run.2.after.committed table, row ∈ state.committed table := by
  induction hrun with
  | start => exact ⟨hstart.sound, by simp⟩
  | moves _ hmoves => exact hmoves.elim
  | @serve runs request served _ _ hserves ih =>
      obtain ⟨hsound, hruns⟩ := ih
      obtain ⟨hafter, hrows⟩ : served.after.Sound ∧
          ∀ table, ∀ row ∈ served.before.committed table, row ∈ served.after.committed table := by
        rcases request_creates_or_reads hE hserves hsound with hcreates | ⟨hafter, heq⟩
        · exact hcreates.sound hsound
        · exact ⟨hafter, by simp [heq]⟩
      refine ⟨⟨hafter.satisfies, hafter.cached, hafter.asts⟩, fun run hrun => ?_⟩
      rcases List.mem_append.mp hrun with hrun | hrun
      · exact ⟨(hruns run hrun).1, fun table row hrow =>
          hrows _ _ ((hruns run hrun).2 table row hrow)⟩
      · obtain rfl := List.mem_singleton.mp hrun
        exact ⟨hsound, fun _ _ hrow => hrow⟩

/-- A policy that is stored is looked up by its uid and by its slug. -/
theorem StoreWorld.Sound.lookup_eq (hsound : state.Sound) {policy : Policy}
    (hstores : StoresPolicy state.committed policy) {query : PolicyQuery}
    (hfinds : query.finds policy = true) {choice : Choice}
    (hchoice : ∀ conflict, choice ≠ .fail conflict) :
    ∃ looked : StoreWorld X, state.lookup choice query = some (some policy, looked) ∧
      looked.world = state.world := by
  unfold StoreWorld.lookup
  cases hcached : state.cached.find? query.finds with
  | some cached =>
      have hpolicy := hstores.unique (hsound.cached cached (List.mem_of_find?_eq_some hcached))
        hsound.satisfies hfinds (List.find?_some hcached)
      exact ⟨state, by rw [hpolicy], rfl⟩
  | none =>
      have hfound := hstores.found hsound.satisfies state.committed.client_serves hfinds
      cases choice with
      | fail conflict => exact absurd rfl (hchoice conflict)
      | _ => exact ⟨{ state with cached := policy :: state.cached }, by rw [hfound]; rfl, rfl⟩

/-- A tree that is cached for a policy that is stored is the one that it compiles to. -/
theorem StoreWorld.Sound.asts_eq (hsound : state.Sound) {policy : Policy}
    (hstores : StoresPolicy state.committed policy) {tree : Option X.Ast}
    (htree : state.world.asts policy.uid = some tree) :
    compilePolicy X policy = some tree := by
  obtain ⟨cached, hcached, huid, hheld⟩ := hsound.asts _ _ htree
  have hpolicy : cached = policy := @StoresPolicy.unique state.committed policy cached
    hstores hcached hsound.satisfies (.uid policy.uid) (decide_eq_true rfl) (decide_eq_true huid)
  rw [← hpolicy]
  exact hheld

/-- The tree of an expression that is stored is found. -/
theorem getAst_alone (hsound : state.Sound) {policy : Policy} {source : String} {ast : X.Ast}
    (hstores : StoresPolicy state.committed policy) (hkind : policy.kind = .expression source)
    (hcompiles : X.compile source = some ast) {query : PolicyQuery}
    (hfinds : query.finds policy = true) {turn : StoreChoice}
    (hturn : ∀ conflict, turn.choice ≠ .fail conflict) :
    ∃ after, (storeMachine X).alone who turn (handleStore E (.getAst query)) state =
      some (.ast (some ast), after) := by
  have hcompiled : compilePolicy X policy = some (some ast) := by
    rw [compilePolicy, hkind, ← hcompiles]
  obtain ⟨looked, hlooked, hworld⟩ := hsound.lookup_eq hstores hfinds hturn
  obtain ⟨filled, hfilled⟩ : ∃ filled, exec X who
      (.optionallyGetWith policy.uid (compilePolicy X policy)) turn.choice looked.world =
        some (some (some ast), filled) := by
    rw [hcompiled, hworld]
    cases hasts : state.world.asts policy.uid with
    | none =>
        exact ⟨{ state.world with
          asts := Function.update state.world.asts policy.uid (some (some ast)) },
            by simp only [exec, hasts]⟩
    | some tree =>
        obtain rfl : tree = some ast := by
          simpa [hcompiled] using (hsound.asts_eq hstores hasts).symm
        exact ⟨state.world, by simp only [exec, hasts]⟩
  refine ⟨{ looked with world := filled }, ?_⟩
  change (state.lookup turn.choice query).bind _ = _
  rw [hlooked]
  change (Option.map _ (exec X who (.optionallyGetWith policy.uid (compilePolicy X policy))
    turn.choice looked.world)).bind _ = _
  rw [hfilled]
  rfl

/-- Each request commits nothing, or a policy as it was asked for. The policy is decoded ever
after, and if it is an expression its tree is found. -/
theorem policies_survive (hE : E.Lawful) (hstart : start.Started)
    {runs : List (StoreRequest × Served (storeSig X) (StoreWorld X) (StoreReply X))}
    (hrun : (storeMachine X).Serial (handleStore E) start runs state)
    {served : Served (storeSig X) (StoreWorld X) (StoreReply X)} (hmem : (request, served) ∈ runs) :
    served.after.committed = served.before.committed ∨
      ∃ policy, Requested E request policy ∧
        AddsPolicy served.before.committed served.after.committed policy ∧
        StoresPolicy state.committed policy ∧
        ∀ source, policy.kind = .expression source → ∃ ast, E.compile source = .ok ast ∧
          ∀ query : PolicyQuery, query.finds policy = true → ∀ (who : Nat) (turn : StoreChoice),
            (∀ conflict, turn.choice ≠ .fail conflict) →
              ∃ after, (storeMachine X).alone who turn (handleStore E (.getAst query)) state =
                some (.ast (some ast), after) := by
  obtain ⟨hsound, hruns⟩ := sound_of_serial hE hstart hrun
  obtain ⟨hbefore, hrows⟩ := hruns _ hmem
  obtain ⟨first, second, hsplit⟩ := List.append_of_mem hmem
  obtain ⟨_, _, hserves⟩ := hrun.request hsplit
  rcases request_creates_or_reads hE hserves hbefore with hcreates | ⟨_, hunchanged⟩
  · rcases hcreates.committed with hunchanged | ⟨policy, hrequested, hadds, hdb⟩
    · exact Or.inl hunchanged
    · have hstores := (hadds.stores hdb).mono hrows hsound.satisfies
      refine Or.inr ⟨policy, hrequested, hadds, hstores, fun source hkind => ?_⟩
      cases hrequested with
      | expiration => cases hkind
      | @expression _ _ _ _ _ ast _ _ hcompiles =>
          cases hkind
          have hcompiled : X.compile source = some ast := by rw [hE.compile, hcompiles]; rfl
          exact ⟨ast, hcompiles, fun query hfinds who turn hturn =>
            getAst_alone hsound hstores rfl hcompiled hfinds hturn⟩
  · exact Or.inl hunchanged

end Runs

section Sample

/-- The parser of a language whose only expressions are the two constants. -/
def parseConstant (source : String) : Except String Bool :=
  if source = "true" then .ok true
  else if source = "false" then .ok false
  else .error "Variable not found"

abbrev Externals.encoded : Externals := { Externals.plain with
  compile := fun source => (Base64.decode source).bind fun bytes =>
    (parseConstant (Utf8.fromUtf8Lossy bytes)).toOption }

def PolicyEngine.constants : PolicyEngine Externals.encoded where
  encodeBase64 := Base64.encode
  decodeBase64 := Base64.decode
  parse := parseConstant

theorem PolicyEngine.constants_lawful : PolicyEngine.constants.Lawful where
  decode := Base64.decode_encode
  compile := fun source => PolicyEngine.constants.toOption_compile source ▸ rfl

def storeStart : StoreWorld Externals.encoded where
  world := World.boot _ [] [] [] [] []
  committed := fun _ => []
  working := none
  cached := []

theorem storeStart_started : storeStart.Started where
  satisfies := ⟨by simp [storeStart], by simp [storeStart], by simp [storeStart]⟩
  cached := rfl
  asts := fun _ => rfl

/-- Two expirations, the second with a statement that fails, and an expression in two parts. -/
def storeRequests : List (StoreRequest × (Nat → Turn StoreChoice)) :=
  [(.createExpiration "weekly" 604800, fun _ => ⟨⟨.normal, 1⟩, .never⟩),
    (.createExpiration "daily" 86400, fun index =>
      ⟨⟨if index = 5 then .fail false else .normal, 2⟩, .never⟩),
    (.createExpression "always" [.ok "tr".toUTF8, .ok "ue".toUTF8],
      fun _ => ⟨⟨.normal, 3⟩, .never⟩)]

def storeRun : List (StoreRequest ×
      Served (storeSig .encoded) (StoreWorld .encoded) (StoreReply .encoded)) ×
    StoreWorld .encoded :=
  (storeMachine _).serveAll (handleStore .constants) storeStart storeRequests

theorem expression_survives :
    storeRun.1.map (fun run => (run.2.after.committed "policies").length) = [1, 1, 2] ∧
      ∀ request served, (request, served) ∈ storeRun.1 →
        served.after.committed = served.before.committed ∨
          ∃ policy, Requested .constants request policy ∧
            StoresPolicy storeRun.2.committed policy := by
  refine ⟨by decide +kernel, fun request served hmem => ?_⟩
  rcases policies_survive PolicyEngine.constants_lawful storeStart_started
    (serveAll_serial _ _ _) hmem with hunchanged | ⟨policy, hrequested, _, hstores, _⟩
  · exact Or.inl hunchanged
  · exact Or.inr ⟨policy, hrequested, hstores⟩

end Sample

end Authust
