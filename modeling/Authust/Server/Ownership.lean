import Authust.Server.Commit

/-! # Whose executions and whose rows

An execution is filed under the session that started it, and a session has its row in the
table before anything is done for it. Both stay so for ever.
-/

namespace Authust

open Coop Coop.Task Coop.Machine

variable {X : Externals}

section Extraction

variable {extension : AuthExtension} {session : Session} {history : History X}

/-- Why the extractor makes a new session: no cookie is presented, or the session that it names
has no row. -/
inductive Unknown (extension : AuthExtension) : History X → Prop
  | missingCookie (hextension : extension = .missingCookie) :
      Unknown extension [⟨.connection, .ok ()⟩]
  | missingRow {claims : Claims} {sql : String} (hclaims : extension = .valid claims) :
      Unknown extension [⟨.connection, .ok ()⟩, ⟨.prepareCached sql, .ok ()⟩,
        ⟨.querySession claims.sid, .ok none⟩]

theorem Unknown.reads (hunknown : Unknown extension history) :
    ∀ event ∈ history, event.op.writes = false := by
  cases hunknown <;> simp [Op.writes]

/-- How the extractor has come to its session: the presented one has a row, or a new one has
been inserted. -/
inductive Extracted (extension : AuthExtension) (session : Session) : History X → Prop
  | presented {claims : Claims} {userId : Option Uuid} {sql : String}
      (hclaims : extension = .valid claims)
      (hsession : session = { sessionId := claims.sid, userId := userId, isAdmin :=
      claims.isAdmin }) :
      Extracted extension session [⟨.connection, .ok ()⟩, ⟨.prepareCached sql, .ok ()⟩,
        ⟨.querySession claims.sid, .ok (some userId)⟩]
  | fresh (asking : History X) {sid sql : String} {token : X.Token}
      (hunknown : Unknown extension asking)
      (hsession : session = { sessionId := sid, userId := none, isAdmin := false })
      (hencoded : X.encodeToken (newClaims sid) = .ok token) :
      Extracted extension session
        (asking ++ [⟨.sampleSessionKey, sid⟩, ⟨.prepareCached sql, .ok ()⟩,
        ⟨.insertSession sid, .ok ()⟩, ⟨.addCookie token, ()⟩])

theorem trace_makeNewSession
    (htrace : Trace (makeNewSession X).run history (.ok session)) : ∃ sid sql token,
      history = [⟨.sampleSessionKey, sid⟩, ⟨.prepareCached sql, .ok ()⟩,
        ⟨.insertSession sid, .ok ()⟩,
        ⟨.addCookie token, ()⟩] ∧ X.encodeToken (newClaims sid) = .ok token ∧
          session = { sessionId := sid, userId := none, isAdmin := false } := by
  obtain ⟨sid, _, rfl, htail⟩ := trace_access_bind.mp htrace
  obtain ⟨_, _, _, hpreparing, hprepared, rfl⟩ := trace_bind_ok.mp htail
  obtain ⟨_, _, _, hinserting, hinserted, rfl⟩ := trace_bind_ok.mp hprepared
  obtain ⟨_, _, _, hsetting, hset, rfl⟩ := trace_bind_ok.mp hinserted
  obtain rfl := trace_perform.mp hpreparing
  obtain rfl := trace_perform.mp hinserting
  obtain ⟨token, hencoded, rfl⟩ := trace_setSessionCookie.mp hsetting
  obtain ⟨rfl, heq⟩ := trace_done.mp hset
  cases heq
  exact ⟨sid, _, token, rfl, hencoded, rfl⟩

theorem extracted_fromRequestParts
    (htrace : Trace (Session.fromRequestParts X extension).run history (.ok session)) :
    Extracted extension session history := by
  obtain ⟨_, _, _, hconnecting, hconnected, rfl⟩ := trace_bind_ok.mp htrace
  obtain rfl := trace_perform.mp hconnecting
  split at hconnected
  next =>
    obtain ⟨sid, sql, token, rfl, hencoded, rfl⟩ := trace_makeNewSession hconnected
    cases extension with
    | missingCookie => exact .fresh [⟨.connection, .ok ()⟩] (.missingCookie rfl) rfl hencoded
    | valid presented => contradiction
  next => cases (trace_done.mp hconnected).2
  next claims hclaims =>
    obtain ⟨_, _, _, hpreparing, hprepared, rfl⟩ := trace_bind_ok.mp hconnected
    obtain ⟨_, row, _, hquerying, hqueried, rfl⟩ := trace_bind_ok.mp hprepared
    obtain rfl := trace_perform.mp hpreparing
    obtain rfl := trace_perform.mp hquerying
    split at hqueried
    next userId =>
      obtain ⟨rfl, heq⟩ := trace_done.mp hqueried
      cases heq
      cases extension with
      | missingCookie => cases hclaims
      | valid presented =>
          cases hclaims
          exact .presented rfl rfl
    next =>
      obtain ⟨sid, sql, token, rfl, hencoded, rfl⟩ := trace_makeNewSession hqueried
      cases extension with
      | missingCookie => cases hclaims
      | valid presented =>
          cases hclaims
          exact .fresh [⟨.connection, .ok ()⟩, ⟨.prepareCached _, .ok ()⟩,
            ⟨.querySession claims.sid, .ok none⟩] (.missingRow rfl) rfl hencoded

/-- Where the execution of a call comes from. -/
theorem trace_getExecution {key : FlowKey} {startNew : Bool} {e : ExecId}
    (htrace : Trace (getExecution X key startNew) history (some e)) :
    ⟨.cachedExecution key, some e⟩ ∈ history ∨ ∃ flow storage now,
      ⟨.insertExecution (.new key flow storage now), e⟩ ∈ history := by
  obtain ⟨cached, tail, rfl, htail⟩ := trace_perform_bind.mp htrace
  cases cached with
  | some found =>
      obtain ⟨_, heq⟩ := trace_done.mp htail
      cases heq
      exact Or.inl List.mem_cons_self
  | none =>
      simp only at htail
      split at htail
      next =>
        obtain ⟨flow, _, rfl, hflow⟩ := trace_perform_bind.mp htail
        cases flow with
        | none => cases (trace_done.mp hflow).2
        | some flow =>
            simp only at hflow
            split at hflow
            next => cases (trace_done.mp hflow).2
            next =>
              obtain ⟨freezing, storage, _, _, hfrozen, rfl⟩ := trace_bind.mp hflow
              obtain ⟨now, _, rfl, hnow⟩ := trace_perform_bind.mp hfrozen
              obtain ⟨inserted, _, rfl, hinserted⟩ := trace_perform_bind.mp hnow
              obtain ⟨_, heq⟩ := trace_done.mp hinserted
              cases heq
              exact Or.inr ⟨flow, storage, now, by simp⟩
      next => cases (trace_done.mp htail).2

end Extraction

/-- The execution is filed under the key. -/
def World.FiledUnder (w : World X) (e : ExecId) (key : FlowKey) : Prop :=
  ∃ execution, w.heap[e]? = some execution ∧ execution.key = key

/-- What is filed, in the cache and as the log has shown it. -/
structure Owned (state : World X) (log : Log X) : Prop where
  cached : ∀ key e, state.executions key = some e → state.FiledUnder e key
  found : ∀ entry ∈ log, ∀ key e, entry.event = ⟨.cachedExecution key, some e⟩ →
    state.FiledUnder e key
  inserted : ∀ entry ∈ log, ∀ execution e, entry.event = ⟨.insertExecution execution, e⟩ →
    state.FiledUnder e execution.key
  queried : ∀ entry ∈ log, ∀ sid user, entry.event = ⟨.querySession sid, .ok (some user)⟩ →
    (state.sessions sid).isSome
  created : ∀ entry ∈ log, ∀ sid, entry.event = ⟨.insertSession sid, .ok ()⟩ →
    (state.sessions sid).isSome
  committed : ∀ entry ∈ log, entry.event = ⟨.commit, .ok ()⟩ →
    ∀ uid sid, (uid, sid) ∈ entry.before.transactions entry.who →
      (entry.before.sessions sid).isSome → ∃ uid, state.sessions sid = some (some uid)

section Owned

variable {who : Nat} {state after : World X} {log : Log X} {event : Event (sig X)}
  {moves : World X → World X → Prop}

theorem World.FiledUnder.later {e : ExecId} {key : FlowKey} (hfiled : state.FiledUnder e key)
    (hstep : Step who state event after) : after.FiledUnder e key := by
  obtain ⟨old, hold, rfl⟩ := hfiled
  obtain ⟨execution, hafter, hprecedes, _⟩ := hstep.execution_later hold
  exact ⟨execution, hafter, congrArg Plan.key hprecedes.plan⟩

/-- The row of a session after an operation: the row before, a new one that names nobody, or
what a commit makes of it. -/
theorem Step.row (hstep : Step who state event after) (sid : String) :
    after.sessions sid = state.sessions sid ∨
      (state.sessions sid = none ∧ after.sessions sid = some none) ∨
      (event = ⟨.commit, .ok ()⟩ ∧
        after.sessions = SessionTable.applyUpdates state.sessions (state.transactions who)) := by
  rcases hstep.sessions with heq | ⟨other, _, hfresh, heq⟩ | hcommit
  · exact Or.inl (congrFun heq sid)
  · by_cases hsame : sid = other
    · subst hsame
      exact Or.inr (Or.inl ⟨hfresh, by rw [heq, Function.update_self]⟩)
    · exact Or.inl (by rw [heq, Function.update_of_ne hsame])
  · exact Or.inr (Or.inr hcommit)

/-- Rows stay. -/
theorem Step.row_stays {sid : String} (hstep : Step who state event after)
    (hrow : (state.sessions sid).isSome) : (after.sessions sid).isSome := by
  rcases hstep.row sid with heq | ⟨_, heq⟩ | ⟨_, heq⟩
  · rwa [heq]
  · rw [heq, Option.isSome_some]
  · rwa [heq, SessionTable.applyUpdates_isSome]

/-- A row that names a user goes on naming one. -/
theorem Step.user_stays {sid : String} (hstep : Step who state event after)
    (huser : ∃ uid, state.sessions sid = some (some uid)) :
    ∃ uid, after.sessions sid = some (some uid) := by
  rcases hstep.row sid with heq | ⟨hfresh, _⟩ | ⟨_, heq⟩
  · rwa [heq]
  · obtain ⟨uid, hrow⟩ := huser
    rw [hfresh] at hrow
    cases hrow
  · rw [heq]
    exact SessionTable.applyUpdates_user huser

theorem Step.row_other (hstep : Step who state event after) (hevent : event ≠ ⟨.commit, .ok ()⟩)
    (sid : String) : after.sessions sid = state.sessions sid ∨
      state.sessions sid = none ∧ after.sessions sid = some none := by
  rcases hstep.row sid with heq | hfresh | ⟨hcommit, _⟩
  · exact Or.inl heq
  · exact Or.inr hfresh
  · exact absurd hcommit hevent

theorem Step.sessions_commit (hstep : Step who state ⟨.commit, .ok ()⟩ after) :
    after.sessions = SessionTable.applyUpdates state.sessions (state.transactions who) := by
  cases hstep with
  | observe hobserves => cases hobserves
  | commit => rfl

theorem exec_querySession {sid : String} {user : Option (Option Uuid)}
    (hexec : (machine X moves).Exec who state ⟨.querySession sid, .ok user⟩ after) :
    state.sessions sid = user := by
  obtain ⟨choice, hexec⟩ := hexec
  simp only [machine, exec, Option.some.injEq, Prod.mk.injEq] at hexec
  have hanswer := Choice.db_ok hexec.1
  cases hanswer
  rfl

theorem Step.filed_insertExecution {execution : FlowExecution} {e : ExecId}
    (hstep : Step who state ⟨.insertExecution execution, e⟩ after) :
    after.FiledUnder e execution.key := by
  cases hstep with
  | observe hobserves => cases hobserves
  | insertExecution =>
      refine ⟨execution, ?_, rfl⟩
      simp

theorem Step.row_insertSession {sid : String}
    (hstep : Step who state ⟨.insertSession sid, .ok ()⟩ after) : (after.sessions sid).isSome := by
  cases hstep with
  | observe hobserves => cases hobserves
  | insertSession hfresh => simp [World.setSession]

theorem Step.cached_filed
    (hcached : ∀ key e, state.executions key = some e → state.FiledUnder e key)
    (hstep : Step who state event after) {key : FlowKey} {e : ExecId}
    (hafter : after.executions key = some e) : after.FiledUnder e key := by
  rcases hstep.executions with heq | ⟨execution, rfl, heq⟩ | ⟨other, _, heq⟩
  · rw [heq] at hafter
    exact (hcached key e hafter).later hstep
  · by_cases hsame : key = execution.key
    · rw [heq, hsame, Function.update_self, Option.some.injEq] at hafter
      subst hafter
      rw [hsame]
      exact hstep.filed_insertExecution
    · rw [heq, Function.update_of_ne hsame] at hafter
      exact (hcached key e hafter).later hstep
  · by_cases hsame : key = other
    · rw [heq, hsame, Function.update_self] at hafter
      cases hafter
    · rw [heq, Function.update_of_ne hsame] at hafter
      exact (hcached key e hafter).later hstep

theorem Owned.exec (howned : Owned state log)
    (hexec : (machine X moves).Exec who state event after) :
    Owned after (log ++ [⟨who, state, event⟩]) := by
  have hstep := exec_step hexec
  -- what an entry shows it has shown before, or the operation has just done it
  have hlast : ∀ {entry : Logged (sig X) (World X)}, entry ∈ log ++ [⟨who, state, event⟩] →
      entry ∈ log ∨ entry.event = event := by
    intro entry hmem
    rcases List.mem_append.mp hmem with hmem | hmem
    · exact Or.inl hmem
    · rw [List.mem_singleton.mp hmem]
      exact Or.inr rfl
  constructor
  · exact fun key e hafter => hstep.cached_filed howned.cached hafter
  · intro entry hmem key e hevent
    rcases hlast hmem with hmem | hsame
    · exact (howned.found entry hmem key e hevent).later hstep
    · rw [hevent] at hsame
      subst hsame
      exact (howned.cached key e (exec_cachedExecution hexec)).later hstep
  · intro entry hmem execution e hevent
    rcases hlast hmem with hmem | hsame
    · exact (howned.inserted entry hmem execution e hevent).later hstep
    · rw [hevent] at hsame
      subst hsame
      exact hstep.filed_insertExecution
  · intro entry hmem sid user hevent
    rcases hlast hmem with hmem | hsame
    · exact hstep.row_stays (howned.queried entry hmem sid user hevent)
    · rw [hevent] at hsame
      subst hsame
      refine hstep.row_stays ?_
      rw [exec_querySession hexec]
      rfl
  · intro entry hmem sid hevent
    rcases hlast hmem with hmem | hsame
    · exact hstep.row_stays (howned.created entry hmem sid hevent)
    · rw [hevent] at hsame
      subst hsame
      exact hstep.row_insertSession
  · intro entry hmem hevent uid sid hupdate hrow
    rcases List.mem_append.mp hmem with hmem | hmem
    · exact hstep.user_stays (howned.committed entry hmem hevent uid sid hupdate hrow)
    · obtain rfl := List.mem_singleton.mp hmem
      cases hevent
      rw [hstep.sessions_commit]
      exact SessionTable.applyUpdates_mem hupdate hrow

theorem Owned.release (howned : Owned state log) : Owned (World.release who state) log :=
  ⟨howned.cached, howned.found, howned.inserted, howned.queried, howned.created, howned.committed⟩

theorem Owned.moved (howned : Owned state log) (hmoves : Surroundings state after) :
    Owned after log := by
  have hfiled : ∀ {e key}, state.FiledUnder e key → after.FiledUnder e key := by
    rintro e key ⟨execution, hheap, hkey⟩
    exact ⟨execution, hmoves.heap ▸ hheap, hkey⟩
  constructor
  · intro key e hafter
    rcases hmoves.executions key with hsame | hnone
    · rw [hsame] at hafter
      exact hfiled (howned.cached key e hafter)
    · rw [hnone] at hafter
      cases hafter
  · exact fun entry hmem key e hevent => hfiled (howned.found entry hmem key e hevent)
  · exact fun entry hmem execution e hevent =>
      hfiled (howned.inserted entry hmem execution e hevent)
  · rw [hmoves.sessions]
    exact howned.queried
  · rw [hmoves.sessions]
    exact howned.created
  · rw [hmoves.sessions]
    exact howned.committed

theorem owned_preserved {calls : Nat → Call X} {start : World X} :
    Preserved desk (fun who => handle X (calls who)) start Owned where
  exec := fun howned _ _ _ hexec => howned.exec hexec
  release := fun howned => howned.release
  moves := fun howned hmoves => howned.moved hmoves

theorem owned_initial (hinitial : state.Initial) : Owned state [] where
  cached := by simp [hinitial.executions]
  found := by simp
  inserted := by simp
  queried := by simp
  created := by simp
  committed := by simp

/-- In calls served one after another everything stays where it is filed. -/
theorem served_owned {start : World X} {runs : List (Call X × Reply X)} (hstart : start.Initial)
    (hrun : OneByOne start runs state) : Owned state (logOf runs) ∧
      Throughout (fun past entry => Owned entry.before past) (logOf runs) :=
  (hrun.preserves owned_preserved.throughout ⟨owned_initial hstart, throughout_nil⟩
    (handle_callAt hrun)).1

variable {call : Call X} {session : Session} {e : ExecId}

/-- The execution of a call is filed under its session and flow. -/
theorem Owned.filed_of_found (howned : Owned state log)
    (hfound : Found call (own who log) session e) : ∃ request, call.request? = some request ∧
      state.FiledUnder e { session := session.sessionId, flow := .slug request.flowSlug } := by
  generalize hown : own who log = history at hfound
  cases hfound with
  | @intro request extension session key e startNew opening finding rest hrequest _ _ hkey hgot =>
      refine ⟨request, hrequest, ?_⟩
      cases hkey
      have hmem : ∀ event ∈ finding, event ∈ own who log := by
        intro event hevent
        rw [hown]
        simp [hevent]
      rcases trace_getExecution hgot with hcached | ⟨flow, storage, now, hinserted⟩
      · obtain ⟨entry, hentry, _, hevent⟩ := mem_own.mp (hmem _ hcached)
        exact howned.found entry hentry _ e hevent
      · obtain ⟨entry, hentry, _, hevent⟩ := mem_own.mp (hmem _ hinserted)
        exact howned.inserted entry hentry _ e hevent

theorem Found.opened {history : History X} (hfound : Found call history session e) :
    Opened call history session := by
  cases hfound with
  | intro rest _ hextension hsession _ _ =>
      rw [List.append_assoc]
      exact .intro _ hextension hsession

/-- The session of a call has a row. -/
theorem Owned.row_of_opened (howned : Owned state log)
    (hopened : Opened call (own who log) session) : (state.sessions session.sessionId).isSome := by
  generalize hown : own who log = history at hopened
  cases hopened with
  | @intro extension session opening rest _ htrace =>
      have hmem : ∀ event ∈ opening, event ∈ own who log := by
        intro event hevent
        rw [hown]
        simp [hevent]
      cases extracted_fromRequestParts htrace with
      | @presented claims userId sql hclaims hsession =>
          have hqueried : ⟨.querySession claims.sid, .ok (some userId)⟩ ∈ own who log :=
            hmem _ (by simp)
          obtain ⟨entry, hentry, _, hevent⟩ := mem_own.mp hqueried
          rw [hsession]
          exact howned.queried entry hentry _ _ hevent
      | @fresh asking sid sql token _ hsession hencoded =>
          have hcreated : ⟨.insertSession sid, .ok ()⟩ ∈ own who log := hmem _ (by simp)
          obtain ⟨entry, hentry, _, hevent⟩ := mem_own.mp hcreated
          rw [hsession]
          exact howned.created entry hentry _ hevent

end Owned

end Authust
