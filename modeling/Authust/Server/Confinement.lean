import Authust.Coop.Since
import Authust.Server.Identity
import Authust.Server.Positions

/-! # Sessions do not get into each other's way

A request belongs to a session once its extractor has come to one. However requests interleave,
what a session has (its executions, what is cached of them, its row in the table) is changed by
requests that belong to it alone; a row that names a user never stops to name one.
-/

namespace Authust

open Coop Coop.Task Coop.Machine

variable {X : Externals}

/-- The request behind an entry had come to the session by then. -/
def Belongs (calls : Nat → Call X) (past : Log X) (entry : Logged (sig X) (World X))
    (sid : String) : Prop :=
  ∃ session, Opened (calls entry.who) (own entry.who past) session ∧ session.sessionId = sid

/-- What an operation may change, and of which session. -/
structure Confined (calls : Nat → Call X) (past : Log X) (entry : Logged (sig X) (World X))
    (after : World X) : Prop where
  one : ∀ sid sid', Belongs calls past entry sid → Belongs calls past entry sid' → sid = sid'
  executions : ∀ (e : ExecId) (execution : FlowExecution),
    entry.before.heap[e]? = some execution →
      after.heap[e]? = some execution ∨ Belongs calls past entry execution.key.session
  started : ∀ (e : ExecId) (execution : FlowExecution), entry.before.heap[e]? = none →
    after.heap[e]? = some execution → Belongs calls past entry execution.key.session
  cache : ∀ key, after.executions key = entry.before.executions key ∨
    Belongs calls past entry key.session
  rows : ∀ sid, after.sessions sid = entry.before.sessions sid ∨
    entry.before.sessions sid = none ∧ after.sessions sid = some none ∨
      Belongs calls past entry sid ∧ ∃ uid, after.sessions sid = some (some uid)

/-- What is left of a session when others are served: all of it, and no more, except that the
surroundings may evict what is cached, and that a session which has no row yet may be given one that
names nobody. -/
structure Spared (sid : String) (before after : World X) : Prop where
  executions : ∀ (e : ExecId) (execution : FlowExecution), execution.key.session = sid →
    (after.heap[e]? = some execution ↔ before.heap[e]? = some execution)
  cache : ∀ key, key.session = sid → after.executions key = before.executions key ∨
    after.executions key = none
  row : (before.sessions sid).isSome → after.sessions sid = before.sessions sid
  unopened : before.sessions sid = none →
    after.sessions sid = none ∨ after.sessions sid = some none

section Operations

variable {calls : Nat → Call X} {start state after : World X} {past : Log X} {who : Nat}
  {event : Event (sig X)} {e : ExecId}

/-- The execution that a request has found belongs to its session. -/
theorem Owned.belongs (howned : Owned state past) {session : Session}
    (hfound : Found (calls who) (own who past) session e) {execution : FlowExecution}
    (hheap : state.heap[e]? = some execution) :
    Belongs calls past ⟨who, state, event⟩ execution.key.session := by
  obtain ⟨request, _, old, hold, hkey⟩ := howned.filed_of_found hfound
  rw [hheap] at hold
  cases hold
  exact ⟨session, hfound.opened, by rw [hkey]⟩

/-- An operation on an execution is one of a request of its session. -/
theorem Standing.confined_executions (hstanding : Standing state past)
    (hjustified : Justified (calls who) (own who past) event.op)
    (hstep : Step who state event after) {execution : FlowExecution}
    (hheap : state.heap[e]? = some execution) : after.heap[e]? = some execution ∨
      Belongs calls past ⟨who, state, event⟩ execution.key.session := by
  rcases hstep.execution_stays hheap with hsame | ⟨update, rfl, _⟩ | ⟨rfl, _⟩
  · exact Or.inl hsame
  · obtain ⟨session, hfound⟩ := hjustified.found_of_update
    exact Or.inr (hstanding.owned.belongs hfound hheap)
  · obtain ⟨session, hfound⟩ := hjustified.found_of_complete
    exact Or.inr (hstanding.owned.belongs hfound hheap)

/-- An execution is started for the session of the request. -/
theorem confined_started (hjustified : Justified (calls who) (own who past) event.op)
    (hstep : Step who state event after) {execution : FlowExecution}
    (hfresh : state.heap[e]? = none) (hheap : after.heap[e]? = some execution) :
    Belongs calls past ⟨who, state, event⟩ execution.key.session := by
  rcases hstep.execution hheap with hsame | rfl | ⟨_, old, _, hold, _⟩ | ⟨old, _, hold, _⟩
  · rw [hfresh] at hsame
    cases hsame
  · obtain ⟨session, hopened, hsession⟩ := hjustified.opened_of_insert
    exact ⟨session, hopened, hsession.symm⟩
  · rw [hfresh] at hold
    cases hold
  · rw [hfresh] at hold
    cases hold

/-- The key that a request has asked an execution for is the one it is filed under. -/
theorem Standing.filed_key (hstanding : Standing state past) (hissued : IssuedBy calls past)
    {session : Session} (hfound : Found (calls who) (own who past) session e) {key : FlowKey}
    (hasked : ⟨.getKey e, key⟩ ∈ own who past) : key.session = session.sessionId := by
  obtain ⟨request, _, execution, hheap, hkey⟩ := hstanding.owned.filed_of_found hfound
  obtain ⟨before, _, hmem, hexec⟩ := executed_of_own hissued.executed hasked
  obtain ⟨old, hold, rfl⟩ := exec_getKey hexec
  obtain ⟨later, hlater, hprecedes⟩ := hstanding.later _ hmem e old hold
  rw [hheap] at hlater
  cases hlater
  have hsame : execution.key = old.key := congrArg Plan.key hprecedes.plan
  rw [← hsame, hkey]

/-- What is cached under a key is changed for the session of the key. -/
theorem Standing.confined_cache (hstanding : Standing state past) (hissued : IssuedBy calls past)
    (hjustified : Justified (calls who) (own who past) event.op)
    (hstep : Step who state event after) (key : FlowKey) :
    after.executions key = state.executions key ∨
      Belongs calls past ⟨who, state, event⟩ key.session := by
  rcases hstep.executions with heq | ⟨execution, rfl, heq⟩ | ⟨other, rfl, heq⟩
  · exact Or.inl (congrFun heq key)
  · by_cases hkey : key = execution.key
    · obtain ⟨session, hopened, hsession⟩ := hjustified.opened_of_insert
      exact Or.inr ⟨session, hopened, by rw [hkey, hsession]⟩
    · exact Or.inl (by rw [heq, Function.update_of_ne hkey])
  · by_cases hkey : key = other
    · obtain ⟨session, e, hfound, hasked⟩ := hjustified.found_of_invalidate
      subst hkey
      exact Or.inr ⟨session, hfound.opened, (hstanding.filed_key hissued hfound hasked).symm⟩
    · exact Or.inl (by rw [heq, Function.update_of_ne hkey])

/-- A commit changes at most the row of the session of its request. -/
theorem confined_commit (hstart : start.Initial) (howned : Owned state past)
    (hjustified : Justified (calls who) (own who past) .commit)
    (hview : state.desk who = (own who past).foldl Desk.next (start.desk who))
    (hstep : Step who state ⟨.commit, .ok ()⟩ after) (sid : String) :
    after.sessions sid = state.sessions sid ∨
      Belongs calls past ⟨who, state, event⟩ sid ∧ ∃ uid, after.sessions sid = some (some uid) := by
  rw [hstart.desk] at hview
  have hlisted : state.transactions who = ((own who past).foldl Desk.next ⟨[], none⟩).updates :=
    congrArg Desk.updates hview
  cases hjustified.committing with
  | @intro request session e _ hfound hown _ =>
      have hupdates : ∀ update ∈ state.transactions who, update.2 = session.sessionId := by
        rw [hlisted]
        exact Desk.own_updates hown (by simp)
      rw [hstep.sessions_commit]
      rcases SessionTable.applyUpdates_row hupdates sid with hkept | ⟨uid, hlast⟩
      · exact Or.inl hkept
      · have hsid : sid = session.sessionId := hupdates (uid, sid) (List.mem_of_getLast? hlast)
        subst hsid
        have hrow := howned.row_of_opened hfound.opened
        exact Or.inr ⟨⟨session, hfound.opened, rfl⟩, uid,
          SessionTable.applyUpdates_getLast hlast hrow⟩

/-- Every operation is confined to the session of its request. -/
theorem Standing.confined (hstart : start.Initial) (hstanding : Standing state past)
    (hissued : IssuedBy calls past) (hjustified : Justified (calls who) (own who past) event.op)
    (hview : state.desk who = (own who past).foldl Desk.next (start.desk who))
    (hexec : (server X).Exec who state event after) :
    Confined calls past ⟨who, state, event⟩ after where
  one := by
    rintro _ _ ⟨session, hopened, rfl⟩ ⟨session', hopened', rfl⟩
    rw [hopened.unique hopened']
  executions := fun e execution => hstanding.confined_executions hjustified (exec_step hexec)
  started := fun e execution => confined_started hjustified (exec_step hexec)
  cache := hstanding.confined_cache hissued hjustified (exec_step hexec)
  rows := by
    intro sid
    by_cases hevent : event = ⟨.commit, .ok ()⟩
    · subst hevent
      rcases confined_commit hstart hstanding.owned hjustified hview (exec_step hexec) sid with
        hsame | hlogin
      · exact Or.inl hsame
      · exact Or.inr (Or.inr hlogin)
    · rcases (exec_step hexec).row_other hevent sid with hsame | hfresh
      · exact Or.inl hsame
      · exact Or.inr (Or.inl hfresh)

end Operations

section Stretches

variable {sid : String} {before middle after : World X}

theorem spared_release {who : Nat} : Spared sid before (World.release who before) where
  executions := fun _ _ _ => .rfl
  cache := fun _ _ => Or.inl rfl
  row := fun _ => rfl
  unopened := Or.inl

theorem Spared.trans (hfirst : Spared sid before middle) (hsecond : Spared sid middle after) :
    Spared sid before after where
  executions := by
    intro e execution hkey
    exact (hsecond.executions e execution hkey).trans (hfirst.executions e execution hkey)
  cache := by
    intro key hkey
    rcases hsecond.cache key hkey with hsame | hnone
    · rw [hsame]
      exact hfirst.cache key hkey
    · exact Or.inr hnone
  row := by
    intro hpresent
    have hsame := hfirst.row hpresent
    rw [hsecond.row (hsame ▸ hpresent), hsame]
  unopened := by
    intro hnone
    rcases hfirst.unopened hnone with hnone | hnew
    · exact hsecond.unopened hnone
    · refine Or.inr ?_
      rw [hsecond.row (by simp [hnew]), hnew]

theorem spared_of_moves (hmoves : Surroundings before after) : Spared sid before after where
  executions := by
    intro e execution _
    rw [hmoves.heap]
  cache := fun key _ => hmoves.executions key
  row := fun _ => congrFun hmoves.sessions sid
  unopened := by
    intro hnone
    rw [hmoves.sessions]
    exact Or.inl hnone

/-- An operation of a request of another session leaves a session as it is. -/
theorem Confined.spared {calls : Nat → Call X} {past : Log X} {entry : Logged (sig X) (World X)}
    (hconfined : Confined calls past entry after)
    (hstep : Step entry.who entry.before entry.event after)
    (hother : ¬ Belongs calls past entry sid) : Spared sid entry.before after where
  executions := by
    intro e execution hkey
    subst hkey
    refine ⟨fun hafter => ?_, fun hheap =>
      (hconfined.executions e execution hheap).resolve_right hother⟩
    cases hbefore : entry.before.heap[e]? with
    | none => exact absurd (hconfined.started e execution hbefore hafter) hother
    | some old =>
        -- an execution stays filed under its key
        obtain ⟨later, hlater, hprecedes, _⟩ := hstep.execution_later hbefore
        rw [hafter] at hlater
        cases hlater
        have hkey : execution.key = old.key := congrArg Plan.key hprecedes.plan
        rw [hkey] at hother
        exact ((hconfined.executions e old hbefore).resolve_right hother).symm.trans hafter
  cache := by
    intro key hkey
    subst hkey
    exact Or.inl ((hconfined.cache key).resolve_right hother)
  row := by
    intro hpresent
    rcases hconfined.rows sid with hsame | ⟨hnone, _⟩ | ⟨hbelongs, _⟩
    · exact hsame
    · rw [hnone] at hpresent
      cases hpresent
    · exact absurd hbelongs hother
  unopened := by
    intro hnone
    rcases hconfined.rows sid with hsame | ⟨_, hnew⟩ | ⟨hbelongs, _⟩
    · exact Or.inl (hsame.trans hnone)
    · exact Or.inr hnew
    · exact absurd hbelongs hother

end Stretches

section Runs

variable {calls : Nat → Call X} {start : World X}
  {config : Config (sig X) (World X) (Except ApiErrorKind Response)}

theorem sparedSince_preserved (hstart : start.Initial) (sid : String) :
    Preserved desk (fun who => handle X (calls who)) start fun state log =>
      Standing state log ∧
        Since (fun first entry => ¬ Belongs calls first entry sid) (Spared sid) state log := by
  apply since_preserved standing_preserved
  · intro first second third hfirst hsecond
    exact hfirst.trans hsecond
  · intro who state after log event next hstanding hissued hpath hview hexec hother
    have hconfined := hstanding.confined hstart hissued (justified_of_path hpath) hview hexec
    exact hconfined.spared (exec_step hexec) hother
  · intro who state
    exact spared_release
  · intro state after hmoves
    exact spared_of_moves hmoves

/-- Under every interleaving each operation is confined to the session of its request. -/
theorem interleaved_confined (hstart : start.Initial) (hreach : Interleaved calls start config)
    {past rest : Log X} {entry : Logged (sig X) (World X)}
    (hlog : config.log = past ++ entry :: rest) {after : World X}
    (hexec : (server X).Exec entry.who entry.before entry.event after) :
    Confined calls past entry after := by
  obtain ⟨⟨⟨_, hthroughout⟩, hviewed⟩, hissued, _⟩ :=
    hreach.holds (standing_preserved.throughout.and viewed_preserved)
      ⟨⟨standing_initial hstart, throughout_nil⟩, throughout_nil⟩
  rw [hlog] at hissued
  exact (hthroughout past entry rest hlog).confined hstart hissued.initial
    (issued_justified hissued) (hviewed past entry rest hlog) hexec

/-- Whatever other sessions do between two points of a run, in whichever order, a session is as
it was: its executions are the same ones, and no new one is among them. -/
theorem interleaved_spared (hstart : start.Initial) (hreach : Interleaved calls start config)
    {past middle rest : Log X} {seen later : Logged (sig X) (World X)} {sid : String}
    (hlog : config.log = past ++ seen :: middle ++ later :: rest)
    (hothers : QuietFrom (fun first entry => ¬ Belongs calls first entry sid) past.length
      (past ++ seen :: middle)) : Spared sid seen.before later.before := by
  obtain ⟨⟨_, hthroughout⟩, _, _⟩ :=
    hreach.holds (sparedSince_preserved hstart sid).throughout
      ⟨⟨standing_initial hstart, since_nil⟩, throughout_nil⟩
  exact (hthroughout _ later rest hlog).2 past seen middle rfl hothers

end Runs

section ConfinedRuns

/-- A request without a cookie belongs to no session but the one whose key it has sampled. -/
theorem Belongs.sampled {calls : Nat → Call X} {past : Log X} {entry : Logged (sig X) (World X)}
    {sid : String} (hbelongs : Belongs calls past entry sid)
    (hcookie : (calls entry.who).cookie = none) :
    ⟨.sampleSessionKey, sid⟩ ∈ own entry.who past := by
  obtain ⟨session, hopened, rfl⟩ := hbelongs
  generalize hown : own entry.who past = history at hopened
  cases hopened with
  | @intro extension session opening rest hextension hsession =>
      cases extracted_fromRequestParts hsession with
      | presented hclaims heq =>
          rw [hclaims] at hextension
          obtain ⟨token, hpresented, _⟩ := decoded_of_handleAuth hextension
          rw [hcookie] at hpresented
          cases hpresented
      | fresh asking _ heq _ => simp [heq]

/-- A member fetches the flow, and then somebody who has no session yet. -/
def strangerCalls : Nat → Call Externals.plain
  | 0 => sampleGet
  | _ => .getFlow { sampleRequest [] with cookie := none }

def strangerSchedule : List (Act Choice) :=
  Act.awaits 0 .normal 11 ++ Act.awaits 1 (.key "t") 11

/-- The first so many entries of a log, two further ones, and what is between and behind them. -/
theorem log_split {log : Log X} {first count : Nat} (hlength : first + count + 1 < log.length) :
    ∃ past seen middle later rest, log = past ++ seen :: middle ++ later :: rest ∧
      past = log.take first ∧ later :: rest = log.drop (first + count + 1) := by
  obtain ⟨seen, tail, hseen⟩ : ∃ seen tail, log.drop first = seen :: tail := by
    refine List.exists_cons_of_ne_nil (List.ne_nil_of_length_pos ?_)
    rw [List.length_drop]
    omega
  obtain ⟨later, rest, hlater⟩ : ∃ later rest, tail.drop count = later :: rest := by
    refine List.exists_cons_of_ne_nil (List.ne_nil_of_length_pos ?_)
    have htail := congrArg List.length hseen
    simp only [List.length_drop, List.length_cons] at htail
    rw [List.length_drop]
    omega
  refine ⟨log.take first, seen, tail.take count, later, rest, ?_, rfl, ?_⟩
  · rw [← hlater, List.append_assoc, List.cons_append, List.take_append_drop, ← hseen,
      List.take_append_drop]
  · rw [← hlater, Nat.add_assoc, ← List.drop_drop, hseen, List.drop_succ_cons]

theorem stranger_run : (sampleRun oneForm strangerCalls strangerSchedule).map (fun config =>
    (config.log.length, (config.log.drop 28).all (fun entry => entry.who = 1),
      config.log.all fun entry => match entry.event with
        | ⟨.sampleSessionKey, key⟩ => key = "t"
        | _ => true)) = some (58, true, true) := by
  decide +kernel

/-- A member fetches the flow, and then somebody without a session does. -/
theorem stranger_log : ∃ config past seen middle later rest,
    Interleaved strangerCalls oneForm config ∧
      config.log = past ++ seen :: middle ++ later :: rest ∧ past.length = 28 ∧
        QuietFrom (fun first entry => ¬ Belongs strangerCalls first entry "s") past.length
          (past ++ seen :: middle) := by
  obtain ⟨config, hrun, hresult⟩ := Option.map_eq_some_iff.mp stranger_run
  simp only [Prod.mk.injEq] at hresult
  obtain ⟨hlength, hstranger, hsampled⟩ := hresult
  obtain ⟨past, seen, middle, later, rest, hlog, hpast, _⟩ :=
    @log_split _ config.log 28 28 (by omega)
  have hcount : past.length = 28 := by
    rw [hpast, List.length_take]
    omega
  refine ⟨config, past, seen, middle, later, rest, sampleRun_interleaved hrun, hlog, hcount, ?_⟩
  intro first entry second hsplit hnumber hbelongs
  have hsame : config.log = first ++ entry :: second ++ later :: rest := by rw [hlog, hsplit]
  -- all that is logged behind the first 28 entries is of the request without a cookie
  have hwho : entry.who = 1 := by
    have hmem : entry ∈ config.log.drop 28 := by
      rw [hsame, List.append_assoc, List.drop_append_of_le_length (by omega)]
      simp
    simpa using List.all_eq_true.mp hstranger entry hmem
  have hcookie : (strangerCalls entry.who).cookie = none := by
    rw [hwho]
    rfl
  obtain ⟨other, hother, _, hevent⟩ := mem_own.mp (hbelongs.sampled hcookie)
  have hkey := List.all_eq_true.mp hsampled other (by simp [hsame, hother])
  rw [hevent] at hkey
  simp at hkey

/-- What the member has is spared when somebody else fetches the flow. -/
theorem stranger_spared : ∃ config past seen middle later rest,
    Interleaved strangerCalls oneForm config ∧
      config.log = past ++ seen :: middle ++ later :: rest ∧ past.length = 28 ∧
        Spared "s" seen.before later.before := by
  obtain ⟨config, past, seen, middle, later, rest, hreach, hlog, hcount, hquiet⟩ := stranger_log
  exact ⟨config, past, seen, middle, later, rest, hreach, hlog, hcount,
    interleaved_spared (World.boot_initial _ _ _ _ _ _) hreach hlog hquiet⟩

/-- An operation of that run is confined to the session of its request. -/
theorem stranger_confined : ∃ config past entry rest after,
    Interleaved strangerCalls oneForm config ∧ config.log = past ++ entry :: rest ∧
      (server Externals.plain).Exec entry.who entry.before entry.event after ∧
        Confined strangerCalls past entry after := by
  obtain ⟨config, past, seen, middle, later, rest, hreach, hlog, _⟩ := stranger_log
  have hinitial : oneForm.Initial := World.boot_initial _ _ _ _ _ _
  have hissued := (hreach.holds standing_preserved (standing_initial hinitial)).2.1
  obtain ⟨after, hexec⟩ := hissued.executed later (by simp [hlog])
  exact ⟨config, _, later, rest, after, hreach, hlog, hexec,
    interleaved_confined hinitial hreach hlog hexec⟩

end ConfinedRuns

end Authust
