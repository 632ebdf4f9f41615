import Authust.Coop.Replay
import Authust.Server.Attention
import Authust.Server.Confinement
import Authust.Server.Course
import Authust.Server.Locks

/-! # Requests that overlap

A request that presents a session and overlaps with requests of other sessions only might as well
have been served by itself, at the moment of its first operation.
-/

namespace Authust

open Coop Coop.Task Coop.Machine

variable {X : Externals}

/-- The cache of executions after an event. -/
def cacheNext (cache : FlowKey → Option ExecId) : Event (sig X) → FlowKey → Option ExecId
  | ⟨.insertExecution execution, e⟩ => Function.update cache execution.key (some e)
  | ⟨.invalidateExecution key, _⟩ => Function.update cache key none
  | _ => cache

/-- What updates make of a row depends on nothing else. -/
theorem SessionTable.applyUpdates_congr {sessions sessions' : SessionTable} {sid : String}
    (hsame : sessions' sid = sessions sid) (updates : List (Uuid × String)) :
    applyUpdates sessions' updates sid = applyUpdates sessions updates sid := by
  induction updates generalizing sessions sessions' with
  | nil => exact hsame
  | cons update rest ih =>
      obtain ⟨uid, row⟩ := update
      by_cases hrow : sid = row
      · subst hrow
        cases hfirst : sessions sid with
        | none => simpa only [applyUpdates, hsame, hfirst] using ih hsame
        | some user =>
            simp only [applyUpdates, hsame, hfirst]
            apply ih
            rw [Function.update_self, Function.update_self]
      · have hfirst : ∀ table : SessionTable, ∃ table' : SessionTable, table' sid = table sid ∧
            applyUpdates table ((uid, row) :: rest) = applyUpdates table' rest := by
          intro table
          cases hpresent : table row with
          | none => exact ⟨table, rfl, by simp only [applyUpdates, hpresent]⟩
          | some user =>
              refine ⟨Function.update table row (some (some uid)), ?_, ?_⟩
              · rw [Function.update_of_ne hrow]
              · simp only [applyUpdates, hpresent]
        obtain ⟨table, htable, heq⟩ := hfirst sessions
        obtain ⟨table', htable', heq'⟩ := hfirst sessions'
        rw [heq, heq']
        apply ih
        rw [htable, htable', hsame]

namespace Step

variable {who : Nat} {before after imagined later : World X} {event : Event (sig X)}

theorem users (hstep : Step who before event after) : after.users = before.users := by
  cases hstep <;> rfl

theorem policies (hstep : Step who before event after) : after.policies = before.policies := by
  cases hstep <;> rfl

theorem cache_next (hstep : Step who before event after) :
    after.executions = cacheNext before.executions event := by
  cases hstep with
  | observe hobserves =>
      obtain ⟨op, res⟩ := event
      cases op with
      | insertExecution | invalidateExecution => cases hobserves
      | _ => rfl
  | _ => rfl

/-- The guards of the only request that keeps any. -/
theorem readers_next {kept : List ExecId} (hstep : Step who before event after)
    (hreaders : before.readers = kept.map (Prod.mk who)) :
    after.readers = (keptNext contextRegion kept event).map (Prod.mk who) := by
  cases hstep with
  | observe hobserves =>
      obtain ⟨op, res⟩ := event
      cases op with
      | lockContext | unlockContext => cases hobserves
      | _ => exact hreaders
  | lockContext e => exact congrArg (List.cons (who, e)) hreaders
  | unlockContext e =>
      have hinjective : Function.Injective (Prod.mk who : ExecId → Nat × ExecId) :=
        Prod.mk_right_injective who
      simp only [keptNext, contextRegion, hreaders, List.map_erase hinjective]
  | _ => exact hreaders

/-- A row after the same event in two states that have the row and the transaction alike. -/
theorem row_alike {sid : String} (hstep : Step who before event after)
    (hstep' : Step who imagined event later) (hrow : (before.sessions sid).isSome)
    (hsame : imagined.sessions sid = before.sessions sid)
    (hdesk : imagined.desk who = before.desk who) :
    later.sessions sid = after.sessions sid := by
  by_cases hevent : event = ⟨.commit, .ok ()⟩
  · subst hevent
    have hupdates : imagined.transactions who = before.transactions who :=
      congrArg Desk.updates hdesk
    rw [hstep.sessions_commit, hstep'.sessions_commit, hupdates]
    exact SessionTable.applyUpdates_congr hsame _
  · have hkept : ∀ {state state' : World X}, Step who state event state' →
        (state.sessions sid).isSome → state'.sessions sid = state.sessions sid := by
      intro state state' hstep hrow
      rcases hstep.row_other hevent sid with heq | ⟨hnone, _⟩
      · exact heq
      · rw [hnone] at hrow
        cases hrow
    rw [hkept hstep hrow, hkept hstep' (by rwa [hsame]), hsame]

/-- The cache of trees after an operation. -/
theorem asts (hstep : Step who before event after) : after.asts = before.asts ∨
    ∃ uid init tree, event = ⟨.optionallyGetWith uid init, tree⟩ ∧
      after.asts = Function.update before.asts uid ((before.asts uid).or init) := by
  cases hstep with
  | @compile uid ast hasts => exact Or.inr ⟨uid, some ast, some ast, rfl, by rw [hasts]; rfl⟩
  | _ => exact Or.inl rfl

end Step

/-- What the surroundings have a part in has gone through, and has been answered as they would
have answered it in the state. -/
def Calm (w : World X) : Event (sig X) → Prop
  | ⟨.connection, res⟩ => res = .ok ()
  | ⟨.transaction, res⟩ => res = .ok ()
  | ⟨.commit, res⟩ => res = .ok ()
  | ⟨.prepareCached _, res⟩ => res = .ok ()
  | ⟨.updateSession _ _, res⟩ => res = .ok ()
  | ⟨.querySession _, res⟩ => res.isOk = true
  | ⟨.queryUser key, res⟩ => res = w.queryUser key
  | ⟨.queryPassword uid, res⟩ =>
      res = (w.queryUser (.uid uid)).map fun row => row.map UserRow.password
  | ⟨.cachedExecution key, res⟩ => res = w.executions key
  | ⟨.livePolicy reference, res⟩ => res = w.policies reference
  | ⟨.optionallyGetWith uid init, res⟩ => res = (w.asts uid).or init
  | _ => True

/-- What the request of a run and the one that is served by itself have before them. -/
structure Reflects (seen : World X) (key : FlowKey) (e : ExecId) (who : Nat) (history : History X)
    (state imagined : World X) : Prop where
  obtained : ∀ found ∈ obtained history, found = (key, e)
  live : ∀ uid policy, ⟨.livePolicy (.uid uid), some policy⟩ ∈ history →
    seen.policies (.uid uid) = some policy
  straight : ¬ Astray key history
  filed : state.FiledUnder e key
  row : (state.sessions key.session).isSome
  heap : imagined.heap[e]? = state.heap[e]?
  sessions : imagined.sessions key.session = state.sessions key.session
  cache : state.executions key = imagined.executions key ∨ state.executions key = none
  users : imagined.users = seen.users
  policies : imagined.policies = seen.policies
  trees : ∀ uid policy, seen.policies (.uid uid) = some policy →
    (imagined.asts uid).or (compilePolicy X policy) = (seen.asts uid).or (compilePolicy X policy)
  unasked : Authust.obtained history = [] → imagined.executions key = seen.executions key
  desk : imagined.desk who = history.foldl Desk.next ⟨[], none⟩
  readers : imagined.readers = (keptAfter contextRegion history).map (Prod.mk who)

section Answers

variable {seen state after imagined later : World X} {key : FlowKey} {e : ExecId} {who : Nat}
  {history : History X} {event : Event (sig X)}

/-- An operation on an execution is answered alike where the execution is the same. -/
theorem exec_alike {op : Op X} {res : op.Res} {choice : Choice}
    (hexecution : op.execution? = some e) (hheap : imagined.heap[e]? = state.heap[e]?)
    (hfree : contextRegion op = .writing e → imagined.readLocked e = false)
    (hexec : exec X who op choice state = some (res, after)) :
    ∃ later, exec X who op .normal imagined = some (res, later) := by
  cases op with
  | lockContext | unlockContext =>
      cases hexec
      exact ⟨_, rfl⟩
  | getFlow | getKey | readContext | isCompleted | completeCurrent =>
      cases hexecution
      obtain ⟨execution, hfound, hresult⟩ := Option.map_eq_some_iff.mp hexec
      cases hresult
      rw [← hheap] at hfound
      exact ⟨_, Option.map_eq_some_iff.mpr ⟨execution, hfound, rfl⟩⟩
  | useMutContext named update =>
      cases hexecution
      simp only [exec] at hexec
      split at hexec
      next => cases hexec
      next =>
        obtain ⟨execution, hfound, hresult⟩ := Option.map_eq_some_iff.mp hexec
        cases hresult
        rw [← hheap] at hfound
        refine ⟨imagined.modifyExecution e fun execution => execution.useMutContext update, ?_⟩
        simp [exec, hfree rfl, hfound]
  | getEntry | frozenStage | frozenPolicy =>
      cases hexecution
      obtain ⟨execution, hfound, hbound⟩ := Option.bind_eq_some_iff.mp hexec
      obtain ⟨answer, hanswer, hresult⟩ := Option.map_eq_some_iff.mp hbound
      cases hresult
      rw [← hheap] at hfound
      exact ⟨imagined, Option.bind_eq_some_iff.mpr
        ⟨execution, hfound, Option.map_eq_some_iff.mpr ⟨_, hanswer, rfl⟩⟩⟩
  | _ => cases hexecution

/-- Where a request that has not gone astray leaves what is nobody else's. -/
theorem Attentive.straying {op : Op X} (hattentive : Attentive key history op)
    (hstraight : ¬ Astray key history) (hstrays : op.strays = true) :
    op = .querySession key.session ∨ op = .cachedExecution key ∨
      ∃ uid live, ⟨.livePolicy (.uid uid), some live⟩ ∈ history ∧
        op = .optionallyGetWith live.uid (compilePolicy X live) := by
  cases hattentive with
  | plain hplain =>
      rw [hplain] at hstrays
      cases hstrays
  | row => exact Or.inl rfl
  | cached => exact Or.inr (Or.inl rfl)
  | tree hlive => exact Or.inr (Or.inr ⟨_, _, hlive, rfl⟩)
  | astray hastray => exact absurd hastray hstraight

/-- The cache is asked for an execution before any has been obtained. -/
theorem Grounded.unobtained (hgrounded : Grounded history (.cachedExecution key)) :
    obtained history = [] := by
  cases hgrounded with
  | plain hplain => cases hplain
  | works _ hworks =>
      cases hworks with
      | plain hplain => cases hplain
      | direct hexecution _ => cases hexecution
  | cachedExecution hseeking => exact hseeking.unobtained

/-- Something has been obtained by whom an execution has been answered. -/
theorem Found.obtained {call : Call X} {session : Session}
    (hfound : Found call history session e) : obtained history ≠ [] := by
  cases hfound with
  | intro rest _ _ _ _ htrace =>
      rw [obtained_append, obtained_append, obtained_getExecution htrace]
      simp

variable (hreflects : Reflects seen key e who history state imagined)

include hreflects

/-- The row of the session is read alike. -/
theorem Reflects.answered_row {res : (sig X).Res (.querySession key.session)}
    (hcalm : Calm seen ⟨.querySession key.session, res⟩)
    (hexec : (server X).Exec who state ⟨.querySession key.session, res⟩ after) :
    ∃ later, exec X who (.querySession key.session) .normal imagined = some (res, later) := by
  obtain ⟨choice, hexec⟩ := hexec
  have hexec : exec X who (.querySession key.session) choice state = some (res, after) := hexec
  cases hexec
  have hanswer : choice.db (.ok (state.sessions key.session)) =
      .ok (imagined.sessions key.session) := by
    rw [hreflects.sessions]
    cases choice with
    | fail conflict => cases hcalm
    | normal | key => rfl
  simp only [hanswer]
  exact ⟨imagined, rfl⟩

/-- The cache is asked before anything has been dropped from it. -/
theorem Reflects.answered_cached {res : (sig X).Res (.cachedExecution key)}
    (hgrounded : Grounded history (.cachedExecution key))
    (hcalm : Calm seen ⟨.cachedExecution key, res⟩) :
    ∃ later, exec X who (.cachedExecution key) .normal imagined = some (res, later) := by
  have hanswer : res = imagined.executions key := by
    rw [hreflects.unasked hgrounded.unobtained]
    exact hcalm
  rw [hanswer]
  exact ⟨imagined, rfl⟩

/-- The tree of a live policy is what the policy compiles to, whoever has compiled it. -/
theorem Reflects.answered_tree {asked : Int} {live : Policy}
    {res : (sig X).Res (.optionallyGetWith live.uid (compilePolicy X live))}
    (hfinds : seen.FindsByUid) (hlive : ⟨.livePolicy (.uid asked), some live⟩ ∈ history)
    (hcalm : Calm seen ⟨.optionallyGetWith live.uid (compilePolicy X live), res⟩) :
    ∃ later, exec X who (.optionallyGetWith live.uid (compilePolicy X live)) .normal imagined =
      some (res, later) := by
  have hpolicy := hreflects.live asked live hlive
  obtain rfl := hfinds asked live hpolicy
  have hanswer : res = (imagined.asts live.uid).or (compilePolicy X live) := by
    rw [hreflects.trees live.uid live hpolicy]
    exact hcalm
  have hgoes : ∃ tree later, exec X who
      (.optionallyGetWith live.uid (compilePolicy X live)) .normal imagined =
        some (tree, later) := by
    simp only [exec]
    split <;> exact ⟨_, _, rfl⟩
  obtain ⟨tree, later, hlater⟩ := hgoes
  obtain ⟨htree, _⟩ := exec_optionallyGetWith hlater
  exact ⟨later, by rw [hlater, htree, hanswer]⟩

/-- An operation on an execution is one on what the request has obtained. -/
theorem Reflects.answered_working (hexecution : event.op.execution?.isSome)
    (hgrounded : Grounded history event.op)
    (hguards : WritesUnguarded contextRegion history event.op)
    (hexec : (server X).Exec who state event after) :
    ∃ later, exec X who event.op .normal imagined = some (event.res, later) := by
  obtain ⟨choice, hexec⟩ := hexec
  obtain ⟨named, hnamed⟩ := Option.isSome_iff_exists.mp hexecution
  obtain ⟨asked, hobtained⟩ := hgrounded.names hnamed
  cases hreflects.obtained _ hobtained
  refine exec_alike hnamed hreflects.heap (fun hwriting => ?_) hexec
  rw [World.readLocked, hreflects.readers, List.any_eq_false]
  intro guard hmem
  obtain ⟨lock, hlock, rfl⟩ := List.mem_map.mp hmem
  simp only [decide_eq_true_eq]
  rintro rfl
  exact hguards lock hwriting hlock

/-- The rest is answered by what the two share. -/
theorem Reflects.answered_plain (hexecution : event.op.execution? = none)
    (hplain : event.op.strays = false) (hdesk : imagined.desk who = state.desk who)
    (hcalm : Calm seen event) (hexec : (server X).Exec who state event after) :
    ∃ later, exec X who event.op .normal imagined = some (event.res, later) := by
  obtain ⟨choice, hexec⟩ := hexec
  obtain ⟨op, res⟩ := event
  have hexec : exec X who op choice state = some (res, after) := hexec
  cases op with
  | getFlow | getKey | readContext | useMutContext | getEntry | completeCurrent | isCompleted
    | lockContext | unlockContext | frozenStage | frozenPolicy => cases hexecution
  | sampleSessionKey | now | insertExecution | insertSession | liveFlow | liveStage | livePrompt
    | querySession | cachedExecution | optionallyGetWith => cases hplain
  | panic message => cases hexec
  | addCookie | invalidateExecution | verifyPassword =>
      cases hexec
      exact ⟨_, rfl⟩
  | addedCookie =>
      cases hexec
      exact ⟨imagined, congrArg (fun desk => some (Desk.cookie desk, imagined)) hdesk⟩
  | connection | transaction | commit | prepareCached | updateSession =>
      rw [show res = .ok () from hcalm]
      exact ⟨_, rfl⟩
  | queryUser asked =>
      have hanswer : res = imagined.queryUser asked := by
        rw [World.queryUser, hreflects.users]
        exact hcalm
      rw [hanswer]
      exact ⟨imagined, rfl⟩
  | queryPassword uid =>
      have hanswer : res = (imagined.queryUser (.uid uid)).map
          fun row => row.map UserRow.password := by
        rw [World.queryUser, hreflects.users]
        exact hcalm
      rw [hanswer]
      exact ⟨imagined, rfl⟩
  | livePolicy reference =>
      have hanswer : res = imagined.policies reference := by
        rw [hreflects.policies]
        exact hcalm
      rw [hanswer]
      exact ⟨imagined, rfl⟩

variable (hattentive : Attentive key history event.op)

include hattentive

/-- What the surroundings might have changed is the session's own, or a tree. -/
theorem Reflects.answered_straying (hstrays : event.op.strays = true)
    (hgrounded : Grounded history event.op) (hfinds : seen.FindsByUid) (hcalm : Calm seen event)
    (hexec : (server X).Exec who state event after) :
    ∃ later, exec X who event.op .normal imagined = some (event.res, later) := by
  obtain ⟨op, res⟩ := event
  rcases hattentive.straying hreflects.straight hstrays with hop | hop | ⟨asked, live, hlive, hop⟩
  · obtain rfl : op = .querySession key.session := hop
    exact hreflects.answered_row hcalm hexec
  · obtain rfl : op = .cachedExecution key := hop
    exact hreflects.answered_cached hgrounded hcalm
  · obtain rfl : op = .optionallyGetWith live.uid (compilePolicy X live) := hop
    exact hreflects.answered_tree hfinds hlive hcalm

/-- The operation is answered alike where the request is served by itself. -/
theorem Reflects.answered (hgrounded : Grounded history event.op)
    (hguards : WritesUnguarded contextRegion history event.op)
    (hfinds : seen.FindsByUid) (hdesk : imagined.desk who = state.desk who)
    (hcalm : Calm seen event) (hexec : (server X).Exec who state event after) :
    ∃ later, exec X who event.op .normal imagined = some (event.res, later) := by
  cases hexecution : event.op.execution? with
  | some named =>
      exact hreflects.answered_working (by rw [hexecution]; rfl) hgrounded hguards hexec
  | none =>
      cases hstrays : event.op.strays with
      | true => exact hreflects.answered_straying hattentive hstrays hgrounded hfinds hcalm hexec
      | false => exact hreflects.answered_plain hexecution hstrays hdesk hcalm hexec

/-- What is asked of the cache is the execution of the key, and nothing is inserted. -/
theorem Reflects.asks {asked : FlowKey} {found : ExecId} (hcached : seen.executions key = some e)
    (hcalm : Calm seen event) (hobtains : obtains event = some (asked, found)) :
    (asked, found) = (key, e) := by
  obtain ⟨op, res⟩ := event
  cases op with
  | cachedExecution other =>
      have hkey : other = key := by
        cases hattentive with
        | plain hplain => cases hplain
        | cached => rfl
        | astray hastray => exact absurd hastray hreflects.straight
      subst hkey
      rw [Calm, hcached] at hcalm
      subst hcalm
      cases hobtains
      rfl
  | insertExecution execution =>
      cases hattentive with
      | plain hplain => cases hplain
      | astray hastray => exact absurd hastray hreflects.straight
  | _ => cases hobtains

/-- Nothing is inserted. -/
theorem Reflects.inserts_nothing {execution : FlowExecution} :
    event.op ≠ .insertExecution execution := by
  intro hop
  rw [hop] at hattentive
  rcases hattentive.straying hreflects.straight rfl with hrow | hcached | ⟨_, _, _, htree⟩
  · cases hrow
  · cases hcached
  · cases htree

/-- What the request leaves of the cache. -/
theorem Reflects.cache_cases (asked : FlowKey) :
    (∀ cache : FlowKey → Option ExecId, cacheNext cache event asked = cache asked) ∨
      event.op = .invalidateExecution asked ∧
        ∀ cache : FlowKey → Option ExecId, cacheNext cache event asked = none := by
  have hnothing := fun execution => @inserts_nothing X _ _ _ _ _ _ _ event hreflects hattentive
    execution
  obtain ⟨op, res⟩ := event
  cases op with
  | insertExecution execution => exact absurd rfl (hnothing execution)
  | invalidateExecution dropped =>
      by_cases hsame : asked = dropped
      · subst hsame
        exact Or.inr ⟨rfl, fun cache => Function.update_self ..⟩
      · exact Or.inl fun cache => Function.update_of_ne hsame ..
  | _ => exact Or.inl fun cache => rfl

/-- The trees stay those that were going to be compiled. -/
theorem Reflects.trees_next (hfinds : seen.FindsByUid) (hstep : Step who imagined event later)
    {uid : Int} {policy : Policy} (hpolicy : seen.policies (.uid uid) = some policy) :
    (later.asts uid).or (compilePolicy X policy) = (seen.asts uid).or (compilePolicy X policy) := by
  have hbefore := hreflects.trees uid policy hpolicy
  rcases hstep.asts with heq | ⟨asked, init, tree, rfl, heq⟩
  · rw [heq]
    exact hbefore
  · rw [heq]
    by_cases hsame : uid = asked
    · subst hsame
      rcases hattentive.straying hreflects.straight rfl with
        hrow | hcached | ⟨found, live, hasked, htree⟩
      · cases hrow
      · cases hcached
      · cases htree
        have hlive := hreflects.live found live hasked
        obtain rfl := hfinds found live hlive
        obtain rfl : live = policy := Option.some.inj (hlive.symm.trans hpolicy)
        rw [Function.update_self, ← hbefore, Option.or_assoc, Option.or_self]
    · rw [Function.update_of_ne hsame]
      exact hbefore

/-- Nothing but the execution of the key is obtained. -/
theorem Reflects.obtained_next (hcached : seen.executions key = some e) (hcalm : Calm seen event) :
    ∀ found ∈ Authust.obtained (history ++ [event]), found = (key, e) := by
  intro found hfound
  rw [obtained_append] at hfound
  rcases List.mem_append.mp hfound with hfound | hfound
  · exact hreflects.obtained found hfound
  · obtain ⟨same, hmem, hobtains⟩ := List.mem_filterMap.mp hfound
    obtain rfl := List.mem_singleton.mp hmem
    exact hreflects.asks hattentive hcached hcalm hobtains

/-- What is cached under the key stays the same in both, or is dropped. -/
theorem Reflects.cache_next (hstep : Step who state event after)
    (hstep' : Step who imagined event later) :
    after.executions key = later.executions key ∨ after.executions key = none := by
  rw [hstep.cache_next, hstep'.cache_next]
  rcases hreflects.cache_cases hattentive key with hkept | ⟨_, hnone⟩
  · rw [hkept, hkept]
    exact hreflects.cache
  · exact Or.inr (hnone _)

/-- Who drops an execution has obtained one. -/
theorem Reflects.unasked_next {call : Call X} (hjustified : Justified call history event.op)
    (hstep' : Step who imagined event later)
    (hnone : Authust.obtained (history ++ [event]) = []) :
    later.executions key = seen.executions key := by
  rw [obtained_append] at hnone
  have hearlier := (List.append_eq_nil_iff.mp hnone).1
  rw [hstep'.cache_next]
  rcases hreflects.cache_cases hattentive key with hkept | ⟨hop, _⟩
  · rw [hkept]
    exact hreflects.unasked hearlier
  · rw [hop] at hjustified
    obtain ⟨_, _, hfound, _⟩ := hjustified.found_of_invalidate
    exact absurd hearlier hfound.obtained

omit hattentive in
theorem Reflects.live_next (hcalm : Calm seen event) :
    ∀ uid policy, ⟨.livePolicy (.uid uid), some policy⟩ ∈ history ++ [event] →
      seen.policies (.uid uid) = some policy := by
  intro uid policy hmem
  rcases List.mem_append.mp hmem with hmem | hmem
  · exact hreflects.live uid policy hmem
  · obtain rfl := List.mem_singleton.mp hmem
    exact Eq.symm hcalm

omit hattentive in
/-- The row and the execution are there, so that the request does not go astray. -/
theorem Reflects.straight_next (hcached : seen.executions key = some e) (hcalm : Calm seen event)
    (hexec : (server X).Exec who state event after) : ¬ Astray key (history ++ [event]) := by
  rintro (hmem | hmem)
  · rcases List.mem_append.mp hmem with hmem | hmem
    · exact hreflects.straight (Or.inl hmem)
    · obtain rfl := List.mem_singleton.mp hmem
      have hrow := hreflects.row
      rw [exec_querySession hexec] at hrow
      cases hrow
  · rcases List.mem_append.mp hmem with hmem | hmem
    · exact hreflects.straight (Or.inr hmem)
    · obtain rfl := List.mem_singleton.mp hmem
      rw [Calm, hcached] at hcalm
      cases hcalm

omit hattentive in
theorem Reflects.heap_next (hstep : Step who state event after)
    (hstep' : Step who imagined event later) : later.heap[e]? = after.heap[e]? := by
  obtain ⟨execution, hheap, _⟩ := hreflects.filed
  rw [hstep.execution_worked hheap, hstep'.execution_worked (hreflects.heap.trans hheap)]

/-- What the operation leaves of what the two have before them. -/
theorem Reflects.snoc {call : Call X} (hcached : seen.executions key = some e)
    (hfinds : seen.FindsByUid) (hjustified : Justified call history event.op)
    (hdesk : imagined.desk who = state.desk who) (hcalm : Calm seen event)
    (hexec : (server X).Exec who state event after)
    (hlater : exec X who event.op .normal imagined = some (event.res, later)) :
    Reflects seen key e who (history ++ [event]) after later := by
  have hstep := exec_step hexec
  have hstep' : Step who imagined event later :=
    exec_step (show (server X).Exec who imagined event later from ⟨.normal, hlater⟩)
  constructor
  case obtained => exact hreflects.obtained_next hattentive hcached hcalm
  case live => exact hreflects.live_next hcalm
  case straight => exact hreflects.straight_next hcached hcalm hexec
  case filed => exact hreflects.filed.later hstep
  case row => exact hstep.row_stays hreflects.row
  case heap => exact hreflects.heap_next hstep hstep'
  case sessions => exact hstep.row_alike hstep' hreflects.row hreflects.sessions hdesk
  case cache => exact hreflects.cache_next hattentive hstep hstep'
  case users => rw [hstep'.users, hreflects.users]
  case policies => rw [hstep'.policies, hreflects.policies]
  case trees => exact fun uid policy => hreflects.trees_next hattentive hfinds hstep'
  case unasked => exact hreflects.unasked_next hattentive hjustified hstep'
  case desk =>
    rw [hstep'.desk_self, hreflects.desk, List.foldl_append]
    rfl
  case readers =>
    rw [keptAfter_snoc]
    exact hstep'.readers_next hreflects.readers

end Answers

/-- The request, which goes on as in the surroundings of the state, or another one that is not of
its session. -/
structure Apart (calls : Nat → Call X) (sid : String) (w : World X) (who : Nat) (past : Log X)
    (entry : Logged (sig X) (World X)) : Prop where
  calm : entry.who = who → Calm w entry.event
  others : entry.who ≠ who → ¬ Belongs calls past entry sid

/-- The world in the surroundings of another one, with nobody else about. -/
def World.amid (w surroundings : World X) : World X :=
  { w with
    users := surroundings.users
    policies := surroundings.policies
    asts := surroundings.asts
    executions := surroundings.executions
    readers := [] }

/-- The visitor of a setting is there, as far as his session is concerned. -/
structure Stands (setting : Setting X) (visit : Visit) (w : World X) : Prop where
  heap : w.heap[setting.e]? = some (visit.place setting.execution)
  row : w.sessions setting.execution.key.session = some visit.user
  cache : w.executions setting.execution.key = some setting.e ∨
    w.executions setting.execution.key = none

/-- In the world of the setting the execution is cached, and policies are found by their uid. -/
structure Setting.Stable (setting : Setting X) : Prop where
  cached : setting.world.executions setting.execution.key = some setting.e
  finds : setting.world.FindsByUid

section Following

variable {calls : Nat → Call X} {start seen state after imagined : World X} {setting : Setting X}
  {visit : Visit} {request : Request X} {claims : Claims} {who : Nat} {log : Log X}
  {history : History X}

/-- Before its first operation a request has before it what it would have by itself. -/
theorem Stands.reflects (hstands : Stands setting visit seen) (hstable : setting.Stable)
    (hdesk : seen.desk who = ⟨[], none⟩) :
    Reflects setting.world setting.execution.key setting.e who [] seen
      (seen.amid setting.world) where
  obtained := by simp [Authust.obtained]
  live := by simp
  straight := by simp [Astray]
  filed := ⟨_, hstands.heap, rfl⟩
  row := by rw [hstands.row]; rfl
  heap := rfl
  sessions := rfl
  cache := by
    have hcached : (seen.amid setting.world).executions setting.execution.key = some setting.e :=
      hstable.cached
    rw [hcached]
    exact hstands.cache
  users := rfl
  policies := rfl
  trees := fun _ _ _ => rfl
  unasked := fun _ => rfl
  desk := hdesk
  readers := rfl

/-- What spares the session leaves all that the request has before it. -/
theorem Reflects.spared {key : FlowKey} {e : ExecId}
    (hreflects : Reflects seen key e who history state imagined)
    (hspared : Spared key.session state after) :
    Reflects seen key e who history after imagined := by
  obtain ⟨execution, hheap, hkey⟩ := hreflects.filed
  have hlater := (hspared.executions e execution (by rw [hkey])).mpr hheap
  have hrow := hspared.row hreflects.row
  refine { hreflects with
    filed := ⟨execution, hlater, hkey⟩
    row := by rw [hrow]; exact hreflects.row
    heap := by rw [hlater, hreflects.heap, hheap]
    sessions := by rw [hrow, hreflects.sessions]
    cache := ?_ }
  rcases hspared.cache key rfl with heq | hnone
  · rw [heq]
    exact hreflects.cache
  · exact Or.inr hnone

/-- Requests of the session of a setting are followed by what they would be answered alone. -/
def resuming (hstart : start.Initial) (setting : Setting X) (hstable : setting.Stable)
    (request : Request X) (claims : Claims) :
    Mirror (server X) desk (fun who => handle X (calls who)) start Standing .normal where
  begins := fun seen => Presents (calls seen.who) setting.execution.key request claims ∧
    ∃ visit, Stands setting visit seen.before
  quiet := fun seen => Apart calls setting.execution.key.session setting.world seen.who
  imagine := fun state => state.amid setting.world
  mirrors := fun seen => Reflects setting.world setting.execution.key setting.e seen.who
  first := by
    intro seen log hbegins _ _ hview
    obtain ⟨_, visit, hstands⟩ := hbegins
    exact hstands.reflects hstable (hview.trans (hstart.desk seen.who))
  self := by
    intro seen log state after imagined event next hbegins hstanding _ hpath hview hexec hquiet
      hreflects
    obtain ⟨hpresents, _⟩ := hbegins
    have hattentive := attentive_of_path hpresents.executor hpresents.cookie hpresents.session
      hpresents.slug hpath
    have hgrounded := grounded_of_path hpath
    have hguards : WritesUnguarded contextRegion (own seen.who log) event.op :=
      (keeps_handle (calls seen.who) [] rfl).allows hpath
    have hdesk : imagined.desk seen.who = state.desk seen.who := by
      rw [hreflects.desk]
      exact Eq.symm (hstart.desk seen.who ▸ hview)
    have hcalm := hquiet.calm rfl
    obtain ⟨later, hlater⟩ :=
      hreflects.answered hattentive hgrounded hguards hstable.finds hdesk hcalm hexec
    exact ⟨later, hlater, hreflects.snoc hattentive hstable.cached hstable.finds
      (justified_of_path hpath) hdesk hcalm hexec hlater⟩
  other := by
    intro seen who log state after imagined event next history _ hwho hstanding hissued hpath hview
      hexec hquiet hreflects
    have hconfined := hstanding.confined hstart hissued (justified_of_path hpath) hview hexec
    exact hreflects.spared (hconfined.spared (exec_step hexec) (hquiet.others hwho))
  release := by
    intro seen who state imagined history hreflects
    exact hreflects.spared spared_release
  moves := by
    intro seen state after imagined history hmoves hreflects
    exact hreflects.spared (spared_of_moves hmoves)

end Following

/-- A part of a log, the request that is served in it, and what the request is answered. -/
structure Stretch (X : Externals) where
  who : Nat
  log : Log X
  value : Except ApiErrorKind Response

/-- The stretch begins with the first operation of a request of the session. The request is
answered in it, and nobody else who goes on meanwhile is of the session. -/
structure Stretch.Serves (calls : Nat → Call X) (setting : Setting X) (past : Log X)
    (stretch : Stretch X) (request : Request X) (claims : Claims) : Prop where
  presents : Presents (calls stretch.who) setting.execution.key request claims
  host : request.host.isSome = true
  form : calls stretch.who = .postFlow request → request.form.isSome = true
  fresh : own stretch.who past = []
  begins : stretch.log.head?.map Logged.who = some stretch.who
  apart : QuietFrom (Apart calls setting.execution.key.session setting.world stretch.who)
    past.length (past ++ stretch.log)
  returned : Trace (handle X (calls stretch.who)) (own stretch.who stretch.log) stretch.value

/-- Behind a log, the requests of the session follow each other. -/
inductive InTurn (calls : Nat → Call X) (setting : Setting X) : Log X → List (Stretch X) → Prop
  | nil (past : Log X) : InTurn calls setting past []
  | cons {past : Log X} {stretch : Stretch X} {stretches : List (Stretch X)}
      {request : Request X} {claims : Claims}
      (hserves : stretch.Serves calls setting past request claims)
      (hrest : InTurn calls setting (past ++ stretch.log) stretches) :
      InTurn calls setting past (stretch :: stretches)

/-- The requests have been answered as it becomes of the visitor of the setting. -/
inductive Unfolds (calls : Nat → Call X) (setting : Setting X) :
    Visit → List (Stretch X) → Visit → Prop
  | nil (visit : Visit) : Unfolds calls setting visit [] visit
  | cons {visit later last : Visit} {stretch : Stretch X} {stretches : List (Stretch X)}
      {request : Request X} {claims : Claims} {outcome : Outcome}
      (hpresents : Presents (calls stretch.who) setting.execution.key request claims)
      (hanswer : setting.answer (calls stretch.who) visit = some (outcome, later))
      (hreply : stretch.value = outcome.reply request)
      (hsigned : ∀ user, outcome = .moved (some user) → ∃ token,
        jarOf (own stretch.who stretch.log) = some token ∧
          X.decodeToken token = .ok (loginClaims claims user))
      (hrest : Unfolds calls setting later stretches last) :
      Unfolds calls setting visit (stretch :: stretches) last

section Overlapping

variable {calls : Nat → Call X} {start state imagined w : World X} {setting : Setting X}
  {visit later : Visit} {outcome : Outcome} {request : Request X} {host : String} {claims : Claims}
  {who : Nat} {value : Except ApiErrorKind Response} {call : Call X} {history : History X}
  {past : Log X}

/-- What a call of a setting comes to by itself is what becomes of the visitor. -/
theorem Calls.comesTo (htokens : TokensRoundTrip X) (hencodes : EncodesTokens X)
    (hcalls : Calls setting visit request host claims who w)
    (hrequest : call.request? = some request)
    (hform : call = .postFlow request → request.form.isSome = true)
    (halone : (server X).alone who .normal (handle X call) w = some (value, imagined)) :
    ∃ outcome later, setting.answer call visit = some (outcome, later) ∧
      value = outcome.reply request ∧
        Afterwards setting request claims who visit outcome later w imagined := by
  have hsimulates : Simulates request claims who setting visit w w (handle X call)
      (setting.answer call visit) := by
    cases call with
    | userInfo | admin => cases hrequest
    | getFlow other =>
        cases hrequest
        rw [Setting.answer, hcalls.host, Option.bind_some]
        exact getFlow_simulates hcalls
    | postFlow other =>
        cases hrequest
        obtain ⟨form, hform⟩ := Option.isSome_iff_exists.mp (hform rfl)
        rw [Setting.answer, hcalls.host, hform, Option.bind_some, Option.bind_some]
        exact postFlow_simulates htokens hencodes hcalls hform
  generalize setting.answer call visit = answer at hsimulates
  cases hsimulates with
  | panicked hpanics =>
      rw [hpanics] at halone
      cases halone
  | answered hanswered hleaves =>
      rw [hanswered] at halone
      cases halone
      exact ⟨_, _, rfl, rfl, hleaves⟩

/-- Where the call of a run by itself has left the visitor, he stands in the run. -/
theorem Afterwards.stands (hcalls : Calls setting visit request host claims who w)
    (hreflects : Reflects setting.world setting.execution.key setting.e who history state imagined)
    (hleaves : Afterwards setting request claims who visit outcome later w imagined) :
    Stands setting later state where
  heap := by
    have hheap : imagined.heap = w.heap.set setting.e (later.place setting.execution) :=
      congrArg World.heap hleaves.released
    rw [← hreflects.heap, hheap]
    exact World.place_heap hcalls.paid.heap _
  row := by
    have hsessions : imagined.sessions = Function.update w.sessions
        setting.execution.key.session (some later.user) :=
      congrArg World.sessions hleaves.released
    rw [← hreflects.sessions, hsessions, Function.update_self]
  cache := by
    have hexecutions : imagined.executions =
        (w.dismiss setting.execution.key (outcome.departs request visit)).executions :=
      congrArg (fun w => w.executions) hleaves.released
    rcases hreflects.cache with heq | hnone
    · rw [heq, hexecutions]
      cases outcome.departs request visit with
      | true => exact Or.inr (Function.update_self ..)
      | false => exact Or.inl hcalls.cached
    · exact Or.inr hnone

variable {suspends : Op X → Bool} {stretch : Stretch X}
  {config : Config (sig X) (World X) (Except ApiErrorKind Response)}

/-- A request that is not overlapped by its session is answered as it becomes of the visitor, and
leaves him where he has come to. -/
theorem Stretch.Serves.comesTo (htokens : TokensRoundTrip X)
    (hencodes : EncodesTokens X) (hstart : start.Initial)
    (hreach : InterleavedAt suspends calls start config) (hstable : setting.Stable)
    (hserves : stretch.Serves calls setting past request claims)
    (hfrom : config.Traversed w past) (hstands : Stands setting visit w)
    (hto : config.Traversed state (past ++ stretch.log)) :
    ∃ outcome later, setting.answer (calls stretch.who) visit = some (outcome, later) ∧
      stretch.value = outcome.reply request ∧
        (∀ user, outcome = .moved (some user) → ∃ token,
          jarOf (own stretch.who stretch.log) = some token ∧
            X.decodeToken token = .ok (loginClaims claims user)) ∧
          Stands setting later state := by
  obtain ⟨who, log, value⟩ := stretch
  obtain ⟨hpresents, hhost, hform, hfresh, hbegins, hapart, hreturned⟩ := hserves
  dsimp only at hpresents hform hfresh hbegins hapart hreturned hto ⊢
  obtain ⟨seen, hseen, rfl⟩ := Option.map_eq_some_iff.mp hbegins
  obtain ⟨more, rfl⟩ := List.head?_eq_some_iff.mp hseen
  obtain rfl := hfrom.unique hto.entry
  -- the run of the request by itself, from the state in which it begins
  obtain ⟨⟨⟨⟨_, hfollows⟩, hthroughout⟩, hviewed⟩, _⟩ := hreach.traversed
    ((((resuming hstart setting hstable request claims).follows_preserved
      standing_preserved).throughout.and viewed_preserved).regrain)
    ⟨⟨⟨standing_initial hstart, Mirror.follows_nil _⟩, throughout_nil⟩, throughout_nil⟩ hto
  have hstanding := (hthroughout past seen more rfl).1
  have hdesk : seen.before.desk seen.who = ⟨[], none⟩ := by
    refine (hviewed past seen more rfl).trans ?_
    rw [hfresh]
    exact hstart.desk seen.who
  have hown : own seen.who (past ++ seen :: more) = own seen.who (seen :: more) := by
    rw [own_append, hfresh, List.nil_append]
  obtain ⟨imagined, halone, hreflects⟩ :=
    hfollows.alone rfl hfresh ⟨hpresents, visit, hstands⟩ hapart (hown ▸ hreturned)
  obtain ⟨host, hhost⟩ := Option.isSome_iff_exists.mp hhost
  have hcalls : Calls setting visit request host claims seen.who
      (seen.before.amid setting.world) :=
    ⟨⟨hstands.heap, hstanding.placed.formed setting.e _ hstands.heap, rfl, hstable.finds,
      fun _ => rfl, rfl⟩, hpresents.cookie, hpresents.session, hstands.row, hpresents.slug, hhost,
      hstable.cached, hdesk⟩
  obtain ⟨outcome, later, hanswer, hreply, hleaves⟩ :=
    hcalls.comesTo htokens hencodes hpresents.executor hform halone
  refine ⟨outcome, later, hanswer, hreply, ?_, hleaves.stands hcalls hreflects⟩
  intro user houtcome
  obtain ⟨token, htoken, hdecoded⟩ := hleaves.signed user houtcome
  refine ⟨token, ?_, hdecoded⟩
  rw [← hown, jarOf, ← hreflects.desk]
  exact htoken

theorem stretches_unfold (htokens : TokensRoundTrip X)
    (hencodes : EncodesTokens X) (hstart : start.Initial)
    (hreach : InterleavedAt suspends calls start config) (hstable : setting.Stable)
    {stretches : List (Stretch X)} (hturns : InTurn calls setting past stretches)
    (hfrom : config.Traversed w past) (hstands : Stands setting visit w)
    (hto : config.Traversed state (past ++ stretches.flatMap Stretch.log)) :
    ∃ last, Unfolds calls setting visit stretches last ∧ Stands setting last state := by
  induction hturns generalizing w visit with
  | nil past =>
      rw [List.flatMap_nil, List.append_nil] at hto
      obtain rfl := hfrom.unique hto
      exact ⟨visit, .nil visit, hstands⟩
  | cons hserves _ ih =>
      rw [List.flatMap_cons, ← List.append_assoc] at hto
      obtain ⟨middle, hmiddle⟩ := hto.initial
      obtain ⟨outcome, later, hanswer, hreply, hsigned, hlater⟩ :=
        hserves.comesTo htokens hencodes hstart hreach hstable hfrom hstands hmiddle
      obtain ⟨last, hunfolds, hlast⟩ := ih hmiddle hlater hto
      exact ⟨last, .cons hserves.presents hanswer hreply hsigned hunfolds, hlast⟩

/-- From wherever it has come to, a session whose requests do not overlap takes the course of its
visit under every interleaving with other sessions: its answers, its execution and its row are
those of a visitor who is alone, wherever the await points are. -/
theorem interleaved_course (htokens : TokensRoundTrip X)
    (hencodes : EncodesTokens X) (hstart : start.Initial)
    (hreach : InterleavedAt suspends calls start config) {e : ExecId} {execution : FlowExecution}
    {user : Option Uuid} (hfrom : config.Traversed w past) (hfinds : w.FindsByUid)
    (hheap : w.heap[e]? = some execution) (hcached : w.executions execution.key = some e)
    (hrow : w.sessions execution.key.session = some user) {stretches : List (Stretch X)}
    (hturns : InTurn calls ⟨w, e, execution⟩ past stretches)
    (hto : config.Traversed state (past ++ stretches.flatMap Stretch.log)) :
    ∃ last, Unfolds calls ⟨w, e, execution⟩ ⟨execution.progress, user⟩ stretches last ∧
      Stands ⟨w, e, execution⟩ last state := by
  have hstands : Stands ⟨w, e, execution⟩ ⟨execution.progress, user⟩ w :=
    ⟨hheap, hrow, Or.inl hcached⟩
  exact stretches_unfold htokens hencodes hstart hreach ⟨hcached, hfinds⟩ hturns hfrom hstands hto

end Overlapping

section OverlapRuns

/-- Whether an event that asks for no tree is calm. -/
def calmly (w : World X) : Event (sig X) → Bool
  | ⟨.connection, res⟩ => res.isOk
  | ⟨.transaction, res⟩ => res.isOk
  | ⟨.commit, res⟩ => res.isOk
  | ⟨.prepareCached _, res⟩ => res.isOk
  | ⟨.updateSession _ _, res⟩ => res.isOk
  | ⟨.querySession _, res⟩ => res.isOk
  | ⟨.queryUser key, res⟩ => res = w.queryUser key
  | ⟨.queryPassword uid, res⟩ =>
      res = (w.queryUser (.uid uid)).map fun row => row.map UserRow.password
  | ⟨.cachedExecution key, res⟩ => res = w.executions key
  | ⟨.livePolicy _, _⟩ => false
  | ⟨.optionallyGetWith _ _, _⟩ => false
  | _ => true

theorem calm_of_calmly {w : World X} {event : Event (sig X)} (hcalmly : calmly w event = true) :
    Calm w event := by
  obtain ⟨op, res⟩ := event
  cases op with
  | connection | transaction | commit | prepareCached | updateSession =>
      cases res with
      | error kind => cases hcalmly
      | ok value => rfl
  | querySession => exact hcalmly
  | queryUser | queryPassword | cachedExecution =>
      simp only [calmly, decide_eq_true_eq] at hcalmly
      exact hcalmly
  | livePolicy | optionallyGetWith => cases hcalmly
  | _ => trivial

/-- A member fetches the flow and logs in, and somebody without a session fetches it. -/
def besideCalls : Nat → Call Externals.plain
  | 0 => sampleGet
  | 1 => samplePost [("uid", "member")]
  | 2 => samplePost [("password", "tulip")]
  | _ => .getFlow { sampleRequest [] with cookie := none }

/-- Two requests take one step each, again and again. -/
def alternately (first second : Nat) (choice : Choice) : Nat → List (Act Choice)
  | 0 => []
  | count + 1 =>
      .poll first (fun _ => choice) :: .answer first choice :: .poll second (fun _ => choice) ::
        .answer second choice :: alternately first second choice count

/-- Both forms of the member are overlapped by the other fetch. -/
def besideSchedule : List (Act Choice) :=
  Act.awaits 0 .normal 25 ++ alternately 1 3 (.key "t") 12 ++ Act.awaits 1 .normal 12 ++
    alternately 2 3 (.key "t") 15 ++ Act.awaits 2 .normal 18

def redirected (proc : Proc (sig X) (Except ApiErrorKind Response)) : Bool :=
  match proc with
  | .ended (.returned (.ok (.redirect _))) => true
  | _ => false

/-- Every session key that is sampled is the one. -/
def samplesOnly (sid : String) (log : Log X) : Bool :=
  log.all fun entry => match entry.event with
    | ⟨.sampleSessionKey, key⟩ => key = sid
    | _ => true

abbrev SampleConfig :=
  Config (sig Externals.plain) (World Externals.plain) (Except ApiErrorKind Response)

/-- A request is served in the middle part of the log, overlapped by the other fetch alone. -/
def servedBeside (config : SampleConfig) (w : World Externals.plain) (who : Nat)
    (past middle rest : Log Externals.plain) : Bool :=
  redirected (config.procs who) && past.all (fun entry => entry.who ≠ who) &&
    rest.all (fun entry => entry.who ≠ who) && middle.head?.map Logged.who = some who &&
      middle.all fun entry => entry.who = who && calmly w entry.event || entry.who = 3

/-- The session has come to its execution. -/
def sampleStands (w : World Externals.plain) : Bool :=
  w.executions sampleKey = some 0 && w.heap[0]?.any (fun execution => execution.key = sampleKey) &&
    (w.sessions "s").isSome

def besideFacts (config : SampleConfig) : Bool :=
  samplesOnly "t" config.log && config.log[25]?.any fun seen => sampleStands seen.before &&
    servedBeside config seen.before 1 (config.log.take 25) ((config.log.drop 25).take 36)
      (config.log.drop 61) &&
    servedBeside config seen.before 2 (config.log.take 61) (config.log.drop 61) []

theorem beside_run :
    (sampleRunFine twoForms besideCalls besideSchedule).map besideFacts = some true := by
  decide +kernel

theorem own_eq_nil {log : Log X} {who : Nat}
    (hothers : log.all (fun entry => entry.who ≠ who) = true) : own who log = [] := by
  refine List.eq_nil_iff_forall_not_mem.mpr fun event hmem => ?_
  obtain ⟨entry, hentry, hmine, _⟩ := mem_own.mp hmem
  exact of_decide_eq_true (List.all_eq_true.mp hothers entry hentry) hmine

/-- Who has no cookie and has sampled no other key is not of the session. -/
theorem not_belongs {calls : Nat → Call X} {log past rest : Log X}
    {entry : Logged (sig X) (World X)} {sid sid' : String} (hlog : log = past ++ entry :: rest)
    (hsampled : samplesOnly sid' log = true) (hcookie : (calls entry.who).cookie = none)
    (hother : sid ≠ sid') : ¬ Belongs calls past entry sid := by
  intro hbelongs
  obtain ⟨other, hmem, _, hevent⟩ := mem_own.mp (hbelongs.sampled hcookie)
  have hkey := List.all_eq_true.mp hsampled other (by simp [hlog, hmem])
  rw [hevent] at hkey
  exact hother (of_decide_eq_true hkey)

/-- What the check of a stretch comes to. -/
theorem serves_of_servedBeside {config : SampleConfig} {w : World Externals.plain} {who : Nat}
    {past middle rest : Log Externals.plain} {e : ExecId} {execution : FlowExecution}
    {form : List (String × String)}
    (hreach : InterleavedAt (fun _ => true) besideCalls twoForms config)
    (hcall : besideCalls who = samplePost form) (hkey : execution.key = sampleKey)
    (hlog : config.log = past ++ middle ++ rest) (hsampled : samplesOnly "t" config.log = true)
    (hserved : servedBeside config w who past middle rest = true) :
    ∃ value, Stretch.Serves besideCalls ⟨w, e, execution⟩ past ⟨who, middle, value⟩
      (sampleRequest form) (newClaims "s") := by
  simp only [servedBeside, Bool.and_eq_true, decide_eq_true_eq] at hserved
  obtain ⟨⟨⟨⟨hredirected, hpast⟩, hrest⟩, hbegins⟩, hmiddle⟩ := hserved
  have hown : own who config.log = own who middle := by
    rw [hlog, own_append, own_append, own_eq_nil hpast, own_eq_nil hrest, List.nil_append,
      List.append_nil]
  unfold redirected at hredirected
  split at hredirected
  next target hended =>
    have htrace := (hreach.holds (@viewed_preserved _ _ _ _ (server Externals.plain) _ desk _
      twoForms).regrain throughout_nil).2.2.trace hended
    rw [hown] at htrace
    refine ⟨_, ?_, rfl, fun _ => rfl, own_eq_nil hpast, hbegins, ?_, htrace⟩
    · rw [hcall]
      exact hkey ▸ samplePost_presents form
    · intro first entry second hsplit hnumber
      have hmem : entry ∈ middle := by
        have hdrop : (past ++ middle).drop past.length = middle := List.drop_left
        rw [← hdrop, hsplit, List.drop_append_of_le_length hnumber]
        simp
      have hentry := List.all_eq_true.mp hmiddle entry hmem
      simp only [Bool.or_eq_true, Bool.and_eq_true, decide_eq_true_eq] at hentry
      constructor
      case calm =>
        intro hmine
        rcases hentry with ⟨_, hcalmly⟩ | hother
        · exact calm_of_calmly hcalmly
        · -- the other fetch hands no form in
          have hwho : who = 3 := hmine.symm.trans hother
          rw [hwho] at hcall
          cases hcall
      case others =>
        intro hnot
        have hother : entry.who = 3 := hentry.resolve_left fun hmine => hnot hmine.1
        have hsplit' : config.log = first ++ entry :: (second ++ rest) := by
          rw [hlog, hsplit, List.append_assoc, List.cons_append]
        rw [hkey]
        refine not_belongs hsplit' hsampled ?_ (by decide)
        rw [hother]
        rfl
  next => cases hredirected

/-- The member, whose forms are overlapped by the fetch of somebody else, takes the course of a
visitor who is alone. -/
theorem beside_course : ∃ config past w execution user stretches last,
    InterleavedAt (fun _ => true) besideCalls twoForms config ∧
      config.log = past ++ stretches.flatMap Stretch.log ∧
        stretches.map Stretch.who = [1, 2] ∧
          Unfolds besideCalls ⟨w, 0, execution⟩ ⟨execution.progress, user⟩ stretches last ∧
            Stands ⟨w, 0, execution⟩ last config.state := by
  obtain ⟨config, hrun, hfacts⟩ := Option.map_eq_some_iff.mp beside_run
  have hreach : InterleavedAt (fun _ => true) besideCalls twoForms config :=
    .acts .start besideSchedule hrun
  simp only [besideFacts, Bool.and_eq_true, Option.any_eq_true] at hfacts
  obtain ⟨hsampled, seen, hseen, ⟨hstands, hfirst⟩, hsecond⟩ := hfacts
  simp only [sampleStands, Bool.and_eq_true, decide_eq_true_eq, Option.any_eq_true] at hstands
  obtain ⟨⟨hcached, execution, hheap, hkey⟩, hrow⟩ := hstands
  obtain ⟨user, hrow⟩ := Option.isSome_iff_exists.mp hrow
  have hlog : config.log = config.log.take 25 ++ (config.log.drop 25).take 36 ++
      config.log.drop 61 := by
    have hrest : (config.log.drop 25).drop 36 = config.log.drop 61 := List.drop_drop
    rw [List.append_assoc, ← hrest, List.take_append_drop, List.take_append_drop]
  have hhead : config.log.take 61 = config.log.take 25 ++ (config.log.drop 25).take 36 :=
    @List.take_add _ config.log 25 36
  rw [hhead] at hsecond
  obtain ⟨value, hnamed⟩ := @serves_of_servedBeside config seen.before 1 _ _ _ 0 execution _ hreach
    rfl hkey hlog hsampled hfirst
  obtain ⟨value', hverified⟩ := @serves_of_servedBeside config seen.before 2 _ _ _ 0 execution _
    hreach rfl hkey (by rw [List.append_nil]; exact hlog) hsampled hsecond
  obtain ⟨hlt, hget⟩ := List.getElem?_eq_some_iff.mp hseen
  have hfrom : config.Traversed seen.before (config.log.take 25) := by
    refine @Config.Traversed.before _ _ _ config _ (config.log.drop 26) seen ?_
    rw [← hget, ← List.drop_eq_getElem_cons hlt, List.take_append_drop]
  have hfinds : seen.before.FindsByUid := by
    have hupstream := sampleRunFine_upstream hrun seen (List.mem_of_getElem? hseen)
    have hpolicies : seen.before.policies = twoForms.policies :=
      congrArg Upstream.policies hupstream
    intro uid policy hpolicy
    rw [hpolicies] at hpolicy
    exact World.boot_finds _ _ _ _ _ uid policy hpolicy
  have hturns : InTurn besideCalls ⟨seen.before, 0, execution⟩ (config.log.take 25)
      [⟨1, (config.log.drop 25).take 36, value⟩, ⟨2, config.log.drop 61, value'⟩] :=
    .cons hnamed (.cons hverified (.nil _))
  have hend : config.log = config.log.take 25 ++
      [(⟨1, (config.log.drop 25).take 36, value⟩ : Stretch Externals.plain),
        ⟨2, config.log.drop 61, value'⟩].flatMap Stretch.log := by
    simp only [List.flatMap_cons, List.flatMap_nil, List.append_nil, ← List.append_assoc]
    exact hlog
  have hto := @Config.Traversed.now _ _ _ config
  rw [hend] at hto
  have hkeyed : seen.before.executions execution.key = some 0 := by rw [hkey, hcached]
  have hnames : seen.before.sessions execution.key.session = some user := by rw [hkey]; exact hrow
  obtain ⟨last, hunfolds, hlast⟩ := interleaved_course tokensRoundTrip_plain encodesTokens_plain
    (World.boot_initial _ _ _ _ _ _) hreach hfrom hfinds hheap hkeyed hnames hturns hto
  exact ⟨config, _, _, execution, user, _, last, hreach, hend, rfl, hunfolds, hlast⟩

end OverlapRuns

end Authust
