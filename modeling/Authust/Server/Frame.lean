import Authust.Coop.Ensures
import Authust.Server.Rollback

/-! # What a request leaves that is only shown its flow

A GET, or a POST that its check denies, leaves every execution and every row as they were. It
may add a row that names nobody, start an execution where there was none, or take a completed
one out of the cache.
-/

namespace Authust

open Coop Coop.Task Coop.Machine

variable {X : Externals}

/-- The sessions, the executions and their cache are the same. -/
structure World.Alike (w after : World X) : Prop where
  sessions : after.sessions = w.sessions
  heap : after.heap = w.heap
  executions : after.executions = w.executions

/-- At most one row is new, and it names nobody. -/
def AddsRow (before after : SessionTable) : Prop :=
  after = before ∨ ∃ sid, before sid = none ∧ after = Function.update before sid (some none)

/-- The key is the request's own: its session is the one that the cookie presents, or the one
that the request has inserted. -/
structure OwnKey (request : Request X) (before after : World X) (key : FlowKey) : Prop where
  session : (∃ claims, handleAuth X request.cookie = .ok (.valid claims) ∧
      claims.sid = key.session ∧ (before.sessions key.session).isSome = true) ∨
    (before.sessions key.session = none ∧ after.sessions key.session = some none)
  flow : key.flow = .slug request.flowSlug

/-- What may become of the executions. -/
inductive ShowsExecutions (call : Call X) (before after : World X) : Prop
  | unchanged (hheap : after.heap = before.heap) (hcache : after.executions = before.executions)
  | started {request : Request X} {execution : FlowExecution} (hcall : call = .getFlow request)
      (hkey : OwnKey request before after execution.key)
      (hnone : before.executions execution.key = none)
      (hfresh : execution.progress = ⟨0, false, none, none⟩)
      (hheap : after.heap = before.heap ++ [execution])
      (hcache : after.executions =
        Function.update before.executions execution.key (some before.heap.length))
  | dropped {request : Request X} {key : FlowKey} {e : ExecId} {execution : FlowExecution}
      (hrequest : call.request? = some request) (hkey : OwnKey request before after key)
      (hcached : before.executions key = some e) (hexecution : before.heap[e]? = some execution)
      (hcompleted : execution.isCompleted = true) (hnext : request.next.isSome = true)
      (hheap : after.heap = before.heap)
      (hcache : after.executions = Function.update before.executions key none)

/-- What may become of the state. -/
structure Shows (call : Call X) (before after : World X) : Prop where
  sessions : AddsRow before.sessions after.sessions
  executions : ShowsExecutions call before after

/-- The execution of a call as it has been found, in the cache or started. -/
inductive FoundAt (call : Call X) (request : Request X) (before : World X) (e : ExecId)
    (after : World X) : Prop
  | cached {key : FlowKey} (hrows : AddsRow before.sessions after.sessions)
      (hkey : OwnKey request before after key) (hcached : before.executions key = some e)
      (hheap : after.heap = before.heap) (hcache : after.executions = before.executions)
  | started {execution : FlowExecution} (hrows : AddsRow before.sessions after.sessions)
      (hcall : call = .getFlow request) (hkey : OwnKey request before after execution.key)
      (hnone : before.executions execution.key = none)
      (hfresh : execution.progress = ⟨0, false, none, none⟩) (he : e = before.heap.length)
      (hheap : after.heap = before.heap ++ [execution])
      (hcache : after.executions =
        Function.update before.executions execution.key (some before.heap.length))

section Alike

variable {who : Nat} {call : Call X} {request : Request X} {before w after : World X}
  {event : Event (sig X)}

theorem World.Alike.refl (w : World X) : w.Alike w := ⟨rfl, rfl, rfl⟩

theorem World.Alike.trans (hfirst : before.Alike w) (hsecond : w.Alike after) :
    before.Alike after :=
  ⟨hsecond.sessions.trans hfirst.sessions, hsecond.heap.trans hfirst.heap,
    hsecond.executions.trans hfirst.executions⟩

/-- An operation that does not write leaves all of it. -/
theorem Step.alike (hstep : Step who w event after) (hop : event.op.writes = false) :
    w.Alike after := by
  cases hstep with
  | observe | lockContext | unlockContext | compile => exact ⟨rfl, rfl, rfl⟩
  | _ => cases hop

theorem OwnKey.alike {key : FlowKey} (hkey : OwnKey request before w key) (halike : w.Alike after) :
    OwnKey request before after key where
  session := by
    rw [halike.sessions]
    exact hkey.session
  flow := hkey.flow

theorem ShowsExecutions.alike (hshows : ShowsExecutions call before w) (halike : w.Alike after) :
    ShowsExecutions call before after := by
  cases hshows with
  | unchanged hheap hcache =>
      exact .unchanged (halike.heap.trans hheap) (halike.executions.trans hcache)
  | started hcall hkey hnone hfresh hheap hcache =>
      exact .started hcall (hkey.alike halike) hnone hfresh (halike.heap.trans hheap)
        (halike.executions.trans hcache)
  | dropped hrequest hkey hcached hexecution hcompleted hnext hheap hcache =>
      exact .dropped hrequest (hkey.alike halike) hcached hexecution hcompleted hnext
        (halike.heap.trans hheap) (halike.executions.trans hcache)

theorem Shows.alike (hshows : Shows call before w) (halike : w.Alike after) :
    Shows call before after where
  sessions := by
    rw [halike.sessions]
    exact hshows.sessions
  executions := hshows.executions.alike halike

theorem FoundAt.alike {e : ExecId} (hfound : FoundAt call request before e w)
    (halike : w.Alike after) : FoundAt call request before e after := by
  cases hfound with
  | cached hrows hkey hcached hheap hcache =>
      exact .cached (halike.sessions ▸ hrows) (hkey.alike halike) hcached
        (halike.heap.trans hheap) (halike.executions.trans hcache)
  | started hrows hcall hkey hnone hfresh he hheap hcache =>
      exact .started (halike.sessions ▸ hrows) hcall (hkey.alike halike) hnone hfresh he
        (halike.heap.trans hheap) (halike.executions.trans hcache)

theorem FoundAt.shows {e : ExecId} (hfound : FoundAt call request before e after) :
    Shows call before after := by
  cases hfound with
  | cached hrows _ _ hheap hcache => exact ⟨hrows, .unchanged hheap hcache⟩
  | started hrows hcall hkey hnone hfresh _ hheap hcache =>
      exact ⟨hrows, .started hcall hkey hnone hfresh hheap hcache⟩

/-- An execution that is completed was in the cache before, under the key of the request. -/
theorem FoundAt.completed {e : ExecId} (hfound : FoundAt call request before e after)
    (hfiled : ∀ key e, before.executions key = some e → before.FiledUnder e key)
    {execution : FlowExecution} (hexecution : after.heap[e]? = some execution)
    (hcompleted : execution.isCompleted = true) :
    AddsRow before.sessions after.sessions ∧ OwnKey request before after execution.key ∧
      before.executions execution.key = some e ∧ before.heap[e]? = some execution ∧
        after.heap = before.heap ∧ after.executions = before.executions := by
  cases hfound with
  | @cached key hrows hkey hcached hheap hcache =>
      rw [hheap] at hexecution
      obtain ⟨filed, hold, rfl⟩ := hfiled key e hcached
      rw [hold] at hexecution
      cases hexecution
      exact ⟨hrows, hkey, hcached, hold, hheap, hcache⟩
  | started _ _ _ _ hfresh he hheap _ =>
      rw [hheap, he, List.getElem?_concat_length] at hexecution
      cases hexecution
      have hopen : execution.isCompleted = false := congrArg Progress.isCompleted hfresh
      rw [hopen] at hcompleted
      cases hcompleted

end Alike

section Reads

variable {α β : Type} {who : Nat} {always : World X → Prop} {state : World X}

/-- A part that only reads leaves the state as it finds it. -/
theorem ensures_readOnly {task : Task (sig X) α} (hreads : ReadOnly task)
    (halways : ∀ w, state.Alike w → always w) :
    (server X).Ensures who always task (fun _ after => state.Alike after) state := by
  suffices hensures : ∀ w, state.Alike w →
      (server X).Ensures who always task (fun _ after => state.Alike after) w from
    hensures state (.refl state)
  induction task with
  | done value => exact fun w halike => ⟨halways w halike, halike⟩
  | call op next ih =>
      intro w halike
      obtain ⟨hop, hnext⟩ := hreads
      refine ⟨halways w halike, fun res after hexec => ih res (hnext res) after ?_⟩
      exact halike.trans ((exec_step hexec).alike (by simpa using hop))

theorem ensures_readOnly_bind {task : Task (sig X) α} {f : α → Task (sig X) β}
    {post : β → World X → Prop} (hreads : ReadOnly task) (halways : ∀ w, state.Alike w → always w)
    (hrest : ∀ value w, state.Alike w → (server X).Ensures who always (f value) post w) :
    (server X).Ensures who always (task >>= f) post state :=
  ensures_bind.mpr
    ((ensures_readOnly hreads halways).mono fun value w _ halike => hrest value w halike)

theorem ensures_readOnly_andThen {task : Handler X α} {f : α → Handler X β}
    {good : β → World X → Prop} (hreads : ReadOnly task.run)
    (halways : ∀ w, state.Alike w → always w)
    (hrest : ∀ value w, state.Alike w →
      (server X).Ensures who always (f value).run (succeeds good) w) :
    (server X).Ensures who always (task >>= f).run (succeeds good) state := by
  refine ((ensures_readOnly hreads halways).mono fun result w _ halike => ?_).andThen
  cases result with
  | error error => trivial
  | ok value => exact hrest value w halike

/-- A single operation that only reads, whose answer says something of the state. -/
theorem ensures_reading {op : Op X} {f : op.Res → Task (sig X) β} {post : β → World X → Prop}
    (hop : op.writes = false) (hnow : always state)
    (hrest : ∀ res after, (server X).Exec who state ⟨op, res⟩ after → state.Alike after →
      (server X).Ensures who always (f res) post after) :
    (server X).Ensures who always (Authust.op op >>= f) post state :=
  ⟨hnow, fun res after hexec => hrest res after hexec ((exec_step hexec).alike hop)⟩

end Reads

/-- The session of a request as it has been extracted. -/
structure SessionAt (request : Request X) (before : World X) (session : Session)
    (after : World X) : Prop where
  rows : AddsRow before.sessions after.sessions
  own : OwnKey request before after { session := session.sessionId, flow := .slug request.flowSlug }
  heap : after.heap = before.heap
  executions : after.executions = before.executions

section Sessions

variable {who : Nat} {call : Call X} {request : Request X} {before w after : World X}
  {session : Session}

theorem SessionAt.alike (hsession : SessionAt request before session w) (halike : w.Alike after) :
    SessionAt request before session after where
  rows := by
    rw [halike.sessions]
    exact hsession.rows
  own := hsession.own.alike halike
  heap := halike.heap.trans hsession.heap
  executions := halike.executions.trans hsession.executions

theorem SessionAt.shows (hsession : SessionAt request before session w) : Shows call before w where
  sessions := hsession.rows
  executions := .unchanged hsession.heap hsession.executions

theorem shows_of_alike (halike : before.Alike w) : Shows call before w where
  sessions := Or.inl halike.sessions
  executions := .unchanged halike.heap halike.executions

theorem ensures_makeNewSession (halike : before.Alike w) :
    (server X).Ensures who (Shows call before) (makeNewSession X).run
      (succeeds (SessionAt request before)) w := by
  have halways : ∀ {w : World X}, before.Alike w → ∀ later, w.Alike later →
      Shows call before later := fun halike _ hlater => shows_of_alike (halike.trans hlater)
  refine ensures_readOnly_andThen (avoids_perform_bind rfl fun _ => avoids_done) (halways halike)
    fun sid w' hsampled => ?_
  replace halike := halike.trans hsampled
  apply ensures_readOnly_andThen (avoids_perform rfl) (halways halike)
  intro _ w' hprepared
  replace halike := halike.trans hprepared
  refine Ensures.andThen ⟨shows_of_alike halike, fun result after hexec => ?_⟩
  cases result with
  | error error =>
      have hstep := exec_step hexec
      cases hstep with
      | observe => exact ⟨shows_of_alike halike, trivial⟩
  | ok value =>
      have hstep := exec_step hexec
      cases hstep with
      | observe hobserves => cases hobserves
      | insertSession hfresh =>
          have hnone : before.sessions sid = none := by rw [← halike.sessions, hfresh]
          have hsession : SessionAt request before
              { sessionId := sid, userId := none, isAdmin := false } (w'.setSession sid none) :=
            { rows := Or.inr ⟨sid, hnone, by rw [← halike.sessions]; rfl⟩
              own := ⟨Or.inr ⟨hnone, Function.update_self ..⟩, rfl⟩
              heap := halike.heap
              executions := halike.executions }
          refine ⟨hsession.shows, Ensures.andThen ?_⟩
          unfold setSessionCookie
          split
          next => exact ⟨hsession.shows, trivial⟩
          next token _ =>
            refine ⟨hsession.shows, fun _ after hexec => ?_⟩
            have hadded : (w'.setSession sid none).Alike after := by
              have hstep := exec_step hexec
              cases hstep with
              | observe hobserves => cases hobserves
              | addCookie => exact ⟨rfl, rfl, rfl⟩
            have hlater := hsession.alike hadded
            exact ⟨hlater.shows, hlater.shows, hlater⟩

/-- The extractor reads the row of the session, or inserts one. -/
theorem ensures_fromRequestParts {extension : AuthExtension}
    (hextension : handleAuth X request.cookie = .ok extension) :
    (server X).Ensures who (Shows call before) (Session.fromRequestParts X extension).run
      (succeeds (SessionAt request before)) before := by
  have halways : ∀ {w : World X}, before.Alike w → ∀ later, w.Alike later →
      Shows call before later := fun halike _ hlater => shows_of_alike (halike.trans hlater)
  apply ensures_readOnly_andThen (avoids_perform rfl) (halways (.refl _))
  intro _ w hconnected
  cases extension with
  | missingCookie => exact ensures_makeNewSession hconnected
  | valid claims =>
      refine ensures_readOnly_andThen (avoids_perform rfl) (halways hconnected)
        fun _ w' hprepared => ?_
      have halike := hconnected.trans hprepared
      refine Ensures.andThen ⟨shows_of_alike halike, fun result after hexec => ?_⟩
      have hafter := halike.trans ((exec_step hexec).alike rfl)
      cases result with
      | error error => exact ⟨shows_of_alike hafter, trivial⟩
      | ok row =>
          refine ⟨shows_of_alike hafter, ?_⟩
          cases row with
          | none => exact ensures_makeNewSession hafter
          | some userId =>
              have hrow := exec_querySession hexec
              rw [halike.sessions] at hrow
              have hsession : SessionAt request before
                  { sessionId := claims.sid, userId := userId, isAdmin := claims.isAdmin } after :=
                { rows := Or.inl hafter.sessions
                  own := ⟨Or.inl ⟨claims, hextension, rfl, by rw [hrow]; rfl⟩, rfl⟩
                  heap := hafter.heap
                  executions := hafter.executions }
              exact ⟨hsession.shows, hsession⟩

end Sessions

section Executions

variable {who : Nat} {call : Call X} {request : Request X} {before w : World X} {session : Session}
  {e : ExecId}

/-- An execution is started only where the cache has none. -/
theorem ensures_start {key : FlowKey} (hcall : call = .getFlow request)
    (hsession : SessionAt request before session w)
    (hkey : getKey session (.slug request.flowSlug) = some key)
    (hnone : before.executions key = none) :
    (server X).Ensures who (Shows call before) (start X key)
      (fun found after => ∀ e, found = some e → FoundAt call request before e after) w := by
  cases hkey
  apply ensures_reading rfl hsession.shows
  intro flow w' _ hread
  replace hsession := hsession.alike hread
  cases flow with
  | none => exact ⟨hsession.shows, nofun⟩
  | some flow =>
      dsimp only
      split
      next => exact ⟨hsession.shows, nofun⟩
      next =>
        refine ensures_readOnly_bind recording_reverseLookupFlow.readOnly
          (fun later hlater => (hsession.alike hlater).shows) fun storage w' hfrozen => ?_
        replace hsession := hsession.alike hfrozen
        apply ensures_reading rfl hsession.shows
        intro now w' _ hread
        replace hsession := hsession.alike hread
        refine ⟨hsession.shows, fun inserted after hexec => ?_⟩
        cases exec_step hexec with
        | observe hobserves => cases hobserves
        | insertExecution =>
            have hown := hsession.own
            have hfound : FoundAt call request before w'.heap.length
                { w' with
                  heap := w'.heap ++ [.new _ flow storage now]
                  executions := Function.update w'.executions _ (some w'.heap.length) } :=
              .started hsession.rows hcall ⟨hown.session, hown.flow⟩ hnone rfl
                (congrArg List.length hsession.heap) (by rw [hsession.heap])
                (by rw [hsession.heap, hsession.executions])
            refine ⟨hfound.shows, fun e he => ?_⟩
            cases he
            exact hfound

/-- An execution is the cached one, or it is started. -/
theorem ensures_getExecution {key : FlowKey} {startNew : Bool}
    (hstart : startNew = true → call = .getFlow request)
    (hsession : SessionAt request before session w)
    (hkey : getKey session (.slug request.flowSlug) = some key) :
    (server X).Ensures who (Shows call before) (getExecution X key startNew)
      (fun found after => ∀ e, found = some e → FoundAt call request before e after) w := by
  apply ensures_reading rfl hsession.shows
  intro cached w' hexec hlooked
  have hcached := exec_cachedExecution hexec
  rw [hsession.executions] at hcached
  replace hsession := hsession.alike hlooked
  cases cached with
  | some found =>
      refine ⟨hsession.shows, fun e he => ?_⟩
      cases he
      cases hkey
      exact .cached hsession.rows hsession.own hcached hsession.heap hsession.executions
  | none =>
      dsimp only
      split
      next hnew => exact ensures_start (hstart hnew) hsession hkey hcached
      next => exact ⟨hsession.shows, nofun⟩

/-- A completed execution is dropped for its redirect. -/
theorem ensures_completedComponent
    (hfiled : ∀ key e, before.executions key = some e → before.FiledUnder e key)
    (hrequest : call.request? = some request) (hfound : FoundAt call request before e w)
    {execution : FlowExecution} (hexecution : w.heap[e]? = some execution)
    (hcompleted : execution.isCompleted = true) {context : CheckContext}
    (hnext : context.request.next = request.next) :
    (server X).Ensures who (Shows call before) (completedComponent X e context)
      (fun _ after => Shows call before after) w := by
  unfold completedComponent
  split
  next target htarget =>
    apply ensures_reading rfl hfound.shows
    intro key w' hexec halike
    obtain ⟨found, hkey, rfl⟩ := exec_getKey hexec
    rw [hexecution] at hkey
    cases hkey
    replace hfound := hfound.alike halike
    rw [← halike.heap] at hexecution
    refine ⟨hfound.shows, fun _ after hexec => ?_⟩
    obtain ⟨hrows, hown, hcached, hbefore, hheap, hcache⟩ :=
      hfound.completed hfiled hexecution hcompleted
    have hshows : Shows call before after := by
      cases exec_step hexec with
      | observe hobserves => cases hobserves
      | invalidateExecution =>
          refine ⟨hrows, .dropped hrequest ⟨hown.session, hown.flow⟩ hcached hbefore hcompleted
            ?_ hheap ?_⟩
          · rw [← hnext, htarget]
            rfl
          · rw [← hcache]
    exact ⟨hshows, hshows⟩
  next => exact ⟨hfound.shows, hfound.shows⟩

/-- To show the flow changes nothing else. -/
theorem ensures_data (hfiled : ∀ key e, before.executions key = some e → before.FiledUnder e key)
    (hrequest : call.request? = some request) (hfound : FoundAt call request before e w)
    {error : Option SubmissionError} {context : CheckContext}
    (hnext : context.request.next = request.next) :
    (server X).Ensures who (Shows call before) (data X e error context) (fun _ _ => True) w := by
  have hreading : ∀ {w' : World X} (data : ExecutionContext → FlowData), Shows call before w' →
      (server X).Ensures who (Shows call before) (op (.readContext e) >>= fun inner =>
        pure (data inner)) (fun _ _ => True) w' := fun data hshows =>
    ensures_reading rfl hshows fun _ _ _ halike => ⟨hshows.alike halike, trivial⟩
  -- up to the component the flow is only read, so that what was found stays found
  apply ensures_reading rfl hfound.shows
  intro flow w' _ halike
  replace hfound := hfound.alike halike
  apply ensures_reading rfl hfound.shows
  intro entry w' _ halike
  replace hfound := hfound.alike halike
  refine ensures_readOnly_bind looks_lookupStage.readOnly
    (fun _ halike => (hfound.alike halike).shows) fun stage w' halike => ?_
  replace hfound := hfound.alike halike
  apply ensures_reading rfl hfound.shows
  intro completed w' hexec halike
  obtain ⟨execution, hexecution, hcompleted⟩ := exec_isCompleted hexec
  rw [← halike.heap] at hexecution
  replace hfound := hfound.alike halike
  refine ensures_readOnly_bind readOnly_check
    (fun _ halike => (hfound.alike halike).shows) fun denied w' halike => ?_
  replace hfound := hfound.alike halike
  rw [← halike.heap] at hexecution
  split
  next => exact ⟨hfound.shows, trivial⟩
  next =>
    cases completed with
    | false =>
        refine ensures_readOnly_bind readOnly_currentComponent
          (fun _ halike => (hfound.alike halike).shows) fun _ _ halike => ?_
        exact hreading _ (hfound.alike halike).shows
    | true =>
        have hcomponent := @ensures_completedComponent X who _ _ _ _ _ hfiled hrequest hfound _
          hexecution hcompleted context hnext
        exact ensures_bind.mpr (hcomponent.mono fun _ _ _ hshows => hreading _ hshows)

end Executions

/-- The start of a POST that its check denies, and what follows. -/
inductive Denial (request : Request X) : History X → Prop
  | intro {extension : AuthExtension} {host : String} {form : Value} {session : Session}
      {key : FlowKey} {e : ExecId} {context : CheckContext} {message : String}
      {opening finding connecting checking : History X} (rest : History X)
      (hextension : handleAuth X request.cookie = .ok extension)
      (hhost : request.host = some host) (hform : request.form = some form)
      (hsession : Trace (Session.fromRequestParts X extension).run opening (.ok session))
      (hkey : getKey session (.slug request.flowSlug) = some key)
      (hfound : Trace (getExecution X key false) finding (some e))
      (hcontext : Trace (openPost X request host session e).run connecting (.ok context))
      (hcheck : Trace (check X e context) checking (some message)) :
      Denial request (opening ++ (finding ++ (connecting ++ (checking ++ rest))))

/-- The call is a GET, or a POST that its check has denied. -/
inductive IsShown : Call X → History X → Prop
  | getFlow {request : Request X} {history : History X} : IsShown (.getFlow request) history
  | denied {request : Request X} {history : History X} (hdenial : Denial request history) :
      IsShown (.postFlow request) history

section Calls

variable {who : Nat} {request : Request X} {before : World X}

theorem ensures_checkContext {always : World X → Prop} {state : World X} {host : String}
    {session : Session} {e : ExecId} (halways : ∀ w, state.Alike w → always w) :
    (server X).Ensures who always (checkContext X request host session e).run
      (succeeds fun context after => context.request.next = request.next ∧ state.Alike after)
      state := by
  apply ensures_readOnly_andThen readOnly_getUser halways
  intro user w halike
  refine ⟨halways w halike, fun inner after hexec => ?_⟩
  have hafter := halike.trans ((exec_step hexec).alike rfl)
  exact ⟨halways after hafter, rfl, hafter⟩

variable (hfiled : ∀ key e, before.executions key = some e → before.FiledUnder e key)
  {extension : AuthExtension} (hextension : handleAuth X request.cookie = .ok extension)

include hfiled hextension

theorem ensures_getFlow : (server X).Ensures who (Shows (.getFlow request) before)
    (getFlow X extension request).run (succeeds fun _ _ => True) before := by
  refine ((ensures_fromRequestParts hextension).mono fun result w _ hsession => ?_).andThen
  cases result with
  | error error => trivial
  | ok session =>
      rw [succeeds_ok] at hsession ⊢
      cases hhost : request.host with
      | none => exact ⟨hsession.shows, trivial⟩
      | some host =>
          refine Ensures.andThen ?_
          rw [run_lift]
          refine ensures_bind.mpr ((ensures_getExecution (fun _ => rfl) hsession rfl).mono
            fun found w hnow hfound => ?_)
          refine ⟨hnow, ?_⟩
          cases found with
          | none => exact ⟨hnow, trivial⟩
          | some e =>
              have hfound := hfound e rfl
              refine ensures_readOnly_andThen (avoids_perform rfl)
                (fun _ halike => (hfound.alike halike).shows) fun _ w halike => ?_
              replace hfound := hfound.alike halike
              refine ((ensures_checkContext fun _ halike => (hfound.alike halike).shows).mono
                fun result w _ hcontext => ?_).andThen
              cases result with
              | error error => trivial
              | ok context =>
                  rw [succeeds_ok] at hcontext ⊢
                  obtain ⟨hnext, halike⟩ := hcontext
                  rw [run_lift_bind]
                  refine ensures_bind.mpr
                    ((ensures_data hfiled rfl (hfound.alike halike) hnext).mono
                    fun data w hnow _ => ⟨hnow, trivial⟩)

end Calls

section Shown

variable {call : Call X} {request : Request X} {reply : Reply X}
  (hfiled : ∀ key e, reply.before.executions key = some e → reply.before.FiledUnder e key)

include hfiled

theorem shows_of_getFlow (hserves : (server X).Serves (handle X (.getFlow request)) reply) :
    Shows (.getFlow request) reply.before reply.after := by
  cases hextension : handleAuth X request.cookie with
  | error kind =>
      have hhandle : handle X (.getFlow request) = pure (.error kind) := by
        rw [handle, Call.cookie, hextension]
      have hturned : (server X).Ensures reply.who (Shows (.getFlow request) reply.before)
          (handle X (.getFlow request)) (fun _ _ => True) reply.before := by
        rw [hhandle]
        exact ⟨shows_of_alike (.refl _), trivial⟩
      exact (hturned.serves hserves).1
  | ok extension =>
      have hhandle : handle X (.getFlow request) = (getFlow X extension request).run := by
        rw [handle, Call.cookie, hextension]
        rfl
      rw [hhandle] at hserves
      exact (Ensures.serves hserves (ensures_getFlow hfiled hextension)).1

/-- Once its check has denied a POST, what is left of it shows the flow. -/
theorem shows_of_denial (hserves : (server X).Serves (handle X (.postFlow request)) reply)
    (hdenial : Denial request (reply.log.map Logged.event)) :
    Shows (.postFlow request) reply.before reply.after := by
  obtain ⟨_, hcame, _⟩ := hserves.came
  generalize reply.log.map Logged.event = events at hdenial hcame
  obtain @⟨extension, host, _, session, _, e, context, _, _, _, _, _, rest,
    hextension, hhost, hform, hsession, hkey, hfound, hcontext, hcheck⟩ := hdenial
  have hhandle : handle X (.postFlow request) = (postFlow X extension request).run := by
    rw [handle, Call.cookie, hextension]
    rfl
  rw [hhandle, postFlow] at hcame
  obtain ⟨w, _, hopened, hcame⟩ :=
    hcame.resume_run hsession
      (@ensures_fromRequestParts X reply.who (.postFlow request) request reply.before extension
        hextension)
  simp only [hhost, hform, hkey] at hcame
  obtain ⟨w, _, hfoundAt, hcame⟩ :=
    hcame.resume_lift hfound (ensures_getExecution (by simp) hopened hkey)
  replace hfoundAt := hfoundAt _ rfl
  have hopening : (server X).Ensures reply.who (Shows (.postFlow request) reply.before)
      (openPost X request host session e).run (succeeds fun context after =>
        context.request.next = request.next ∧ w.Alike after) w := by
    refine ensures_readOnly_andThen (avoids_perform rfl)
      (fun _ halike => (hfoundAt.alike halike).shows) fun _ w' hconnected => ?_
    refine ensures_readOnly_andThen (avoids_perform rfl)
      (fun _ halike => (hfoundAt.alike (hconnected.trans halike)).shows) fun _ w'' hbegun => ?_
    have halike := hconnected.trans hbegun
    refine (ensures_checkContext fun _ hlater => (hfoundAt.alike (halike.trans hlater)).shows).mono
      fun result after _ hresult => ?_
    cases result with
    | error error => trivial
    | ok context => exact ⟨hresult.1, halike.trans hresult.2⟩
  obtain ⟨w', _, ⟨hnext, halike⟩, hcame⟩ := hcame.resume_run hcontext hopening
  replace hfoundAt := hfoundAt.alike halike
  obtain ⟨w', _, halike, hcame⟩ := hcame.resume_lift hcheck
    (ensures_readOnly readOnly_check fun _ halike => (hfoundAt.alike halike).shows)
  have hdata := @ensures_data X reply.who (.postFlow request) request _ _ e hfiled rfl
    (hfoundAt.alike halike) none context hnext
  have hshown : (server X).Ensures reply.who (Shows (.postFlow request) reply.before)
      (data X e none context >>= fun data => (pure (.json data) : Handler X Response).run)
      (fun _ _ => True) w' :=
    ensures_bind.mpr (hdata.mono fun data w hnow _ => ⟨hnow, trivial⟩)
  rw [run_lift_bind] at hcame
  exact (hshown.came hcame).now

end Shown

/-- From every state that calls reach when they interleave, a GET or a denied POST that is served
on its own leaves every execution and every row as it was. -/
theorem shown_changes_nothing {calls : Nat → Call X} {start : World X}
    {config : Config (sig X) (World X) (Except ApiErrorKind Response)} (hstart : start.Initial)
    (hreach : Interleaved calls start config) {call : Call X} {reply : Reply X}
    (hbefore : reply.before = config.state) (hserves : (server X).Serves (handle X call) reply)
    (hshown : IsShown call (reply.log.map Logged.event)) :
    (∀ (e : ExecId) (execution : FlowExecution), reply.before.heap[e]? = some execution →
        reply.after.heap[e]? = some execution) ∧
      (∀ sid user, reply.before.sessions sid = some user → reply.after.sessions sid = some user) ∧
        Shows call reply.before reply.after := by
  have hfiled : ∀ key e, reply.before.executions key = some e → reply.before.FiledUnder e key := by
    rw [hbefore]
    exact (hreach.holds owned_preserved (owned_initial hstart)).1.cached
  have hshows : Shows call reply.before reply.after := by
    generalize hevents : reply.log.map Logged.event = events at hshown
    cases hshown with
    | getFlow => exact shows_of_getFlow hfiled hserves
    | denied hdenial => exact shows_of_denial hfiled hserves (hevents ▸ hdenial)
  refine ⟨fun e execution hexecution => ?_, fun sid user hrow => ?_, hshows⟩
  · cases hshows.executions with
    | unchanged hheap | dropped _ _ _ _ _ _ hheap => rwa [hheap]
    | started _ _ _ _ hheap =>
        rw [hheap, List.getElem?_append_left (List.getElem?_eq_some_iff.mp hexecution).1]
        exact hexecution
  · rcases hshows.sessions with heq | ⟨fresh, hnone, heq⟩
    · rwa [heq]
    · have hne : sid ≠ fresh := by
        rintro rfl
        rw [hnone] at hrow
        cases hrow
      rw [heq, Function.update_of_ne hne]
      exact hrow

section ShownRuns

/-- A POST that is answered with the flow and no error has been denied. -/
theorem denial_of_shown {request : Request X} {reply : Reply X}
    (hserves : (server X).Serves (handle X (.postFlow request)) reply) {shown : FlowData}
    (hending : reply.ending = .returned (.ok (.json shown))) (herror : shown.error = none) :
    Denial request (reply.log.map Logged.event) := by
  have htrace := hserves.trace hending
  generalize reply.log.map Logged.event = history at htrace
  unfold handle at htrace
  split at htrace
  next => cases (trace_done.mp htrace).2
  next extension hextension =>
    obtain ⟨opening, session, _, hsession, hopened, rfl⟩ := trace_bind_ok.mp htrace
    split at hopened
    next host form hhost hform =>
      split at hopened
      next => cases (trace_done.mp hopened).2
      next key hkey =>
        obtain ⟨finding, found, _, hfound, hafter, rfl⟩ := trace_lift_bind.mp hopened
        cases found with
        | none => cases (trace_done.mp hafter).2
        | some e =>
            obtain ⟨connecting, context, _, hcontext, hconnected, rfl⟩ := trace_bind_ok.mp hafter
            obtain ⟨checking, verdict, rest, hcheck, hchecked, rfl⟩ := trace_lift_bind.mp hconnected
            cases verdict with
            | some message =>
                exact .intro rest hextension hhost hform hsession hkey hfound hcontext hcheck
            | none =>
                obtain ⟨_, result, _, _, hanswer, _⟩ := trace_lift_bind.mp hchecked
                split at hanswer
                next error =>
                  obtain ⟨_, data, _, hdata, hdone, _⟩ := trace_lift_bind.mp hanswer
                  cases (trace_done.mp hdone).2
                  rw [(trace_data_shown hdata).1] at herror
                  cases herror
                next => cases (trace_done.mp hanswer).2
                next =>
                  obtain ⟨_, _, _, hcompleted⟩ := trace_access_bind.mp hanswer
                  obtain ⟨_, _, _, _, hlooped, _⟩ := trace_bind_ok.mp hcompleted
                  obtain ⟨_, _, _, _, hcommitted, _⟩ := trace_bind_ok.mp hlooped
                  cases (trace_done.mp hcommitted).2
    next => cases (trace_done.mp hopened).2

/-- The flow is reserved for a user who does not exist. -/
def reservedForm : World Externals.plain := oneFormBound [⟨true, false, 0, .user 3⟩] [] []

def servedAfter (call : Call Externals.plain)
    (config : Config (sig Externals.plain) (World Externals.plain) (Except ApiErrorKind Response)) :
    Reply Externals.plain :=
  (server Externals.plain).served 1 (handle Externals.plain call) undisturbed config.state

/-- The reply shows the flow and no error. -/
def showsFlow (reply : Reply X) : Bool :=
  match reply.ending with
  | .returned (.ok (.json shown)) => shown.error.isNone
  | _ => false

/-- The flow has been shown; then a POST is served. -/
theorem reservedForm_run : ((sampleRun reservedForm (fun _ => sampleGet)
    (Act.awaits 0 .normal 10)).map fun config => (config.state.heap.length,
      showsFlow (servedAfter memberLogin config), (servedAfter memberLogin config).log.length)) =
        some (1, true, 17) := by
  decide +kernel

theorem reservedForm_unchanged : ∃ config, Interleaved (fun _ => sampleGet) reservedForm config ∧
    config.state.heap.length = 1 ∧ (servedAfter memberLogin config).log.length = 17 ∧
      ∀ (e : ExecId) (execution : FlowExecution), config.state.heap[e]? = some execution →
        (servedAfter memberLogin config).after.heap[e]? = some execution := by
  obtain ⟨config, hrun, hresult⟩ := Option.map_eq_some_iff.mp reservedForm_run
  simp only [Prod.mk.injEq] at hresult
  obtain ⟨hheap, hshows, hlog⟩ := hresult
  have hserves : (server Externals.plain).Serves (handle Externals.plain memberLogin)
      (servedAfter memberLogin config) := serve_serves _ _ _ _
  have hdenial : Denial (sampleRequest [("uid", "member"), ("password", "tulip")])
      ((servedAfter memberLogin config).log.map Logged.event) := by
    unfold showsFlow at hshows
    split at hshows
    next shown hending =>
      exact denial_of_shown hserves hending (Option.isNone_iff_eq_none.mp hshows)
    next => cases hshows
  exact ⟨config, sampleRun_interleaved hrun, hheap, hlog,
    (shown_changes_nothing (World.boot_initial _ _ _ _ _ _) (sampleRun_interleaved hrun) rfl hserves
      (.denied hdenial)).1⟩

end ShownRuns

end Authust
