import Authust.Server.ReadOnly

/-! # Why a request may write

Every operation of a handler that writes shared state is justified by what the request
itself has been answered before. The rule mentions no state, so it holds of every request
under every interleaving.
-/

namespace Authust

open Coop Coop.Task

variable {X : Externals}

abbrev History (X : Externals) := List (Event (sig X))

/-- How the submission, or a turn of the completion loop, takes up the current entry. -/
def entering (e : ExecId) (index : Nat) (entry : FlowEntry) (stage : Stage) : History X :=
  [⟨.isCompleted e, false⟩, ⟨.getEntry e, (index, entry)⟩] ++ stageLookup e entry.stage stage

/-- A successful password check of the user who was pending when it began. -/
def passwordCheck (e : ExecId) (context : ExecutionContext) (uid : Uuid)
    (stored hash password : String) : History X :=
  [⟨.readContext e, context⟩, ⟨.prepareCached "select password from users where uid = $1", .ok ()⟩,
    ⟨.queryPassword uid, .ok (some stored)⟩, ⟨.verifyPassword hash password, .ok ()⟩]

/-- The claims of a new session. -/
def newClaims (sid : String) : Claims :=
  { sid := sid, iss := "authust", sub := none, authenticated := false, isAdmin := false }

/-- The start of a POST that its check lets through to the submission. -/
inductive Admission (request : Request X) :
    History X → Value → Session → ExecId → CheckContext → Prop
  | intro {extension : AuthExtension} {host : String} {form : Value} {session : Session}
      {key : FlowKey} {e : ExecId} {context : CheckContext}
      {opening finding connecting checking : History X}
      (hextension : handleAuth X request.cookie = .ok extension)
      (hhost : request.host = some host) (hform : request.form = some form)
      (hsession : Trace (Session.fromRequestParts X extension).run opening (.ok session))
      (hkey : getKey session (.slug request.flowSlug) = some key)
      (hfound : Trace (getExecution X key false) finding (some e))
      (hcontext : Trace (openPost X request host session e).run connecting (.ok context))
      (hcheck : Trace (check X e context) checking none) :
      Admission request (opening ++ finding ++ connecting ++ checking) form session e context

theorem Admission.form_eq {request : Request X} {history : History X} {form : Value}
    {session : Session} {e : ExecId} {context : CheckContext}
    (hadmission : Admission request history form session e context) :
    request.form = some form := by
  cases hadmission with
  | intro _ _ hform _ _ _ _ _ => exact hform

/-- A POST past its first `complete_current`. -/
inductive Completing (request : Request X) : History X → Session → ExecId → Prop
  | intro {form : Value} {session : Session} {e : ExecId} {context : CheckContext}
      {admitted handled : History X} (middle : History X)
      (hadmission : Admission request admitted form session e context)
      (hhandled : Trace (handleSubmission X form e).run handled (.ok ())) :
      Completing request (admitted ++ handled ++ ⟨.completeCurrent e, ()⟩ :: middle) session e

/-- The session of a call, extracted before anything else. -/
inductive Opened (call : Call X) : History X → Session → Prop
  | intro {extension : AuthExtension} {session : Session} {opening : History X} (rest : History X)
      (hextension : handleAuth X call.cookie = .ok extension)
      (hsession : Trace (Session.fromRequestParts X extension).run opening (.ok session)) :
      Opened call (opening ++ rest) session

/-- The request of a call to the executor. -/
def Call.request? : Call X → Option (Request X)
  | getFlow request => some request
  | postFlow request => some request
  | _ => none

/-- The execution a call works on, found in the cache or started. -/
inductive Found (call : Call X) : History X → Session → ExecId → Prop
  | intro {request : Request X} {extension : AuthExtension} {session : Session} {key : FlowKey}
      {e : ExecId} {startNew : Bool} {opening finding : History X} (rest : History X)
      (hrequest : call.request? = some request)
      (hextension : handleAuth X call.cookie = .ok extension)
      (hsession : Trace (Session.fromRequestParts X extension).run opening (.ok session))
      (hkey : getKey session (.slug request.flowSlug) = some key)
      (hfound : Trace (getExecution X key startNew) finding (some e)) :
      Found call (opening ++ finding ++ rest) session e

/-- Why a call may issue an operation after the history it has had. -/
inductive Justified : Call X → History X → Op X → Prop
  | plain {call : Call X} {history : History X} {op : Op X} (hplain : op.writes = false) :
      Justified call history op
  | insertSession {call : Call X} {history : History X} {sid : String}
      (hsampled : ⟨.sampleSessionKey, sid⟩ ∈ history) :
      Justified call history (.insertSession sid)
  | newCookie {call : Call X} {history : History X} {sid : String} {token : X.Token}
      (hinserted : ⟨.insertSession sid, .ok ()⟩ ∈ history)
      (hencoded : X.encodeToken (newClaims sid) = .ok token) :
      Justified call history (.addCookie token)
  | insertExecution {request : Request X} {history : History X} {session : Session}
      {key : FlowKey} {flow : Flow} {storage : FreezedStorage} {now : OffsetDateTime}
      (hopened : Opened (.getFlow request) history session)
      (hkey : getKey session (.slug request.flowSlug) = some key)
      (hentries : flow.entries ≠ []) :
      Justified (.getFlow request) history (.insertExecution (.new key flow storage now))
  | invalidateExecution {call : Call X} {history : History X} {session : Session} {e : ExecId}
      {key : FlowKey} (hfound : Found call history session e)
      (hcompleted : ⟨.isCompleted e, true⟩ ∈ history) (hkey : ⟨.getKey e, key⟩ ∈ history) :
      Justified call history (.invalidateExecution key)
  | setPending {request : Request X} {admitted lookup : History X} {form : Value}
      {session : Session} {e : ExecId} {context : CheckContext} {index : Nat} {entry : FlowEntry}
      {stage : Stage} {password : Option (DataRef StageQuery)} {userFields : List UserField}
      {text : String} {user : PartialUser}
      (hadmission : Admission request admitted form session e context)
      (hkind : stage.kind = .identification password userFields)
      (htext : strFromField "uid" form = .ok text)
      (hlookup : Trace (lookupUser X text (userFields.contains .name) (userFields.contains .email)
        (userFields.contains .uuid)).run lookup (.ok (some user))) :
      Justified (.postFlow request) (admitted ++ entering e index entry stage ++ lookup)
        (.useMutContext e (.setPending (.ofPartialUser user)))
  | authenticate {request : Request X} {admitted : History X} (middle : History X) {form : Value}
      {session : Session} {e : ExecId} {checked : CheckContext} {index : Nat} {entry : FlowEntry}
      {stage : Stage} {context : ExecutionContext} {pending : PendingUser}
      {stored hash password : String}
      (hadmission : Admission request admitted form session e checked)
      (hpending : context.pending = some pending)
      (hpassword : strFromField "password" form = .ok password)
      (hstored : X.parseHash stored = .ok hash) :
      Justified (.postFlow request) (admitted ++ entering e index entry stage ++ middle ++
          passwordCheck e context pending.uid stored hash password)
        (.useMutContext e .authenticate)
  | setError {request : Request X} {history : History X} {session : Session} {e : ExecId}
      {index : Nat} {entry : FlowEntry} {stage : Stage} {context : ExecutionContext}
      {user : PendingUser} {error : ExecutionError}
      (hcompleting : Completing request history session e) (hkind : stage.kind = .userLogin)
      (hpending : context.pending = some user) (hauthenticated : user.authenticated = false) :
      Justified (.postFlow request)
        (history ++ entering e index entry stage ++ [⟨.readContext e, context⟩])
        (.useMutContext e (.setError error))
  | completeSubmission {request : Request X} {admitted handled : History X} {form : Value}
      {session : Session} {e : ExecId} {context : CheckContext}
      (hadmission : Admission request admitted form session e context)
      (hhandled : Trace (handleSubmission X form e).run handled (.ok ())) :
      Justified (.postFlow request) (admitted ++ handled) (.completeCurrent e)
  | completeTurn {request : Request X} {history turn : History X} {session : Session}
      {e : ExecId} (hcompleting : Completing request history session e)
      (hturn : Trace (completeTurn X request session e false).run turn (.ok .proceed)) :
      Justified (.postFlow request) (history ++ turn) (.completeCurrent e)
  | loginCookie {request : Request X} {history : History X} {session : Session} {e : ExecId}
      {index : Nat} {entry : FlowEntry} {stage : Stage} {context : ExecutionContext}
      {user : PendingUser} {added : Option X.Token} {cookie token : X.Token} {claims : Claims}
      (hcompleting : Completing request history session e) (hkind : stage.kind = .userLogin)
      (hpending : context.pending = some user) (hauthenticated : user.authenticated = true)
      (hcookie : added.or request.cookie = some cookie)
      (hdecoded : X.decodeToken cookie = .ok claims)
      (hencoded : X.encodeToken (loginClaims claims user) = .ok token) :
      Justified (.postFlow request) (history ++ entering e index entry stage ++
          [⟨.readContext e, context⟩, ⟨.addedCookie, added⟩])
        (.addCookie token)
  | updateSession {request : Request X} {history : History X} {session : Session} {e : ExecId}
      {index : Nat} {entry : FlowEntry} {stage : Stage} {context : ExecutionContext}
      {user : PendingUser} {added : Option X.Token} {token : X.Token} {claims : Claims}
      {sql : String} (hcompleting : Completing request history session e)
      (hkind : stage.kind = .userLogin) (hpending : context.pending = some user)
      (hauthenticated : user.authenticated = true)
      (hencoded : X.encodeToken (loginClaims claims user) = .ok token) :
      Justified (.postFlow request) (history ++ entering e index entry stage ++
          [⟨.readContext e, context⟩, ⟨.addedCookie, added⟩, ⟨.addCookie token, ()⟩,
            ⟨.prepareCached sql, .ok ()⟩])
        (.updateSession user.uid session.sessionId)
  | commit {request : Request X} {admitted handled looped : History X} {form : Value}
      {session : Session} {e : ExecId} {context : CheckContext}
      (hadmission : Admission request admitted form session e context)
      (hhandled : Trace (handleSubmission X form e).run handled (.ok ()))
      (hlooped : Trace (complete X request session e).run looped (.ok ())) :
      Justified (.postFlow request)
        (admitted ++ handled ++ ⟨.completeCurrent e, ()⟩ :: looped) .commit

/-- The rule that every handler obeys, whatever it returns. -/
abbrev Disciplined {α : Type} (call : Call X) (task : Task (sig X) α) (history : History X) :
    Prop :=
  @Obeys (sig X) α (Justified call) (fun _ _ => True) task history

theorem ReadOnly.disciplined {α : Type} {task : Task (sig X) α} (hreads : ReadOnly task)
    (call : Call X) (history : History X) : Disciplined call task history :=
  hreads.obeys (fun _ _ hop => .plain (by simpa using hop)) history

section Handlers

variable {α : Type} {call : Call X} {history : History X}

theorem disciplined_op_bind {op : Op X} {f : op.Res → Task (sig X) α}
    (hop : Justified call history op)
    (hrest : ∀ res, Disciplined call (f res) (history ++ [⟨op, res⟩])) :
    Disciplined call (Authust.op op >>= f) history :=
  ⟨hop, hrest⟩

theorem disciplined_access_bind {op : Op X} {f : op.Res → Handler X α}
    (hop : Justified call history op)
    (hrest : ∀ res, Disciplined call (f res).run (history ++ [⟨op, res⟩])) :
    Disciplined call (access op >>= f).run history :=
  ⟨hop, hrest⟩

theorem disciplined_access {op : Op X} (hop : Justified call history op) :
    Disciplined call (access op).run history :=
  ⟨hop, fun _ => trivial⟩

/-- A read-only part, after which its history is known. -/
theorem disciplined_lift_bind {β : Type} {task : Task (sig X) α} {f : α → Handler X β}
    (hreads : ReadOnly task)
    (hrest : ∀ tail value, Trace task tail value →
      Disciplined call (f value).run (history ++ tail)) :
    Disciplined call (ExceptT.lift task >>= f).run history := by
  rw [run_lift_bind]
  exact Obeys.bind (hreads.disciplined call history) hrest

theorem disciplined_await_bind {β : Type} {task : Task (sig X) (DbResult α)}
    {f : α → Handler X β} (hreads : ReadOnly task)
    (hrest : ∀ tail value, Trace task tail (.ok value) →
      Disciplined call (f value).run (history ++ tail)) :
    Disciplined call (await task >>= f).run history :=
  Obeys.run_bind (hreads.disciplined call history) hrest

end Handlers

section Posts

variable {request : Request X} {admitted : History X} {form : Value} {session : Session}
  {e : ExecId} {context : CheckContext}

theorem disciplined_handlePasswordStage
    (hadmission : Admission request admitted form session e context) {index : Nat}
    {entry : FlowEntry} {stage : Stage} (middle : History X) (backends : List PasswordBackend) :
    Disciplined (.postFlow request) (handlePasswordStage X form e backends).run
      (admitted ++ entering e index entry stage ++ middle) := by
  apply disciplined_access_bind (.plain rfl)
  intro inner
  split
  next => trivial
  next pending hpending =>
    split
    next => trivial
    next password hpassword =>
      split
      next hbackend =>
        apply disciplined_await_bind (avoids_perform rfl)
        intro preparing _ hpreparing
        apply disciplined_await_bind (avoids_perform rfl)
        intro querying answer hquerying
        cases answer with
        | none => trivial
        | some stored =>
            simp only
            split
            next => trivial
            next hash hstored =>
              apply disciplined_access_bind (.plain rfl)
              intro result
              split
              next =>
                rw [trace_perform] at hpreparing hquerying
                subst hpreparing hquerying
                refine disciplined_access ?_
                have hjustified : Justified (.postFlow request) (admitted ++
                    entering e index entry stage ++ middle ++
                      passwordCheck e inner pending.uid stored hash password)
                    (.useMutContext e .authenticate) :=
                  .authenticate middle hadmission hpending hpassword hstored
                simpa [passwordCheck] using hjustified
              next => trivial
              next => trivial
      next => trivial

theorem disciplined_handleIdentification
    (hadmission : Admission request admitted form session e context) {index : Nat}
    {entry : FlowEntry} {stage : Stage} {password : Option (DataRef StageQuery)}
    {userFields : List UserField} (hkind : stage.kind = .identification password userFields) :
    Disciplined (.postFlow request) (handleIdentification X form e password userFields).run
      (admitted ++ entering e index entry stage) := by
  unfold handleIdentification
  split
  next => trivial
  next text htext =>
    apply Obeys.run_bind (looks_lookupUser.readOnly.disciplined _ _)
    intro lookup found hlookup
    cases found with
    | none => trivial
    | some user =>
        apply disciplined_access_bind (.setPending hadmission hkind htext hlookup)
        intro _
        cases password with
        | none => trivial
        | some reference =>
            apply disciplined_lift_bind looks_lookupStage.readOnly
            intro tail stage _
            split
            next backends _ =>
              rw [List.append_assoc, List.append_assoc]
              exact disciplined_handlePasswordStage hadmission _ backends
            next =>
              rw [run_lift]
              exact ReadOnly.disciplined (Avoids.bind looks_panic.readOnly fun _ => avoids_done) _ _

/-- A stage writes to the execution only what its submission has been checked for. -/
theorem disciplined_handleStage
    (hadmission : Admission request admitted form session e context) {index : Nat}
    {entry : FlowEntry} (stage : Stage) :
    Disciplined (.postFlow request) (handleStage X form e stage).run
      (admitted ++ entering e index entry stage) := by
  unfold handleStage
  split
  next => trivial
  next => trivial
  next hkind => exact disciplined_handleIdentification hadmission hkind
  next => trivial
  next => trivial
  next => trivial
  next backends _ =>
    rw [← List.append_nil (admitted ++ _)]
    exact disciplined_handlePasswordStage hadmission [] backends
  next => trivial

/-- The submission is handled at the entry that it has taken up. -/
theorem disciplined_handleSubmission
    (hadmission : Admission request admitted form session e context) :
    Disciplined (.postFlow request) (handleSubmission X form e).run admitted := by
  apply disciplined_access_bind (.plain rfl)
  intro completed
  cases completed with
  | true => trivial
  | false =>
      apply disciplined_access_bind (.plain rfl)
      intro entry
      apply disciplined_lift_bind looks_lookupStage.readOnly
      intro tail stage hstage
      rw [trace_lookupStage] at hstage
      subst hstage
      have hdisciplined : Disciplined (.postFlow request) (handleStage X form e stage).run
          (admitted ++ entering e entry.1 entry.2 stage) :=
        disciplined_handleStage hadmission stage
      simpa [entering] using hdisciplined

theorem disciplined_setSessionCookie {call : Call X} {history : History X} {claims : Claims}
    (hcookie : ∀ token, X.encodeToken claims = .ok token →
      Justified call history (.addCookie token)) :
    Disciplined call (setSessionCookie X claims).run history := by
  unfold setSessionCookie
  split
  next => trivial
  next token hencoded => exact disciplined_access (hcookie token hencoded)

theorem trace_access {op : Op X} {res : op.Res} {history : History X} :
    Trace (access op).run history (.ok res) ↔ history = [⟨op, res⟩] := by
  simp only [run_lift, perform_eq_call, call_bind, done_bind, trace_call, trace_done,
    Except.ok.injEq]
  constructor
  · rintro ⟨answer, tail, rfl, rfl, rfl⟩
    rfl
  · rintro rfl
    exact ⟨res, [], rfl, rfl, rfl⟩

theorem trace_getSessionCookie {cookie : Option X.Token} {history : History X} :
    Trace (getSessionCookie X request) history cookie ↔
      ∃ added, history = [⟨.addedCookie, added⟩] ∧ cookie = added.or request.cookie := by
  simp only [getSessionCookie, perform_eq_call, call_bind, done_bind, trace_call]
  constructor
  · rintro ⟨added, tail, rfl, htail⟩
    cases added with
    | none =>
        obtain ⟨rfl, rfl⟩ := trace_done.mp htail
        exact ⟨none, rfl, rfl⟩
    | some token =>
        obtain ⟨rfl, rfl⟩ := trace_done.mp htail
        exact ⟨some token, rfl, rfl⟩
  · rintro ⟨added, rfl, rfl⟩
    refine ⟨added, [], rfl, ?_⟩
    cases added <;> exact .refl _

theorem trace_setSessionCookie {claims : Claims} {history : History X} :
    Trace (setSessionCookie X claims).run history (.ok ()) ↔
      ∃ token, X.encodeToken claims = .ok token ∧ history = [⟨.addCookie token, ()⟩] := by
  unfold setSessionCookie
  cases hencoded : X.encodeToken claims with
  | error kind => simp
  | ok token =>
      simp only [Except.ok.injEq, exists_eq_left']
      exact trace_access

theorem Completing.append {history : History X} (hcompleting : Completing request history session e)
    (more : History X) : Completing request (history ++ more) session e := by
  cases hcompleting with
  | intro middle hadmission hhandled =>
      rw [List.append_assoc, List.cons_append]
      exact .intro _ hadmission hhandled

/-- A login signs in whom it has read as pending, to the session of its token. -/
theorem disciplined_userLogin {history : History X}
    (hcompleting : Completing request history session e) {index : Nat} {entry : FlowEntry}
    {stage : Stage} (hkind : stage.kind = .userLogin) :
    Disciplined (.postFlow request) (userLogin X request session e entry).run
      (history ++ entering e index entry stage) := by
  apply disciplined_access_bind (.plain rfl)
  intro inner
  split
  next => trivial
  next user hpending =>
    split
    next hauthenticated =>
      apply disciplined_lift_bind looks_getSessionCookie.readOnly
      intro reading cookie hreading
      obtain ⟨added, rfl, hcookie⟩ := trace_getSessionCookie.mp hreading
      split
      next => trivial
      next cookie =>
        split
        next => trivial
        next claims hdecoded =>
          refine Obeys.run_bind ?_ fun setting _ hsetting => ?_
          · apply disciplined_setSessionCookie
            intro token hencoded
            rw [List.append_assoc]
            exact .loginCookie hcompleting hkind hpending hauthenticated hcookie.symm hdecoded
              hencoded
          · obtain ⟨token, hencoded, rfl⟩ := trace_setSessionCookie.mp hsetting
            apply disciplined_await_bind (avoids_perform rfl)
            intro preparing _ hpreparing
            rw [trace_perform] at hpreparing
            subst hpreparing
            refine Obeys.run_bind ⟨?_, fun _ => trivial⟩ fun _ _ _ => trivial
            rw [List.append_assoc, List.append_assoc, List.append_assoc]
            exact .updateSession hcompleting hkind hpending hauthenticated hencoded
    next hauthenticated =>
      refine disciplined_access_bind ?_ fun _ => trivial
      exact .setError hcompleting hkind hpending (by simpa using hauthenticated)

/-- A turn goes on only where its entry is a login that has gone through. -/
theorem disciplined_completeTurn {history : History X}
    (hcompleting : Completing request history session e) (exhausted : Bool) :
    Disciplined (.postFlow request) (completeTurn X request session e exhausted).run history := by
  apply disciplined_access_bind (.plain rfl)
  intro completed
  cases completed with
  | true => trivial
  | false =>
      apply disciplined_access_bind (.plain rfl)
      intro entry
      apply disciplined_lift_bind looks_lookupStage.readOnly
      intro tail stage hstage
      rw [trace_lookupStage] at hstage
      subst hstage
      have hpanic : ∀ (message : String) (past : History X), Disciplined (.postFlow request)
          (ExceptT.lift (panic message) : Handler X LoopControl).run past := by
        intro message past
        rw [run_lift]
        exact ReadOnly.disciplined (Avoids.bind looks_panic.readOnly fun _ => avoids_done) _ _
      split
      next => trivial
      next =>
        split
        next => trivial
        next =>
          split
          next hkind =>
            have hdisciplined : Disciplined (.postFlow request)
                (userLogin X request session e entry.2).run
                (history ++ entering e entry.1 entry.2 stage) :=
              disciplined_userLogin hcompleting hkind
            simpa [entering] using hdisciplined
          next => exact hpanic _ _
          next => exact hpanic _ _
          next => exact hpanic _ _

/-- The completion loop advances what each turn has handled, however many turns are left. -/
theorem disciplined_completeLoop {history : History X}
    (hcompleting : Completing request history session e) (left : Nat) :
    Disciplined (.postFlow request) (completeLoop X request session e left).run history := by
  induction left generalizing history with
  | zero => exact Obeys.run_bind (disciplined_completeTurn hcompleting true) fun _ _ _ => trivial
  | succ left ih =>
      refine Obeys.run_bind (disciplined_completeTurn hcompleting false)
        fun turn control hturn => ?_
      cases control with
      | leave => trivial
      | proceed =>
          apply disciplined_access_bind (.completeTurn hcompleting hturn)
          intro _
          exact ih ((hcompleting.append turn).append _)

end Posts

section Calls

variable {call : Call X} {history : History X} {session : Session} {e : ExecId}

theorem Found.append (hfound : Found call history session e) (more : History X) :
    Found call (history ++ more) session e := by
  cases hfound with
  | intro rest hrequest hextension hsession hkey hgot =>
      rw [List.append_assoc]
      exact .intro _ hrequest hextension hsession hkey hgot

theorem disciplined_completedComponent (hfound : Found call history session e)
    (hcompleted : ⟨.isCompleted e, true⟩ ∈ history) (context : CheckContext) :
    Disciplined call (completedComponent X e context) history := by
  unfold completedComponent
  split
  next target _ =>
    apply disciplined_op_bind (.plain rfl)
    intro key
    refine disciplined_op_bind ?_ fun _ => trivial
    exact .invalidateExecution (hfound.append _) (List.mem_append_left _ hcompleted) (by simp)
  next => trivial

/-- An answer drops the execution only when that is the one found and is completed. -/
theorem disciplined_data (hfound : Found call history session e) (error : Option SubmissionError)
    (context : CheckContext) : Disciplined call (data X e error context) history := by
  refine disciplined_op_bind (.plain rfl) fun flow =>
    disciplined_op_bind (.plain rfl) fun entry => ?_
  apply Obeys.bind (looks_lookupStage.readOnly.disciplined _ _)
  intro lookup stage _
  apply disciplined_op_bind (.plain rfl)
  intro completed
  apply Obeys.bind (readOnly_check.disciplined _ _)
  intro checking denied _
  split
  next => trivial
  next =>
    simp only
    split
    next hcompleted =>
      have hpast := ((((hfound.append [⟨.getFlow e, flow⟩]).append [⟨.getEntry e, entry⟩]).append
        lookup).append [⟨.isCompleted e, completed⟩]).append checking
      refine Obeys.bind (disciplined_completedComponent hpast (by simp [hcompleted]) context) ?_
      exact fun _ _ _ => disciplined_op_bind (.plain rfl) fun _ => trivial
    next =>
      refine Obeys.bind (readOnly_currentComponent.disciplined _ _) ?_
      exact fun _ _ _ => disciplined_op_bind (.plain rfl) fun _ => trivial

theorem Opened.append (hopened : Opened call history session) (more : History X) :
    Opened call (history ++ more) session := by
  cases hopened with
  | intro rest hextension hsession =>
      rw [List.append_assoc]
      exact .intro _ hextension hsession

theorem disciplined_makeNewSession :
    Disciplined call (makeNewSession X).run history := by
  apply disciplined_access_bind (.plain rfl)
  intro sid
  apply disciplined_await_bind (avoids_perform rfl)
  intro preparing _ _
  refine Obeys.run_bind ⟨.insertSession (by simp), fun _ => trivial⟩
    fun inserting _ hinserting => ?_
  obtain rfl := trace_perform.mp hinserting
  refine Obeys.run_bind ?_ fun _ _ _ => trivial
  exact disciplined_setSessionCookie fun token hencoded => .newCookie (by simp) hencoded

/-- The extractor creates a session only where none is presented that has a row. -/
theorem disciplined_fromRequestParts (extension : AuthExtension) :
    Disciplined call (Session.fromRequestParts X extension).run history := by
  apply disciplined_await_bind (avoids_perform rfl)
  intro _ _ _
  split
  next => exact disciplined_makeNewSession
  next => trivial
  next claims _ =>
    apply disciplined_await_bind (avoids_perform rfl)
    intro _ _ _
    apply disciplined_await_bind (avoids_perform rfl)
    intro _ row _
    cases row with
    | some userId => trivial
    | none => exact disciplined_makeNewSession

/-- An execution is started under the key that was looked for. -/
theorem disciplined_start {request : Request X} {key : FlowKey}
    (hopened : Opened (.getFlow request) history session)
    (hkey : getKey session (.slug request.flowSlug) = some key) :
    Disciplined (.getFlow request) (start X key) history := by
  apply disciplined_op_bind (.plain rfl)
  intro found
  cases found with
  | none => trivial
  | some flow =>
      simp only
      split
      next => trivial
      next hentries =>
        refine Obeys.bind (recording_reverseLookupFlow.readOnly.disciplined _ _)
          fun _ storage _ => ?_
        apply disciplined_op_bind (.plain rfl)
        intro now
        refine disciplined_op_bind ?_ fun _ => trivial
        refine .insertExecution ?_ hkey (by simpa using hentries)
        exact ((hopened.append _).append _).append _

/-- An execution is looked for in the cache before it is started. -/
theorem disciplined_getExecution {request : Request X} {key : FlowKey}
    (hopened : Opened (.getFlow request) history session)
    (hkey : getKey session (.slug request.flowSlug) = some key) (startNew : Bool) :
    Disciplined (.getFlow request) (getExecution X key startNew) history := by
  apply disciplined_op_bind (.plain rfl)
  intro cached
  cases cached with
  | some e => trivial
  | none =>
      simp only
      split
      next => exact disciplined_start (hopened.append _) hkey
      next => trivial

/-- Looking an execution up without starting one only reads. -/
theorem readOnly_getExecution {key : FlowKey} : ReadOnly (getExecution X key false) := by
  apply avoids_perform_bind rfl
  intro cached
  cases cached <;> exact avoids_done

theorem Admission.found {request : Request X} {admitted : History X} {form : Value}
    {context : CheckContext} (hadmission : Admission request admitted form session e context)
    (more : History X) : Found (.postFlow request) (admitted ++ more) session e := by
  cases hadmission with
  | intro hextension _ _ hsession hkey hgot _ _ =>
      rw [List.append_assoc, List.append_assoc]
      exact .intro _ rfl hextension hsession hkey hgot

theorem Completing.found {request : Request X}
    (hcompleting : Completing request history session e) :
    Found (.postFlow request) history session e := by
  cases hcompleting with
  | intro middle hadmission _ =>
      rw [List.append_assoc]
      exact hadmission.found _

/-- What follows the check of a POST rests on the admission. -/
theorem disciplined_submit {request : Request X} {admitted : History X} {form : Value}
    {context : CheckContext} (hadmission : Admission request admitted form session e context) :
    Disciplined (.postFlow request) (submit X request form session e context).run admitted := by
  unfold submit
  rw [run_lift_bind]
  apply Obeys.bind (disciplined_handleSubmission hadmission)
  intro handled result hhandled
  split
  next error =>
    rw [run_lift_bind]
    refine Obeys.bind ?_ fun _ _ _ => trivial
    exact disciplined_data (hadmission.found handled) _ _
  next => trivial
  next =>
    apply disciplined_access_bind (.completeSubmission hadmission hhandled)
    intro _
    refine Obeys.run_bind ?_ fun looped _ hlooped => ?_
    · exact disciplined_completeLoop (.intro [] hadmission hhandled) 41
    · refine Obeys.run_bind ⟨?_, fun _ => trivial⟩ fun _ _ _ => trivial
      rw [List.append_assoc]
      exact .commit hadmission hhandled hlooped

/-- A POST completes what was admitted, or shows why it was not. -/
theorem disciplined_postFlow {request : Request X} {extension : AuthExtension}
    (hextension : handleAuth X request.cookie = .ok extension) :
    Disciplined (.postFlow request) (postFlow X extension request).run [] := by
  apply Obeys.run_bind (disciplined_fromRequestParts extension)
  intro opening session hsession
  split
  next host form hhost hform =>
    split
    next => trivial
    next key hkey =>
      apply disciplined_lift_bind readOnly_getExecution
      intro finding found hfound
      cases found with
      | none => trivial
      | some e =>
          refine Obeys.run_bind (readOnly_openPost.disciplined _ _)
            fun connecting context hcontext => ?_
          apply disciplined_lift_bind readOnly_check
          intro checking verdict hcheck
          have hpast : Found (.postFlow request)
              ([] ++ opening ++ finding ++ (connecting ++ checking)) session e :=
            .intro _ rfl hextension hsession hkey hfound
          cases verdict with
          | some message =>
              simp only
              rw [run_lift_bind]
              refine Obeys.bind ?_ fun _ _ _ => trivial
              rw [List.append_assoc]
              exact disciplined_data hpast _ _
          | none =>
              exact disciplined_submit
                (.intro hextension hhost hform hsession hkey hfound hcontext hcheck)
  next => trivial

/-- A GET extracts its session, finds or starts the execution, and shows it. -/
theorem disciplined_getFlow {request : Request X} {extension : AuthExtension}
    (hextension : handleAuth X request.cookie = .ok extension) :
    Disciplined (.getFlow request) (getFlow X extension request).run [] := by
  apply Obeys.run_bind (disciplined_fromRequestParts extension)
  intro opening session hsession
  split
  next => trivial
  next host _ =>
    split
    next => trivial
    next key hkey =>
      have hopened : Opened (.getFlow request) ([] ++ opening) session := by
        simpa using Opened.intro [] hextension hsession
      rw [run_lift_bind]
      apply Obeys.bind (disciplined_getExecution hopened hkey true)
      intro finding found hfound
      cases found with
      | none => trivial
      | some e =>
          refine Obeys.run_bind (ReadOnly.disciplined (avoids_perform rfl) _ _)
            fun connecting _ _ => ?_
          apply Obeys.run_bind (readOnly_checkContext.disciplined _ _)
          intro reading context _
          rw [run_lift_bind]
          refine Obeys.bind ?_ fun _ _ _ => trivial
          have hpast : Found (.getFlow request)
              ([] ++ opening ++ finding ++ (connecting ++ reading)) session e :=
            .intro _ rfl hextension hsession hkey hfound
          rw [List.append_assoc]
          exact disciplined_data hpast _ _

/-- Every operation that a call issues is justified by its own history. -/
theorem disciplined_handle (call : Call X) : Disciplined call (handle X call) [] := by
  unfold handle
  split
  next => trivial
  next extension hextension =>
    cases call with
    | getFlow request => exact disciplined_getFlow hextension
    | postFlow request => exact disciplined_postFlow hextension
    | userInfo cookie =>
        apply Obeys.run_bind (disciplined_fromRequestParts extension)
        intro _ session _
        refine ReadOnly.disciplined ?_ _ _
        exact Avoids.run_bind (avoids_perform rfl) fun _ =>
          Avoids.run_bind readOnly_getUser fun _ => avoids_done
    | admin cookie =>
        refine Obeys.run_bind ?_ fun _ _ _ => trivial
        apply Obeys.run_bind (disciplined_fromRequestParts extension)
        intro _ session _
        split <;> trivial

/-- The rule at a point of a path of a call. -/
theorem justified_of_path {op : Op X} {next : op.Res → Task (sig X) (Except ApiErrorKind Response)}
    (hpath : Path (handle X call) history (@Coop.Task.call (sig X) _ op next)) :
    Justified call history op :=
  (disciplined_handle call).allows hpath

end Calls

end Authust
