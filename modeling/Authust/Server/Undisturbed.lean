import Authust.Coop.Alone
import Authust.Server.Visit

/-! # What the handlers come to when nothing disturbs them

Each part of a handler is run by itself, and comes to what the visit says of it.
-/

namespace Authust

open Coop Coop.Task Coop.Machine

variable {X : Externals} {who : Nat} {w : World X}

namespace World

/-- The execution at the place is another one. -/
def place (w : World X) (e : ExecId) (execution : FlowExecution) : World X :=
  { w with heap := w.heap.set e execution }

/-- The private part of a request is another one. -/
def withDesk (w : World X) (who : Nat) (desk : Desk X) : World X :=
  { w with
    transactions := Function.update w.transactions who desk.updates
    cookies := Function.update w.cookies who desk.cookie }

variable {e : ExecId} {execution : FlowExecution}

@[simp] theorem place_place (later : FlowExecution) :
    (w.place e execution).place e later = w.place e later := by
  simp [place]

theorem place_self (hheap : w.heap[e]? = some execution) : w.place e execution = w := by
  obtain ⟨hlt, rfl⟩ := List.getElem?_eq_some_iff.mp hheap
  simp [place]

theorem place_heap (hheap : w.heap[e]? = some execution) (later : FlowExecution) :
    (w.place e later).heap[e]? = some later := by
  obtain ⟨hlt, _⟩ := List.getElem?_eq_some_iff.mp hheap
  simp [place, hlt]

theorem modifyExecution_eq (hheap : w.heap[e]? = some execution)
    (f : FlowExecution → FlowExecution) : w.modifyExecution e f = w.place e (f execution) := by
  obtain ⟨hlt, rfl⟩ := List.getElem?_eq_some_iff.mp hheap
  simp [modifyExecution, place, List.modify_eq_set_getElem?, List.getElem?_eq_getElem hlt]

@[simp] theorem withDesk_self (w : World X) (who : Nat) : w.withDesk who (w.desk who) = w := by
  simp [withDesk, desk]

@[simp] theorem withDesk_withDesk (first second : Desk X) :
    (w.withDesk who first).withDesk who second = w.withDesk who second := by
  simp [withDesk]

@[simp] theorem desk_withDesk (desk : Desk X) : (w.withDesk who desk).desk who = desk := by
  simp [withDesk, World.desk]

@[simp] theorem release_withDesk (desk : Desk X) :
    (w.withDesk who desk).release who = w.release who := by
  simp [withDesk, release]

theorem withDesk_place (desk : Desk X) (later : FlowExecution) :
    (w.withDesk who desk).place e later = (w.place e later).withDesk who desk := rfl

end World

/-- An operation that is run by itself. -/
theorem alone_op {op : Op X} {answer : op.Res} {after : World X}
    (hexec : exec X who op .normal w = some (answer, after)) :
    (server X).alone who .normal (Authust.op op) w = some (answer, after) := by
  have hexec' : (server X).exec who op .normal w = some (answer, after) := hexec
  simp [hexec']

/-- An operation that cannot fail, inside a handler. -/
theorem alone_access {α : Type} {op : Op X} {f : op.Res → Handler X α} {answer : op.Res}
    {after : World X} (hexec : exec X who op .normal w = some (answer, after)) :
    (server X).alone who .normal (access op >>= f).run w =
      (server X).alone who .normal (f answer).run after :=
  alone_lift_some (alone_op hexec)

/-- An awaited call that succeeds. -/
theorem alone_await {α β : Type} {call : Task (sig X) (DbResult α)} {f : α → Handler X β}
    {value : α} {after : World X}
    (hcall : (server X).alone who .normal call w = some (.ok value, after)) :
    (server X).alone who .normal (await call >>= f).run w =
      (server X).alone who .normal (f value).run after :=
  alone_run_ok hcall

theorem alone_lift_panic {α : Type} {message : String} :
    (server X).alone who .normal (ExceptT.lift (panic message) : Handler X α).run w = none := by
  rw [run_lift]
  exact alone_bind_none alone_panic

section Storage

variable {e : ExecId} {execution : FlowExecution}

/-- A lookup in the frozen storage panics or answers the stage it has. -/
theorem alone_lookupStage {reference : DataRef StageQuery} (hheap : w.heap[e]? = some execution) :
    (server X).alone who .normal (lookupStage X e reference) w =
      (execution.context.storage.stage.findOptional reference).join.map
        fun stage => (stage, w) := by
  rw [lookupStage, alone_op_bind rfl]
  cases hfound : execution.context.storage.stage.findOptional reference with
  | none => exact alone_op_bind_none (by simp [exec, hheap, hfound])
  | some found =>
      have hfrozen : ∀ readers, exec X who (.frozenStage e reference) .normal
          { w with readers := readers } = some (found, { w with readers := readers }) := by
        intro readers
        simp [exec, hheap, hfound]
      rw [alone_op_bind (hfrozen _), alone_op_bind rfl]
      simp only [List.erase_cons_head]
      cases found with
      | none => exact alone_panic
      | some stage => rfl

end Storage

section Users

variable {form : Value}

theorem alone_queryUser {key : UserKey} :
    (server X).alone who .normal (await (op (.queryUser key)) : Handler X _).run w =
      some (w.queryUser key, w) :=
  alone_op (by cases hquery : w.queryUser key <;> simp [exec, Choice.db, hquery])

theorem alone_queryPassword {uid : Uuid} :
    (server X).alone who .normal (await (op (.queryPassword uid)) : Handler X _).run w =
      some ((w.queryUser (.uid uid)).map fun row => row.map UserRow.password, w) :=
  alone_op (by cases hquery : w.queryUser (.uid uid) <;> simp [exec, Choice.db, hquery])

theorem alone_lookupUserBy {sql : String} {key : UserKey} :
    (server X).alone who .normal (lookupUserBy X sql key).run w =
      some ((w.queryUser key).map fun row => row.map UserRow.toPartialUser, w) := by
  have hquery := @alone_queryUser X who w key
  rw [lookupUserBy, alone_run_ok (alone_op rfl)]
  cases hfound : w.queryUser key with
  | error kind =>
      rw [hfound] at hquery
      exact alone_run_error hquery
  | ok row =>
      rw [hfound] at hquery
      exact alone_run_ok hquery

/-- What the rest of a lookup comes to when the key at its head finds nobody. -/
theorem alone_lookup_first {sql : String} {key : UserKey} {rest : List UserKey}
    {next : Handler X (Option PartialUser)}
    (hnext : (server X).alone who .normal next.run w = some (findFirst w.users rest, w)) :
    (server X).alone who .normal (do
      match ← lookupUserBy X sql key with
      | some user => pure (some user)
      | none => next : Handler X (Option PartialUser)).run w =
        some (findFirst w.users (key :: rest), w) := by
  have hfirst := @alone_lookupUserBy X who w sql key
  unfold findFirst
  rw [World.queryUser] at hfirst
  cases hfound : queryOpt (w.users.filter key.matches) with
  | error kind =>
      rw [hfound] at hfirst
      exact alone_run_error hfirst
  | ok row =>
      rw [hfound] at hfirst
      rw [alone_run_ok hfirst]
      cases row with
      | none => exact hnext
      | some row => rfl

theorem alone_lookupUserByUuid {text : String} {useUuid : Bool} :
    (server X).alone who .normal (lookupUserByUuid X text useUuid).run w =
      some (findFirst w.users
        (if useUuid then (X.parseUuid text).toList.map .uid else []), w) := by
  unfold lookupUserByUuid
  cases useUuid with
  | false => rfl
  | true =>
      cases X.parseUuid text with
      | none => rfl
      | some uid =>
          simp only [↓reduceIte, lookupUserUid, Option.toList_some, List.map_cons, List.map_nil]
          rw [alone_lookupUserBy]
          unfold findFirst
          rw [World.queryUser]
          rcases queryOpt (w.users.filter (UserKey.uid uid).matches) with kind | _ | row <;> rfl

theorem alone_lookupUserByEmail {text : String} {useEmail useUuid : Bool} :
    (server X).alone who .normal (lookupUserByEmail X text useEmail useUuid).run w =
      some (findFirst w.users ((if useEmail then [.email text] else []) ++
        if useUuid then (X.parseUuid text).toList.map .uid else []), w) := by
  unfold lookupUserByEmail
  cases useEmail with
  | false => exact alone_lookupUserByUuid
  | true => exact alone_lookup_first alone_lookupUserByUuid

/-- A text is looked up by the keys that are enabled. -/
theorem alone_lookupUser {text : String} {fields : List UserField} :
    (server X).alone who .normal (lookupUser X text (fields.contains .name)
      (fields.contains .email) (fields.contains .uuid)).run w =
        some (findFirst w.users (identifiers X fields text), w) := by
  unfold lookupUser identifiers
  cases fields.contains .name with
  | false => exact alone_lookupUserByEmail
  | true => exact alone_lookup_first alone_lookupUserByEmail

end Users

section Submission

variable {form : Value} {e : ExecId} {execution : FlowExecution}

/-- The execution with another pending user. -/
def FlowExecution.withPending (execution : FlowExecution) (pending : Option PendingUser) :
    FlowExecution :=
  { execution with context := { execution.context with pending := pending } }

theorem exec_updates {update : ContextUpdate} (hheap : w.heap[e]? = some execution)
    (hreaders : w.readers = []) : exec X who (.useMutContext e update) .normal w =
      some ((), w.place e (execution.useMutContext update)) := by
  rw [← World.modifyExecution_eq hheap fun execution => execution.useMutContext update]
  simp [exec, World.readLocked, hreaders, hheap]

theorem exec_completes (hheap : w.heap[e]? = some execution) :
    exec X who (.completeCurrent e) .normal w =
      some ((), w.place e execution.completeCurrent) := by
  rw [← World.modifyExecution_eq hheap FlowExecution.completeCurrent]
  simp [exec, hheap]

/-- The state behind a step that leaves it alone where it fails. -/
def World.behind (w : World X) (result : Except ApiErrorKind Unit) (later : World X) : World X :=
  match result with
  | .error _ => w
  | .ok () => later

/-- The stored password is verified, and makes the pending user authenticated. -/
theorem alone_verify {stored password : String} (hheap : w.heap[e]? = some execution)
    (hreaders : w.readers = []) :
    (server X).alone who .normal (match X.parseHash stored with
      | .error error => throw (.ofPwHash error)
      | .ok hash => do
          match ← access (.verifyPassword hash password) with
          | .ok () => access (.useMutContext e .authenticate)
          | .error .password => throw (invalidField "password" "Invalid Password")
          | .error error => throw (.ofPwHash error) : Handler X Unit).run w =
      some (verifyStored X stored password, w.behind (verifyStored X stored password)
        (w.place e (execution.useMutContext .authenticate))) := by
  unfold verifyStored
  cases X.parseHash stored with
  | error error => rfl
  | ok hash =>
      simp only
      rw [alone_access rfl]
      rcases X.verifyPassword hash password with (_ | _) | _
      · rfl
      · rfl
      · exact alone_access (exec_updates hheap hreaders)

theorem alone_handlePasswordStage {backends : List PasswordBackend}
    (hheap : w.heap[e]? = some execution) (hreaders : w.readers = []) :
    (server X).alone who .normal (handlePasswordStage X form e backends).run w =
      some ((answerPassword X w.users form backends execution.context.pending).1,
        w.place e (execution.withPending
          (answerPassword X w.users form backends execution.context.pending).2)) := by
  have hread : exec X who (.readContext e) .normal w = some (execution.context, w) := by
    simp [exec, hheap]
  have hsame : w.place e (execution.withPending execution.context.pending) = w :=
    World.place_self hheap
  unfold handlePasswordStage answerPassword
  rw [alone_access hread]
  cases hpending : execution.context.pending with
  | none =>
      rw [hpending] at hsame
      exact congrArg (fun after => some (_, after)) hsame.symm
  | some user =>
      rw [hpending] at hsame
      simp only
      suffices hjudged : (server X).alone who .normal _ w = some
          (judgePassword X w.users form backends user.uid,
            w.behind (judgePassword X w.users form backends user.uid)
              (w.place e (execution.useMutContext .authenticate))) by
        rw [hjudged]
        cases judgePassword X w.users form backends user.uid with
        | error kind => simp only [World.behind, hsame]
        | ok value =>
            simp [World.behind, FlowExecution.withPending, FlowExecution.useMutContext,
              ContextUpdate.apply, hpending]
      unfold judgePassword
      cases strFromField "password" form with
      | error kind => rfl
      | ok password =>
          simp only
          split
          next =>
            have hquery := @alone_queryPassword X who w user.uid
            rw [World.queryUser] at hquery
            rw [alone_run_ok (alone_op rfl)]
            cases hfound : queryOpt (w.users.filter (UserKey.uid user.uid).matches) with
            | error kind =>
                rw [hfound] at hquery
                exact alone_run_error hquery
            | ok row =>
                rw [hfound] at hquery
                rw [alone_run_ok hquery]
                cases row with
                | none => rfl
                | some row => exact alone_verify hheap hreaders
          next => rfl

theorem alone_handleIdentification {password : Option (DataRef StageQuery)}
    {fields : List UserField} (hheap : w.heap[e]? = some execution) (hreaders : w.readers = []) :
    (server X).alone who .normal (handleIdentification X form e password fields).run w =
      (answerIdentification X w.users execution.context.storage form password fields
        execution.context.pending).map fun answer =>
          (answer.1, w.place e (execution.withPending answer.2)) := by
  have hsame : w.place e (execution.withPending execution.context.pending) = w :=
    World.place_self hheap
  unfold handleIdentification answerIdentification
  cases strFromField "uid" form with
  | error kind =>
      rw [Option.map_some, hsame]
      rfl
  | ok text =>
      have hlookup := @alone_lookupUser X who w text fields
      simp only
      cases hfound : findFirst w.users (identifiers X fields text) with
      | error kind =>
          rw [hfound] at hlookup
          rw [alone_run_error hlookup, Option.map_some, hsame]
      | ok user =>
          rw [hfound] at hlookup
          rw [alone_run_ok hlookup]
          cases user with
          | none =>
              rw [Option.map_some, hsame]
              rfl
          | some user =>
              have hplaced := World.place_heap hheap
                (execution.withPending (some (.ofPartialUser user)))
              have hstage := fun reference => @alone_lookupStage X who _ e _ reference hplaced
              simp only
              rw [alone_access (exec_updates hheap hreaders)]
              cases password with
              | none => rfl
              | some reference =>
                  specialize hstage reference
                  simp only
                  cases hfrozen : (execution.context.storage.stage.findOptional reference).join with
                  | none =>
                      rw [FlowExecution.withPending, hfrozen] at hstage
                      exact alone_lift_none hstage
                  | some stage =>
                      rw [FlowExecution.withPending, hfrozen] at hstage
                      refine (alone_lift_some hstage).trans ?_
                      rw [Option.map_some]
                      cases stage.kind with
                      | password backends =>
                          refine (alone_handlePasswordStage hplaced hreaders).trans ?_
                          rw [World.place_place]
                          rfl
                      | deny | prompt | identification | userLogin | userLogout | userWrite
                        | consent => exact alone_lift_panic

/-- A form before a stage. -/
theorem alone_handleStage {stage : Stage} (hheap : w.heap[e]? = some execution)
    (hreaders : w.readers = []) :
    (server X).alone who .normal (handleStage X form e stage).run w =
      (answerStage X w.users execution.context.storage form execution.context.pending
        stage.kind).map fun answer => (answer.1, w.place e (execution.withPending answer.2)) := by
  have hsame : w.place e (execution.withPending execution.context.pending) = w :=
    World.place_self hheap
  unfold handleStage answerStage
  cases stage.kind with
  | identification password fields => exact alone_handleIdentification hheap hreaders
  | password backends => exact alone_handlePasswordStage hheap hreaders
  | deny | prompt | userLogin | userLogout | userWrite | consent =>
      rw [Option.map_some, hsame]
      rfl

/-- The current entry and its stage are looked up. -/
theorem alone_entering {α : Type} {setting : Setting X} {visit : Visit}
    {f : Nat × FlowEntry → Stage → Handler X α}
    (hheap : w.heap[setting.e]? = some (visit.place setting.execution)) :
    (server X).alone who .normal (do
      let entry ← access (.getEntry setting.e)
      let stage ← ExceptT.lift (lookupStage X setting.e entry.2.stage)
      f entry stage : Handler X α).run w =
        (setting.execution.flow.entries[visit.currentEntryIdx]?).bind fun entry =>
          (setting.plan.stageAt visit.currentEntryIdx).bind fun stage =>
            (server X).alone who .normal (f (visit.currentEntryIdx, entry) stage).run w := by
  unfold Plan.stageAt
  cases hentry : setting.execution.flow.entries[visit.currentEntryIdx]? with
  | none =>
      have hexec : exec X who (.getEntry setting.e) .normal w = none := by
        simp [exec, hheap, FlowExecution.getEntry, Visit.place, hentry]
      rw [run_lift_bind]
      exact alone_op_bind_none hexec
  | some entry =>
      have hexec : exec X who (.getEntry setting.e) .normal w =
          some ((visit.currentEntryIdx, entry), w) := by
        simp [exec, hheap, FlowExecution.getEntry, Visit.place, hentry]
      have hstage := @alone_lookupStage X who _ _ _ entry.stage hheap
      have hplan : setting.plan.flow.entries[visit.currentEntryIdx]? = some entry := hentry
      rw [alone_access hexec, Option.bind_some, hplan, Option.bind_some]
      change _ = Option.map _
        (setting.execution.context.storage.stage.findOptional entry.stage).join at hstage
      change _ = Option.bind
        (setting.execution.context.storage.stage.findOptional entry.stage).join _
      cases hfound : (setting.execution.context.storage.stage.findOptional entry.stage).join with
      | none =>
          rw [hfound] at hstage
          exact alone_lift_none hstage
      | some stage =>
          rw [hfound] at hstage
          exact alone_lift_some hstage

/-- A form that is handed in. -/
theorem alone_handleSubmission {setting : Setting X} {visit : Visit}
    (hheap : w.heap[setting.e]? = some (visit.place setting.execution))
    (husers : w.users = setting.world.users) (hreaders : w.readers = []) :
    (server X).alone who .normal (handleSubmission X form setting.e).run w =
      (setting.submit form visit).map fun answer =>
        (answer.1, w.place setting.e (answer.2.place setting.execution)) := by
  have hasked : exec X who (.isCompleted setting.e) .normal w = some (visit.isCompleted, w) := by
    simp [exec, hheap, Visit.place]
  have hsame := World.place_self hheap
  unfold handleSubmission Setting.submit
  rw [alone_access hasked]
  by_cases hcompleted : visit.isCompleted = true
  · rw [if_pos hcompleted, if_pos hcompleted, Option.map_some, hsame]
    rfl
  · rw [if_neg hcompleted, if_neg hcompleted, alone_entering hheap]
    cases hstage : setting.plan.stageAt visit.currentEntryIdx with
    | none => simp
    | some stage =>
        obtain ⟨entry, hentry, _⟩ := Option.bind_eq_some_iff.mp hstage
        have hentry' : setting.execution.flow.entries[visit.currentEntryIdx]? = some entry := hentry
        rw [hentry', Option.bind_some, Option.bind_some, Option.bind_some,
          alone_handleStage hheap hreaders, husers, Option.map_map]
        rfl

end Submission

section Logins

variable {request : Request X} {session : Session} {setting : Setting X} {visit : Visit}
  {claims : Claims}

/-- The request has a session cookie to show, its own or one that it has been given. -/
def ShowsCookie (who : Nat) (request : Request X) (claims : Claims) (w : World X) : Prop :=
  ∃ token, (w.cookies who).or request.cookie = some token ∧ X.decodeToken token = .ok claims

/-- What the logins of a user leave on the desk of a request. -/
def Signs (claims : Claims) (sid : String) (user : PendingUser) (before desk : Desk X) : Prop :=
  ∃ count token, desk = ⟨before.updates ++ List.replicate (count + 1) (user.uid, sid), some token⟩ ∧
    X.decodeToken token = .ok (loginClaims claims user)

/-- The desk behind a turn: nothing is done at it but logins. -/
structure TurnLeaves (claims : Claims) (sid : String) (control : Except ApiErrorKind LoopControl)
    (visit : Visit) (before desk : Desk X) : Prop where
  proceeds : control = .ok .proceed →
    ∃ user, visit.pending = some user ∧ Signs claims sid user before desk
  kept : control ≠ .ok .proceed → desk = before

theorem Signs.trans {sid : String} {user : PendingUser} {first second third : Desk X}
    (hfirst : Signs claims sid user first second)
    (hsecond : Signs (loginClaims claims user) sid user second third) :
    Signs claims sid user first third := by
  obtain ⟨count, token, rfl, _⟩ := hfirst
  obtain ⟨more, last, rfl, hlast⟩ := hsecond
  refine ⟨count + (more + 1), last, ?_, hlast⟩
  rw [List.append_assoc, ← List.replicate_add, Nat.add_right_comm]

theorem Visit.place_completeCurrent (visit : Visit) (execution : FlowExecution) :
    (visit.place execution).completeCurrent =
      (visit.advance execution.flow.entries.length).place execution := by
  unfold FlowExecution.completeCurrent Visit.advance
  split
  next entry hnext =>
    have hlt := (List.getElem?_eq_some_iff.mp hnext).1
    exact (if_pos hlt) ▸ rfl
  next hnone =>
    have hle := List.getElem?_eq_none_iff.mp hnone
    exact (if_neg (Nat.not_lt.mpr hle)) ▸ rfl

theorem alone_getSessionCookie : (server X).alone who .normal (getSessionCookie X request) w =
    some ((w.cookies who).or request.cookie, w) := by
  unfold getSessionCookie
  rw [alone_op_bind rfl]
  cases w.cookies who with
  | none => rfl
  | some token => rfl

/-- A login of the pending user. -/
theorem alone_userLogin {entry : FlowEntry} (htokens : TokensRoundTrip X)
    (hencodes : EncodesTokens X)
    (hheap : w.heap[setting.e]? = some (visit.place setting.execution)) (hreaders : w.readers = [])
    (hcookie : ShowsCookie who request claims w) :
    ∃ desk, TurnLeaves claims session.sessionId (visit.login entry).1 (visit.login entry).2
        (w.desk who) desk ∧
      (server X).alone who .normal (userLogin X request session setting.e entry).run w =
        some ((visit.login entry).1,
          (w.place setting.e
            ((visit.login entry).2.place setting.execution)).withDesk who desk) := by
  have hread : exec X who (.readContext setting.e) .normal w =
      some ((visit.place setting.execution).context, w) := by
    simp [exec, hheap]
  have hkept : ∀ later, (w.place setting.e later).withDesk who (w.desk who) =
      w.place setting.e later := fun later => World.withDesk_self _ who
  have hpending : (visit.place setting.execution).context.pending = visit.pending := rfl
  unfold userLogin Visit.login
  rw [alone_access hread, hpending]
  cases huser : visit.pending with
  | none =>
      refine ⟨w.desk who, ⟨by simp, fun _ => rfl⟩, ?_⟩
      rw [hkept, World.place_self hheap]
      rfl
  | some user =>
      simp only
      by_cases hauthenticated : user.authenticated = true
      · obtain ⟨presented, hpresented, hdecoded⟩ := hcookie
        have hissuer : claims.iss = "authust" := htokens.issuer hdecoded
        obtain ⟨token, hencoded⟩ := hencodes (loginClaims claims user) hissuer
        have hasked := @alone_getSessionCookie X who w request
        have hsigned : Signs claims session.sessionId user (w.desk who)
            ⟨w.transactions who ++ [(user.uid, session.sessionId)], some token⟩ :=
          ⟨0, token, rfl, htokens.loginClaims hdecoded hencoded⟩
        rw [if_pos hauthenticated, if_pos hauthenticated]
        refine ⟨_, ⟨fun _ => ⟨user, huser, hsigned⟩, by simp⟩, ?_⟩
        rw [hpresented] at hasked
        rw [alone_lift_some hasked]
        simp only [hdecoded, setSessionCookie, hencoded]
        rw [alone_access rfl, alone_run_ok (alone_op rfl), alone_run_ok (alone_op rfl),
          World.place_self hheap]
        rfl
      · rw [if_neg hauthenticated, if_neg hauthenticated]
        refine ⟨w.desk who, ⟨by simp, fun _ => rfl⟩, ?_⟩
        rw [alone_access (exec_updates hheap hreaders), hkept, ← huser]
        rfl

/-- A turn of the completion loop. -/
theorem alone_completeTurn {exhausted : Bool} (htokens : TokensRoundTrip X)
    (hencodes : EncodesTokens X)
    (hheap : w.heap[setting.e]? = some (visit.place setting.execution)) (hreaders : w.readers = [])
    (hcookie : ShowsCookie who request claims w) :
    ∃ desk, (∀ turn, setting.passLogin exhausted visit = some turn →
        TurnLeaves claims session.sessionId turn.1 turn.2 (w.desk who) desk) ∧
      (server X).alone who .normal (completeTurn X request session setting.e exhausted).run w =
        (setting.passLogin exhausted visit).map fun turn =>
          (turn.1, (w.place setting.e (turn.2.place setting.execution)).withDesk who desk) := by
  have hasked : exec X who (.isCompleted setting.e) .normal w = some (visit.isCompleted, w) := by
    simp [exec, hheap, Visit.place]
  have hsame :
      (w.place setting.e (visit.place setting.execution)).withDesk who (w.desk who) = w := by
    rw [World.place_self hheap, World.withDesk_self]
  have hleft : ∀ turn : Except ApiErrorKind LoopControl × Visit,
      some (.ok .leave, visit) = some turn →
        TurnLeaves claims session.sessionId turn.1 turn.2 (w.desk who) (w.desk who) := by
    rintro _ ⟨⟩
    exact ⟨by simp, fun _ => rfl⟩
  unfold completeTurn Setting.passLogin
  rw [alone_access hasked]
  by_cases hcompleted : visit.isCompleted = true
  · rw [if_pos hcompleted, if_pos hcompleted]
    refine ⟨w.desk who, hleft, ?_⟩
    rw [Option.map_some, hsame]
    rfl
  · rw [if_neg hcompleted, if_neg hcompleted, alone_entering hheap]
    cases hentry : setting.execution.flow.entries[visit.currentEntryIdx]? with
    | none => exact ⟨w.desk who, by simp, rfl⟩
    | some entry =>
        cases hstage : setting.plan.stageAt visit.currentEntryIdx with
        | none => exact ⟨w.desk who, by simp, rfl⟩
        | some stage =>
            simp only [Option.bind_some]
            by_cases hinput : stage.kind.requiresInput = true
            · rw [if_pos hinput, if_pos hinput]
              refine ⟨w.desk who, hleft, ?_⟩
              rw [Option.map_some, hsame]
              rfl
            · rw [if_neg hinput, if_neg hinput]
              cases exhausted with
              | true =>
                  refine ⟨w.desk who, hleft, ?_⟩
                  rw [if_pos rfl, if_pos rfl, Option.map_some, hsame]
                  rfl
              | false =>
                  simp only [Bool.false_eq_true, ↓reduceIte]
                  cases hkind : stage.kind with
                  | userLogin =>
                      obtain ⟨desk, hdesk, hlogin⟩ := @alone_userLogin X who w request session
                        setting visit claims entry htokens hencodes hheap hreaders hcookie
                      refine ⟨desk, ?_, hlogin⟩
                      rintro _ ⟨⟩
                      exact hdesk
                  | userLogout | userWrite => exact ⟨w.desk who, by simp, alone_lift_panic⟩
                  | deny | prompt | identification | password | consent =>
                      rw [hkind] at hinput
                      exact absurd rfl hinput

/-- The desk behind the loop: it is signed where there was a login. -/
structure LoopLeaves (claims : Claims) (sid : String) (signed : Except ApiErrorKind Bool)
    (visit : Visit) (before desk : Desk X) : Prop where
  signs : signed = .ok true → ∃ user, visit.pending = some user ∧ Signs claims sid user before desk
  kept : signed = .ok false → desk = before

/-- A login signs the desk, whatever is signed behind it. -/
theorem Signs.leaves {sid : String} {user : PendingUser} {before desk last : Desk X}
    {signed : Except ApiErrorKind Bool} {final : Visit}
    (hsigned : Signs claims sid user before desk) (hpending : final.pending = some user)
    (hleaves : LoopLeaves (loginClaims claims user) sid signed final desk last) :
    LoopLeaves claims sid (signed.map fun _ => true) final before last := by
  obtain ⟨hsigns, hkept⟩ := hleaves
  rcases signed with kind | _ | _
  · exact ⟨(fun hsigned => by cases hsigned), fun hkept => by cases hkept⟩
  · refine ⟨fun _ => ⟨user, hpending, ?_⟩, fun hkept => by cases hkept⟩
    rw [hkept rfl]
    exact hsigned
  · refine ⟨fun _ => ⟨user, hpending, ?_⟩, fun hkept => by cases hkept⟩
    obtain ⟨other, hother, hmore⟩ := hsigns rfl
    rw [hpending] at hother
    cases hother
    exact hsigned.trans hmore

/-- The cookie that a login leaves is shown to the next one. -/
theorem Signs.shows {sid : String} {user : PendingUser} {before desk : Desk X}
    (hsigned : Signs claims sid user before desk) :
    ShowsCookie who request (loginClaims claims user) (w.withDesk who desk) := by
  obtain ⟨_, token, hdesk, hdecoded⟩ := hsigned
  exact ⟨token, by simp [World.withDesk, hdesk], hdecoded⟩

/-- Behind a login the loop runs on at the next entry. -/
theorem alone_completeLoop_proceeds {left : Nat} {desk : Desk X}
    (hheap : w.heap[setting.e]? = some (visit.place setting.execution))
    (hturn : (server X).alone who .normal
      (completeTurn X request session setting.e false).run w = some (.ok .proceed,
        (w.place setting.e (visit.place setting.execution)).withDesk who desk)) :
    (server X).alone who .normal (completeLoop X request session setting.e (left + 1)).run w =
      (server X).alone who .normal (completeLoop X request session setting.e left).run
        ((w.place setting.e ((visit.advance setting.entries).place setting.execution)).withDesk
          who desk) := by
  have hplaced := World.place_heap hheap (visit.place setting.execution)
  have hcompleted := @exec_completes X who
    ((w.place setting.e (visit.place setting.execution)).withDesk who desk) _ _ hplaced
  rw [World.withDesk_place, World.place_place, Visit.place_completeCurrent] at hcompleted
  rw [completeLoop, alone_run_ok hturn]
  exact alone_access hcompleted

/-- The completion loop passes the logins. -/
theorem alone_completeLoop {left : Nat} (htokens : TokensRoundTrip X) (hencodes : EncodesTokens X)
    (hheap : w.heap[setting.e]? = some (visit.place setting.execution)) (hreaders : w.readers = [])
    (hcookie : ShowsCookie who request claims w) :
    ∃ desk, (∀ behind, setting.passLogins left visit = some behind →
        LoopLeaves claims session.sessionId behind.1 behind.2 (w.desk who) desk) ∧
      (server X).alone who .normal (completeLoop X request session setting.e left).run w =
        (setting.passLogins left visit).map fun behind =>
          (behind.1.map fun _ => (),
            (w.place setting.e (behind.2.place setting.execution)).withDesk who desk) := by
  induction left generalizing visit w claims with
  | zero =>
      obtain ⟨desk, hturn, hrun⟩ := @alone_completeTurn X who w request session setting visit claims
        true htokens hencodes hheap hreaders hcookie
      rw [completeLoop, Setting.passLogins]
      cases hpass : setting.passLogin true visit with
      | none =>
          rw [hpass] at hrun
          exact ⟨desk, by simp, alone_run_none hrun⟩
      | some turn =>
          obtain rfl := Setting.passLogin_exhausted hpass
          rw [hpass, Option.map_some] at hrun
          refine ⟨desk, ?_, alone_run_ok hrun⟩
          rintro _ ⟨⟩
          exact ⟨(fun hsigned => by cases hsigned), fun _ => (hturn _ hpass).kept (by simp)⟩
  | succ left ih =>
      obtain ⟨desk, hturn, hrun⟩ := @alone_completeTurn X who w request session setting visit claims
        false htokens hencodes hheap hreaders hcookie
      rw [Setting.passLogins]
      cases hpass : setting.passLogin false visit with
      | none =>
          rw [hpass] at hrun
          exact ⟨desk, by simp, alone_run_none hrun⟩
      | some turn =>
          obtain ⟨result, later⟩ := turn
          rw [hpass, Option.map_some] at hrun
          have hleaves := hturn _ hpass
          rw [Option.bind_some]
          rcases result with kind | _ | _
          · refine ⟨desk, ?_, alone_run_error hrun⟩
            rintro _ ⟨⟩
            exact ⟨by simp, by simp⟩
          · refine ⟨desk, ?_, alone_run_ok hrun⟩
            rintro _ ⟨⟩
            exact ⟨(fun hsigned => by cases hsigned), fun _ => hleaves.kept (by simp)⟩
          · obtain ⟨_, hlater⟩ := Setting.passLogin_keeps hpass
            obtain rfl : later = visit := hlater rfl
            obtain ⟨user, hpending, hsigned⟩ := hleaves.proceeds rfl
            have hnext : ((w.place setting.e ((later.advance setting.entries).place
                setting.execution)).withDesk who desk).heap[setting.e]? = _ :=
              World.place_heap hheap _
            obtain ⟨last, hlast, hloop⟩ := ih hnext hreaders hsigned.shows
            rw [World.desk_withDesk] at hlast
            refine ⟨last, ?_, ?_⟩
            · intro behind hbehind
              obtain ⟨⟨signed, final⟩, hrest, rfl⟩ := Option.map_eq_some_iff.mp hbehind
              refine hsigned.leaves ?_ (hlast _ hrest)
              rw [(Setting.passLogins_keeps hrest).1, Visit.advance_pending, hpending]
            · refine (alone_completeLoop_proceeds hheap hrun).trans (hloop.trans ?_)
              rw [Option.map_map]
              congr 1
              funext behind
              simp only [Function.comp_apply, World.withDesk_place, World.place_place,
                World.withDesk_withDesk]
              rcases behind.1 with kind | signed <;> rfl

end Logins

end Authust
