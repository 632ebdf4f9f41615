import Authust.Server.Meaning
import Authust.Server.Completion

/-! # The visit of a session to a flow

What the handlers are for, told without locks, caches and transactions: a visitor stands before an
entry of a flow as some pending user, is admitted or not, is shown a component, and moves on when
a form is accepted. A visit is paid in a setting that does not change meanwhile.
-/

namespace Authust

/-- Where a visitor stands, and whom the row of the session names. -/
structure Visit extends Progress where
  user : Option Uuid
  deriving DecidableEq

/-- The execution that is visited, in a world of tables and policies. -/
structure Setting (X : Externals) where
  world : World X
  e : ExecId
  execution : FlowExecution

inductive Outcome : Type
  | shown (data : FlowData)
  | failed (kind : ApiErrorKind)
  /-- A form was accepted; the user that was signed in behind it. -/
  | moved (login : Option PendingUser)
  deriving DecidableEq

namespace Outcome

variable {X : Externals}

/-- What the client is answered. -/
def reply (request : Request X) : Outcome → Except ApiErrorKind Response
  | shown data => .ok (.json data)
  | failed kind => .error kind
  | moved _ => .ok (.redirect request.uri)

/-- The visit is over for who is shown the way out. -/
def departs (request : Request X) (visit : Visit) : Outcome → Bool
  | shown _ => visit.isCompleted && request.next.isSome
  | _ => false

end Outcome

/-- What is recorded where a UserLogin stage meets a user whose password was not verified. -/
def loginError (entry : FlowEntry) : ExecutionError where
  stage := some entry.stage
  message := "Authentication of pending user failed"

namespace Visit

/-- The execution at which the visitor stands. -/
def place (visit : Visit) (execution : FlowExecution) : FlowExecution :=
  { execution with
    currentEntryIdx := visit.currentEntryIdx
    isCompleted := visit.isCompleted
    context := { execution.context with pending := visit.pending, error := visit.error } }

/-- One entry further, or done. -/
def advance (entries : Nat) (visit : Visit) : Visit :=
  if visit.currentEntryIdx + 1 < entries then
    { visit with currentEntryIdx := visit.currentEntryIdx + 1 }
  else { visit with isCompleted := true }

/-- The login of the pending user: it is passed by who has been authenticated. -/
def login (entry : FlowEntry) (visit : Visit) : Except ApiErrorKind LoopControl × Visit :=
  match visit.pending with
  | none => (.error (.submissionError .noPendingUser), visit)
  | some user =>
      if user.authenticated then (.ok .proceed, visit)
      else (.ok .leave, { visit with error := some (loginError entry) })

@[simp] theorem advance_pending (entries : Nat) (visit : Visit) :
    (visit.advance entries).pending = visit.pending := by
  unfold advance
  split <;> rfl

@[simp] theorem advance_user (entries : Nat) (visit : Visit) :
    (visit.advance entries).user = visit.user := by
  unfold advance
  split <;> rfl

/-- A login changes at most the error. -/
theorem login_keeps (entry : FlowEntry) (visit : Visit) :
    (visit.login entry).2 = { visit with error := (visit.login entry).2.error } ∧
      ((visit.login entry).1 = .ok .proceed → (visit.login entry).2 = visit) := by
  unfold login
  split
  next => exact ⟨rfl, fun _ => rfl⟩
  next =>
    split
    next => exact ⟨rfl, fun _ => rfl⟩
    next => exact ⟨rfl, by simp⟩

end Visit

section Accounts

variable (X : Externals) (users : List UserRow)

/-- The user that the first successful key finds. -/
def findFirst : List UserKey → DbResult (Option PartialUser)
  | [] => .ok none
  | key :: rest =>
      match queryOpt (users.filter key.matches) with
      | .error kind => .error kind
      | .ok (some row) => .ok (some row.toPartialUser)
      | .ok none => findFirst rest

/-- The keys that a text may be, as far as they are enabled. -/
def identifiers (fields : List UserField) (text : String) : List UserKey :=
  (if fields.contains .name then [.name text] else []) ++
    ((if fields.contains .email then [.email text] else []) ++
      if fields.contains .uuid then (X.parseUuid text).toList.map .uid else [])

/-- What a password is worth against the stored one. -/
def verifyStored (stored password : String) : Except ApiErrorKind Unit :=
  match X.parseHash stored with
  | .error error => .error (.ofPwHash error)
  | .ok hash =>
      match X.verifyPassword hash password with
      | .ok () => .ok ()
      | .error .password => .error (invalidField "password" "Invalid Password")
      | .error error => .error (.ofPwHash error)

/-- The form of a password stage, for the user with the uid. -/
def judgePassword (form : Value) (backends : List PasswordBackend) (uid : Uuid) :
    Except ApiErrorKind Unit :=
  match strFromField "password" form with
  | .error kind => .error kind
  | .ok password =>
      if backends.contains .internal then
        match queryOpt (users.filter (UserKey.uid uid).matches) with
        | .error kind => .error kind
        | .ok none => .error (.submissionError .noPendingUser)
        | .ok (some row) => verifyStored X row.password password
      else .error (invalidField "password" "Invalid Password")

/-- A form before a password stage: its verdict, and who is pending behind it. -/
def answerPassword (form : Value) (backends : List PasswordBackend) (pending : Option PendingUser) :
    Except ApiErrorKind Unit × Option PendingUser :=
  match pending with
  | none => (.error (.submissionError .noPendingUser), none)
  | some user =>
      match judgePassword X users form backends user.uid with
      | .error kind => (.error kind, some user)
      | .ok () => (.ok (), some { user with authenticated := true })

/-- A form before an identification stage; `none` where its password stage is not one. -/
def answerIdentification (storage : FreezedStorage) (form : Value)
    (password : Option (DataRef StageQuery)) (fields : List UserField)
    (pending : Option PendingUser) : Option (Except ApiErrorKind Unit × Option PendingUser) :=
  match strFromField "uid" form with
  | .error kind => some (.error kind, pending)
  | .ok text =>
      match findFirst users (identifiers X fields text) with
      | .error kind => some (.error kind, pending)
      | .ok none => some (.error (invalidField "uid" "Failed to authenticate"), pending)
      | .ok (some user) =>
          match password with
          | none => some (.ok (), some (.ofPartialUser user))
          | some reference =>
              match ((storage.stage.findOptional reference).join).map Stage.kind with
              | some (.password backends) =>
                  some (answerPassword X users form backends (some (.ofPartialUser user)))
              | _ => none

/-- A form before a stage of any kind; the others accept all of them. -/
def answerStage (storage : FreezedStorage) (form : Value) (pending : Option PendingUser) :
    StageKind → Option (Except ApiErrorKind Unit × Option PendingUser)
  | .identification password fields =>
      answerIdentification X users storage form password fields pending
  | .password backends => some (answerPassword X users form backends pending)
  | _ => some (.ok (), pending)

end Accounts

namespace Setting

variable {X : Externals} (setting : Setting X)

def plan : Plan := setting.execution.plan

def entries : Nat := setting.execution.flow.entries.length

/-- The user that a session row names. -/
def findUser (user : Option Uuid) : DbResult (Option PartialUser) :=
  match user with
  | none => .ok none
  | some uid => (setting.world.queryUser (.uid uid)).map fun row => row.map UserRow.toPartialUser

/-- What a check is about. -/
def asking (request : Request X) (host : String) (user : Option PartialUser) (visit : Visit) :
    CheckContext where
  request :=
    { uri := request.uri, host := host, scheme := .http, next := request.next, user := user }
  pendingUser := visit.pending
  execution := setting.e

/-- The verdict on a visitor before an entry; `none` where it cannot be reached. -/
def judge (context : CheckContext) (visit : Visit) : Option (Option String) :=
  if (setting.execution.flow.authentication.output context.request.user).deref then
    firstDenial ((setting.execution.flow.bindings ++
      (visit.place setting.execution).entryBindings).map
        (bindingAnswer setting.execution.context context setting.world))
  else some (some (FlowCheck.authentication setting.execution.flow.authentication).message)

/-- The component of a stage; `none` where there is none yet. -/
def component : StageKind → Option FlowComponent
  | .deny => some (.accessDenied "Access denied")
  | .identification (some reference) fields =>
      ((setting.execution.context.storage.stage.findOptional reference).join).map fun _ =>
        .identification fields ⟨[], false⟩ (some ⟨""⟩)
  | .identification none fields => some (.identification fields ⟨[], false⟩ none)
  | .password _ => some (.password ⟨""⟩)
  | .userLogin | .userLogout | .userWrite =>
      some (.accessDenied "Internal error while constructing component")
  | .prompt _ | .consent _ => none

/-- What a visitor who is not done is shown before a stage. -/
def current (visit : Visit) (kind : StageKind) : Option FlowComponent :=
  match visit.error with
  | some error => some (.error error.message)
  | none => setting.component kind

/-- What a visitor is shown who has been judged. -/
def present (next : Option String) (verdict : Option String) (error : Option SubmissionError)
    (visit : Visit) : Option FlowData :=
  (setting.plan.stageAt visit.currentEntryIdx).bind fun stage =>
    if visit.isCompleted then
      some
        { flow := ⟨setting.execution.flow.title⟩
          error := error
          pendingUser := visit.pending
          component := next.elim (FlowComponent.error "Missing Redirect") FlowComponent.redirect }
    else if verdict.isSome then
      some
        { flow := ⟨setting.execution.flow.title⟩
          error := error
          pendingUser := none
          component := .accessDenied "Flow does not apply to current user" }
    else
      (setting.current visit stage.kind).map fun component =>
          { flow := ⟨setting.execution.flow.title⟩
            error := error
            pendingUser := visit.pending
            component := component }

/-- A form is handed in. -/
def submit (form : Value) (visit : Visit) : Option (Except ApiErrorKind Unit × Visit) :=
  if visit.isCompleted then some (.ok (), visit)
  else
    (setting.plan.stageAt visit.currentEntryIdx).bind fun stage =>
      (answerStage X setting.world.users setting.execution.context.storage form visit.pending
        stage.kind).map fun answer => (answer.1, { visit with pending := answer.2 })

/-- One stage that is passed without a form, if the visitor stands before one. -/
def passLogin (exhausted : Bool) (visit : Visit) :
    Option (Except ApiErrorKind LoopControl × Visit) :=
  if visit.isCompleted then some (.ok .leave, visit)
  else
    (setting.execution.flow.entries[visit.currentEntryIdx]?).bind fun entry =>
      (setting.plan.stageAt visit.currentEntryIdx).bind fun stage =>
        if stage.kind.requiresInput then some (.ok .leave, visit)
        else if exhausted then some (.ok .leave, visit)
        else if stage.kind = .userLogin then some (visit.login entry)
        else none

/-- The logins behind an accepted form, within a limit: whether there was one. -/
def passLogins : Nat → Visit → Option (Except ApiErrorKind Bool × Visit)
  | 0, visit => (setting.passLogin true visit).map fun turn => (turn.1.map fun _ => false, turn.2)
  | left + 1, visit =>
      (setting.passLogin false visit).bind fun turn =>
        match turn with
        | (.ok .proceed, visit) =>
            (passLogins left (visit.advance setting.entries)).map fun behind =>
              (behind.1.map fun _ => true, behind.2)
        | (.ok .leave, visit) => some (.ok false, visit)
        | (.error kind, visit) => some (.error kind, visit)

/-- A form that was accepted is done with. -/
def proceed (visit : Visit) : Option (Outcome × Visit) :=
  (setting.passLogins 41 (visit.advance setting.entries)).map fun behind =>
    match behind with
    | (.error kind, later) => (.failed kind, later)
    | (.ok false, later) => (.moved none, later)
    | (.ok true, later) =>
        (.moved later.pending, { later with user := later.pending.map PendingUser.uid })

/-- A visitor who has been admitted hands a form in. -/
def handIn (next : Option String) (form : Value) (visit : Visit) : Option (Outcome × Visit) :=
  (setting.submit form visit).bind fun answer =>
    match answer with
    | (.error (.submissionError error), later) =>
        (setting.present next none (some error) later).map fun data => (.shown data, later)
    | (.error kind, later) => some (.failed kind, later)
    | (.ok (), later) => setting.proceed later

/-- A visitor posts a form. -/
def post (request : Request X) (host : String) (form : Value) (visit : Visit) :
    Option (Outcome × Visit) :=
  match setting.findUser visit.user with
  | .error kind => some (.failed kind, visit)
  | .ok user =>
      (setting.judge (setting.asking request host user visit) visit).bind fun verdict =>
        match verdict with
        | some _ =>
            (setting.present request.next verdict none visit).map fun data => (.shown data, visit)
        | none => setting.handIn request.next form visit

/-- A visitor looks. -/
def fetch (request : Request X) (host : String) (visit : Visit) : Option (Outcome × Visit) :=
  match setting.findUser visit.user with
  | .error kind => some (.failed kind, visit)
  | .ok user =>
      ((setting.judge (setting.asking request host user visit) visit).bind fun verdict =>
        setting.present request.next verdict none visit).map fun data => (.shown data, visit)

section Steps

variable {setting} {visit : Visit}

/-- A form changes who is pending and nothing else. -/
theorem submit_keeps {form : Value} {answer : Except ApiErrorKind Unit × Visit}
    (hanswer : setting.submit form visit = some answer) :
    answer.2 = { visit with pending := answer.2.pending } := by
  unfold submit at hanswer
  split at hanswer
  next =>
    cases hanswer
    rfl
  next =>
    obtain ⟨stage, _, hanswer⟩ := Option.bind_eq_some_iff.mp hanswer
    obtain ⟨result, _, rfl⟩ := Option.map_eq_some_iff.mp hanswer
    rfl

/-- The verdict does not depend on who is pending by now, but on who was when it was asked for. -/
theorem judge_pending (context : CheckContext) (pending : Option PendingUser) :
    setting.judge context { visit with pending := pending } = setting.judge context visit := rfl

/-- A turn of the logins changes at most the error. -/
theorem passLogin_keeps {exhausted : Bool} {turn : Except ApiErrorKind LoopControl × Visit}
    (hturn : setting.passLogin exhausted visit = some turn) :
    turn.2 = { visit with error := turn.2.error } ∧ (turn.1 = .ok .proceed → turn.2 = visit) := by
  unfold passLogin at hturn
  split at hturn
  next =>
    cases hturn
    exact ⟨rfl, fun _ => rfl⟩
  next =>
    obtain ⟨entry, _, hturn⟩ := Option.bind_eq_some_iff.mp hturn
    obtain ⟨stage, _, hturn⟩ := Option.bind_eq_some_iff.mp hturn
    split at hturn
    next =>
      cases hturn
      exact ⟨rfl, fun _ => rfl⟩
    next =>
      split at hturn
      next =>
        cases hturn
        exact ⟨rfl, fun _ => rfl⟩
      next =>
        split at hturn
        next =>
          cases hturn
          exact visit.login_keeps entry
        next => cases hturn

/-- The last turn passes nothing. -/
theorem passLogin_exhausted {turn : Except ApiErrorKind LoopControl × Visit}
    (hturn : setting.passLogin true visit = some turn) : turn = (.ok .leave, visit) := by
  unfold passLogin at hturn
  split at hturn
  next =>
    cases hturn
    rfl
  next =>
    obtain ⟨entry, _, hturn⟩ := Option.bind_eq_some_iff.mp hturn
    obtain ⟨stage, _, hturn⟩ := Option.bind_eq_some_iff.mp hturn
    simp only [↓reduceIte, ite_self, Option.some.injEq] at hturn
    exact hturn.symm

/-- What every turn keeps, with the advance behind it, the logins keep. -/
theorem passLogins_preserves {holds : Visit → Prop}
    (herror : ∀ visit error, holds visit → holds { visit with error := error })
    (hadvance : ∀ visit, holds visit → holds (visit.advance setting.entries)) {left : Nat}
    {behind : Except ApiErrorKind Bool × Visit}
    (hbehind : setting.passLogins left visit = some behind) (hvisit : holds visit) :
    holds behind.2 := by
  have hturns : ∀ {visit exhausted turn}, setting.passLogin exhausted visit = some turn →
      holds visit → holds turn.2 := by
    intro visit exhausted turn hturn hvisit
    rw [(passLogin_keeps hturn).1]
    exact herror visit _ hvisit
  induction left generalizing visit behind with
  | zero =>
      obtain ⟨turn, hturn, rfl⟩ := Option.map_eq_some_iff.mp hbehind
      exact hturns hturn hvisit
  | succ left ih =>
      obtain ⟨⟨result, later⟩, hturn, hbehind⟩ := Option.bind_eq_some_iff.mp hbehind
      have hlater : holds later := hturns hturn hvisit
      rcases result with kind | control
      · cases hbehind
        exact hlater
      cases control with
      | proceed =>
          obtain ⟨last, hlast, rfl⟩ := Option.map_eq_some_iff.mp hbehind
          have hbehind : holds last.2 := ih hlast (hadvance later hlater)
          exact hbehind
      | leave =>
          cases hbehind
          exact hlater

theorem passLogins_keeps {left : Nat} {behind : Except ApiErrorKind Bool × Visit}
    (hbehind : setting.passLogins left visit = some behind) :
    behind.2.pending = visit.pending ∧ behind.2.user = visit.user := by
  refine @passLogins_preserves X setting visit (fun later =>
    later.pending = visit.pending ∧ later.user = visit.user) ?_ ?_ left behind hbehind ⟨rfl, rfl⟩
  · intro later error hlater
    exact hlater
  · intro later hlater
    rw [Visit.advance_pending, Visit.advance_user]
    exact hlater

end Steps

end Setting

end Authust
