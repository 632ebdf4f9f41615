import Authust.Server.Executor

/-! # The flow handlers

`get_flow` and `post_flow` with everything they call: the component of a stage, the
submission of a stage and the loop that completes server side stages.
-/

namespace Authust

open Coop

variable (X : Externals)

inductive Response : Type
  | json (data : FlowData)
  | redirect (target : String)
  | user (user : Option PartialUser)
  | admitted
  /-- An extractor turned the request away. -/
  | rejection
  deriving DecidableEq

/-- `Stage::as_component`. -/
def asComponent (stage : Stage) (e : ExecId) : Task (sig X) (Option FlowComponent) :=
  match stage.kind with
  | .deny => pure (some (.accessDenied "Access denied"))
  | .prompt _ => panic "not yet implemented"
  | .identification password userFields => do
      match password with
      | some reference => do
          let _ ← lookupStage X e reference
          pure (some (.identification userFields ⟨[], false⟩ (some ⟨""⟩)))
      | none => pure (some (.identification userFields ⟨[], false⟩ none))
  | .userLogin | .userLogout | .userWrite => pure none
  | .password _ => pure (some (.password ⟨""⟩))
  | .consent _ => panic "not yet implemented"

/-- The component of an execution that is not completed; a read guard on the context is
held while the stage is turned into its component. -/
def currentComponent (e : ExecId) (stage : Stage) : Task (sig X) FlowComponent := do
  op (.lockContext e)
  let context ← op (.readContext e)
  match context.error with
  | some error => do
      op (.unlockContext e)
      pure (.error error.message)
  | none => do
      let component ← asComponent X stage e
      op (.unlockContext e)
      match component with
      | some component => pure component
      | none => pure (.accessDenied "Internal error while constructing component")

/-- The component of a completed execution. -/
def completedComponent (e : ExecId) (context : CheckContext) : Task (sig X) FlowComponent :=
  match context.request.next with
  | some target => do
      let key ← op (.getKey e)
      op (.invalidateExecution key)
      pure (.redirect target)
  | none => pure (.error "Missing Redirect")

/-- `FlowExecution::data`. -/
def data (e : ExecId) (error : Option SubmissionError) (context : CheckContext) :
    Task (sig X) FlowData := do
  let flow ← op (.getFlow e)
  let entry ← op (.getEntry e)
  let stage ← lookupStage X e entry.2.stage
  let isCompleted ← op (.isCompleted e)
  let denied ← check X e context
  -- a completed execution is answered whatever its check says
  if denied.isSome && !isCompleted then
    pure
      { flow := ⟨flow.title⟩
        error := error
        pendingUser := none
        component := .accessDenied "Flow does not apply to current user" }
  else do
    let component ←
      if isCompleted then completedComponent X e context else currentComponent X e stage
    let inner ← op (.readContext e)
    pure
      { flow := ⟨flow.title⟩
        error := error
        pendingUser := inner.pending
        component := component }

def missingField (name : String) : ApiErrorKind :=
  .submissionError (.field ⟨name, .missing⟩)

def invalidField (name message : String) : ApiErrorKind :=
  .submissionError (.field ⟨name, .invalid message⟩)

/-- `str_from_field`, after `form.get(name)`. -/
def strFromField (name : String) (form : Value) : Except ApiErrorKind String :=
  match form.get name with
  | none => .error (missingField name)
  | some (.string value) => .ok value
  | some other =>
      .error (.submissionError (.field ⟨name, .invalidType .string (.ofValue other)⟩))

/-- `handle_password_stage`. -/
def handlePasswordStage (form : Value) (e : ExecId) (backends : List PasswordBackend) :
    Handler X Unit := do
  let context ← access (.readContext e)
  match context.pending with
  | none => throw (.submissionError .noPendingUser)
  | some pending =>
      match strFromField "password" form with
      | .error kind => throw kind
      | .ok password =>
          if backends.contains .internal then do
            await (op (.prepareCached "select password from users where uid = $1"))
            match ← await (op (.queryPassword pending.uid)) with
            | none => throw (.submissionError .noPendingUser)
            | some stored =>
                match X.parseHash stored with
                | .error error => throw (.ofPwHash error)
                | .ok hash => do
                    match ← access (.verifyPassword hash password) with
                    | .ok () => access (.useMutContext e .authenticate)
                    -- a wrong password falls through to the error of a disabled backend
                    | .error .password => throw (invalidField "password" "Invalid Password")
                    | .error error => throw (.ofPwHash error)
          else throw (invalidField "password" "Invalid Password")

/-- The pending user that an Identification submission sets. -/
def PendingUser.ofPartialUser (user : PartialUser) : PendingUser where
  uid := user.uid
  name := user.name
  avatarUrl := none
  authenticated := false
  isAdmin := user.isAdmin

/-- The branch of `handle_stage` for an Identification stage. -/
def handleIdentification (form : Value) (e : ExecId) (password : Option (DataRef StageQuery))
    (userFields : List UserField) : Handler X Unit :=
  match strFromField "uid" form with
  | .error kind => throw kind
  | .ok uid => do
      match ← lookupUser X uid (userFields.contains .name) (userFields.contains .email)
          (userFields.contains .uuid) with
      | none => throw (invalidField "uid" "Failed to authenticate")
      | some user => do
          -- the user is pending from here on, whatever becomes of the password
          access (.useMutContext e (.setPending (.ofPartialUser user)))
          match password with
          | none => pure ()
          | some reference => do
              let stage ← ExceptT.lift (lookupStage X e reference)
              match stage.kind with
              | .password backends => handlePasswordStage X form e backends
              | _ => ExceptT.lift (panic "Is not password stage")

def handleStage (form : Value) (e : ExecId) (stage : Stage) : Handler X Unit :=
  match stage.kind with
  | .deny => pure ()
  | .prompt _ => pure ()
  | .identification password userFields => handleIdentification X form e password userFields
  | .userLogin => pure ()
  | .userLogout => pure ()
  | .userWrite => pure ()
  | .password backends => handlePasswordStage X form e backends
  | .consent _ => pure ()

def handleSubmission (form : Value) (e : ExecId) : Handler X Unit := do
  if ← access (.isCompleted e) then pure ()
  else do
    let entry ← access (.getEntry e)
    let stage ← ExceptT.lift (lookupStage X e entry.2.stage)
    handleStage X form e stage

/-- How one turn of the loop in `complete` ends short of `complete_current`. -/
inductive LoopControl : Type
  | leave
  | proceed
  deriving DecidableEq

def loginClaims (claims : Claims) (user : PendingUser) : Claims :=
  { claims with sub := some user.uid, authenticated := true, isAdmin := user.isAdmin }

/-- The `UserLogin` branch of the loop. -/
def userLogin (request : Request X) (session : Session) (e : ExecId) (entry : FlowEntry) :
    Handler X LoopControl := do
  let context ← access (.readContext e)
  match context.pending with
  | none => throw (.submissionError .noPendingUser)
  | some user =>
      if user.authenticated then do
        match ← ExceptT.lift (getSessionCookie X request) with
        | none => throw .invalidSessionCookie
        | some token =>
            match X.decodeToken token with
            | .error kind => throw kind
            | .ok claims => do
                setSessionCookie X (loginClaims claims user)
                await (op (.prepareCached "update sessions set user_id = $1 where uid = $2"))
                await (op (.updateSession user.uid session.sessionId))
                pure .proceed
      else do
        access (.useMutContext e (.setError
          { stage := some entry.stage, message := "Authentication of pending user failed" }))
        pure .leave

/-- One turn of the loop in `complete`; `exhausted` says that `iterations > 40`. -/
def completeTurn (request : Request X) (session : Session) (e : ExecId) (exhausted : Bool) :
    Handler X LoopControl := do
  if ← access (.isCompleted e) then pure .leave
  else do
    let entry ← access (.getEntry e)
    let stage ← ExceptT.lift (lookupStage X e entry.2.stage)
    if stage.kind.requiresInput then pure .leave
    else if exhausted then pure .leave
    else
      match stage.kind with
      | .userLogin => userLogin X request session e entry.2
      -- `todo!()`, and `unreachable!` for the stages that require input
      | .userLogout => ExceptT.lift (panic "not yet implemented")
      | .userWrite => ExceptT.lift (panic "not yet implemented")
      | _ => ExceptT.lift (panic "Encountered client side stage")

/-- The loop of `complete` with `41 - iterations` as its argument: an exhausted turn never
proceeds. -/
def completeLoop (request : Request X) (session : Session) (e : ExecId) : Nat → Handler X Unit
  | 0 => do
      let _ ← completeTurn X request session e true
      pure ()
  | left + 1 => do
      match ← completeTurn X request session e false with
      | .leave => pure ()
      | .proceed => do
          access (.completeCurrent e)
          completeLoop request session e left

def complete (request : Request X) (session : Session) (e : ExecId) : Handler X Unit :=
  completeLoop X request session e 41

/-- `post_flow` from `handle_submission` on. -/
def submit (request : Request X) (form : Value) (session : Session) (e : ExecId)
    (context : CheckContext) : Handler X Response := do
  match ← ExceptT.lift (handleSubmission X form e).run with
  | .error (.submissionError error) => do
      -- the connection is dropped without a commit
      let data ← ExceptT.lift (data X e (some error) context)
      pure (.json data)
  | .error kind => throw kind
  | .ok () => do
      access (.completeCurrent e)
      complete X request session e
      await (op .commit)
      pure (.redirect request.uri)

/-- What both handlers need of the request once its execution is known. -/
def checkContext (request : Request X) (host : String) (session : Session) (e : ExecId) :
    Handler X CheckContext := do
  let user ← session.getUser X
  ExceptT.lift (getCheckContext X e
    { uri := request.uri, host := host, scheme := .http, next := request.next, user := user })

/-- `post_flow` up to the check: the connection, its transaction and the check context. -/
def openPost (request : Request X) (host : String) (session : Session) (e : ExecId) :
    Handler X CheckContext := do
  await (op .connection)
  await (op .transaction)
  checkContext X request host session e

/-- `post_flow` for the execution that was found. -/
def postExecution (request : Request X) (host : String) (form : Value) (session : Session)
    (e : ExecId) : Handler X Response := do
  let context ← openPost X request host session e
  match ← ExceptT.lift (check X e context) with
  | some _ => do
      let data ← ExceptT.lift (data X e none context)
      pure (.json data)
  | none => submit X request form session e context

def postFlow (extension : AuthExtension) (request : Request X) : Handler X Response := do
  let session ← Session.fromRequestParts X extension
  match request.host, request.form with
  | some host, some form =>
      match getKey session (.slug request.flowSlug) with
      | none => throw .notFound
      | some key => do
          match ← ExceptT.lift (getExecution X key false) with
          | none => throw .notFound
          | some e => postExecution X request host form session e
  | _, _ => pure .rejection

/-- `get_flow` for the execution that was found. -/
def getExecutionData (request : Request X) (host : String) (session : Session) (e : ExecId) :
    Handler X Response := do
  await (op .connection)
  let context ← checkContext X request host session e
  let data ← ExceptT.lift (data X e none context)
  pure (.json data)

def getFlow (extension : AuthExtension) (request : Request X) : Handler X Response := do
  let session ← Session.fromRequestParts X extension
  match request.host with
  | none => pure .rejection
  | some host =>
      match getKey session (.slug request.flowSlug) with
      | none => throw (.miscInternal "Key has slug instead of id")
      | some key => do
          match ← ExceptT.lift (getExecution X key true) with
          | none => throw .notFound
          | some e => getExecutionData X request host session e

/-- `user_info`. -/
def userInfo (extension : AuthExtension) : Handler X Response := do
  let session ← Session.fromRequestParts X extension
  await (op .connection)
  let user ← session.getUser X
  pure (.user user)

/-- What a client may ask of the server. Of a route for administrators only its extractor
is followed. -/
inductive Call : Type
  | getFlow (request : Request X)
  | postFlow (request : Request X)
  | userInfo (cookie : Option X.Token)
  | admin (cookie : Option X.Token)

variable {X}

/-- The `session` cookie of a call. -/
def Call.cookie : Call X → Option X.Token
  | getFlow request => request.cookie
  | postFlow request => request.cookie
  | userInfo cookie => cookie
  | admin cookie => cookie

variable (X)

/-- The handler a call is routed to. -/
def Call.route (extension : AuthExtension) : Call X → Handler X Response
  | getFlow request => Authust.getFlow X extension request
  | postFlow request => Authust.postFlow X extension request
  | userInfo _ => Authust.userInfo X extension
  | admin _ => do
      AdminSession.fromRequestParts X extension
      pure .admitted

/-- `AuthService::call` around the routed handler. -/
def handle (call : Call X) : Task (sig X) (Except ApiErrorKind Response) :=
  match handleAuth X call.cookie with
  | .error kind => pure (.error kind)
  | .ok extension => (call.route X extension).run

end Authust
