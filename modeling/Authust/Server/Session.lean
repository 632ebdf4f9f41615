import Authust.Coop.Fallible
import Authust.Server.Machine

/-! # Sessions, tokens and users

The session extractor with its cookie, the admin extractor, and the user service.
-/

namespace Authust

open Coop

/-- A handler's `Result` future: awaits are operations, `?` is the exception monad. -/
abbrev Handler (X : Externals) (α : Type) := ExceptT ApiErrorKind (Task (sig X)) α

variable (X : Externals)

abbrev op {X : Externals} (operation : Op X) : Task (sig X) operation.Res :=
  @Task.perform (sig X) operation

/-- An operation that cannot fail, inside a handler. -/
abbrev access {X : Externals} (operation : Op X) : Handler X operation.Res :=
  ExceptT.lift (op operation)

/-- `call.await?` -/
abbrev await {X : Externals} {α : Type} (call : Task (sig X) (DbResult α)) : Handler X α :=
  ExceptT.mk call

/-- A request to the executor, with what its extractors read. -/
structure Request where
  /-- The `session` cookie. -/
  cookie : Option X.Token
  flowSlug : String
  uri : String
  /-- `none` where the `Host` extractor rejects the request. -/
  host : Option String
  /-- `ExecutorQuery::next`. -/
  next : Option String
  /-- `none` where the `Form` extractor rejects the request. -/
  form : Option Value

structure Session where
  sessionId : String
  userId : Option Uuid
  isAdmin : Bool
  deriving DecidableEq

inductive AuthExtension : Type
  | valid (claims : Claims)
  | missingCookie
  deriving DecidableEq

/-- The middleware that decodes the session cookie before the handler runs. -/
def handleAuth (cookie : Option X.Token) : Except ApiErrorKind AuthExtension :=
  match cookie with
  | none => .ok .missingCookie
  | some token => (X.decodeToken token).map .valid

def getAuthExtensionData : AuthExtension → Except ApiErrorKind Claims
  | .valid claims => .ok claims
  | .missingCookie => .error .sessionCookieMissing

/-- `Cookies::get(SESSION_COOKIE_NAME)`: an added cookie hides the request's own. -/
def getSessionCookie (request : Request X) : Task (sig X) (Option X.Token) := do
  match ← op .addedCookie with
  | some token => pure (some token)
  | none => pure request.cookie

def setSessionCookie (claims : Claims) : Handler X Unit :=
  match X.encodeToken claims with
  | .error kind => throw kind
  | .ok token => access (.addCookie token)

def makeNewSession : Handler X Session := do
  let sessionKey ← access .sampleSessionKey
  await (op (.prepareCached "insert into sessions(uid) values($1)"))
  await (op (.insertSession sessionKey))
  setSessionCookie X
    { sid := sessionKey, iss := "authust", sub := none, authenticated := false, isAdmin := false }
  pure { sessionId := sessionKey, userId := none, isAdmin := false }

/-- `Session::from_request_parts`. -/
def Session.fromRequestParts (extension : AuthExtension) : Handler X Session := do
  await (op .connection)
  match getAuthExtensionData extension with
  | .error .sessionCookieMissing => makeNewSession X
  | .error kind => throw kind
  | .ok claims => do
      await (op (.prepareCached "select user_id from sessions where uid = $1"))
      match ← await (op (.querySession claims.sid)) with
      | some userId =>
          pure { sessionId := claims.sid, userId := userId, isAdmin := claims.isAdmin }
      -- a token whose session has no row
      | none => makeNewSession X

/-- `AdminSession::from_request_parts`. -/
def AdminSession.fromRequestParts (extension : AuthExtension) : Handler X Unit := do
  let session ← Session.fromRequestParts X extension
  -- the flag is the one of the token, the user that of the row
  if session.userId.isSome && session.isAdmin then pure ()
  else throw .forbidden

def lookupUserBy (sql : String) (key : UserKey) : Handler X (Option PartialUser) := do
  await (op (.prepareCached sql))
  let row ← await (op (.queryUser key))
  pure (row.map UserRow.toPartialUser)

/-- `UserService::lookup_user_uid`. -/
def lookupUserUid (uid : Uuid) : Handler X (Option PartialUser) :=
  lookupUserBy X
    "select uid,name,administrator,password_change_date from users where uid = $1" (.uid uid)

/-- The last attempt of `lookup_user`, by the text read as a uuid. -/
def lookupUserByUuid (text : String) (useUuid : Bool) : Handler X (Option PartialUser) :=
  if useUuid then
    match X.parseUuid text with
    | some uid => lookupUserUid X uid
    | none => pure none
  else pure none

def lookupUserByEmail (text : String) (useEmail useUuid : Bool) :
    Handler X (Option PartialUser) := do
  if useEmail then
    match ← lookupUserBy X
        "select uid,name,administrator,password_change_date from users where email = $1"
        (.email text) with
    | some user => pure (some user)
    | none => lookupUserByUuid X text useUuid
  else lookupUserByUuid X text useUuid

/-- `UserService::lookup_user`: by name, then by email, then by uuid, as far as enabled. -/
def lookupUser (text : String) (useName useEmail useUuid : Bool) :
    Handler X (Option PartialUser) := do
  if useName then
    match ← lookupUserBy X
        "select uid,name,administrator,password_change_date from users where name = $1"
        (.name text) with
    | some user => pure (some user)
    | none => lookupUserByEmail X text useEmail useUuid
  else lookupUserByEmail X text useEmail useUuid

/-- `Session::get_user`. -/
def Session.getUser (session : Session) : Handler X (Option PartialUser) :=
  match session.userId with
  | some uid => lookupUserUid X uid
  | none => pure none

end Authust
