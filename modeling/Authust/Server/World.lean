import Mathlib.Logic.Function.Basic
import Authust.Storage.Frozen
import Authust.Coop.Serial
import Authust.Coop.Interleave

/-! # The state the handlers share

The database tables, the storage manager, the policy and execution caches and the memory
of every flow execution. Third-party code (argon2, JSON web tokens, Rhai, uuid parsing,
the queries that datacache derives) is a parameter.
-/

namespace Authust

structure Claims where
  sid : String
  iss : String
  sub : Option Uuid
  authenticated : Bool
  isAdmin : Bool
  deriving DecidableEq

inductive ApiErrorKind : Type
  | axum
  | invalidLoginData
  | sessionCookieMissing
  | invalidSessionCookie
  | notFound
  | miscInternal (message : String)
  | forbidden
  | conflict
  | missingMiddleware (name : String)
  | pwHash
  | poolError
  | postgresError
  | submissionError (error : SubmissionError)
  | jsonWebToken
  deriving DecidableEq

/-- `argon2::password_hash::Error`. -/
inductive PwHashError : Type
  | password
  | other
  deriving DecidableEq

def ApiErrorKind.ofPwHash : PwHashError → ApiErrorKind
  | .password => invalidLoginData
  | .other => pwHash

inductive Scheme : Type
  | http
  | https
  deriving DecidableEq

/-- The constants `request` and `context` that `create_scope` pushes. -/
structure Scope where
  scheme : Scheme
  host : String
  uri : String
  user : Option PartialUser
  pendingUser : Option PendingUser

structure Externals where
  Ast : Type
  /-- The text of a JSON web token. -/
  Token : Type
  /-- `Uuid::parse_str` -/
  parseUuid : String → Option Uuid
  /-- `PasswordHash::parse` -/
  parseHash : String → Except PwHashError String
  /-- `PasswordHash::verify_password` -/
  verifyPassword : String → String → Except PwHashError Unit
  /-- `jsonwebtoken::encode` and `decode` with their errors converted -/
  encodeToken : Claims → Except ApiErrorKind Token
  decodeToken : Token → Except ApiErrorKind Claims
  /-- `policy_engine::compile` in the dummy scope -/
  compile : String → Option Ast
  /-- `policy_engine::execute`; the error carries no more than that there was one -/
  eval : Ast → Scope → Except Unit Bool
  /-- `create_queries` of the data kinds -/
  flowQueries : Flow → List FlowQuery
  stageQueries : Stage → List StageQuery
  policyQueries : Policy → List PolicyQuery
  promptQueries : Prompt → List PromptQuery
  /-- How deep `reverse_lookup` may nest before the stack overflows. -/
  recursionLimit : Nat

/-- Externals that can be run: a password is its own hash, a token is its claims, accepted from the
server's own issuer only, and an expression is a constant. -/
def Externals.plain : Externals where
  Ast := Bool
  Token := Claims
  parseUuid := fun _ => none
  parseHash := .ok
  verifyPassword := fun hash password => if hash = password then .ok () else .error .password
  encodeToken := .ok
  decodeToken := fun claims =>
    if claims.iss = "authust" then .ok claims else .error .invalidSessionCookie
  compile := fun source =>
    if source = "true" then some true else if source = "false" then some false else none
  eval := fun ast _ => .ok ast
  flowQueries := fun flow => [.uid flow.uid, .slug flow.slug]
  stageQueries := fun stage => [.uid stage.uid, .slug stage.slug]
  policyQueries := fun policy => [.uid policy.uid, .slug policy.slug]
  promptQueries := fun prompt => [.uid prompt.uid]
  recursionLimit := 4

/-- A row of `users`, without the columns no statement of the executor reads. -/
structure UserRow where
  uid : Uuid
  name : String
  email : Option String
  password : String
  passwordChangeDate : OffsetDateTime
  administrator : Bool
  deriving DecidableEq

def UserRow.toPartialUser (row : UserRow) : PartialUser where
  uid := row.uid
  name := row.name
  avatarUrl := none
  isAdmin := row.administrator
  passwordChangeDate := row.passwordChangeDate

structure FlowKey where
  session : String
  flow : DataRef FlowQuery
  deriving DecidableEq

structure ExecutionError where
  stage : Option (DataRef StageQuery)
  message : String
  deriving DecidableEq

structure ExecutionContext where
  sessionId : String
  startTime : OffsetDateTime
  pending : Option PendingUser
  storage : FreezedStorage
  error : Option ExecutionError

/-- `FlowExecutionInternal`. -/
structure FlowExecution where
  flow : Flow
  key : FlowKey
  context : ExecutionContext
  currentEntryIdx : Nat
  isCompleted : Bool

/-- The closures that the handlers pass to `use_mut_context`. -/
inductive ContextUpdate : Type
  | setPending (user : PendingUser)
  | authenticate
  | setError (error : ExecutionError)
  deriving DecidableEq

def ContextUpdate.apply : ContextUpdate → ExecutionContext → ExecutionContext
  | setPending user, context => { context with pending := some user }
  | authenticate, context =>
      { context with pending :=
        context.pending.map fun user => { user with authenticated := true } }
  | setError error, context => { context with error := some error }

abbrev ExecId := Nat

/-- The `where` clauses of the three statements that look a user up. -/
inductive UserKey : Type
  | uid (uid : Uuid)
  | name (text : String)
  | email (text : String)
  deriving DecidableEq

def UserKey.matches : UserKey → UserRow → Bool
  | .uid value, row => row.uid = value
  | .name text, row => row.name = text
  | .email text, row => row.email = some text

structure World (X : Externals) where
  users : List UserRow
  sessions : String → Option (Option Uuid)
  flows : FlowQuery → Option Flow
  stages : StageQuery → Option Stage
  policies : PolicyQuery → Option Policy
  prompts : PromptQuery → Option Prompt
  asts : Int → Option (Option X.Ast)
  now : OffsetDateTime
  heap : List FlowExecution
  executions : FlowKey → Option ExecId
  /-- Read guards on execution contexts, with the request that holds each. -/
  readers : List (Nat × ExecId)
  /-- Session updates of the open transaction of each request. -/
  transactions : Nat → List (Uuid × String)
  /-- The session cookie each request has added to its jar. -/
  cookies : Nat → Option X.Token

/-- A server that has just been started over the given tables. -/
def World.boot (X : Externals) (users : List UserRow) (sessions : List (String × Option Uuid))
    (flows : List Flow) (stages : List Stage) (policies : List Policy) : World X where
  users := users
  sessions := fun sid => sessions.lookup sid
  flows := fun query => flows.find? query.finds
  stages := fun query => stages.find? query.finds
  policies := fun query => policies.find? query.finds
  prompts := fun _ => none
  asts := fun _ => none
  now := 0
  heap := []
  executions := fun _ => none
  readers := []
  transactions := fun _ => []
  cookies := fun _ => none

/-- No request has been served yet. -/
structure World.Initial {X : Externals} (w : World X) : Prop where
  heap : w.heap = []
  executions : w.executions = fun _ => none
  readers : w.readers = []
  transactions : w.transactions = fun _ => []
  cookies : w.cookies = fun _ => none

theorem World.boot_initial (X : Externals) (users : List UserRow)
    (sessions : List (String × Option Uuid)) (flows : List Flow) (stages : List Stage)
    (policies : List Policy) : (World.boot X users sessions flows stages policies).Initial where
  heap := rfl
  executions := rfl
  readers := rfl
  transactions := rfl
  cookies := rfl

end Authust
