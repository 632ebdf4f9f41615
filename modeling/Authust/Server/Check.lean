import Authust.Server.Session

/-! # Checks of flows and bindings

`FlowExecution::check` evaluates the authentication requirement, the bindings of the flow
and the bindings of the current entry. No branch of it builds the `Err(())` of its type,
so a check answers `None` or the message of the first denial.
-/

namespace Authust

open Coop

variable (X : Externals)

structure CheckContextRequest where
  uri : String
  host : String
  scheme : Scheme
  /-- `query.next` -/
  next : Option String
  user : Option PartialUser

structure CheckContext where
  request : CheckContextRequest
  pendingUser : Option PendingUser
  execution : ExecId

inductive FlowCheckOutput : Type
  | passed
  | failed
  | failedHard
  | neutral
  deriving DecidableEq

namespace FlowCheckOutput

def negate : FlowCheckOutput → FlowCheckOutput
  | passed => failed
  | failed => passed
  | failedHard => failedHard
  | neutral => neutral

def deref : FlowCheckOutput → Bool
  | passed | neutral => true
  | failed | failedHard => false

def ofBool (value : Bool) : FlowCheckOutput :=
  if value then passed else failed

end FlowCheckOutput

inductive FlowCheck : Type
  | authentication (requirement : AuthenticationRequirement)
  | isUser (uid : Uuid)
  | policy (policy : DataRef PolicyQuery)
  deriving DecidableEq

def FlowCheck.message : FlowCheck → String
  | authentication .superuser => "You must be a superuser to access this flow"
  | authentication .required => "You must be logged in to access this flow"
  | authentication .none => "You must not be logged in to access this flow"
  | authentication .ignored => "This is an error! "
  | isUser _ => "Access denied"
  | policy _ => "Access denied"

/-- A panic of the handler. -/
def panic {X : Externals} {α : Type} (message : String) : Task (sig X) α :=
  op (.panic message) >>= Empty.elim

/-- `FlowExecution::lookup_stage`, with its read guard on the context. -/
def lookupStage (e : ExecId) (reference : DataRef StageQuery) : Task (sig X) Stage := do
  op (.lockContext e)
  let stage ← op (.frozenStage e reference)
  op (.unlockContext e)
  match stage with
  | some stage => pure stage
  | none => panic "Missing stage in storage"

/-- `FlowExecution::lookup_policy`. -/
def lookupPolicy (e : ExecId) (reference : DataRef PolicyQuery) : Task (sig X) Policy := do
  op (.lockContext e)
  let policy ← op (.frozenPolicy e reference)
  op (.unlockContext e)
  match policy with
  | some policy => pure policy
  | none => panic "Missing policy in storage"

def createScope (context : CheckContext) : Scope where
  scheme := context.request.scheme
  host := context.request.host
  uri := context.request.uri
  user := context.request.user
  pendingUser := context.pendingUser

/-- The closure of `get_ast` that fills the cache. -/
def compilePolicy (policy : Policy) : Option (Option X.Ast) :=
  match policy.kind with
  | .expression source => some (X.compile source)
  | _ => none

/-- `InternalPolicyService::get_ast`. -/
def getAst (reference : DataRef PolicyQuery) : Task (sig X) (Option X.Ast) := do
  match ← op (.livePolicy reference) with
  | none => pure none
  | some policy => do
      let ast ← op (.optionallyGetWith policy.uid (compilePolicy X policy))
      pure ast.join

def checkPolicy (context : CheckContext) (policy : Policy) : Task (sig X) FlowCheckOutput :=
  match policy.kind with
  | .passwordExpiry maxAge => do
      let inner ← op (.readContext context.execution)
      match context.request.user with
      | some user =>
          pure (.ofBool (inner.startTime - user.passwordChangeDate < secondsToDuration maxAge))
      | none => pure .neutral
  | .passwordStrength => pure .neutral
  | .expression _ => do
      -- the expression of the live policy, not of the frozen one
      match ← getAst X (PolicyQuery.uid policy.uid) with
      | some ast =>
          match X.eval ast (createScope context) with
          | .ok passed => pure (.ofBool passed)
          | .error _ => pure .failedHard
      | none => pure .neutral

/-- The authentication requirement, decided without any lookup. -/
def AuthenticationRequirement.output (requirement : AuthenticationRequirement)
    (user : Option PartialUser) : FlowCheckOutput :=
  match requirement with
  | superuser =>
      match user with
      | some user => .ofBool user.isAdmin
      | .none => .failed
  | required => .ofBool user.isSome
  | none => .ofBool user.isNone
  | ignored => .neutral

/-- `FlowCheck::check`. -/
def FlowCheck.check (context : CheckContext) : FlowCheck → Task (sig X) FlowCheckOutput
  | authentication requirement => pure (requirement.output context.request.user)
  | isUser uid => pure (.ofBool (context.request.user.map PartialUser.uid = some uid))
  | policy reference => do
      let policy ← lookupPolicy X context.execution reference
      checkPolicy X context policy

/-- `From<FlowBindingKind>`; groups are not implemented. -/
def FlowCheck.ofBindingKind : FlowBindingKind → Task (sig X) FlowCheck
  | .group _ => panic "not yet implemented"
  | .user uid => pure (.isUser uid)
  | .policy reference => pure (.policy reference)

def checkBinding (binding : FlowBinding) (context : CheckContext) :
    Task (sig X) (Option String) :=
  if binding.enabled then do
    let check ← FlowCheck.ofBindingKind X binding.kind
    let result ← check.check X context
    let result := if binding.negate then result.negate else result
    if result.deref then pure none else pure (some check.message)
  else pure none

/-- The loops of `check`: the first denial ends them. -/
def checkBindings (context : CheckContext) : List FlowBinding → Task (sig X) (Option String)
  | [] => pure none
  | binding :: rest => do
      match ← checkBinding X binding context with
      | some message => pure (some message)
      | none => checkBindings context rest

/-- `FlowExecution::check`. -/
def check (e : ExecId) (context : CheckContext) : Task (sig X) (Option String) := do
  let flow ← op (.getFlow e)
  let authCheck := FlowCheck.authentication flow.authentication
  let output ← authCheck.check X context
  if output.deref then do
    match ← checkBindings X context flow.bindings with
    | some message => pure (some message)
    | none => do
        let entry ← op (.getEntry e)
        checkBindings X context entry.2.bindings
  else pure (some authCheck.message)

/-- `FlowExecution::get_check_context`. -/
def getCheckContext (e : ExecId) (request : CheckContextRequest) : Task (sig X) CheckContext := do
  let context ← op (.readContext e)
  pure { request := request, pendingUser := context.pending, execution := e }

end Authust
