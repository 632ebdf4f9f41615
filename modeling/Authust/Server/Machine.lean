import Authust.Server.World

/-! # The operations of the handlers

Every effect of a handler is one operation: a read or write of shared memory, which runs
at once, or an awaited call to the database, the frozen or the live storage, at which the
handler suspends. A database call may fail by the environment's choice.
-/

namespace Authust

open Coop

inductive Op (X : Externals) : Type
  | addedCookie
  | addCookie (token : X.Token)
  | sampleSessionKey
  | now
  | cachedExecution (key : FlowKey)
  | insertExecution (execution : FlowExecution)
  | invalidateExecution (key : FlowKey)
  | getFlow (e : ExecId)
  | getKey (e : ExecId)
  | readContext (e : ExecId)
  | useMutContext (e : ExecId) (update : ContextUpdate)
  | getEntry (e : ExecId)
  | completeCurrent (e : ExecId)
  | isCompleted (e : ExecId)
  | lockContext (e : ExecId)
  | unlockContext (e : ExecId)
  | optionallyGetWith (uid : Int) (init : Option (Option X.Ast))
  | verifyPassword (hash password : String)
  | panic (message : String)
  | connection
  | transaction
  | commit
  | prepareCached (sql : String)
  | queryUser (key : UserKey)
  | queryPassword (uid : Uuid)
  | querySession (sid : String)
  | insertSession (sid : String)
  | updateSession (uid : Uuid) (sid : String)
  | frozenStage (e : ExecId) (reference : DataRef StageQuery)
  | frozenPolicy (e : ExecId) (reference : DataRef PolicyQuery)
  | liveFlow (reference : DataRef FlowQuery)
  | liveStage (reference : DataRef StageQuery)
  | livePolicy (reference : DataRef PolicyQuery)
  | livePrompt (reference : DataRef PromptQuery)

/-- An awaited database call. -/
abbrev DbResult (α : Type) := Except ApiErrorKind α

@[reducible] def Op.Res {X : Externals} : Op X → Type
  | addedCookie => Option X.Token
  | addCookie _ => Unit
  | sampleSessionKey => String
  | now => OffsetDateTime
  | cachedExecution _ => Option ExecId
  | insertExecution _ => ExecId
  | invalidateExecution _ => Unit
  | getFlow _ => Flow
  | getKey _ => FlowKey
  | readContext _ => ExecutionContext
  | useMutContext _ _ => Unit
  -- `&FlowEntry`: which entry is referred to, and its content
  | getEntry _ => Nat × FlowEntry
  | completeCurrent _ => Unit
  | isCompleted _ => Bool
  | lockContext _ => Unit
  | unlockContext _ => Unit
  | optionallyGetWith _ _ => Option (Option X.Ast)
  | verifyPassword _ _ => Except PwHashError Unit
  | panic _ => Empty
  | connection => DbResult Unit
  | transaction => DbResult Unit
  | commit => DbResult Unit
  | prepareCached _ => DbResult Unit
  | queryUser _ => DbResult (Option UserRow)
  | queryPassword _ => DbResult (Option String)
  | querySession _ => DbResult (Option (Option Uuid))
  | insertSession _ => DbResult Unit
  | updateSession _ _ => DbResult Unit
  | frozenStage _ _ => Option Stage
  | frozenPolicy _ _ => Option Policy
  | liveFlow _ => Option Flow
  | liveStage _ => Option Stage
  | livePolicy _ => Option Policy
  | livePrompt _ => Option Prompt

abbrev sig (X : Externals) : Signature where
  Op := Op X
  Res := Op.Res

def Op.suspends {X : Externals} : Op X → Bool
  | connection | transaction | commit | prepareCached _ | queryUser _ | queryPassword _
  | querySession _ | insertSession _ | updateSession _ _ | frozenStage _ _ | frozenPolicy _ _
  | liveFlow _ | liveStage _ | livePolicy _ | livePrompt _ => true
  | _ => false

/-- The environment's part in an operation. -/
inductive Choice : Type
  | normal
  /-- The pool, the statement or the storage fails; `conflict` for a violated unique index. -/
  | fail (conflict : Bool)
  | key (text : String)

/-- `From<tokio_postgres::Error>`. -/
def postgresError (conflict : Bool) : ApiErrorKind :=
  if conflict then .conflict else .postgresError

def Choice.db {α : Type} (choice : Choice) (value : DbResult α) : DbResult α :=
  match choice with
  | fail conflict => .error (postgresError conflict)
  | _ => value

/-- The storage manager logs an error and answers `None`. -/
def Choice.storage {α : Type} (choice : Choice) (value : Option α) : Option α :=
  match choice with
  | fail _ => none
  | _ => value

/-- `query_opt`: more than one row is an error. -/
def queryOpt {α : Type} : List α → DbResult (Option α)
  | [] => .ok none
  | [row] => .ok (some row)
  | _ => .error (postgresError false)

/-- The rows of `sessions` by their uid, with the user each refers to. -/
abbrev SessionTable := String → Option (Option Uuid)

/-- The `update sessions` statements of a transaction; an absent row stays absent. -/
def SessionTable.applyUpdates (sessions : SessionTable) : List (Uuid × String) → SessionTable
  | [] => sessions
  | (uid, sid) :: rest =>
      match sessions sid with
      | some _ => applyUpdates (Function.update sessions sid (some (some uid))) rest
      | none => applyUpdates sessions rest

namespace World

variable {X : Externals}

def queryUser (w : World X) (key : UserKey) : DbResult (Option UserRow) :=
  queryOpt (w.users.filter key.matches)

def setSession (w : World X) (sid : String) (user : Option Uuid) : World X :=
  { w with sessions := Function.update w.sessions sid (some user) }

def modifyExecution (w : World X) (e : ExecId) (f : FlowExecution → FlowExecution) : World X :=
  { w with heap := w.heap.modify e f }

def readLocked (w : World X) (e : ExecId) : Bool :=
  w.readers.any fun guard => guard.2 = e

end World

/-- `FlowExecution::complete_current`. -/
def FlowExecution.completeCurrent (execution : FlowExecution) : FlowExecution :=
  match execution.flow.entries[execution.currentEntryIdx + 1]? with
  | some _ => { execution with currentEntryIdx := execution.currentEntryIdx + 1 }
  | none => { execution with isCompleted := true }

/-- `FlowExecution::use_mut_context`, once it has the lock. -/
def FlowExecution.useMutContext (execution : FlowExecution) (update : ContextUpdate) :
    FlowExecution :=
  { execution with context := update.apply execution.context }

/-- `FlowExecution::get_entry`; `none` where it panics. -/
def FlowExecution.getEntry (execution : FlowExecution) : Option (Nat × FlowEntry) :=
  (execution.flow.entries[execution.currentEntryIdx]?).map fun entry =>
    (execution.currentEntryIdx, entry)

/-- What an operation answers and does; `none` where it panics. -/
def exec (X : Externals) (who : Nat) : (op : Op X) → Choice → World X → Option (op.Res × World X)
  | .addedCookie, _, w => some (w.cookies who, w)
  | .addCookie token, _, w =>
      some ((), { w with cookies := Function.update w.cookies who (some token) })
  | .sampleSessionKey, choice, w =>
      match choice with
      | .key text => some (text, w)
      | _ => some ("", w)
  | .now, _, w => some (w.now, w)
  | .cachedExecution key, _, w => some (w.executions key, w)
  | .insertExecution execution, _, w =>
      some (w.heap.length,
        { w with
          heap := w.heap ++ [execution]
          executions := Function.update w.executions execution.key (some w.heap.length) })
  | .invalidateExecution key, _, w =>
      some ((), { w with executions := Function.update w.executions key none })
  | .getFlow e, _, w => w.heap[e]?.map fun execution => (execution.flow, w)
  | .getKey e, _, w => w.heap[e]?.map fun execution => (execution.key, w)
  | .readContext e, _, w => w.heap[e]?.map fun execution => (execution.context, w)
  | .useMutContext e update, _, w =>
      -- `try_write().expect("Context is locked")`
      if w.readLocked e then none
      else w.heap[e]?.map fun _ =>
        ((), w.modifyExecution e fun execution => execution.useMutContext update)
  | .getEntry e, _, w => w.heap[e]?.bind fun execution =>
      execution.getEntry.map fun entry => (entry, w)
  | .completeCurrent e, _, w =>
      w.heap[e]?.map fun _ => ((), w.modifyExecution e FlowExecution.completeCurrent)
  | .isCompleted e, _, w => w.heap[e]?.map fun execution => (execution.isCompleted, w)
  | .lockContext e, _, w => some ((), { w with readers := (who, e) :: w.readers })
  | .unlockContext e, _, w => some ((), { w with readers := w.readers.erase (who, e) })
  | .optionallyGetWith uid init, _, w =>
      match w.asts uid, init with
      | some ast, _ => some (some ast, w)
      | none, some ast => some (some ast, { w with asts := Function.update w.asts uid (some ast) })
      | none, none => some (none, w)
  | .verifyPassword hash password, _, w => some (X.verifyPassword hash password, w)
  | .panic _, _, _ => none
  | .connection, choice, w =>
      match choice with
      | .fail _ => some (.error .poolError, w)
      | _ => some (.ok (), w)
  | .transaction, choice, w => some (choice.db (.ok ()), w)
  | .commit, choice, w =>
      match choice with
      | .fail conflict => some (.error (postgresError conflict), w)
      | _ =>
          -- the statements of the transaction take effect together
          some (.ok (), { w with
            sessions := SessionTable.applyUpdates w.sessions (w.transactions who)
            transactions := Function.update w.transactions who [] })
  | .prepareCached _, choice, w => some (choice.db (.ok ()), w)
  | .queryUser key, choice, w => some (choice.db (w.queryUser key), w)
  | .queryPassword uid, choice, w =>
      some (choice.db ((w.queryUser (.uid uid)).map fun row => row.map UserRow.password), w)
  | .querySession sid, choice, w => some (choice.db (.ok (w.sessions sid)), w)
  | .insertSession sid, choice, w =>
      -- outside of every transaction, so the row is there at once
      match choice, w.sessions sid with
      | .fail conflict, _ => some (.error (postgresError conflict), w)
      | _, some _ => some (.error (postgresError true), w)
      | _, none => some (.ok (), w.setSession sid none)
  | .updateSession uid sid, choice, w =>
      match choice with
      | .fail conflict => some (.error (postgresError conflict), w)
      | _ =>
          some (.ok (), { w with
            transactions :=
              Function.update w.transactions who (w.transactions who ++ [(uid, sid)]) })
  | .frozenStage e reference, _, w =>
      w.heap[e]?.bind fun execution =>
        (execution.context.storage.stage.findOptional reference).map fun stage => (stage, w)
  | .frozenPolicy e reference, _, w =>
      w.heap[e]?.bind fun execution =>
        (execution.context.storage.policy.findOptional reference).map fun policy => (policy, w)
  | .liveFlow reference, choice, w => some (choice.storage (w.flows reference), w)
  | .liveStage reference, choice, w => some (choice.storage (w.stages reference), w)
  | .livePolicy reference, choice, w => some (choice.storage (w.policies reference), w)
  | .livePrompt reference, choice, w => some (choice.storage (w.prompts reference), w)

/-- The cache of compiled policies answers the tree it holds, and otherwise takes up the one it is
given. -/
theorem exec_optionallyGetWith {X : Externals} {who : Nat} {uid : Int}
    {init tree : Option (Option X.Ast)} {choice : Choice} {before after : World X}
    (hexec : exec X who (.optionallyGetWith uid init) choice before = some (tree, after)) :
    tree = (before.asts uid).or init ∧
      after = { before with asts := Function.update before.asts uid tree } := by
  simp only [exec] at hexec
  split at hexec
  next ast hasts =>
    cases hexec
    exact ⟨by rw [hasts]; rfl, by rw [← hasts, Function.update_eq_self]⟩
  next ast hasts =>
    cases hexec
    exact ⟨by rw [hasts]; rfl, rfl⟩
  next hasts =>
    cases hexec
    exact ⟨by rw [hasts]; rfl, by rw [← hasts, Function.update_eq_self]⟩

/-- Dropping a handler frees its guards, rolls its open transaction back and forgets its jar. -/
def World.release {X : Externals} (who : Nat) (w : World X) : World X :=
  { w with
    readers := w.readers.filter fun guard => guard.1 ≠ who
    transactions := Function.update w.transactions who []
    cookies := Function.update w.cookies who none }

/-- What other parts of the server and the database's other users may change: users, the
live storage, the compiled policies, the clock, and which executions are still cached. -/
structure Surroundings {X : Externals} (w w' : World X) : Prop where
  sessions : w'.sessions = w.sessions
  heap : w'.heap = w.heap
  executions : ∀ key, w'.executions key = w.executions key ∨ w'.executions key = none
  readers : w'.readers = w.readers
  transactions : w'.transactions = w.transactions
  cookies : w'.cookies = w.cookies

def machine (X : Externals) (moves : World X → World X → Prop) :
    Machine (sig X) (World X) Choice where
  suspends := Op.suspends
  exec := exec X
  release := World.release
  moves := moves

end Authust
