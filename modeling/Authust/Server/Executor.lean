import Authust.Server.Check

/-! # The flow executor

Executions are cached under the session and the slug of the flow. A new execution freezes
everything its flow refers to: `reverse_lookup` looks every reference up in the live
storage and records the answers.
-/

namespace Authust

open Coop

variable (X : Externals)

/-- `FlowExecutor::get_key`. -/
def getKey (session : Session) (flow : DataRef FlowQuery) : Option FlowKey :=
  match flow with
  | .slug _ => some { session := session.sessionId, flow := flow }
  | .uid _ => none

/-- Look a policy up through the proxy, which records it. -/
def proxiedPolicy (storage : FreezedStorage) (reference : DataRef PolicyQuery) :
    Task (sig X) FreezedStorage := do
  match ← op (.livePolicy reference) with
  | some policy =>
      pure { storage with
        policy := storage.policy.insertData policy.uid (X.policyQueries policy) policy }
  | none => panic "Failed to lookup policy"

def proxiedPrompt (storage : FreezedStorage) (reference : DataRef PromptQuery) :
    Task (sig X) FreezedStorage := do
  match ← op (.livePrompt reference) with
  | some prompt =>
      pure { storage with
        prompt := storage.prompt.insertData prompt.uid (X.promptQueries prompt) prompt }
  | none => panic "Failed to lookup prompt"

def proxiedStage (storage : FreezedStorage) (reference : DataRef StageQuery) :
    Task (sig X) (FreezedStorage × Stage) := do
  match ← op (.liveStage reference) with
  | some stage =>
      pure ({ storage with
        stage := storage.stage.insertData stage.uid (X.stageQueries stage) stage }, stage)
  | none => panic "Failed to lookup stage"

def proxiedFlow (storage : FreezedStorage) (reference : DataRef FlowQuery) :
    Task (sig X) FreezedStorage := do
  match ← op (.liveFlow reference) with
  | some flow =>
      pure { storage with flow := storage.flow.insertData flow.uid (X.flowQueries flow) flow }
  | none => panic "Failed to lookup flow"

def reverseLookupPrompts (storage : FreezedStorage) :
    List PromptBinding → Task (sig X) FreezedStorage
  | [] => pure storage
  | binding :: rest => do
      let storage ← proxiedPrompt X storage binding.prompt
      reverseLookupPrompts storage rest

/-- `ReverseLookup<Stage>`. A chain of password stages deeper than the stack allows ends
the handler; so does a stage that refers to itself. -/
def reverseLookupStage (depth : Nat) (storage : FreezedStorage) (stage : Stage) :
    Task (sig X) FreezedStorage :=
  match depth with
  | 0 => panic "stack overflow"
  | depth + 1 =>
      match stage.kind with
      | .prompt bindings => reverseLookupPrompts X storage bindings
      | .identification (some password) _ => do
          let (storage, stage) ← proxiedStage X storage password
          reverseLookupStage depth storage stage
      | _ => pure storage

def reverseLookupBindings (storage : FreezedStorage) :
    List FlowBinding → Task (sig X) FreezedStorage
  | [] => pure storage
  | binding :: rest =>
      match binding.kind with
      | .policy reference => do
          let storage ← proxiedPolicy X storage reference
          reverseLookupBindings storage rest
      | _ => reverseLookupBindings storage rest

def reverseLookupEntries (storage : FreezedStorage) :
    List FlowEntry → Task (sig X) FreezedStorage
  | [] => pure storage
  | entry :: rest => do
      let storage ← reverseLookupBindings X storage entry.bindings
      let (storage, stage) ← proxiedStage X storage entry.stage
      let storage ← reverseLookupStage X X.recursionLimit storage stage
      reverseLookupEntries storage rest

/-- `ReverseLookup<Flow>`. -/
def reverseLookupFlow (flow : Flow) : Task (sig X) FreezedStorage := do
  let storage ← proxiedFlow X .empty (.uid flow.uid)
  let storage ← reverseLookupBindings X storage flow.bindings
  reverseLookupEntries X storage flow.entries

def ExecutionContext.new (sessionId : String) (storage : FreezedStorage) (now : OffsetDateTime) :
    ExecutionContext where
  sessionId := sessionId
  startTime := now
  pending := none
  storage := storage
  error := none

/-- The `FlowExecutionInternal` that `start` builds. -/
def FlowExecution.new (key : FlowKey) (flow : Flow) (storage : FreezedStorage)
    (now : OffsetDateTime) : FlowExecution where
  flow := flow
  key := key
  context := .new key.session storage now
  currentEntryIdx := 0
  isCompleted := false

/-- `FlowExecutor::start`. -/
def start (key : FlowKey) : Task (sig X) (Option ExecId) := do
  match ← op (.liveFlow key.flow) with
  | none => pure none
  | some flow =>
      if flow.entries.isEmpty then pure none
      else do
        let storage ← reverseLookupFlow X flow
        let now ← op .now
        let e ← op (.insertExecution (.new key flow storage now))
        pure (some e)

/-- `FlowExecutor::get_execution`. -/
def getExecution (key : FlowKey) (startNew : Bool) : Task (sig X) (Option ExecId) := do
  match ← op (.cachedExecution key) with
  | some e => pure (some e)
  -- another request may start one before this one is inserted
  | none => if startNew then start X key else pure none

end Authust
