import Authust.Coop.Ensures
import Authust.Coop.Extend
import Authust.Server.Check
import Authust.Storage.PolicyRows
import Authust.Text.Utf8

/-! # Creating policies

A policy is inserted with no reference, then the row of its kind, and then the policy is made to
refer to it; the three statements are one transaction. The machine makes the database explicit
that the statements write and that the live storage reads and caches; every other operation is
the server's.
-/

namespace Authust

open Coop Coop.Task Postgres

variable (X : Externals)

/-- The statements that create a policy, and the wait for a part of a request's body. -/
inductive StoreOp : Type
  | insert (table : Table) (values : List (String × PgValue))
  | update (table column : String) (value : PgValue) (uid : Int)
  | nextChunk

@[reducible] def StoreOp.Res : StoreOp → Type
  | insert _ _ => DbResult Int
  | update _ _ _ _ => DbResult Unit
  | nextChunk => Unit

abbrev storeSig : Signature := (sig X).sum ⟨StoreOp, StoreOp.Res⟩

/-- Base64 and the parser of expressions, in the dummy scope; an error carries its text. -/
structure PolicyEngine where
  encodeBase64 : String → String
  decodeBase64 : String → Option ByteArray
  parse : String → Except String X.Ast

inductive ExpressionCompilationError : Type
  | invalidBase64
  | parse (error : String)

variable {X} in
/-- `compile` of an expression in the dummy scope. -/
def PolicyEngine.compile (E : PolicyEngine X) (expression : String) :
    Except ExpressionCompilationError X.Ast :=
  match E.decodeBase64 expression with
  | none => .error .invalidBase64
  | some bytes =>
      match E.parse (Utf8.fromUtf8Lossy bytes) with
      | .ok ast => .ok ast
      | .error error => .error (.parse error)

/-- `From<&PolicyKind>` -/
def PolicyKindSimple.of : PolicyKind → PolicyKindSimple
  | .passwordExpiry _ => passwordExpiry
  | .passwordStrength => passwordStrength
  | .expression _ => expression

structure PartialPolicy where
  uid : Int
  slug : String
  kind : PolicyKindSimple
  deriving DecidableEq

inductive PolicyResponse : Type
  | json (created : PartialPolicy)
  | text (status : Nat) (message : String)
  | empty (status : Nat)
  deriving DecidableEq

section Handlers

abbrev StoreHandler (α : Type) := ExceptT ApiErrorKind (Task (storeSig X)) α

def connection : StoreHandler X Unit := ExceptT.mk (@perform (storeSig X) (.inl .connection))

def beginTransaction : StoreHandler X Unit := ExceptT.mk (@perform (storeSig X) (.inl .transaction))

def commitTransaction : StoreHandler X Unit := ExceptT.mk (@perform (storeSig X) (.inl .commit))

def prepareCached (sql : String) : StoreHandler X Unit :=
  ExceptT.mk (@perform (storeSig X) (.inl (.prepareCached sql)))

/-- An insert that returns the uid of the row. -/
def insertReturning (table : Table) (values : List (String × PgValue)) : StoreHandler X Int :=
  ExceptT.mk (@perform (storeSig X) (.inr (.insert table values)))

def executeUpdate (table column : String) (value : PgValue) (uid : Int) : StoreHandler X Unit :=
  ExceptT.mk (@perform (storeSig X) (.inr (.update table column value uid)))

/-- `create` -/
def createPolicy (slug : String) (kind : PolicyKind) : StoreHandler X PartialPolicy := do
  let simpleKind := PolicyKindSimple.of kind
  prepareCached X "insert into policies(slug, kind) values($1, $2) returning uid"
  let uid ← insertReturning X Schema.policies
    [("slug", .text slug), ("kind", .enum "policy_kind" simpleKind.label)]
  match kind with
  | .passwordExpiry maxAge => do
      prepareCached X "insert into password_expiration_policies(max_age) values ($1) returning uid"
      let subUid ← insertReturning X Schema.passwordExpirationPolicies [("max_age", .int4 maxAge)]
      prepareCached X "update policies set password_expiration=$1 where uid = $2"
      executeUpdate X "policies" "password_expiration" (.int4 subUid) uid
  | .passwordStrength => ExceptT.lift (@perform (storeSig X) (.inl (.panic "not yet implemented"))
      >>= Empty.elim)
  | .expression expression => do
      prepareCached X "insert into expression_policies(expression) values ($1) returning uid"
      let subUid ← insertReturning X Schema.expressionPolicies [("expression", .text expression)]
      prepareCached X "update policies set expression=$1 where uid = $2"
      executeUpdate X "policies" "expression" (.int4 subUid) uid
  pure { uid := uid, slug := slug, kind := simpleKind }

/-- `create_expiration` of an admitted administrator. -/
def createExpiration (slug : String) (maxAge : Int) : StoreHandler X PolicyResponse := do
  if maxAge < 0 then pure (.text 400 "max_age must be positive")
  else do
    connection X
    beginTransaction X
    let created ← createPolicy X slug (.passwordExpiry maxAge)
    commitTransaction X
    pure (.json created)

/-- `MAX_EXPRESSION_LEN` -/
def maxExpressionLen : Nat := 2048

/-- The loop over the body; a body that grows too large is answered at once. -/
def readBody : List (Except Unit ByteArray) → ByteArray →
    StoreHandler X (Except PolicyResponse ByteArray)
  | [], bytes => do
      ExceptT.lift (@perform (storeSig X) (.inr .nextChunk))
      pure (.ok bytes)
  | chunk :: rest, bytes => do
      ExceptT.lift (@perform (storeSig X) (.inr .nextChunk))
      match chunk with
      | .error _ => throw .axum
      | .ok chunk =>
          if bytes.size + chunk.size > maxExpressionLen then
            pure (.error (.text 413 "Request body too large"))
          else readBody rest (bytes ++ chunk)

variable {X}

/-- `create_expression` of an admitted administrator. -/
def createExpression (E : PolicyEngine X) (slug : String) (stream : List (Except Unit ByteArray)) :
    StoreHandler X PolicyResponse := do
  connection X
  beginTransaction X
  match ← readBody X stream .empty with
  | .error response => pure response
  | .ok bytes =>
      match String.fromUTF8? bytes with
      | none => pure (.text 400 "Requset body must be utf8")
      | some expression =>
          let expression := E.encodeBase64 expression
          match E.compile expression with
          | .error .invalidBase64 => pure (.empty 500)
          | .error (.parse error) => pure (.text 400 error)
          | .ok _ => do
              let created ← createPolicy X slug (.expression expression)
              commitTransaction X
              pure (.json created)

inductive StoreRequest : Type
  | createExpiration (slug : String) (maxAge : Int)
  | createExpression (slug : String) (stream : List (Except Unit ByteArray))
  /-- A check that asks for the tree of a policy. -/
  | getAst (reference : DataRef PolicyQuery)

inductive StoreReply (X : Externals) : Type
  | response (result : Except ApiErrorKind PolicyResponse)
  | ast (found : Option X.Ast)

def handleStore (E : PolicyEngine X) : StoreRequest → Task (storeSig X) (StoreReply X)
  | .createExpiration slug maxAge => StoreReply.response <$> (createExpiration X slug maxAge).run
  | .createExpression slug stream => StoreReply.response <$> (createExpression E slug stream).run
  | .getAst reference => StoreReply.ast <$> (getAst X reference).translate

end Handlers

section Machine

structure StoreWorld where
  world : World X
  /-- What has been committed. -/
  committed : Database
  /-- The database as the open transaction sees it. -/
  working : Option Database
  /-- The policies the live storage has cached. -/
  cached : List Policy

/-- The environment's part in a statement; `serial` is the next value of the sequence. -/
structure StoreChoice where
  choice : Choice
  serial : Int

variable {X}

namespace StoreWorld

def current (w : StoreWorld X) : Database := w.working.getD w.committed

def write (w : StoreWorld X) (db : Database) : StoreWorld X :=
  match w.working with
  | some _ => { w with working := some db }
  | none => { w with committed := db }

/-- A statement that writes; one that would leave its schema violated fails. -/
def statement {α : Type} (w : StoreWorld X) (choice : Choice) (answer : α) (db : Database) :
    DbResult α × StoreWorld X :=
  match choice with
  | .fail conflict => (.error (postgresError conflict), w)
  | _ =>
      if db.Satisfies Schema.initial then (.ok answer, w.write db)
      else (.error (postgresError (decide (∃ table ∈ Schema.initial, ∃ columns ∈ table.unique,
        ¬ (db table.name).Pairwise fun first second => ¬ Row.Agree columns first second))), w)

/-- The lookup of the live storage: a cached policy, or one it reads and caches. Of the storage
manager, which is the `datacache` crate's, this assumes that it caches what it finds under every
query that finds it, and neither that something is missing nor that a lookup has failed. -/
def lookup (w : StoreWorld X) (choice : Choice) (reference : DataRef PolicyQuery) :
    Option (Option Policy × StoreWorld X) :=
  match w.cached.find? reference.finds with
  | some policy => some (some policy, w)
  | none =>
      match choice with
      | .fail _ => some (none, w)
      | _ => (lookupData (findPolicy w.committed.client reference)).map fun found =>
          (found, { w with cached := found.toList ++ w.cached })

end StoreWorld

variable (X)

def storeExec (who : Nat) : (op : (storeSig X).Op) → StoreChoice → StoreWorld X →
    Option ((storeSig X).Res op × StoreWorld X)
  | .inl .transaction, turn, w =>
      match turn.choice with
      | .fail conflict => some (.error (postgresError conflict), w)
      | _ => some (.ok (), { w with working := some w.committed })
  | .inl .commit, turn, w =>
      match turn.choice with
      | .fail conflict => some (.error (postgresError conflict), w)
      | _ => some (.ok (), { w with committed := w.current, working := none })
  | .inl (.livePolicy reference), turn, w => w.lookup turn.choice reference
  | .inl op, turn, w =>
      (exec X who op turn.choice w.world).map fun answer => (answer.1, { w with world := answer.2 })
  | .inr (.insert table values), turn, w =>
      some (w.statement turn.choice turn.serial
        (w.current.insert table.name (table.newRow turn.serial values)))
  | .inr (.update table column value uid), turn, w =>
      some (w.statement turn.choice () (w.current.update table column value uid))
  | .inr .nextChunk, _, w => some ((), w)

def storeSuspends : (storeSig X).Op → Bool
  | .inl op => op.suspends
  | .inr _ => true

/-- A transaction that has not been committed is rolled back. -/
def storeMachine : Machine (storeSig X) (StoreWorld X) StoreChoice where
  suspends := storeSuspends X
  exec := storeExec X
  release := fun who w => { w with world := w.world.release who, working := none }
  moves := fun _ _ => False

end Machine

section Steps

variable {X : Externals} {who : Nat} {before after : StoreWorld X}

/-- What becomes of the state by a statement that writes. -/
theorem statement_cases {α : Type} {choice : Choice} {answer : α} {db : Database}
    {result : DbResult α} (hanswer : before.statement choice answer db = (result, after)) :
    (∃ error, result = .error error ∧ after = before) ∨
      (db.Satisfies Schema.initial ∧ result = .ok answer ∧ after = before.write db) := by
  unfold StoreWorld.statement at hanswer
  split at hanswer
  · cases hanswer
    exact Or.inl ⟨_, rfl, rfl⟩
  · split at hanswer
    next hsatisfies =>
      cases hanswer
      exact Or.inr ⟨hsatisfies, rfl, rfl⟩
    next =>
      cases hanswer
      exact Or.inl ⟨_, rfl, rfl⟩

theorem storeExec_insert {table : Table} {values : List (String × PgValue)} {result : DbResult Int}
    (hexec : (storeMachine X).Exec who before ⟨.inr (.insert table values), result⟩ after) :
    (∃ error, result = .error error ∧ after = before) ∨
      ∃ uid, (before.current.insert table.name (table.newRow uid values)).Satisfies Schema.initial ∧
        result = .ok uid ∧
          after = before.write (before.current.insert table.name (table.newRow uid values)) := by
  obtain ⟨turn, hexec⟩ := hexec
  have hanswer : before.statement turn.choice turn.serial
      (before.current.insert table.name (table.newRow turn.serial values)) = (result, after) :=
    Option.some.inj hexec
  rcases statement_cases hanswer with ⟨error, hresult, hafter⟩ | ⟨hsatisfies, hresult, hafter⟩
  · exact Or.inl ⟨error, hresult, hafter⟩
  · exact Or.inr ⟨turn.serial, hsatisfies, hresult, hafter⟩

theorem storeExec_update {table column : String} {value : PgValue} {uid : Int}
    {result : DbResult Unit}
    (hexec : (storeMachine X).Exec who before
    ⟨.inr (.update table column value uid), result⟩ after) :
    (∃ error, result = .error error ∧ after = before) ∨
      ((before.current.update table column value uid).Satisfies Schema.initial ∧ result = .ok () ∧
        after = before.write (before.current.update table column value uid)) := by
  obtain ⟨turn, hexec⟩ := hexec
  have hanswer : before.statement turn.choice ()
      (before.current.update table column value uid) = (result, after) :=
    Option.some.inj hexec
  exact statement_cases hanswer

theorem storeExec_transaction {result : DbResult Unit}
    (hexec : (storeMachine X).Exec who before ⟨.inl .transaction, result⟩ after) :
    (∃ error, result = .error error ∧ after = before) ∨
      (result = .ok () ∧ after = { before with working := some before.committed }) := by
  obtain ⟨turn, hexec⟩ := hexec
  simp only [storeMachine, storeExec] at hexec
  split at hexec
  next =>
    cases hexec
    exact Or.inl ⟨_, rfl, rfl⟩
  next =>
    cases hexec
    exact Or.inr ⟨rfl, rfl⟩

theorem storeExec_commit {result : DbResult Unit}
    (hexec : (storeMachine X).Exec who before ⟨.inl .commit, result⟩ after) :
    (∃ error, result = .error error ∧ after = before) ∨
      (result = .ok () ∧ after = { before with committed := before.current, working := none }) := by
  obtain ⟨turn, hexec⟩ := hexec
  simp only [storeMachine, storeExec] at hexec
  split at hexec
  next =>
    cases hexec
    exact Or.inl ⟨_, rfl, rfl⟩
  next =>
    cases hexec
    exact Or.inr ⟨rfl, rfl⟩

/-- To get a connection or to prepare a statement changes nothing. -/
theorem storeExec_connection {result : DbResult Unit}
    (hexec : (storeMachine X).Exec who before ⟨.inl .connection, result⟩ after) :
    after = before := by
  obtain ⟨turn, hexec⟩ := hexec
  simp only [storeMachine, storeExec, exec] at hexec
  split at hexec <;>
    · cases hexec
      rfl

theorem storeExec_prepareCached {sql : String} {result : DbResult Unit}
    (hexec : (storeMachine X).Exec who before ⟨.inl (.prepareCached sql), result⟩ after) :
    after = before := by
  obtain ⟨turn, hexec⟩ := hexec
  cases hexec
  rfl

theorem storeExec_nextChunk {answer : Unit}
    (hexec : (storeMachine X).Exec who before ⟨.inr .nextChunk, answer⟩ after) :
    after = before := by
  obtain ⟨turn, hexec⟩ := hexec
  cases hexec
  rfl

/-- What the live storage answers is cached, or found in what has been committed. -/
theorem storeExec_livePolicy {reference : DataRef PolicyQuery} {found : Option Policy}
    (hexec : (storeMachine X).Exec who before ⟨.inl (.livePolicy reference), found⟩ after) :
    (∀ policy, found = some policy → policy ∈ before.cached ∨
        findPolicy before.committed.client reference = .ok (some policy)) ∧
      (after = before ∨ after = { before with cached := found.toList ++ before.cached }) := by
  obtain ⟨turn, hexec⟩ := hexec
  change before.lookup turn.choice reference = some (found, after) at hexec
  unfold StoreWorld.lookup at hexec
  split at hexec
  next policy hcached =>
    cases hexec
    refine ⟨fun found hfound => ?_, Or.inl rfl⟩
    cases hfound
    exact Or.inl (List.mem_of_find?_eq_some hcached)
  next =>
    split at hexec
    next =>
      cases hexec
      exact ⟨nofun, Or.inl rfl⟩
    next =>
      obtain ⟨answer, hanswer, heq⟩ := Option.map_eq_some_iff.mp hexec
      cases heq
      refine ⟨?_, Or.inr rfl⟩
      rintro policy rfl
      exact Or.inr (lookupData_eq_some_some.mp hanswer)

theorem storeExec_optionallyGetWith {uid : Int} {init tree : Option (Option X.Ast)}
    (hexec : (storeMachine X).Exec who before ⟨.inl (.optionallyGetWith uid init), tree⟩ after) :
    tree = (before.world.asts uid).or init ∧
      after = { before with world := { before.world with
        asts := Function.update before.world.asts uid tree } } := by
  obtain ⟨turn, hexec⟩ := hexec
  obtain ⟨answer, hanswer, heq⟩ := Option.map_eq_some_iff.mp hexec
  obtain ⟨htree, hworld⟩ := exec_optionallyGetWith hanswer
  cases heq
  exact ⟨htree, by rw [← hworld]⟩

end Steps

end Authust
