import Authust.Coop.Records
import Authust.Server.PolicyCreation

/-! # Listing policies

An administrator's listing asks the database for the uids of all policies, and then the live
storage for one policy after another. A policy that the storage does not answer is left out.
-/

namespace Authust

open Coop Coop.Task Coop.Machine Postgres

variable (X : Externals)

/-- A statement that asks for columns of every row of a table. -/
inductive ListOp : Type
  | query (table : String) (columns : List String)

@[reducible] def ListOp.Res : ListOp → Type
  | query _ _ => DbResult (List Row)

abbrev listSig : Signature := (storeSig X).sum ⟨ListOp, ListOp.Res⟩

abbrev ListHandler (α : Type) := ExceptT ApiErrorKind (Task (listSig X)) α

section Handlers

/-- The references to the uids that have been answered. -/
def collectReferences (records : List Row) : ListHandler X (List (DataRef PolicyQuery)) :=
  match records.mapM fun record => (record.get .int4 "uid").map PolicyQuery.uid with
  | some references => pure references
  | none =>
      -- `Row::get`
      ExceptT.lift (@perform (listSig X) (.inl (.inl (.panic "error retrieving column 0")))
        >>= Empty.elim)

/-- `list_all_references` -/
def listAllReferences : ListHandler X (List (DataRef PolicyQuery)) := do
  ExceptT.mk (@perform (listSig X) (.inl (.inl (.prepareCached "select uid from policies"))))
  let records ← ExceptT.mk (@perform (listSig X) (.inr (.query "policies" ["uid"])))
  collectReferences X records

/-- The loop of `list_all`. -/
def listPolicies : List (DataRef PolicyQuery) → List PartialPolicy →
    ListHandler X (List PartialPolicy)
  | [], policies => pure policies
  | reference :: rest, policies => do
      match ← ExceptT.lift (@perform (listSig X) (.inl (.inl (.livePolicy reference)))) with
      | some policy => listPolicies rest (policies ++ [.of policy])
      | none => listPolicies rest policies

/-- `list_all` -/
def listAll : ListHandler X (List PartialPolicy) := do
  let references ← listAllReferences X
  listPolicies X references []

/-- `list` of an admitted administrator. -/
def list : ListHandler X (List PartialPolicy) := do
  ExceptT.mk (@perform (listSig X) (.inl (.inl .connection)))
  listAll X

inductive PolicyRequest : Type
  | store (request : StoreRequest)
  | list

inductive PolicyAnswer (X : Externals) : Type
  | store (reply : StoreReply X)
  | listed (result : Except ApiErrorKind (List PartialPolicy))

variable {X}

def handlePolicies (E : PolicyEngine X) : PolicyRequest → Task (listSig X) (PolicyAnswer X)
  | .store request => PolicyAnswer.store <$> (handleStore E request).translate
  | .list => PolicyAnswer.listed <$> (list X).run

end Handlers

section Machine

/-- The environment's part in a statement; `order` is how rows that nothing orders are answered. -/
structure ListChoice where
  turn : StoreChoice
  order : List Row → List Row

/-- The rows as they are answered. -/
def ListChoice.answered (choice : ListChoice) (rows : List Row) : List Row :=
  if (choice.order rows).Perm rows then choice.order rows else rows

def listExec (who : Nat) : (op : (listSig X).Op) → ListChoice → StoreWorld X →
    Option ((listSig X).Res op × StoreWorld X)
  | .inl op, choice, w => storeExec X who op choice.turn w
  | .inr (.query table columns), choice, w =>
      match choice.turn.choice with
      | .fail conflict => some (.error (postgresError conflict), w)
      | _ =>
          -- outside of every transaction, so the rows that have been committed
          some (.ok ((choice.answered (w.committed table)).map (Row.project columns)), w)

def listSuspends : (listSig X).Op → Bool
  | .inl op => storeSuspends X op
  | .inr _ => true

def listMachine : Machine (listSig X) (StoreWorld X) ListChoice where
  suspends := listSuspends X
  exec := listExec X
  release := (storeMachine X).release
  moves := fun _ _ => False

end Machine

variable {X} in
/-- A lookup of the listing that the storage has not answered. -/
def missed : Event (listSig X) → Bool
  | ⟨.inl (.inl (.livePolicy _)), res⟩ => res.isNone
  | _ => false

section Steps

variable {X : Externals} {who : Nat} {before after : StoreWorld X}

theorem listMachine_within : (storeMachine X).Within (listMachine X) := by
  intro who before op res after hexec
  obtain ⟨choice, hexec⟩ := hexec
  exact ⟨choice.turn, hexec⟩

theorem ListChoice.answered_perm (choice : ListChoice) (rows : List Row) :
    (choice.answered rows).Perm rows := by
  unfold ListChoice.answered
  split
  next hperm => exact hperm
  next => exact .refl _

/-- The rows that have been committed are answered, in some order. -/
theorem listExec_query {table : String} {columns : List String} {result : DbResult (List Row)}
    (hexec : (listMachine X).Exec who before ⟨.inr (.query table columns), result⟩ after) :
    after = before ∧ ∀ records, result = .ok records →
      ∃ rows : List Row, rows.Perm (before.committed table) ∧
        records = rows.map (Row.project columns) := by
  obtain ⟨choice, hexec⟩ := hexec
  simp only [listMachine, listExec] at hexec
  split at hexec
  next =>
    cases hexec
    exact ⟨rfl, nofun⟩
  next =>
    cases hexec
    refine ⟨rfl, ?_⟩
    rintro records ⟨⟩
    exact ⟨_, choice.answered_perm _, rfl⟩

/-- What is cached is answered to the queries that find it. -/
theorem storeExec_livePolicy_finds {reference : DataRef PolicyQuery} {policy : Policy}
    (hexec : (storeMachine X).Exec who before ⟨.inl (.livePolicy reference), some policy⟩ after) :
    reference.finds policy = true := by
  obtain ⟨turn, hexec⟩ := hexec
  change before.lookup turn.choice reference = some (some policy, after) at hexec
  unfold StoreWorld.lookup at hexec
  split at hexec
  next found hcached =>
    cases hexec
    exact List.find?_some hcached
  next =>
    split at hexec
    next => cases hexec
    next =>
      obtain ⟨answer, hanswer, heq⟩ := Option.map_eq_some_iff.mp hexec
      cases heq
      exact findPolicy_finds before.committed.client_serves (lookupData_eq_some_some.mp hanswer)

end Steps

end Authust
