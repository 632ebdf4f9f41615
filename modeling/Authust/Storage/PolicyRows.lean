import Authust.Postgres.Write
import Authust.Storage.StageRows

/-! # Policies as they are stored

A policy is a row of `policies` that refers to a row of the table of its kind. Rows that are
added to a database leave the policies as they are decoded from it.
-/

namespace Authust

open Postgres

/-- A row of `policies` that has no password strength. -/
def policyRow (uid : Int) (slug : String) (kind : PolicyKindSimple)
    (expiration expression : Option Int) : Row :=
  [("uid", some (.int4 uid)), ("slug", some (.text slug)),
    ("kind", some (.enum "policy_kind" kind.label)),
    ("password_expiration", expiration.map .int4), ("password_strength", none),
    ("expression", expression.map .int4)]

def expirationRow (uid maxAge : Int) : Row :=
  [("uid", some (.int4 uid)), ("max_age", some (.int4 maxAge))]

def expressionRow (uid : Int) (source : String) : Row :=
  [("uid", some (.int4 uid)), ("expression", some (.text source))]

/-- The second database has the rows of the policy, and otherwise those of the first. -/
inductive AddsPolicy (before after : Database) : Policy → Prop
  | expiration {uid sub maxAge : Int} {slug : String}
      (hafter : after =
        (before.insert "password_expiration_policies" (expirationRow sub maxAge)).insert "policies"
          (policyRow uid slug .passwordExpiry (some sub) none)) :
      AddsPolicy before after ⟨uid, slug, .passwordExpiry maxAge⟩
  | expression {uid sub : Int} {slug source : String}
      (hafter : after =
        (before.insert "expression_policies" (expressionRow sub source)).insert "policies"
          (policyRow uid slug .expression none (some sub))) :
      AddsPolicy before after ⟨uid, slug, .expression source⟩

/-- The row is decoded to the policy, in whichever order the connection answers rows. -/
def DecodesTo (db : Database) (row : Row) (policy : Policy) : Prop :=
  ∀ client : Client, client.Serves db → policyFromRow client row = .ok policy

/-- The policy is decoded from a row of the database. -/
def StoresPolicy (db : Database) (policy : Policy) : Prop :=
  ∃ row ∈ db "policies", DecodesTo db row policy

section Stored

variable {db before after : Database} {client : Client} {row : Row} {policy other : Policy}

theorem mem_insert {table name : String} {row other : Row} :
    other ∈ db.insert table row name ↔ other ∈ db name ∨ (name = table ∧ other = row) := by
  by_cases hname : name = table
  · subst hname
    simp
  · simp [insert_of_ne hname, hname]

theorem AddsPolicy.mono (hadds : AddsPolicy before after policy) {table : String} {row : Row}
    (hrow : row ∈ before table) : row ∈ after table := by
  cases hadds with
  | expiration hafter => exact hafter ▸ mem_insert.mpr (Or.inl (mem_insert.mpr (Or.inl hrow)))
  | expression hafter => exact hafter ▸ mem_insert.mpr (Or.inl (mem_insert.mpr (Or.inl hrow)))

/-- A policy is inserted, then a row of another table, and then the policy is made to refer to
it. -/
theorem insert_insert_update {db : Database} {policy other : Row} {table column : String}
    {value : PgValue} {uid : Int} (hne : table ≠ "policies")
    (huid : policy.lookup "uid" = some (some (.int4 uid)))
    (hdb : (db.insert "policies" policy).Satisfies Schema.initial) :
    ((db.insert "policies" policy).insert table other).update "policies" column value uid =
      (db.insert table other).insert "policies" (policy.set column value) := by
  have hfresh := hdb.fresh (by simp [Schema.initial] : Schema.policies ∈ _) (.head _) huid
  rw [insert_comm hne.symm]
  refine update_insert huid fun row hrow => hfresh row ?_
  rwa [insert_of_ne hne.symm] at hrow

/-- A row that is found by its uid is still found where rows have been added. -/
theorem queryOne_mono {table : Table} {uid : Int} (hclient : client.Serves before)
    (hrows : ∀ table, ∀ row ∈ before table, row ∈ after table)
    (hdb : after.Satisfies Schema.initial) (htable : table ∈ Schema.initial)
    (hunique : ["uid"] ∈ table.unique)
    (hquery : client.queryOne ⟨table.name, "uid"⟩ (.int4 uid) = .ok row) {later : Client}
    (hlater : later.Serves after) :
    later.queryOne ⟨table.name, "uid"⟩ (.int4 uid) = .ok row := by
  have hselected := hclient.mem.mp (Client.mem_of_queryOne hquery)
  exact hlater.queryOne_eq (hdb.select_eq htable hunique
    (hrows _ _ (Database.mem_of_mem_select hselected)) (Database.lookup_of_mem_select hselected))

/-- A row that is decoded over one connection is decoded to the same policy over all, also where
rows have been added. -/
theorem decodesTo_of_fromRow (hclient : client.Serves before)
    (hrows : ∀ table, ∀ row ∈ before table, row ∈ after table)
    (hdb : after.Satisfies Schema.initial) (hpolicy : policyFromRow client row = .ok policy) :
    DecodesTo after row policy := by
  intro later hlater
  obtain ⟨simpleKind, hsimple, hpolicy⟩ := bind_eq_ok.mp hpolicy
  obtain ⟨kind, hkind, hpolicy⟩ := bind_eq_ok.mp hpolicy
  have hlaterKind : policyKindFromRow later row simpleKind = .ok kind := by
    cases simpleKind with
    | passwordStrength => exact hkind
    | passwordExpiry =>
        obtain ⟨id, hid, hkind⟩ := bind_eq_ok.mp hkind
        obtain ⟨found, hfound, hage⟩ := bind_eq_ok.mp hkind
        have hquery := @queryOne_mono before after client found Schema.passwordExpirationPolicies id
          hclient hrows hdb (by simp [Schema.initial]) (.head _) hfound later hlater
        exact bind_eq_ok.mpr ⟨id, hid, bind_eq_ok.mpr ⟨found, hquery, hage⟩⟩
    | expression =>
        obtain ⟨id, hid, hkind⟩ := bind_eq_ok.mp hkind
        obtain ⟨found, hfound, hsource⟩ := bind_eq_ok.mp hkind
        have hquery := @queryOne_mono before after client found Schema.expressionPolicies id
          hclient hrows hdb (by simp [Schema.initial]) (.head _) hfound later hlater
        exact bind_eq_ok.mpr ⟨id, hid, bind_eq_ok.mpr ⟨found, hquery, hsource⟩⟩
  exact bind_eq_ok.mpr ⟨simpleKind, hsimple, bind_eq_ok.mpr ⟨kind, hlaterKind, hpolicy⟩⟩

theorem StoresPolicy.mono (hstores : StoresPolicy before policy)
    (hrows : ∀ table, ∀ row ∈ before table, row ∈ after table)
    (hdb : after.Satisfies Schema.initial) : StoresPolicy after policy := by
  obtain ⟨row, hrow, hdecodes⟩ := hstores
  exact ⟨row, hrows _ _ hrow, decodesTo_of_fromRow before.client_serves hrows hdb
    (hdecodes _ before.client_serves)⟩

/-- A policy that has been added is decoded, with no reference that is null. -/
theorem AddsPolicy.stores (hadds : AddsPolicy before after policy)
    (hdb : after.Satisfies Schema.initial) : StoresPolicy after policy := by
  cases hadds with
  | @expiration uid sub maxAge slug hafter =>
      subst hafter
      refine ⟨_, mem_insert.mpr (Or.inr ⟨rfl, rfl⟩), fun client hclient => ?_⟩
      have hselect := hdb.select_eq (by simp [Schema.initial] :
        Schema.passwordExpirationPolicies ∈ _) (.head _)
        (mem_insert.mpr (Or.inl (mem_insert.mpr (Or.inr ⟨rfl, rfl⟩))))
        (rfl : (expirationRow sub maxAge).lookup "uid" = some (some (.int4 sub)))
      have hquery : client.queryOne passwordExpirationById (.int4 sub) =
          .ok (expirationRow sub maxAge) := hclient.queryOne_eq hselect
      refine bind_eq_ok.mpr ⟨.passwordExpiry, rfl, bind_eq_ok.mpr ⟨_, ?_, rfl⟩⟩
      exact bind_eq_ok.mpr ⟨sub, rfl, bind_eq_ok.mpr ⟨_, hquery, rfl⟩⟩
  | @expression uid sub slug source hafter =>
      subst hafter
      refine ⟨_, mem_insert.mpr (Or.inr ⟨rfl, rfl⟩), fun client hclient => ?_⟩
      have hselect := hdb.select_eq (by simp [Schema.initial] :
        Schema.expressionPolicies ∈ _) (.head _)
        (mem_insert.mpr (Or.inl (mem_insert.mpr (Or.inr ⟨rfl, rfl⟩))))
        (rfl : (expressionRow sub source).lookup "uid" = some (some (.int4 sub)))
      have hquery : client.queryOne expressionById (.int4 sub) =
          .ok (expressionRow sub source) := hclient.queryOne_eq hselect
      refine bind_eq_ok.mpr ⟨.expression, rfl, bind_eq_ok.mpr ⟨_, ?_, rfl⟩⟩
      exact bind_eq_ok.mpr ⟨sub, rfl, bind_eq_ok.mpr ⟨_, hquery, rfl⟩⟩

/-- The row of a policy has the value that the query asks for. -/
theorem DecodesTo.lookup (hdecodes : DecodesTo db row policy) {query : PolicyQuery}
    (hfinds : query.finds policy = true) :
    row.lookup query.select.1.column = some (some query.select.2) := by
  obtain ⟨_, _, hpolicy⟩ := bind_eq_ok.mp (hdecodes _ db.client_serves)
  obtain ⟨_, _, hpolicy⟩ := bind_eq_ok.mp hpolicy
  obtain ⟨uid, huid, hpolicy⟩ := bind_eq_ok.mp hpolicy
  obtain ⟨slug, hslug, hpolicy⟩ := bind_eq_ok.mp hpolicy
  cases hpolicy
  cases query with
  | uid value =>
      obtain rfl : uid = value := of_decide_eq_true hfinds
      exact Row.get_int4_eq_some_iff.mp (Row.load_eq_ok_iff.mp huid)
  | slug value =>
      obtain rfl : slug = value := of_decide_eq_true hfinds
      exact Row.get_text_eq_some_iff.mp (Row.load_eq_ok_iff.mp hslug)

/-- A policy that is stored is found. -/
theorem StoresPolicy.found (hstores : StoresPolicy db policy)
    (hdb : db.Satisfies Schema.initial) (hclient : client.Serves db) {query : PolicyQuery}
    (hfinds : query.finds policy = true) : findPolicy client query = .ok (some policy) := by
  obtain ⟨row, hrow, hdecodes⟩ := hstores
  have hselect : db.select query.select.1 query.select.2 = [row] := by
    cases query with
    | uid value =>
        exact hdb.select_eq (by simp [Schema.initial] : Schema.policies ∈ _) (.head _) hrow
          (hdecodes.lookup hfinds)
    | slug value =>
        exact hdb.select_eq (by simp [Schema.initial] : Schema.policies ∈ _)
          (.tail _ (.head _)) hrow (hdecodes.lookup hfinds)
  rw [findPolicy, findRow_eq hclient hselect, hdecodes client hclient]
  rfl

/-- No two policies that are stored are found by the same query. -/
theorem StoresPolicy.unique (hstores : StoresPolicy db policy)
    (hother : StoresPolicy db other) (hdb : db.Satisfies Schema.initial) {query : PolicyQuery}
    (hfinds : query.finds policy = true) (hfindsOther : query.finds other = true) :
    other = policy := by
  have hfound := hother.found hdb db.client_serves hfindsOther
  rw [hstores.found hdb db.client_serves hfinds] at hfound
  cases hfound
  rfl

/-- A policy that is found is stored. -/
theorem stores_of_found (hdb : db.Satisfies Schema.initial) (hclient : client.Serves db)
    {query : PolicyQuery} (hfound : findPolicy client query = .ok (some policy)) :
    StoresPolicy db policy := by
  obtain ⟨row, hrow, _, hpolicy⟩ := findRow_eq_some hclient hfound
  have htable : query.select.1.table = "policies" := by cases query <;> rfl
  rw [htable] at hrow
  exact ⟨row, hrow, decodesTo_of_fromRow hclient (fun _ _ hmem => hmem) hdb hpolicy⟩

end Stored

end Authust
