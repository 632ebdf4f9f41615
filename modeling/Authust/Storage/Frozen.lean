import Authust.Model.Data

/-! # Recorded and frozen storage

`ProxyStorage` records every datum that a traversal looks up, under its identifier and
under the queries that find it; `DummyStorage` answers later lookups from that record
alone. A map is an association list whose first entry for a key is the current one.
-/

namespace Authust

/-- `ExportedData`: the two maps of one recorded kind of datum. -/
structure ExportedData (Query D : Type) where
  data : List (Int × D)
  query : List (Query × Int)

namespace ExportedData

variable {Query D : Type}

/-- The maps of a new `ProxyStorage`. -/
def empty : ExportedData Query D where
  data := []
  query := []

/-- `ProxyStorage::insert_data`: `queries` are the queries created from the datum. -/
def insertData (record : ExportedData Query D) (id : Int) (queries : List Query) (data : D) :
    ExportedData Query D where
  query := queries.foldl (fun map query => (query, id) :: map) record.query
  data := (id, data) :: record.data

section Dummy

variable [BEq Query]

/-- `DummyStorage::find_id`; `none` where it panics. -/
def findId (record : ExportedData Query D) (query : Query) : Option Int :=
  record.query.lookup query

/-- `DummyStorage::find_optional`: the outer `none` is the panic of `find_id`. -/
def findOptional (record : ExportedData Query D) (query : Query) : Option (Option D) :=
  (record.findId query).map fun id => record.data.lookup id

end Dummy

section Recorded

variable {Query D : Type} [DecidableEq Query] {record : ExportedData Query D} {id : Int}
  {queries : List Query} {data : D} {uidQuery : Int → Query}

/-- The uid queries that are recorded lead to the datum of that uid. -/
def Keyed (record : ExportedData Query D) (uidQuery : Int → Query) : Prop :=
  ∀ uid found, record.findId (uidQuery uid) = some found → found = uid

theorem keyed_empty : Keyed (empty : ExportedData Query D) uidQuery := by
  intro uid found hfound
  cases hfound

theorem findId_insertData (query : Query) :
    (record.insertData id queries data).findId query =
      if query ∈ queries then some id else record.findId query := by
  unfold findId insertData
  generalize record.query = map
  induction queries generalizing map with
  | nil => simp
  | cons first rest ih =>
      simp only [List.foldl_cons, ih, List.mem_cons]
      by_cases hrest : query ∈ rest
      · simp [hrest]
      · by_cases hfirst : query = first
        · simp [hfirst]
        · simp [hrest, hfirst, List.lookup_cons, beq_eq_false_iff_ne.mpr hfirst]

omit [DecidableEq Query] in
theorem data_insertData :
    (record.insertData id queries data).data = (id, data) :: record.data := rfl

variable (hqueries : ∀ uid, uidQuery uid ∈ queries ↔ uid = id)

include hqueries

theorem Keyed.insertData (hkeyed : record.Keyed uidQuery) :
    (record.insertData id queries data).Keyed uidQuery := by
  intro uid found hfound
  rw [findId_insertData] at hfound
  split at hfound
  next hmem =>
    cases hfound
    exact ((hqueries uid).mp hmem).symm
  next => exact hkeyed uid found hfound

/-- What has been recorded is found by its uid. -/
theorem findOptional_insertData_self :
    (record.insertData id queries data).findOptional (uidQuery id) = some (some data) := by
  have hid : (record.insertData id queries data).findId (uidQuery id) = some id := by
    rw [findId_insertData, if_pos ((hqueries id).mpr rfl)]
  rw [findOptional, hid, Option.map_some, data_insertData, List.lookup_cons_self]

/-- Another datum hides nothing. -/
theorem Keyed.findOptional_insertData_of_ne (hkeyed : record.Keyed uidQuery) {uid : Int}
    (hne : uid ≠ id) : (record.insertData id queries data).findOptional (uidQuery uid) =
      record.findOptional (uidQuery uid) := by
  have hid : (record.insertData id queries data).findId (uidQuery uid) =
      record.findId (uidQuery uid) := by
    rw [findId_insertData, if_neg fun hmem => hne ((hqueries uid).mp hmem)]
  unfold findOptional
  rw [hid]
  apply Option.map_congr
  intro found hfound
  rw [hkeyed uid found hfound, data_insertData, List.lookup_cons, beq_eq_false_iff_ne.mpr hne]

end Recorded

end ExportedData

/-- The storages behind one `FreezedStorage` (or, while recording, one `ProxiedStorage`). -/
structure FreezedStorage where
  flow : ExportedData FlowQuery Flow
  stage : ExportedData StageQuery Stage
  policy : ExportedData PolicyQuery Policy
  prompt : ExportedData PromptQuery Prompt

def FreezedStorage.empty : FreezedStorage where
  flow := .empty
  stage := .empty
  policy := .empty
  prompt := .empty

end Authust
