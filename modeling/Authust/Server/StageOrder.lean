import Authust.Server.Progress
import Authust.Storage.FlowRows

/-! # The order of the stages

The entries of a flow are loaded in the order in which the database answers their rows, and
an execution runs through them in that order.
-/

namespace Authust

open Postgres

/-- The rows come in non-decreasing ordering. -/
def InOrder (rows : List Row) : Prop :=
  rows.Pairwise fun first second => ∀ ordering later,
    first.lookup "ordering" = some (some (.int2 ordering)) →
      second.lookup "ordering" = some (some (.int2 later)) → ordering ≤ later

/-- No two rows have the same ordering. -/
def DistinctOrderings (rows : List Row) : Prop :=
  rows.Pairwise fun first second => first.lookup "ordering" ≠ second.lookup "ordering"

/-- The stage an execution stands at after `count` calls of `complete_current`. -/
def FlowExecution.stageAfter (execution : FlowExecution) (count : Nat) :
    Option (DataRef StageQuery) :=
  (FlowExecution.completeCurrent^[count] execution).getEntry.map fun entry => entry.2.stage

namespace FlowExecution

theorem completeCurrent_flow (execution : FlowExecution) :
    execution.completeCurrent.flow = execution.flow :=
  congrArg Plan.flow execution.completeCurrent_plan

theorem completeCurrent_index (execution : FlowExecution) :
    execution.completeCurrent.currentEntryIdx =
      if execution.currentEntryIdx + 1 < execution.flow.entries.length then
        execution.currentEntryIdx + 1 else execution.currentEntryIdx := by
  unfold completeCurrent
  split
  next entry hentry => rw [if_pos (List.getElem?_eq_some_iff.mp hentry).1]
  next hnone => rw [if_neg (Nat.not_lt.mpr (List.getElem?_eq_none_iff.mp hnone))]

/-- Executions of flows with the same entries run through the same stages. -/
theorem stageAfter_congr {first second : FlowExecution}
    (hentries : first.flow.entries = second.flow.entries)
    (hindex : first.currentEntryIdx = second.currentEntryIdx) (count : Nat) :
    first.stageAfter count = second.stageAfter count := by
  induction count generalizing first second with
  | zero => simp [stageAfter, getEntry, hentries, hindex]
  | succ count ih =>
      refine ih ?_ ?_
      · rw [completeCurrent_flow, completeCurrent_flow, hentries]
      · rw [completeCurrent_index, completeCurrent_index, hentries, hindex]

end FlowExecution

section Loaded

variable {client other : Client} {db : Database} {row : Row} {flow : Flow}

/-- What an entry is loaded as does not depend on the order of any rows. -/
theorem entryFromRow_unique (hdb : db.Satisfies Schema.initial) (hclient : client.Serves db)
    (hother : other.Serves db) (hrow : row ∈ db "flow_entries") {entry entry' : FlowEntry}
    (hentry : entryFromRow client row = some entry)
    (hentry' : entryFromRow other row = some entry') : entry = entry' := by
  obtain ⟨_, ordering, stage, _, hordering, hstage, hloaded⟩ :=
    entryFromRow_eq_some_iff hdb hclient hrow
  obtain ⟨_, ordering', stage', _, hordering', hstage', hloaded'⟩ :=
    entryFromRow_eq_some_iff hdb hother hrow
  rw [hordering] at hordering'
  rw [hstage] at hstage'
  cases hordering'
  cases hstage'
  rw [((hloaded entry).mp hentry).2, ((hloaded' entry').mp hentry').2]

/-- The orderings of the loaded entries are those of the rows, in the order of the rows. -/
theorem getEntries_orderings (hdb : db.Satisfies Schema.initial) (hclient : client.Serves db)
    {uid : Int} {entries : List FlowEntry} (hentries : getEntries client uid = some entries) :
    (client entriesByFlow (.int4 uid)).map (fun row => row.lookup "ordering") =
      entries.map fun entry => some (some (.int2 entry.ordering)) := by
  have hmem : ∀ row ∈ client entriesByFlow (.int4 uid), row ∈ db "flow_entries" :=
    fun row hrow => Database.mem_of_mem_select (hclient.mem.mp hrow)
  rw [← List.forall₂_eq_eq_eq, List.forall₂_map_left_iff, List.forall₂_map_right_iff]
  refine ((List.forall₂_and_left _ _).mpr ⟨hmem, mapM_eq_some_iff.mp hentries⟩).imp ?_
  rintro row entry ⟨hrow, hdecoded⟩
  exact (carriesEntry_of_decoded hdb hclient hrow hdecoded).ordering

theorem sorted_iff_inOrder (hdb : db.Satisfies Schema.initial) (hclient : client.Serves db)
    {uid : Int} {entries : List FlowEntry} (hentries : getEntries client uid = some entries) :
    entries.Pairwise (fun first second => first.ordering ≤ second.ordering) ↔
      InOrder (client entriesByFlow (.int4 uid)) := by
  have horderings := getEntries_orderings hdb hclient hentries
  have hrows : InOrder (client entriesByFlow (.int4 uid)) ↔
      ((client entriesByFlow (.int4 uid)).map fun row => row.lookup "ordering").Pairwise
        fun first second => ∀ ordering later, first = some (some (.int2 ordering)) →
          second = some (some (.int2 later)) → ordering ≤ later := by
    rw [List.pairwise_map]
    rfl
  rw [hrows, horderings, List.pairwise_map]
  simp

/-- Entries with distinct orderings are loaded the same, in whichever order their rows come. -/
theorem getEntries_unique (hdb : db.Satisfies Schema.initial) (hclient : client.Serves db)
    (hother : other.Serves db) {uid : Int} {entries entries' : List FlowEntry}
    (hentries : getEntries client uid = some entries)
    (hentries' : getEntries other uid = some entries')
    (hdistinct : DistinctOrderings (db.select entriesByFlow (.int4 uid)))
    (horder : InOrder (client entriesByFlow (.int4 uid)))
    (horder' : InOrder (other entriesByFlow (.int4 uid))) : entries = entries' := by
  have hperm : entries.Perm entries' := by
    rw [eq_filterMap_of_mapM hentries, eq_filterMap_of_mapM hentries']
    have hsame : ∀ row ∈ client entriesByFlow (.int4 uid),
        entryFromRow client row = entryFromRow other row := by
      intro row hrow
      have hselected := hclient.mem.mp hrow
      obtain ⟨entry, hentry⟩ := exists_mapM_eq_some_iff.mp ⟨_, hentries⟩ row hrow
      obtain ⟨entry', hentry'⟩ :=
        exists_mapM_eq_some_iff.mp ⟨_, hentries'⟩ row (hother.mem.mpr hselected)
      rw [hentry, hentry', entryFromRow_unique hdb hclient hother
        (Database.mem_of_mem_select hselected) hentry hentry']
    rw [List.filterMap_congr hsame]
    exact ((hclient _ _).trans (hother _ _).symm).filterMap _
  have hne : entries.Pairwise fun first second => first.ordering ≠ second.ordering := by
    have hrows : DistinctOrderings (client entriesByFlow (.int4 uid)) :=
      ((hclient _ _).pairwise_iff fun hne => hne.symm).mpr hdistinct
    rw [DistinctOrderings, ← List.pairwise_map, getEntries_orderings hdb hclient hentries,
      List.pairwise_map] at hrows
    simpa using hrows
  have hne' : entries'.Pairwise fun first second => first.ordering ≠ second.ordering :=
    (hperm.pairwise_iff fun hne => hne.symm).mp hne
  have hsorted := (sorted_iff_inOrder hdb hclient hentries).mpr horder
  have hsorted' := (sorted_iff_inOrder hdb hother hentries').mpr horder'
  have hstrict : ∀ {first second : FlowEntry},
      first.ordering ≤ second.ordering ∧ first.ordering ≠ second.ordering →
        first.ordering < second.ordering := fun ⟨hle, hne⟩ => lt_of_le_of_ne hle hne
  refine hperm.eq_of_pairwise ?_ ((hsorted.and hne).imp hstrict) ((hsorted'.and hne').imp hstrict)
  intro first second _ _ hlt hgt
  exact absurd hlt (Int.not_lt.mpr (Int.le_of_lt hgt))

/-- The entries of a loaded flow are sorted exactly where their rows come in order; where
they do, and the orderings are distinct, the flow runs through the same stages for every order
of the rows. -/
theorem entries_sorted_iff_inOrder (hdb : db.Satisfies Schema.initial) (hclient : client.Serves db)
    (hrow : row ∈ db "flows") (hflow : flowFromRow client row = some flow) :
    (flow.entries.Pairwise (fun first second => first.ordering ≤ second.ordering) ↔
        InOrder (client entriesByFlow (.int4 flow.uid))) ∧
      (InOrder (client entriesByFlow (.int4 flow.uid)) →
        DistinctOrderings (db.select entriesByFlow (.int4 flow.uid)) →
          ∀ (other : Client) (loaded : Flow), other.Serves db →
            flowFromRow other row = some loaded →
              InOrder (other entriesByFlow (.int4 flow.uid)) →
                loaded.entries = flow.entries ∧ ∀ key storage now key' storage' now' count,
                  (FlowExecution.new key loaded storage now).stageAfter count =
                    (FlowExecution.new key' flow storage' now').stageAfter count) := by
  obtain ⟨uid, _, _, _, _, huid, _, _, _, _, hloaded⟩ := flowFromRow_eq_some_iff hdb hclient hrow
  obtain ⟨entries, _, hentries, rfl⟩ := (hloaded flow).mp hflow
  refine ⟨sorted_iff_inOrder hdb hclient hentries, ?_⟩
  intro horder hdistinct other loaded hother hflow' horder'
  obtain ⟨uid', _, _, _, _, huid', _, _, _, _, hloaded'⟩ := flowFromRow_eq_some_iff hdb hother hrow
  obtain ⟨entries', _, hentries', rfl⟩ := (hloaded' loaded).mp hflow'
  rw [huid] at huid'
  cases huid'
  have hsame : entries' = entries :=
    (getEntries_unique hdb hclient hother hentries hentries' hdistinct horder horder').symm
  refine ⟨hsame, fun _ _ _ _ _ _ count => ?_⟩
  exact FlowExecution.stageAfter_congr (by exact hsame) (by rfl) count

end Loaded

section OrderSamples

/-- A connection that answers the rows last to first. -/
def reversedClient : Client := fun statement value =>
  ((sampleDatabase []).select statement value).reverse

theorem reversedClient_serves : reversedClient.Serves (sampleDatabase []) :=
  fun _ _ => List.reverse_perm _

theorem reversed_run : (flowFromRow reversedClient sampleFlowRow).map
    (fun flow => flow.entries.map fun entry => (entry.ordering, entry.stage)) =
      some [(90, .uid 3), (60, .uid 2), (30, .uid 1)] := by
  decide +kernel

/-- The login stage comes first when its row does. -/
theorem reversed_rows_unsorted : ∃ (db : Database) (client : Client) (row : Row) (flow : Flow),
    db.Satisfies Schema.initial ∧ client.Serves db ∧ row ∈ db "flows" ∧
      flowFromRow client row = some flow ∧
        flow.entries.map FlowEntry.stage = [.uid 3, .uid 2, .uid 1] ∧
          ¬ flow.entries.Pairwise fun first second => first.ordering ≤ second.ordering := by
  obtain ⟨flow, hflow, hentries⟩ := Option.map_eq_some_iff.mp reversed_run
  have hstages := congrArg (List.map Prod.snd) hentries
  have horderings := congrArg (List.map Prod.fst) hentries
  rw [List.map_map] at hstages horderings
  refine ⟨_, reversedClient, sampleFlowRow, flow, sampleDatabase_satisfies, reversedClient_serves,
    by decide +kernel, hflow, hstages, ?_⟩
  intro hsorted
  have hsortedMap := List.pairwise_map.mpr hsorted
  rw [show flow.entries.map FlowEntry.ordering = [90, 60, 30] from horderings] at hsortedMap
  exact absurd hsortedMap (by decide)

theorem initial_run :
    (flowFromRow (sampleDatabase []).client sampleFlowRow).map Flow.uid = some 1 := by
  decide +kernel

/-- The entries of the initial data are loaded in the order of their rows. -/
theorem initial_entries_sorted : ∃ flow,
    flowFromRow (sampleDatabase []).client sampleFlowRow = some flow ∧
      flow.entries.Pairwise fun first second => first.ordering ≤ second.ordering := by
  obtain ⟨flow, hflow, huid⟩ := Option.map_eq_some_iff.mp initial_run
  have hordered := entries_sorted_iff_inOrder sampleDatabase_satisfies
    (Database.client_serves (sampleDatabase [])) (by decide +kernel) hflow
  refine ⟨flow, hflow, hordered.1.mpr ?_⟩
  rw [huid]
  simp [InOrder, Database.client, Database.select, sampleDatabase, entriesByFlow, List.lookup_cons]

end OrderSamples

end Authust
