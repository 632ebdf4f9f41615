import Authust.Server.Progress

/-! # Where a pending user comes from

Whoever is pending on an execution was found by an Identification submission, and nobody
has taken the place since. The mark of authentication was set after that.
-/

namespace Authust

open Coop Coop.Task Coop.Machine

variable {X : Externals}

/-- A submission to an Identification stage of the execution has found the user of a row
through one of the fields the stage enables, and makes the user pending. -/
inductive Identified (calls : Nat → Call X) (past : Log X) (e : ExecId) (row : UserRow)
    (entry : Logged (sig X) (World X)) : Prop
  | intro {request : Request X} {admitted lookup : History X} {form : Value} {session : Session}
      {context : CheckContext} {index : Nat} {taken : FlowEntry} {stage : Stage}
      {password : Option (DataRef StageQuery)} {userFields : List UserField} {text : String}
      {key : UserKey} {asked : Logged (sig X) (World X)}
      (hcall : calls entry.who = .postFlow request)
      (hown : own entry.who past = admitted ++ entering e index taken stage ++ lookup)
      (hadmission : Admission request admitted form session e context)
      (hkind : stage.kind = .identification password userFields)
      (htext : strFromField "uid" form = .ok text)
      (hkey : EnabledKey X text (userFields.contains .name) (userFields.contains .email)
        (userFields.contains .uuid) key)
      (hasked : asked ∈ past) (hwho : asked.who = entry.who)
      (hquery : asked.event = ⟨.queryUser key, .ok (some row)⟩) (hrow : row ∈ asked.before.users)
      (hmatches : key.matches row = true)
      (hevent :
        entry.event = ⟨.useMutContext e (.setPending (.ofPartialUser row.toPartialUser)), ()⟩) :
      Identified calls past e row entry

/-- The user of the row is pending on the execution, and the operation marks the user. -/
inductive Marks (e : ExecId) (row : UserRow) (entry : Logged (sig X) (World X)) : Prop
  | intro {execution : FlowExecution} {pending : PendingUser}
      (hop : entry.event.op = .useMutContext e .authenticate)
      (hheap : entry.before.heap[e]? = some execution)
      (hpending : execution.context.pending = some pending) (huid : pending.uid = row.uid) :
      Marks e row entry

/-- The identification that a pending user goes back to. -/
inductive PendingSince (calls : Nat → Call X) (log : Log X) (e : ExecId) (pending : PendingUser) :
    Prop
  | intro {past since : Log X} {entry : Logged (sig X) (World X)} {row : UserRow}
      (hlog : log = past ++ entry :: since) (hidentified : Identified calls past e row entry)
      (hunreplaced : ∀ later ∈ since, ∀ user, later.event.op ≠ .useMutContext e (.setPending user))
      (hpending : pending = { PendingUser.ofPartialUser row.toPartialUser with
        authenticated := pending.authenticated })
      (hmarked : pending.authenticated = true → ∃ later ∈ since, Marks e row later) :
      PendingSince calls log e pending

section Since

variable {calls : Nat → Call X} {log : Log X} {e : ExecId} {pending : PendingUser}
  {entry : Logged (sig X) (World X)}

theorem PendingSince.snoc (hsince : PendingSince calls log e pending)
    (hentry : ∀ user, entry.event.op ≠ .useMutContext e (.setPending user)) :
    PendingSince calls (log ++ [entry]) e pending := by
  cases hsince with
  | @intro past since identified row hlog hidentified hunreplaced hpending hmarked =>
      refine .intro (by rw [hlog, List.append_assoc, List.cons_append]) hidentified ?_ hpending ?_
      · intro later hmem user
        rcases List.mem_append.mp hmem with hmem | hmem
        · exact hunreplaced later hmem user
        · rw [List.mem_singleton.mp hmem]
          exact hentry user
      · intro hauthenticated
        obtain ⟨later, hmem, hmarks⟩ := hmarked hauthenticated
        exact ⟨later, List.mem_append_left _ hmem, hmarks⟩

theorem PendingSince.mark (hsince : PendingSince calls log e pending) {execution : FlowExecution}
    (hop : entry.event.op = .useMutContext e .authenticate)
    (hheap : entry.before.heap[e]? = some execution)
    (hpending : execution.context.pending = some pending) :
    PendingSince calls (log ++ [entry]) e { pending with authenticated := true } := by
  cases hsince with
  | @intro past since identified row hlog hidentified hunreplaced hsame hmarked =>
      have huid : pending.uid = row.uid := by
        rw [hsame]
        rfl
      refine .intro (by rw [hlog, List.append_assoc, List.cons_append]) hidentified ?_ ?_ ?_
      · intro later hmem user
        rcases List.mem_append.mp hmem with hmem | hmem
        · exact hunreplaced later hmem user
        · rw [List.mem_singleton.mp hmem, hop]
          simp
      · rw [hsame]
      · exact fun _ => ⟨entry, by simp, .intro hop hheap hpending huid⟩

end Since

/-- Every pending user goes back to an identification. -/
def Originated (calls : Nat → Call X) (state : World X) (log : Log X) : Prop :=
  ∀ (e : ExecId) (execution : FlowExecution) pending, state.heap[e]? = some execution →
    execution.context.pending = some pending → PendingSince calls log e pending

section Originated

variable {calls : Nat → Call X} {state after : World X} {log : Log X} {who : Nat}
  {event : Event (sig X)}

/-- A user is made pending by an identification. -/
theorem identified_of_setPending {e : ExecId} {user : PendingUser} {call : Call X}
    (hexecuted : (server X).Executed log) (hcall : calls who = call)
    (hjustified : Justified call (own who log) (.useMutContext e (.setPending user))) :
    ∃ row, user = .ofPartialUser row.toPartialUser ∧
      Identified calls log e row ⟨who, state, ⟨.useMutContext e (.setPending user), ()⟩⟩ := by
  generalize hown : own who log = history at hjustified
  cases hjustified with
  | plain hplain => cases hplain
  | @setPending request admitted lookup form session e context index entry stage password userFields
      text found hadmission hkind htext hlookup =>
      obtain ⟨key, hkey, row, hmem, rfl⟩ := answeredBy_of_lookupUser hlookup
      have hasked : ⟨.queryUser key, .ok (some row)⟩ ∈ own who log := by
        rw [hown]
        exact List.mem_append_right _ hmem
      obtain ⟨before, after, hentry, hexec⟩ := executed_of_own hexecuted hasked
      obtain ⟨hrow, hmatches⟩ := exec_queryUser hexec
      exact ⟨row, rfl, .intro hcall hown hadmission hkind htext hkey hentry rfl rfl
        hrow hmatches rfl⟩

theorem originated_exec {next : event.op.Res → Task (sig X) (Except ApiErrorKind Response)}
    (horiginated : Originated calls state log) (hissued : IssuedBy calls log)
    (hpath : Path (handle X (calls who)) (own who log) (@Coop.Task.call (sig X) _ event.op next))
    (hexec : (server X).Exec who state event after) :
    Originated calls after (log ++ [⟨who, state, event⟩]) := by
  intro e execution pending hheap hpending
  have hjustified := justified_of_path hpath
  by_cases hset : ∃ user, event.op = .useMutContext e (.setPending user)
  · obtain ⟨user, hop⟩ := hset
    obtain ⟨op, res⟩ := event
    cases hop
    obtain ⟨row, rfl, hidentified⟩ : ∃ row, user = .ofPartialUser row.toPartialUser ∧
        Identified calls log e row ⟨who, state, ⟨.useMutContext e (.setPending user), ()⟩⟩ :=
      identified_of_setPending hissued.executed rfl hjustified
    have hsame : pending = .ofPartialUser row.toPartialUser := by
      obtain ⟨old, _, hafter⟩ := exec_useMutContext hexec
      rw [hafter] at hheap
      cases hheap
      cases hpending
      rfl
    rw [hsame]
    exact .intro rfl hidentified (by simp) rfl (by simp [PendingUser.ofPartialUser])
  · rw [not_exists] at hset
    rcases (exec_step hexec).execution hheap with hbefore | rfl | ⟨update, old, rfl, hold, rfl⟩ |
        ⟨old, rfl, hold, rfl⟩
    · exact (horiginated e execution pending hbefore hpending).snoc hset
    · generalize own who log = history at hjustified
      generalize calls who = call at hjustified
      cases hjustified with
      | plain hplain => cases hplain
      | insertExecution _ _ _ => cases hpending
    · cases update with
      | setPending user => exact absurd rfl (hset user)
      | setError error => exact (horiginated e old pending hold hpending).snoc hset
      | authenticate =>
          obtain ⟨copied, hcopied, rfl⟩ := Option.map_eq_some_iff.mp hpending
          exact (horiginated e old copied hold hcopied).mark rfl hold hcopied
    · rw [FlowExecution.completeCurrent_context] at hpending
      exact (horiginated e old pending hold hpending).snoc hset

theorem originated_preserved {start : World X} :
    Preserved desk (fun who => handle X (calls who)) start (Originated calls) where
  exec := fun horiginated hissued hpath _ hexec => originated_exec horiginated hissued hpath hexec
  release := fun horiginated => horiginated
  moves := by
    intro state after log horiginated hmoves
    unfold Originated
    rw [hmoves.heap]
    exact horiginated

theorem originated_initial (hinitial : state.Initial) : Originated calls state [] := by
  intro e execution pending hheap
  simp [hinitial.heap] at hheap

/-- Of calls served one after another, everybody pending was identified, at the end and before
every operation. -/
theorem served_originated {start : World X} {runs : List (Call X × Reply X)}
    (hstart : start.Initial)
    (hrun : OneByOne start runs state) : Originated (callAt runs) state (logOf runs) ∧
      Throughout (fun past entry => Originated (callAt runs) entry.before past) (logOf runs) :=
  (hrun.preserves originated_preserved.throughout ⟨originated_initial hstart, throughout_nil⟩
    (handle_callAt hrun)).1

end Originated

end Authust
