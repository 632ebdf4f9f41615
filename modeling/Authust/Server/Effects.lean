import Authust.Server.Flow

/-! # What the operations change

Every execution step of the machine is one of a few kinds. What holds of the state, of
the executions and of the private part of a request is read off that list.
-/

namespace Authust

open Coop Coop.Machine

variable {X : Externals}

/-- The events that may leave the state as it was. -/
def Observes : Event (sig X) → Bool
  | ⟨.addCookie _, _⟩ | ⟨.insertExecution _, _⟩ | ⟨.invalidateExecution _, _⟩
  | ⟨.useMutContext _ _, _⟩ | ⟨.completeCurrent _, _⟩ | ⟨.lockContext _, _⟩
  | ⟨.unlockContext _, _⟩ => false
  | ⟨.commit, .ok _⟩ | ⟨.insertSession _, .ok _⟩ | ⟨.updateSession _ _, .ok _⟩ => false
  | _ => true

/-- What one operation of the request `who` does to the state. -/
inductive Step (who : Nat) (w : World X) : Event (sig X) → World X → Prop
  | observe {event : Event (sig X)} (hobserves : Observes event = true) : Step who w event w
  | addCookie (token : X.Token) : Step who w ⟨.addCookie token, ()⟩
      { w with cookies := Function.update w.cookies who (some token) }
  | insertExecution (execution : FlowExecution) :
      Step who w ⟨.insertExecution execution, w.heap.length⟩
        { w with
          heap := w.heap ++ [execution]
          executions := Function.update w.executions execution.key (some w.heap.length) }
  | invalidateExecution (key : FlowKey) : Step who w ⟨.invalidateExecution key, ()⟩
      { w with executions := Function.update w.executions key none }
  | useMutContext {e : ExecId} {update : ContextUpdate} {execution : FlowExecution}
      (hheap : w.heap[e]? = some execution) (hlock : w.readLocked e = false) :
      Step who w ⟨.useMutContext e update, ()⟩
        (w.modifyExecution e fun execution => execution.useMutContext update)
  | completeCurrent {e : ExecId} {execution : FlowExecution}
      (hheap : w.heap[e]? = some execution) :
      Step who w ⟨.completeCurrent e, ()⟩ (w.modifyExecution e FlowExecution.completeCurrent)
  | lockContext (e : ExecId) : Step who w ⟨.lockContext e, ()⟩
      { w with readers := (who, e) :: w.readers }
  | unlockContext (e : ExecId) : Step who w ⟨.unlockContext e, ()⟩
      { w with readers := w.readers.erase (who, e) }
  | compile {uid : Int} {ast : Option X.Ast} (hasts : w.asts uid = none) :
      Step who w ⟨.optionallyGetWith uid (some ast), some ast⟩
        { w with asts := Function.update w.asts uid (some ast) }
  | commit : Step who w ⟨.commit, .ok ()⟩
      { w with
        sessions := SessionTable.applyUpdates w.sessions (w.transactions who)
        transactions := Function.update w.transactions who [] }
  | insertSession {sid : String} (hfresh : w.sessions sid = none) :
      Step who w ⟨.insertSession sid, .ok ()⟩ (w.setSession sid none)
  | updateSession (uid : Uuid) (sid : String) : Step who w ⟨.updateSession uid sid, .ok ()⟩
      { w with
        transactions := Function.update w.transactions who (w.transactions who ++ [(uid, sid)]) }

variable {moves : World X → World X → Prop} {who : Nat} {before after : World X}
  {event : Event (sig X)}

theorem exec_step (hexec : (machine X moves).Exec who before event after) :
    Step who before event after := by
  obtain ⟨choice, hexec⟩ := hexec
  obtain ⟨op, res⟩ := event
  simp only [machine] at hexec
  cases op with
  | addCookie token => cases hexec; exact .addCookie token
  | insertExecution execution => cases hexec; exact .insertExecution execution
  | invalidateExecution key => cases hexec; exact .invalidateExecution key
  | lockContext e => cases hexec; exact .lockContext e
  | unlockContext e => cases hexec; exact .unlockContext e
  | useMutContext e update =>
      -- the guard of the context is free, or the operation panics
      simp only [exec] at hexec
      split at hexec
      next hlocked => cases hexec
      next hlocked =>
        obtain ⟨execution, hheap, hresult⟩ := Option.map_eq_some_iff.mp hexec
        cases hresult
        exact .useMutContext hheap (by simpa using hlocked)
  | completeCurrent e =>
      obtain ⟨execution, hheap, hresult⟩ := Option.map_eq_some_iff.mp hexec
      cases hresult
      exact .completeCurrent hheap
  | optionallyGetWith uid init =>
      simp only [exec] at hexec
      split at hexec
      next => cases hexec; exact .observe rfl
      next ast hasts => cases hexec; exact .compile hasts
      next => cases hexec; exact .observe rfl
  | commit =>
      simp only [exec] at hexec
      split at hexec
      next => cases hexec; exact .observe rfl
      next => cases hexec; exact .commit
  | insertSession sid =>
      simp only [exec] at hexec
      split at hexec
      next => cases hexec; exact .observe rfl
      next => cases hexec; exact .observe rfl
      next hfresh => cases hexec; exact .insertSession hfresh
  | updateSession uid sid =>
      simp only [exec] at hexec
      split at hexec
      next => cases hexec; exact .observe rfl
      next => cases hexec; exact .updateSession uid sid
  | sampleSessionKey =>
      simp only [exec] at hexec
      split at hexec
      all_goals cases hexec; exact .observe rfl
  | connection =>
      simp only [exec] at hexec
      split at hexec
      all_goals cases hexec; exact .observe rfl
  | getFlow e | getKey e | readContext e | isCompleted e =>
      obtain ⟨execution, _, hresult⟩ := Option.map_eq_some_iff.mp hexec
      cases hresult
      exact .observe rfl
  | getEntry e =>
      obtain ⟨execution, _, hentry⟩ := Option.bind_eq_some_iff.mp hexec
      obtain ⟨entry, _, hresult⟩ := Option.map_eq_some_iff.mp hentry
      cases hresult
      exact .observe rfl
  | frozenStage e reference | frozenPolicy e reference =>
      obtain ⟨execution, _, hfrozen⟩ := Option.bind_eq_some_iff.mp hexec
      obtain ⟨found, _, hresult⟩ := Option.map_eq_some_iff.mp hfrozen
      cases hresult
      exact .observe rfl
  | panic message => cases hexec
  | addedCookie | now | cachedExecution key | verifyPassword hash password | transaction
  | prepareCached sql | queryUser key | queryPassword uid | querySession sid | liveFlow reference
  | liveStage reference | livePolicy reference | livePrompt reference =>
      cases hexec
      exact .observe rfl

namespace Step

/-- The executions after an operation. -/
theorem heap (hstep : Step who before event after) : after.heap = before.heap ∨
    (∃ execution, event = ⟨.insertExecution execution, before.heap.length⟩ ∧
      after.heap = before.heap ++ [execution]) ∨
    (∃ e update, event = ⟨.useMutContext e update, ()⟩ ∧
      after.heap = before.heap.modify e fun execution => execution.useMutContext update) ∨
    ∃ e, event = ⟨.completeCurrent e, ()⟩ ∧
      after.heap = before.heap.modify e FlowExecution.completeCurrent := by
  cases hstep with
  | insertExecution execution => exact Or.inr (Or.inl ⟨execution, rfl, rfl⟩)
  | useMutContext hheap hlock => exact Or.inr (Or.inr (Or.inl ⟨_, _, rfl, rfl⟩))
  | completeCurrent hheap => exact Or.inr (Or.inr (Or.inr ⟨_, rfl, rfl⟩))
  | _ => exact Or.inl rfl

/-- Where an execution came from: it was there, or the operation inserted or changed it. -/
theorem execution (hstep : Step who before event after) {e : ExecId} {execution : FlowExecution}
    (hafter : after.heap[e]? = some execution) : before.heap[e]? = some execution ∨
    event = ⟨.insertExecution execution, e⟩ ∨
    (∃ update old, event = ⟨.useMutContext e update, ()⟩ ∧ before.heap[e]? = some old ∧
      execution = old.useMutContext update) ∨
    ∃ old, event = ⟨.completeCurrent e, ()⟩ ∧ before.heap[e]? = some old ∧
      execution = old.completeCurrent := by
  rcases hstep.heap with heq | ⟨inserted, rfl, heq⟩ | ⟨e', update, rfl, heq⟩ | ⟨e', rfl, heq⟩
  · rw [heq] at hafter
    exact Or.inl hafter
  · rw [heq, List.getElem?_append] at hafter
    split at hafter
    next => exact Or.inl hafter
    next hlen =>
      rw [List.getElem?_singleton] at hafter
      split at hafter
      next hindex =>
        have hlast : e = before.heap.length :=
          Nat.le_antisymm (Nat.sub_eq_zero_iff_le.mp hindex) (Nat.le_of_not_lt hlen)
        cases hafter
        exact Or.inr (Or.inl (hlast ▸ rfl))
      next => cases hafter
  · rw [heq, List.getElem?_modify] at hafter
    obtain ⟨old, hold, hresult⟩ := Option.map_eq_some_iff.mp hafter
    split at hresult
    next hsame =>
      subst hsame
      exact Or.inr (Or.inr (Or.inl ⟨update, old, rfl, hold, hresult.symm⟩))
    next => exact Or.inl (hresult ▸ hold)
  · rw [heq, List.getElem?_modify] at hafter
    obtain ⟨old, hold, hresult⟩ := Option.map_eq_some_iff.mp hafter
    split at hresult
    next hsame =>
      subst hsame
      exact Or.inr (Or.inr (Or.inr ⟨old, rfl, hold, hresult.symm⟩))
    next => exact Or.inl (hresult ▸ hold)

/-- An execution stays, unless the operation changes it. -/
theorem execution_stays (hstep : Step who before event after) {e : ExecId}
    {execution : FlowExecution} (hbefore : before.heap[e]? = some execution) :
    after.heap[e]? = some execution ∨
    (∃ update, event = ⟨.useMutContext e update, ()⟩ ∧
      after.heap[e]? = some (execution.useMutContext update)) ∨
    event = ⟨.completeCurrent e, ()⟩ ∧ after.heap[e]? = some execution.completeCurrent := by
  rcases hstep.heap with heq | ⟨inserted, rfl, heq⟩ | ⟨e', update, rfl, heq⟩ | ⟨e', rfl, heq⟩
  · rw [heq]
    exact Or.inl hbefore
  · rw [heq, List.getElem?_append_left (List.getElem?_eq_some_iff.mp hbefore).1]
    exact Or.inl hbefore
  · by_cases hsame : e' = e
    · subst hsame
      refine Or.inr (Or.inl ⟨update, rfl, ?_⟩)
      rw [heq, List.getElem?_modify_eq, hbefore]
      rfl
    · rw [heq, List.getElem?_modify_ne _ _ hsame]
      exact Or.inl hbefore
  · by_cases hsame : e' = e
    · subst hsame
      refine Or.inr (Or.inr ⟨rfl, ?_⟩)
      rw [heq, List.getElem?_modify_eq, hbefore]
      rfl
    · rw [heq, List.getElem?_modify_ne _ _ hsame]
      exact Or.inl hbefore

/-- The table of sessions after an operation. -/
theorem sessions (hstep : Step who before event after) : after.sessions = before.sessions ∨
    (∃ sid, event = ⟨.insertSession sid, .ok ()⟩ ∧ before.sessions sid = none ∧
      after.sessions = Function.update before.sessions sid (some none)) ∨
    event = ⟨.commit, .ok ()⟩ ∧
      after.sessions = SessionTable.applyUpdates before.sessions (before.transactions who) := by
  cases hstep with
  | commit => exact Or.inr (Or.inr ⟨rfl, rfl⟩)
  | insertSession hfresh => exact Or.inr (Or.inl ⟨_, rfl, hfresh, rfl⟩)
  | _ => exact Or.inl rfl

/-- The cache of executions after an operation. -/
theorem executions (hstep : Step who before event after) : after.executions = before.executions ∨
    (∃ execution, event = ⟨.insertExecution execution, before.heap.length⟩ ∧ after.executions =
      Function.update before.executions execution.key (some before.heap.length)) ∨
    ∃ key, event = ⟨.invalidateExecution key, ()⟩ ∧
      after.executions = Function.update before.executions key none := by
  cases hstep with
  | insertExecution execution => exact Or.inr (Or.inl ⟨execution, rfl, rfl⟩)
  | invalidateExecution key => exact Or.inr (Or.inr ⟨key, rfl, rfl⟩)
  | _ => exact Or.inl rfl

end Step

section Answers

theorem exec_readContext {e : ExecId} {context : ExecutionContext}
    (hexec : (machine X moves).Exec who before ⟨.readContext e, context⟩ after) :
    ∃ execution, before.heap[e]? = some execution ∧ execution.context = context := by
  obtain ⟨choice, hexec⟩ := hexec
  obtain ⟨execution, hheap, hresult⟩ := Option.map_eq_some_iff.mp hexec
  cases hresult
  exact ⟨execution, hheap, rfl⟩

theorem exec_getFlow {e : ExecId} {flow : Flow}
    (hexec : (machine X moves).Exec who before ⟨.getFlow e, flow⟩ after) :
    ∃ execution, before.heap[e]? = some execution ∧ execution.flow = flow := by
  obtain ⟨choice, hexec⟩ := hexec
  obtain ⟨execution, hheap, hresult⟩ := Option.map_eq_some_iff.mp hexec
  cases hresult
  exact ⟨execution, hheap, rfl⟩

theorem exec_isCompleted {e : ExecId} {completed : Bool}
    (hexec : (machine X moves).Exec who before ⟨.isCompleted e, completed⟩ after) :
    ∃ execution, before.heap[e]? = some execution ∧ execution.isCompleted = completed := by
  obtain ⟨choice, hexec⟩ := hexec
  obtain ⟨execution, hheap, hresult⟩ := Option.map_eq_some_iff.mp hexec
  cases hresult
  exact ⟨execution, hheap, rfl⟩

theorem exec_getKey {e : ExecId} {key : FlowKey}
    (hexec : (machine X moves).Exec who before ⟨.getKey e, key⟩ after) :
    ∃ execution, before.heap[e]? = some execution ∧ execution.key = key := by
  obtain ⟨choice, hexec⟩ := hexec
  obtain ⟨execution, hheap, hresult⟩ := Option.map_eq_some_iff.mp hexec
  cases hresult
  exact ⟨execution, hheap, rfl⟩

theorem exec_addedCookie {added : Option X.Token}
    (hexec : (machine X moves).Exec who before ⟨.addedCookie, added⟩ after) :
    before.cookies who = added := by
  obtain ⟨choice, hexec⟩ := hexec
  cases hexec
  rfl

theorem exec_getEntry {e : ExecId} {index : Nat} {entry : FlowEntry}
    (hexec : (machine X moves).Exec who before ⟨.getEntry e, (index, entry)⟩ after) :
    ∃ execution, before.heap[e]? = some execution ∧ execution.currentEntryIdx = index ∧
      execution.flow.entries[index]? = some entry := by
  obtain ⟨choice, hexec⟩ := hexec
  obtain ⟨execution, hheap, hbind⟩ := Option.bind_eq_some_iff.mp hexec
  obtain ⟨answer, hentry, hresult⟩ := Option.map_eq_some_iff.mp hbind
  cases hresult
  obtain ⟨found, hfound, heq⟩ := Option.map_eq_some_iff.mp hentry
  cases heq
  exact ⟨execution, hheap, rfl, hfound⟩

theorem exec_frozenStage {e : ExecId} {reference : DataRef StageQuery} {stage : Option Stage}
    (hexec : (machine X moves).Exec who before ⟨.frozenStage e reference, stage⟩ after) :
    ∃ execution, before.heap[e]? = some execution ∧
      execution.context.storage.stage.findOptional reference = some stage := by
  obtain ⟨choice, hexec⟩ := hexec
  obtain ⟨execution, hheap, hbind⟩ := Option.bind_eq_some_iff.mp hexec
  obtain ⟨answer, hfound, hresult⟩ := Option.map_eq_some_iff.mp hbind
  cases hresult
  exact ⟨execution, hheap, hfound⟩

theorem exec_frozenPolicy {e : ExecId} {reference : DataRef PolicyQuery} {policy : Option Policy}
    (hexec : (machine X moves).Exec who before ⟨.frozenPolicy e reference, policy⟩ after) :
    ∃ execution, before.heap[e]? = some execution ∧
      execution.context.storage.policy.findOptional reference = some policy := by
  obtain ⟨choice, hexec⟩ := hexec
  obtain ⟨execution, hheap, hbind⟩ := Option.bind_eq_some_iff.mp hexec
  obtain ⟨answer, hfound, hresult⟩ := Option.map_eq_some_iff.mp hbind
  cases hresult
  exact ⟨execution, hheap, hfound⟩

theorem exec_cachedExecution {key : FlowKey} {e : Option ExecId}
    (hexec : (machine X moves).Exec who before ⟨.cachedExecution key, e⟩ after) :
    before.executions key = e := by
  obtain ⟨choice, hexec⟩ := hexec
  cases hexec
  rfl

theorem exec_verifyPassword {hash password : String} {result : Except PwHashError Unit}
    (hexec : (machine X moves).Exec who before ⟨.verifyPassword hash password, result⟩ after) :
    X.verifyPassword hash password = result := by
  obtain ⟨choice, hexec⟩ := hexec
  cases hexec
  rfl

theorem Choice.db_ok {α : Type} {choice : Choice} {result : DbResult α} {value : α}
    (hdb : choice.db result = .ok value) : result = .ok value := by
  cases choice with
  | fail conflict => cases hdb
  | _ => exact hdb

/-- A user the database answers is a row that the statement matches. -/
theorem queryUser_some {w : World X} {key : UserKey} {row : UserRow}
    (hquery : w.queryUser key = .ok (some row)) : row ∈ w.users ∧ key.matches row = true := by
  unfold World.queryUser queryOpt at hquery
  split at hquery
  next => cases hquery
  next found hfilter =>
    cases hquery
    have hmem : row ∈ w.users.filter key.matches := by
      rw [hfilter]
      exact List.mem_singleton_self row
    exact List.mem_filter.mp hmem
  next => cases hquery

theorem exec_queryUser {key : UserKey} {row : UserRow}
    (hexec : (machine X moves).Exec who before ⟨.queryUser key, .ok (some row)⟩ after) :
    row ∈ before.users ∧ key.matches row = true := by
  obtain ⟨choice, hexec⟩ := hexec
  simp only [machine, exec, Option.some.injEq, Prod.mk.injEq] at hexec
  exact queryUser_some (Choice.db_ok hexec.1)

theorem exec_queryPassword {uid : Uuid} {stored : String}
    (hexec : (machine X moves).Exec who before ⟨.queryPassword uid, .ok (some stored)⟩ after) :
    ∃ row ∈ before.users, row.uid = uid ∧ row.password = stored := by
  obtain ⟨choice, hexec⟩ := hexec
  simp only [machine, exec, Option.some.injEq, Prod.mk.injEq] at hexec
  have hanswer := Choice.db_ok hexec.1
  cases hquery : before.queryUser (.uid uid) with
  | error kind =>
      rw [hquery] at hanswer
      cases hanswer
  | ok found =>
      rw [hquery] at hanswer
      cases found with
      | none => cases hanswer
      | some row =>
          cases hanswer
          obtain ⟨hmem, hmatches⟩ := queryUser_some hquery
          exact ⟨row, hmem, by simpa [UserKey.matches] using hmatches, rfl⟩

end Answers

/-- The open transaction of a request and the cookie in its jar. -/
structure Desk (X : Externals) where
  updates : List (Uuid × String)
  cookie : Option X.Token

def Desk.next (desk : Desk X) : Event (sig X) → Desk X
  | ⟨.updateSession uid sid, .ok _⟩ => { desk with updates := desk.updates ++ [(uid, sid)] }
  | ⟨.commit, .ok _⟩ => { desk with updates := [] }
  | ⟨.addCookie token, _⟩ => { desk with cookie := some token }
  | _ => desk

def World.desk (who : Nat) (w : World X) : Desk X where
  updates := w.transactions who
  cookie := w.cookies who

theorem World.Initial.desk {w : World X} (hinitial : w.Initial) (who : Nat) :
    w.desk who = ⟨[], none⟩ := by
  simp [World.desk, hinitial.transactions, hinitial.cookies]

theorem Step.desk_self (hstep : Step who before event after) :
    after.desk who = (before.desk who).next event := by
  cases hstep with
  | observe hobserves =>
      obtain ⟨op, res⟩ := event
      cases op with
      | commit | updateSession uid sid =>
          cases res with
          | error kind => rfl
          | ok value => cases hobserves
      | addCookie token => cases hobserves
      | _ => rfl
  | addCookie token | commit | updateSession uid sid => simp [World.desk, Desk.next]
  | _ => rfl

theorem Step.desk_other {other : Nat} (hne : other ≠ who) (hstep : Step who before event after) :
    after.desk other = before.desk other := by
  cases hstep with
  | addCookie token | commit | updateSession uid sid => simp [World.desk, hne]
  | _ => rfl

/-- Each request keeps its transaction and its jar to itself. -/
def privateDesk (hmoves : ∀ {w w' : World X}, moves w w' → Surroundings w w') :
    Private (machine X moves) (Desk X) where
  view := World.desk
  next := Desk.next
  exec_self := fun hexec => (exec_step hexec).desk_self
  exec_other := fun hne hexec => (exec_step hexec).desk_other hne
  release := by
    intro who other state hne
    simp [World.desk, machine, World.release, hne]
  moves := by
    intro who before after hstep
    simp only [World.desk, (hmoves hstep).transactions, (hmoves hstep).cookies]

end Authust
