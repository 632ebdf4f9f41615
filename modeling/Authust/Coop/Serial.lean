import Authust.Coop.Interleave

/-! # Tasks served one after another

A serial run serves each request from its first operation to its end before the next one
starts. A request may still end early: by a panic, or by being dropped at an await point.
Between two requests the surroundings may move.
-/

namespace Coop

open Coop.Task

/-- One request served on its own. -/
structure Served (S : Signature) (σ α : Type) where
  who : Nat
  before : σ
  log : List (Logged S σ)
  after : σ
  ending : Ending α

/-- Where a task is cut off when it is dropped. -/
inductive Cut : Type
  | never
  | before
  | after
  deriving DecidableEq

/-- The environment's part in one operation. -/
structure Turn (φ : Type) where
  choice : φ
  cut : Cut

variable {S : Signature} {σ φ α Req : Type}

namespace Machine

variable (M : Machine S σ φ)

/-- The ways a task can stop with `rest` left to do after the events of `log`. -/
inductive Stops (who : Nat) : Task S α → List (Logged S σ) → σ → Ending α → Prop
  | returned {value : α} {log : List (Logged S σ)} {state : σ} :
      Stops who (.done value) log state (.returned value)
  | panicked {op : S.Op} {next : S.Res op → Task S α} {log : List (Logged S σ)} {state : σ}
      (choice : φ) : M.exec who op choice state = none →
        Stops who (.call op next) log state .panicked
  | waiting {op : S.Op} {next : S.Res op → Task S α} {log : List (Logged S σ)} {state : σ} :
      M.suspends op = true → Stops who (.call op next) log state .dropped
  | answered {rest : Task S α} {log : List (Logged S σ)} {entry : Logged S σ} {state : σ} :
      M.suspends entry.event.op = true → Stops who rest (log ++ [entry]) state .dropped

/-- `served` is a complete undisturbed run of `task`. -/
structure Serves (task : Task S α) (served : Served S σ α) : Prop where
  chain : M.Chain served.who served.before served.log served.after
  stops : ∃ rest, Path task (served.log.map Logged.event) rest ∧
    M.Stops served.who rest served.log served.after served.ending

/-- Serve a task, with the environment's part read from a script. -/
def serve (who : Nat) : Task S α → (Nat → Turn φ) → σ → List (Logged S σ) × σ × Ending α
  | .done value, _, state => ([], state, .returned value)
  | .call op next, script, state =>
      if M.suspends op && decide ((script 0).cut = .before) then ([], state, .dropped)
      else
        match M.exec who op (script 0).choice state with
        | none => ([], state, .panicked)
        | some (res, after) =>
            if M.suspends op && decide ((script 0).cut = .after) then
              ([⟨who, state, ⟨op, res⟩⟩], after, .dropped)
            else
              let tail := serve who (next res) (fun index => script (index + 1)) after
              (⟨who, state, ⟨op, res⟩⟩ :: tail.1, tail.2)

def served (who : Nat) (task : Task S α) (script : Nat → Turn φ) (state : σ) : Served S σ α where
  who := who
  before := state
  log := (M.serve who task script state).1
  after := (M.serve who task script state).2.1
  ending := (M.serve who task script state).2.2

/-- What a task returns and leaves when it runs by itself, with the same choice for every
operation; `none` where it panics. -/
def alone (who : Nat) (choice : φ) : Task S α → σ → Option (α × σ)
  | .done value, state => some (value, state)
  | .call op next, state =>
      (M.exec who op choice state).bind fun answer => alone who choice (next answer.1) answer.2

/-- Runs in which requests are handled one after another by `handler`. -/
inductive Serial (handler : Req → Task S α) (start : σ) : List (Req × Served S σ α) → σ → Prop
  | start : Serial handler start [] start
  | serve {runs : List (Req × Served S σ α)} {request : Req} {served : Served S σ α} :
      Serial handler start runs served.before → served.who = runs.length →
        M.Serves (handler request) served →
          Serial handler start (runs ++ [(request, served)]) (M.release served.who served.after)
  | moves {runs : List (Req × Served S σ α)} {state after : σ} :
      Serial handler start runs state → M.moves state after → Serial handler start runs after

variable {M}

/-- A task stopped after some events is stopped after one more event before them. -/
theorem Stops.cons {who : Nat} {rest : Task S α} {log : List (Logged S σ)} {state : σ}
    {ending : Ending α} {entry : Logged S σ} (hstops : M.Stops who rest log state ending) :
    M.Stops who rest (entry :: log) state ending := by
  cases hstops with
  | returned => exact .returned
  | panicked choice hpanic => exact .panicked choice hpanic
  | waiting hsuspends => exact .waiting hsuspends
  | answered hsuspends =>
      rw [← List.cons_append]
      exact .answered hsuspends

theorem serve_serves (who : Nat) (task : Task S α) (script : Nat → Turn φ) (state : σ) :
    M.Serves task (M.served who task script state) := by
  induction task generalizing script state with
  | done value => exact ⟨.nil _, _, .refl _, .returned⟩
  | call op next ih =>
      by_cases hbefore : (M.suspends op && decide ((script 0).cut = .before)) = true
      · have hserve : M.serve who (.call op next) script state = ([], state, .dropped) := by
          rw [serve, if_pos hbefore]
        refine ⟨?_, ?_⟩ <;> simp only [served, hserve]
        · exact .nil _
        · exact ⟨_, .refl _, .waiting (Bool.and_eq_true_iff.mp hbefore).1⟩
      cases hexec : M.exec who op (script 0).choice state with
      | none =>
          have hserve : M.serve who (.call op next) script state = ([], state, .panicked) := by
            rw [serve, if_neg hbefore, hexec]
          refine ⟨?_, ?_⟩ <;> simp only [served, hserve]
          · exact .nil _
          · exact ⟨_, .refl _, .panicked _ hexec⟩
      | some result =>
          obtain ⟨res, after⟩ := result
          have hstep : M.Exec who state ⟨op, res⟩ after := ⟨_, hexec⟩
          by_cases hafter : (M.suspends op && decide ((script 0).cut = .after)) = true
          · have hserve : M.serve who (.call op next) script state =
                ([⟨who, state, ⟨op, res⟩⟩], after, .dropped) := by
              rw [serve, if_neg hbefore, hexec]
              simp only [if_pos hafter]
            have hstops : M.Stops who (next res) ([] ++ [⟨who, state, ⟨op, res⟩⟩]) after .dropped :=
              .answered (Bool.and_eq_true_iff.mp hafter).1
            refine ⟨?_, ?_⟩ <;> simp only [served, hserve]
            · exact .cons hstep (.nil _)
            · exact ⟨_, .step (.refl _), hstops⟩
          · have hserve : M.serve who (.call op next) script state =
                (⟨who, state, ⟨op, res⟩⟩ ::
                    (M.serve who (next res) (fun index => script (index + 1)) after).1,
                  (M.serve who (next res) (fun index => script (index + 1)) after).2) := by
              rw [serve, if_neg hbefore, hexec]
              simp only [if_neg hafter]
            obtain ⟨hchain, rest, hpath, hstops⟩ := ih res (fun index => script (index + 1)) after
            refine ⟨?_, ?_⟩ <;> simp only [served, hserve]
            · exact .cons hstep hchain
            · exact ⟨rest, .step hpath, hstops.cons⟩

section Alone

variable {β : Type} {who : Nat} {choice : φ}

@[simp] theorem alone_done (value : α) (state : σ) :
    M.alone who choice (.done value : Task S α) state = some (value, state) := rfl

@[simp] theorem alone_call (op : S.Op) (next : S.Res op → Task S α) (state : σ) :
    M.alone who choice (.call op next) state =
      (M.exec who op choice state).bind fun answer => M.alone who choice (next answer.1) answer.2 :=
  rfl

theorem alone_bind (task : Task S α) (f : α → Task S β) (state : σ) :
    M.alone who choice (task >>= f) state = (M.alone who choice task state).bind fun answer =>
      M.alone who choice (f answer.1) answer.2 := by
  induction task generalizing state with
  | done value => rfl
  | call op next ih =>
      simp only [call_bind, alone, Option.bind_assoc]
      exact Option.bind_congr fun answer _ => ih answer.1 answer.2

/-- To run by itself is to be served without being cut off. -/
theorem alone_eq_some_iff {task : Task S α} {state after : σ} {value : α} :
    M.alone who choice task state = some (value, after) ↔
      (M.served who task (fun _ => ⟨choice, .never⟩) state).ending = .returned value ∧
        (M.served who task (fun _ => ⟨choice, .never⟩) state).after = after := by
  induction task generalizing state with
  | done result => simp [served, serve]
  | call op next ih =>
      cases hexec : M.exec who op choice state with
      | none => simp [alone, served, serve, hexec]
      | some answer =>
          obtain ⟨res, middle⟩ := answer
          simpa [alone, served, serve, hexec] using ih res

end Alone

/-- Serve requests one after another, each with its script. -/
def serveAll (handler : Req → Task S α) (start : σ) (requests : List (Req × (Nat → Turn φ))) :
    List (Req × Served S σ α) × σ :=
  requests.foldl (fun done request =>
    let served := M.served done.1.length (handler request.1) request.2 done.2
    (done.1 ++ [(request.1, served)], M.release served.who served.after)) ([], start)

theorem serveAll_serial (handler : Req → Task S α) (start : σ)
    (requests : List (Req × (Nat → Turn φ))) :
    M.Serial handler start (M.serveAll handler start requests).1
      (M.serveAll handler start requests).2 := by
  induction requests using List.reverseRecOn with
  | nil => exact .start
  | append_singleton requests request ih =>
      rw [serveAll, List.foldl_append]
      exact .serve ih rfl (serve_serves _ _ _ _)

/-- A task that returned was served along a complete history. -/
theorem Serves.trace {task : Task S α} {served : Served S σ α} {value : α}
    (hserves : M.Serves task served) (hending : served.ending = .returned value) :
    Trace task (served.log.map Logged.event) value := by
  obtain ⟨rest, hpath, hstops⟩ := hserves.stops
  generalize served.log = log at hpath hstops
  rw [hending] at hstops
  cases hstops
  exact hpath

/-- The log of a whole run, request after request. -/
def logOf (runs : List (Req × Served S σ α)) : List (Logged S σ) :=
  runs.flatMap fun run => run.2.log

@[simp] theorem logOf_nil : logOf ([] : List (Req × Served S σ α)) = [] := rfl

theorem logOf_cons (run : Req × Served S σ α) (runs : List (Req × Served S σ α)) :
    logOf (run :: runs) = run.2.log ++ logOf runs := rfl

theorem logOf_append (first second : List (Req × Served S σ α)) :
    logOf (first ++ second) = logOf first ++ logOf second :=
  List.flatMap_append

theorem logOf_snoc (runs : List (Req × Served S σ α)) (run : Req × Served S σ α) :
    logOf (runs ++ [run]) = logOf runs ++ run.2.log := by
  simp [logOf]

/-- A request that has not been served yet finds its private part as it was at the start. -/
theorem Serial.view_fresh {β : Type} (P : Private M β) {handler : Req → Task S α} {start : σ}
    {runs : List (Req × Served S σ α)} {state : σ} (hrun : M.Serial handler start runs state)
    {who : Nat} (hfresh : runs.length ≤ who) : P.view who state = P.view who start := by
  induction hrun with
  | start => rfl
  | @serve runs request served _ hwho hserves ih =>
      rw [List.length_append, List.length_singleton] at hfresh
      have hne : who ≠ served.who := by omega
      rw [P.release hne]
      have hchain : P.view who served.after = P.view who served.before := by
        refine hserves.chain.invariant (fun state => P.view who state = P.view who served.before)
          ?_ rfl
        intro state event next _ hexec hstate
        rw [P.exec_other hne hexec, hstate]
      rw [hchain, ih (by omega)]
  | moves _ hmoves ih => rw [P.moves hmoves, ih hfresh]

/-- Every request of a serial run was served in the state that the requests before it left. -/
theorem Serial.request {handler : Req → Task S α} {start : σ} {runs : List (Req × Served S σ α)}
    {state : σ} (hrun : M.Serial handler start runs state)
    {first second : List (Req × Served S σ α)}
    {request : Req} {served : Served S σ α} (hruns : runs = first ++ (request, served) :: second) :
    M.Serial handler start first served.before ∧ served.who = first.length ∧
      M.Serves (handler request) served := by
  induction hrun generalizing second with
  | start => simp at hruns
  | moves _ _ ih => exact ih hruns
  | @serve runs last answer hpast hwho hserves ih =>
      rcases List.append_eq_append_iff.mp hruns with ⟨tail, rfl, hrest⟩ | ⟨tail, rfl, hrest⟩
      · cases tail with
        | nil =>
            simp only [List.nil_append, List.cons.injEq] at hrest
            obtain ⟨heq, _⟩ := hrest
            cases heq
            exact ⟨by simpa using hpast, by simpa using hwho, hserves⟩
        | cons head tail => simp at hrest
      · cases tail with
        | nil =>
            simp only [List.nil_append, List.cons.injEq] at hrest
            obtain ⟨heq, _⟩ := hrest
            cases heq
            exact ⟨by simpa using hpast, by simpa using hwho, hserves⟩
        | cons head tail =>
            simp only [List.cons_append, List.cons.injEq] at hrest
            exact ih (by rw [hrest.1])

theorem Serial.who_lt {handler : Req → Task S α} {start : σ} {runs : List (Req × Served S σ α)}
    {state : σ} (hrun : M.Serial handler start runs state) {entry : Logged S σ}
    (hmem : entry ∈ logOf runs) : entry.who < runs.length := by
  obtain ⟨run, hrunmem, hentry⟩ := List.mem_flatMap.mp hmem
  obtain ⟨first, second, hruns⟩ := List.append_of_mem hrunmem
  obtain ⟨_, hwho, hserves⟩ := hrun.request hruns
  rw [hserves.chain.who_eq entry hentry, hwho, hruns]
  simp

/-- Nothing of a request is logged before it is served. -/
theorem Serial.own_fresh {handler : Req → Task S α} {start : σ} {runs : List (Req × Served S σ α)}
    {state : σ} (hrun : M.Serial handler start runs state) {who : Nat}
    (hfresh : runs.length ≤ who) : own who (logOf runs) = [] := by
  apply List.eq_nil_iff_forall_not_mem.mpr
  intro event hevent
  obtain ⟨entry, hmem, rfl, _⟩ := mem_own.mp hevent
  exact absurd (hrun.who_lt hmem) (Nat.not_lt.mpr hfresh)

/-- The request that an entry of the log belongs to. -/
theorem Serial.entry {handler : Req → Task S α} {start : σ} {runs : List (Req × Served S σ α)}
    {state : σ} (hrun : M.Serial handler start runs state) {past rest : List (Logged S σ)}
    {entry : Logged S σ} (hlog : logOf runs = past ++ entry :: rest) :
    ∃ first request served second mine tail, runs = first ++ (request, served) :: second ∧
      past = logOf first ++ mine ∧ served.log = mine ++ entry :: tail ∧
        M.Serial handler start first served.before ∧ served.who = first.length ∧
          M.Serves (handler request) served := by
  suffices hsplit : ∃ first run second mine tail, runs = first ++ run :: second ∧
      past = logOf first ++ mine ∧ run.2.log = mine ++ entry :: tail by
    obtain ⟨first, ⟨request, served⟩, second, mine, tail, hruns, hpast, hserved⟩ := hsplit
    exact ⟨first, request, served, second, mine, tail, hruns, hpast, hserved, hrun.request hruns⟩
  clear hrun
  induction runs generalizing past with
  | nil => simp at hlog
  | cons run runs ih =>
      rw [logOf_cons] at hlog
      rcases List.append_eq_append_iff.mp hlog with ⟨middle, rfl, hrest⟩ | ⟨middle, hserved, hrest⟩
      · obtain ⟨first, found, second, mine, tail, rfl, rfl, hfound⟩ := ih hrest
        refine ⟨run :: first, found, second, mine, tail, rfl, ?_, hfound⟩
        rw [logOf_cons, List.append_assoc]
      · cases middle with
        | nil =>
            simp only [List.append_nil] at hserved
            obtain ⟨first, found, second, mine, tail, rfl, hpast, hfound⟩ :=
              @ih [] hrest.symm
            refine ⟨run :: first, found, second, mine, tail, rfl, ?_, hfound⟩
            rw [logOf_cons, List.append_assoc, ← hpast, List.append_nil, hserved]
        | cons head middle =>
            simp only [List.cons_append, List.cons.injEq] at hrest
            obtain ⟨rfl, _⟩ := hrest
            exact ⟨[], run, runs, past, middle, rfl, rfl, hserved⟩

/-- A property that single operations preserve under every interleaving holds throughout a
serial run of the same tasks. -/
theorem Serial.preserves {β : Type} {P : Private M β} {handler : Req → Task S α} {start : σ}
    {invariant : σ → List (Logged S σ) → Prop} {tasks : Nat → Task S α}
    (hpreserved : Preserved P tasks start invariant) (hstart : invariant start [])
    {runs : List (Req × Served S σ α)} {state : σ} (hrun : M.Serial handler start runs state)
    (htasks : ∀ run ∈ runs, handler run.1 = tasks run.2.who) :
    invariant state (logOf runs) ∧ Issued M tasks (logOf runs) := by
  induction hrun with
  | start => exact ⟨hstart, throughout_nil⟩
  | moves _ hmoves ih => exact ⟨hpreserved.moves (ih htasks).1 hmoves, (ih htasks).2⟩
  | @serve runs request served hpast hwho hserves ih =>
      have hbefore := ih fun run hmem => htasks run (List.mem_append_left _ hmem)
      have htask : handler request = tasks served.who := htasks (request, served) (by simp)
      have hview := hpast.view_fresh P (Nat.le_of_eq hwho.symm)
      have hown := hpast.own_fresh (Nat.le_of_eq hwho.symm)
      suffices hserved : invariant served.after (logOf runs ++ served.log) ∧
          Issued M tasks (logOf runs ++ served.log) by
        rw [logOf_snoc]
        exact ⟨hpreserved.release hserved.1, hserved.2⟩
      refine hserves.chain.snoc_induction (motive := fun first state =>
        invariant state (logOf runs ++ first) ∧ Issued M tasks (logOf runs ++ first))
        (by simpa using hbefore) ?_
      rintro first middle event next second hlog hhead hexec ⟨hinvariant, hissued⟩
      -- the request is alone, so its own history is all that is logged since it began
      have hmine : own served.who (logOf runs ++ first) = first.map Logged.event := by
        rw [own_append, hown, hhead.own_eq, List.nil_append]
      have hfold : P.view served.who middle =
          (own served.who (logOf runs ++ first)).foldl P.next (P.view served.who start) := by
        rw [hmine, hhead.view_eq P, hview]
      obtain ⟨rest, hpath, _⟩ := hserves.stops
      rw [hlog, List.map_append, List.map_cons, htask] at hpath
      obtain ⟨stop, hprefix, hstop⟩ := hpath.split
      cases hstop with
      | step _ =>
          rw [← hmine] at hprefix
          rw [← List.append_assoc]
          exact ⟨hpreserved.exec hinvariant hissued hprefix hfold hexec,
            hissued.snoc ⟨⟨_, hprefix⟩, _, hexec⟩⟩

end Machine

end Coop
