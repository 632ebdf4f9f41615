import Authust.Coop.Fallible
import Authust.Coop.Serial

/-! # What a task ensures

A task that is served by itself may be stopped at any of its operations. What it ensures is
stated of the state that it starts from: a condition that holds wherever it may be stopped, and
one on what it returns and leaves. The rules follow the sequence of the task.
-/

namespace Coop

open Coop.Task

variable {S : Signature} {σ φ ε α β : Type}

namespace Machine

variable (M : Machine S σ φ) (who : Nat) (always : σ → Prop)

/-- Whatever the environment chooses, `always` holds wherever the task stops, and the last
condition of what it returns. -/
def Ensures : Task S α → (α → σ → Prop) → σ → Prop
  | .done value, post, state => always state ∧ post value state
  | .call op next, post, state =>
      always state ∧ ∀ res after, M.Exec who state ⟨op, res⟩ after → Ensures (next res) post after

variable {M who always} {task : Task S α} {post : α → σ → Prop} {state : σ}

theorem Ensures.now (hensures : M.Ensures who always task post state) : always state := by
  cases task with
  | done value => exact hensures.1
  | call op next => exact hensures.1

/-- What is ensured under a condition is ensured under a weaker one. -/
theorem Ensures.relax {calm : σ → Prop} {weaker : α → σ → Prop}
    (hensures : M.Ensures who calm task post state) (hcalm : ∀ after, calm after → always after)
    (hweaker : ∀ value after, calm after → post value after → weaker value after) :
    M.Ensures who always task weaker state := by
  induction task generalizing state with
  | done value => exact ⟨hcalm state hensures.1, hweaker value state hensures.1 hensures.2⟩
  | call op next ih =>
      exact ⟨hcalm state hensures.1, fun res after hexec => ih res (hensures.2 res after hexec)⟩

theorem Ensures.mono {weaker : α → σ → Prop} (hensures : M.Ensures who always task post state)
    (hweaker : ∀ value after, always after → post value after → weaker value after) :
    M.Ensures who always task weaker state :=
  hensures.relax (fun _ hnow => hnow) hweaker

theorem ensures_bind {f : α → Task S β} {post : β → σ → Prop} :
    M.Ensures who always (task >>= f) post state ↔
      M.Ensures who always task (fun value after => M.Ensures who always (f value) post after)
        state := by
  induction task generalizing state with
  | done value => exact ⟨fun hensures => ⟨hensures.now, hensures⟩, fun hensures => hensures.2⟩
  | call op next ih =>
      simp only [call_bind, Ensures, ih]

theorem Ensures.map {f : α → β} (hensures : M.Ensures who always task post state) :
    M.Ensures who always (f <$> task)
      (fun result after => ∃ value, f value = result ∧ post value after) state := by
  induction task generalizing state with
  | done value => exact ⟨hensures.1, value, rfl, hensures.2⟩
  | call op next ih =>
      exact ⟨hensures.1, fun res after hexec => ih res (hensures.2 res after hexec)⟩

theorem ensures_perform_bind {op : S.Op} {f : S.Res op → Task S β} {post : β → σ → Prop} :
    M.Ensures who always (perform op >>= f) post state ↔
      always state ∧ ∀ res after, M.Exec who state ⟨op, res⟩ after →
        M.Ensures who always (f res) post after :=
  Iff.rfl

/-- A condition on what is returned where nothing fails. -/
def succeeds (good : α → σ → Prop) : Except ε α → σ → Prop
  | .ok value, state => good value state
  | .error _, _ => True

@[simp] theorem succeeds_ok {good : α → σ → Prop} {value : α} {state : σ} :
    succeeds good (.ok value : Except ε α) state ↔ good value state :=
  Iff.rfl

theorem ensures_pure {value : α} {good : α → σ → Prop} (hnow : always state)
    (hgood : good value state) :
    M.Ensures who always (pure value : ExceptT ε (Task S) α).run (succeeds good) state :=
  ⟨hnow, hgood⟩

/-- A sequence that may fail goes on where its first part does not fail. -/
theorem Ensures.andThen {task : ExceptT ε (Task S) α} {f : α → ExceptT ε (Task S) β}
    {good : β → σ → Prop}
    (hensures : M.Ensures who always task.run
      (succeeds fun value after => M.Ensures who always (f value).run (succeeds good) after)
        state) :
    M.Ensures who always (task >>= f).run (succeeds good) state := by
  rw [Task.run_bind, ensures_bind]
  apply hensures.mono
  intro result after hnow hresult
  cases result with
  | ok value => exact hresult
  | error error => exact ⟨hnow, trivial⟩

/-- A condition on where a sequence returns, and one on where it fails. -/
def concludes (good : α → σ → Prop) (bad : σ → Prop) : Except ε α → σ → Prop
  | .ok value, state => good value state
  | .error _, state => bad state

/-- While the first part of a sequence goes on, the sequence may fail. -/
theorem Ensures.andThen_concludes {calm : σ → Prop} {task : ExceptT ε (Task S) α}
    {f : α → ExceptT ε (Task S) β} {good : β → σ → Prop} {bad : σ → Prop}
    (hcalm : ∀ state, calm state → always state ∧ bad state)
    (hensures : M.Ensures who calm task.run
      (succeeds fun value after => M.Ensures who always (f value).run (concludes good bad) after)
        state) :
    M.Ensures who always (task >>= f).run (concludes good bad) state := by
  rw [Task.run_bind, ensures_bind]
  refine hensures.relax (fun after hnow => (hcalm after hnow).1) ?_
  intro result after hnow hresult
  cases result with
  | ok value => exact hresult
  | error error => exact hcalm after hnow

/-- The task has come along the events from the state, and has `rest` left. -/
def Came (M : Machine S σ φ) (who : Nat) (task : Task S α) (state : σ) (events : List (Event S))
    (rest : Task S α) (after : σ) : Prop :=
  ∃ log, M.Chain who state log after ∧ log.map Logged.event = events ∧ Path task events rest

theorem Serves.came {served : Served S σ α} (hserves : M.Serves task served) :
    ∃ rest, M.Came served.who task served.before (served.log.map Logged.event) rest served.after ∧
      M.Stops served.who rest served.log served.after served.ending := by
  obtain ⟨rest, hpath, hstops⟩ := hserves.stops
  exact ⟨rest, ⟨served.log, hserves.chain, rfl, hpath⟩, hstops⟩

/-- Wherever a task has come to, the rest of it ensures the same. -/
theorem Ensures.came {events : List (Event S)} {rest : Task S α} {after : σ}
    (hensures : M.Ensures who always task post state)
    (hcame : M.Came who task state events rest after) : M.Ensures who always rest post after := by
  obtain ⟨log, hchain, rfl, hpath⟩ := hcame
  induction hchain generalizing task with
  | nil =>
      cases hpath
      exact hensures
  | cons hexec _ ih =>
      cases hpath with
      | step hpath => exact ih (hensures.2 _ _ hexec) hpath

/-- A sequence that has had the whole history of its first part has come into the second. -/
theorem Came.resume {f : α → Task S β} {first second : List (Event S)} {value : α}
    {rest : Task S β} {after : σ}
    (hcame : M.Came who (task >>= f) state (first ++ second) rest after)
    (htrace : Trace task first value) (hensures : M.Ensures who always task post state) :
    ∃ middle, always middle ∧ post value middle ∧
      M.Came who (f value) middle second rest after := by
  obtain ⟨log, hchain, hevents, hpath⟩ := hcame
  obtain ⟨head, tail, middle, rfl, hhead, htail, hfirst, hsecond⟩ := hchain.of_append hevents
  obtain ⟨hnow, hpost⟩ := hensures.came ⟨head, hfirst, hhead, htrace⟩
  exact ⟨middle, hnow, hpost, tail, hsecond, htail, hpath.resume htrace⟩

theorem Came.resume_run {task : ExceptT ε (Task S) α} {f : α → ExceptT ε (Task S) β}
    {first second : List (Event S)} {value : α} {good : α → σ → Prop} {rest : Task S (Except ε β)}
    {after : σ} (hcame : M.Came who (task >>= f).run state (first ++ second) rest after)
    (htrace : Trace task.run first (.ok value))
    (hensures : M.Ensures who always task.run (succeeds good) state) :
    ∃ middle, always middle ∧ good value middle ∧
      M.Came who (f value).run middle second rest after := by
  rw [Task.run_bind] at hcame
  exact hcame.resume htrace hensures

theorem Came.resume_lift {task : Task S α} {f : α → ExceptT ε (Task S) β}
    {first second : List (Event S)} {value : α} {rest : Task S (Except ε β)} {after : σ}
    (hcame : M.Came who (ExceptT.lift task >>= f).run state (first ++ second) rest after)
    (htrace : Trace task first value) (hensures : M.Ensures who always task post state) :
    ∃ middle, always middle ∧ post value middle ∧
      M.Came who (f value).run middle second rest after := by
  rw [run_lift_bind] at hcame
  exact hcame.resume htrace hensures

/-- A task that is served keeps to what it ensures. -/
theorem Ensures.serves {served : Served S σ α} (hserves : M.Serves task served)
    (hensures : M.Ensures served.who always task post served.before) :
    always served.after ∧ ∀ value, served.ending = .returned value → post value served.after := by
  obtain ⟨rest, hcame, hstops⟩ := hserves.came
  have hrest := hensures.came hcame
  refine ⟨hrest.now, fun value hending => ?_⟩
  rw [hending] at hstops
  generalize served.log = log at hstops
  cases hstops
  exact hrest.2

end Machine

end Coop
