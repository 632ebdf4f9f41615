import Authust.Coop.Obeys

/-! # Tasks that may fail

The exception monad over tasks: a failure ends the sequence, and the operations issued
before it stay issued. Each rule for tasks has its form for a sequence that may fail.
-/

namespace Coop

namespace Task

variable {S : Signature} {ε α β : Type}

theorem run_bind (task : ExceptT ε (Task S) α) (f : α → ExceptT ε (Task S) β) :
    (task >>= f).run = task.run >>= fun
      | .ok value => (f value).run
      | .error error => done (.error error) := by
  rw [ExceptT.run_bind]
  rfl

@[simp] theorem run_pure (value : α) :
    (pure value : ExceptT ε (Task S) α).run = done (.ok value) := rfl

@[simp] theorem run_throw (error : ε) :
    (throw error : ExceptT ε (Task S) α).run = done (.error error) := rfl

@[simp] theorem run_mk (task : Task S (Except ε α)) : (ExceptT.mk task).run = task := rfl

@[simp] theorem run_mk_bind (task : Task S (Except ε α)) (f : α → ExceptT ε (Task S) β) :
    (ExceptT.mk task >>= f).run = task >>= fun
      | .ok value => (f value).run
      | .error error => done (.error error) :=
  run_bind _ _

@[simp] theorem run_lift (task : Task S α) :
    (ExceptT.lift task : ExceptT ε (Task S) α).run = task >>= fun value => done (.ok value) := by
  rw [ExceptT.run_lift, map_eq_pure_bind]
  rfl

@[simp] theorem run_lift_bind (task : Task S α) (f : α → ExceptT ε (Task S) β) :
    (ExceptT.lift task >>= f).run = task >>= fun value => (f value).run := by
  rw [run_bind, run_lift, bind_assoc']
  rfl

section Histories

variable {task : ExceptT ε (Task S) α} {f : α → ExceptT ε (Task S) β}
  {history : List (Event S)}

theorem trace_bind_ok {result : β} :
    Trace (task >>= f).run history (.ok result) ↔
      ∃ first value second, Trace task.run first (.ok value) ∧
        Trace (f value).run second (.ok result) ∧ history = first ++ second := by
  rw [run_bind, trace_bind]
  constructor
  · rintro ⟨first, value, second, hfirst, hsecond, rfl⟩
    cases value with
    | ok value => exact ⟨first, value, second, hfirst, hsecond, rfl⟩
    | error error => cases (trace_done.mp hsecond).2
  · rintro ⟨first, value, second, hfirst, hsecond, rfl⟩
    exact ⟨first, .ok value, second, hfirst, hsecond, rfl⟩

/-- A path goes on behind the whole history of its first part. -/
theorem Path.resume_run {first second : List (Event S)} {value : α} {rest : Task S (Except ε β)}
    (hpath : Path (task >>= f).run (first ++ second) rest)
    (htrace : Trace task.run first (.ok value)) : Path (f value).run second rest := by
  rw [Task.run_bind] at hpath
  exact hpath.resume htrace

theorem Path.resume_lift {task : Task S α} {first second : List (Event S)} {value : α}
    {rest : Task S (Except ε β)} (hpath : Path (ExceptT.lift task >>= f).run (first ++ second) rest)
    (htrace : Trace task first value) : Path (f value).run second rest := by
  rw [run_lift_bind] at hpath
  exact hpath.resume htrace

theorem Avoids.run_bind {bad : S.Op → Prop} (htask : Avoids bad task.run)
    (hrest : ∀ value, Avoids bad (f value).run) : Avoids bad (task >>= f).run := by
  rw [Task.run_bind]
  refine htask.bind ?_
  intro result
  cases result with
  | ok value => exact hrest value
  | error error => exact avoids_done

/-- An operation that cannot fail. -/
theorem avoids_lift_perform_bind {flag : S.Op → Bool} {bad : Bool} {op : S.Op}
    {f : S.Res op → ExceptT ε (Task S) α} (hop : flag op = !bad)
    (hrest : ∀ res, Avoids (fun op => flag op = bad) (f res).run) :
    Avoids (fun op => flag op = bad) (ExceptT.lift (perform op) >>= f).run :=
  ⟨by simp [hop], hrest⟩

variable {rule : List (Event S) → S.Op → Prop}

/-- Sequencing: the second part may use that its past ends in a successful history of the
first part. -/
theorem Obeys.run_bind (htask : Obeys rule (fun _ _ => True) task.run history)
    (hrest : ∀ tail value, Trace task.run tail (.ok value) →
      Obeys rule (fun _ _ => True) (f value).run (history ++ tail)) :
    Obeys rule (fun _ _ => True) (task >>= f).run history := by
  rw [Task.run_bind]
  refine htask.bind ?_
  intro tail result htail
  cases result with
  | ok value => exact hrest tail value htail
  | error error => trivial

theorem obeys_lift_perform_bind {op : S.Op} {f : S.Res op → ExceptT ε (Task S) α}
    {post : List (Event S) → Except ε α → Prop} (hop : rule history op)
    (hrest : ∀ res, Obeys rule post (f res).run (history ++ [⟨op, res⟩])) :
    Obeys rule post (ExceptT.lift (perform op) >>= f).run history :=
  ⟨hop, hrest⟩

theorem Obeys.run_bind_post {post : List (Event S) → Except ε α → Prop}
    {last : List (Event S) → Except ε β → Prop} (htask : Obeys rule post task.run history)
    (hrest : ∀ past value, post past (.ok value) → Obeys rule last (f value).run past)
    (hfail : ∀ past error, post past (.error error) → last past (.error error)) :
    Obeys rule last (task >>= f).run history := by
  rw [Task.run_bind]
  refine htask.bind_post ?_
  intro past result hpast
  cases result with
  | ok value => exact hrest past value hpast
  | error error => exact hfail past error hpast

end Histories

end Task

end Coop
