import Authust.Coop.Serial
import Authust.Coop.Fallible

/-! # Tasks that run by themselves

What a task comes to when nothing is chosen against it, part by part; and how such a request
extends a serial run.
-/

namespace Coop

open Coop.Task

namespace Machine

variable {S : Signature} {σ φ ε α β Req : Type} {M : Machine S σ φ} {who : Nat} {choice : φ}

section Parts

theorem alone_bind_some {task : Task S α} {f : α → Task S β} {state after : σ} {value : α}
    (htask : M.alone who choice task state = some (value, after)) :
    M.alone who choice (task >>= f) state = M.alone who choice (f value) after := by
  rw [alone_bind, htask, Option.bind_some]

theorem alone_bind_none {task : Task S α} {f : α → Task S β} {state : σ}
    (htask : M.alone who choice task state = none) :
    M.alone who choice (task >>= f) state = none := by
  rw [alone_bind, htask, Option.bind_none]

variable {task : ExceptT ε (Task S) α} {f : α → ExceptT ε (Task S) β} {state after : σ}

theorem alone_run_ok {value : α} (htask : M.alone who choice task.run state =
    some (.ok value, after)) :
    M.alone who choice (task >>= f).run state = M.alone who choice (f value).run after := by
  rw [run_bind, alone_bind_some htask]

theorem alone_run_error {error : ε} (htask : M.alone who choice task.run state =
    some (.error error, after)) :
    M.alone who choice (task >>= f).run state = some (.error error, after) := by
  rw [run_bind, alone_bind_some htask]
  rfl

theorem alone_run_none (htask : M.alone who choice task.run state = none) :
    M.alone who choice (task >>= f).run state = none := by
  rw [run_bind, alone_bind_none htask]

theorem alone_lift_some {task : Task S α} {value : α}
    (htask : M.alone who choice task state = some (value, after)) :
    M.alone who choice (ExceptT.lift task >>= f).run state =
      M.alone who choice (f value).run after := by
  rw [run_lift_bind, alone_bind_some htask]

theorem alone_lift_none {task : Task S α} (htask : M.alone who choice task state = none) :
    M.alone who choice (ExceptT.lift task >>= f).run state = none := by
  rw [run_lift_bind, alone_bind_none htask]

end Parts

/-- A request that is served by itself comes behind a serial run. -/
theorem Serial.alone {handler : Req → Task S α} {start state after : σ}
    {runs : List (Req × Served S σ α)} {request : Req} {value : α}
    (hrun : M.Serial handler start runs state)
    (halone : M.alone runs.length choice (handler request) state = some (value, after)) :
    ∃ served : Served S σ α, served.who = runs.length ∧ served.ending = .returned value ∧
      served.after = after ∧
        M.Serial handler start (runs ++ [(request, served)]) (M.release runs.length after) := by
  obtain ⟨hending, hafter⟩ := alone_eq_some_iff.mp halone
  subst hafter
  exact ⟨_, rfl, hending, rfl, .serve hrun rfl (serve_serves _ _ _ _)⟩

end Machine

end Coop
