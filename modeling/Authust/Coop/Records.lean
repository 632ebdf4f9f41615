import Mathlib.Data.List.Forall2
import Authust.Coop.Ensures
import Authust.Coop.Extend

/-! # What requests leave behind

A state shows a list of entries, and every request that is served adds to the end of it. What a
request may add depends on the request and on how it ended, and what a whole run has added is
what its requests have added, one after another.
-/

namespace Coop

open Coop.Task

variable {S T : Signature} {σ φ ψ α β Req : Type}

namespace Machine

/-- The second machine runs the operations of the first as it does. -/
def Within (M : Machine S σ φ) (N : Machine (S.sum T) σ ψ) : Prop :=
  ∀ who before op res after, N.Exec who before ⟨.inl op, res⟩ after →
    M.Exec who before ⟨op, res⟩ after

/-- A task ensures among more operations what it ensures. -/
theorem Ensures.translate {M : Machine S σ φ} {N : Machine (S.sum T) σ ψ} (hwithin : M.Within N)
    {who : Nat} {always : σ → Prop} {task : Task S α} {post : α → σ → Prop} {state : σ}
    (hensures : M.Ensures who always task post state) :
    N.Ensures who always task.translate post state := by
  induction task generalizing state with
  | done value => exact hensures
  | call op next ih =>
      refine ⟨hensures.1, fun res after hexec => ?_⟩
      exact ih res (hensures.2 res after (hwithin who state op res after hexec))

/-- A call that has returned was answered first. -/
theorem Chain.trace_call {M : Machine S σ φ} {who : Nat} {state after : σ}
    {log : List (Logged S σ)} {op : S.Op} {next : S.Res op → Task S α} {value : α}
    (hchain : M.Chain who state log after)
    (htrace : Trace (.call op next) (log.map Logged.event) value) :
    ∃ res middle rest, log = ⟨who, state, ⟨op, res⟩⟩ :: rest ∧
      M.Exec who state ⟨op, res⟩ middle ∧ M.Chain who middle rest after ∧
        Trace (next res) (rest.map Logged.event) value := by
  cases hchain with
  | nil => cases htrace
  | cons hexec hrest =>
      cases htrace with
      | step htail => exact ⟨_, _, _, rfl, hexec, hrest, htail⟩

variable {M : Machine S σ φ} {handler : Req → Task S α} {start state : σ}

/-- Each request adds to the entries as it ended: so does a run of them, in order. -/
theorem Serial.records (inv : σ → Prop) (entries : σ → List β)
    (Adds : Req → Ending α → List β → Prop) {runs : List (Req × Served S σ α)}
    (hrun : M.Serial handler start runs state) (hstart : inv start)
    (hserve : ∀ request served, inv served.before → M.Serves (handler request) served →
      inv (M.release served.who served.after) ∧ ∃ added, Adds request served.ending added ∧
        entries (M.release served.who served.after) = entries served.before ++ added)
    (hmoves : ∀ before after, inv before → M.moves before after →
      inv after ∧ entries after = entries before) :
    inv state ∧ ∃ added : List (List β),
      List.Forall₂ (fun run new => Adds run.1 run.2.ending new) runs added ∧
        entries state = entries start ++ added.flatten := by
  induction hrun with
  | start => exact ⟨hstart, [], .nil, by simp⟩
  | moves _ hmoved ih =>
      obtain ⟨hinv, added, hadded, hentries⟩ := ih
      obtain ⟨hafter, heq⟩ := hmoves _ _ hinv hmoved
      exact ⟨hafter, added, hadded, by rw [heq, hentries]⟩
  | @serve runs request served _ _ hserves ih =>
      obtain ⟨hinv, added, hadded, hentries⟩ := ih
      obtain ⟨hafter, new, hnew, heq⟩ := hserve request served hinv hserves
      refine ⟨hafter, added ++ [new], List.rel_append hadded (.cons hnew .nil), ?_⟩
      rw [heq, hentries, List.flatten_append, List.append_assoc]
      simp

end Machine

end Coop
