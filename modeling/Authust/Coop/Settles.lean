import Authust.Coop.Ensures

/-! # Where a task comes to rest

A task that is served by itself comes to rest where it returns, where an operation panics and
where it is dropped. What has to hold there need not hold on the way, at operations that cannot
panic. The environment is known as far as its answers are allowed, and whether it drops tasks.
-/

namespace Coop

open Coop.Task

variable {S : Signature} {σ φ ε α β : Type}

namespace Machine

variable (M : Machine S σ φ) (who : Nat) (allowed : Event S → Prop) (drops : Prop)
  (settled : σ → Prop)

/-- As long as the answers are allowed, `settled` holds wherever an operation panics, and
wherever the task is if tasks may be dropped; the last condition is on what it returns. -/
def Settles : Task S α → (α → σ → Prop) → σ → Prop
  | .done value, post, state => (drops → settled state) ∧ post value state
  | .call op next, post, state =>
      (drops → settled state) ∧ ((∃ choice, M.exec who op choice state = none) → settled state) ∧
        ∀ res after, M.Exec who state ⟨op, res⟩ after → allowed ⟨op, res⟩ →
          Settles (next res) post after

variable {M who allowed drops settled} {task : Task S α} {post : α → σ → Prop} {state : σ}

theorem Settles.dropped (hsettles : M.Settles who allowed drops settled task post state) :
    drops → settled state := by
  cases task with
  | done value => exact hsettles.1
  | call op next => exact hsettles.1

theorem Settles.mono {weaker : α → σ → Prop}
    (hsettles : M.Settles who allowed drops settled task post state)
    (hweaker : ∀ value after, (drops → settled after) → post value after → weaker value after) :
    M.Settles who allowed drops settled task weaker state := by
  induction task generalizing state with
  | done value => exact ⟨hsettles.1, hweaker value state hsettles.1 hsettles.2⟩
  | call op next ih =>
      obtain ⟨hdropped, hpanicked, hnext⟩ := hsettles
      exact ⟨hdropped, hpanicked, fun res after hexec hallowed =>
        ih res (hnext res after hexec hallowed)⟩

theorem settles_bind {f : α → Task S β} {post : β → σ → Prop} :
    M.Settles who allowed drops settled (task >>= f) post state ↔
      M.Settles who allowed drops settled task
        (fun value after => M.Settles who allowed drops settled (f value) post after) state := by
  induction task generalizing state with
  | done value => exact ⟨fun hsettles => ⟨hsettles.dropped, hsettles⟩, fun hsettles => hsettles.2⟩
  | call op next ih => simp only [call_bind, Settles, ih]

/-- What is ensured wherever the task may stop holds where it comes to rest. -/
theorem Ensures.settles (hensures : M.Ensures who settled task post state) :
    M.Settles who allowed drops settled task post state := by
  induction task generalizing state with
  | done value => exact ⟨fun _ => hensures.1, hensures.2⟩
  | call op next ih =>
      exact ⟨fun _ => hensures.1, fun _ => hensures.1,
        fun res after hexec _ => ih res (hensures.2 res after hexec)⟩

/-- An operation with one answer, whatever the environment chooses. -/
theorem settles_perform_bind {op : S.Op} {f : S.Res op → Task S β} {post : β → σ → Prop}
    {res : S.Res op} {after : σ} (hdropped : drops → settled state)
    (hexec : ∀ choice, M.exec who op choice state = some (res, after))
    (hrest : M.Settles who allowed drops settled (f res) post after) :
    M.Settles who allowed drops settled (perform op >>= f) post state := by
  refine ⟨hdropped, ?_, ?_⟩
  · rintro ⟨choice, hpanicked⟩
    rw [hexec choice] at hpanicked
    cases hpanicked
  · rintro answer next ⟨choice, hanswered⟩ _
    rw [hexec choice] at hanswered
    cases hanswered
    exact hrest

/-- Wherever a task has come to, the rest of it settles the same. -/
theorem Settles.came {events : List (Event S)} {rest : Task S α} {after : σ}
    (hsettles : M.Settles who allowed drops settled task post state)
    (hcame : M.Came who task state events rest after) (hallowed : ∀ event ∈ events, allowed event) :
    M.Settles who allowed drops settled rest post after := by
  obtain ⟨log, hchain, rfl, hpath⟩ := hcame
  induction hchain generalizing task with
  | nil =>
      cases hpath
      exact hsettles
  | cons hexec _ ih =>
      cases hpath with
      | step hpath =>
          refine ih (hsettles.2.2 _ _ hexec (hallowed _ List.mem_cons_self)) ?_ hpath
          exact fun event hmem => hallowed event (List.mem_cons_of_mem _ hmem)

/-- Where a task stops, it has come to rest. -/
theorem Settles.stops {log : List (Logged S σ)} {ending : Ending α}
    (hsettles : M.Settles who allowed drops settled task post state)
    (hstops : M.Stops who task log state ending) (hdrops : ending = .dropped → drops) :
    settled state ∨ ∃ value, ending = .returned value ∧ post value state := by
  cases hstops with
  | returned => exact Or.inr ⟨_, rfl, hsettles.2⟩
  | panicked choice hpanicked => exact Or.inl (hsettles.2.1 ⟨choice, hpanicked⟩)
  | waiting | answered => exact Or.inl (hsettles.dropped (hdrops rfl))

end Machine

end Coop
