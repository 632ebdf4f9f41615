import Authust.Coop.Task

/-! # A task among more operations

A task over one signature runs unchanged next to tasks that issue further operations: it
is translated along the inclusion of its signature, and its paths are translated with it.
-/

namespace Coop

/-- The operations of two signatures. -/
abbrev Signature.sum (S T : Signature) : Signature where
  Op := S.Op ⊕ T.Op
  Res := Sum.elim S.Res T.Res

variable {S T : Signature} {α : Type}

def Event.translate (event : Event S) : Event (S.sum T) := ⟨.inl event.op, event.res⟩

namespace Task

def translate : Task S α → Task (S.sum T) α
  | done value => done value
  | call op next => .call (.inl op) fun res => translate (next res)

/-- A translated task takes the paths of the task and no others. -/
theorem path_translate {task : Task S α} {history : List (Event (S.sum T))}
    {rest : Task (S.sum T) α} :
    Path task.translate history rest ↔
      ∃ events left, Path task events left ∧ history = events.map Event.translate ∧
        rest = left.translate := by
  constructor
  · intro hpath
    induction task generalizing history with
    | done value =>
        obtain ⟨rfl, rfl⟩ := path_done.mp hpath
        exact ⟨[], _, .refl _, rfl, rfl⟩
    | call op next ih =>
        rcases path_call.mp hpath with ⟨rfl, rfl⟩ | ⟨res, tail, rfl, htail⟩
        · exact ⟨[], _, .refl _, rfl, rfl⟩
        · obtain ⟨events, left, hevents, rfl, rfl⟩ := ih res htail
          exact ⟨⟨op, res⟩ :: events, left, .step hevents, rfl, rfl⟩
  · rintro ⟨events, left, hevents, rfl, rfl⟩
    induction hevents with
    | refl => exact .refl _
    | step _ ih => exact .step ih

theorem trace_translate {task : Task S α} {history : List (Event (S.sum T))} {value : α} :
    Trace task.translate history value ↔
      ∃ events, Trace task events value ∧ history = events.map Event.translate := by
  rw [Trace, path_translate]
  constructor
  · rintro ⟨events, left, hevents, rfl, hleft⟩
    cases left with
    | done result =>
        cases hleft
        exact ⟨events, hevents, rfl⟩
    | call op next => cases hleft
  · rintro ⟨events, hevents, rfl⟩
    exact ⟨events, done value, hevents, rfl, rfl⟩

end Task

end Coop
