import Authust.Coop.Interleave

/-! # Quiet stretches of a run

A relation between states that every quiet entry keeps relates the state to any state the run
has come through, as long as everything since has been quiet. Whether an entry is quiet may depend
on the log before it.
-/

namespace Coop

open Coop.Task

variable {S : Signature} {σ φ α β : Type}

namespace Machine

/-- Every entry of the log is quiet, from the one with the number on. -/
def QuietFrom (quiet : List (Logged S σ) → Logged S σ → Prop) (number : Nat)
    (log : List (Logged S σ)) : Prop :=
  ∀ first entry second, log = first ++ entry :: second → number ≤ first.length → quiet first entry

/-- The state is related to every recorded one since which all has been quiet. -/
def Since (quiet : List (Logged S σ) → Logged S σ → Prop) (related : σ → σ → Prop) (state : σ)
    (log : List (Logged S σ)) : Prop :=
  ∀ past seen middle, log = past ++ seen :: middle → QuietFrom quiet past.length log →
    related seen.before state

variable {M : Machine S σ φ} {quiet : List (Logged S σ) → Logged S σ → Prop}
  {related : σ → σ → Prop} {state after : σ} {log : List (Logged S σ)} {final : Logged S σ}
  {number : Nat}

theorem QuietFrom.at_end (hquiet : QuietFrom quiet number (log ++ [final]))
    (hnumber : number ≤ log.length) : quiet log final :=
  hquiet log final [] rfl hnumber

theorem QuietFrom.initial (hquiet : QuietFrom quiet number (log ++ [final])) :
    QuietFrom quiet number log := by
  intro first entry second hlog hnumber
  exact hquiet first entry (second ++ [final]) (by simp [hlog]) hnumber

theorem since_nil : Since quiet related state [] := by
  intro past seen middle hlog
  simp at hlog

theorem Since.mono (hsince : Since quiet related state log)
    (hrelated : ∀ before, related before state → related before after) :
    Since quiet related after log := by
  intro past seen middle hlog hquiet
  exact hrelated seen.before (hsince past seen middle hlog hquiet)

/-- One more entry, which keeps the relation if it is quiet. -/
theorem Since.snoc (hsince : Since quiet related final.before log)
    (htrans : ∀ first second third, related first second → related second third →
      related first third)
    (hlast : quiet log final → related final.before after) :
    Since quiet related after (log ++ [final]) := by
  intro past seen middle hlog hquiet
  rcases List.eq_nil_or_concat middle with rfl | ⟨front, other, rfl⟩
  · obtain ⟨rfl, hseen⟩ := List.append_inj' hlog rfl
    obtain rfl := List.singleton_inj.mp hseen
    exact hlast (hquiet.at_end (Nat.le_refl _))
  · rw [List.concat_eq_append, ← List.cons_append, ← List.append_assoc] at hlog
    obtain ⟨rfl, hother⟩ := List.append_inj' hlog rfl
    obtain rfl := List.singleton_inj.mp hother
    have hearlier := hsince past seen front rfl hquiet.initial
    refine htrans _ _ _ hearlier (hlast (hquiet.at_end ?_))
    simp

/-- If quiet operations, the ends of tasks and the surroundings keep a preorder, then under every
interleaving it relates the state to all it has come from by quiet entries alone. -/
theorem since_preserved {P : Private M β} {tasks : Nat → Task S α} {start : σ}
    {invariant : σ → List (Logged S σ) → Prop} (hpreserved : Preserved P tasks start invariant)
    (htrans : ∀ first second third, related first second → related second third →
      related first third)
    (hexec : ∀ {who : Nat} {state after : σ} {log : List (Logged S σ)} {event : Event S}
      {next : S.Res event.op → Task S α}, invariant state log → Issued M tasks log →
      Path (tasks who) (own who log) (.call event.op next) →
      P.view who state = (own who log).foldl P.next (P.view who start) →
      M.Exec who state event after → quiet log ⟨who, state, event⟩ → related state after)
    (hrelease : ∀ who state, related state (M.release who state))
    (hmoves : ∀ state after, M.moves state after → related state after) :
    Preserved P tasks start fun state log =>
      invariant state log ∧ Since quiet related state log where
  exec := by
    intro who state after log event next hinvariant hissued hpath hview hstep
    refine ⟨hpreserved.exec hinvariant.1 hissued hpath hview hstep, ?_⟩
    exact hinvariant.2.snoc htrans (hexec hinvariant.1 hissued hpath hview hstep)
  release := by
    intro who state log hinvariant
    refine ⟨hpreserved.release hinvariant.1, hinvariant.2.mono ?_⟩
    intro before hbefore
    exact htrans _ _ _ hbefore (hrelease who state)
  moves := by
    intro state after log hinvariant hmoved
    refine ⟨hpreserved.moves hinvariant.1 hmoved, hinvariant.2.mono ?_⟩
    intro before hbefore
    exact htrans _ _ _ hbefore (hmoves state after hmoved)

end Machine

end Coop
