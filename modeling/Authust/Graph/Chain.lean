import Mathlib.Data.Set.Finite.Basic
import Mathlib.Order.WellFounded
import Mathlib.Order.RelClasses
import Mathlib.Logic.Relation

/-! # Chains that end

Following a relation from one point ends where the relation, read backwards, makes the point
accessible. When finitely many points can be reached, this fails only by a point that is
reached again from itself.
-/

namespace Graph

open Relation

variable {α : Type} {r : α → α → Prop} {a b : α}

/-- Every chain from the point ends. -/
abbrev Ends (r : α → α → Prop) (a : α) : Prop := Acc (flip r) a

/-- Chains from a point that is reached end if those from the first point do. -/
theorem Ends.of_reached (hends : Ends r a) (hpath : ReflTransGen r a b) : Ends r b := by
  induction hpath with
  | refl => exact hends
  | tail _ hstep ih => exact ih.inv hstep

/-- A point that is reached again from itself starts a chain that does not end. -/
theorem Ends.not_transGen (hends : Ends r a) : ¬ TransGen r a a := by
  have hacc : Acc (TransGen (flip r)) a := hends.transGen
  induction hacc with
  | intro a _ ih => exact fun hcycle => ih a (transGen_swap.mpr hcycle) hends hcycle

theorem Ends.acyclic (hends : Ends r a) (hpath : ReflTransGen r a b) : ¬ TransGen r b b :=
  (hends.of_reached hpath).not_transGen

/-- Where finitely many points are reached and none of them again from itself, chains end. -/
theorem ends_of_acyclic (hfinite : {b | ReflTransGen r a b}.Finite)
    (hacyclic : ∀ b, ReflTransGen r a b → ¬ TransGen r b b) : Ends r a := by
  have hsub := hfinite.to_subtype
  let reached : {b | ReflTransGen r a b} → {b | ReflTransGen r a b} → Prop :=
    fun x y => TransGen (flip r) x.1 y.1
  have htrans : IsTrans _ reached := ⟨fun _ _ _ => TransGen.trans⟩
  have hirrefl : Std.Irrefl reached := ⟨fun x hcycle => hacyclic x.1 x.2 (transGen_swap.mp hcycle)⟩
  have hwf : WellFounded reached := Finite.wellFounded_of_trans_of_irrefl _
  -- what is reached from a reached point is reached
  have hends : ∀ x : {b | ReflTransGen r a b}, Ends r x.1 := by
    intro x
    induction x using hwf.induction with
    | h x ih => exact .intro _ fun y hstep => ih ⟨y, x.2.tail hstep⟩ (.single hstep)
  exact hends ⟨a, .refl⟩

end Graph
