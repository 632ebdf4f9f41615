import Mathlib.Data.List.Induction
import Authust.Coop.Obeys

/-! # Machines: what the operations do

A machine gives the operations of a signature their effect on a shared state, for the
task that issues them and for a choice of the environment (an error, a sample). A
suspending operation is an await point; all others run without giving way.
-/

namespace Coop

open Coop.Task

structure Machine (S : Signature) (σ φ : Type) where
  suspends : S.Op → Bool
  /-- `none` when the operation panics. -/
  exec : Nat → (op : S.Op) → φ → σ → Option (S.Res op × σ)
  /-- What is undone when a task ends, however it ends. -/
  release : Nat → σ → σ
  /-- Steps of the surroundings, taken by no task. -/
  moves : σ → σ → Prop

/-- How a task came to its end. -/
inductive Ending (α : Type) : Type
  | returned (value : α)
  | panicked
  | dropped

/-- An event of the task `who`, with the state it found. -/
structure Logged (S : Signature) (σ : Type) where
  who : Nat
  before : σ
  event : Event S

variable {S : Signature} {σ φ α : Type}

/-- The events of one task, in order. -/
def own (who : Nat) (log : List (Logged S σ)) : List (Event S) :=
  (log.filter fun entry => entry.who = who).map Logged.event

@[simp] theorem own_nil (who : Nat) : own who ([] : List (Logged S σ)) = [] := rfl

theorem own_append (who : Nat) (first second : List (Logged S σ)) :
    own who (first ++ second) = own who first ++ own who second := by
  simp [own]

theorem mem_own {who : Nat} {log : List (Logged S σ)} {event : Event S} :
    event ∈ own who log ↔ ∃ entry ∈ log, entry.who = who ∧ entry.event = event := by
  simp [own, and_assoc]

/-- Where an event of a task stands in the log. -/
theorem own_eq_append_cons {who : Nat} {log : List (Logged S σ)} {event : Event S}
    {first second : List (Event S)} (hown : own who log = first ++ event :: second) :
    ∃ past before rest, log = past ++ ⟨who, before, event⟩ :: rest ∧ own who past = first := by
  obtain ⟨head, tail, hfilter, hhead, htail⟩ := List.map_eq_append_iff.mp hown
  obtain ⟨front, back, rfl, hfront, hback⟩ := List.filter_eq_append_iff.mp hfilter
  obtain ⟨entry, later, rfl, rfl, _⟩ := List.map_eq_cons_iff.mp htail
  obtain ⟨others, rest, rfl, hothers, hwho, _⟩ := List.filter_eq_cons_iff.mp hback
  obtain rfl := of_decide_eq_true hwho
  refine ⟨front ++ others, entry.before, rest, by simp, ?_⟩
  have hnone : own entry.who others = [] := by
    rw [own, List.filter_eq_nil_iff.mpr hothers, List.map_nil]
  rw [own_append, hnone, List.append_nil, own, hfront, hhead]

theorem own_cons_self (who : Nat) (before : σ) (event : Event S) (log : List (Logged S σ)) :
    own who (⟨who, before, event⟩ :: log) = event :: own who log := by
  simp [own]

theorem own_singleton_self (who : Nat) (before : σ) (event : Event S) :
    own who [⟨who, before, event⟩] = [event] := by
  simp [own]

theorem own_singleton_other {who other : Nat} (hne : other ≠ who) (before : σ) (event : Event S) :
    own who [⟨other, before, event⟩] = [] := by
  simp [own, hne]

/-- Every entry of the log meets a condition on it and on the log before it. -/
def Throughout (condition : List (Logged S σ) → Logged S σ → Prop) (log : List (Logged S σ)) :
    Prop :=
  ∀ first entry second, log = first ++ entry :: second → condition first entry

section Throughout

variable {condition : List (Logged S σ) → Logged S σ → Prop} {log : List (Logged S σ)}

theorem throughout_nil : Throughout condition [] := by
  intro first entry second hlog
  simp at hlog

theorem Throughout.snoc (hthroughout : Throughout condition log) {last : Logged S σ}
    (hlast : condition log last) : Throughout condition (log ++ [last]) := by
  intro first entry second hlog
  rcases List.append_eq_append_iff.mp hlog with ⟨tail, rfl, hrest⟩ | ⟨tail, rfl, hrest⟩
  all_goals cases tail with
  | nil =>
      simp only [List.nil_append, List.cons.injEq] at hrest
      obtain ⟨rfl, _⟩ := hrest
      simpa using hlast
  | cons head tail =>
      simp only [List.cons_append, List.cons.injEq] at hrest
      first
      | exact hthroughout first entry tail (by rw [hrest.1])
      | simp at hrest

theorem Throughout.last {last : Logged S σ} (hthroughout : Throughout condition (log ++ [last])) :
    condition log last :=
  hthroughout log last [] rfl

theorem Throughout.initial {more : List (Logged S σ)}
    (hthroughout : Throughout condition (log ++ more)) : Throughout condition log := by
  rintro first entry second rfl
  exact hthroughout first entry (second ++ more) (by simp)

instance [∀ past entry, Decidable (condition past entry)] : Decidable (Throughout condition log) :=
  decidable_of_iff (∀ index : Fin log.length, condition (log.take index) (log.get index)) <| by
    constructor
    · rintro hall first entry second rfl
      simpa using hall ⟨first.length, by simp⟩
    · intro hthroughout index
      refine hthroughout _ _ (log.drop (index + 1)) ?_
      rw [List.get_eq_getElem, ← List.drop_eq_getElem_cons, List.take_append_drop]

end Throughout

namespace Machine

variable (M : Machine S σ φ)

/-- The operation of `event` may be answered as `event` says. -/
def Exec (who : Nat) (before : σ) (event : Event S) (after : σ) : Prop :=
  ∃ choice, M.exec who event.op choice before = some (event.res, after)

/-- Every entry of the log is an execution step from the state it records. -/
def Executed (log : List (Logged S σ)) : Prop :=
  ∀ entry ∈ log, ∃ after, M.Exec entry.who entry.before entry.event after

/-- A run of events of the task `who` with nothing in between. -/
inductive Chain (who : Nat) : σ → List (Logged S σ) → σ → Prop
  | nil (state : σ) : Chain who state [] state
  | cons {before middle after : σ} {event : Event S} {log : List (Logged S σ)} :
      M.Exec who before event middle → Chain who middle log after →
        Chain who before (⟨who, before, event⟩ :: log) after

variable {M}

theorem Chain.append {who : Nat} {before middle after : σ} {first second : List (Logged S σ)}
    (hfirst : M.Chain who before first middle) (hsecond : M.Chain who middle second after) :
    M.Chain who before (first ++ second) after := by
  induction hfirst with
  | nil => exact hsecond
  | cons hexec _ ih => exact .cons hexec (ih hsecond)

theorem Chain.snoc {who : Nat} {before middle after : σ} {log : List (Logged S σ)}
    {event : Event S} (hchain : M.Chain who before log middle)
    (hexec : M.Exec who middle event after) :
    M.Chain who before (log ++ [⟨who, middle, event⟩]) after :=
  hchain.append (.cons hexec (.nil _))

theorem Chain.split {who : Nat} {before after : σ} {first second : List (Logged S σ)}
    (hchain : M.Chain who before (first ++ second) after) :
    ∃ middle, M.Chain who before first middle ∧ M.Chain who middle second after := by
  induction first generalizing before with
  | nil => exact ⟨before, .nil _, hchain⟩
  | cons entry rest ih =>
      cases hchain with
      | cons hexec htail =>
          obtain ⟨middle, hfirst, hsecond⟩ := ih htail
          exact ⟨middle, .cons hexec hfirst, hsecond⟩

/-- The entry in the middle of a chain is an execution step from the state it records. -/
theorem Chain.entry {who : Nat} {before after : σ} {first second : List (Logged S σ)}
    {entry : Logged S σ} (hchain : M.Chain who before (first ++ entry :: second) after) :
    entry.who = who ∧ M.Chain who before first entry.before ∧
      ∃ middle, M.Exec who entry.before entry.event middle ∧ M.Chain who middle second after := by
  obtain ⟨state, hfirst, hsecond⟩ := hchain.split
  cases hsecond with
  | cons hexec htail => exact ⟨rfl, hfirst, _, hexec, htail⟩

/-- Where an event of a chain happened. -/
theorem Chain.of_mem {who : Nat} {before after : σ} {log : List (Logged S σ)} {event : Event S}
    (hchain : M.Chain who before log after) (hmem : event ∈ log.map Logged.event) :
    ∃ first state middle second, log = first ++ ⟨who, state, event⟩ :: second ∧
      M.Chain who before first state ∧ M.Exec who state event middle ∧
        M.Chain who middle second after := by
  obtain ⟨entry, hentry, rfl⟩ := List.mem_map.mp hmem
  obtain ⟨first, second, rfl⟩ := List.append_of_mem hentry
  obtain ⟨rfl, hfirst, middle, hexec, hsecond⟩ := hchain.entry
  exact ⟨first, entry.before, middle, second, rfl, hfirst, hexec, hsecond⟩

/-- A chain is cut where its history is. -/
theorem Chain.of_append {who : Nat} {before after : σ} {log : List (Logged S σ)}
    {first second : List (Event S)} (hchain : M.Chain who before log after)
    (hevents : log.map Logged.event = first ++ second) :
    ∃ head tail middle, log = head ++ tail ∧ head.map Logged.event = first ∧
      tail.map Logged.event = second ∧ M.Chain who before head middle ∧
        M.Chain who middle tail after := by
  obtain ⟨head, tail, rfl, hhead, htail⟩ := List.map_eq_append_iff.mp hevents
  obtain ⟨middle, hfirst, hsecond⟩ := hchain.split
  exact ⟨head, tail, middle, rfl, hhead, htail, hfirst, hsecond⟩

theorem Chain.of_cons {who : Nat} {before after : σ} {log : List (Logged S σ)} {event : Event S}
    {rest : List (Event S)} (hchain : M.Chain who before log after)
    (hevents : log.map Logged.event = event :: rest) :
    ∃ tail middle, log = ⟨who, before, event⟩ :: tail ∧ tail.map Logged.event = rest ∧
      M.Exec who before event middle ∧ M.Chain who middle tail after := by
  cases hchain with
  | nil => cases hevents
  | cons hexec htail =>
      simp only [List.map_cons, List.cons.injEq] at hevents
      obtain ⟨rfl, hrest⟩ := hevents
      exact ⟨_, _, rfl, hrest, hexec, htail⟩

theorem Chain.executed {who : Nat} {before after : σ} {log : List (Logged S σ)}
    (hchain : M.Chain who before log after) : M.Executed log := by
  intro entry hmem
  obtain ⟨first, second, rfl⟩ := List.append_of_mem hmem
  obtain ⟨rfl, _, middle, hexec, _⟩ := hchain.entry
  exact ⟨middle, hexec⟩

/-- A property of the state preserved by every step of a chain. -/
theorem Chain.invariant {who : Nat} {before after : σ} {log : List (Logged S σ)}
    (invariant : σ → Prop) (hchain : M.Chain who before log after)
    (hstep : ∀ state event next, (∃ entry ∈ log, entry.event = event ∧ entry.before = state) →
      M.Exec who state event next → invariant state → invariant next)
    (hbefore : invariant before) : invariant after := by
  induction hchain with
  | nil => exact hbefore
  | @cons before middle after event log hexec _ ih =>
      apply ih
      · rintro state event' next ⟨entry, hmem, heq⟩
        exact hstep state event' next ⟨entry, List.mem_cons_of_mem _ hmem, heq⟩
      · exact hstep before event middle ⟨_, List.mem_cons_self, rfl, rfl⟩ hexec hbefore

/-- Induction on what has been done so far. -/
theorem Chain.snoc_induction {who : Nat} {before after : σ} {log : List (Logged S σ)}
    {motive : List (Logged S σ) → σ → Prop} (hchain : M.Chain who before log after)
    (hnil : motive [] before)
    (hsnoc : ∀ first state event next second, log = first ++ ⟨who, state, event⟩ :: second →
      M.Chain who before first state → M.Exec who state event next → motive first state →
        motive (first ++ [⟨who, state, event⟩]) next) : motive log after := by
  induction log using List.reverseRecOn generalizing after with
  | nil =>
      cases hchain
      exact hnil
  | append_singleton log entry ih =>
      obtain ⟨middle, hfirst, hlast⟩ := hchain.split
      cases hlast with
      | @cons _ _ _ last _ hexec htail =>
          cases htail
          refine hsnoc log middle last after [] rfl hfirst hexec (ih hfirst ?_)
          rintro first state event next second rfl
          exact hsnoc first state event next (second ++ [⟨who, middle, last⟩]) (by simp)

theorem Chain.own_eq {who : Nat} {before after : σ} {log : List (Logged S σ)}
    (hchain : M.Chain who before log after) : own who log = log.map Logged.event := by
  induction hchain with
  | nil => rfl
  | cons _ _ ih => simpa [own] using ih

theorem Chain.who_eq {who : Nat} {before after : σ} {log : List (Logged S σ)}
    (hchain : M.Chain who before log after) : ∀ entry ∈ log, entry.who = who := by
  induction hchain with
  | nil => intro entry hmem; cases hmem
  | cons _ _ ih =>
      intro entry hmem
      rcases List.mem_cons.mp hmem with rfl | hmem
      · rfl
      · exact ih entry hmem

/-- A part of the state that is kept apart for every task: only the operations and the end
of a task change its own part, and its operations change it by their events alone. -/
structure Private (M : Machine S σ φ) (β : Type) where
  view : Nat → σ → β
  next : β → Event S → β
  exec_self : ∀ {who : Nat} {before after : σ} {event : Event S},
    M.Exec who before event after → view who after = next (view who before) event
  exec_other : ∀ {who other : Nat} {before after : σ} {event : Event S}, other ≠ who →
    M.Exec who before event after → view other after = view other before
  release : ∀ {who other : Nat} {state : σ}, other ≠ who →
    view other (M.release who state) = view other state
  moves : ∀ {who : Nat} {before after : σ}, M.moves before after → view who after = view who before

/-- No private part. -/
def Private.nothing (M : Machine S σ φ) : Private M Unit where
  view := fun _ _ => ()
  next := fun _ _ => ()
  exec_self := fun _ => rfl
  exec_other := fun _ _ => rfl
  release := fun _ => rfl
  moves := fun _ => rfl

/-- Along a chain the private part is a fold over its events. -/
theorem Chain.view_eq {β : Type} (P : Private M β) {who : Nat} {before after : σ}
    {log : List (Logged S σ)} (hchain : M.Chain who before log after) :
    P.view who after = (log.map Logged.event).foldl P.next (P.view who before) := by
  induction hchain with
  | nil => rfl
  | cons hexec _ ih =>
      rw [ih, P.exec_self hexec]
      rfl

end Machine

end Coop
