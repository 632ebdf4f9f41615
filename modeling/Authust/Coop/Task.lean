import Mathlib.Control.Lawful
import Mathlib.Data.List.Basic

/-! # Cooperative tasks

An asynchronous function is a tree of calls to a fixed signature of operations:
each node issues one operation and continues with its answer. What an operation
does to shared state, and at which operations a task gives way to others, is
decided by a machine and not here; this module knows only the order in which a
task issues its calls.
-/

namespace Coop

/-- The operations a task may issue and the type of the answer to each. -/
structure Signature where
  Op : Type
  Res : Op → Type

inductive Task (S : Signature) (α : Type) : Type
  | done (value : α)
  | call (op : S.Op) (next : S.Res op → Task S α)

/-- One issued operation together with the answer it received. -/
structure Event (S : Signature) where
  op : S.Op
  res : S.Res op

namespace Task

variable {S : Signature} {α β γ : Type}

def bind : Task S α → (α → Task S β) → Task S β
  | done value, f => f value
  | call op next, f => call op fun res => (next res).bind f

def perform (op : S.Op) : Task S (S.Res op) := call op done

instance : Monad (Task S) where
  pure := done
  bind := bind

@[simp] theorem pure_eq_done (value : α) : (pure value : Task S α) = done value := rfl

@[simp] theorem done_bind (value : α) (f : α → Task S β) : done value >>= f = f value := rfl

@[simp] theorem call_bind (op : S.Op) (next : S.Res op → Task S α) (f : α → Task S β) :
    call op next >>= f = call op fun res => next res >>= f := rfl

@[simp] theorem map_done (f : α → β) (value : α) : f <$> (done value : Task S α) = done (f value) :=
  rfl

@[simp] theorem map_call (f : α → β) (op : S.Op) (next : S.Res op → Task S α) :
    f <$> call op next = call op fun res => f <$> next res := rfl

@[simp] theorem perform_eq_call (op : S.Op) : perform op = (call op done : Task S (S.Res op)) :=
  rfl

theorem bind_done_right (task : Task S α) : task >>= done = task := by
  induction task with
  | done value => rfl
  | call op next ih => simp only [call_bind, ih]

theorem bind_assoc' (task : Task S α) (f : α → Task S β) (g : β → Task S γ) :
    task >>= f >>= g = task >>= fun value => f value >>= g := by
  induction task with
  | done value => rfl
  | call op next ih => simp only [call_bind, ih]

instance : LawfulMonad (Task S) :=
  LawfulMonad.mk' (Task S) (fun task => bind_done_right task) (fun _ _ => rfl) bind_assoc'

/-- `Path task history rest`: answering the calls of `task` by `history` leaves `rest`. -/
inductive Path : Task S α → List (Event S) → Task S α → Prop
  | refl (task : Task S α) : Path task [] task
  | step {op : S.Op} {next : S.Res op → Task S α} {res : S.Res op}
      {history : List (Event S)} {rest : Task S α} :
      Path (next res) history rest → Path (call op next) (⟨op, res⟩ :: history) rest

/-- A complete history of a task, with the value it returns. -/
def Trace (task : Task S α) (history : List (Event S)) (value : α) : Prop :=
  Path task history (done value)

theorem path_done {value : α} {history : List (Event S)} {rest : Task S α} :
    Path (done value) history rest ↔ history = [] ∧ rest = done value := by
  constructor
  · intro hpath
    cases hpath
    exact ⟨rfl, rfl⟩
  · rintro ⟨rfl, rfl⟩
    exact .refl _

theorem path_call {op : S.Op} {next : S.Res op → Task S α} {history : List (Event S)}
    {rest : Task S α} :
    Path (call op next) history rest ↔
      (history = [] ∧ rest = call op next) ∨
        ∃ res tail, history = ⟨op, res⟩ :: tail ∧ Path (next res) tail rest := by
  constructor
  · intro hpath
    cases hpath with
    | refl => exact Or.inl ⟨rfl, rfl⟩
    | step htail => exact Or.inr ⟨_, _, rfl, htail⟩
  · rintro (⟨rfl, rfl⟩ | ⟨res, tail, rfl, htail⟩)
    · exact .refl _
    · exact .step htail

theorem Path.append {task middle rest : Task S α} {first second : List (Event S)}
    (hfirst : Path task first middle) (hsecond : Path middle second rest) :
    Path task (first ++ second) rest := by
  induction hfirst with
  | refl => exact hsecond
  | step _ ih => exact .step (ih hsecond)

theorem Path.split {task rest : Task S α} {first second : List (Event S)}
    (hpath : Path task (first ++ second) rest) :
    ∃ middle, Path task first middle ∧ Path middle second rest := by
  induction first generalizing task with
  | nil => exact ⟨task, .refl _, hpath⟩
  | cons event tail ih =>
      cases hpath with
      | step htail =>
          obtain ⟨middle, hfirst, hsecond⟩ := ih htail
          exact ⟨middle, .step hfirst, hsecond⟩

/-- Answering one more call. -/
theorem Path.snoc {task : Task S α} {history : List (Event S)} {op : S.Op}
    {next : S.Res op → Task S α} (hpath : Path task history (call op next)) (res : S.Res op) :
    Path task (history ++ [⟨op, res⟩]) (next res) :=
  hpath.append (.step (.refl _))

theorem Path.bind {task rest : Task S α} {history : List (Event S)}
    (hpath : Path task history rest) (f : α → Task S β) :
    Path (task >>= f) history (rest >>= f) := by
  induction hpath with
  | refl => exact .refl _
  | step _ ih => exact .step ih

/-- A path of a sequence either stays inside its first part, or completes it. -/
theorem path_bind {task : Task S α} {f : α → Task S β} {history : List (Event S)}
    {rest : Task S β} (hpath : Path (task >>= f) history rest) :
    (∃ inner, Path task history inner ∧ rest = inner >>= f) ∨
      ∃ first value second, Trace task first value ∧ Path (f value) second rest ∧
        history = first ++ second := by
  induction task generalizing history with
  | done value => exact Or.inr ⟨[], value, history, .refl _, hpath, rfl⟩
  | call op next ih =>
      rcases path_call.mp hpath with ⟨rfl, rfl⟩ | ⟨res, tail, rfl, htail⟩
      · exact Or.inl ⟨_, .refl _, rfl⟩
      · rcases ih res htail with ⟨inner, hinner, rfl⟩ | ⟨first, value, second, hfirst, hsecond, rfl⟩
        · exact Or.inl ⟨inner, .step hinner, rfl⟩
        · exact Or.inr ⟨_, value, second, .step hfirst, hsecond, rfl⟩

@[simp] theorem trace_done {value result : α} {history : List (Event S)} :
    Trace (done value : Task S α) history result ↔ history = [] ∧ result = value := by
  simp only [Trace, path_done, done.injEq]

@[simp] theorem trace_call {op : S.Op} {next : S.Res op → Task S α} {history : List (Event S)}
    {result : α} :
    Trace (call op next) history result ↔
      ∃ res tail, history = ⟨op, res⟩ :: tail ∧ Trace (next res) tail result := by
  simp only [Trace, path_call, reduceCtorEq, and_false, false_or]

theorem trace_perform {op : S.Op} {history : List (Event S)} {res : S.Res op} :
    Trace (perform op) history res ↔ history = [⟨op, res⟩] := by
  simp only [perform, trace_call, trace_done]
  constructor
  · rintro ⟨_, _, rfl, rfl, rfl⟩
    rfl
  · rintro rfl
    exact ⟨res, [], rfl, rfl, rfl⟩

theorem trace_bind {task : Task S α} {f : α → Task S β} {history : List (Event S)}
    {result : β} :
    Trace (task >>= f) history result ↔
      ∃ first value second, Trace task first value ∧ Trace (f value) second result ∧
        history = first ++ second := by
  constructor
  · intro htrace
    rcases path_bind htrace with ⟨inner, hinner, hrest⟩ | htrace
    · cases inner with
      | done value =>
          rw [done_bind] at hrest
          refine ⟨history, value, [], hinner, ?_, (List.append_nil history).symm⟩
          rw [← hrest]
          exact .refl _
      | call op next => cases hrest
    · exact htrace
  · rintro ⟨first, value, second, hfirst, hsecond, rfl⟩
    exact (hfirst.bind f).append hsecond

theorem trace_map {f : α → β} {task : Task S α} {history : List (Event S)} {result : β} :
    Trace (f <$> task) history result ↔ ∃ value, Trace task history value ∧ result = f value := by
  rw [map_eq_pure_bind, trace_bind]
  constructor
  · rintro ⟨first, value, second, hfirst, hsecond, rfl⟩
    obtain ⟨rfl, rfl⟩ := trace_done.mp hsecond
    exact ⟨value, by rwa [List.append_nil], rfl⟩
  · rintro ⟨value, htrace, rfl⟩
    exact ⟨history, value, [], htrace, .refl _, (List.append_nil history).symm⟩

theorem trace_perform_bind {op : S.Op} {f : S.Res op → Task S β} {history : List (Event S)}
    {result : β} :
    Trace (perform op >>= f) history result ↔
      ∃ res tail, history = ⟨op, res⟩ :: tail ∧ Trace (f res) tail result := by
  simp only [perform, call_bind, done_bind, trace_call]

/-- A list of answers tells one complete history of a task. -/
theorem Trace.unique {task : Task S α} {first first' second second' : List (Event S)}
    {value value' : α} (htrace : Trace task first value) (htrace' : Trace task first' value')
    (heq : first ++ second = first' ++ second') : first = first' ∧ value = value' := by
  induction task generalizing first first' with
  | done result =>
      obtain ⟨rfl, rfl⟩ := trace_done.mp htrace
      obtain ⟨rfl, rfl⟩ := trace_done.mp htrace'
      exact ⟨rfl, rfl⟩
  | call op next ih =>
      obtain ⟨res, tail, rfl, htail⟩ := trace_call.mp htrace
      obtain ⟨res', tail', rfl, htail'⟩ := trace_call.mp htrace'
      simp only [List.cons_append, List.cons.injEq, Event.mk.injEq, heq_eq_eq, true_and] at heq
      obtain ⟨rfl, hrest⟩ := heq
      obtain ⟨rfl, rfl⟩ := ih res htail htail' hrest
      exact ⟨rfl, rfl⟩

/-- A sequence whose first part has its complete history goes on with the second. -/
theorem Path.resume {task : Task S α} {f : α → Task S β} {first second : List (Event S)} {value : α}
    {rest : Task S β} (hpath : Path (task >>= f) (first ++ second) rest)
    (htrace : Trace task first value) : Path (f value) second rest := by
  induction task generalizing first with
  | done result =>
      obtain ⟨rfl, rfl⟩ := trace_done.mp htrace
      exact hpath
  | call op next ih =>
      obtain ⟨res, tail, rfl, htail⟩ := trace_call.mp htrace
      cases hpath with
      | step hpath => exact ih res hpath htail

end Task

end Coop
