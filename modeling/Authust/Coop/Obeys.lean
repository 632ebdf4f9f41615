import Authust.Coop.Task

/-! # Rules on the history of a task

A rule says which operations a task may issue after which history of its own.
Because histories only grow, a rule that a task obeys in isolation holds of it
under every interleaving with other tasks: nothing here mentions shared state.
-/

namespace Coop

namespace Task

variable {S : Signature} {α β : Type}

/-- Every operation issued from `history` on is allowed by `rule`, and `post` holds of
the complete history and the returned value. -/
def Obeys (rule : List (Event S) → S.Op → Prop) (post : List (Event S) → α → Prop) :
    Task S α → List (Event S) → Prop
  | done value, history => post history value
  | call op next, history =>
      rule history op ∧ ∀ res, Obeys rule post (next res) (history ++ [⟨op, res⟩])

/-- The task never issues an operation satisfying `bad`. -/
def Avoids (bad : S.Op → Prop) : Task S α → Prop
  | done _ => True
  | call op next => ¬ bad op ∧ ∀ res, Avoids bad (next res)

variable {rule : List (Event S) → S.Op → Prop} {post : List (Event S) → α → Prop}

theorem Obeys.path {task rest : Task S α} {start history : List (Event S)}
    (hobeys : Obeys rule post task start) (hpath : Path task history rest) :
    Obeys rule post rest (start ++ history) := by
  induction hpath generalizing start with
  | refl => simpa using hobeys
  | step _ ih => simpa using ih (hobeys.2 _)

/-- An issued operation was allowed. -/
theorem Obeys.allows {task : Task S α} {history : List (Event S)} {op : S.Op}
    {next : S.Res op → Task S α} (hobeys : Obeys rule post task [])
    (hpath : Path task history (call op next)) : rule history op :=
  (hobeys.path hpath).1

theorem Obeys.returns {task : Task S α} {history : List (Event S)} {value : α}
    (hobeys : Obeys rule post task []) (htrace : Trace task history value) :
    post history value :=
  hobeys.path htrace

theorem Obeys.mono {rule' : List (Event S) → S.Op → Prop} {post' : List (Event S) → α → Prop}
    {task : Task S α} {history : List (Event S)} (hobeys : Obeys rule post task history)
    (hrule : ∀ history op, rule history op → rule' history op)
    (hpost : ∀ history value, post history value → post' history value) :
    Obeys rule' post' task history := by
  induction task generalizing history with
  | done value => exact hpost _ _ hobeys
  | call op next ih => exact ⟨hrule _ _ hobeys.1, fun res => ih res (hobeys.2 res)⟩

/-- Sequencing: the second part may use that its past ends in a complete history of the
first part. -/
theorem Obeys.bind {task : Task S α} {f : α → Task S β} {post : List (Event S) → β → Prop}
    {history : List (Event S)} (htask : Obeys rule (fun _ _ => True) task history)
    (hrest : ∀ tail value, Trace task tail value →
      Obeys rule post (f value) (history ++ tail)) :
    Obeys rule post (task >>= f) history := by
  induction task generalizing history with
  | done value => simpa using hrest [] value (.refl _)
  | call op next ih =>
      refine ⟨htask.1, fun res => ih res (htask.2 res) ?_⟩
      intro tail value htail
      simpa using hrest (⟨op, res⟩ :: tail) value (.step htail)

/-- Sequencing by what the first part leaves behind. -/
theorem Obeys.bind_post {task : Task S α} {f : α → Task S β} {last : List (Event S) → β → Prop}
    {history : List (Event S)} (htask : Obeys rule post task history)
    (hrest : ∀ past value, post past value → Obeys rule last (f value) past) :
    Obeys rule last (task >>= f) history := by
  induction task generalizing history with
  | done value => exact hrest history value htask
  | call op next ih => exact ⟨htask.1, fun res => ih res (htask.2 res)⟩

@[simp] theorem obeys_done {value : α} {history : List (Event S)} :
    Obeys rule post (done value) history ↔ post history value := Iff.rfl

@[simp] theorem obeys_call {op : S.Op} {next : S.Res op → Task S α} {history : List (Event S)} :
    Obeys rule post (call op next) history ↔
      rule history op ∧ ∀ res, Obeys rule post (next res) (history ++ [⟨op, res⟩]) := Iff.rfl

theorem obeys_perform_bind {op : S.Op} {f : S.Res op → Task S α} {history : List (Event S)}
    (hop : rule history op) (hrest : ∀ res, Obeys rule post (f res) (history ++ [⟨op, res⟩])) :
    Obeys rule post (perform op >>= f) history :=
  ⟨hop, hrest⟩

section Avoids

variable {bad : S.Op → Prop}

@[simp] theorem avoids_done {value : α} : Avoids bad (done value : Task S α) := trivial

@[simp] theorem avoids_call {op : S.Op} {next : S.Res op → Task S α} :
    Avoids bad (call op next) ↔ ¬ bad op ∧ ∀ res, Avoids bad (next res) := Iff.rfl

theorem Avoids.bind {task : Task S α} {f : α → Task S β} (htask : Avoids bad task)
    (hrest : ∀ value, Avoids bad (f value)) : Avoids bad (task >>= f) := by
  induction task with
  | done value => exact hrest value
  | call op next ih => exact ⟨htask.1, fun res => ih res (htask.2 res)⟩

theorem Avoids.mono {other : S.Op → Prop} {task : Task S α} (havoids : Avoids bad task)
    (hother : ∀ op, other op → bad op) : Avoids other task := by
  induction task with
  | done value => trivial
  | call op next ih =>
      exact ⟨fun hop => havoids.1 (hother op hop), fun res => ih res (havoids.2 res)⟩

/-- A task obeys every rule that only constrains operations it never issues. -/
theorem Avoids.obeys {task : Task S α} (havoids : Avoids bad task)
    (hrule : ∀ history op, ¬ bad op → rule history op) (history : List (Event S)) :
    Obeys rule (fun _ _ => True) task history := by
  induction task generalizing history with
  | done value => trivial
  | call op next ih => exact ⟨hrule _ _ havoids.1, fun res => ih res (havoids.2 res) _⟩

/-- The same of a rule that depends on what such operations keep of the history. -/
theorem Avoids.obeys_while {keeps : List (Event S) → Prop} {task : Task S α}
    (havoids : Avoids bad task) (hrule : ∀ history op, keeps history → ¬ bad op → rule history op)
    (hkeeps : ∀ history op res, keeps history → ¬ bad op → keeps (history ++ [⟨op, res⟩]))
    {history : List (Event S)} (hhistory : keeps history) :
    Obeys rule (fun past _ => keeps past) task history := by
  induction task generalizing history with
  | done value => exact hhistory
  | call op next ih =>
      exact ⟨hrule _ _ hhistory havoids.1, fun res =>
        ih res (havoids.2 res) (hkeeps _ _ res hhistory havoids.1)⟩

/-- No event of a path of such a task is a `bad` operation. -/
theorem Avoids.path {task rest : Task S α} {history : List (Event S)}
    (havoids : Avoids bad task) (hpath : Path task history rest) :
    ∀ event ∈ history, ¬ bad event.op := by
  induction hpath with
  | refl => intro event hmem; cases hmem
  | step _ ih =>
      intro event hmem
      rcases List.mem_cons.mp hmem with rfl | hmem
      · exact havoids.1
      · exact ih (havoids.2 _) event hmem

theorem Avoids.rest {task rest : Task S α} {history : List (Event S)}
    (havoids : Avoids bad task) (hpath : Path task history rest) : Avoids bad rest := by
  induction hpath with
  | refl => exact havoids
  | step _ ih => exact ih (havoids.2 _)

section Classes

variable {flag : S.Op → Bool} {bad : Bool} {op : S.Op}

/-- An operation that is not of the class that `bad` marks. -/
theorem avoids_perform (hop : flag op = !bad) :
    Avoids (fun op => flag op = bad) (perform op : Task S (S.Res op)) :=
  ⟨by simp [hop], fun _ => avoids_done⟩

theorem avoids_perform_bind {f : S.Res op → Task S α} (hop : flag op = !bad)
    (hrest : ∀ res, Avoids (fun op => flag op = bad) (f res)) :
    Avoids (fun op => flag op = bad) (perform op >>= f) :=
  ⟨by simp [hop], hrest⟩

end Classes

end Avoids

end Task

end Coop
