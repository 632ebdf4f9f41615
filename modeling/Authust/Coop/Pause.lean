import Mathlib.Data.List.Forall2
import Authust.Coop.Fallible
import Authust.Coop.Serial

/-! # Pauses

An operation that gives way, changes nothing and is always answered alike only makes a task wait.
Tasks that differ in how often they wait in a row, where they wait at all, cannot be told apart
by what they do to the state or by what they return.
-/

namespace Coop

namespace Task

variable {S : Signature} {α : Type}

/-- Issue an operation again and again. -/
def times (op : S.Op) : Nat → Task S Unit
  | 0 => done ()
  | count + 1 => call op fun _ => times op count

end Task

open Coop.Task

variable {S : Signature} {σ φ ε α β Req : Type}

namespace Machine

variable (M : Machine S σ φ)

/-- A task stops before its next operation: the operation panics, or the task is dropped while
it waits for it. -/
inductive Halts (who : Nat) (op : S.Op) (state : σ) : Ending α → Prop
  | panicked (choice : φ) : M.exec who op choice state = none → Halts who op state .panicked
  | waiting : M.suspends op = true → Halts who op state .dropped

variable {M}

/-- A task that issues an operation stops before it, or right after it, or goes on. -/
theorem Serves.cases_call {op : S.Op} {next : S.Res op → Task S α} {served : Served S σ α}
    (hserves : M.Serves (.call op next) served) :
    (served.log = [] ∧ served.after = served.before ∧
      M.Halts served.who op served.before served.ending) ∨
    ∃ res middle tail, M.Exec served.who served.before ⟨op, res⟩ middle ∧
      served.log = ⟨served.who, served.before, ⟨op, res⟩⟩ :: tail ∧
        (M.Serves (next res) { served with before := middle, log := tail } ∨
          tail = [] ∧ served.after = middle ∧ M.suspends op = true ∧ served.ending = .dropped) := by
  obtain ⟨who, before, log, after, ending⟩ := served
  obtain ⟨hchain, rest, hpath, hstops⟩ := hserves
  dsimp only at hchain hpath hstops ⊢
  cases hchain with
  | nil =>
      apply Or.inl
      cases hpath
      generalize hlog : ([] : List (Logged S σ)) = log at hstops
      cases hstops with
      | panicked choice hpanic => exact ⟨rfl, rfl, .panicked choice hpanic⟩
      | waiting hsuspends => exact ⟨rfl, rfl, .waiting hsuspends⟩
      | answered hsuspends => simp at hlog
  | @cons _ middle _ event tail hexec hchain =>
      cases hpath with
      | @step _ _ res _ _ hpath =>
          refine Or.inr ⟨res, middle, tail, hexec, rfl, ?_⟩
          generalize hlog : (⟨who, before, ⟨op, res⟩⟩ :: tail : List (Logged S σ)) = log at hstops
          cases hstops with
          | returned => exact Or.inl ⟨hchain, _, hpath, .returned⟩
          | panicked choice hpanic => exact Or.inl ⟨hchain, _, hpath, .panicked choice hpanic⟩
          | waiting hsuspends => exact Or.inl ⟨hchain, _, hpath, .waiting hsuspends⟩
          | @answered _ first last _ hsuspends =>
              cases first with
              | nil =>
                  simp only [List.nil_append, List.cons.injEq] at hlog
                  obtain ⟨rfl, rfl⟩ := hlog
                  cases hchain
                  exact Or.inr ⟨rfl, rfl, hsuspends, rfl⟩
              | cons head first =>
                  simp only [List.cons_append, List.cons.injEq] at hlog
                  obtain ⟨rfl, rfl⟩ := hlog
                  exact Or.inl ⟨hchain, _, hpath, .answered hsuspends⟩

theorem Halts.serves {op : S.Op} {next : S.Res op → Task S α} {who : Nat} {state : σ}
    {ending : Ending α} (hhalts : M.Halts who op state ending) :
    M.Serves (.call op next) ⟨who, state, [], state, ending⟩ := by
  refine ⟨.nil _, _, .refl _, ?_⟩
  cases hhalts with
  | panicked choice hpanic => exact .panicked choice hpanic
  | waiting hsuspends => exact .waiting hsuspends

/-- Dropped right after its first operation. -/
theorem Serves.drop {op : S.Op} {next : S.Res op → Task S α} {who : Nat} {before after : σ}
    {res : S.Res op} (hexec : M.Exec who before ⟨op, res⟩ after)
    (hsuspends : M.suspends op = true) :
    M.Serves (.call op next) ⟨who, before, [⟨who, before, ⟨op, res⟩⟩], after, .dropped⟩ :=
  ⟨.cons hexec (.nil _), _, .step (.refl _), @Stops.answered _ _ _ _ M _ _ [] _ _ hsuspends⟩

theorem Serves.cons {op : S.Op} {next : S.Res op → Task S α} {served : Served S σ α} {before : σ}
    {res : S.Res op} (hexec : M.Exec served.who before ⟨op, res⟩ served.before)
    (hserves : M.Serves (next res) served) :
    M.Serves (.call op next)
      { served with before := before, log := ⟨served.who, before, ⟨op, res⟩⟩ :: served.log } := by
  obtain ⟨hchain, rest, hpath, hstops⟩ := hserves
  exact ⟨.cons hexec hchain, rest, .step hpath, hstops.cons⟩

variable (M) in
/-- An operation that only waits. -/
structure Pause where
  op : S.Op
  answer : S.Res op
  isPause : S.Op → Bool
  isPause_iff : ∀ other, isPause other = true ↔ other = op
  suspends : M.suspends op = true
  exec : ∀ who choice state, M.exec who op choice state = some (answer, state)

namespace Pause

variable (P : M.Pause)

/-- A log without its pauses. -/
def without (log : List (Logged S σ)) : List (Logged S σ) :=
  log.filter fun entry => !P.isPause entry.event.op

/-- The same but for the pauses. -/
structure Alike (first second : Served S σ α) : Prop where
  who : first.who = second.who
  before : first.before = second.before
  log : P.without first.log = P.without second.log
  after : first.after = second.after
  ending : first.ending = second.ending

/-- Tasks that differ at most in how often they pause in a row. -/
inductive Matches : Task S α → Task S α → Prop
  | done (value : α) : Matches (.done value) (.done value)
  | call {op : S.Op} {next next' : S.Res op → Task S α} :
      (∀ res, Matches (next res) (next' res)) → Matches (.call op next) (.call op next')
  | pauses {first second : Nat} {task task' : Task S α} : Matches task task' →
      Matches (times P.op (first + 1) >>= fun _ => task)
        (times P.op (second + 1) >>= fun _ => task')

variable {P}

theorem Alike.refl (served : Served S σ α) : P.Alike served served :=
  ⟨rfl, rfl, rfl, rfl, rfl⟩

theorem Alike.cons {served served' : Served S σ α} (halike : P.Alike served served') (before : σ)
    (event : Event S) :
    P.Alike { served with before := before, log := ⟨served.who, before, event⟩ :: served.log }
      { served' with before := before, log := ⟨served'.who, before, event⟩ :: served'.log } where
  who := halike.who
  before := rfl
  log := by
    have hlog := halike.log
    unfold without at hlog ⊢
    rw [List.filter_cons, List.filter_cons, hlog, halike.who]
  after := halike.after
  ending := halike.ending

theorem without_cons (who : Nat) (before : σ) (res : S.Res P.op) (log : List (Logged S σ)) :
    P.without (⟨who, before, ⟨P.op, res⟩⟩ :: log) = P.without log := by
  unfold without
  rw [List.filter_cons_of_neg]
  simp [P.isPause_iff]

section Serves

variable {next : S.Res P.op → Task S α} {f : Unit → Task S α} {served : Served S σ α}

/-- Dropped during a pause. -/
structure Dropped (P : M.Pause) (served : Served S σ α) : Prop where
  after : served.after = served.before
  log : P.without served.log = []
  ending : served.ending = .dropped

theorem serves_pause (hserves : M.Serves (.call P.op next) served) :
    P.Dropped served ∨ ∃ tail, P.without served.log = P.without tail ∧ Nonempty φ ∧
      M.Serves (next P.answer) { served with log := tail } := by
  rcases hserves.cases_call with ⟨hlog, hafter, hhalts⟩ | ⟨res, middle, tail, hexec, hlog, hrest⟩
  · refine Or.inl ⟨hafter, by rw [hlog]; rfl, ?_⟩
    generalize served.ending = ending at hhalts
    cases hhalts with
    | panicked choice hpanic => simp [P.exec] at hpanic
    | waiting => rfl
  · obtain ⟨choice, hexec⟩ := hexec
    rw [P.exec] at hexec
    cases hexec
    have hwithout : P.without served.log = P.without tail := by
      rw [hlog, without_cons]
    rcases hrest with hrest | ⟨rfl, hafter, _, hending⟩
    · exact Or.inr ⟨tail, hwithout, ⟨choice⟩, hrest⟩
    · exact Or.inl ⟨hafter, hwithout, hending⟩

/-- A task is dropped during its pauses, or served behind them. -/
theorem serves_times {count : Nat} (hserves : M.Serves (times P.op (count + 1) >>= f) served) :
    P.Dropped served ∨ ∃ tail, P.without served.log = P.without tail ∧ Nonempty φ ∧
      M.Serves (f ()) { served with log := tail } := by
  induction count generalizing served with
  | zero => exact serves_pause hserves
  | succ count ih =>
      rcases serves_pause hserves with hdropped | ⟨tail, hlog, _, hrest⟩
      · exact Or.inl hdropped
      · rcases ih hrest with hdropped | ⟨later, hlater, hchoice, hlast⟩
        · exact Or.inl ⟨hdropped.after, hlog.trans hdropped.log, hdropped.ending⟩
        · exact Or.inr ⟨later, hlog.trans hlater, hchoice, hlast⟩

theorem Dropped.serves (hdropped : P.Dropped served) :
    ∃ served', M.Serves (.call P.op next) served' ∧ P.Alike served served' :=
  ⟨⟨served.who, served.before, [], served.before, .dropped⟩, (Halts.waiting P.suspends).serves,
    rfl, rfl, hdropped.log, hdropped.after, hdropped.ending⟩

theorem serves_behind [Nonempty φ] (count : Nat) {task : Task S α}
    (hserves : M.Serves task served) :
    ∃ served', M.Serves (times P.op count >>= fun _ => task) served' ∧
      P.Alike served served' := by
  induction count with
  | zero => exact ⟨served, hserves, .refl served⟩
  | succ count ih =>
      obtain ⟨served', hserves', halike⟩ := ih
      have hexec : M.Exec served'.who served'.before ⟨P.op, P.answer⟩ served'.before :=
        ⟨Classical.ofNonempty, P.exec _ _ _⟩
      refine ⟨_, Serves.cons hexec hserves', halike.who, halike.before, ?_, halike.after,
        halike.ending⟩
      rw [without_cons, halike.log]

/-- Tasks that match are served alike. -/
theorem Matches.serves {task task' : Task S α} (hmatches : P.Matches task task')
    (hserves : M.Serves task served) :
    ∃ served', M.Serves task' served' ∧ P.Alike served served' := by
  induction hmatches generalizing served with
  | done value => exact ⟨served, hserves, .refl served⟩
  | call _ ih =>
      obtain ⟨who, before, log, after, ending⟩ := served
      have hcases := hserves.cases_call
      dsimp only at hcases
      rcases hcases with ⟨rfl, rfl, hhalts⟩ | ⟨res, middle, tail, hexec, rfl, hrest⟩
      · exact ⟨_, hhalts.serves, .refl _⟩
      · rcases hrest with hrest | ⟨rfl, rfl, hsuspends, rfl⟩
        · obtain ⟨⟨who', middle', log', after', ending'⟩, hserves', halike⟩ := ih res hrest
          have hcons := halike.cons before ⟨_, res⟩
          obtain ⟨rfl, rfl, _, rfl, rfl⟩ := halike
          exact ⟨_, Serves.cons hexec hserves', hcons⟩
        · exact ⟨_, Serves.drop hexec hsuspends, .refl _⟩
  | @pauses first second _ _ _ ih =>
      -- both pause at least once, so that either may be dropped where the other is
      rcases serves_times hserves with hdropped | ⟨tail, hlog, hchoice, hrest⟩
      · exact hdropped.serves
      · obtain ⟨middle, hmiddle, halike⟩ := ih hrest
        obtain ⟨served', hserves', halike'⟩ := serves_behind (second + 1) hmiddle
        exact ⟨served', hserves', halike.who.trans halike'.who, halike.before.trans halike'.before,
          hlog.trans (halike.log.trans halike'.log), halike.after.trans halike'.after,
          halike.ending.trans halike'.ending⟩

end Serves

namespace Matches

theorem refl (task : Task S α) : P.Matches task task := by
  induction task with
  | done value => exact .done value
  | call op next ih => exact .call ih

theorem bind {task task' : Task S α} (hmatches : P.Matches task task') {f f' : α → Task S β}
    (hrest : ∀ value, P.Matches (f value) (f' value)) : P.Matches (task >>= f) (task' >>= f') := by
  induction hmatches with
  | done value => exact hrest value
  | call _ ih => exact .call ih
  | pauses _ ih =>
      rw [bind_assoc', bind_assoc']
      exact .pauses ih

theorem map {task task' : Task S α} (hmatches : P.Matches task task') (f : α → β) :
    P.Matches (f <$> task) (f <$> task') := by
  rw [map_eq_pure_bind, map_eq_pure_bind]
  exact hmatches.bind fun value => .done (f value)

/-- A sequence that may fail and its match differ where the second parts do. -/
theorem run_bind {task : ExceptT ε (Task S) α} {f f' : α → ExceptT ε (Task S) β}
    (hrest : ∀ value, P.Matches (f value).run (f' value).run) :
    P.Matches (task >>= f).run (task >>= f').run := by
  rw [Task.run_bind, Task.run_bind]
  apply (refl task.run).bind
  intro result
  cases result with
  | ok value => exact hrest value
  | error error => exact .done _

end Matches

/-- Requests whose tasks match are served alike in a whole run. -/
theorem matches_serial {handler : Req → Task S α} {related : Req → Req → Prop}
    (hmatches : ∀ request request', related request request' →
      P.Matches (handler request) (handler request'))
    {start state : σ} {runs : List (Req × Served S σ α)} (hrun : M.Serial handler start runs state)
    {requests : List Req}
    (hrelated : List.Forall₂ (fun request run => related (Prod.fst run) request) requests runs) :
    ∃ runs', M.Serial handler start runs' state ∧ runs'.map Prod.fst = requests ∧
      List.Forall₂ (fun run run' => P.Alike (Prod.snd run) (Prod.snd run')) runs runs' := by
  induction hrun generalizing requests with
  | start =>
      cases hrelated
      exact ⟨[], .start, rfl, .nil⟩
  | moves _ hmoves ih =>
      obtain ⟨runs', hrun', hrequests, halike⟩ := ih hrelated
      exact ⟨runs', .moves hrun' hmoves, hrequests, halike⟩
  | @serve runs request served _ hwho hserves ih =>
      have hfirst := List.forall₂_take_append _ _ _ hrelated
      have hlast := List.forall₂_drop_append _ _ _ hrelated
      obtain ⟨runs', hrun', hrequests, halike⟩ := ih hfirst
      generalize hdrop : requests.drop runs.length = later at hlast
      cases hlast with
      | @cons request' _ _ _ hrequest hnil =>
          cases hnil
          obtain ⟨served', hserves', hserved⟩ := (hmatches _ _ hrequest).serves hserves
          have hlength : runs.length = runs'.length := halike.length_eq
          refine ⟨runs' ++ [(request', served')], ?_, ?_, ?_⟩
          · rw [hserved.who, hserved.after]
            rw [hserved.before] at hrun'
            exact .serve hrun' (by rw [← hserved.who, hwho, hlength]) hserves'
          · rw [List.map_append, hrequests, List.map_singleton, ← hdrop, List.take_append_drop]
          · exact List.rel_append halike (.cons hserved .nil)

end Pause

end Machine

end Coop
