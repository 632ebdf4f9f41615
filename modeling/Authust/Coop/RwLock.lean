import Authust.Coop.Interleave

/-! # Readers-writer locks around operations

The operations of a task may take place under locks. Spelled out, each is a sequence of lock
steps: a read guard is waited for, a write guard is tried for and a failure is a panic. Every
lock step is a step of its own in an interleaving.
-/

namespace Coop

open Coop.Task

/-- What an operation does with a lock. -/
inductive Region (K : Type) : Type
  | plain
  /-- Takes a read guard that is kept. -/
  | acquire (lock : K)
  /-- Drops a read guard that was kept. -/
  | release (lock : K)
  /-- Takes a read guard for the time of the operation, unless one is kept. -/
  | reading (lock : K)
  /-- Takes a write guard for the time of the operation. -/
  | writing (lock : K)

/-- An operation, or a step of a lock. -/
inductive LockOp (S : Signature) (K : Type) : Type
  | run (op : S.Op)
  | read (lock : K)
  | unread (lock : K)
  | tryWrite (lock : K)
  | unwrite (lock : K)

@[reducible] def LockOp.Res {S : Signature} {K : Type} : LockOp S K → Type
  | run op => S.Res op
  | _ => Unit

abbrev Signature.locked (S : Signature) (K : Type) : Signature where
  Op := LockOp S K
  Res := LockOp.Res

variable {S : Signature} {K σ φ α : Type} [DecidableEq K]

/-- The lock steps of a task that keeps read guards on the locks in `kept`. -/
def Task.locking (region : S.Op → Region K) : List K → Task S α → Task (S.locked K) α
  | _, done value => done value
  | kept, call op next =>
      match region op with
      | .plain => @call (S.locked K) α (.run op) fun res => (next res).locking region kept
      | .acquire lock =>
          @call (S.locked K) α (.read lock) fun _ =>
            @call (S.locked K) α (.run op) fun res => (next res).locking region (lock :: kept)
      | .release lock =>
          @call (S.locked K) α (.run op) fun res =>
            @call (S.locked K) α (.unread lock) fun _ => (next res).locking region (kept.erase lock)
      | .reading lock =>
          if lock ∈ kept then
            @call (S.locked K) α (.run op) fun res => (next res).locking region kept
          else
            @call (S.locked K) α (.read lock) fun _ => @call (S.locked K) α (.run op) fun res =>
              @call (S.locked K) α (.unread lock) fun _ => (next res).locking region kept
      | .writing lock =>
          @call (S.locked K) α (.tryWrite lock) fun _ => @call (S.locked K) α (.run op) fun res =>
            @call (S.locked K) α (.unwrite lock) fun _ => (next res).locking region kept

/-- A state with the guards on each lock and the task that holds each. -/
structure Locked (K σ : Type) where
  state : σ
  readers : List (Nat × K)
  writers : List (Nat × K)

namespace Locked

variable (s : Locked K σ) (lock : K)

def readerCount : Nat := s.readers.countP fun guard => guard.2 = lock

def writerFlag : Bool := s.writers.any fun guard => guard.2 = lock

end Locked

namespace Machine

variable (M : Machine S σ φ)

/-- `none` for a write guard that is tried for while the lock is held. -/
def lockExec (who : Nat) : (op : LockOp S K) → φ → Locked K σ → Option (op.Res × Locked K σ)
  | .run op, choice, s =>
      (M.exec who op choice s.state).map fun result => (result.1, { s with state := result.2 })
  | .read lock, _, s => some ((), { s with readers := (who, lock) :: s.readers })
  | .unread lock, _, s => some ((), { s with readers := s.readers.erase (who, lock) })
  | .tryWrite lock, _, s =>
      if s.readerCount lock ≠ 0 ∨ s.writerFlag lock = true then none
      else some ((), { s with writers := (who, lock) :: s.writers })
  | .unwrite lock, _, s => some ((), { s with writers := s.writers.erase (who, lock) })

/-- The machine of the lock steps, any two of which may be interleaved. -/
def locked (K : Type) [DecidableEq K] : Machine (S.locked K) (Locked K σ) φ where
  suspends := fun _ => true
  exec := M.lockExec
  release := fun who s =>
    { state := M.release who s.state
      readers := s.readers.filter fun guard => guard.1 ≠ who
      writers := s.writers.filter fun guard => guard.1 ≠ who }
  moves := fun s s' => M.moves s.state s'.state ∧ s'.readers = s.readers ∧ s'.writers = s.writers

/-- A read guard is waited for as long as there is a writer. -/
def lockEnabled : LockOp S K → Locked K σ → Bool
  | .read lock, s => !s.writerFlag lock
  | _, _ => true

end Machine

/-- The guards of one task. -/
structure Held (K : Type) where
  readers : List K
  writers : List K
  deriving DecidableEq

def Held.next (held : Held K) : Event (S.locked K) → Held K
  | ⟨.run _, _⟩ => held
  | ⟨.read lock, _⟩ => { held with readers := lock :: held.readers }
  | ⟨.unread lock, _⟩ => { held with readers := held.readers.erase lock }
  | ⟨.tryWrite lock, _⟩ => { held with writers := lock :: held.writers }
  | ⟨.unwrite lock, _⟩ => { held with writers := held.writers.erase lock }

/-- The guards that the lock steps of a task have left it. -/
def heldAfter (history : List (Event (S.locked K))) : Held K := history.foldl Held.next ⟨[], []⟩

/-- The guards of the task `who`. -/
def Locked.held (who : Nat) (s : Locked K σ) : Held K where
  readers := (s.readers.filter fun guard => guard.1 = who).map Prod.snd
  writers := (s.writers.filter fun guard => guard.1 = who).map Prod.snd

section Guards

variable {who other : Nat} {lock : K}

theorem filter_erase_self (guards : List (Nat × K)) :
    ((guards.erase (who, lock)).filter fun guard => guard.1 = who).map Prod.snd =
      ((guards.filter fun guard => guard.1 = who).map Prod.snd).erase lock := by
  induction guards with
  | nil => rfl
  | cons guard guards ih =>
      obtain ⟨holder, kept⟩ := guard
      by_cases hholder : holder = who
      · subst hholder
        by_cases hkept : kept = lock
        · subst hkept
          simp
        · simp [hkept, ih]
      · simp [hholder, ih]

theorem filter_erase_other (hne : other ≠ who) (guards : List (Nat × K)) :
    ((guards.erase (who, lock)).filter fun guard => guard.1 = other) =
      guards.filter fun guard => guard.1 = other := by
  induction guards with
  | nil => rfl
  | cons guard guards ih =>
      obtain ⟨holder, kept⟩ := guard
      by_cases hholder : holder = who
      · subst hholder
        by_cases hkept : kept = lock
        · subst hkept
          simp [hne.symm]
        · simp [hkept, ih, hne.symm]
      · simp [hholder, ih, List.filter_cons]

omit [DecidableEq K] in
theorem filter_other_of_ne {who other : Nat} (hne : other ≠ who) (guards : List (Nat × K)) :
    ((guards.filter fun guard => guard.1 ≠ who).filter fun guard => guard.1 = other) =
      guards.filter fun guard => guard.1 = other := by
  rw [List.filter_filter]
  apply List.filter_congr
  intro guard _
  by_cases hholder : guard.1 = other
  · simp [hholder, hne]
  · simp [hholder]

end Guards

namespace Machine

variable {M : Machine S σ φ} {who other : Nat} {before after : Locked K σ}
  {event : Event (S.locked K)}

theorem held_self (hexec : (M.locked K).Exec who before event after) :
    after.held who = (before.held who).next event := by
  obtain ⟨choice, hexec⟩ := hexec
  obtain ⟨op, res⟩ := event
  simp only [locked] at hexec
  cases op with
  | run op =>
      obtain ⟨result, _, heq⟩ := Option.map_eq_some_iff.mp hexec
      cases heq
      rfl
  | read lock =>
      cases hexec
      simp [Locked.held, Held.next]
  | unread lock =>
      cases hexec
      simp only [Locked.held, Held.next, filter_erase_self]
  | tryWrite lock =>
      simp only [lockExec] at hexec
      split at hexec
      next => cases hexec
      next =>
        cases hexec
        simp [Locked.held, Held.next]
  | unwrite lock =>
      cases hexec
      simp only [Locked.held, Held.next, filter_erase_self]

theorem held_other (hne : other ≠ who) (hexec : (M.locked K).Exec who before event after) :
    after.held other = before.held other := by
  obtain ⟨choice, hexec⟩ := hexec
  obtain ⟨op, res⟩ := event
  simp only [locked] at hexec
  cases op with
  | run op =>
      obtain ⟨result, _, heq⟩ := Option.map_eq_some_iff.mp hexec
      cases heq
      rfl
  | read lock =>
      cases hexec
      simp [Locked.held, hne.symm]
  | unread lock =>
      cases hexec
      simp only [Locked.held, filter_erase_other hne]
  | tryWrite lock =>
      simp only [lockExec] at hexec
      split at hexec
      next => cases hexec
      next =>
        cases hexec
        simp [Locked.held, hne.symm]
  | unwrite lock =>
      cases hexec
      simp only [Locked.held, filter_erase_other hne]

theorem held_release (hne : other ≠ who) (s : Locked K σ) :
    ((M.locked K).release who s).held other = s.held other := by
  simp only [locked, Locked.held, filter_other_of_ne hne]

theorem held_moves (hmoves : (M.locked K).moves before after) :
    after.held who = before.held who := by
  obtain ⟨_, hreaders, hwriters⟩ := hmoves
  simp only [Locked.held, hreaders, hwriters]

variable (M K) in
/-- The guards of a task are its own. -/
def privateGuards : Private (M.locked K) (Held K) where
  view := Locked.held
  next := Held.next
  exec_self := held_self
  exec_other := held_other
  release := fun hne => held_release hne _
  moves := held_moves

/-- A task that has ended has no guards. -/
theorem unheld_lasting : Lasting (M.locked K) fun who s => s.held who = ⟨[], []⟩ where
  ended := by
    intro who s
    simp [locked, Locked.held, List.filter_filter]
  release := fun hne hheld => (held_release hne _).trans hheld
  exec := fun hne hexec hheld => (held_other hne hexec).trans hheld
  moves := fun hmoves hheld => (held_moves hmoves).trans hheld

end Machine

section Locking

variable (region : S.Op → Region K)

/-- The read guards that a history of operations has kept. -/
def keptNext (kept : List K) (event : Event S) : List K :=
  match region event.op with
  | .acquire lock => lock :: kept
  | .release lock => kept.erase lock
  | _ => kept

def keptAfter (history : List (Event S)) : List K := history.foldl (keptNext region) []

theorem keptAfter_snoc (history : List (Event S)) (event : Event S) :
    keptAfter region (history ++ [event]) = keptNext region (keptAfter region history) event := by
  simp [keptAfter]

/-- An operation writes under a lock on which no guard of its own task is kept. -/
def WritesUnguarded (history : List (Event S)) (op : S.Op) : Prop :=
  ∀ lock, region op = .writing lock → lock ∉ keptAfter region history

/-- The task tries for a write guard of a lock of which it holds no guard. -/
def TriesUnguarded (history : List (Event (S.locked K))) (op : LockOp S K) : Prop :=
  ∀ lock, op = .tryWrite lock → lock ∉ (heldAfter history).readers ∧
    lock ∉ (heldAfter history).writers

theorem heldAfter_snoc (history : List (Event (S.locked K))) (event : Event (S.locked K)) :
    heldAfter (history ++ [event]) = (heldAfter history).next event := by
  simp [heldAfter]

/-- A task that writes unguarded does so in its lock steps. -/
theorem Task.Obeys.locking {region : S.Op → Region K} {post : List (Event S) → α → Prop}
    {task : Task S α} {history : List (Event S)} {steps : List (Event (S.locked K))}
    (hobeys : Obeys (WritesUnguarded region) post task history)
    (hheld : heldAfter steps = ⟨keptAfter region history, []⟩) :
    Obeys TriesUnguarded (fun _ _ => True)
      (task.locking region (keptAfter region history)) steps := by
  induction task generalizing history steps with
  | done value => trivial
  | call op next ih =>
      obtain ⟨hwrites, hrest⟩ := hobeys
      have hlater : ∀ res later,
          heldAfter later = ⟨keptNext region (keptAfter region history) ⟨op, res⟩, []⟩ →
            Obeys TriesUnguarded (fun _ _ => True) ((next res).locking region
              (keptNext region (keptAfter region history) ⟨op, res⟩)) later := by
        intro res later hlast
        rw [← keptAfter_snoc] at hlast ⊢
        exact ih res (hrest res) hlast
      simp only [keptNext] at hlater
      unfold Task.locking
      cases hregion : region op with
      | plain =>
          refine ⟨nofun, fun res => ?_⟩
          rw [hregion] at hlater
          refine hlater res _ ?_
          rw [heldAfter_snoc, hheld]
          rfl
      | acquire lock =>
          refine ⟨nofun, fun _ => ⟨nofun, fun res => ?_⟩⟩
          rw [hregion] at hlater
          refine hlater res _ ?_
          rw [heldAfter_snoc, heldAfter_snoc, hheld]
          rfl
      | release lock =>
          refine ⟨nofun, fun res => ⟨nofun, fun _ => ?_⟩⟩
          rw [hregion] at hlater
          refine hlater res _ ?_
          rw [heldAfter_snoc, heldAfter_snoc, hheld]
          rfl
      | reading lock =>
          rw [hregion] at hlater
          simp only
          split
          -- the task keeps a guard of the lock already, which serves this region as well
          next =>
            refine ⟨nofun, fun res => hlater res _ ?_⟩
            rw [heldAfter_snoc, hheld]
            rfl
          next =>
            refine ⟨nofun, fun _ => ⟨nofun, fun res => ⟨nofun, fun _ => hlater res _ ?_⟩⟩⟩
            rw [heldAfter_snoc, heldAfter_snoc, heldAfter_snoc, hheld]
            simp [Held.next]
      | writing lock =>
          rw [hregion] at hlater
          refine ⟨?_, fun _ => ⟨nofun, fun res => ⟨nofun, fun _ => hlater res _ ?_⟩⟩⟩
          · rintro tried heq
            cases heq
            rw [hheld]
            exact ⟨hwrites lock hregion, List.not_mem_nil⟩
          · rw [heldAfter_snoc, heldAfter_snoc, heldAfter_snoc, hheld]
            simp [Held.next]

end Locking

section Panics

variable {M : Machine S σ φ} {region : S.Op → Region K} {tasks : Nat → Task S α}
  {start : Locked K σ} {config : Config (S.locked K) (Locked K σ) α}

/-- The lock steps of all tasks. -/
abbrev lockTasks (region : S.Op → Region K) (tasks : Nat → Task S α) (who : Nat) :
    Task (S.locked K) α :=
  (tasks who).locking region []

/-- The task is under way and its history has left it a guard on the lock. -/
structure Config.Inside (config : Config (S.locked K) (Locked K σ) α) (who : Nat) (lock : K) :
    Prop where
  under : (config.procs who).rest.isSome
  guarded : lock ∈ (heldAfter (own who config.log)).readers ∨
    lock ∈ (heldAfter (own who config.log)).writers

/-- The next step of the task is to try for a write guard. -/
def Config.Tries (config : Config (S.locked K) (Locked K σ) α) (who : Nat) (lock : K) : Prop :=
  ∃ next, (config.procs who).rest = some (@Task.call (S.locked K) α (.tryWrite lock) next)

omit [DecidableEq K] in
theorem Locked.mem_held_readers {s : Locked K σ} {who : Nat} {lock : K} :
    lock ∈ (s.held who).readers ↔ (who, lock) ∈ s.readers := by
  simp [Locked.held]

omit [DecidableEq K] in
theorem Locked.mem_held_writers {s : Locked K σ} {who : Nat} {lock : K} :
    lock ∈ (s.held who).writers ↔ (who, lock) ∈ s.writers := by
  simp [Locked.held]

/-- Trying fails where some task has a guard. -/
theorem Machine.tryWrite_eq_none_iff {who : Nat} {lock : K} {choice : φ} {s : Locked K σ} :
    (M.locked K).exec who (.tryWrite lock) choice s = none ↔
      ∃ holder, lock ∈ (s.held holder).readers ∨ lock ∈ (s.held holder).writers := by
  have hcount : s.readerCount lock ≠ 0 ↔ ∃ holder, (holder, lock) ∈ s.readers := by
    simp [Locked.readerCount, List.countP_eq_zero]
  have hflag : s.writerFlag lock = true ↔ ∃ holder, (holder, lock) ∈ s.writers := by
    simp [Locked.writerFlag]
  simp only [Machine.locked, Machine.lockExec, ite_eq_left_iff, reduceCtorEq, imp_false, not_not,
    hcount, hflag, Locked.mem_held_readers, Locked.mem_held_writers, exists_or]

/-- When tasks write unguarded, a write guard is tried for in vain exactly where another task is
inside a region of the lock. -/
theorem Machine.Reachable.tryWrite_fails_iff
    (hwrites : ∀ who, Obeys (WritesUnguarded region) (fun _ _ => True) (tasks who) [])
    (hreaders : start.readers = []) (hwriters : start.writers = [])
    (hreach : (M.locked K).Reachable (lockTasks region tasks) start config) {who : Nat} {lock : K}
    (htries : config.Tries who lock) (choice : φ) :
    (M.locked K).exec who (.tryWrite lock) choice config.state = none ↔
      ∃ other, other ≠ who ∧ config.Inside other lock := by
  have hnone : ∀ holder, start.held holder = ⟨[], []⟩ := by
    intro holder
    simp [Locked.held, hreaders, hwriters]
  have hlinked := (hreach.holds (viewed_preserved (P := privateGuards K M)) throughout_nil).2.2
  have hheld : ∀ holder rest, (config.procs holder).rest = some rest →
      config.state.held holder = heldAfter (own holder config.log) := by
    intro holder rest hrest
    have hview := hlinked.view holder rest hrest
    rw [show (privateGuards K M).view holder start = ⟨[], []⟩ from hnone holder] at hview
    exact hview
  rw [tryWrite_eq_none_iff]
  constructor
  · rintro ⟨holder, hguard⟩
    cases hproc : (config.procs holder).rest with
    | none =>
        rw [hreach.ended unheld_lasting holder hproc] at hguard
        rcases hguard with hguard | hguard <;> cases hguard
    | some rest =>
        rw [hheld holder rest hproc] at hguard
        refine ⟨holder, ?_, by simp [hproc], hguard⟩
        rintro rfl
        obtain ⟨next, hnext⟩ := htries
        -- the task itself would hold a guard of the lock that it tries for
        have hpath := hlinked.path holder _ (Proc.left_of_rest hnext)
        have hobeys : Obeys TriesUnguarded (fun _ _ => True) (lockTasks region tasks holder) [] :=
          Task.Obeys.locking (hwrites holder) rfl
        obtain ⟨hunread, hunwritten⟩ := hobeys.allows hpath lock rfl
        rcases hguard with hguard | hguard
        · exact hunread hguard
        · exact hunwritten hguard
  · rintro ⟨other, _, hinside⟩
    obtain ⟨rest, hrest⟩ := Option.isSome_iff_exists.mp hinside.under
    refine ⟨other, ?_⟩
    rw [hheld other rest hrest]
    exact hinside.guarded

end Panics

end Coop
