import Authust.Coop.Machine

/-! # Interleavings at await points

Any number of tasks share one state. A task that is polled runs until its next
suspending operation, which is answered in a step of its own; between these steps the
other tasks and the surroundings may move. The log is a ghost: no step reads it.
-/

namespace Coop

open Coop.Task

/-- A task under way. A `running` task has its last answer and waits to be polled. -/
inductive Proc (S : Signature) (α : Type) : Type
  | running (task : Task S α)
  | waiting (op : S.Op) (next : S.Res op → Task S α)
  | ended (ending : Ending α)

structure Config (S : Signature) (σ α : Type) where
  state : σ
  procs : Nat → Proc S α
  log : List (Logged S σ)

inductive Act (φ : Type) : Type
  | poll (who : Nat) (choices : Nat → φ)
  | answer (who : Nat) (choice : φ)
  | drop (who : Nat)

/-- Poll a task, then `count` times answer its await and poll it again. -/
def Act.awaits {φ : Type} (who : Nat) (choice : φ) : Nat → List (Act φ)
  | 0 => [.poll who fun _ => choice]
  | count + 1 => .poll who (fun _ => choice) :: .answer who choice :: awaits who choice count

variable {S : Signature} {σ φ α : Type}

/-- What the rest of a task may still do. -/
def Proc.rest : Proc S α → Option (Task S α)
  | running task => some task
  | waiting op next => some (.call op next)
  | ended _ => none

/-- What its answers have left of a task that has not been cut off. -/
def Proc.left : Proc S α → Option (Task S α)
  | running task => some task
  | waiting op next => some (.call op next)
  | ended (.returned value) => some (.done value)
  | ended _ => none

theorem Proc.left_of_rest {proc : Proc S α} {rest : Task S α} (hrest : proc.rest = some rest) :
    proc.left = some rest := by
  cases proc with
  | running task => exact hrest
  | waiting op next => exact hrest
  | ended ending => cases hrest

namespace Machine

variable (M : Machine S σ φ)

/-- Run a polled task up to its next suspending operation or its end. -/
def segment (who : Nat) :
    Task S α → (Nat → φ) → σ → List (Logged S σ) → Proc S α × σ × List (Logged S σ)
  | .done value, _, state, log => (.ended (.returned value), M.release who state, log)
  | .call op next, choices, state, log =>
      if M.suspends op then (.waiting op next, state, log)
      else
        match M.exec who op (choices 0) state with
        | none => (.ended .panicked, M.release who state, log)
        | some (res, after) =>
            segment who (next res) (fun index => choices (index + 1)) after
              (log ++ [⟨who, state, ⟨op, res⟩⟩])

def Config.settle (config : Config S σ α) (who : Nat)
    (result : Proc S α × σ × List (Logged S σ)) : Config S σ α where
  state := result.2.1
  procs := Function.update config.procs who result.1
  log := result.2.2

/-- One action of the scheduler; `none` when it is not enabled. -/
def act (config : Config S σ α) : Act φ → Option (Config S σ α)
  | .poll who choices =>
      match config.procs who with
      | .running task =>
          some (Config.settle config who (M.segment who task choices config.state config.log))
      | _ => none
  | .answer who choice =>
      match config.procs who with
      | .waiting op next =>
          match M.exec who op choice config.state with
          | none => some (Config.settle config who
              (.ended .panicked, M.release who config.state, config.log))
          | some (res, after) => some (Config.settle config who
              (.running (next res), after, config.log ++ [⟨who, config.state, ⟨op, res⟩⟩]))
      | _ => none
  | .drop who =>
      match config.procs who with
      | .ended _ => none
      | _ => some (Config.settle config who
          (.ended .dropped, M.release who config.state, config.log))

/-- Run a whole schedule. -/
def acts (config : Config S σ α) : List (Act φ) → Option (Config S σ α)
  | [] => some config
  | action :: rest => (M.act config action).bind fun next => acts next rest

/-- Every configuration some schedule reaches when task `who` is `tasks who`. -/
inductive Reachable (tasks : Nat → Task S α) (start : σ) : Config S σ α → Prop
  | start : Reachable tasks start ⟨start, fun who => .running (tasks who), []⟩
  | act {config next : Config S σ α} (action : Act φ) :
      Reachable tasks start config → M.act config action = some next → Reachable tasks start next
  | moves {config : Config S σ α} {state : σ} :
      Reachable tasks start config → M.moves config.state state →
        Reachable tasks start { config with state := state }

variable {M}

theorem Reachable.acts {tasks : Nat → Task S α} {start : σ} {config next : Config S σ α}
    (hreach : M.Reachable tasks start config) (schedule : List (Act φ))
    (hrun : M.acts config schedule = some next) : M.Reachable tasks start next := by
  induction schedule generalizing config with
  | nil =>
      simp only [Machine.acts, Option.some.injEq] at hrun
      exact hrun ▸ hreach
  | cons action rest ih =>
      simp only [Machine.acts, Option.bind_eq_some_iff] at hrun
      obtain ⟨middle, hmiddle, hrest⟩ := hrun
      exact ih (.act action hreach hmiddle) hrest

/-- Every entry of the log was issued by its task after the history it had by then, and
executed. -/
def Issued (M : Machine S σ φ) (tasks : Nat → Task S α) (log : List (Logged S σ)) : Prop :=
  Throughout (fun first entry =>
    (∃ next, Path (tasks entry.who) (own entry.who first) (.call entry.event.op next)) ∧
      ∃ after, M.Exec entry.who entry.before entry.event after) log

theorem Issued.executed {tasks : Nat → Task S α} {log : List (Logged S σ)}
    (hissued : Issued M tasks log) : M.Executed log := by
  intro entry hmem
  obtain ⟨first, second, hlog⟩ := List.append_of_mem hmem
  exact (hissued first entry second hlog).2

/-- What has to be shown of single operations for a property of state and log to hold in
every reachable configuration. The path says which task issued the operation, after which
history of its own; its private state is what that history made of it. -/
structure Preserved {β : Type} (P : Private M β) (tasks : Nat → Task S α) (start : σ)
    (invariant : σ → List (Logged S σ) → Prop) : Prop where
  exec : ∀ {who : Nat} {state after : σ} {log : List (Logged S σ)} {event : Event S}
    {next : S.Res event.op → Task S α}, invariant state log → Issued M tasks log →
    Path (tasks who) (own who log) (.call event.op next) →
    P.view who state = (own who log).foldl P.next (P.view who start) →
    M.Exec who state event after → invariant after (log ++ [⟨who, state, event⟩])
  release : ∀ {who : Nat} {state : σ} {log : List (Logged S σ)},
    invariant state log → invariant (M.release who state) log
  moves : ∀ {state after : σ} {log : List (Logged S σ)},
    invariant state log → M.moves state after → invariant after log

/-- A preserved property also held before every entry of the log. -/
theorem Preserved.throughout {β : Type} {P : Private M β} {tasks : Nat → Task S α} {start : σ}
    {invariant : σ → List (Logged S σ) → Prop} (hpreserved : Preserved P tasks start invariant) :
    Preserved P tasks start fun state log =>
      invariant state log ∧ Throughout (fun past entry => invariant entry.before past) log where
  exec := fun hinvariant hissued hpath hview hexec =>
    ⟨hpreserved.exec hinvariant.1 hissued hpath hview hexec, hinvariant.2.snoc hinvariant.1⟩
  release := fun hinvariant => ⟨hpreserved.release hinvariant.1, hinvariant.2⟩
  moves := fun hinvariant hmoves => ⟨hpreserved.moves hinvariant.1 hmoves, hinvariant.2⟩

theorem Preserved.and {β : Type} {P : Private M β} {tasks : Nat → Task S α} {start : σ}
    {first second : σ → List (Logged S σ) → Prop} (hfirst : Preserved P tasks start first)
    (hsecond : Preserved P tasks start second) :
    Preserved P tasks start fun state log => first state log ∧ second state log where
  exec := fun hinvariant hissued hpath hview hexec =>
    ⟨hfirst.exec hinvariant.1 hissued hpath hview hexec,
      hsecond.exec hinvariant.2 hissued hpath hview hexec⟩
  release := fun hinvariant => ⟨hfirst.release hinvariant.1, hsecond.release hinvariant.2⟩
  moves := fun hinvariant hmoves =>
    ⟨hfirst.moves hinvariant.1 hmoves, hsecond.moves hinvariant.2 hmoves⟩

/-- Every entry of the log found the private state that the history of its task had made. -/
def Viewed {β : Type} (P : Private M β) (start : σ) (log : List (Logged S σ)) : Prop :=
  Throughout (fun past entry =>
    P.view entry.who entry.before = (own entry.who past).foldl P.next (P.view entry.who start)) log

theorem viewed_preserved {β : Type} {P : Private M β} {tasks : Nat → Task S α} {start : σ} :
    Preserved P tasks start fun _ log => Viewed P start log where
  exec := fun hviewed _ _ hview _ => hviewed.snoc hview
  release := fun hviewed => hviewed
  moves := fun hviewed _ => hviewed

/-- The own history of every task leads to what is left of it and, while it is under way,
to its private state. -/
structure Linked {β : Type} (P : Private M β) (tasks : Nat → Task S α) (start : σ)
    (config : Config S σ α) : Prop where
  path : ∀ who left, (config.procs who).left = some left →
    Path (tasks who) (own who config.log) left
  view : ∀ who rest, (config.procs who).rest = some rest →
    P.view who config.state = (own who config.log).foldl P.next (P.view who start)

/-- A task that has returned has its history behind it. -/
theorem Linked.trace {β : Type} {P : Private M β} {tasks : Nat → Task S α} {start : σ}
    {config : Config S σ α} (hlinked : Linked P tasks start config) {who : Nat} {value : α}
    (hended : config.procs who = .ended (.returned value)) :
    Trace (tasks who) (own who config.log) value := by
  apply hlinked.path
  rw [hended]
  rfl

theorem own_snoc_self (who : Nat) (log : List (Logged S σ)) (state : σ) (event : Event S) :
    own who (log ++ [⟨who, state, event⟩]) = own who log ++ [event] := by
  rw [own_append, own_singleton_self]

theorem own_snoc_other {who other : Nat} (hne : other ≠ who) (log : List (Logged S σ))
    (state : σ) (event : Event S) :
    own who (log ++ [⟨other, state, event⟩]) = own who log := by
  rw [own_append, own_singleton_other hne, List.append_nil]

/-- Every log leads each of its tasks somewhere. -/
theorem Issued.path {tasks : Nat → Task S α} {log : List (Logged S σ)}
    (hissued : Issued M tasks log) (who : Nat) : ∃ rest, Path (tasks who) (own who log) rest := by
  induction log using List.reverseRecOn with
  | nil => exact ⟨_, .refl _⟩
  | append_singleton log entry ih =>
      by_cases hwho : entry.who = who
      · subst hwho
        obtain ⟨next, hpath⟩ := hissued.last.1
        rw [own_snoc_self]
        exact ⟨_, hpath.snoc entry.event.res⟩
      · rw [own_snoc_other hwho]
        exact ih hissued.initial

section Segment

variable {β : Type} {P : Private M β} {tasks : Nat → Task S α} {start : σ}
  {invariant : σ → List (Logged S σ) → Prop}

/-- What a step of `who` has to keep for the configuration after it to stay linked. -/
structure Kept (P : Private M β) (tasks : Nat → Task S α) (start : σ) (who : Nat)
    (state : σ) (log : List (Logged S σ)) (result : Proc S α × σ × List (Logged S σ)) : Prop where
  path : ∀ left, result.1.left = some left → Path (tasks who) (own who result.2.2) left
  view : ∀ rest, result.1.rest = some rest →
    P.view who result.2.1 = (own who result.2.2).foldl P.next (P.view who start)
  others : ∀ other, other ≠ who → own other result.2.2 = own other log ∧
    P.view other result.2.1 = P.view other state

theorem Kept.ended {who : Nat} {state : σ} {log : List (Logged S σ)} {ending : Ending α}
    (hpath : ∀ value, ending = .returned value → Path (tasks who) (own who log) (.done value)) :
    Kept P tasks start who state log (.ended ending, M.release who state, log) where
  path := by
    intro left hleft
    cases ending with
    | returned value =>
        simp only [Proc.left, Option.some.injEq] at hleft
        exact hleft ▸ hpath value rfl
    | panicked => cases hleft
    | dropped => cases hleft
  view := by
    intro rest hrest
    simp [Proc.rest] at hrest
  others := fun _ hne => ⟨rfl, P.release hne⟩

/-- One operation of `who` extends its history and its private state alone. -/
theorem Kept.exec {who : Nat} {state after : σ} {log : List (Logged S σ)} {op : S.Op}
    {next : S.Res op → Task S α} {res : S.Res op}
    (hpath : Path (tasks who) (own who log) (.call op next))
    (hview : P.view who state = (own who log).foldl P.next (P.view who start))
    (hexec : M.Exec who state ⟨op, res⟩ after) :
    Kept P tasks start who state log
      (.running (next res), after, log ++ [⟨who, state, ⟨op, res⟩⟩]) where
  path := by
    intro left hleft
    simp only [Proc.left, Option.some.injEq] at hleft
    subst hleft
    rw [own_snoc_self]
    exact hpath.snoc res
  view := by
    intro rest _
    rw [own_snoc_self, P.exec_self hexec, hview, List.foldl_append]
    rfl
  others := fun _ hne => ⟨own_snoc_other (Ne.symm hne) _ _ _, P.exec_other hne hexec⟩

/-- A polled segment keeps the invariant and the histories. -/
theorem segment_preserved (hpreserved : Preserved P tasks start invariant) (who : Nat)
    (task : Task S α) (choices : Nat → φ) (state : σ) (log : List (Logged S σ))
    (hinvariant : invariant state log) (hissued : Issued M tasks log)
    (hpath : Path (tasks who) (own who log) task)
    (hview : P.view who state = (own who log).foldl P.next (P.view who start)) :
    invariant (M.segment who task choices state log).2.1
      (M.segment who task choices state log).2.2 ∧
      Issued M tasks (M.segment who task choices state log).2.2 ∧
        Kept P tasks start who state log (M.segment who task choices state log) := by
  induction task generalizing choices state log with
  | done value =>
      refine ⟨hpreserved.release hinvariant, hissued, .ended ?_⟩
      intro result hresult
      cases hresult
      exact hpath
  | call op next ih =>
      unfold segment
      split
      next hsuspends =>
        refine ⟨hinvariant, hissued, ?_, fun _ _ => hview, fun _ _ => ⟨rfl, rfl⟩⟩
        intro left hleft
        simp only [Proc.left, Option.some.injEq] at hleft
        exact hleft ▸ hpath
      next hsuspends =>
        split
        next hpanic =>
          exact ⟨hpreserved.release hinvariant, hissued, .ended fun _ hpanicked => by
            cases hpanicked⟩
        next res after hexec =>
          -- the operation goes through, and the rest of the segment starts after it
          have hstep : M.Exec who state ⟨op, res⟩ after := ⟨choices 0, hexec⟩
          have hkept := Kept.exec hpath hview hstep
          obtain ⟨hresult, hlog, hlater⟩ := ih res (fun index => choices (index + 1)) after _
            (hpreserved.exec hinvariant hissued hpath hview hstep)
            (hissued.snoc ⟨⟨next, hpath⟩, after, hstep⟩) (hkept.path _ rfl) (hkept.view _ rfl)
          refine ⟨hresult, hlog, hlater.path, hlater.view, ?_⟩
          intro other hne
          obtain ⟨hown, hother⟩ := hlater.others other hne
          obtain ⟨hownstep, hotherstep⟩ := hkept.others other hne
          exact ⟨hown.trans hownstep, hother.trans hotherstep⟩

theorem Linked.settle {config : Config S σ α} (hlinked : Linked P tasks start config) {who : Nat}
    {result : Proc S α × σ × List (Logged S σ)}
    (hkept : Kept P tasks start who config.state config.log result) :
    Linked P tasks start (Config.settle config who result) where
  path := by
    intro other left hleft
    by_cases heq : other = who
    · subst heq
      simp only [Config.settle, Function.update_self] at hleft
      exact hkept.path left hleft
    · simp only [Config.settle, Function.update_of_ne heq] at hleft
      simp only [Config.settle, (hkept.others other heq).1]
      exact hlinked.path other left hleft
  view := by
    intro other rest hrest
    by_cases heq : other = who
    · subst heq
      simp only [Config.settle, Function.update_self] at hrest
      exact hkept.view rest hrest
    · simp only [Config.settle, Function.update_of_ne heq] at hrest
      obtain ⟨hown, hview⟩ := hkept.others other heq
      simp only [Config.settle]
      rw [hown, hview]
      exact hlinked.view other rest hrest

/-- One scheduler action keeps the invariant and the histories. -/
theorem act_preserved (hpreserved : Preserved P tasks start invariant) {config next : Config S σ α}
    (hinvariant : invariant config.state config.log) (hissued : Issued M tasks config.log)
    (hlinked : Linked P tasks start config) (action : Act φ)
    (hact : M.act config action = some next) :
    invariant next.state next.log ∧ Issued M tasks next.log ∧ Linked P tasks start next := by
  cases action with
  | poll who choices =>
      cases hproc : config.procs who with
      | waiting op rest => simp [act, hproc] at hact
      | ended ending => simp [act, hproc] at hact
      | running task =>
          simp only [act, hproc, Option.some.injEq] at hact
          subst next
          have hrest : (config.procs who).rest = some task := by rw [hproc]; rfl
          have hpath := hlinked.path who task (Proc.left_of_rest hrest)
          have hview := hlinked.view who task hrest
          obtain ⟨hresult, hlog, hkept⟩ := segment_preserved hpreserved who task choices
            config.state config.log hinvariant hissued hpath hview
          exact ⟨hresult, hlog, hlinked.settle hkept⟩
  | answer who choice =>
      cases hproc : config.procs who with
      | running task => simp [act, hproc] at hact
      | ended ending => simp [act, hproc] at hact
      | waiting op rest =>
          have hrest : (config.procs who).rest = some (.call op rest) := by rw [hproc]; rfl
          have hpath := hlinked.path who _ (Proc.left_of_rest hrest)
          have hview := hlinked.view who _ hrest
          simp only [act, hproc] at hact
          split at hact
          next hpanic =>
            simp only [Option.some.injEq] at hact
            subst next
            exact ⟨hpreserved.release hinvariant, hissued,
              hlinked.settle (.ended fun _ hpanicked => by cases hpanicked)⟩
          next res after hexec =>
            simp only [Option.some.injEq] at hact
            subst next
            have hstep : M.Exec who config.state ⟨op, res⟩ after := ⟨choice, hexec⟩
            exact ⟨hpreserved.exec hinvariant hissued hpath hview hstep,
              hissued.snoc ⟨⟨rest, hpath⟩, after, hstep⟩, hlinked.settle (.exec hpath hview hstep)⟩
  | drop who =>
      simp only [act] at hact
      split at hact
      next => cases hact
      next =>
        simp only [Option.some.injEq] at hact
        subst next
        exact ⟨hpreserved.release hinvariant, hissued,
          hlinked.settle (.ended fun _ hdropped => by cases hdropped)⟩

/-- A property that single operations preserve holds under every interleaving. -/
theorem Reachable.holds (hpreserved : Preserved P tasks start invariant)
    (hstart : invariant start []) {config : Config S σ α}
    (hreach : M.Reachable tasks start config) :
    invariant config.state config.log ∧ Issued M tasks config.log ∧
      Linked P tasks start config := by
  induction hreach with
  | start =>
      refine ⟨hstart, throughout_nil, ?_, fun _ _ _ => rfl⟩
      intro who left hleft
      simp only [Proc.left, Option.some.injEq] at hleft
      exact hleft ▸ .refl _
  | act action _ hact ih => exact act_preserved hpreserved ih.1 ih.2.1 ih.2.2 action hact
  | moves _ hmoves ih =>
      refine ⟨hpreserved.moves ih.1 hmoves, ih.2.1, ih.2.2.path, ?_⟩
      intro who rest hrest
      rw [P.moves hmoves]
      exact ih.2.2.view who rest hrest

end Segment

/-- What the end of a task establishes, and nothing that is not its own undoes. -/
structure Lasting (M : Machine S σ φ) (holds : Nat → σ → Prop) : Prop where
  ended : ∀ who state, holds who (M.release who state)
  release : ∀ {who other state}, other ≠ who → holds other state → holds other (M.release who state)
  exec : ∀ {who other before after event}, other ≠ who → M.Exec who before event after →
    holds other before → holds other after
  moves : ∀ {who before after}, M.moves before after → holds who before → holds who after

section Ended

variable {holds : Nat → σ → Prop}

theorem segment_lasting (hlasting : Lasting M holds) (who : Nat) (task : Task S α)
    (choices : Nat → φ) (state : σ) (log : List (Logged S σ)) :
    (∀ other, other ≠ who → holds other state →
      holds other (M.segment who task choices state log).2.1) ∧
    ((M.segment who task choices state log).1.rest = none →
      holds who (M.segment who task choices state log).2.1) := by
  induction task generalizing choices state log with
  | done value => exact ⟨fun _ hne => hlasting.release hne, fun _ => hlasting.ended who state⟩
  | call op next ih =>
      unfold segment
      split
      next => exact ⟨fun _ _ hholds => hholds, fun hrest => by cases hrest⟩
      next =>
        split
        next => exact ⟨fun _ hne => hlasting.release hne, fun _ => hlasting.ended who state⟩
        next res after hexec =>
          have hstep : M.Exec who state ⟨op, res⟩ after := ⟨choices 0, hexec⟩
          obtain ⟨hothers, hown⟩ := ih res (fun index => choices (index + 1)) after
            (log ++ [⟨who, state, ⟨op, res⟩⟩])
          exact ⟨fun other hne hholds => hothers other hne (hlasting.exec hne hstep hholds), hown⟩

theorem settle_lasting {config : Config S σ α} {who : Nat}
    {result : Proc S α × σ × List (Logged S σ)}
    (hothers : ∀ other, other ≠ who → holds other config.state → holds other result.2.1)
    (hown : result.1.rest = none → holds who result.2.1)
    (hconfig : ∀ other, (config.procs other).rest = none → holds other config.state) (other : Nat)
    (hended : ((Config.settle config who result).procs other).rest = none) :
    holds other (Config.settle config who result).state := by
  by_cases heq : other = who
  · subst heq
    simp only [Config.settle, Function.update_self] at hended
    exact hown hended
  · simp only [Config.settle, Function.update_of_ne heq] at hended
    exact hothers other heq (hconfig other hended)

/-- It holds of every task that has ended. -/
theorem Reachable.ended (hlasting : Lasting M holds) {tasks : Nat → Task S α} {start : σ}
    {config : Config S σ α} (hreach : M.Reachable tasks start config) :
    ∀ who, (config.procs who).rest = none → holds who config.state := by
  induction hreach with
  | start => exact fun _ hended => by cases hended
  | @act config next action _ hact ih =>
      cases action with
      | poll who choices =>
          simp only [Machine.act] at hact
          split at hact
          next task _ =>
            cases hact
            obtain ⟨hothers, hown⟩ :=
              segment_lasting hlasting who task choices config.state config.log
            exact settle_lasting hothers hown ih
          next => cases hact
      | answer who choice =>
          simp only [Machine.act] at hact
          split at hact
          next op rest _ =>
            split at hact
            next =>
              cases hact
              exact settle_lasting (fun _ hne => hlasting.release hne)
                (fun _ => hlasting.ended who config.state) ih
            next res after hexec =>
              cases hact
              have hstep : M.Exec who config.state ⟨op, res⟩ after := ⟨choice, hexec⟩
              exact settle_lasting (fun _ hne => hlasting.exec hne hstep)
                (fun hrest => by cases hrest) ih
          next => cases hact
      | drop who =>
          simp only [Machine.act] at hact
          split at hact
          next => cases hact
          next =>
            cases hact
            exact settle_lasting (fun _ hne => hlasting.release hne)
              (fun _ => hlasting.ended who config.state) ih
  | moves _ hstep ih => exact fun who hended => hlasting.moves hstep (ih who hended)

end Ended

section Growth

variable (M)

theorem segment_log (who : Nat) (task : Task S α) (choices : Nat → φ) (state : σ)
    (log : List (Logged S σ)) :
    ∃ more, (M.segment who task choices state log).2.2 = log ++ more := by
  induction task generalizing choices state log with
  | done value => exact ⟨[], (List.append_nil log).symm⟩
  | call op next ih =>
      unfold segment
      split
      next => exact ⟨[], (List.append_nil log).symm⟩
      next =>
        split
        next => exact ⟨[], (List.append_nil log).symm⟩
        next res after _ =>
          obtain ⟨more, hmore⟩ := ih res (fun index => choices (index + 1)) after
            (log ++ [⟨who, state, ⟨op, res⟩⟩])
          exact ⟨⟨who, state, ⟨op, res⟩⟩ :: more, by rw [hmore, List.append_assoc]; rfl⟩

variable {M}

theorem act_log {config next : Config S σ α} {action : Act φ}
    (hact : M.act config action = some next) : ∃ more, next.log = config.log ++ more := by
  cases action with
  | poll who choices =>
      simp only [act] at hact
      split at hact
      next task _ =>
        cases hact
        exact M.segment_log who task choices config.state config.log
      next => cases hact
  | answer who choice =>
      simp only [act] at hact
      split at hact
      next =>
        split at hact
        next =>
          cases hact
          exact ⟨[], (List.append_nil _).symm⟩
        next =>
          cases hact
          exact ⟨_, rfl⟩
      next => cases hact
  | drop who =>
      simp only [act] at hact
      split at hact
      next => cases hact
      next =>
        cases hact
        exact ⟨[], (List.append_nil _).symm⟩

/-- A schedule only adds to the log. -/
theorem acts_log {config next : Config S σ α} {schedule : List (Act φ)}
    (hrun : M.acts config schedule = some next) : ∃ more, next.log = config.log ++ more := by
  induction schedule generalizing config with
  | nil =>
      cases hrun
      exact ⟨[], (List.append_nil _).symm⟩
  | cons action rest ih =>
      obtain ⟨middle, hmiddle, hrest⟩ := Option.bind_eq_some_iff.mp hrun
      obtain ⟨first, hfirst⟩ := act_log hmiddle
      obtain ⟨second, hsecond⟩ := ih hrest
      exact ⟨first ++ second, by rw [hsecond, hfirst, List.append_assoc]⟩

end Growth

section Panics

/-- An operation that some state and choice make panic. -/
def MayPanic (M : Machine S σ φ) (op : S.Op) : Prop :=
  ∃ who choice state, M.exec who op choice state = none

/-- The process has not panicked, and nothing it still issues may. -/
def Sound (M : Machine S σ φ) : Proc S α → Prop
  | .running task => Avoids M.MayPanic task
  | .waiting op next => Avoids M.MayPanic (.call op next)
  | .ended ending => ending ≠ .panicked

theorem segment_sound (who : Nat) {task : Task S α} (havoids : Avoids M.MayPanic task)
    (choices : Nat → φ) (state : σ) (log : List (Logged S σ)) :
    M.Sound (M.segment who task choices state log).1 := by
  induction task generalizing choices state log with
  | done value => exact fun hpanicked => by cases hpanicked
  | call op next ih =>
      unfold segment
      split
      next => exact havoids
      next =>
        split
        next hpanic => exact absurd ⟨who, choices 0, state, hpanic⟩ havoids.1
        next res after _ => exact ih res (havoids.2 res) _ after _

theorem settle_sound {config : Config S σ α} {who other : Nat}
    {result : Proc S α × σ × List (Logged S σ)} (hresult : other = who → M.Sound result.1)
    (hother : M.Sound (config.procs other)) :
    M.Sound ((Config.settle config who result).procs other) := by
  by_cases heq : other = who
  · subst heq
    simpa only [Config.settle, Function.update_self] using hresult rfl
  · simpa only [Config.settle, Function.update_of_ne heq] using hother

/-- A task that issues no operation that may panic does not panic. -/
theorem Reachable.not_panicked {tasks : Nat → Task S α} {start : σ} {config : Config S σ α}
    (hreach : M.Reachable tasks start config) {who : Nat}
    (havoids : Avoids M.MayPanic (tasks who)) : config.procs who ≠ .ended .panicked := by
  -- what is left of the task avoids such operations as well
  have hsound : M.Sound (config.procs who) := by
    induction hreach with
    | start => exact havoids
    | moves _ _ ih => exact ih
    | @act config next action _ hact ih =>
        cases action with
        | poll actor choices =>
            simp only [Machine.act] at hact
            split at hact
            next task hproc =>
              cases hact
              refine settle_sound (fun heq => segment_sound actor ?_ _ _ _) ih
              rwa [heq, hproc] at ih
            next => cases hact
        | answer actor choice =>
            simp only [Machine.act] at hact
            split at hact
            next op rest hproc =>
              split at hact
              next hpanic =>
                cases hact
                refine settle_sound (fun heq => ?_) ih
                rw [heq, hproc] at ih
                exact absurd ⟨actor, choice, config.state, hpanic⟩ ih.1
              next res after _ =>
                cases hact
                refine settle_sound (fun heq => ?_) ih
                rw [heq, hproc] at ih
                exact ih.2 res
            next => cases hact
        | drop actor =>
            simp only [Machine.act] at hact
            split at hact
            next => cases hact
            next =>
              cases hact
              exact settle_sound (fun _ hdropped => by cases hdropped) ih
  intro hproc
  rw [hproc] at hsound
  exact hsound rfl

end Panics

/-- One action of a scheduler that lets an operation wait until it is enabled. -/
def actWhen (M : Machine S σ φ) (enabled : S.Op → σ → Bool) (config : Config S σ α)
    (action : Act φ) : Option (Config S σ α) :=
  match action with
  | .answer who choice =>
      match config.procs who with
      | .waiting op _ => if enabled op config.state then M.act config (.answer who choice) else none
      | _ => none
  | other => M.act config other

/-- Every configuration that is reached when operations wait until they are enabled. -/
inductive ReachableWhen (M : Machine S σ φ) (enabled : S.Op → σ → Bool) (tasks : Nat → Task S α)
    (start : σ) : Config S σ α → Prop
  | start : ReachableWhen M enabled tasks start ⟨start, fun who => .running (tasks who), []⟩
  | act {config next : Config S σ α} (action : Act φ) :
      ReachableWhen M enabled tasks start config → M.actWhen enabled config action = some next →
        ReachableWhen M enabled tasks start next
  | moves {config : Config S σ α} {state : σ} :
      ReachableWhen M enabled tasks start config → M.moves config.state state →
        ReachableWhen M enabled tasks start { config with state := state }

section When

variable {enabled : S.Op → σ → Bool} {tasks : Nat → Task S α} {start : σ}

theorem act_of_actWhen {config next : Config S σ α} {action : Act φ}
    (hact : M.actWhen enabled config action = some next) : M.act config action = some next := by
  unfold actWhen at hact
  split at hact
  next who choice =>
    split at hact
    next =>
      split at hact
      next => exact hact
      next => cases hact
    next => cases hact
  next => exact hact

/-- Waiting only rules interleavings out. -/
theorem ReachableWhen.reachable {config : Config S σ α}
    (hreach : ReachableWhen M enabled tasks start config) : M.Reachable tasks start config := by
  induction hreach with
  | start => exact .start
  | act action _ hact ih => exact .act action ih (act_of_actWhen hact)
  | moves _ hmoves ih => exact .moves ih hmoves

/-- Run a whole schedule. -/
def actsWhen (M : Machine S σ φ) (enabled : S.Op → σ → Bool) (config : Config S σ α) :
    List (Act φ) → Option (Config S σ α)
  | [] => some config
  | action :: rest => (M.actWhen enabled config action).bind fun next =>
      actsWhen M enabled next rest

theorem ReachableWhen.acts {config next : Config S σ α}
    (hreach : ReachableWhen M enabled tasks start config) (schedule : List (Act φ))
    (hrun : M.actsWhen enabled config schedule = some next) :
    ReachableWhen M enabled tasks start next := by
  induction schedule generalizing config with
  | nil =>
      simp only [actsWhen, Option.some.injEq] at hrun
      exact hrun ▸ hreach
  | cons action rest ih =>
      simp only [actsWhen, Option.bind_eq_some_iff] at hrun
      obtain ⟨middle, hmiddle, hrest⟩ := hrun
      exact ih (.act action hreach hmiddle) hrest

end When

section Grain

variable (suspends : S.Op → Bool)

/-- The same operations with other await points: with all of them as await points, any
operations of any tasks interleave. -/
def regrain (M : Machine S σ φ) : Machine S σ φ := { M with suspends := suspends }

def Private.regrain {β : Type} (P : Private M β) : Private (M.regrain suspends) β where
  view := P.view
  next := P.next
  exec_self := P.exec_self
  exec_other := P.exec_other
  release := P.release
  moves := P.moves

variable {suspends}

/-- What single operations preserve does not depend on where the await points are. -/
theorem Preserved.regrain {β : Type} {P : Private M β} {tasks : Nat → Task S α} {start : σ}
    {invariant : σ → List (Logged S σ) → Prop} (hpreserved : Preserved P tasks start invariant) :
    Preserved (P.regrain suspends) tasks start invariant where
  exec := hpreserved.exec
  release := hpreserved.release
  moves := hpreserved.moves

end Grain

section Still

/-- The machine with nothing around it. -/
def still (M : Machine S σ φ) : Machine S σ φ := { M with moves := fun _ _ => False }

def Private.still {β : Type} (P : Private M β) : Private M.still β where
  view := P.view
  next := P.next
  exec_self := P.exec_self
  exec_other := P.exec_other
  release := P.release
  moves := fun hmoves => hmoves.elim

theorem segment_still (who : Nat) (task : Task S α) (choices : Nat → φ) (state : σ)
    (log : List (Logged S σ)) :
    M.still.segment who task choices state log = M.segment who task choices state log := by
  induction task generalizing choices state log with
  | done value => rfl
  | call op next ih => simp only [segment, ih]; rfl

/-- A schedule does not move the surroundings. -/
theorem acts_still (config : Config S σ α) (schedule : List (Act φ)) :
    M.still.acts config schedule = M.acts config schedule := by
  induction schedule generalizing config with
  | nil => rfl
  | cons action rest ih =>
      have hact : M.still.act config action = M.act config action := by
        cases action with
        | poll who choices => simp only [act, segment_still]
        | answer who choice => rfl
        | drop who => rfl
      simp only [acts, hact, ih]

end Still

end Machine

end Coop
