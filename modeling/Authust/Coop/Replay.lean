import Authust.Coop.Alone
import Authust.Coop.Since

/-! # Tasks that might as well have been alone

A task is followed, from its first operation on, in a state of its own. If each of its operations
is answered there as in the run, and if nothing else makes the two states differ in what the task
depends on, then it comes to what it comes to by itself, however it has been interleaved.
-/

namespace Coop

open Coop.Task

variable {S : Signature} {σ φ α β : Type}

/-- A run has come through a state, with the log by then. -/
inductive Config.Traversed (config : Config S σ α) : σ → List (Logged S σ) → Prop
  | now : config.Traversed config.state config.log
  | before {past rest : List (Logged S σ)} {entry : Logged S σ}
      (hlog : config.log = past ++ entry :: rest) : config.Traversed entry.before past

namespace Config.Traversed

variable {config : Config S σ α} {state state' : σ} {log first second : List (Logged S σ)}
  {seen : Logged S σ}

theorem unique (htraversed : config.Traversed state log)
    (htraversed' : config.Traversed state' log) : state = state' := by
  generalize hsame : log = other at htraversed'
  cases htraversed with
  | now =>
      cases htraversed' with
      | now => rfl
      | before hlog => simp [← hsame] at hlog
  | before hlog =>
      cases htraversed' with
      | now => simp [hsame] at hlog
      | before hlog' =>
          rw [hlog, hsame] at hlog'
          cases List.append_cancel_left hlog'
          rfl

theorem entry (htraversed : config.Traversed state (first ++ seen :: second)) :
    config.Traversed seen.before first := by
  generalize hsame : first ++ seen :: second = log at htraversed
  cases htraversed with
  | now => exact .before hsame.symm
  | @before _ later last hlog =>
      rw [← hsame, List.append_assoc, List.cons_append] at hlog
      exact .before hlog

/-- A run has come through every part of its log. -/
theorem initial (htraversed : config.Traversed state (first ++ second)) :
    ∃ state, config.Traversed state first := by
  cases second with
  | nil =>
      rw [List.append_nil] at htraversed
      exact ⟨state, htraversed⟩
  | cons seen rest => exact ⟨seen.before, htraversed.entry⟩

end Config.Traversed

namespace Machine

section Replays

variable {M : Machine S σ φ} {who : Nat} {choice : φ} {state middle after : σ}
  {history : List (Event S)} {event : Event S}

/-- With one choice for all of them, the operations are answered as the events say. -/
inductive Replays (M : Machine S σ φ) (who : Nat) (choice : φ) : σ → List (Event S) → σ → Prop
  | nil (state : σ) : Replays M who choice state [] state
  | cons {state middle after : σ} {event : Event S} {rest : List (Event S)}
      (hexec : M.exec who event.op choice state = some (event.res, middle))
      (hrest : Replays M who choice middle rest after) :
      Replays M who choice state (event :: rest) after

theorem Replays.snoc (hreplays : M.Replays who choice state history middle)
    (hexec : M.exec who event.op choice middle = some (event.res, after)) :
    M.Replays who choice state (history ++ [event]) after := by
  induction hreplays with
  | nil state => exact .cons hexec (.nil after)
  | cons hfirst _ ih => exact .cons hfirst (ih hexec)

/-- A chain whose operations could all have been answered with one choice is replayed with it. -/
theorem Chain.replays {log : List (Logged S σ)} (hchain : M.Chain who state log after)
    (hanswers : ∀ entry ∈ log, ∀ later, M.Exec who entry.before entry.event later →
      M.exec who entry.event.op choice entry.before = some (entry.event.res, later)) :
    M.Replays who choice state (log.map Logged.event) after := by
  induction hchain with
  | nil state => exact .nil state
  | cons hexec _ ih =>
      refine .cons (hanswers _ (.head _) _ hexec) ?_
      exact ih fun entry hmem => hanswers entry (.tail _ hmem)

/-- A task whose complete history is replayed returns by itself. -/
theorem Replays.alone {task : Task S α} {value : α}
    (hreplays : M.Replays who choice state history after) (htrace : Trace task history value) :
    M.alone who choice task state = some (value, after) := by
  induction hreplays generalizing task with
  | nil state =>
      cases htrace
      rfl
  | cons hexec _ ih =>
      cases htrace with
      | step htail =>
          rw [Machine.alone, hexec, Option.bind_some]
          exact ih htail

end Replays

/-- A way to follow tasks that begin in a certain way. `mirrors seen history state imagined` says
what the state of a run and the imagined one have in common when the task that began with the
entry `seen` has had a history of its own, and entries that are quiet for it keep it so. -/
structure Mirror (M : Machine S σ φ) (P : Private M β) (tasks : Nat → Task S α) (start : σ)
    (invariant : σ → List (Logged S σ) → Prop) (choice : φ) where
  begins : Logged S σ → Prop
  quiet : Logged S σ → List (Logged S σ) → Logged S σ → Prop
  imagine : σ → σ
  mirrors : Logged S σ → List (Event S) → σ → σ → Prop
  first : ∀ {seen : Logged S σ} {log : List (Logged S σ)}, begins seen → invariant seen.before log →
    own seen.who log = [] → P.view seen.who seen.before = P.view seen.who start →
    mirrors seen [] seen.before (imagine seen.before)
  self : ∀ {seen : Logged S σ} {log : List (Logged S σ)} {state after imagined : σ}
    {event : Event S} {next : S.Res event.op → Task S α}, begins seen → invariant state log →
    Issued M tasks log → Path (tasks seen.who) (own seen.who log) (.call event.op next) →
    P.view seen.who state = (own seen.who log).foldl P.next (P.view seen.who start) →
    M.Exec seen.who state event after → quiet seen log ⟨seen.who, state, event⟩ →
    mirrors seen (own seen.who log) state imagined →
    ∃ later, M.exec seen.who event.op choice imagined = some (event.res, later) ∧
      mirrors seen (own seen.who log ++ [event]) after later
  other : ∀ {seen : Logged S σ} {who : Nat} {log : List (Logged S σ)} {state after imagined : σ}
    {event : Event S} {next : S.Res event.op → Task S α} {history : List (Event S)},
    begins seen → who ≠ seen.who → invariant state log → Issued M tasks log →
    Path (tasks who) (own who log) (.call event.op next) →
    P.view who state = (own who log).foldl P.next (P.view who start) →
    M.Exec who state event after → quiet seen log ⟨who, state, event⟩ →
    mirrors seen history state imagined → mirrors seen history after imagined
  release : ∀ {seen : Logged S σ} {who : Nat} {state imagined : σ} {history : List (Event S)},
    mirrors seen history state imagined → mirrors seen history (M.release who state) imagined
  moves : ∀ {seen : Logged S σ} {state after imagined : σ} {history : List (Event S)},
    M.moves state after → mirrors seen history state imagined →
    mirrors seen history after imagined

namespace Mirror

variable {M : Machine S σ φ} {P : Private M β} {tasks : Nat → Task S α} {start : σ}
  {invariant : σ → List (Logged S σ) → Prop} {choice : φ}

/-- Every task since whose beginning all has been quiet for it is followed. -/
def Follows (mirror : Mirror M P tasks start invariant choice) (state : σ)
    (log : List (Logged S σ)) : Prop :=
  ∀ past seen middle, log = past ++ seen :: middle → own seen.who past = [] →
    mirror.begins seen → QuietFrom (mirror.quiet seen) past.length log →
      ∃ imagined,
        M.Replays seen.who choice (mirror.imagine seen.before) (own seen.who log) imagined ∧
          mirror.mirrors seen (own seen.who log) state imagined

variable (mirror : Mirror M P tasks start invariant choice)

theorem follows_nil {state : σ} : mirror.Follows state [] := by
  intro past seen middle hlog
  simp at hlog

theorem follows_exec {who : Nat} {state after : σ} {log : List (Logged S σ)} {event : Event S}
    {next : S.Res event.op → Task S α} (hfollows : mirror.Follows state log)
    (hinvariant : invariant state log) (hissued : Issued M tasks log)
    (hpath : Path (tasks who) (own who log) (.call event.op next))
    (hview : P.view who state = (own who log).foldl P.next (P.view who start))
    (hexec : M.Exec who state event after) :
    mirror.Follows after (log ++ [⟨who, state, event⟩]) := by
  intro past seen middle hlog hfirst hbegins hquiet
  -- the task begins with this entry, or has been followed up to it
  have hbefore : past.length ≤ log.length ∧ ∃ imagined,
      M.Replays seen.who choice (mirror.imagine seen.before) (own seen.who log) imagined ∧
        mirror.mirrors seen (own seen.who log) state imagined := by
    rcases List.eq_nil_or_concat middle with rfl | ⟨front, last, rfl⟩
    · obtain ⟨rfl, hseen⟩ := List.append_inj' hlog rfl
      obtain rfl := List.singleton_inj.mp hseen
      simp only at hfirst
      rw [hfirst] at hview ⊢
      exact ⟨Nat.le_refl _, _, .nil _, mirror.first hbegins hinvariant hfirst hview⟩
    · rw [List.concat_eq_append, ← List.cons_append, ← List.append_assoc] at hlog
      obtain ⟨rfl, _⟩ := List.append_inj' hlog rfl
      exact ⟨by simp, hfollows past seen front rfl hfirst hbegins hquiet.initial⟩
  obtain ⟨hlength, imagined, hreplays, hmirrors⟩ := hbefore
  have hlast := hquiet.at_end hlength
  by_cases hwho : who = seen.who
  · subst hwho
    obtain ⟨later, hlater, hkept⟩ :=
      mirror.self hbegins hinvariant hissued hpath hview hexec hlast hmirrors
    rw [own_snoc_self]
    exact ⟨later, hreplays.snoc hlater, hkept⟩
  · rw [own_snoc_other hwho]
    exact ⟨imagined, hreplays,
      mirror.other hbegins hwho hinvariant hissued hpath hview hexec hlast hmirrors⟩

theorem follows_preserved (hpreserved : Preserved P tasks start invariant) :
    Preserved P tasks start fun state log => invariant state log ∧ mirror.Follows state log where
  exec := by
    intro who state after log event next hinvariant hissued hpath hview hexec
    exact ⟨hpreserved.exec hinvariant.1 hissued hpath hview hexec,
      mirror.follows_exec hinvariant.2 hinvariant.1 hissued hpath hview hexec⟩
  release := by
    intro who state log hinvariant
    refine ⟨hpreserved.release hinvariant.1, ?_⟩
    intro past seen middle hlog hfirst hbegins hquiet
    obtain ⟨imagined, hreplays, hmirrors⟩ :=
      hinvariant.2 past seen middle hlog hfirst hbegins hquiet
    exact ⟨imagined, hreplays, mirror.release hmirrors⟩
  moves := by
    intro state after log hinvariant hmoves
    refine ⟨hpreserved.moves hinvariant.1 hmoves, ?_⟩
    intro past seen middle hlog hfirst hbegins hquiet
    obtain ⟨imagined, hreplays, hmirrors⟩ :=
      hinvariant.2 past seen middle hlog hfirst hbegins hquiet
    exact ⟨imagined, hreplays, mirror.moves hmoves hmirrors⟩

/-- A task that has returned, and since whose beginning all has been quiet for it, has returned what
it returns by itself. -/
theorem Follows.alone {mirror : Mirror M P tasks start invariant choice} {state : σ}
    {past rest log : List (Logged S σ)} {seen : Logged S σ} (hfollows : mirror.Follows state log)
    (hlog : log = past ++ seen :: rest) (hfirst : own seen.who past = [])
    (hbegins : mirror.begins seen) (hquiet : QuietFrom (mirror.quiet seen) past.length log)
    {value : α} (htrace : Trace (tasks seen.who) (own seen.who log) value) :
    ∃ imagined, M.alone seen.who choice (tasks seen.who) (mirror.imagine seen.before) =
        some (value, imagined) ∧ mirror.mirrors seen (own seen.who log) state imagined := by
  obtain ⟨imagined, hreplays, hmirrors⟩ := hfollows past seen rest hlog hfirst hbegins hquiet
  exact ⟨imagined, hreplays.alone htrace, hmirrors⟩

end Mirror

section Traversed

variable {M : Machine S σ φ} {P : Private M β} {tasks : Nat → Task S α} {start state : σ}
  {invariant : σ → List (Logged S σ) → Prop} {config : Config S σ α} {log : List (Logged S σ)}

/-- What is preserved held wherever the run has come through. -/
theorem Reachable.traversed (hreach : M.Reachable tasks start config)
    (hpreserved : Preserved P tasks start invariant) (hstart : invariant start [])
    (htraversed : config.Traversed state log) : invariant state log ∧ Issued M tasks log := by
  obtain ⟨⟨hinvariant, hthroughout⟩, hissued, _⟩ :=
    hreach.holds hpreserved.throughout ⟨hstart, throughout_nil⟩
  cases htraversed with
  | now => exact ⟨hinvariant, hissued⟩
  | before hlog =>
      rw [hlog] at hissued
      exact ⟨hthroughout _ _ _ hlog, hissued.initial⟩

end Traversed

end Machine

end Coop
