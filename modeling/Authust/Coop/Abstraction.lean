import Authust.Coop.Records

/-! # Machines that are seen as others

A machine with more operations, or with a state of which a part is seen, does along an invariant
what another machine does. Its tasks are then served as they are there, and its runs are runs of
that machine.
-/

namespace Coop

open Coop.Task

variable {S T : Signature} {σ τ φ ψ α β Req Req' : Type}

/-- The entry of an operation among more of them. -/
def Logged.translate (entry : Logged S σ) : Logged (S.sum T) σ :=
  ⟨entry.who, entry.before, entry.event.translate⟩

/-- The entry as it is seen. -/
def Logged.seen (see : σ → τ) (entry : Logged S σ) : Logged S τ :=
  ⟨entry.who, see entry.before, entry.event⟩

theorem map_event_seen (see : σ → τ) (log : List (Logged S σ)) :
    (log.map (Logged.seen see)).map Logged.event = log.map Logged.event := by
  rw [List.map_map]
  rfl

namespace Machine

section Left

/-- The machine with the operations of the first signature. -/
def left (M : Machine (S.sum T) σ φ) : Machine S σ φ where
  suspends := fun op => M.suspends (.inl op)
  exec := fun who op => M.exec who (.inl op)
  release := M.release
  moves := M.moves

variable {M : Machine (S.sum T) σ φ} {who : Nat} {before after : σ}

theorem Chain.left {log : List (Logged (S.sum T) σ)} {events : List (Event S)}
    (hchain : M.Chain who before log after)
    (hevents : log.map Logged.event = events.map Event.translate) :
    ∃ entries, log = entries.map Logged.translate ∧ entries.map Logged.event = events ∧
      M.left.Chain who before entries after := by
  induction hchain generalizing events with
  | nil =>
      cases events with
      | nil => exact ⟨[], rfl, rfl, .nil _⟩
      | cons event events => cases hevents
  | @cons before middle after event log hexec _ ih =>
      cases events with
      | nil => cases hevents
      | cons first events =>
          simp only [List.map_cons, List.cons.injEq] at hevents
          obtain ⟨rfl, hevents⟩ := hevents
          obtain ⟨entries, rfl, rfl, hentries⟩ := ih hevents
          exact ⟨⟨who, before, first⟩ :: entries, rfl, rfl, .cons hexec hentries⟩

/-- A translated task is served as the task is. -/
theorem Serves.left {task : Task S α} {served : Served (S.sum T) σ α}
    (hserves : M.Serves task.translate served) :
    ∃ entries, served.log = entries.map Logged.translate ∧
      M.left.Serves task
        ⟨served.who, served.before, entries, served.after, served.ending⟩ := by
  obtain ⟨rest, hpath, hstops⟩ := hserves.stops
  obtain ⟨events, inner, hinner, hevents, rfl⟩ := path_translate.mp hpath
  obtain ⟨entries, hlog, rfl, hchain⟩ := hserves.chain.left hevents
  refine ⟨entries, hlog, hchain, inner, hinner, ?_⟩
  generalize served.log = log at hlog hstops
  generalize served.ending = ending at hstops
  cases inner with
  | done value =>
      cases hstops with
      | returned => exact .returned
      | answered hsuspends =>
          obtain ⟨first, last, rfl, _, hlast⟩ := List.map_eq_append_iff.mp hlog.symm
          obtain ⟨entry, rfl, rfl⟩ := List.map_eq_singleton_iff.mp hlast
          exact .answered hsuspends
  | call op next =>
      cases hstops with
      | panicked choice hpanics => exact .panicked choice hpanics
      | waiting hsuspends => exact .waiting hsuspends
      | answered hsuspends =>
          obtain ⟨first, last, rfl, _, hlast⟩ := List.map_eq_append_iff.mp hlog.symm
          obtain ⟨entry, rfl, rfl⟩ := List.map_eq_singleton_iff.mp hlast
          exact .answered hsuspends

end Left

section Sequence

variable {M : Machine S σ φ} {who : Nat} {state : σ}

/-- Where a task stops does not depend on what is logged before it, unless it is dropped behind the
last answer to that. -/
theorem Stops.behind {rest : Task S α} {first second : List (Logged S σ)} {ending : Ending α}
    (hstops : M.Stops who rest (first ++ second) state ending) :
    M.Stops who rest second state ending ∨
      second = [] ∧ ending = .dropped ∧ ∀ {γ : Type} (task : Task S γ),
        M.Stops who task first state .dropped := by
  generalize hlog : first ++ second = log at hstops
  cases hstops with
  | returned => exact Or.inl .returned
  | panicked choice hpanics => exact Or.inl (.panicked choice hpanics)
  | waiting hsuspends => exact Or.inl (.waiting hsuspends)
  | @answered _ log entry _ hsuspends =>
      rcases List.eq_nil_or_concat second with rfl | ⟨front, last, rfl⟩
      · rw [List.append_nil] at hlog
        subst hlog
        exact Or.inr ⟨rfl, rfl, fun _ => .answered hsuspends⟩
      · rw [List.concat_eq_append, ← List.append_assoc] at hlog
        obtain ⟨_, hlast⟩ := List.append_inj' hlog rfl
        rw [List.concat_eq_append, hlast]
        exact Or.inl (.answered hsuspends)

/-- A sequence that is served is cut off in its first part, or the first part has returned and the
second is served behind it. -/
theorem Serves.bind_cases {task : Task S α} {f : α → Task S β} {served : Served S σ β}
    (hserves : M.Serves (task >>= f) served) :
    (∃ ending, M.Serves task ⟨served.who, served.before, served.log, served.after, ending⟩ ∧
        (∀ value, ending ≠ .returned value) ∧ ∀ value, served.ending ≠ .returned value) ∨
      ∃ first middle second value, served.log = first ++ second ∧
        M.Serves task ⟨served.who, served.before, first, middle, .returned value⟩ ∧
          M.Serves (f value) ⟨served.who, middle, second, served.after, served.ending⟩ := by
  obtain ⟨who, before, log, after, ending⟩ := served
  obtain ⟨hchain, rest, hpath, hstops⟩ := hserves
  dsimp only at hchain hpath hstops ⊢
  have hsplit : (∃ op next, Path task (log.map Logged.event) (.call op next) ∧
        rest = .call op fun res => next res >>= f) ∨
      ∃ first value second, Trace task first value ∧ Path (f value) second rest ∧
        log.map Logged.event = first ++ second := by
    rcases path_bind hpath with ⟨inner, hinner, rfl⟩ | hbehind
    · cases inner with
      | done value => exact Or.inr ⟨_, value, [], hinner, .refl _, (List.append_nil _).symm⟩
      | call op next => exact Or.inl ⟨op, next, hinner, rfl⟩
    · exact Or.inr hbehind
  rcases hsplit with ⟨op, next, hinner, rfl⟩ | ⟨first, value, second, hfirst, hsecond, hevents⟩
  · left
    cases hstops with
    | panicked choice hpanics =>
        exact ⟨.panicked, ⟨hchain, _, hinner, .panicked choice hpanics⟩, by simp, by simp⟩
    | waiting hsuspends =>
        exact ⟨.dropped, ⟨hchain, _, hinner, .waiting hsuspends⟩, by simp, by simp⟩
    | answered hsuspends =>
        exact ⟨.dropped, ⟨hchain, _, hinner, .answered hsuspends⟩, by simp, by simp⟩
  · obtain ⟨head, tail, middle, rfl, rfl, rfl, hhead, htail⟩ := hchain.of_append hevents
    rcases hstops.behind with hstops | ⟨rfl, rfl, hdropped⟩
    · exact Or.inr ⟨head, middle, tail, value, rfl, ⟨hhead, _, hfirst, .returned⟩, htail, rest,
        hsecond, hstops⟩
    · cases htail
      rw [List.append_nil]
      exact Or.inl ⟨.dropped, ⟨hhead, _, hfirst, hdropped _⟩, by simp, by simp⟩

/-- A task that has nothing to do is served without a step. -/
theorem Serves.of_done {value : α} {served : Served S σ α}
    (hserves : M.Serves (.done value) served) :
    served.log = [] ∧ served.after = served.before ∧ served.ending = .returned value := by
  obtain ⟨who, before, log, after, ending⟩ := served
  obtain ⟨hchain, rest, hpath, hstops⟩ := hserves
  dsimp only at hchain hpath hstops ⊢
  obtain ⟨hevents, rfl⟩ := path_done.mp hpath
  obtain rfl := List.map_eq_nil_iff.mp hevents
  cases hchain
  generalize hlog : ([] : List (Logged S σ)) = log at hstops
  cases hstops with
  | returned => exact ⟨rfl, rfl, rfl⟩
  | answered => simp at hlog

/-- What a task ensures on one machine it ensures on another that does the same while the condition
holds. -/
theorem Ensures.transfer {N : Machine S σ ψ} {always : σ → Prop} {task : Task S α}
    {post : α → σ → Prop}
    (hexec : ∀ {before event after}, always before → N.Exec who before event after →
      M.Exec who before event after)
    (hensures : M.Ensures who always task post state) : N.Ensures who always task post state := by
  induction task generalizing state with
  | done value => exact hensures
  | call op next ih =>
      exact ⟨hensures.1, fun res after hstep => ih res (hensures.2 res after
        (hexec hensures.1 hstep))⟩

end Sequence

section Seen

variable {M : Machine S σ φ} {N : Machine S τ ψ} {see : σ → τ} {inv : σ → Prop}

/-- Along the invariant, what the first machine does is what the second does with the states as
they are seen. Where the first panics the second may also have its task dropped. -/
structure Abstracts (M : Machine S σ φ) (N : Machine S τ ψ) (see : σ → τ) (inv : σ → Prop) :
    Prop where
  exec : ∀ {who before event after}, inv before → M.Exec who before event after →
    inv after ∧ N.Exec who (see before) event (see after)
  suspends : ∀ {op}, M.suspends op = true → N.suspends op = true
  panics : ∀ {who op choice state}, inv state → M.exec who op choice state = none →
    N.suspends op = true ∨ ∃ choice, N.exec who op choice (see state) = none

theorem Abstracts.chain (habstracts : M.Abstracts N see inv) {who : Nat} {before after : σ}
    {log : List (Logged S σ)} (hchain : M.Chain who before log after) (hinv : inv before) :
    inv after ∧ N.Chain who (see before) (log.map (Logged.seen see)) (see after) := by
  induction hchain with
  | nil => exact ⟨hinv, .nil _⟩
  | cons hexec _ ih =>
      obtain ⟨hmiddle, hseen⟩ := habstracts.exec hinv hexec
      obtain ⟨hafter, hchain⟩ := ih hmiddle
      exact ⟨hafter, .cons hseen hchain⟩

/-- A task is served as it is by the machine that is seen. -/
theorem Abstracts.serves (habstracts : M.Abstracts N see inv) {task : Task S α}
    {served : Served S σ α} (hserves : M.Serves task served) (hinv : inv served.before) :
    inv served.after ∧ ∃ ending, N.Serves task ⟨served.who, see served.before,
        served.log.map (Logged.seen see), see served.after, ending⟩ ∧
      ∀ value, served.ending = .returned value ↔ ending = .returned value := by
  obtain ⟨who, before, log, after, ending⟩ := served
  obtain ⟨hchain, rest, hpath, hstops⟩ := hserves
  dsimp only at hchain hpath hstops hinv ⊢
  obtain ⟨hafter, hseen⟩ := habstracts.chain hchain hinv
  have hevents : Path task ((log.map (Logged.seen see)).map Logged.event) rest := by
    rwa [map_event_seen]
  refine ⟨hafter, ?_⟩
  cases hstops with
  | @returned value => exact ⟨.returned value, ⟨hseen, _, hevents, .returned⟩, fun _ => Iff.rfl⟩
  | panicked choice hpanics =>
      rcases habstracts.panics hafter hpanics with hsuspends | ⟨choice, hpanics⟩
      · exact ⟨.dropped, ⟨hseen, _, hevents, .waiting hsuspends⟩, by simp⟩
      · exact ⟨.panicked, ⟨hseen, _, hevents, .panicked choice hpanics⟩, by simp⟩
  | waiting hsuspends =>
      exact ⟨.dropped, ⟨hseen, _, hevents, .waiting (habstracts.suspends hsuspends)⟩, by simp⟩
  | @answered _ log entry _ hsuspends =>
      refine ⟨.dropped, ⟨hseen, _, hevents, ?_⟩, by simp⟩
      rw [List.map_append]
      exact .answered (habstracts.suspends hsuspends)

end Seen

section Runs

variable {M : Machine S σ φ} {N : Machine T τ ψ} {see : σ → τ} {inv : σ → Prop}
  {handler : Req → Task S α} {handler' : Req' → Task T β} {start state : σ}

/-- If every request is seen as one that is served, and then the surroundings move, a run is seen
as a run. -/
theorem Serial.seen {runs : List (Req × Served S σ α)}
    (Shows : Req × Served S σ α → Req' × Served T τ β → Prop)
    (hrun : M.Serial handler start runs state) (hstart : inv start)
    (hserve : ∀ request served, inv served.before → M.Serves (handler request) served →
      inv (M.release served.who served.after) ∧ ∃ request' served',
        Shows (request, served) (request', served') ∧ served'.who = served.who ∧
          served'.before = see served.before ∧ N.Serves (handler' request') served' ∧
            N.moves (N.release served'.who served'.after)
              (see (M.release served.who served.after)))
    (hmoves : ∀ before after, inv before → M.moves before after →
      inv after ∧ N.moves (see before) (see after)) :
    inv state ∧ ∃ runs', N.Serial handler' (see start) runs' (see state) ∧
      List.Forall₂ Shows runs runs' := by
  induction hrun with
  | start => exact ⟨hstart, [], .start, .nil⟩
  | moves _ hmoved ih =>
      obtain ⟨hinv, runs', hrun', hshows⟩ := ih
      obtain ⟨hafter, hseen⟩ := hmoves _ _ hinv hmoved
      exact ⟨hafter, runs', .moves hrun' hseen, hshows⟩
  | @serve runs request served _ hwho hserves ih =>
      obtain ⟨hinv, runs', hrun', hshows⟩ := ih
      obtain ⟨hafter, request', served', hshown, hsame, hbefore, hserved, hmoved⟩ :=
        hserve request served hinv hserves
      rw [← hbefore] at hrun'
      have hnumber : served'.who = runs'.length := by
        rw [hsame, hwho, hshows.length_eq]
      exact ⟨hafter, runs' ++ [(request', served')], .moves (.serve hrun' hnumber hserved) hmoved,
        List.rel_append hshows (.cons hshown .nil)⟩

end Runs

end Machine

end Coop
