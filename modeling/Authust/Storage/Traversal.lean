import Authust.Graph.Chain
import Authust.Storage.Upstream

/-! # How deep a traversal goes

`reverse_lookup` follows the password stage of each stage that it visits. Within a given
depth it gets to the end of a chain that is short enough; over a finite table some depth is
enough for a flow exactly when no stage that the flow reaches is reached again from itself.
-/

namespace Authust.Upstream

open Postgres Relation Graph

variable (U : Upstream)

/-- Everything that the traversal looks up below the stage is found within the depth. -/
def Follows : Nat → Stage → Prop
  | 0, _ => False
  | depth + 1, stage =>
      match stage.kind with
      | .prompt bindings => ∀ binding ∈ bindings, (U.prompts binding.prompt).isSome
      | .identification (some password) _ =>
          ∃ next, U.stages password = some next ∧ Follows depth next
      | _ => True

/-- Everything that the traversal looks up for the flow is found within the depth. -/
structure Visits (depth : Nat) (flow : Flow) : Prop where
  self : (U.flows (.uid flow.uid)).isSome
  policies : ∀ reference, flow.RefersTo reference → (U.policies reference).isSome
  stages : ∀ entry ∈ flow.entries, ∃ stage, U.stages entry.stage = some stage ∧
    U.Follows depth stage

/-- Everything that the flow refers to is found. -/
structure Resolves (flow : Flow) : Prop where
  self : (U.flows (.uid flow.uid)).isSome
  policies : ∀ reference, flow.RefersTo reference → (U.policies reference).isSome
  stages : ∀ reference, U.Reaches flow reference → (U.stages reference).isSome
  prompts : ∀ reference stage bindings, U.Reaches flow reference → U.stages reference = some stage →
    stage.kind = .prompt bindings → ∀ binding ∈ bindings, (U.prompts binding.prompt).isSome

/-- No stage that the flow reaches is reached again from itself. -/
def Acyclic (flow : Flow) : Prop :=
  ∀ reference, U.Reaches flow reference → ¬ TransGen U.References reference reference

variable {U} {flow : Flow} {stage : Stage} {reference target password : DataRef StageQuery}
  {depth : Nat}

theorem Follows.mono (hfollows : U.Follows depth stage) {more : Nat} (hle : depth ≤ more) :
    U.Follows more stage := by
  induction depth generalizing more stage with
  | zero => exact hfollows.elim
  | succ depth ih =>
      obtain ⟨more, rfl⟩ := Nat.exists_eq_add_of_lt hle
      unfold Follows at hfollows ⊢
      split at hfollows
      next => exact hfollows
      next =>
        obtain ⟨next, hnext, hfollows⟩ := hfollows
        exact ⟨next, hnext, ih hfollows (Nat.le_add_right _ _)⟩
      next => trivial

theorem follows_of_password (hpassword : stage.password? = some password) :
    U.Follows (depth + 1) stage ↔ ∃ next, U.stages password = some next ∧ U.Follows depth next := by
  unfold Stage.password? at hpassword
  split at hpassword
  next userFields hkind =>
    subst hpassword
    rw [Follows, hkind]
  next => cases hpassword

/-- A stage that refers to none. -/
theorem follows_of_leaf (hpassword : stage.password? = none) :
    U.Follows (depth + 1) stage ↔ ∀ bindings, stage.kind = .prompt bindings →
      ∀ binding ∈ bindings, (U.prompts binding.prompt).isSome := by
  unfold Stage.password? at hpassword
  unfold Follows
  cases hkind : stage.kind with
  | prompt bindings => simp
  | identification password userFields => simp_all
  | _ => simp

/-- Whatever is reached below a stage is found. -/
theorem Follows.reached (hstage : U.stages reference = some stage)
    (hfollows : U.Follows depth stage) (hpath : ReflTransGen U.References reference target) :
    ∃ found depth', U.stages target = some found ∧ U.Follows (depth' + 1) found := by
  induction hpath with
  | refl =>
      cases depth with
      | zero => exact hfollows.elim
      | succ depth => exact ⟨stage, depth, hstage, hfollows⟩
  | tail _ hstep ih =>
      obtain ⟨found, depth', hfound, hfollows'⟩ := ih
      obtain ⟨same, hsame, hpassword⟩ := hstep
      rw [hfound] at hsame
      cases hsame
      obtain ⟨next, hnext, hfollowed⟩ := (follows_of_password hpassword).mp hfollows'
      cases depth' with
      | zero => exact hfollowed.elim
      | succ depth' => exact ⟨next, depth', hnext, hfollowed⟩

/-- A traversal that gets to its end follows chains that end. -/
theorem Follows.ends (hstage : U.stages reference = some stage) (hfollows : U.Follows depth stage) :
    Ends U.References reference := by
  induction depth generalizing reference stage with
  | zero => exact hfollows.elim
  | succ depth ih =>
      refine .intro _ fun password hstep => ?_
      obtain ⟨same, hsame, hpassword⟩ := hstep
      rw [hstage] at hsame
      cases hsame
      obtain ⟨next, hnext, hfollowed⟩ := (follows_of_password hpassword).mp hfollows
      exact ih hnext hfollowed

/-- Where chains end and everything is found, some depth is enough. -/
theorem Resolves.follows (hresolves : U.Resolves flow) (hreaches : U.Reaches flow reference)
    (hends : Ends U.References reference) :
    ∃ stage depth, U.stages reference = some stage ∧ U.Follows depth stage := by
  induction hends with
  | intro reference _ ih =>
      obtain ⟨stage, hstage⟩ := Option.isSome_iff_exists.mp (hresolves.stages reference hreaches)
      cases hpassword : stage.password? with
      | none =>
          refine ⟨stage, 1, hstage, (follows_of_leaf hpassword).mpr fun bindings hkind => ?_⟩
          exact hresolves.prompts reference stage bindings hreaches hstage hkind
      | some password =>
          have hstep : U.References reference password := ⟨stage, hstage, hpassword⟩
          obtain ⟨next, depth, hnext, hfollows⟩ := ih password hstep (hreaches.password hstep)
          exact ⟨stage, depth + 1, hstage, (follows_of_password hpassword).mpr
            ⟨next, hnext, hfollows⟩⟩

theorem Visits.mono (hvisits : U.Visits depth flow) {more : Nat} (hle : depth ≤ more) :
    U.Visits more flow where
  self := hvisits.self
  policies := hvisits.policies
  stages := by
    intro entry hentry
    obtain ⟨stage, hstage, hfollows⟩ := hvisits.stages entry hentry
    exact ⟨stage, hstage, hfollows.mono hle⟩

/-- What a traversal finds within a depth. -/
theorem Visits.resolves (hvisits : U.Visits depth flow) : U.Resolves flow where
  self := hvisits.self
  policies := hvisits.policies
  stages := by
    rintro reference ⟨entry, hentry, hpath⟩
    obtain ⟨stage, hstage, hfollows⟩ := hvisits.stages entry hentry
    obtain ⟨found, _, hfound, _⟩ := hfollows.reached hstage hpath
    simp [hfound]
  prompts := by
    rintro reference reached bindings ⟨entry, hentry, hpath⟩ hreached hkind
    obtain ⟨stage, hstage, hfollows⟩ := hvisits.stages entry hentry
    obtain ⟨found, _, hfound, hfollowed⟩ := hfollows.reached hstage hpath
    rw [hreached] at hfound
    cases hfound
    exact (follows_of_leaf (by simp [Stage.password?, hkind])).mp hfollowed bindings hkind

theorem Visits.acyclic (hvisits : U.Visits depth flow) : U.Acyclic flow := by
  rintro reference ⟨entry, hentry, hpath⟩
  obtain ⟨stage, hstage, hfollows⟩ := hvisits.stages entry hentry
  exact (hfollows.ends hstage).acyclic hpath

/-- A stage that is found has its row in the table. -/
theorem LoadedFrom.stage_row {db : Database} (hloaded : U.LoadedFrom db) {uid : Int}
    (hstage : U.stages (.uid uid) = some stage) :
    ∃ row ∈ db "stages", row.lookup "uid" = some (some (.int4 uid)) := by
  obtain ⟨client, hserves, hfound⟩ := hloaded.stages _ _ hstage
  obtain ⟨row, hrow, hselected, _⟩ := findRow_eq_some hserves hfound
  exact ⟨row, hrow, hselected⟩

/-- A finite table has finitely many stages to reach. -/
theorem Resolves.finite {db : Database} (hloaded : U.LoadedFrom db) (hresolves : U.Resolves flow)
    (hbyUid : flow.ByUid) : {reference | U.Reaches flow reference}.Finite := by
  refine (List.finite_toSet ((db "stages").filterMap fun row =>
    (row.get .int4 "uid").map StageQuery.uid)).subset ?_
  intro reference hreaches
  obtain ⟨uid, rfl⟩ := hreaches.byUid hloaded.loaded hbyUid
  obtain ⟨stage, hstage⟩ := Option.isSome_iff_exists.mp (hresolves.stages _ hreaches)
  obtain ⟨row, hrow, huid⟩ := hloaded.stage_row hstage
  exact List.mem_filterMap.mpr ⟨row, hrow, by simp [Row.get, huid, Decoder.int4]⟩

/-- Over a finite table, some depth is enough for a flow whose chains do not return. -/
theorem Resolves.visits {db : Database} (hloaded : U.LoadedFrom db) (hresolves : U.Resolves flow)
    (hbyUid : flow.ByUid) (hacyclic : U.Acyclic flow) : ∃ depth, U.Visits depth flow := by
  have hentry : ∀ entry ∈ flow.entries, ∃ stage depth,
      U.stages entry.stage = some stage ∧ U.Follows depth stage := by
    intro entry hentry
    refine hresolves.follows (.entry hentry) (ends_of_acyclic ?_ ?_)
    · exact (hresolves.finite hloaded hbyUid).subset fun target hpath => ⟨entry, hentry, hpath⟩
    · exact fun target hpath => hacyclic target ⟨entry, hentry, hpath⟩
  have hall : ∃ depth, ∀ entry ∈ flow.entries, ∃ stage,
      U.stages entry.stage = some stage ∧ U.Follows depth stage := by
    generalize flow.entries = entries at hentry
    induction entries with
    | nil => exact ⟨0, by simp⟩
    | cons first rest ih =>
        obtain ⟨stage, enough, hstage, hfollows⟩ := hentry first List.mem_cons_self
        obtain ⟨depth, hdepth⟩ := ih fun entry hmem => hentry entry (List.mem_cons_of_mem _ hmem)
        refine ⟨max enough depth, fun entry hmem => ?_⟩
        rcases List.mem_cons.mp hmem with rfl | hmem
        · exact ⟨stage, hstage, hfollows.mono (Nat.le_max_left _ _)⟩
        · obtain ⟨stage, hstage, hfollows⟩ := hdepth entry hmem
          exact ⟨stage, hstage, hfollows.mono (Nat.le_max_right _ _)⟩
  obtain ⟨depth, hdepth⟩ := hall
  exact ⟨depth, hresolves.self, hresolves.policies, hdepth⟩

end Authust.Upstream
