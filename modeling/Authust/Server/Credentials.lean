import Authust.Server.Course

/-! # Who knows the credentials

A user who names himself, proves it with the stored password and is not denied by a check comes
through a flow of forms and logins, with one POST for each form; behind the logins the row of the
session names him.
-/

namespace Authust

open Coop Coop.Task Coop.Machine

variable {X : Externals}

/-- The user of the row, while he is pending. -/
def UserRow.pendingUser (row : UserRow) (authenticated : Bool) : PendingUser :=
  { PendingUser.ofPartialUser row.toPartialUser with authenticated := authenticated }

/-- The user is pending, and authenticated or not, as far as it is known. -/
def Visit.Pends (row : UserRow) (standing : Option Bool) (visit : Visit) : Prop :=
  ∀ authenticated ∈ standing, visit.pending = some (row.pendingUser authenticated)

/-- Whether the stages can be passed with credentials: passwords are asked for when somebody is
pending, and logins come behind a password, no more of them than turns are left. -/
def passable : Nat → Option Bool → List StageKind → Bool
  | _, _, [] => true
  | _, _, .identification password _ :: kinds => passable 41 (some password.isSome) kinds
  | _, standing, .password _ :: kinds => standing.isSome && passable 41 (some true) kinds
  | left, standing, .userLogin :: kinds =>
      decide (0 < left) && decide (standing = some true) && passable (left - 1) standing kinds
  | _, _, _ :: _ => false

/-- What is known of the pending user behind a stage that has been passed. -/
def standingBehind (standing : Option Bool) : StageKind → Option Bool
  | .identification password _ => some password.isSome
  | .password _ => some true
  | _ => standing

/-- The stages behind the logins that come first. -/
def behindLogins (kinds : List StageKind) : List StageKind :=
  kinds.dropWhile fun kind => kind = .userLogin

section Kinds

variable {kinds : List StageKind}

theorem behindLogins_sublist : (behindLogins kinds).Sublist kinds :=
  List.dropWhile_sublist _

theorem filter_behindLogins : (behindLogins kinds).filter StageKind.requiresInput =
    kinds.filter StageKind.requiresInput := by
  induction kinds with
  | nil => rfl
  | cons kind kinds ih =>
      by_cases hlogin : kind = .userLogin
      · subst hlogin
        exact ih
      · simp [behindLogins, hlogin]

theorem mem_behindLogins : .userLogin ∈ kinds ↔
    kinds.head? = some .userLogin ∨ .userLogin ∈ behindLogins kinds := by
  cases kinds with
  | nil => simp [behindLogins]
  | cons kind kinds =>
      by_cases hlogin : kind = .userLogin
      · simp [hlogin]
      · simp [behindLogins, hlogin]

/-- Behind the logins there is a form, if anything passable. -/
theorem behindLogins_form {left : Nat} {standing : Option Bool}
    (hpassable : passable left standing (behindLogins kinds) = true) :
    ∀ kind ∈ (behindLogins kinds).head?, kind.requiresInput = true := by
  intro kind hkind
  have hnot : kind ≠ .userLogin := by
    have hfirst := List.head?_dropWhile_not (fun kind => decide (kind = .userLogin)) kinds
    have hhead : (kinds.dropWhile fun kind => decide (kind = .userLogin)).head? = some kind := hkind
    rw [hhead] at hfirst
    simpa using hfirst
  obtain ⟨others, hothers⟩ := List.head?_eq_some_iff.mp hkind
  rw [hothers] at hpassable
  cases kind with
  | deny | prompt | identification | password | consent => rfl
  | userLogin => exact absurd rfl hnot
  | userLogout | userWrite => cases hpassable

end Kinds

namespace Setting

variable (setting : Setting X)

def kindAt (index : Nat) : Option StageKind :=
  (setting.plan.stageAt index).map Stage.kind

/-- The kinds of the stages from an entry to the end of the flow. -/
def Ahead (index : Nat) : List StageKind → Prop
  | [] => setting.entries ≤ index
  | kind :: kinds => index < setting.entries ∧ setting.kindAt index = some kind ∧
      Ahead (index + 1) kinds

/-- The stages that a visitor has not passed yet. -/
inductive Before (visit : Visit) : List StageKind → Prop
  | nothing (hcompleted : visit.isCompleted = true) : Before visit []
  | stage {kind : StageKind} {kinds : List StageKind} (hopen : visit.isCompleted = false)
      (hahead : setting.Ahead visit.currentEntryIdx (kind :: kinds)) : Before visit (kind :: kinds)

/-- The form has the password that is stored. -/
def Proves (X : Externals) (row : UserRow) (form : Value) : Prop :=
  ∃ password, strFromField "password" form = .ok password ∧
    verifyStored X row.password password = .ok ()

/-- The form is what a stage asks of the user. -/
def Answers (row : UserRow) (form : Value) : StageKind → Prop
  | .identification password fields =>
      (∃ text, strFromField "uid" form = .ok text ∧
        findFirst setting.world.users (identifiers X fields text) =
          .ok (some row.toPartialUser)) ∧
      ∀ reference ∈ password, Proves X row form ∧ ∃ backends, .internal ∈ backends ∧
        ((setting.execution.context.storage.stage.findOptional reference).join).map Stage.kind =
          some (.password backends)
  | .password backends => .internal ∈ backends ∧ Proves X row form
  | _ => True

/-- The visitor is let through to the submission. -/
def LetsIn (request : Request X) (visit : Visit) : Prop :=
  ∃ host user, request.host = some host ∧ setting.findUser visit.user = .ok user ∧
    setting.judge (setting.asking request host user visit) visit = some none

/-- A request of the session that has what a stage asks of the user. -/
structure Sends (row : UserRow) (request : Request X) (kind : StageKind) : Prop where
  presents : ∃ claims, Presents (.postFlow request) setting.execution.key request claims
  form : ∃ form, request.form = some form ∧ setting.Answers row form kind

section Passing

variable {setting} {visit : Visit} {row : UserRow} {form : Value} {kind : StageKind}
  {kinds : List StageKind} {standing : Option Bool} {left : Nat}

theorem Before.of_same {later : Visit} (hbefore : setting.Before visit kinds)
    (hindex : later.currentEntryIdx = visit.currentEntryIdx)
    (hcompleted : later.isCompleted = visit.isCompleted) : setting.Before later kinds := by
  cases hbefore with
  | nothing hdone => exact .nothing (hcompleted.trans hdone)
  | stage hopen hahead => exact .stage (hcompleted.trans hopen) (hindex ▸ hahead)

/-- An advance leaves one stage behind. -/
theorem Before.advance (hbefore : setting.Before visit (kind :: kinds)) :
    setting.Before (visit.advance setting.entries) kinds := by
  cases hbefore with
  | stage hopen hahead =>
      obtain ⟨hlt, _, hahead⟩ := hahead
      unfold Visit.advance
      cases kinds with
      | nil =>
          have hlast : setting.entries ≤ visit.currentEntryIdx + 1 := hahead
          rw [if_neg (by omega)]
          exact .nothing rfl
      | cons kind kinds =>
          rw [if_pos hahead.1]
          exact .stage hopen hahead

/-- The stage before which a visitor stands. -/
theorem Before.stageAt (hbefore : setting.Before visit (kind :: kinds)) :
    visit.isCompleted = false ∧ ∃ entry stage,
      setting.execution.flow.entries[visit.currentEntryIdx]? = some entry ∧
        setting.plan.stageAt visit.currentEntryIdx = some stage ∧ stage.kind = kind := by
  cases hbefore with
  | stage hopen hahead =>
      obtain ⟨hlt, hkind, _⟩ := hahead
      obtain ⟨stage, hstage, hkind⟩ := Option.map_eq_some_iff.mp hkind
      exact ⟨hopen, _, stage, List.getElem?_eq_getElem hlt, hstage, hkind⟩

/-- With nothing but a form before the visitor, or nothing at all, no login is passed. -/
theorem passLogin_rests (hbefore : setting.Before visit kinds)
    (hinput : ∀ kind ∈ kinds.head?, kind.requiresInput = true) (exhausted : Bool) :
    setting.passLogin exhausted visit = some (.ok .leave, visit) := by
  unfold passLogin
  cases kinds with
  | nil =>
      cases hbefore with
      | nothing hcompleted => rw [if_pos hcompleted]
  | cons kind kinds =>
      obtain ⟨hopen, entry, stage, hentry, hstage, hkind⟩ := hbefore.stageAt
      have hform : stage.kind.requiresInput = true := by
        rw [hkind]
        exact hinput kind rfl
      rw [hopen, hentry, hstage]
      simp [hform]

/-- A login lets through who has been authenticated. -/
theorem passLogin_login (hbefore : setting.Before visit (.userLogin :: kinds))
    (hpends : visit.Pends row (some true)) :
    setting.passLogin false visit = some (.ok .proceed, visit) := by
  obtain ⟨hopen, entry, stage, hentry, hstage, hkind⟩ := hbefore.stageAt
  have hpending := hpends true rfl
  unfold passLogin
  rw [hopen, hentry, hstage]
  simp [hkind, StageKind.requiresInput, Visit.login, hpending, UserRow.pendingUser]

theorem passLogins_rests (hbefore : setting.Before visit kinds)
    (hinput : ∀ kind ∈ kinds.head?, kind.requiresInput = true) (left : Nat) :
    setting.passLogins left visit = some (.ok false, visit) := by
  cases left with
  | zero =>
      rw [passLogins, passLogin_rests hbefore hinput]
      rfl
  | succ left =>
      rw [passLogins, passLogin_rests hbefore hinput]
      rfl

/-- Before a form all turns are left. -/
theorem passable_form (hinput : ∀ kind ∈ kinds.head?, kind.requiresInput = true) :
    passable left standing kinds = passable 41 standing kinds := by
  cases kinds with
  | nil => rfl
  | cons kind kinds =>
      have hform := hinput kind rfl
      cases kind with
      | userLogin => cases hform
      | deny | prompt | identification | userLogout | userWrite | password | consent => rfl

theorem passable_login (hpassable : passable left standing (.userLogin :: kinds) = true) :
    ∃ rest, left = rest + 1 ∧ standing = some true ∧ passable rest standing kinds = true := by
  simp only [passable, Bool.and_eq_true, decide_eq_true_eq] at hpassable
  obtain ⟨⟨hleft, hstanding⟩, hrest⟩ := hpassable
  exact ⟨left - 1, by omega, hstanding, hrest⟩

/-- The logins are passed up to the next form. -/
theorem passLogins_through (hbefore : setting.Before visit kinds)
    (hpassable : passable left standing kinds = true) (hpends : visit.Pends row standing) :
    ∃ later, setting.passLogins left visit =
        some (.ok (decide (kinds.head? = some .userLogin)), later) ∧
      setting.Before later (behindLogins kinds) ∧ later.pending = visit.pending ∧
        passable 41 standing (behindLogins kinds) = true := by
  induction kinds generalizing visit left with
  | nil => exact ⟨visit, passLogins_rests hbefore (by simp) left, hbefore, rfl, rfl⟩
  | cons kind kinds ih =>
      by_cases hlogin : kind = .userLogin
      · subst hlogin
        obtain ⟨rest, rfl, rfl, hrest⟩ := passable_login hpassable
        have hkept : (visit.advance setting.entries).Pends row (some true) := by
          intro authenticated hknown
          rw [Visit.advance_pending]
          exact hpends authenticated hknown
        obtain ⟨later, hpassed, hlater, hpending, hbehind⟩ := ih hbefore.advance hrest hkept
        refine ⟨later, ?_, hlater, ?_, hbehind⟩
        · rw [passLogins, passLogin_login hbefore hpends, Option.bind_some]
          simp only [hpassed]
          rfl
        · rw [hpending, Visit.advance_pending]
      · have hinput : ∀ first ∈ (kind :: kinds).head?, first.requiresInput = true := by
          intro first hfirst
          cases hfirst
          cases kind with
          | deny | prompt | identification | password | consent => rfl
          | userLogin => exact absurd rfl hlogin
          | userLogout | userWrite => cases hpassable
        have hbehind : behindLogins (kind :: kinds) = kind :: kinds := by
          simp [behindLogins, hlogin]
        refine ⟨visit, ?_, ?_, rfl, ?_⟩
        · rw [passLogins_rests hbefore hinput left]
          simp [hlogin]
        · rwa [hbehind]
        · rwa [hbehind, ← passable_form hinput]

theorem answerPassword_proves (hstored : setting.world.queryUser (.uid row.uid) = .ok (some row))
    (hproves : Proves X row form) {backends : List PasswordBackend}
    (hinternal : .internal ∈ backends) {user : PendingUser} (huser : user.uid = row.uid) :
    answerPassword X setting.world.users form backends (some user) =
      (.ok (), some { user with authenticated := true }) := by
  obtain ⟨password, hpassword, hverified⟩ := hproves
  have hcontains : backends.contains .internal = true := List.contains_iff_mem.mpr hinternal
  have hrow : queryOpt (setting.world.users.filter (UserKey.uid row.uid).matches) =
      .ok (some row) := hstored
  simp only [answerPassword, judgePassword, hpassword, hcontains, huser, hrow, hverified,
    ↓reduceIte]

/-- What a stage asks of the user, it accepts. -/
theorem answerStage_answers (hstored : setting.world.queryUser (.uid row.uid) = .ok (some row))
    (hanswers : setting.Answers row form kind)
    (hpassable : passable left standing (kind :: kinds) = true) (hinput : kind.requiresInput = true)
    (hpends : visit.Pends row standing) :
    ∃ pending, answerStage X setting.world.users setting.execution.context.storage form
        visit.pending kind = some (.ok (), pending) ∧
      ({ visit with pending := pending } : Visit).Pends row (standingBehind standing kind) ∧
        passable 41 (standingBehind standing kind) kinds = true := by
  cases kind with
  | userLogin | userLogout | userWrite => cases hinput
  | deny | prompt | consent => cases hpassable
  | password backends =>
      obtain ⟨hinternal, hproves⟩ := hanswers
      obtain ⟨hknown, hrest⟩ := Bool.and_eq_true_iff.mp hpassable
      obtain ⟨authenticated, rfl⟩ := Option.isSome_iff_exists.mp hknown
      have hpending := hpends authenticated rfl
      refine ⟨some (row.pendingUser true), ?_, ?_, hrest⟩
      · rw [answerStage, hpending, answerPassword_proves hstored hproves hinternal rfl]
        rfl
      · intro authenticated hbehind
        cases hbehind
        rfl
  | identification password fields =>
      obtain ⟨⟨text, htext, hfound⟩, hpassword⟩ := hanswers
      cases password with
      | none =>
          refine ⟨some (row.pendingUser false), ?_, ?_, hpassable⟩
          · simp only [answerStage, answerIdentification, htext, hfound]
            rfl
          · intro authenticated hbehind
            cases hbehind
            rfl
      | some reference =>
          obtain ⟨hproves, backends, hinternal, hstage⟩ := hpassword reference rfl
          refine ⟨some (row.pendingUser true), ?_, ?_, hpassable⟩
          · simp only [answerStage, answerIdentification, htext, hfound, hstage]
            rw [answerPassword_proves hstored hproves hinternal rfl]
            rfl
          · intro authenticated hbehind
            cases hbehind
            rfl

/-- A POST with what the stage asks of the user passes the stage and the logins behind it. -/
theorem post_through {request : Request X} (hbefore : setting.Before visit (kind :: kinds))
    (hinput : kind.requiresInput = true)
    (hpassable : passable left standing (kind :: kinds) = true) (hpends : visit.Pends row standing)
    (hstored : setting.world.queryUser (.uid row.uid) = .ok (some row))
    (hsends : setting.Sends row request kind) (hlets : setting.LetsIn request visit) :
    ∃ login later, setting.answer (.postFlow request) visit = some (.moved login, later) ∧
      setting.Before later (behindLogins kinds) ∧
        later.Pends row (standingBehind standing kind) ∧
          passable 41 (standingBehind standing kind) (behindLogins kinds) = true ∧
            later.user = if kinds.head? = some .userLogin then some row.uid else visit.user := by
  obtain ⟨form, hform, hanswers⟩ := hsends.form
  obtain ⟨host, user, hhost, huser, hjudge⟩ := hlets
  obtain ⟨hopen, entry, stage, hentry, hstage, hkind⟩ := hbefore.stageAt
  obtain ⟨pending, hanswer, hpends, hpassable⟩ :=
    answerStage_answers hstored hanswers hpassable hinput hpends
  have hsubmit : setting.submit form visit = some (.ok (), { visit with pending := pending }) := by
    rw [submit, hopen, hstage, Option.bind_some, hkind, hanswer]
    rfl
  have hsubmitted : setting.Before { visit with pending := pending } (kind :: kinds) :=
    hbefore.of_same rfl rfl
  have hmoved := hsubmitted.advance
  have hkept : ({ visit with pending := pending }.advance setting.entries).Pends row
      (standingBehind standing kind) := by
    intro authenticated hknown
    rw [Visit.advance_pending]
    exact hpends authenticated hknown
  obtain ⟨later, hpassed, hlater, hpending, hbehind⟩ := passLogins_through hmoved hpassable hkept
  have hpost : setting.answer (.postFlow request) visit =
      setting.proceed { visit with pending := pending } := by
    simp only [answer, hhost, hform, Option.bind_some, post, huser, hjudge, handIn, hsubmit]
  rw [hpost, proceed, hpassed, Option.map_some]
  have hlaterPends : later.Pends row (standingBehind standing kind) := by
    intro authenticated hknown
    rw [hpending]
    exact hkept authenticated hknown
  by_cases hlogin : kinds.head? = some .userLogin
  · obtain ⟨others, rfl⟩ := List.head?_eq_some_iff.mp hlogin
    obtain ⟨rest, _, hstanding, _⟩ := passable_login hpassable
    have hsigned := hlaterPends true hstanding
    refine ⟨later.pending, { later with user := later.pending.map PendingUser.uid }, ?_, ?_, ?_,
      hbehind, ?_⟩
    · simp
    · exact hlater.of_same rfl rfl
    · exact hlaterPends
    · rw [if_pos hlogin, hsigned]
      rfl
  · refine ⟨none, later, ?_, hlater, hlaterPends, hbehind, ?_⟩
    · simp [hlogin]
    · rw [if_neg hlogin, (passLogins_keeps hpassed).2, Visit.advance_user]

/-- How far a user comes who sends what the stages ask for: through all of them, with a call for
each form, or to a check that does not let him in. -/
inductive Comes (setting : Setting X) (row : UserRow) (send : StageKind → Request X)
    (kinds : List StageKind) (visit : Visit) (calls : List (Call X)) (last : Visit) : Prop
  | through (hcompleted : last.isCompleted = true)
      (hcalls : calls =
        (kinds.filter StageKind.requiresInput).map fun kind => .postFlow (send kind))
      (huser : last.user = if .userLogin ∈ kinds then some row.uid else visit.user) :
      Comes setting row send kinds visit calls last
  | stopped {kind : StageKind} (hopen : last.isCompleted = false)
      (hkind : setting.kindAt last.currentEntryIdx = some kind)
      (hdenied : ¬ setting.LetsIn (send kind) last) : Comes setting row send kinds visit calls last

/-- Who knows the credentials comes through, unless a check stands in the way. -/
theorem course_comes {send : StageKind → Request X}
    (hstored : setting.world.queryUser (.uid row.uid) = .ok (some row))
    (hsends : ∀ kind ∈ kinds, kind.requiresInput = true → setting.Sends row (send kind) kind)
    (hbefore : setting.Before visit kinds)
    (hinput : ∀ kind ∈ kinds.head?, kind.requiresInput = true)
    (hpassable : passable left standing kinds = true) (hpends : visit.Pends row standing) :
    ∃ steps last, Course setting visit steps last ∧
      (∀ step ∈ steps, ∃ login, step.2 = .moved login) ∧
        Comes setting row send kinds visit (steps.map Prod.fst) last := by
  induction hlength : kinds.length using Nat.strong_induction_on
    generalizing kinds visit left standing with
  | _ length ih =>
  cases kinds with
  | nil =>
      cases hbefore with
      | nothing hcompleted =>
          exact ⟨[], visit, .rest visit, by simp, .through hcompleted rfl (by simp)⟩
  | cons kind kinds =>
      have hform := hinput kind rfl
      by_cases hlets : setting.LetsIn (send kind) visit
      · have hsend := hsends kind List.mem_cons_self hform
        obtain ⟨login, later, hanswer, hlater, hlaterPends, hlaterPassable, huser⟩ :=
          post_through hbefore hform hpassable hpends hstored hsend hlets
        obtain ⟨claims, hpresents⟩ := hsend.presents
        have hshorter : (behindLogins kinds).length < length := by
          have hle := (@behindLogins_sublist kinds).length_le
          rw [List.length_cons] at hlength
          omega
        have hbehind : ∀ later ∈ behindLogins kinds, later.requiresInput = true →
            setting.Sends row (send later) later := by
          intro later hmem
          exact hsends later (List.mem_cons_of_mem _ (behindLogins_sublist.subset hmem))
        obtain ⟨steps, last, hcourse, hmoved, hcomes⟩ := ih _ hshorter hbehind hlater
          (behindLogins_form hlaterPassable) hlaterPassable hlaterPends rfl
        refine ⟨(.postFlow (send kind), .moved login) :: steps, last,
          .answered hpresents hanswer rfl hcourse, ?_, ?_⟩
        · intro step hstep
          rcases List.mem_cons.mp hstep with rfl | hstep
          · exact ⟨login, rfl⟩
          · exact hmoved step hstep
        · cases hcomes with
          | stopped hopen hkind hdenied => exact .stopped hopen hkind hdenied
          | through hcompleted hcalls hsigned =>
              refine .through hcompleted ?_ ?_
              · rw [List.map_cons, hcalls, filter_behindLogins, List.filter_cons_of_pos hform,
                  List.map_cons]
              · have hnot : kind ≠ .userLogin := by
                  intro hlogin
                  rw [hlogin] at hform
                  cases hform
                rw [hsigned, huser]
                by_cases hfirst : kinds.head? = some .userLogin
                · have hmem : .userLogin ∈ kinds := mem_behindLogins.mpr (Or.inl hfirst)
                  rw [if_pos hfirst, ite_self, if_pos (List.mem_cons_of_mem _ hmem)]
                · have hiff : .userLogin ∈ kind :: kinds ↔ .userLogin ∈ behindLogins kinds := by
                    rw [List.mem_cons, mem_behindLogins]
                    simp [hnot.symm, hfirst]
                  rw [if_neg hfirst]
                  exact if_congr hiff.symm rfl rfl
      · obtain ⟨hopen, _, stage, _, hstage, hkind⟩ := hbefore.stageAt
        refine ⟨[], visit, .rest visit, by simp, .stopped hopen ?_ hlets⟩
        rw [kindAt, hstage, ← hkind]
        rfl

end Passing

end Setting

section Served

variable {setting : Setting X} {visit last : Visit} {row : UserRow} {kinds : List StageKind}
  {standing : Option Bool} {left : Nat} {start w : World X} {runs : List (Call X × Reply X)}

theorem replied_calls {replies : List (Call X × Reply X)} {steps : List (Call X × Outcome)}
    {key : FlowKey} (hreplies : List.Forall₂ (Replied key) replies steps) :
    replies.map Prod.fst = steps.map Prod.fst := by
  induction hreplies with
  | nil => rfl
  | cons hreplied _ ih =>
      cases hreplied with
      | intro hcall => rw [List.map_cons, List.map_cons, hcall, ih]

/-- A call has been answered with a redirect to where it was sent. -/
def Redirected (run : Call X × Reply X) : Prop :=
  ∃ request, run.1.request? = some request ∧
    run.2.ending = .returned (.ok (.redirect request.uri))

theorem replied_redirected {replies : List (Call X × Reply X)} {steps : List (Call X × Outcome)}
    {key : FlowKey} (hreplies : List.Forall₂ (Replied key) replies steps)
    (hmoved : ∀ step ∈ steps, ∃ login, step.2 = .moved login) :
    ∀ run ∈ replies, Redirected run := by
  induction hreplies with
  | nil => simp
  | @cons run step replies steps hreplied _ ih =>
      intro other hother
      rcases List.mem_cons.mp hother with rfl | hother
      · obtain ⟨login, hlogin⟩ := hmoved step List.mem_cons_self
        cases hreplied with
        | intro _ hpresents hending =>
            rw [hlogin] at hending
            exact ⟨_, hpresents.executor, hending⟩
      · exact ih (fun step hstep => hmoved step (List.mem_cons_of_mem _ hstep)) other hother

/-- Who knows the credentials and is served undisturbed comes through the flow from where he has
come to: every form is accepted, the execution is completed, and behind a UserLogin stage the row of
the session names the user. Only a check can stop him. -/
theorem credentials_suffice (htokens : TokensRoundTrip X)
    (hencodes : EncodesTokens X) (hstart : start.Initial)
    (hrun : OneByOne start runs w) (hfinds : w.FindsByUid) {e : ExecId} {execution : FlowExecution}
    {user : Option Uuid} (hheap : w.heap[e]? = some execution)
    (hcached : w.executions execution.key = some e)
    (hrow : w.sessions execution.key.session = some user) {send : StageKind → Request X}
    (hstored : w.queryUser (.uid row.uid) = .ok (some row))
    (hsends : ∀ kind ∈ kinds, kind.requiresInput = true →
      Setting.Sends ⟨w, e, execution⟩ row (send kind) kind)
    (hbefore : Setting.Before ⟨w, e, execution⟩ ⟨execution.progress, user⟩ kinds)
    (hinput : ∀ kind ∈ kinds.head?, kind.requiresInput = true)
    (hpassable : passable 41 standing kinds = true)
    (hpends : ∀ authenticated ∈ standing,
      execution.context.pending = some (row.pendingUser authenticated)) :
    ∃ replies after last, OneByOne start (runs ++ replies) after ∧
      (∀ run ∈ replies, Redirected run) ∧
        Setting.Comes ⟨w, e, execution⟩ row send kinds ⟨execution.progress, user⟩
          (replies.map Prod.fst) last ∧
            after = w.visited ⟨w, e, execution⟩ last after.asts := by
  have hattends := attends_resting hstart hrun hfinds hheap hcached hrow
  obtain ⟨steps, last, hcourse, hmoved, hcomes⟩ :=
    Setting.course_comes hstored hsends hbefore hinput hpassable hpends
  obtain ⟨replies, after, hafter, _, hreplies, hsame⟩ :=
    served_course htokens hencodes hstart hcourse hrun hattends
  refine ⟨replies, after, last, hafter, replied_redirected hreplies hmoved, ?_, hsame⟩
  rwa [replied_calls hreplies]

end Served

section CredentialSamples

def memberForm : List (String × String) := [("uid", "member"), ("password", "tulip")]

def memberKinds : List StageKind :=
  [.identification none [.name], .password [.internal], .userLogin]

/-- Where the member stands, and what is before him. -/
theorem twoForms_ahead : (sampleServe twoForms [sampleGet]).2.heap[0]?.map (fun execution =>
    (execution.progress, execution.flow.entries.length,
      [0, 1, 2].map (Setting.kindAt ⟨(sampleServe twoForms [sampleGet]).2, 0, execution⟩))) =
    some (⟨0, false, none, none⟩, 3, memberKinds.map some) := by
  decide +kernel

theorem twoForms_users : (sampleServe twoForms [sampleGet]).2.users = twoForms.users := by
  decide +kernel

/-- The member knows his name and his password. -/
theorem twoForms_member : ∃ execution replies after last,
    OneByOne twoForms ((sampleServe twoForms [sampleGet]).1 ++ replies) after ∧
      (∀ run ∈ replies, Redirected run) ∧
        Setting.Comes ⟨(sampleServe twoForms [sampleGet]).2, 0, execution⟩
          (sampleUser 1 "member" "tulip" false) (fun _ => sampleRequest memberForm) memberKinds
          ⟨execution.progress, none⟩ (replies.map Prod.fst) last ∧
            after = (sampleServe twoForms [sampleGet]).2.visited
              ⟨(sampleServe twoForms [sampleGet]).2, 0, execution⟩ last after.asts := by
  obtain ⟨execution, hheap, hkey, hattends⟩ := twoForms_attends
  have hahead := twoForms_ahead
  have husers := twoForms_users
  have hrun := sampleServe_oneByOne twoForms [sampleGet]
  rw [hheap, Option.map_some] at hahead
  generalize sampleServe twoForms [sampleGet] = served at *
  simp only [Option.some.injEq, Prod.mk.injEq, List.map_cons, List.map_nil, memberKinds,
    List.cons.injEq, and_true] at hahead
  obtain ⟨hprogress, hentries, hfirst, hsecond, hthird⟩ := hahead
  have hopen : execution.isCompleted = false := congrArg Progress.isCompleted hprogress
  have hindex : execution.currentEntryIdx = 0 := congrArg Progress.currentEntryIdx hprogress
  have hstored : served.2.queryUser (.uid 1) =
      .ok (some (sampleUser 1 "member" "tulip" false)) := by
    rw [World.queryUser, husers]
    rfl
  have hproves : Setting.Proves Externals.plain (sampleUser 1 "member" "tulip" false)
      (.object (memberForm.map fun field => (field.1, .string field.2))) :=
    ⟨"tulip", rfl, rfl⟩
  have hnamed : findFirst served.2.users (identifiers Externals.plain [.name] "member") =
      .ok (some (sampleUser 1 "member" "tulip" false).toPartialUser) := by
    rw [husers]
    rfl
  refine ⟨execution, @credentials_suffice Externals.plain _ memberKinds none _ _ _
    tokensRoundTrip_plain encodesTokens_plain (World.boot_initial _ _ _ _ _ _) hrun hattends.finds 0
    execution none hheap hattends.cached hattends.row _ hstored ?_ ?_ ?_ rfl (by simp)⟩
  · intro kind hkind hinput
    refine ⟨⟨newClaims "s", hkey ▸ samplePost_presents memberForm⟩, _, rfl, ?_⟩
    simp only [memberKinds, List.mem_cons, List.not_mem_nil, or_false] at hkind
    rcases hkind with rfl | rfl | rfl
    · exact ⟨⟨"member", rfl, hnamed⟩, by simp⟩
    · exact ⟨by simp, hproves⟩
    · trivial
  · have hlt : ∀ index < 3, index < execution.flow.entries.length := by omega
    refine .stage hopen ?_
    simp only [FlowExecution.progress, hindex]
    exact ⟨hlt 0 (by omega), hfirst, hlt 1 (by omega), hsecond, hlt 2 (by omega), hthird,
      Nat.le_of_eq hentries⟩
  · intro kind hkind
    cases hkind
    rfl

end CredentialSamples

end Authust
