import Authust.Server.Refinement
import Authust.Server.Resting

/-! # The course of a visit

A visitor looks and hands forms in, one after another. What becomes of him in the setting is what
becomes of the session when its requests are served one after another and undisturbed.
-/

namespace Authust

open Coop Coop.Task Coop.Machine

variable {X : Externals}

namespace Setting

variable {setting : Setting X} {visit later : Visit}

/-- What a call comes to in a setting. -/
def answer (setting : Setting X) (call : Call X) (visit : Visit) : Option (Outcome × Visit) :=
  match call with
  | .getFlow request => request.host.bind fun host => setting.fetch request host visit
  | .postFlow request => request.host.bind fun host => request.form.bind fun form =>
      setting.post request host form visit
  | .userInfo _ | .admin _ => none

/-- Who looks stays. -/
theorem fetch_keeps {request : Request X} {host : String} {outcome : Outcome}
    (hanswer : setting.fetch request host visit = some (outcome, later)) : later = visit := by
  unfold fetch at hanswer
  split at hanswer
  next =>
    cases hanswer
    rfl
  next =>
    obtain ⟨data, _, hanswer⟩ := Option.map_eq_some_iff.mp hanswer
    cases hanswer
    rfl

section Kept

variable {holds : Visit → Prop}
  (hpending : ∀ visit pending, holds visit → holds { visit with pending := pending })
  (herror : ∀ visit error, holds visit → holds { visit with error := error })
  (hlogin : ∀ visit user, holds visit → holds { visit with user := user })
  (hadvance : ∀ visit, holds visit → holds (visit.advance setting.entries))

include hpending herror hlogin hadvance

theorem handIn_preserves {next : Option String} {form : Value} {outcome : Outcome}
    (hanswer : setting.handIn next form visit = some (outcome, later)) (hvisit : holds visit) :
    holds later := by
  obtain ⟨⟨result, submitted⟩, hsubmit, hanswer⟩ := Option.bind_eq_some_iff.mp hanswer
  have hkeeps : submitted = { visit with pending := submitted.pending } := submit_keeps hsubmit
  have hsubmitted : holds submitted := by
    rw [hkeeps]
    exact hpending visit _ hvisit
  have hfailed : ∀ kind, some (Outcome.failed kind, submitted) = some (outcome, later) →
      holds later := by
    intro kind heq
    cases heq
    exact hsubmitted
  cases result with
  | error kind =>
      cases kind with
      | submissionError error =>
          obtain ⟨data, _, hanswer⟩ := Option.map_eq_some_iff.mp hanswer
          cases hanswer
          exact hsubmitted
      | axum | invalidLoginData | sessionCookieMissing | invalidSessionCookie | notFound
        | miscInternal | forbidden | conflict | missingMiddleware | pwHash | poolError
        | postgresError | jsonWebToken => exact hfailed _ hanswer
  | ok value =>
      obtain ⟨⟨passed, behind⟩, hbehind, hanswer⟩ := Option.map_eq_some_iff.mp hanswer
      have hpassed : holds behind :=
        passLogins_preserves herror hadvance hbehind (hadvance submitted hsubmitted)
      rcases passed with kind | _ | _
      · cases hanswer
        exact hpassed
      · cases hanswer
        exact hpassed
      · cases hanswer
        exact hlogin behind _ hpassed

/-- What forms, logins and advances keep, every call keeps. -/
theorem answer_preserves {call : Call X} {outcome : Outcome}
    (hanswer : setting.answer call visit = some (outcome, later)) (hvisit : holds visit) :
    holds later := by
  cases call with
  | userInfo | admin => cases hanswer
  | getFlow request =>
      obtain ⟨host, _, hanswer⟩ := Option.bind_eq_some_iff.mp hanswer
      rw [fetch_keeps hanswer]
      exact hvisit
  | postFlow request =>
      obtain ⟨host, _, hanswer⟩ := Option.bind_eq_some_iff.mp hanswer
      obtain ⟨form, _, hanswer⟩ := Option.bind_eq_some_iff.mp hanswer
      unfold post at hanswer
      split at hanswer
      next =>
        cases hanswer
        exact hvisit
      next =>
        obtain ⟨verdict, _, hanswer⟩ := Option.bind_eq_some_iff.mp hanswer
        split at hanswer
        next =>
          obtain ⟨data, _, hanswer⟩ := Option.map_eq_some_iff.mp hanswer
          cases hanswer
          exact hvisit
        next => exact handIn_preserves hpending herror hlogin hadvance hanswer hvisit

end Kept

end Setting

/-- A call to the executor that presents the session and names the flow of a key. -/
structure Presents (call : Call X) (key : FlowKey) (request : Request X) (claims : Claims) :
    Prop where
  executor : call.request? = some request
  cookie : ∃ token, request.cookie = some token ∧ X.decodeToken token = .ok claims
  session : claims.sid = key.session
  slug : key.flow = .slug request.flowSlug

/-- Calls of a session and what they come to, until it is shown the way out. -/
inductive Course (setting : Setting X) : Visit → List (Call X × Outcome) → Visit → Prop
  | rest (visit : Visit) : Course setting visit [] visit
  | answered {visit later last : Visit} {call : Call X} {request : Request X} {claims : Claims}
      {outcome : Outcome} {steps : List (Call X × Outcome)}
      (hpresents : Presents call setting.execution.key request claims)
      (hanswer : setting.answer call visit = some (outcome, later))
      (hstays : outcome.departs request visit = false) (hrest : Course setting later steps last) :
      Course setting visit ((call, outcome) :: steps) last

section Formed

variable {setting : Setting X} {visit later : Visit}

/-- The visitor stands before an entry of the flow. -/
def Visit.Formed (visit : Visit) (execution : FlowExecution) : Prop :=
  (visit.place execution).WellFormed

theorem Visit.Formed.advance {execution : FlowExecution} (hformed : visit.Formed execution) :
    (visit.advance execution.flow.entries.length).Formed execution := by
  rw [Visit.Formed, ← Visit.place_completeCurrent]
  exact hformed.completeCurrent

/-- Whatever a call comes to, the visitor stands before an entry. -/
theorem formed_answer {call : Call X} {outcome : Outcome} (hformed : visit.Formed setting.execution)
    (hanswer : setting.answer call visit = some (outcome, later)) :
    later.Formed setting.execution := by
  refine @Setting.answer_preserves X setting visit later
    (fun visit => visit.Formed setting.execution) ?_ ?_ ?_ ?_ call outcome hanswer hformed
  · intro visit pending hvisit
    exact ⟨hvisit.index, hvisit.completed⟩
  · intro visit error hvisit
    exact ⟨hvisit.index, hvisit.completed⟩
  · intro visit user hvisit
    exact ⟨hvisit.index, hvisit.completed⟩
  · intro visit hvisit
    exact hvisit.advance

end Formed

/-- The world, but for the visitor who has come to another place. -/
def World.visited (w : World X) (setting : Setting X) (visit : Visit)
    (asts : Int → Option (Option X.Ast)) : World X :=
  { w with
    heap := w.heap.set setting.e (visit.place setting.execution)
    sessions := Function.update w.sessions setting.execution.key.session (some visit.user)
    asts := asts }

/-- The visitor is there between two requests, with nobody about. -/
structure Attends (setting : Setting X) (visit : Visit) (w : World X) : Prop extends
    Paid setting visit w where
  row : w.sessions setting.execution.key.session = some visit.user
  cached : w.executions setting.execution.key = some setting.e

section Served

variable {setting : Setting X} {visit later last : Visit} {w after : World X} {who : Nat}
  {call : Call X} {request : Request X} {claims : Claims} {outcome : Outcome}

@[simp] theorem World.visited_visited (w : World X) (setting : Setting X) (visit later : Visit)
    (asts asts' : Int → Option (Option X.Ast)) :
    (w.visited setting visit asts).visited setting later asts' = w.visited setting later asts' := by
  simp [visited]

theorem Attends.visited_self (hattends : Attends setting visit w) :
    w.visited setting visit w.asts = w := by
  obtain ⟨hlt, hheap⟩ := List.getElem?_eq_some_iff.mp hattends.heap
  rw [World.visited, ← hheap, List.set_getElem_self, ← hattends.row, Function.update_eq_self]

/-- What the session calls, with an empty desk. -/
theorem Attends.calls (hattends : Attends setting visit w) (hdesk : w.desk who = ⟨[], none⟩)
    (hpresents : Presents call setting.execution.key request claims) {host : String}
    (hhost : request.host = some host) : Calls setting visit request host claims who w where
  paid := hattends.toPaid
  cookie := hpresents.cookie
  session := hpresents.session
  row := hattends.row
  slug := hpresents.slug
  host := hhost
  cached := hattends.cached
  desk := hdesk

/-- A visitor who has not been shown the way out is still there. -/
theorem Attends.afterwards (hattends : Attends setting visit w)
    (hstays : outcome.departs request visit = false) (hformed : later.Formed setting.execution)
    (hleaves : Afterwards setting request claims who visit outcome later w after) :
    after.release who = w.visited setting later after.asts ∧
      Attends setting later (after.release who) := by
  have hreleased : after.release who = w.visited setting later after.asts := by
    rw [hleaves.released, hstays]
    rfl
  refine ⟨hreleased, ⟨?_, hformed, ?_, ?_, ?_, ?_⟩, ?_, ?_⟩
  · rw [hreleased]
    exact World.place_heap hattends.heap _
  · rw [hreleased]
    exact hattends.users
  · rw [hreleased]
    exact hattends.finds
  · intro uid
    exact (hleaves.trees uid).trans (hattends.trees uid)
  · rw [hreleased]
    exact hattends.readers
  · rw [hreleased]
    exact Function.update_self _ _ _
  · rw [hreleased]
    exact hattends.cached

/-- Served by itself, a call comes to what it comes to in the setting. -/
theorem Attends.served (hattends : Attends setting visit w) (htokens : TokensRoundTrip X)
    (hencodes : EncodesTokens X)
    (hdesk : w.desk who = ⟨[], none⟩)
    (hpresents : Presents call setting.execution.key request claims)
    (hanswer : setting.answer call visit = some (outcome, later)) :
    ∃ after, (server X).alone who .normal (handle X call) w = some (outcome.reply request, after) ∧
      Afterwards setting request claims who visit outcome later w after := by
  have hsame := hpresents.executor
  cases call with
  | userInfo | admin => cases hanswer
  | getFlow other =>
      cases hsame
      obtain ⟨host, hhost, hanswer⟩ := Option.bind_eq_some_iff.mp hanswer
      have hsimulates := getFlow_simulates (hattends.calls hdesk hpresents hhost)
      rw [hanswer] at hsimulates
      cases hsimulates with
      | answered halone hleaves => exact ⟨_, halone, hleaves⟩
  | postFlow other =>
      cases hsame
      obtain ⟨host, hhost, hanswer⟩ := Option.bind_eq_some_iff.mp hanswer
      obtain ⟨form, hform, hanswer⟩ := Option.bind_eq_some_iff.mp hanswer
      have hsimulates := postFlow_simulates htokens hencodes
        (hattends.calls hdesk hpresents hhost) hform
      rw [hanswer] at hsimulates
      cases hsimulates with
      | answered halone hleaves => exact ⟨_, halone, hleaves⟩

/-- A served call has been answered as the step of a course. -/
inductive Replied (key : FlowKey) (run : Call X × Reply X) (step : Call X × Outcome) : Prop
  | intro {request : Request X} {claims : Claims} (hcall : run.1 = step.1)
      (hpresents : Presents run.1 key request claims)
      (hending : run.2.ending = .returned (step.2.reply request))
      (hsigned : ∀ user, step.2 = .moved (some user) → ∃ token,
        run.2.after.cookies run.2.who = some token ∧
          X.decodeToken token = .ok (loginClaims claims user))

/-- A session that is served undisturbed, one call after another, takes the course of its visit,
and nothing else changes. -/
theorem served_course (htokens : TokensRoundTrip X) (hencodes : EncodesTokens X) {start : World X}
    (hstart : start.Initial) {steps : List (Call X × Outcome)}
    (hcourse : Course setting visit steps last) {runs : List (Call X × Reply X)}
    (hrun : OneByOne start runs w) (hattends : Attends setting visit w) :
    ∃ replies after, OneByOne start (runs ++ replies) after ∧ Attends setting last after ∧
      List.Forall₂ (Replied setting.execution.key) replies steps ∧
        after = w.visited setting last after.asts := by
  induction hcourse generalizing runs w with
  | rest visit =>
      refine ⟨[], w, ?_, hattends, .nil, hattends.visited_self.symm⟩
      rwa [List.append_nil]
  | @answered visit later last call request claims outcome steps hpresents hanswer hstays _ ih =>
      have hdesk := hrun.desk_fresh hstart (Nat.le_refl runs.length)
      obtain ⟨middle, halone, hleaves⟩ :=
        hattends.served htokens hencodes hdesk hpresents hanswer
      obtain ⟨hreleased, hlater⟩ := hattends.afterwards hstays
        (formed_answer hattends.formed hanswer) hleaves
      obtain ⟨served, hwho, hending, hleft, hserved⟩ := hrun.alone halone
      obtain ⟨replies, after, hafter, hlast, hreplies, hsame⟩ := ih hserved hlater
      refine ⟨(call, served) :: replies, after, ?_, hlast, .cons ?_ hreplies, ?_⟩
      · rwa [List.append_assoc] at hafter
      · refine .intro rfl hpresents hending fun user hlogin => ?_
        rw [hwho, hleft]
        exact hleaves.signed user hlogin
      · have hthen : after = (middle.release runs.length).visited setting last after.asts := hsame
        rwa [hreleased, World.visited_visited] at hthen

/-- A request that nothing disturbs does what the visit of its session says, be it answered or
not. -/
theorem undisturbed_simulates (htokens : TokensRoundTrip X)
    (hencodes : EncodesTokens X) {host : String}
    (hcalls : Calls setting visit request host claims who w)
    (hcall : call = .getFlow request ∨ call = .postFlow request ∧ request.form.isSome = true) :
    Simulates request claims who setting visit w w (handle X call) (setting.answer call visit) := by
  rcases hcall with rfl | ⟨rfl, hform⟩
  · rw [Setting.answer, hcalls.host, Option.bind_some]
    exact getFlow_simulates hcalls
  · obtain ⟨form, hform⟩ := Option.isSome_iff_exists.mp hform
    rw [Setting.answer, hcalls.host, hform, Option.bind_some, Option.bind_some]
    exact postFlow_simulates htokens hencodes hcalls hform

end Served

section Resting

variable {start w : World X} {runs : List (Call X × Reply X)} {e : ExecId}
  {execution : FlowExecution} {user : Option Uuid}

/-- Wherever a served session has come to, there is a setting in which its visitor is. -/
theorem attends_resting (hstart : start.Initial) (hrun : OneByOne start runs w)
    (hfinds : w.FindsByUid) (hheap : w.heap[e]? = some execution)
    (hcached : w.executions execution.key = some e)
    (hrow : w.sessions execution.key.session = some user) :
    Attends ⟨w, e, execution⟩ ⟨execution.progress, user⟩ w where
  heap := hheap
  formed := (served_placed hstart hrun).1.formed e execution hheap
  users := rfl
  finds := hfinds
  trees := fun _ => rfl
  readers := readers_between hstart hrun
  row := hrow
  cached := hcached

/-- From wherever it has come to, a session that is served undisturbed, one call after another,
takes the course of its visit: the answers, the execution and the row are those of the visit, and
nothing else changes. -/
theorem resting_course (htokens : TokensRoundTrip X)
    (hencodes : EncodesTokens X) (hstart : start.Initial)
    (hrun : OneByOne start runs w) (hfinds : w.FindsByUid) (hheap : w.heap[e]? = some execution)
    (hcached : w.executions execution.key = some e)
    (hrow : w.sessions execution.key.session = some user) {steps : List (Call X × Outcome)}
    {last : Visit} (hcourse : Course ⟨w, e, execution⟩ ⟨execution.progress, user⟩ steps last) :
    ∃ replies after, OneByOne start (runs ++ replies) after ∧
      List.Forall₂ (Replied execution.key) replies steps ∧
        after = w.visited ⟨w, e, execution⟩ last after.asts := by
  have hattends := attends_resting hstart hrun hfinds hheap hcached hrow
  obtain ⟨replies, after, hafter, _, hreplies, hsame⟩ :=
    served_course htokens hencodes hstart hcourse hrun hattends
  exact ⟨replies, after, hafter, hreplies, hsame⟩

end Resting

section CourseSamples

theorem World.boot_finds (users : List UserRow) (sessions : List (String × Option Uuid))
    (flows : List Flow) (stages : List Stage) (policies : List Policy) :
    (World.boot X users sessions flows stages policies).FindsByUid := by
  intro uid policy hpolicy
  have hfound := List.find?_some hpolicy
  simpa [PolicyQuery.finds] using hfound

theorem sampleServe_policies (start : World Externals.plain)
    (calls : List (Call Externals.plain)) :
    (sampleServe start calls).2.policies = start.policies := by
  have hupstream := (sampleServe_upstream start calls).1
  generalize (sampleServe start calls).2 = after at hupstream ⊢
  exact congrArg Upstream.policies hupstream

/-- The session of the sample calls, when its execution of the sample flow has been started. -/
theorem twoForms_attends : ∃ execution,
    (sampleServe twoForms [sampleGet]).2.heap[0]? = some execution ∧
      execution.key = ⟨"s", .slug "login"⟩ ∧
        Attends ⟨(sampleServe twoForms [sampleGet]).2, 0, execution⟩ ⟨execution.progress, none⟩
          (sampleServe twoForms [sampleGet]).2 := by
  have hfirst : (sampleServe twoForms [sampleGet]).2.heap[0]?.map FlowExecution.key =
      some ⟨"s", .slug "login"⟩ := by
    decide +kernel
  obtain ⟨execution, hheap, hkey⟩ := Option.map_eq_some_iff.mp hfirst
  refine ⟨execution, hheap, hkey, ?_⟩
  refine attends_resting (World.boot_initial _ _ _ _ _ _) (sampleServe_oneByOne _ _) ?_ hheap ?_ ?_
  · intro uid policy hpolicy
    rw [sampleServe_policies] at hpolicy
    exact World.boot_finds _ _ _ _ _ uid policy hpolicy
  · rw [hkey]
    decide +kernel
  · rw [hkey]
    decide +kernel

theorem samplePost_presents (form : List (String × String)) :
    Presents (samplePost form) ⟨"s", .slug "login"⟩ (sampleRequest form) (newClaims "s") where
  executor := rfl
  cookie := ⟨newClaims "s", rfl, rfl⟩
  session := rfl
  slug := rfl

/-- What a post comes to for who has just been shown the first form. -/
def samplePosted (start : World Externals.plain) (form : List (String × String)) :
    Option (Option (Outcome × Visit)) :=
  (sampleServe start [sampleGet]).2.heap[0]?.map fun execution =>
    Setting.answer ⟨(sampleServe start [sampleGet]).2, 0, execution⟩ (samplePost form)
      ⟨execution.progress, none⟩

/-- The member before the password form. -/
def memberNamed : Visit where
  currentEntryIdx := 1
  isCompleted := false
  pending := some ⟨1, "member", none, false, false⟩
  error := none
  user := none

theorem twoForms_named :
    samplePosted twoForms [("uid", "member")] = some (some (.moved none, memberNamed)) := by
  decide +kernel

/-- The name, posted by itself. -/
theorem twoForms_simulated : ∃ execution,
    Simulates (sampleRequest [("uid", "member")]) (newClaims "s")
      (sampleServe twoForms [sampleGet]).1.length
      ⟨(sampleServe twoForms [sampleGet]).2, 0, execution⟩ ⟨execution.progress, none⟩
      (sampleServe twoForms [sampleGet]).2 (sampleServe twoForms [sampleGet]).2
      (handle Externals.plain (samplePost [("uid", "member")]))
      (some (.moved none, memberNamed)) := by
  obtain ⟨execution, hheap, hkey, hattends⟩ := twoForms_attends
  have hanswer := twoForms_named
  rw [samplePosted, hheap, Option.map_some] at hanswer
  have hdesk := (sampleServe_oneByOne twoForms [sampleGet]).desk_fresh
    (World.boot_initial _ _ _ _ _ _) (Nat.le_refl _)
  have hcalls := hattends.calls hdesk (hkey ▸ samplePost_presents [("uid", "member")]) rfl
  have hsimulates := undisturbed_simulates tokensRoundTrip_plain encodesTokens_plain hcalls
    (Or.inr ⟨rfl, rfl⟩)
  refine ⟨execution, ?_⟩
  rw [← Option.some.inj hanswer]
  exact hsimulates

/-- The name, posted in a course. -/
theorem twoForms_course : ∃ execution replies after,
    OneByOne twoForms ((sampleServe twoForms [sampleGet]).1 ++ replies) after ∧
      List.Forall₂ (Replied execution.key) replies
        [(samplePost [("uid", "member")], .moved none)] ∧
        after = (sampleServe twoForms [sampleGet]).2.visited
          ⟨(sampleServe twoForms [sampleGet]).2, 0, execution⟩ memberNamed after.asts := by
  obtain ⟨execution, hheap, hkey, hattends⟩ := twoForms_attends
  have hanswer := twoForms_named
  have hrun := sampleServe_oneByOne twoForms [sampleGet]
  rw [samplePosted, hheap, Option.map_some] at hanswer
  generalize sampleServe twoForms [sampleGet] = served at *
  have hcourse : Course ⟨served.2, 0, execution⟩
      ⟨execution.progress, none⟩ [(samplePost [("uid", "member")], .moved none)] memberNamed :=
    .answered (hkey ▸ samplePost_presents [("uid", "member")]) (Option.some.inj hanswer) rfl
      (.rest memberNamed)
  exact ⟨execution, resting_course tokensRoundTrip_plain encodesTokens_plain
    (World.boot_initial _ _ _ _ _ _) hrun hattends.finds hheap hattends.cached hattends.row hcourse⟩

end CourseSamples

end Authust
