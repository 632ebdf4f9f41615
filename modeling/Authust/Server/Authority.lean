import Authust.Server.Login
import Authust.Server.Provenance
import Authust.Server.System

/-! # Who has asked for a policy

A policy is created behind `AdminSession` only. Whoever is admitted there goes back to the login of
an administrator, and calls that are served one after another let nobody log in without the
password.
-/

namespace Authust

open Coop Coop.Task Coop.Machine Postgres

variable {X : Externals}

/-- A call that has put a cookie with the claims into its jar. -/
def grants (claims : Claims) :
    SystemRequest X × Served (listSig X) (StoreWorld X) (SystemAnswer X) → Bool
  | (.call _, served) => served.log.any fun entry =>
      match entry.event with
      | ⟨.inl (.inl op), res⟩ => issuedClaims ⟨op, res⟩ = some claims
      | _ => false
  | (.policies _ _, _) => false

/-- If the request presents an administrator's token, some call has put its claims into its jar. -/
def presentsLogin
    (past : List (SystemRequest X × Served (listSig X) (StoreWorld X) (SystemAnswer X)))
    (run : SystemRequest X × Served (listSig X) (StoreWorld X) (SystemAnswer X)) : Bool :=
  match run.1.entrance.cookie with
  | some token => (X.decodeToken token).toOption.all fun claims =>
      !claims.isAdmin || past.any (grants claims)
  | none => true

/-- No administrator's token is forged. -/
abbrev Unforged
    (runs : List (SystemRequest X × Served (listSig X) (StoreWorld X) (SystemAnswer X))) : Prop :=
  ∀ index, ∀ hindex : index < runs.length, presentsLogin (runs.take index) runs[index] = true

/-- An administrator stands behind the token: it has the claims of his login, and he has given the
password before. -/
inductive AdministratorBehind (calls : List (Call X × Reply X)) (token : X.Token) : Prop
  | intro {claims : Claims} {e : ExecId} {row : UserRow} {past more : Log X}
      (hdecoded : X.decodeToken token = .ok claims)
      (hlogin : LoginBehind (callAt calls) (logOf calls) claims e row)
      (hadmin : row.administrator = true) (hlog : logOf calls = past ++ more)
      (hevidence : LoginEvidence (callAt calls) past e row) : AdministratorBehind calls token

/-- A request of the run has asked for the policy, with a token that an administrator stands
behind. -/
inductive Authorised (E : PolicyEngine X) (start : StoreWorld X)
    (runs : List (SystemRequest X × Served (listSig X) (StoreWorld X) (SystemAnswer X)))
    (policy : PartialPolicy) : Prop
  | intro {first second :
        List (SystemRequest X × Served (listSig X) (StoreWorld X) (SystemAnswer X))}
      {token : X.Token} {request : ApiRequest}
      {served : Served (listSig X) (StoreWorld X) (SystemAnswer X)} {store : StoreRequest}
      {created : Policy} {calls : List (Call X × Reply X)}
      (hruns : runs = first ++ (.policies (some token) request, served) :: second)
      (hinner : request.inner = .store store) (hrequested : Requested E store created)
      (hpolicy : policy = .of created) (hcalls : OneByOne start.seen calls served.before.seen)
      (hshown : List.Forall₂ (ShownAs E) first calls)
      (hadministrator : AdministratorBehind calls token) : Authorised E start runs policy

section Authority

variable {E : PolicyEngine X} {start state : StoreWorld X}
  {runs more : List (SystemRequest X × Served (listSig X) (StoreWorld X) (SystemAnswer X))}
  {policy : PartialPolicy}

theorem Unforged.initial (hunforged : Unforged (runs ++ more)) : Unforged runs := by
  intro index hindex
  have hmore : index < (runs ++ more).length := by
    rw [List.length_append]
    omega
  have hpresents := hunforged index hmore
  rwa [List.take_append_of_le_length (Nat.le_of_lt hindex), List.getElem_append_left hindex]
    at hpresents

theorem Unforged.last {run : SystemRequest X × Served (listSig X) (StoreWorld X) (SystemAnswer X)}
    (hunforged : Unforged (runs ++ [run])) : presentsLogin runs run = true := by
  simpa using hunforged runs.length (by simp)

theorem Authorised.append (hauthorised : Authorised E start runs policy) :
    Authorised E start (runs ++ more) policy := by
  cases hauthorised with
  | @intro first second token request served _ _ _ hruns hinner hrequested hpolicy hcalls hshown
      hadministrator =>
      have hmore : runs ++ more =
          first ++ (.policies (some token) request, served) :: (second ++ more) := by
        rw [hruns, List.append_assoc, List.cons_append]
      exact .intro hmore hinner hrequested hpolicy hcalls hshown hadministrator

/-- A login that a served call has come to goes back to a password. -/
theorem LoginBehind.evidence {start state : World X} {calls : List (Call X × Reply X)}
    {claims : Claims} {e : ExecId} {row : UserRow} (hrun : OneByOne start calls state)
    (hlogin : LoginBehind (callAt calls) (logOf calls) claims e row) :
    ∃ past more, logOf calls = past ++ more ∧ LoginEvidence (callAt calls) past e row := by
  cases hlogin with
  | @intro past since between rest identification reading issue _ _ _ _ _ _ _ _ _ hlog hidentified
      hunreplaced hmarked _ _ _ _ _ _ _ _ _ _ _ _ =>
      have hsplit : logOf calls = (past ++ identification :: since) ++
          (reading :: between ++ issue :: rest) := by
        rw [hlog]
        simp
      exact ⟨_, _, hsplit, .of_marked hrun hsplit rfl hidentified hunreplaced hmarked⟩

theorem administratorBehind_of_issued {start state : World X} {calls : List (Call X × Reply X)}
    {token : X.Token} {claims : Claims} (htokens : TokensRoundTrip X) (hstart : start.Initial)
    (hrun : OneByOne start calls state) (hdecoded : X.decodeToken token = .ok claims)
    (hflag : claims.isAdmin = true) {issue : Logged (sig X) (World X)}
    (hissue : issue ∈ logOf calls) (hclaims : issuedClaims issue.event = some claims) :
    AdministratorBehind calls token := by
  obtain ⟨htraced, hissued⟩ :=
    hrun.preserves traced_preserved (traced_initial hstart) (handle_callAt hrun)
  rcases issued_cases htokens hstart htraced hissued hissue hclaims with
    ⟨sid, rfl⟩ | ⟨e, row, hlogin⟩
  · cases hflag
  · obtain ⟨past, more, hlog, hevidence⟩ := hlogin.evidence hrun
    exact .intro hdecoded hlogin (by rw [← hlogin.administrator, hflag]) hlog hevidence

/-- What a call has put into its jar the executor sees put there. -/
theorem issued_seen {calls : List (Call X × Reply X)}
    (hshown : List.Forall₂ (ShownAs E) runs calls) {claims : Claims}
    (hgranted : runs.any (grants claims) = true) :
    ∃ issue ∈ logOf calls, issuedClaims issue.event = some claims := by
  induction hshown with
  | nil => cases hgranted
  | @cons run reply runs calls hthis _ ih =>
      rcases Bool.or_eq_true_iff.mp hgranted with hgranted | hgranted
      · cases hthis with
        | @answered request served entries ending hlog _ _ =>
            cases request with
            | policies _ _ => cases hgranted
            | call call =>
                simp only [grants, List.any_eq_true, hlog] at hgranted
                obtain ⟨_, hentry, hissued⟩ := hgranted
                obtain ⟨_, houter, rfl⟩ := List.mem_map.mp hentry
                obtain ⟨entry, hinner, rfl⟩ := List.mem_map.mp houter
                exact ⟨entry.seen StoreWorld.seen, List.mem_flatMap.mpr
                  ⟨_, List.mem_cons_self, List.mem_map_of_mem hinner⟩, of_decide_eq_true hissued⟩
        | admitted => cases hgranted
      · obtain ⟨issue, hissue, hclaims⟩ := ih hgranted
        rw [logOf_cons]
        exact ⟨issue, List.mem_append_right _ hissue, hclaims⟩

theorem presentsLogin_admin {cookie : X.Token} {request : ApiRequest} {claims : Claims}
    {served : Served (listSig X) (StoreWorld X) (SystemAnswer X)}
    (hpresents : presentsLogin runs (.policies (some cookie) request, served) = true)
    (hdecoded : X.decodeToken cookie = .ok claims) (hflag : claims.isAdmin = true) :
    runs.any (grants claims) = true := by
  simpa [presentsLogin, SystemRequest.entrance, Call.cookie, hdecoded, Except.toOption, hflag]
    using hpresents

/-- Whatever is in the registry was there at the start, or an administrator has asked for it: one
who had identified himself, had given the password and had logged in, and whose token has been
presented with the request. -/
theorem policies_authorised (hE : E.Lawful) (htokens : TokensRoundTrip X) (hclosed : start.Closed)
    (hstart : start.world.Initial)
    (hrun : (systemMachine X).Serial (handleSystem E) start runs state)
    (hunforged : Unforged runs) (hmem : policy ∈ registry state.committed) :
    policy ∈ registry start.committed ∨ Authorised E start runs policy := by
  have hseen : start.seen.Initial :=
    ⟨hstart.heap, hstart.executions, hstart.readers, hstart.transactions, hstart.cookies⟩
  induction hrun with
  | start => exact Or.inl hmem
  | moves _ hmoved ih =>
      rw [hmoved.committed] at hmem
      exact ih hunforged hmem
  | @serve runs request served hpast hwho hserves ih =>
      have hbefore : policy ∈ registry served.before.committed →
          policy ∈ registry start.committed ∨
            Authorised E start (runs ++ [(request, served)]) policy := by
        intro hmem
        exact (ih hunforged.initial hmem).imp_right .append
      obtain ⟨hidle, calls, hcalls, hshown⟩ := seen_of_serial hE hclosed hpast
      obtain ⟨_, call, reply, hthis, _, _, hserved, _⟩ := serves_shown hE hidle hserves
      have hafter : policy ∈ registry served.after.committed := hmem
      cases hthis with
      | answered _ _ hcommitted =>
          rw [hcommitted] at hafter
          exact hbefore hafter
      | @admitted cookie asked _ entries rest middle hlog hanswer hcommitted hmanages =>
          rcases hmanages.committed with heq | ⟨store, created, hinner, hrequested, hadds⟩
          · rw [heq, hcommitted] at hafter
            exact hbefore hafter
          · rw [hadds.registry, hcommitted] at hafter
            rcases List.mem_append.mp hafter with hafter | hafter
            · exact hbefore hafter
            · right
              obtain ⟨token, claims, uid, rfl, hdecoded, hflag, _⟩ :=
                trace_admitted (hserved.trace rfl)
              have hgranted : runs.any (grants claims) = true :=
                presentsLogin_admin hunforged.last hdecoded hflag
              obtain ⟨issue, hissue, hclaims⟩ := issued_seen hshown hgranted
              exact .intro rfl hinner hrequested (List.mem_singleton.mp hafter) hcalls hshown
                (administratorBehind_of_issued htokens hseen hcalls hdecoded hflag hissue hclaims)

end Authority

section Sample

/-- The flow of a login with one form, and no policies. -/
def apiStart : StoreWorld Externals.encoded where
  world := .boot _ [sampleUser 1 "member" "tulip" false, sampleUser 2 "admin" "orchid" true] []
    [sampleFlow [sampleEntry 0 [], sampleEntry 2 []]]
    [sampleStage 0 "identification" (.identification (some (.uid 1)) [.name]),
      sampleStage 1 "password" (.password [.internal]), sampleStage 2 "login" .userLogin] []
  committed := fun _ => []
  working := none
  cached := []

def formRequest (cookie : Option Claims) (form : List (String × String)) :
    Request Externals.encoded where
  cookie := cookie
  flowSlug := "login"
  uri := "/flow/login"
  host := some "localhost"
  next := none
  form := some (.object (form.map fun field => (field.1, .string field.2)))

/-- A session is created and asks for a policy; then the administrator logs in to it and asks for
another. -/
def apiRequests : List (SystemRequest Externals.encoded × (Nat → Turn ListChoice)) :=
  [(.call (.getFlow (formRequest none [])), fun _ => ⟨⟨⟨.key "t", 0⟩, id⟩, .never⟩),
    (.policies (some (newClaims "t")) (.createExpiration "daily" 86400),
      fun _ => ⟨⟨⟨.normal, 1⟩, id⟩, .never⟩),
    (.call (.postFlow (formRequest (some (newClaims "t"))
      [("uid", "admin"), ("password", "orchid")])), fun _ => ⟨⟨⟨.normal, 0⟩, id⟩, .never⟩),
    (.policies (some (adminClaims "t")) (.createExpiration "weekly" 604800),
      fun _ => ⟨⟨⟨.normal, 1⟩, id⟩, .never⟩)]

def apiRun : List (SystemRequest Externals.encoded ×
      Served (listSig .encoded) (StoreWorld .encoded) (SystemAnswer .encoded)) ×
    StoreWorld .encoded :=
  (systemMachine _).serveAll (handleSystem .constants) apiStart apiRequests

theorem apiStart_closed : apiStart.Closed where
  stocked := ⟨storeStart_started.satisfies, by simp [apiStart]⟩
  working := rfl
  idle := fun _ => rfl

theorem tokensRoundTrip_encoded : TokensRoundTrip Externals.encoded where
  issuer := tokensRoundTrip_plain.issuer
  decode := tokensRoundTrip_plain.decode

theorem apiRun_unforged : Unforged apiRun.1 := by
  decide +kernel

/-- The first request is turned away, and the policy is that of the administrator. -/
theorem weekly_authorised :
    registry apiRun.2.committed = [⟨1, "weekly", .passwordExpiry⟩] ∧
      Authorised .constants apiStart apiRun.1 ⟨1, "weekly", .passwordExpiry⟩ := by
  have hregistry : registry apiRun.2.committed = [⟨1, "weekly", .passwordExpiry⟩] := by
    decide +kernel
  refine ⟨hregistry, ?_⟩
  have hrun : (systemMachine _).Serial (handleSystem .constants) apiStart apiRun.1 apiRun.2 :=
    serveAll_serial _ _ _
  rcases policies_authorised PolicyEngine.constants_lawful tokensRoundTrip_encoded apiStart_closed
    (World.boot_initial _ _ _ _ _ _) hrun apiRun_unforged (by rw [hregistry]; exact .head _) with
    hthere | hauthorised
  · cases hthere
  · exact hauthorised

end Sample

end Authust
