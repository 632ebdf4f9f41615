import Authust.Server.Admin
import Authust.Server.Authentication
import Authust.Server.Resting

/-! # Where an administrator's privilege comes from

A cookie is put into the jar for a new session, without any rights, or behind a login. Whoever is
admitted as an administrator goes back to such a login: of a row with the flag, identified and
marked on the execution of the session that the cookie names.
-/

namespace Authust

open Coop Coop.Task Coop.Machine

variable {X : Externals}

/-- A cookie that is put into the jar is one of the session, if the history has been shown its
jar. -/
def NamesCookie (session : Session) (history : History X) (op : Op X) : Prop :=
  ∀ token, op = .addCookie token → JarShown history →
    ∃ claims, X.decodeToken token = .ok claims ∧ claims.sid = session.sessionId

abbrev Naming {α : Type} (session : Session) (task : Task (sig X) α) (history : History X) : Prop :=
  @Obeys (sig X) α (NamesCookie session) (fun _ _ => True) task history

/-- As far as the history has been shown its jar, the cookie that it reads is that of the
session. -/
def Tidy (request : Request X) (session : Session) (history : History X) : Prop :=
  JarShown history → NamesSession request session history

/-- The claims of the cookie that an operation puts into the jar. -/
def issuedClaims (event : Event (sig X)) : Option Claims :=
  match event with
  | ⟨.addCookie token, _⟩ => (X.decodeToken token).toOption
  | _ => none

/-- If a session extractor asks for the row of an administrator's token, some request has put its
claims into its jar. -/
def presentsIssued (calls : Nat → Call X) (past : Log X) (entry : Logged (sig X) (World X)) :
    Bool :=
  match (calls entry.who).cookie, entry.event.op with
  | some token, .querySession _ =>
      (X.decodeToken token).toOption.all fun claims =>
        !claims.isAdmin || past.any fun earlier => issuedClaims earlier.event = some claims
  | _, _ => true

abbrev IssuedPresented (calls : Nat → Call X) (log : Log X) : Prop :=
  Throughout (fun past entry => presentsIssued calls past entry) log

/-- The login behind the claims of a cookie. A submission has made the user of the row pending on
the execution, a later one has marked him, and a POST has come to a `UserLogin` stage, read him
there as he had been left, and put a cookie for its own session into the jar. -/
inductive LoginBehind (calls : Nat → Call X) (log : Log X) (claims : Claims) (e : ExecId)
    (row : UserRow) : Prop
  | intro {past since between rest : Log X}
      {identification reading issue : Logged (sig X) (World X)}
      {request : Request X} {session : Session} {history : History X} {index : Nat}
      {entry : FlowEntry} {stage : Stage} {context : ExecutionContext} {added : Option X.Token}
      {token : X.Token}
      (hlog : log = past ++ identification :: since ++ reading :: between ++ issue :: rest)
      (hidentified : Identified calls past e row identification)
      (hunreplaced : ∀ later ∈ since, ∀ user, later.event.op ≠ .useMutContext e (.setPending user))
      (hmarked : ∃ mark ∈ since, Marks e row mark)
      (hwho : reading.who = issue.who) (hread : reading.event = ⟨.readContext e, context⟩)
      (hpending : context.pending =
        some { PendingUser.ofPartialUser row.toPartialUser with authenticated := true })
      (hcall : calls issue.who = .postFlow request)
      (hcompleting : Completing request history session e)
      (hown : own issue.who (past ++ identification :: since ++ reading :: between) =
        history ++ entering e index entry stage ++
          [⟨.readContext e, context⟩, ⟨.addedCookie, added⟩])
      (hkind : stage.kind = .userLogin) (hissued : issue.event = ⟨.addCookie token, ()⟩)
      (hdecoded : X.decodeToken token = .ok claims) (hsid : claims.sid = session.sessionId)
      (hsub : claims.sub = some row.uid) (hauthenticated : claims.authenticated = true)
      (hadmin : claims.isAdmin = row.administrator) : LoginBehind calls log claims e row

/-- The extractor has been presented an administrator's token. When it asked for the row of the
session, a login of an administrator to that session stood behind the token, and behind the login
his password, if nobody was overtaken on the way. -/
inductive Backed (calls : Nat → Call X) (log : Log X) (who : Nat) (token : X.Token) : Prop
  | intro {past rest : Log X} {before : World X} {uid : Uuid} {claims : Claims} {e : ExecId}
      {row : UserRow} (hdecoded : X.decodeToken token = .ok claims)
      (hlog : log = past ++
        ⟨who, before, ⟨.querySession claims.sid, .ok (some (some uid))⟩⟩ :: rest)
      (hrow : before.sessions claims.sid = some (some uid))
      (hlogin : LoginBehind calls past claims e row) (hadmin : row.administrator = true)
      (hverified : PendingKept past → PasswordVerified calls past e row.uid) :
      Backed calls log who token

section Naming

variable {α : Type} {request : Request X} {session : Session} {e : ExecId} {history : History X}

theorem JarShown.initial {more : History X} (hshown : JarShown (history ++ more)) :
    JarShown history := by
  intro first added second heq
  apply hshown first added (second ++ more)
  rw [heq, List.append_assoc, List.cons_append]

theorem Tidy.append {more : History X} (htidy : Tidy request session history)
    (hunfilled : ∀ event ∈ more, event.op.fills = false) :
    Tidy request session (history ++ more) :=
  fun hshown => (htidy hshown.initial).append hunfilled

theorem namesCookie_other {op : Op X} (hop : op.fills = false) :
    NamesCookie session history op := by
  rintro token rfl
  cases hop

theorem ReadOnly.naming {task : Task (sig X) α} (hreads : ReadOnly task) :
    Naming session task history := by
  refine Avoids.obeys hreads ?_ history
  intro past op hop
  apply namesCookie_other
  rw [Bool.not_eq_true] at hop
  exact Op.fills_of_signs (Op.signs_of_writes hop)

theorem naming_access_bind {op : Op X} {f : op.Res → Handler X α} (hop : op.fills = false)
    (hrest : ∀ res, Naming session (f res).run (history ++ [⟨op, res⟩])) :
    Naming session (access op >>= f).run history :=
  ⟨namesCookie_other hop, hrest⟩

/-- A login rewrites the cookie that it has read. -/
theorem naming_userLogin (htokens : TokensRoundTrip X) (htidy : Tidy request session history)
    (entry : FlowEntry) : Naming session (userLogin X request session e entry).run history := by
  apply naming_access_bind rfl
  intro context
  have hread : Tidy request session (history ++ [⟨.readContext e, context⟩]) :=
    htidy.append (by simp [Op.fills])
  split
  next => trivial
  next user hpending =>
    split
    next hauthenticated =>
      rw [run_lift_bind]
      refine Obeys.bind looks_getSessionCookie.readOnly.naming fun reading cookie hreading => ?_
      obtain ⟨added, rfl, hcookie⟩ := trace_getSessionCookie.mp hreading
      split
      next => trivial
      next cookie =>
        split
        next => trivial
        next claims hdecoded =>
          refine Obeys.run_bind ?_ fun _ _ _ => ?_
          · unfold setSessionCookie
            split
            next => trivial
            next token hencoded =>
              refine ⟨?_, fun _ => trivial⟩
              rintro other heq hshown
              cases heq
              refine ⟨_, htokens.loginClaims hdecoded hencoded, ?_⟩
              have hadded : added = jarOf (history ++ [⟨.readContext e, context⟩]) :=
                hshown _ added [] rfl
              rw [hadded] at hcookie
              exact hread hshown.initial cookie claims hcookie.symm hdecoded
          · refine Obeys.run_bind (ReadOnly.naming (avoids_perform rfl)) fun _ _ _ => ?_
            exact Obeys.run_bind ⟨namesCookie_other rfl, fun _ => trivial⟩ fun _ _ _ => trivial
    next => exact ⟨namesCookie_other rfl, fun _ => trivial⟩

theorem naming_completeTurn (htokens : TokensRoundTrip X) (htidy : Tidy request session history)
    (exhausted : Bool) :
    Naming session (completeTurn X request session e exhausted).run history := by
  apply naming_access_bind rfl
  intro completed
  cases completed with
  | true => trivial
  | false =>
      apply naming_access_bind rfl
      intro entry
      rw [run_lift_bind]
      refine Obeys.bind looks_lookupStage.readOnly.naming fun lookup stage hstage => ?_
      rw [trace_lookupStage] at hstage
      subst hstage
      have hentered : Tidy request session (history ++ entering e entry.1 entry.2 stage) :=
        htidy.append fun event hmem => Op.fills_of_signs (unsigned_entering event hmem)
      have hpanic : ∀ (message : String) (past : History X), Naming session
          (ExceptT.lift (panic message) : Handler X LoopControl).run past := by
        intro message past
        rw [run_lift]
        exact ReadOnly.naming (Avoids.bind looks_panic.readOnly fun _ => avoids_done)
      split
      next => trivial
      next =>
        split
        next => trivial
        next =>
          split
          next => simpa [entering] using naming_userLogin htokens hentered entry.2
          next => exact hpanic _ _
          next => exact hpanic _ _
          next => exact hpanic _ _

/-- Every cookie that the loop puts into the jar is one of the session. -/
theorem naming_completeLoop (htokens : TokensRoundTrip X) (htidy : Tidy request session history)
    (left : Nat) : Naming session (completeLoop X request session e left).run history := by
  induction left generalizing history with
  | zero => exact Obeys.run_bind (naming_completeTurn htokens htidy true) fun _ _ _ => trivial
  | succ left ih =>
      refine Obeys.run_bind (naming_completeTurn htokens htidy false) fun turn control hturn => ?_
      cases control with
      | leave => trivial
      | proceed =>
          obtain ⟨_, index, entry, stage, tail, hkind, rfl, hlogin⟩ :=
            trace_completeTurn_proceed hturn
          obtain ⟨context, user, added, cookie, claims, token, rfl, hpending, hauthenticated,
            hcookie, hdecoded, hencoded⟩ := trace_userLogin hlogin
          apply naming_access_bind rfl
          intro _
          apply ih
          -- the turn has been a login
          have hturns : Turns request session e (entering e index entry stage ++
              loginEvents e context added token user session ++ [⟨.completeCurrent e, ()⟩]) :=
            .login hkind hpending hauthenticated hcookie hdecoded hencoded (.leave (by simp))
          intro hshown
          rw [List.append_assoc] at hshown ⊢
          exact hturns.names htokens (htidy hshown.initial) hshown

/-- The cookie of a login is one of the session. -/
theorem Completing.names {session : Session} {e : ExecId} {past more : History X}
    (htokens : TokensRoundTrip X) (hcompleting : Completing request past session e)
    {token : X.Token} {next : Unit → Task (sig X) (Except ApiErrorKind Response)}
    (hpath : Path (handle X (.postFlow request)) (past ++ more)
      (@Coop.Task.call (sig X) _ (.addCookie token) next))
    (hshown : JarShown (past ++ more)) :
    ∃ claims, X.decodeToken token = .ok claims ∧ claims.sid = session.sessionId := by
  cases hcompleting with
  | @intro form _ _ context admitted handled middle hadmission hhandled =>
      obtain ⟨extension, opening, rest, rfl, hextension, hextracted, hunfilled⟩ :=
        hadmission.extracted
      have htidy : Tidy request session
          (opening ++ rest ++ handled ++ [⟨.completeCurrent e, ()⟩]) := by
        have hopened : Tidy request session opening := fun _ => hextracted.names htokens hextension
        refine ((hopened.append hunfilled).append ?_).append (by simp [Op.fills])
        exact fun event hmem => Op.fills_of_signs (unsigned_handleSubmission hhandled event hmem)
      rw [List.append_assoc, List.cons_append] at hpath
      have hlooping := hadmission.resume_completing hhandled hpath
      have hnaming : Naming session (do
          complete X request session e
          await (op .commit)
          pure (.redirect request.uri) : Handler X Response).run
            (opening ++ rest ++ handled ++ [⟨.completeCurrent e, ()⟩]) := by
        refine Obeys.run_bind (naming_completeLoop htokens htidy 41) fun _ _ _ => ?_
        exact Obeys.run_bind ⟨namesCookie_other rfl, fun _ => trivial⟩ fun _ _ _ => trivial
      refine (hnaming.path hlooping).1 token rfl ?_
      simpa using hshown

end Naming

section Logins

variable {calls : Nat → Call X} {start state : World X} {log : Log X} {who : Nat} {claims : Claims}
  {e : ExecId} {row : UserRow}

theorem issuedClaims_eq_some {event : Event (sig X)} (hissued : issuedClaims event = some claims) :
    ∃ token, event = ⟨.addCookie token, ()⟩ ∧ X.decodeToken token = .ok claims := by
  unfold issuedClaims at hissued
  split at hissued
  next token _ =>
    refine ⟨token, rfl, ?_⟩
    cases hdecoded : X.decodeToken token with
    | error kind => simp [hdecoded, Except.toOption] at hissued
    | ok decoded => simpa [hdecoded, Except.toOption] using hissued
  next => cases hissued

theorem presentsIssued_query {before : World X} {sid : String}
    {user : DbResult (Option (Option Uuid))}
    (hpresents : presentsIssued calls log ⟨who, before, ⟨.querySession sid, user⟩⟩ = true)
    {token : X.Token} (hcookie : (calls who).cookie = some token)
    (hdecoded : X.decodeToken token = .ok claims) (hadmin : claims.isAdmin = true) :
    ∃ earlier ∈ log, issuedClaims earlier.event = some claims := by
  simpa [presentsIssued, hcookie, hdecoded, Except.toOption, hadmin] using hpresents

/-- Whom a call has read as authenticated has been identified and marked. -/
theorem pendingSince_of_own (hexecuted : (server X).Executed log)
    (horiginated : Throughout (fun past entry => Originated calls entry.before past) log)
    {context : ExecutionContext} {user : PendingUser}
    (hread : ⟨.readContext e, context⟩ ∈ own who log) (hpending : context.pending = some user) :
    ∃ past reading between, log = past ++ reading :: between ∧ reading.who = who ∧
      reading.event = ⟨.readContext e, context⟩ ∧ PendingSince calls past e user := by
  obtain ⟨reading, hmem, hwho, hevent⟩ := mem_own.mp hread
  obtain ⟨past, between, hlog⟩ := List.append_of_mem hmem
  obtain ⟨who', before, event⟩ := reading
  obtain rfl : who' = who := hwho
  obtain rfl : event = ⟨.readContext e, context⟩ := hevent
  obtain ⟨after, hexec⟩ := hexecuted _ hmem
  obtain ⟨execution, hheap, rfl⟩ := exec_readContext hexec
  exact ⟨past, _, between, hlog, rfl, rfl,
    horiginated past _ between hlog e execution user hheap hpending⟩

/-- A cookie is that of a new session, which has no rights, or that of a login. -/
theorem issued_cases (htokens : TokensRoundTrip X) (hstart : start.Initial)
    (htraced : Traced calls start state log) (hissued : IssuedBy calls log)
    {issue : Logged (sig X) (World X)} (hmem : issue ∈ log)
    (hclaims : issuedClaims issue.event = some claims) :
    (∃ sid, claims = newClaims sid) ∨ ∃ e row, LoginBehind calls log claims e row := by
  obtain ⟨_, ⟨_, horiginated⟩, hviewed⟩ := htraced
  obtain ⟨token, hevent, hdecoded⟩ := issuedClaims_eq_some hclaims
  obtain ⟨first, rest, rfl⟩ := List.append_of_mem hmem
  obtain ⟨who, before, event⟩ := issue
  obtain rfl : event = ⟨.addCookie token, ()⟩ := hevent
  obtain ⟨⟨next, hreached⟩, _⟩ := hissued first _ rest rfl
  have hpath : Path (handle X (calls who)) (own who first)
      (@Coop.Task.call (sig X) _ (.addCookie token) next) := hreached
  have hjustified := issued_justified hissued
  have hearlier : IssuedBy calls first := hissued.initial
  have hshown : JarShown (own who first) :=
    jarShown_own hstart (Throughout.initial hviewed) hearlier.executed who
  generalize hcall : calls who = call at hjustified hpath
  generalize hown : own who first = history at hjustified hpath hshown
  cases hjustified with
  | plain hplain => cases hplain
  | newCookie _ hencoded =>
      left
      rw [htokens.newClaims hencoded, Except.ok.injEq] at hdecoded
      exact ⟨_, hdecoded.symm⟩
  | @loginCookie request history session e index entry stage context user added cookie _ presented
      hcompleting hkind hpending hauthenticated hcookie hpresented hencoded =>
      right
      obtain ⟨named, hnamed, hsid⟩ := hcompleting.names htokens
        (by rwa [List.append_assoc] at hpath) (by rwa [List.append_assoc] at hshown)
      have hsame : named = claims := by
        rw [hnamed, Except.ok.injEq] at hdecoded
        exact hdecoded
      subst hsame
      obtain rfl : named = loginClaims presented user := by
        rw [htokens.loginClaims hpresented hencoded, Except.ok.injEq] at hnamed
        exact hnamed.symm
      have hread : ⟨.readContext e, context⟩ ∈ own who first := by
        rw [hown]
        simp
      obtain ⟨past, reading, between, rfl, hwho, hreading, hsince⟩ :=
        pendingSince_of_own hearlier.executed (Throughout.initial horiginated) hread hpending
      cases hsince with
      | @intro past since identification row hpast hidentified hunreplaced hsame hmarked =>
          rw [hauthenticated] at hsame
          subst hpast
          subst hsame
          exact ⟨e, row, .intro rfl hidentified hunreplaced (hmarked rfl) hwho hreading hpending
            hcall hcompleting hown hkind rfl hdecoded hsid rfl rfl rfl⟩

theorem LoginBehind.verified (hlogin : LoginBehind calls log claims e row)
    (hflags : FlagsJustified calls state log) : PasswordVerified calls log e row.uid := by
  cases hlogin with
  | @intro _ _ _ _ _ reading _ _ _ _ _ _ _ context _ _ hlog _ _ _ _ hread hpending _ _ _ _ _ _ _ _
      _ _ =>
      have hmem : reading ∈ log := by
        rw [hlog]
        simp
      exact hflags.read reading hmem e context _ hread hpending rfl

theorem LoginBehind.administrator (hlogin : LoginBehind calls log claims e row) :
    claims.isAdmin = row.administrator := by
  cases hlogin with
  | intro _ _ _ _ _ _ _ _ _ _ _ _ _ _ _ _ hadmin => exact hadmin

/-- Under every interleaving whoever is admitted as an administrator goes back to the login of one:
if no token is forged, the presented one was put into the jar by a POST that had come to a login of
a row with the flag, and it names the session of that POST. -/
theorem admission_backed (htokens : TokensRoundTrip X) (hstart : start.Initial)
    {config : Config (sig X) (World X) (Except ApiErrorKind Response)}
    (hreach : Interleaved calls start config) (hpresented : IssuedPresented calls config.log)
    {cookie : Option X.Token} (hcall : calls who = .admin cookie)
    (hended : config.procs who = .ended (.returned (.ok .admitted))) :
    ∃ token, cookie = some token ∧ Backed calls config.log who token := by
  have hinitial : PendingKept ([] : Log X) → FlagsJustified calls start [] :=
    fun _ => ⟨by simp [hstart.heap], by simp⟩
  obtain ⟨⟨⟨_, htraced⟩, _, hflags⟩, hissued, hlinked⟩ :=
    hreach.holds (traced_preserved.throughout.and flagsJustified_preserved.throughout)
      ⟨⟨traced_initial hstart, throughout_nil⟩, hinitial, throughout_nil⟩
  have htrace : Trace (handle X (calls who)) (own who config.log) (.ok .admitted) :=
    hlinked.trace hended
  rw [hcall] at htrace
  obtain ⟨token, claims, uid, rfl, hdecoded, hflag, hqueried⟩ := trace_admitted htrace
  refine ⟨token, rfl, ?_⟩
  obtain ⟨before, after, hmem, hexec⟩ := executed_of_own hissued.executed hqueried
  obtain ⟨past, rest, hlog⟩ := List.append_of_mem hmem
  have hcookie : (calls who).cookie = some token := by
    rw [hcall]
    rfl
  obtain ⟨issue, hissue, hclaims⟩ :=
    presentsIssued_query (hpresented past _ rest hlog) hcookie hdecoded hflag
  have hearlier : IssuedBy calls past := by
    rw [hlog] at hissued
    exact hissued.initial
  rcases issued_cases htokens hstart (htraced past _ rest hlog) hearlier hissue hclaims with
    ⟨sid, rfl⟩ | ⟨e, row, hlogin⟩
  · cases hflag
  · have hadmin : row.administrator = true := by
      rw [← hlogin.administrator, hflag]
    exact .intro hdecoded hlog (exec_querySession hexec) hlogin hadmin
      fun hkept => hlogin.verified (hflags past _ rest hlog hkept)

end Logins

section AdmissionRun

theorem ownSession_issued :
    ((sampleRun oneForm sharedSessionCalls ownSessionSchedule).map fun config =>
      (decide (IssuedPresented sharedSessionCalls config.log),
        Proc.isAdmitted (config.procs 5))) = some (true, true) := by
  decide +kernel

/-- The administrator logs in and is admitted. -/
theorem ownSession_backed : ∃ config, Interleaved sharedSessionCalls oneForm config ∧
    ∃ token, some (adminClaims "t") = some token ∧
      Backed sharedSessionCalls config.log 5 token := by
  obtain ⟨config, hrun, hresult⟩ := Option.map_eq_some_iff.mp ownSession_issued
  simp only [Prod.mk.injEq, decide_eq_true_eq] at hresult
  obtain ⟨hpresented, hadmitted⟩ := hresult
  have hreach := sampleRun_interleaved hrun
  exact ⟨config, hreach, admission_backed tokensRoundTrip_plain (World.boot_initial _ _ _ _ _ _)
    hreach hpresented rfl (eq_of_isAdmitted hadmitted)⟩

end AdmissionRun

end Authust
