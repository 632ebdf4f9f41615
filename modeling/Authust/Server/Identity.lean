import Authust.Server.Admin

/-! # Whom a cookie speaks for

The session extractor takes the user from the sessions table, whatever the presented token
says of itself. The table says whom the last committed login to the session was for.
-/

namespace Authust

open Coop Coop.Task Coop.Machine

variable {X : Externals}

/-- The login that a commit makes effective, with the session it is for. -/
def committedLogin (entry : Logged (sig X) (World X)) : Option (Uuid × String) :=
  match entry.event with
  | ⟨.commit, .ok _⟩ => (entry.before.transactions entry.who).getLast?
  | _ => none

def loginNext (sid : String) (known : Option Uuid) (entry : Logged (sig X) (World X)) :
    Option Uuid :=
  match committedLogin entry with
  | some (uid, row) => if row = sid then some uid else known
  | none => known

/-- The user of the last committed login to a session. -/
def lastLogin (log : Log X) (sid : String) : Option Uuid := log.foldl (loginNext sid) none

/-- The last login to the session: the request that committed it had signed the user in to it. -/
inductive LoginCommitted (calls : Nat → Call X) (log : Log X) (sid : String) (uid : Uuid) : Prop
  | intro {past rest : Log X} {entry : Logged (sig X) (World X)} {request : Request X}
      {session : Session} {e : ExecId} {user : PendingUser} {token : X.Token}
      (hlog : log = past ++ entry :: rest) (hevent : entry.event = ⟨.commit, .ok ()⟩)
      (hcall : calls entry.who = .postFlow request)
      (hfound : Found (.postFlow request) (own entry.who past) session e)
      (hsid : session.sessionId = sid)
      (hsigned : SignedIn request session e user token (own entry.who past)) (huid : user.uid = uid)
      (hlast : ∀ later ∈ rest, ∀ other, committedLogin later ≠ some (other, sid)) :
      LoginCommitted calls log sid uid

/-- What the sessions table says of a row, by the log. -/
def RowTold (start : World X) (row : Option (Option Uuid)) (log : Log X) (sid : String) : Prop :=
  match lastLogin log sid with
  | some uid => row = some (some uid)
  | none => row = start.sessions sid ∨ start.sessions sid = none ∧ row = some none

section Logins

variable {calls : Nat → Call X} {start state after : World X} {log : Log X} {sid : String}
  {who : Nat} {event : Event (sig X)} {entry : Logged (sig X) (World X)}

theorem lastLogin_snoc (log : Log X) (entry : Logged (sig X) (World X)) (sid : String) :
    lastLogin (log ++ [entry]) sid = loginNext sid (lastLogin log sid) entry := by
  rw [lastLogin, List.foldl_append]
  rfl

theorem loginNext_other (hother : ∀ uid, committedLogin entry ≠ some (uid, sid))
    (known : Option Uuid) : loginNext sid known entry = known := by
  unfold loginNext
  split
  next uid row hlogin =>
    rw [if_neg]
    rintro rfl
    exact hother uid hlogin
  next => rfl

theorem loginNext_login {uid : Uuid} (hlogin : committedLogin entry = some (uid, sid))
    (known : Option Uuid) : loginNext sid known entry = some uid := by
  simp [loginNext, hlogin]

theorem committedLogin_other {before : World X} (hevent : event ≠ ⟨.commit, .ok ()⟩) :
    committedLogin ⟨who, before, event⟩ = none := by
  unfold committedLogin
  split
  next hcommit => exact absurd hcommit hevent
  next => rfl

/-- A login goes back to the signing in of its request. -/
theorem LoginCommitted.snoc {uid : Uuid} (hlogin : LoginCommitted calls log sid uid)
    (hother : ∀ other, committedLogin entry ≠ some (other, sid)) :
    LoginCommitted calls (log ++ [entry]) sid uid := by
  cases hlogin with
  | intro hlog hevent hcall hfound hsid hsigned huid hlast =>
      refine .intro (by rw [hlog, List.append_assoc, List.cons_append]) hevent hcall hfound hsid
        hsigned huid ?_
      intro later hmem
      rcases List.mem_append.mp hmem with hmem | hmem
      · exact hlast later hmem
      · rw [List.mem_singleton.mp hmem]
        exact hother

/-- Without a login a row stays, or is a new one. -/
theorem RowTold.keep {row row' : Option (Option Uuid)} (htold : RowTold start row log sid)
    (hother : ∀ uid, committedLogin entry ≠ some (uid, sid))
    (hrow : row' = row ∨ row = none ∧ row' = some none) :
    RowTold start row' (log ++ [entry]) sid := by
  unfold RowTold at htold ⊢
  rw [lastLogin_snoc, loginNext_other hother]
  rcases hrow with rfl | ⟨rfl, rfl⟩
  · exact htold
  · cases hlast : lastLogin log sid with
    | some uid =>
        rw [hlast] at htold
        cases htold
    | none =>
        rw [hlast] at htold
        rcases htold with hsame | ⟨_, hnone⟩
        · exact Or.inr ⟨hsame.symm, rfl⟩
        · cases hnone

theorem RowTold.login {uid : Uuid} {row : Option (Option Uuid)}
    (hlogin : committedLogin entry = some (uid, sid)) (hrow : row = some (some uid)) :
    RowTold start row (log ++ [entry]) sid := by
  unfold RowTold
  rw [lastLogin_snoc, loginNext_login hlogin]
  exact hrow

/-- What a commit does to the table, and who has signed in. -/
theorem Committing.login (hcommitting : Committing (calls who) (own who log))
    (howned : Owned state log)
    (hlisted : state.transactions who = ((own who log).foldl Desk.next ⟨[], none⟩).updates)
    (hstep : Step who state ⟨.commit, .ok ()⟩ after) (sid : String) :
    ((∀ uid, committedLogin ⟨who, state, ⟨.commit, .ok ()⟩⟩ ≠ some (uid, sid)) ∧
        after.sessions sid = state.sessions sid) ∨
      ∃ uid, committedLogin ⟨who, state, ⟨.commit, .ok ()⟩⟩ = some (uid, sid) ∧
        after.sessions sid = some (some uid) ∧
          LoginCommitted calls (log ++ [⟨who, state, ⟨.commit, .ok ()⟩⟩]) sid uid := by
  cases hcommitting with
  | @intro request session e hcall hfound hown hlast =>
      rcases hlast with hunlisted | ⟨user, token, hsigned⟩
      · -- the transaction is empty
        have hempty : state.transactions who = [] := by
          rw [hlisted, Desk.foldl_updates hunlisted]
        refine Or.inl ⟨?_, ?_⟩
        · intro uid
          simp [committedLogin, hempty]
        · rw [hstep.sessions_commit, hempty]
          rfl
      · obtain ⟨updates, hdesk⟩ := hsigned.desk ⟨[], none⟩
        rw [hdesk] at hlisted
        have hlogin : committedLogin ⟨who, state, ⟨.commit, .ok ()⟩⟩ =
            some (user.uid, session.sessionId) := by
          simp [committedLogin, hlisted]
        have hempty : ∀ update ∈ (⟨[], none⟩ : Desk X).updates, update.2 = session.sessionId := by
          simp
        have hupdates := Desk.own_updates hown hempty
        rw [hdesk] at hupdates
        by_cases hsame : sid = session.sessionId
        · subst hsame
          refine Or.inr ⟨user.uid, hlogin, ?_, ?_⟩
          · rw [hstep.sessions_commit, hlisted]
            exact SessionTable.applyUpdates_last (howned.row_of_opened hfound.opened)
          · rw [hcall] at hfound
            exact .intro rfl rfl hcall hfound rfl hsigned rfl (by simp)
        · refine Or.inl ⟨?_, ?_⟩
          · intro uid hother
            rw [hlogin, Option.some.injEq, Prod.mk.injEq] at hother
            exact hsame hother.2.symm
          · rw [hstep.sessions_commit]
            refine SessionTable.applyUpdates_other fun update hmem hother => hsame ?_
            rw [hlisted] at hmem
            rw [← hother, hupdates update hmem]

/-- The table and the logins that the log tells of. -/
structure Told (calls : Nat → Call X) (start state : World X) (log : Log X) : Prop where
  owned : Owned state log
  row : ∀ sid, RowTold start (state.sessions sid) log sid
  login : ∀ sid uid, lastLogin log sid = some uid → LoginCommitted calls log sid uid

theorem Told.other (htold : Told calls start state log) (howned : Owned after (log ++ [entry]))
    (hother : ∀ uid sid, committedLogin entry ≠ some (uid, sid))
    (hrows : ∀ sid, after.sessions sid = state.sessions sid ∨
      state.sessions sid = none ∧ after.sessions sid = some none) :
    Told calls start after (log ++ [entry]) where
  owned := howned
  row := fun sid => (htold.row sid).keep (fun uid => hother uid sid) (hrows sid)
  login := by
    intro sid uid hlast
    rw [lastLogin_snoc, loginNext_other fun uid => hother uid sid] at hlast
    exact (htold.login sid uid hlast).snoc fun other => hother other sid

theorem Told.commit (hstart : start.Initial) (htold : Told calls start state log)
    (hjustified : Justified (calls who) (own who log) .commit)
    (hview : state.desk who = (own who log).foldl Desk.next (start.desk who))
    (hstep : Step who state ⟨.commit, .ok ()⟩ after)
    (howned : Owned after (log ++ [⟨who, state, ⟨.commit, .ok ()⟩⟩])) :
    Told calls start after (log ++ [⟨who, state, ⟨.commit, .ok ()⟩⟩]) := by
  rw [hstart.desk] at hview
  have hlisted : state.transactions who = ((own who log).foldl Desk.next ⟨[], none⟩).updates :=
    congrArg Desk.updates hview
  have hlogins := hjustified.committing.login htold.owned hlisted hstep
  refine ⟨howned, ?_, ?_⟩
  · intro sid
    rcases hlogins sid with ⟨hother, hsame⟩ | ⟨uid, hlogin, hrow, _⟩
    · exact (htold.row sid).keep hother (Or.inl hsame)
    · exact .login hlogin hrow
  · intro sid uid hlast
    rw [lastLogin_snoc] at hlast
    rcases hlogins sid with ⟨hother, _⟩ | ⟨user, hlogin, _, hcommitted⟩
    · rw [loginNext_other hother] at hlast
      exact (htold.login sid uid hlast).snoc hother
    · rw [loginNext_login hlogin, Option.some.injEq] at hlast
      exact hlast ▸ hcommitted

theorem told_preserved (hstart : start.Initial) :
    Preserved desk (fun who => handle X (calls who)) start (Told calls start) where
  exec := by
    intro who state after log event next htold hissued hpath hview hexec
    have howned := htold.owned.exec hexec
    by_cases hevent : event = ⟨.commit, .ok ()⟩
    · subst hevent
      exact htold.commit hstart (justified_of_path hpath) hview (exec_step hexec) howned
    · refine htold.other howned ?_ ((exec_step hexec).row_other hevent)
      intro uid sid hlogin
      rw [committedLogin_other hevent] at hlogin
      cases hlogin
  release := fun htold => ⟨htold.owned.release, htold.row, htold.login⟩
  moves := by
    intro state after log htold hmoves
    refine ⟨htold.owned.moved hmoves, ?_, htold.login⟩
    rw [hmoves.sessions]
    exact htold.row

theorem told_initial (hstart : start.Initial) : Told calls start start [] where
  owned := owned_initial hstart
  row := fun sid => Or.inl rfl
  login := by
    intro sid uid hlast
    cases hlast

/-- Where the user of an extracted session comes from. Without a cookie, or where the presented
session has no row, the session is a new one and has none; a presented one has the user of its row,
who is that of the last login to it, or whom the row referred to from the start. -/
inductive UserOfRow (calls : Nat → Call X) (start : World X) (log : Log X) (who : Nat)
    (session : Session) : Prop
  | missingCookie (hcookie : (calls who).cookie = none)
      (hinserted : ⟨.insertSession session.sessionId, .ok ()⟩ ∈ own who log)
      (huser : session.userId = none) : UserOfRow calls start log who session
  | missingRow {token : X.Token} {claims : Claims} {past rest : Log X} {before : World X}
      (hcookie : (calls who).cookie = some token) (hdecoded : X.decodeToken token = .ok claims)
      (hlog : log = past ++ ⟨who, before, ⟨.querySession claims.sid, .ok none⟩⟩ :: rest)
      (hrow : before.sessions claims.sid = none)
      (hinserted : ⟨.insertSession session.sessionId, .ok ()⟩ ∈ own who log)
      (huser : session.userId = none) : UserOfRow calls start log who session
  | presented {token : X.Token} {claims : Claims} {past rest : Log X} {before : World X}
      (hcookie : (calls who).cookie = some token) (hdecoded : X.decodeToken token = .ok claims)
      (hsid : session.sessionId = claims.sid)
      (hlog : log = past ++
        ⟨who, before, ⟨.querySession claims.sid, .ok (some session.userId)⟩⟩ :: rest)
      (hrow : before.sessions claims.sid = some session.userId)
      (huser : session.userId = (lastLogin past claims.sid).or (start.sessions claims.sid).join)
      (hlogin : ∀ uid, lastLogin past claims.sid = some uid →
        LoginCommitted calls past claims.sid uid) : UserOfRow calls start log who session

theorem RowTold.user {user : Option Uuid} (htold : RowTold start (some user) log sid) :
    user = (lastLogin log sid).or (start.sessions sid).join := by
  unfold RowTold at htold
  cases hlast : lastLogin log sid with
  | some uid =>
      rw [hlast] at htold
      simpa using htold
  | none =>
      rw [hlast] at htold
      rcases htold with hsame | ⟨hnone, huser⟩
      · rw [← hsame]
        rfl
      · rw [hnone]
        simpa using huser

/-- Under every interleaving the user of an extracted session is that of the row of the presented
session: whom the last committed login to that session has signed in. -/
theorem extracted_user_of_row (hstart : start.Initial)
    {config : Config (sig X) (World X) (Except ApiErrorKind Response)}
    (hreach : Interleaved calls start config) {session : Session}
    (hopened : Opened (calls who) (own who config.log) session) :
    UserOfRow calls start config.log who session := by
  obtain ⟨⟨_, hthroughout⟩, hissued, _⟩ :=
    hreach.holds (told_preserved hstart).throughout ⟨told_initial hstart, throughout_nil⟩
  generalize hhistory : own who config.log = history at hopened
  cases hopened with
  | @intro extension session opening rest hextension hsession =>
      cases extracted_fromRequestParts hsession with
      | @presented claims userId sql hclaims heq =>
          subst heq
          rw [hclaims] at hextension
          obtain ⟨token, hcookie, hdecoded⟩ := decoded_of_handleAuth hextension
          have hqueried : ⟨.querySession claims.sid, .ok (some userId)⟩ ∈ own who config.log := by
            rw [hhistory]
            simp
          obtain ⟨before, after, hmem, hexec⟩ := executed_of_own hissued.executed hqueried
          obtain ⟨past, later, hlog⟩ := List.append_of_mem hmem
          have htold := hthroughout past _ later hlog
          have hrow := htold.row claims.sid
          have hanswer := exec_querySession hexec
          rw [hanswer] at hrow
          exact .presented hcookie hdecoded rfl hlog hanswer hrow.user (htold.login claims.sid)
      | @fresh asking sid sql token hunknown heq _ =>
          subst heq
          have hinserted : ⟨.insertSession sid, .ok ()⟩ ∈ own who config.log := by
            rw [hhistory]
            simp
          cases hunknown with
          | missingCookie hmissing =>
              rw [hmissing] at hextension
              exact .missingCookie (missing_of_handleAuth hextension) hinserted rfl
          | @missingRow claims _ hclaims =>
              rw [hclaims] at hextension
              obtain ⟨token, hcookie, hdecoded⟩ := decoded_of_handleAuth hextension
              have hqueried : ⟨.querySession claims.sid, .ok none⟩ ∈ own who config.log := by
                rw [hhistory]
                simp
              obtain ⟨before, after, hmem, hexec⟩ := executed_of_own hissued.executed hqueried
              obtain ⟨past, later, hlog⟩ := List.append_of_mem hmem
              exact .missingRow hcookie hdecoded hlog (exec_querySession hexec) hinserted rfl

end Logins

section IdentityRuns

/-- A session is created, the member logs in to it, and the cookie from before the login is
presented again. -/
def fixationCalls : Nat → Call Externals.plain
  | 0 => .getFlow (presenting none none [])
  | 1 => .postFlow
      (presenting (some (newClaims "t")) none [("uid", "member"), ("password", "tulip")])
  | _ => .userInfo (some (newClaims "t"))

def fixationSchedule : List (Act Choice) :=
  Act.awaits 0 (.key "t") 11 ++ Act.awaits 1 .normal 15 ++ Act.awaits 2 .normal 6

def answeredUser (proc : Proc (sig X) (Except ApiErrorKind Response)) : Option Uuid :=
  match proc with
  | .ended (.returned (.ok (.user user))) => user.map PartialUser.uid
  | _ => none

/-- A call that is answered a user has extracted a session with one. -/
theorem trace_userInfo {cookie : Option X.Token} {history : History X} {user : PartialUser}
    (htrace : Trace (handle X (.userInfo cookie)) history (.ok (.user (some user)))) :
    ∃ session uid, Opened (.userInfo cookie) history session ∧ session.userId = some uid := by
  unfold handle at htrace
  split at htrace
  next => cases (trace_done.mp htrace).2
  next extension hextension =>
    obtain ⟨opening, session, _, hsession, hrest, rfl⟩ := trace_bind_ok.mp htrace
    obtain ⟨connecting, _, _, _, hconnected, rfl⟩ := trace_bind_ok.mp hrest
    obtain ⟨looking, found, _, hlooking, hfound, rfl⟩ := trace_bind_ok.mp hconnected
    obtain ⟨rfl, heq⟩ := trace_done.mp hfound
    cases heq
    cases huser : session.userId with
    | none =>
        unfold Session.getUser at hlooking
        rw [huser] at hlooking
        cases (trace_done.mp hlooking).2
    | some uid => exact ⟨session, uid, .intro _ hextension hsession, huser⟩

/-- The claims of the session cookie in a jar. -/
def jarClaims (history : History Externals.plain) : Option Claims := jarOf history

theorem fixation_run : ((sampleRun oneForm fixationCalls fixationSchedule).map fun config =>
    (jarClaims (own 0 config.log), answeredUser (config.procs 2))) =
      some (some (newClaims "t"), some 1) := by
  decide +kernel

theorem fixation_opened : ∃ config session uid, Interleaved fixationCalls oneForm config ∧
    jarClaims (own 0 config.log) = some (newClaims "t") ∧
      Opened (fixationCalls 2) (own 2 config.log) session ∧ session.userId = some uid := by
  obtain ⟨config, hrun, hresult⟩ := Option.map_eq_some_iff.mp fixation_run
  obtain ⟨hjar, huser⟩ := Prod.mk.injEq .. ▸ hresult
  have hreach := sampleRun_interleaved hrun
  unfold answeredUser at huser
  split at huser
  next found hended =>
    obtain ⟨user, rfl, _⟩ := Option.map_eq_some_iff.mp huser
    have hstart : oneForm.Initial := World.boot_initial _ _ _ _ _ _
    have htrace := (hreach.holds owned_preserved (owned_initial hstart)).2.2.trace hended
    obtain ⟨session, uid, hopened, hsession⟩ := trace_userInfo htrace
    exact ⟨config, session, uid, hreach, hjar, hopened, hsession⟩
  next => cases huser

/-- The cookie of the new session, issued before the login, is answered a user. -/
theorem fixation_upgrades_cookie : ∃ config session uid,
    Interleaved fixationCalls oneForm config ∧
      jarClaims (own 0 config.log) = some (newClaims "t") ∧
        (newClaims "t").authenticated = false ∧ (newClaims "t").sub = none ∧
          fixationCalls 2 = .userInfo (some (newClaims "t")) ∧
            Opened (fixationCalls 2) (own 2 config.log) session ∧ session.userId = some uid := by
  obtain ⟨config, session, uid, hreach, hjar, hopened, huser⟩ := fixation_opened
  exact ⟨config, session, uid, hreach, hjar, rfl, rfl, rfl, hopened, huser⟩

/-- The user the cookie speaks for is the one of the last login to its session. -/
theorem fixation_user_of_row : ∃ config session, Interleaved fixationCalls oneForm config ∧
    Opened (fixationCalls 2) (own 2 config.log) session ∧
      UserOfRow fixationCalls oneForm config.log 2 session := by
  obtain ⟨config, session, _, hreach, _, hopened, _⟩ := fixation_opened
  exact ⟨config, session, hreach, hopened,
    extracted_user_of_row (World.boot_initial _ _ _ _ _ _) hreach hopened⟩

end IdentityRuns

end Authust
