import Authust.Server.Jar
import Authust.Server.Origin
import Authust.Server.Endings

/-! # Administrators

The extractor for administrators takes the user from the sessions table and the flag from
the presented token. The two go together as long as nobody else commits a login to a
session for which an administrator's token is out.
-/

namespace Authust

open Coop Coop.Task Coop.Machine

variable {X : Externals}

def isAdministrator (users : List UserRow) (uid : Uuid) : Bool :=
  users.any fun row => row.uid = uid && row.administrator

def hasCommitted (history : History X) : Bool :=
  history.any fun event =>
    match event with
    | ⟨.commit, .ok _⟩ => true
    | _ => false

/-- The claims of the administrator's cookie that a request has committed and sets in its answer. -/
def adminGranted (log : Log X) (who : Nat) : Option Claims :=
  if hasCommitted (own who log) then
    ((jarOf (own who log)).bind fun token => (X.decodeToken token).toOption).filter Claims.isAdmin
  else none

/-- The users table stays as it is. -/
def UsersFixed (users : List UserRow) (log : Log X) : Prop :=
  ∀ entry ∈ log, entry.before.users = users

instance (users : List UserRow) (log : Log X) : Decidable (UsersFixed users log) :=
  inferInstanceAs (Decidable (∀ entry ∈ log, entry.before.users = users))

/-- If the operation commits, the user whom it lets a row refer to is an administrator, or no
administrator's token has been granted for the session of the row. -/
def keepsAdmins (users : List UserRow) (past : Log X) (entry : Logged (sig X) (World X)) : Bool :=
  match entry.event with
  | ⟨.commit, .ok _⟩ =>
      (entry.before.transactions entry.who).getLast?.all fun update =>
        isAdministrator users update.1 || past.all fun earlier =>
          (adminGranted past earlier.who).all fun claims => claims.sid ≠ update.2
  | _ => true

abbrev AdminsKept (users : List UserRow) (log : Log X) : Prop :=
  Throughout (fun past entry => keepsAdmins users past entry) log

/-- If the extractor for administrators asks for the row of an administrator's token, the token
has been granted. -/
def presentsGranted (calls : Nat → Call X) (past : Log X) (entry : Logged (sig X) (World X)) :
    Bool :=
  match calls entry.who, entry.event.op with
  | .admin (some token), .querySession _ =>
      (X.decodeToken token).toOption.all fun claims =>
        !claims.isAdmin || past.any fun earlier => adminGranted past earlier.who = some claims
  | _, _ => true

abbrev GrantedPresented (calls : Nat → Call X) (log : Log X) : Prop :=
  Throughout (fun past entry => presentsGranted calls past entry) log

theorem hasCommitted_iff {history : History X} :
    hasCommitted history = true ↔ ⟨.commit, .ok ()⟩ ∈ history := by
  constructor
  · intro hcommitted
    obtain ⟨event, hmem, hevent⟩ := List.any_eq_true.mp hcommitted
    split at hevent
    next => exact hmem
    next => cases hevent
  · intro hmem
    exact List.any_eq_true.mpr ⟨_, hmem, rfl⟩

theorem adminGranted_eq_some {log : Log X} {who : Nat} {claims : Claims} :
    adminGranted log who = some claims ↔ ⟨.commit, .ok ()⟩ ∈ own who log ∧
      (∃ token, jarOf (own who log) = some token ∧ X.decodeToken token = .ok claims) ∧
        claims.isAdmin = true := by
  unfold adminGranted
  split
  next hcommitted =>
    rw [Option.filter_eq_some_iff, Option.bind_eq_some_iff]
    have hdecoded : ∀ token, (X.decodeToken token).toOption = some claims ↔
        X.decodeToken token = .ok claims := by
      intro token
      cases X.decodeToken token with
      | error kind => simp [Except.toOption]
      | ok decoded => simp [Except.toOption]
    simp only [hdecoded, hasCommitted_iff.mp hcommitted, true_and]
  next hcommitted =>
    rw [hasCommitted_iff] at hcommitted
    simp [hcommitted]

section Rows

variable {calls : Nat → Call X} {users : List UserRow} {start state after : World X} {log : Log X}
  {who : Nat} {event : Event (sig X)}

/-- What is granted has left a trace in the log. -/
theorem granted_mem {claims : Claims} (hgranted : adminGranted log who = some claims) :
    ∃ entry ∈ log, entry.who = who := by
  obtain ⟨entry, hmem, hwho, _⟩ := mem_own.mp (adminGranted_eq_some.mp hgranted).1
  exact ⟨entry, hmem, hwho⟩

theorem keepsAdmins_commit
    (hkeeps : keepsAdmins users log ⟨who, state, ⟨.commit, .ok ()⟩⟩ = true) {uid : Uuid}
    {sid : String} (hlast : (state.transactions who).getLast? = some (uid, sid)) {other : Nat}
    {claims : Claims} (hgranted : adminGranted log other = some claims)
    (hsid : claims.sid = sid) :
    isAdministrator users uid = true := by
  obtain ⟨entry, hmem, rfl⟩ := granted_mem hgranted
  simp only [keepsAdmins, hlast, Option.all_some, Bool.or_eq_true, List.all_eq_true] at hkeeps
  rcases hkeeps with hadmin | hfree
  · exact hadmin
  · have hne := hfree entry hmem
    simp [hgranted, hsid] at hne

theorem presentsGranted_query {before : World X} {sid : String}
    {user : DbResult (Option (Option Uuid))}
    (hpresents : presentsGranted calls log ⟨who, before, ⟨.querySession sid, user⟩⟩ = true)
    {token : X.Token} {claims : Claims} (hcall : calls who = .admin (some token))
    (hdecoded : X.decodeToken token = .ok claims) (hadmin : claims.isAdmin = true) :
    ∃ issuer, adminGranted log issuer = some claims := by
  simp only [presentsGranted, hcall, hdecoded, Except.toOption, Option.all_some, hadmin,
    Bool.not_true, Bool.false_or, List.any_eq_true, decide_eq_true_eq] at hpresents
  obtain ⟨entry, _, hgranted⟩ := hpresents
  exact ⟨entry.who, hgranted⟩

/-- Every administrator's token that has been granted names a session whose row refers to an
administrator. -/
def AdminRows (users : List UserRow) (state : World X) (log : Log X) : Prop :=
  ∀ who claims, adminGranted log who = some claims → ∃ uid,
    state.sessions claims.sid = some (some uid) ∧ isAdministrator users uid = true

/-- Whoever issues an operation has not committed before. -/
theorem uncommitted_of_path (hissued : IssuedBy calls log)
    {next : event.op.Res → Task (sig X) (Except ApiErrorKind Response)}
    (hpath : Path (handle X (calls who)) (own who log) (@Coop.Task.call (sig X) _ event.op next)) :
    ⟨.commit, .ok ()⟩ ∉ own who log := by
  intro hcommitted
  obtain ⟨_, _, hown⟩ := List.append_of_mem hcommitted
  obtain ⟨past, before, rest, rfl, _⟩ := own_eq_append_cons hown
  cases (issued_justified hissued).committing with
  | intro hcall _ _ _ =>
      have hpost : calls who = _ := hcall
      rw [hpost] at hpath
      exact uncommitted_of_call hpath _ hcommitted rfl

/-- What has been granted stays granted: a commit ends its request. -/
theorem adminGranted_append {more : Log X} (hissued : IssuedBy calls (log ++ more))
    {claims : Claims} (hgranted : adminGranted log who = some claims) :
    adminGranted (log ++ more) who = some claims := by
  have hcommitted := (adminGranted_eq_some.mp hgranted).1
  have hnothing : own who more = [] := by
    apply List.eq_nil_iff_forall_not_mem.mpr
    intro event hmem
    obtain ⟨entry, hentry, rfl, rfl⟩ := mem_own.mp hmem
    obtain ⟨first, second, rfl⟩ := List.append_of_mem hentry
    obtain ⟨⟨next, hpath⟩, _⟩ := hissued (log ++ first) entry second (by simp)
    have hearlier : IssuedBy calls (log ++ first) := by
      rw [← List.append_assoc] at hissued
      exact hissued.initial
    exact uncommitted_of_path hearlier hpath (own_mono hcommitted)
  rw [adminGranted, own_append, hnothing, List.append_nil, ← adminGranted, hgranted]

theorem Step.row_same (hstep : Step who state event after) (hevent : event ≠ ⟨.commit, .ok ()⟩)
    {sid : String} {row : Option Uuid} (hrow : state.sessions sid = some row) :
    after.sessions sid = some row := by
  rcases hstep.row_other hevent sid with heq | ⟨hfresh, _⟩
  · rwa [heq]
  · rw [hfresh] at hrow
    cases hrow

/-- A user who is pending was found as a row. -/
theorem PendingSince.row {e : ExecId} {pending : PendingUser}
    (hsince : PendingSince calls log e pending) : ∃ asked ∈ log, ∃ row ∈ asked.before.users,
      pending.uid = row.uid ∧ pending.isAdmin = row.administrator := by
  cases hsince with
  | @intro past since entry row hlog hidentified _ hpending _ =>
      cases hidentified with
      | intro _ _ _ _ _ _ hasked _ _ hrow _ _ =>
          refine ⟨_, ?_, row, hrow, ?_, ?_⟩
          · rw [hlog]
            exact List.mem_append_left _ hasked
          · rw [hpending]
            rfl
          · rw [hpending]
            rfl

/-- Whom a request has logged in with the flag of an administrator is one. -/
theorem SignedIn.administrator (hexecuted : (server X).Executed log)
    (horiginated : Throughout (fun past entry => Originated calls entry.before past) log)
    (hfixed : UsersFixed users log) {request : Request X} {session : Session} {e : ExecId}
    {user : PendingUser} {token : X.Token}
    (hsigned : SignedIn request session e user token (own who log)) (hadmin : user.isAdmin = true) :
    isAdministrator users user.uid = true := by
  obtain ⟨context, hread, hpending⟩ : ∃ context,
      ⟨.readContext e, context⟩ ∈ own who log ∧ context.pending = some user := by
    generalize own who log = history at hsigned
    cases hsigned with
    | @intro _ _ _ _ _ context _ _ _ _ _ hpending _ _ _ _ _ =>
        exact ⟨context, by simp [loginEvents], hpending⟩
  obtain ⟨before, after, hmem, hexec⟩ := executed_of_own hexecuted hread
  obtain ⟨past, rest, rfl⟩ := List.append_of_mem hmem
  obtain ⟨execution, hheap, rfl⟩ := exec_readContext hexec
  obtain ⟨asked, hasked, row, hrow, huid, hflag⟩ :=
    (horiginated past _ rest rfl e execution user hheap hpending).row
  rw [hfixed asked (List.mem_append_left _ hasked)] at hrow
  refine List.any_eq_true.mpr ⟨row, hrow, ?_⟩
  rw [← hflag, hadmin, huid]
  simp

/-- A jar shows what was put there. -/
theorem jarShown_own (hstart : start.Initial) (hviewed : Viewed desk start log)
    (hexecuted : (server X).Executed log) (who : Nat) : JarShown (own who log) := by
  intro first added second hown
  obtain ⟨past, before, rest, rfl, rfl⟩ := own_eq_append_cons hown
  have hview : before.desk who = (own who past).foldl Desk.next (start.desk who) :=
    hviewed past _ rest rfl
  obtain ⟨middle, hexec⟩ := hexecuted ⟨who, before, ⟨.addedCookie, added⟩⟩ (by simp)
  rw [hstart.desk] at hview
  rw [← exec_addedCookie hexec, jarOf, ← hview]
  rfl

/-- What holds of the log and the state without any condition. -/
abbrev Traced (calls : Nat → Call X) (start state : World X) (log : Log X) : Prop :=
  Owned state log ∧ (Originated calls state log ∧
    Throughout (fun past entry => Originated calls entry.before past) log) ∧ Viewed desk start log

theorem traced_preserved :
    Preserved desk (fun who => handle X (calls who)) start (Traced calls start) :=
  owned_preserved.and (originated_preserved.throughout.and viewed_preserved)

theorem traced_initial (hstart : start.Initial) : Traced calls start start [] :=
  ⟨owned_initial hstart, ⟨originated_initial hstart, throughout_nil⟩, throughout_nil⟩

/-- A commit keeps the rows of all tokens granted before, and what it grants has its row. -/
theorem adminRows_commit (htokens : TokensRoundTrip X) (hstart : start.Initial)
    (htraced : Traced calls start state log) (hissued : IssuedBy calls log)
    (hjustified : Justified (calls who) (own who log) .commit)
    (hview : state.desk who = (own who log).foldl Desk.next (start.desk who))
    (hstep : Step who state ⟨.commit, .ok ()⟩ after) (hfixed : UsersFixed users log)
    (hkeeps : keepsAdmins users log ⟨who, state, ⟨.commit, .ok ()⟩⟩ = true)
    (hrows : AdminRows users state log) :
    AdminRows users after (log ++ [⟨who, state, ⟨.commit, .ok ()⟩⟩]) := by
  obtain ⟨howned, ⟨_, horiginated⟩, hviewed⟩ := htraced
  rw [hstart.desk] at hview
  have hlisted : state.transactions who = ((own who log).foldl Desk.next ⟨[], none⟩).updates :=
    congrArg Desk.updates hview
  intro other claims hgranted
  by_cases hsame : other = who
  · -- the token is granted by this commit
    subst hsame
    obtain ⟨_, ⟨token, hjar, hdecoded⟩, hadmin⟩ := adminGranted_eq_some.mp hgranted
    rw [own_snoc_self, jarOf_append (by simp [Op.fills])] at hjar
    obtain ⟨request, session, e, user, _, hfound, hsid, hflag, hsigned⟩ :=
      hjustified.granting htokens (jarShown_own hstart hviewed hissued.executed _) hjar hdecoded
        hadmin
    obtain ⟨updates, hdesk⟩ := hsigned.desk ⟨[], none⟩
    refine ⟨user.uid, ?_, hsigned.administrator hissued.executed horiginated hfixed hflag⟩
    rw [hstep.sessions_commit, hlisted, hdesk, hsid]
    exact SessionTable.applyUpdates_last (howned.row_of_opened hfound.opened)
  · -- an earlier token
    have hearlier : adminGranted log other = some claims := by
      rw [adminGranted_eq_some, own_snoc_other (Ne.symm hsame)] at hgranted
      exact adminGranted_eq_some.mpr hgranted
    obtain ⟨uid, hrow, hadmin⟩ := hrows other claims hearlier
    cases hjustified.committing with
    | @intro request session e _ _ hown _ =>
        have hupdates : ∀ update ∈ state.transactions who, update.2 = session.sessionId := by
          rw [hlisted]
          exact Desk.own_updates hown (by simp)
        rw [hstep.sessions_commit]
        rcases SessionTable.applyUpdates_row hupdates claims.sid with hkept | ⟨last, hlast⟩
        · exact ⟨uid, hkept.trans hrow, hadmin⟩
        · refine ⟨last, ?_, keepsAdmins_commit hkeeps hlast hearlier rfl⟩
          exact SessionTable.applyUpdates_getLast hlast (by rw [hrow]; rfl)

/-- Any other operation grants nothing and leaves the rows alone. -/
theorem adminRows_other (hissued : IssuedBy calls log)
    {next : event.op.Res → Task (sig X) (Except ApiErrorKind Response)}
    (hpath : Path (handle X (calls who)) (own who log) (@Coop.Task.call (sig X) _ event.op next))
    (hstep : Step who state event after) (hevent : event ≠ ⟨.commit, .ok ()⟩)
    (hrows : AdminRows users state log) : AdminRows users after (log ++ [⟨who, state, event⟩]) := by
  intro other claims hgranted
  rw [adminGranted_eq_some] at hgranted
  by_cases hsame : other = who
  · subst hsame
    obtain ⟨hcommitted, _⟩ := hgranted
    rw [own_snoc_self, List.mem_append, List.mem_singleton] at hcommitted
    rcases hcommitted with hcommitted | hcommitted
    · exact absurd hcommitted (uncommitted_of_path hissued hpath)
    · exact absurd hcommitted.symm hevent
  · rw [own_snoc_other (Ne.symm hsame), ← adminGranted_eq_some] at hgranted
    obtain ⟨uid, hrow, hadmin⟩ := hrows other claims hgranted
    exact ⟨uid, hstep.row_same hevent hrow, hadmin⟩

/-- Under the conditions every granted administrator's token keeps its row. -/
theorem adminRows_preserved (htokens : TokensRoundTrip X) (hstart : start.Initial)
    (users : List UserRow) :
    Preserved desk (fun who => handle X (calls who)) start fun state log =>
      Traced calls start state log ∧ (UsersFixed users log → AdminsKept users log →
        AdminRows users state log) where
  exec := by
    intro who state after log event next hinvariant hissued hpath hview hexec
    obtain ⟨htraced, hrows⟩ := hinvariant
    refine ⟨traced_preserved.exec htraced hissued hpath hview hexec, ?_⟩
    intro hfixed hkept
    have hfixedbefore : UsersFixed users log :=
      fun entry hmem => hfixed entry (List.mem_append_left _ hmem)
    have hbefore := hrows hfixedbefore hkept.initial
    have hstep := exec_step hexec
    by_cases hevent : event = ⟨.commit, .ok ()⟩
    · subst hevent
      exact adminRows_commit htokens hstart htraced hissued (justified_of_path hpath) hview hstep
        hfixedbefore hkept.last hbefore
    · exact adminRows_other hissued hpath hstep hevent hbefore
  release := fun hinvariant => ⟨traced_preserved.release hinvariant.1, hinvariant.2⟩
  moves := by
    intro state after log hinvariant hmoves
    refine ⟨traced_preserved.moves hinvariant.1 hmoves, ?_⟩
    unfold AdminRows
    rw [hmoves.sessions]
    exact hinvariant.2

/-- Whoever is admitted presents an administrator's token, and the row of its session names a
user when the extractor asks for it. -/
theorem trace_admitted {cookie : Option X.Token} {history : History X}
    (htrace : Trace (handle X (.admin cookie)) history (.ok .admitted)) : ∃ token claims uid,
      cookie = some token ∧ X.decodeToken token = .ok claims ∧ claims.isAdmin = true ∧
        ⟨.querySession claims.sid, .ok (some (some uid))⟩ ∈ history := by
  unfold handle at htrace
  split at htrace
  next => cases (trace_done.mp htrace).2
  next extension hextension =>
    obtain ⟨first, _, _, hadmitting, _, rfl⟩ := trace_bind_ok.mp htrace
    obtain ⟨opening, session, _, hsession, hadmitted, rfl⟩ := trace_bind_ok.mp hadmitting
    split at hadmitted
    next hflags =>
      rw [Bool.and_eq_true] at hflags
      cases extracted_fromRequestParts hsession with
      | @presented claims userId sql hclaims heq =>
          subst heq
          obtain ⟨uid, huser⟩ := Option.isSome_iff_exists.mp hflags.1
          simp only at huser
          subst huser
          rw [hclaims] at hextension
          obtain ⟨token, rfl, hdecoded⟩ := decoded_of_handleAuth hextension
          exact ⟨token, claims, uid, rfl, hdecoded, hflags.2, by simp⟩
      | fresh asking _ heq _ =>
          subst heq
          simp at hflags
    next => cases (trace_done.mp hadmitted).2

/-- The extractor has asked for the row of an administrator's session. -/
inductive AdmittedByRow (users : List UserRow) (log : Log X) (who : Nat) (cookie : Option X.Token) :
    Claims → Prop
  | intro {token : X.Token} {claims : Claims} {past rest : Log X} {before : World X} {uid : Uuid}
      (hcookie : cookie = some token) (hdecoded : X.decodeToken token = .ok claims)
      (hlog : log = past ++
      ⟨who, before, ⟨.querySession claims.sid, .ok (some (some uid))⟩⟩ :: rest)
      (hrow : before.sessions claims.sid = some (some uid))
      (hadmin : isAdministrator users uid = true) : AdmittedByRow users log who cookie claims

/-- Under the conditions the extractor admits administrators only: when it asks for the row of the
presented session, the row refers to an administrator, and it still does in every later state. -/
theorem admitted_administrator (htokens : TokensRoundTrip X) (hstart : start.Initial)
    {config : Config (sig X) (World X) (Except ApiErrorKind Response)}
    (hreach : Interleaved calls start config) (hfixed : UsersFixed start.users config.log)
    (hkept : AdminsKept start.users config.log) (hpresented : GrantedPresented calls config.log)
    {cookie : Option X.Token} (hcall : calls who = .admin cookie)
    (hended : config.procs who = .ended (.returned (.ok .admitted))) :
    ∃ claims uid, AdmittedByRow start.users config.log who cookie claims ∧
      config.state.sessions claims.sid = some (some uid) ∧
        isAdministrator start.users uid = true := by
  have hinitial : Traced calls start start [] ∧ (UsersFixed start.users ([] : Log X) →
      AdminsKept start.users ([] : Log X) → AdminRows start.users start []) := by
    refine ⟨traced_initial hstart, fun _ _ who claims hgranted => ?_⟩
    cases hgranted
  obtain ⟨⟨⟨_, hrows⟩, hthroughout⟩, hissued, hlinked⟩ :=
    hreach.holds (adminRows_preserved htokens hstart start.users).throughout
      ⟨hinitial, throughout_nil⟩
  have htrace : Trace (handle X (calls who)) (own who config.log) (.ok .admitted) :=
    hlinked.trace hended
  rw [hcall] at htrace
  obtain ⟨token, claims, uid, rfl, hdecoded, hflag, hqueried⟩ := trace_admitted htrace
  obtain ⟨before, after, hmem, hexec⟩ := executed_of_own hissued.executed hqueried
  obtain ⟨past, rest, hlog⟩ := List.append_of_mem hmem
  have hpast : UsersFixed start.users past := by
    intro entry hentry
    exact hfixed entry (hlog ▸ List.mem_append_left _ hentry)
  have hkeptpast : AdminsKept start.users past := by
    rw [hlog] at hkept
    exact hkept.initial
  obtain ⟨issuer, hgranted⟩ :=
    presentsGranted_query (hpresented past _ rest hlog) hcall hdecoded hflag
  obtain ⟨named, hnamed, hadmin⟩ := (hthroughout past _ rest hlog).2 hpast hkeptpast issuer claims
    hgranted
  have hrow := exec_querySession hexec
  have hsame : named = uid := by
    have hboth := hnamed.symm.trans hrow
    simpa using hboth
  subst hsame
  have hstill : adminGranted config.log issuer = some claims := by
    rw [hlog] at hissued ⊢
    exact adminGranted_append hissued hgranted
  obtain ⟨last, hlast, hlastadmin⟩ := hrows hfixed hkept issuer claims hstill
  exact ⟨claims, last, .intro rfl hdecoded hlog hrow hadmin, hlast, hlastadmin⟩

end Rows

section AdminRuns

def presenting (cookie : Option Claims) (next : Option String) (form : List (String × String)) :
    Request Externals.plain :=
  { sampleRequest form with cookie := cookie, next := next }

/-- The claims of the administrator's token for the session. -/
def adminClaims (sid : String) : Claims :=
  { sid := sid, iss := "authust", sub := some 2, authenticated := true, isAdmin := true }

/-- A session is created and the administrator logs in to it; then the member logs in to the same
session, on a second execution. The administrator's token is presented last. -/
def sharedSessionCalls : Nat → Call Externals.plain
  | 0 => .getFlow (presenting none none [])
  | 1 => .postFlow
      (presenting (some (newClaims "t")) none [("uid", "admin"), ("password", "orchid")])
  | 2 => .getFlow (presenting (some (newClaims "t")) (some "/") [])
  | 3 => .getFlow (presenting (some (newClaims "t")) none [])
  | 4 => .postFlow
      (presenting (some (newClaims "t")) none [("uid", "member"), ("password", "tulip")])
  | _ => .admin (some (adminClaims "t"))

def adminLoginSchedule : List (Act Choice) :=
  Act.awaits 0 (.key "t") 11 ++ Act.awaits 1 .normal 15

/-- Only the administrator logs in. -/
def ownSessionSchedule : List (Act Choice) := adminLoginSchedule ++ Act.awaits 5 .normal 3

def sharedSessionSchedule : List (Act Choice) :=
  adminLoginSchedule ++ Act.awaits 2 .normal 7 ++ Act.awaits 3 .normal 13 ++
    Act.awaits 4 .normal 17 ++ Act.awaits 5 .normal 3

def Proc.isAdmitted (proc : Proc (sig X) (Except ApiErrorKind Response)) : Bool :=
  match proc with
  | .ended (.returned (.ok .admitted)) => true
  | _ => false

theorem eq_of_isAdmitted {proc : Proc (sig X) (Except ApiErrorKind Response)}
    (hadmitted : Proc.isAdmitted proc = true) : proc = .ended (.returned (.ok .admitted)) := by
  unfold Proc.isAdmitted at hadmitted
  split at hadmitted
  next => rfl
  next => cases hadmitted

theorem ownSession_run :
    ((sampleRun oneForm sharedSessionCalls ownSessionSchedule).map fun config =>
    (decide (UsersFixed oneForm.users config.log), decide (AdminsKept oneForm.users config.log),
      decide (GrantedPresented sharedSessionCalls config.log),
      Proc.isAdmitted (config.procs 5))) = some (true, true, true, true) := by
  decide +kernel

theorem sharedSession_run :
    ((sampleRun oneForm sharedSessionCalls sharedSessionSchedule).map fun config =>
      (decide (UsersFixed oneForm.users config.log),
        decide (adminGranted config.log 1 = some (adminClaims "t")),
        Proc.isAdmitted (config.procs 5),
        decide ((config.log.getLast?.map fun entry => (entry.who, entry.before.sessions "t")) =
          some (5, some (some 1))))) = some (true, true, true, true) := by
  decide +kernel

/-- In a session of its own the administrator is admitted as such. -/
theorem ownSession_admitted_administrator : ∃ config,
    Interleaved sharedSessionCalls oneForm config ∧ ∃ claims uid,
      AdmittedByRow oneForm.users config.log 5 (some (adminClaims "t")) claims ∧
        config.state.sessions claims.sid = some (some uid) ∧
          isAdministrator oneForm.users uid = true := by
  obtain ⟨config, hrun, hresult⟩ := Option.map_eq_some_iff.mp ownSession_run
  simp only [Prod.mk.injEq, decide_eq_true_eq] at hresult
  obtain ⟨hfixed, hkept, hpresented, hadmitted⟩ := hresult
  have hreach := sampleRun_interleaved hrun
  exact ⟨config, hreach, admitted_administrator tokensRoundTrip_plain
    (World.boot_initial _ _ _ _ _ _) hreach hfixed hkept hpresented rfl
      (eq_of_isAdmitted hadmitted)⟩

/-- After the member's login the administrator's old token is still admitted, although the row of
its session refers to the member. -/
theorem sharedSession_admitted_member : ∃ config, Interleaved sharedSessionCalls oneForm config ∧
    UsersFixed oneForm.users config.log ∧ adminGranted config.log 1 = some (adminClaims "t") ∧
      sharedSessionCalls 5 = .admin (some (adminClaims "t")) ∧
        config.procs 5 = .ended (.returned (.ok .admitted)) ∧
          (config.log.getLast?.map fun entry => (entry.who, entry.before.sessions "t")) =
              some (5, some (some 1)) ∧
            isAdministrator oneForm.users 1 = false := by
  obtain ⟨config, hrun, hresult⟩ := Option.map_eq_some_iff.mp sharedSession_run
  simp only [Prod.mk.injEq, decide_eq_true_eq] at hresult
  obtain ⟨hfixed, hgranted, hadmitted, hlast⟩ := hresult
  exact ⟨config, sampleRun_interleaved hrun, hfixed, hgranted, rfl, eq_of_isAdmitted hadmitted,
    hlast, by decide +kernel⟩

end AdminRuns

end Authust
