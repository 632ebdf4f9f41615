import Authust.Server.Runs

/-! # What the authenticated flag means

A password check copies the pending user, waits for the database and then marks whoever
is pending. The flag is sound in every run in which the pending user is still the one
whose hash was checked.
-/

namespace Authust

open Coop Coop.Task Coop.Machine

variable {X : Externals}

/-- A POST on the execution `e` submitted a password that verifies against the hash which
the database stored for the user `uid`. -/
inductive PasswordVerified (calls : Nat → Call X) (log : Log X) (e : ExecId) (uid : Uuid) : Prop
  | intro {request : Request X} {form : Value} {session : Session} {password hash : String}
      {row : UserRow} {entry : Logged (sig X) (World X)} (hentry : entry ∈ log)
      (hcall : calls entry.who = .postFlow request) (hform : request.form = some form)
      (hfound : Found (.postFlow request) (own entry.who log) session e)
      (hpassword : strFromField "password" form = .ok password)
      (hqueried : entry.event = ⟨.queryPassword uid, .ok (some row.password)⟩)
      (hrow : row ∈ entry.before.users) (huid : row.uid = uid)
      (hparsed : X.parseHash row.password = .ok hash)
      (hverified : X.verifyPassword hash password = .ok ())

/-- The user whose password a request looked up last. -/
def lastQueried (history : History X) : Option Uuid :=
  history.foldl (fun found event =>
    match event with
    | ⟨.queryPassword uid, _⟩ => some uid
    | _ => found) none

/-- If the operation sets the authenticated flag, the pending user is the one whose password
the request looked up. -/
def keepsPending (past : Log X) (entry : Logged (sig X) (World X)) : Bool :=
  match entry.event.op with
  | .useMutContext e .authenticate =>
      (entry.before.heap[e]?.bind fun execution => execution.context.pending).all fun pending =>
        lastQueried (own entry.who past) = some pending.uid
  | _ => true

abbrev PendingKept (log : Log X) : Prop :=
    Throughout (fun past entry => keepsPending past entry) log

theorem PasswordVerified.mono {calls : Nat → Call X} {log : Log X} {e : ExecId} {uid : Uuid}
    (hverified : PasswordVerified calls log e uid) (more : Log X) :
    PasswordVerified calls (log ++ more) e uid := by
  cases hverified with
  | @intro _ _ _ _ _ _ entry hentry hcall hform hfound hpassword hqueried hrow huid hparsed
      hverified =>
      have hmore := hfound.append (own entry.who more)
      rw [← own_append] at hmore
      exact .intro (List.mem_append_left _ hentry) hcall hform hmore hpassword hqueried hrow huid
        hparsed hverified

theorem lastQueried_passwordCheck {past : History X} {e : ExecId} {context : ExecutionContext}
    {uid : Uuid} {stored hash password : String} :
    lastQueried (past ++ passwordCheck e context uid stored hash password) = some uid := by
  simp [lastQueried, passwordCheck]

section Soundness

variable {calls : Nat → Call X} {log : Log X} {who : Nat}

/-- A successful password check leaves its evidence in the log. -/
theorem passwordVerified_of_check (hexecuted : (server X).Executed log) {request : Request X}
    (hcall : calls who = .postFlow request) {admitted entered middle : History X} {form : Value}
    {session : Session} {e : ExecId} {checked : CheckContext} {context : ExecutionContext}
    {uid : Uuid} {stored hash password : String}
    (hadmission : Admission request admitted form session e checked)
    (hpassword : strFromField "password" form = .ok password)
    (hstored : X.parseHash stored = .ok hash)
    (hown : own who log =
      admitted ++ entered ++ middle ++ passwordCheck e context uid stored hash password) :
    PasswordVerified calls log e uid := by
  have hqueried : ⟨.queryPassword uid, .ok (some stored)⟩ ∈ own who log := by
    simp [hown, passwordCheck]
  have hverified : ⟨.verifyPassword hash password, .ok ()⟩ ∈ own who log := by
    simp [hown, passwordCheck]
  obtain ⟨before, after, hentry, hexec⟩ := executed_of_own hexecuted hqueried
  obtain ⟨_, _, _, hverify⟩ := executed_of_own hexecuted hverified
  obtain ⟨row, hrow, huid, rfl⟩ := exec_queryPassword hexec
  have hfound := hadmission.found (entered ++ middle ++
    passwordCheck e context uid row.password hash password)
  rw [← List.append_assoc, ← List.append_assoc, ← hown] at hfound
  exact .intro hentry hcall hadmission.form_eq hfound hpassword rfl hrow huid hstored
    (exec_verifyPassword hverify)

/-- Every authenticated pending user, in memory or as some request has read it, has a
verified password. -/
structure FlagsJustified (calls : Nat → Call X) (state : World X) (log : Log X) : Prop where
  pending : ∀ e execution pending, state.heap[e]? = some execution →
    execution.context.pending = some pending → pending.authenticated = true →
      PasswordVerified calls log e pending.uid
  read : ∀ entry ∈ log, ∀ e context pending, entry.event = ⟨.readContext e, context⟩ →
    context.pending = some pending → pending.authenticated = true →
      PasswordVerified calls log e pending.uid

theorem flagsJustified_exec {state after : World X} {event : Event (sig X)}
    {next : event.op.Res → Task (sig X) (Except ApiErrorKind Response)}
    (hflags : FlagsJustified calls state log) (hissued : IssuedBy calls log)
    (hpath : Path (handle X (calls who)) (own who log) (@Coop.Task.call (sig X) _ event.op next))
    (hexec : (server X).Exec who state event after)
    (hkept : PendingKept (log ++ [⟨who, state, event⟩])) :
    FlagsJustified calls after (log ++ [⟨who, state, event⟩]) := by
  have hjustified := justified_of_path hpath
  generalize hcall : calls who = call at hjustified
  generalize hown : own who log = history at hjustified
  refine ⟨?_, ?_⟩
  · intro e execution pending hheap hpending hauthenticated
    rcases (exec_step hexec).execution hheap with hheap | rfl | ⟨update, old, rfl, hold, rfl⟩ |
        ⟨old, rfl, hold, rfl⟩
    · exact (hflags.pending e execution pending hheap hpending hauthenticated).mono _
    · cases hjustified with
      | plain hplain => cases hplain
      | insertExecution _ _ _ => cases hpending
    · cases update with
      | setPending user =>
          cases hjustified with
          | plain hplain => cases hplain
          | setPending _ _ _ _ =>
              cases hpending
              cases hauthenticated
      | setError error =>
          exact (hflags.pending e old pending hold hpending hauthenticated).mono _
      | authenticate =>
          obtain ⟨copied, hcopied, rfl⟩ := Option.map_eq_some_iff.mp hpending
          -- the pending user is still the one whose password was queried
          have hsame : lastQueried (own who log) = some copied.uid := by
            simpa [keepsPending, hold, hcopied] using hkept.last
          cases hjustified with
          | plain hplain => cases hplain
          | authenticate middle hadmission _ hpassword hstored =>
              rw [hown, lastQueried_passwordCheck, Option.some.injEq] at hsame
              have hverified := passwordVerified_of_check hissued.executed hcall hadmission
                hpassword hstored hown
              rw [hsame] at hverified
              exact hverified.mono _
    · have hsame : old.completeCurrent.context = old.context := by
        unfold FlowExecution.completeCurrent
        split <;> rfl
      rw [hsame] at hpending
      exact (hflags.pending e old pending hold hpending hauthenticated).mono _
  · intro entry hmem e context pending hevent hpending hauthenticated
    rcases List.mem_append.mp hmem with hmem | hmem
    · exact (hflags.read entry hmem e context pending hevent hpending hauthenticated).mono _
    · obtain rfl := List.mem_singleton.mp hmem
      cases hevent
      obtain ⟨execution, hheap, rfl⟩ := exec_readContext hexec
      exact (hflags.pending e execution pending hheap hpending hauthenticated).mono _

theorem flagsJustified_preserved {start : World X} :
    Preserved desk (fun who => handle X (calls who)) start
      fun state log => PendingKept log → FlagsJustified calls state log where
  exec := by
    intro who state after log event next hinvariant hissued hpath _ hexec hkept
    exact flagsJustified_exec (hinvariant hkept.initial) hissued hpath hexec hkept
  release := by
    intro who state log hinvariant hkept
    exact ⟨(hinvariant hkept).pending, (hinvariant hkept).read⟩
  moves := by
    intro state after log hinvariant hmoves hkept
    refine ⟨?_, (hinvariant hkept).read⟩
    rw [hmoves.heap]
    exact (hinvariant hkept).pending

/-- What a call has read about a pending user it holds authenticated. -/
theorem FlagsJustified.verified_of_own {state : World X} (hflags : FlagsJustified calls state log)
    {e : ExecId} {context : ExecutionContext} {user : PendingUser}
    (hread : ⟨.readContext e, context⟩ ∈ own who log) (hpending : context.pending = some user)
    (hauthenticated : user.authenticated = true) : PasswordVerified calls log e user.uid := by
  obtain ⟨entry, hentry, _, hevent⟩ := mem_own.mp hread
  exact hflags.read entry hentry e context user hevent hpending hauthenticated

end Soundness

/-- Every login that the log shows, by a session update or by a cookie, is of a user with a
verified password on the execution the request works on. -/
structure LoginsVerified (calls : Nat → Call X) (log : Log X) : Prop where
  update : ∀ entry ∈ log, ∀ uid sid, entry.event = ⟨.updateSession uid sid, .ok ()⟩ →
    ∃ session e, Found (calls entry.who) (own entry.who log) session e ∧
      sid = session.sessionId ∧ PasswordVerified calls log e uid
  cookie : ∀ entry ∈ log, ∀ token, entry.event = ⟨.addCookie token, ()⟩ →
    (∃ sid, X.encodeToken (newClaims sid) = .ok token) ∨
    ∃ session e claims user, Found (calls entry.who) (own entry.who log) session e ∧
      X.encodeToken (loginClaims claims user) = .ok token ∧ PasswordVerified calls log e user.uid

/-- A call that signs in a user has found the execution and read its pending user. -/
theorem FlagsJustified.signed_verified {calls : Nat → Call X} {state : World X}
    {first second : Log X} (hflags : FlagsJustified calls state (first ++ second)) {who : Nat}
    {request : Request X} {past turn asked : History X} {session : Session} {e : ExecId}
    (hcompleting : Completing request past session e) {context : ExecutionContext}
    {user : PendingUser} (hown : own who first = past ++ turn ++ ⟨.readContext e, context⟩ :: asked)
    (hpending : context.pending = some user) (hauthenticated : user.authenticated = true) :
    Found (.postFlow request) (own who (first ++ second)) session e ∧
      PasswordVerified calls (first ++ second) e user.uid := by
  constructor
  · rw [own_append, hown, List.append_assoc, List.append_assoc]
    exact hcompleting.found.append _
  · have hread : ⟨.readContext e, context⟩ ∈ own who first := by
      rw [hown]
      simp
    exact hflags.verified_of_own (own_mono hread) hpending hauthenticated

theorem loginsVerified {calls : Nat → Call X} {state : World X} {log : Log X}
    (hflags : FlagsJustified calls state log) (hissued : IssuedBy calls log) :
    LoginsVerified calls log where
  update := by
    rintro entry hmem uid sid hevent
    obtain ⟨first, second, rfl⟩ := List.append_of_mem hmem
    have hjustified := issued_justified hissued
    rw [hevent] at hjustified
    generalize hcall : calls entry.who = call at hjustified
    generalize hown : own entry.who first = history at hjustified
    cases hjustified with
    | plain hplain => cases hplain
    | @updateSession request past session e index taken stage context user added token claims sql
        hcompleting _ hpending hauthenticated _ =>
        obtain ⟨hfound, hverified⟩ :=
          hflags.signed_verified hcompleting hown hpending hauthenticated
        exact ⟨session, e, hfound, rfl, hverified⟩
  cookie := by
    rintro entry hmem token hevent
    obtain ⟨first, second, rfl⟩ := List.append_of_mem hmem
    have hjustified := issued_justified hissued
    rw [hevent] at hjustified
    generalize hcall : calls entry.who = call at hjustified
    generalize hown : own entry.who first = history at hjustified
    cases hjustified with
    | plain hplain => cases hplain
    | newCookie _ hencoded => exact Or.inl ⟨_, hencoded⟩
    | @loginCookie request past session e index taken stage context user added cookie token
        claims hcompleting _ hpending hauthenticated _ _ hencoded =>
        obtain ⟨hfound, hverified⟩ :=
          hflags.signed_verified hcompleting hown hpending hauthenticated
        exact Or.inr ⟨session, e, claims, user, hfound, hencoded, hverified⟩

/-- The authenticated flag is sound in every run in which the pending user is still there
when it is set: a password was verified for the user it marks, and for every user who is
logged in. -/
theorem authenticated_verified {calls : Nat → Call X} {start : World X}
    {config : Config (sig X) (World X) (Except ApiErrorKind Response)} (hstart : start.Initial)
    (hreach : Interleaved calls start config) (hkept : PendingKept config.log) :
    (∀ e execution pending, config.state.heap[e]? = some execution →
      execution.context.pending = some pending → pending.authenticated = true →
        PasswordVerified calls config.log e pending.uid) ∧
      LoginsVerified calls config.log := by
  have hinitial : PendingKept ([] : Log X) → FlagsJustified calls start [] := by
    intro _
    refine ⟨?_, ?_⟩
    · intro e execution pending hheap
      simp [hstart.heap] at hheap
    · intro entry hmem
      cases hmem
  obtain ⟨hinvariant, hissued, _⟩ := hreach.holds flagsJustified_preserved hinitial
  have hflags := hinvariant hkept
  exact ⟨hflags.pending, loginsVerified hflags hissued⟩

section Overtaken

/-- A member logs in with the right password; somebody names the administrator with a wrong
one. -/
def overtakingCalls : Nat → Call Externals.plain
  | 0 => sampleGet
  | 1 => memberLogin
  | _ => samplePost [("uid", "admin"), ("password", "rose")]

/-- The member is served alone. -/
def aloneSchedule : List (Act Choice) := Act.awaits 0 .normal 11 ++ Act.awaits 1 .normal 15

/-- The member's hash has been asked for when the administrator becomes the pending user. -/
def overtakenSchedule : List (Act Choice) :=
  Act.awaits 0 .normal 11 ++ Act.awaits 1 .normal 10 ++ Act.awaits 2 .normal 10 ++
    .answer 1 .normal :: Act.awaits 1 .normal 4

/-- Whether the log asks for the hash of a user. -/
def asksPassword (uid : Uuid) (log : Log X) : Bool :=
  log.any fun entry =>
    match entry.event.op with
    | .queryPassword asked => asked = uid
    | _ => false

theorem asksPassword_of_verified {calls : Nat → Call X} {log : Log X} {e : ExecId} {uid : Uuid}
    (hverified : PasswordVerified calls log e uid) : asksPassword uid log = true := by
  cases hverified with
  | intro hentry _ _ _ _ hqueried _ _ _ _ =>
      refine List.any_eq_true.mpr ⟨_, hentry, ?_⟩
      rw [hqueried]
      simp

def authenticatedUser (w : World X) (e : ExecId) : Option Uuid :=
  ((w.heap[e]?.bind fun execution => execution.context.pending).filter
    PendingUser.authenticated).map PendingUser.uid

theorem authenticatedUser_eq_some {w : World X} {e : ExecId} {uid : Uuid}
    (huser : authenticatedUser w e = some uid) : ∃ execution pending,
      w.heap[e]? = some execution ∧ execution.context.pending = some pending ∧
        pending.authenticated = true ∧ pending.uid = uid := by
  obtain ⟨pending, hfilter, huid⟩ := Option.map_eq_some_iff.mp huser
  obtain ⟨hbind, hauthenticated⟩ := Option.filter_eq_some_iff.mp hfilter
  obtain ⟨execution, hheap, hpending⟩ := Option.bind_eq_some_iff.mp hbind
  exact ⟨execution, pending, hheap, hpending, hauthenticated, huid⟩

theorem aloneSchedule_run : ((sampleRun oneForm overtakingCalls aloneSchedule).map fun config =>
    (authenticatedUser config.state 0, decide (PendingKept config.log))) = some (some 1, true) := by
  decide +kernel

theorem overtakenSchedule_run :
    ((sampleRun oneForm overtakingCalls overtakenSchedule).map fun config =>
    (authenticatedUser config.state 0, asksPassword 2 config.log, config.state.sessions "s")) =
      some (some 2, false, some (some 2)) := by
  decide +kernel

/-- Served alone, the member is authenticated by the member's own password. -/
theorem alone_authenticated_verified : ∃ config, Interleaved overtakingCalls oneForm config ∧
    authenticatedUser config.state 0 = some 1 ∧
      PasswordVerified overtakingCalls config.log 0 1 := by
  obtain ⟨config, hrun, hresult⟩ := Option.map_eq_some_iff.mp aloneSchedule_run
  rw [Prod.mk.injEq, decide_eq_true_eq] at hresult
  obtain ⟨huser, hkept⟩ := hresult
  have hreach := sampleRun_interleaved hrun
  obtain ⟨execution, pending, hheap, hpending, hauthenticated, huid⟩ :=
    authenticatedUser_eq_some huser
  have hverified := (authenticated_verified (World.boot_initial _ _ _ _ _ _) hreach hkept).1 0
    execution pending hheap hpending hauthenticated
  rw [huid] at hverified
  exact ⟨config, hreach, huser, hverified⟩

/-- Overtaken, the member's password authenticates the administrator and logs in. -/
theorem overtaken_authenticated_unverified :
    ∃ config, Interleaved overtakingCalls oneForm config ∧
      authenticatedUser config.state 0 = some 2 ∧ config.state.sessions "s" = some (some 2) ∧
        ¬ PasswordVerified overtakingCalls config.log 0 2 := by
  obtain ⟨config, hrun, hresult⟩ := Option.map_eq_some_iff.mp overtakenSchedule_run
  simp only [Prod.mk.injEq] at hresult
  obtain ⟨huser, hasked, hsession⟩ := hresult
  refine ⟨config, sampleRun_interleaved hrun, huser, hsession, ?_⟩
  intro hverified
  rw [asksPassword_of_verified hverified] at hasked
  cases hasked

end Overtaken

end Authust
