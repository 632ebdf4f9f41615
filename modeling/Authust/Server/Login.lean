import Authust.Server.Ownership
import Authust.Server.Origin
import Authust.Server.Endings

/-! # Logins and the sessions table

Served one after another, a request changes at most the row of its own session, and the user
it writes there was identified and has given the right password on the execution of that
session. What it does to executions stays within its session as well.
-/

namespace Authust

open Coop Coop.Task Coop.Machine

variable {X : Externals}

/-- A POST on the execution submits a password that verifies against the stored hash of the
user, who is pending while the hash is asked for. -/
inductive PasswordAccepted (calls : Nat → Call X) (log : Log X) (e : ExecId) (uid : Uuid)
    (entry : Logged (sig X) (World X)) : Prop
  | intro {request : Request X} {form : Value} {session : Session} {password hash : String}
      {row : UserRow} {execution : FlowExecution} {pending : PendingUser}
      (hcall : calls entry.who = .postFlow request) (hform : request.form = some form)
      (hfound : Found (.postFlow request) (own entry.who log) session e)
      (hpassword : strFromField "password" form = .ok password)
      (hqueried : entry.event = ⟨.queryPassword uid, .ok (some row.password)⟩)
      (hrow : row ∈ entry.before.users) (huid : row.uid = uid)
      (hparsed : X.parseHash row.password = .ok hash)
      (hverified : X.verifyPassword hash password = .ok ())
      (hheap : entry.before.heap[e]? = some execution)
      (hpending : execution.context.pending = some pending) (hsame : pending.uid = uid) :
      PasswordAccepted calls log e uid entry

theorem PasswordAccepted.mono {calls : Nat → Call X} {log : Log X} {e : ExecId} {uid : Uuid}
    {entry : Logged (sig X) (World X)} (haccepted : PasswordAccepted calls log e uid entry)
    (more : Log X) : PasswordAccepted calls (log ++ more) e uid entry := by
  cases haccepted with
  | intro hcall hform hfound hpassword hqueried hrow huid hparsed hverified hheap hpending hsame =>
      have hmore := hfound.append (own entry.who more)
      rw [← own_append] at hmore
      exact .intro hcall hform hmore hpassword hqueried hrow huid hparsed hverified hheap hpending
        hsame

/-- The user of the row has been identified on the execution and has given the password, and
nobody else has been pending there since. -/
inductive LoginEvidence (calls : Nat → Call X) (log : Log X) (e : ExecId) (row : UserRow) : Prop
  | intro {past since : Log X} {entry check : Logged (sig X) (World X)}
      (hlog : log = past ++ entry :: since) (hidentified : Identified calls past e row entry)
      (hunreplaced : ∀ later ∈ since, ∀ user, later.event.op ≠ .useMutContext e (.setPending user))
      (hcheck : check ∈ since) (haccepted : PasswordAccepted calls log e row.uid check) :
      LoginEvidence calls log e row

/-- The served call has come to the session. -/
def HasSession (call : Call X) (reply : Reply X) (sid : String) : Prop :=
  ∃ session, Opened call (reply.log.map Logged.event) session ∧ session.sessionId = sid

/-- What a served call does to a row of the sessions table. -/
inductive RowChange (calls : Nat → Call X) (log : Log X) (call : Call X) (reply : Reply X)
    (sid : String) : Prop
  | kept (hsame : reply.after.sessions sid = reply.before.sessions sid) :
      RowChange calls log call reply sid
  | inserted (hfresh : reply.before.sessions sid = none)
      (hinserted : reply.after.sessions sid = some none) : RowChange calls log call reply sid
  | login {request : Request X} {e : ExecId} {row : UserRow} {claims : Claims} {token : X.Token}
      (hcall : call = .postFlow request) (hsession : HasSession call reply sid)
      (hfiled : reply.after.FiledUnder e { session := sid, flow := .slug request.flowSlug })
      (hevidence : LoginEvidence calls log e row)
      (hrow : reply.after.sessions sid = some (some row.uid))
      (hcookie : reply.after.cookies reply.who = some token)
      (hencoded : X.encodeToken { claims with
        sub := some row.uid, authenticated := true, isAdmin := row.administrator } = .ok token) :
      RowChange calls log call reply sid

/-- A served call has one session at most, and leaves the executions of all others alone. -/
structure Isolated (call : Call X) (reply : Reply X) : Prop where
  one : ∀ sid sid', HasSession call reply sid → HasSession call reply sid' → sid = sid'
  executions : ∀ (e : ExecId) (execution : FlowExecution), reply.before.heap[e]? = some execution →
    reply.after.heap[e]? = some execution ∨ HasSession call reply execution.key.session
  cache : ∀ key, reply.after.executions key = reply.before.executions key ∨
    HasSession call reply key.session

section Isolation

variable {call : Call X} {history : History X} {session : Session} {e : ExecId}

theorem Opened.unique {session' : Session} (hopened : Opened call history session)
    (hopened' : Opened call history session') : session = session' := by
  cases hopened with
  | intro rest hextension hsession =>
      generalize hhistory : _ ++ rest = history at hopened'
      cases hopened' with
      | intro rest' hextension' hsession' =>
          rw [hextension] at hextension'
          cases hextension'
          have hvalue := (hsession.unique hsession' hhistory).2
          cases hvalue
          rfl

theorem Justified.found_of_update {update : ContextUpdate}
    (hjustified : Justified call history (.useMutContext e update)) :
    ∃ session, Found call history session e := by
  cases hjustified with
  | plain hplain => cases hplain
  | setPending hadmission _ _ _ =>
      rw [List.append_assoc]
      exact ⟨_, hadmission.found _⟩
  | authenticate _ hadmission _ _ _ =>
      simp only [List.append_assoc]
      exact ⟨_, hadmission.found _⟩
  | setError hcompleting _ _ _ =>
      rw [List.append_assoc]
      exact ⟨_, hcompleting.found.append _⟩

theorem Justified.found_of_complete (hjustified : Justified call history (.completeCurrent e)) :
    ∃ session, Found call history session e := by
  cases hjustified with
  | plain hplain => cases hplain
  | completeSubmission hadmission _ => exact ⟨_, hadmission.found _⟩
  | completeTurn hcompleting _ => exact ⟨_, hcompleting.found.append _⟩

theorem Justified.opened_of_insert {execution : FlowExecution}
    (hjustified : Justified call history (.insertExecution execution)) :
    ∃ session, Opened call history session ∧ execution.key.session = session.sessionId := by
  cases hjustified with
  | plain hplain => cases hplain
  | insertExecution hopened hkey _ =>
      cases hkey
      exact ⟨_, hopened, rfl⟩

theorem Justified.found_of_invalidate {key : FlowKey}
    (hjustified : Justified call history (.invalidateExecution key)) :
    ∃ session e, Found call history session e ∧ ⟨.getKey e, key⟩ ∈ history := by
  cases hjustified with
  | plain hplain => cases hplain
  | invalidateExecution hfound _ hkey => exact ⟨_, _, hfound, hkey⟩

variable {start state : World X} {runs first : List (Call X × Reply X)} {reply : Reply X}
  {past mine tail : Log X} {entry : Logged (sig X) (World X)}

theorem Within.hasSession (hwithin : Within start runs first past mine tail entry call reply)
    (hopened : Opened call (mine.map Logged.event) session) :
    HasSession call reply session.sessionId := by
  refine ⟨session, ?_, rfl⟩
  rw [hwithin.log_eq, List.map_append]
  exact hopened.append _

/-- The execution a call works on is filed under the session of the call. -/
theorem Within.filed (hwithin : Within start runs first past mine tail entry call reply)
    (howned : Owned entry.before past) (hfound : Found call (mine.map Logged.event) session e)
    {execution : FlowExecution} (hheap : entry.before.heap[e]? = some execution) :
    HasSession call reply execution.key.session := by
  have hopened := hfound.opened
  rw [← hwithin.own_eq] at hfound
  obtain ⟨request, _, old, hold, hkey⟩ := howned.filed_of_found hfound
  rw [hheap] at hold
  cases hold
  rw [hkey]
  exact hwithin.hasSession hopened

/-- So is an execution whose key the call has asked for. -/
theorem Within.filed_key (hwithin : Within start runs first past mine tail entry call reply)
    (howned : Owned entry.before past) (hfound : Found call (mine.map Logged.event) session e)
    {key : FlowKey} (hkey : ⟨.getKey e, key⟩ ∈ mine.map Logged.event) :
    HasSession call reply key.session := by
  obtain ⟨_, _, _, _, _, _, hexec, hrest⟩ := hwithin.chain.of_mem hkey
  obtain ⟨old, hold, rfl⟩ := exec_getKey hexec
  obtain ⟨next, hnext, hstep, _⟩ := (exec_step hexec).execution_later hold
  obtain ⟨execution, hheap, hlater⟩ := chain_execution_later hrest hnext
  have hsame : execution.key = old.key := congrArg Plan.key (hstep.trans hlater).plan
  rw [← hsame]
  exact hwithin.filed howned hfound hheap

/-- An execution that a served call changes is of the session of the call. -/
theorem served_executions_isolated (hstart : start.Initial) (hrun : OneByOne start runs state)
    {second : List (Call X × Reply X)} (hruns : runs = first ++ (call, reply) :: second)
    {execution : FlowExecution} (hbefore : reply.before.heap[e]? = some execution) :
    reply.after.heap[e]? = some execution ∨ HasSession call reply execution.key.session := by
  have hserves := (hrun.request hruns).2.2
  have howned := (served_owned hstart hrun).2
  refine hserves.chain.snoc_induction (motive := fun _ state =>
    state.heap[e]? = some execution ∨ HasSession call reply execution.key.session)
    (Or.inl hbefore) ?_
  intro mine now event next tail hreply _ hexec hnow
  rcases hnow with hheap | hsession
  · have hwithin := within_of_reply hrun hruns hreply
    have hfiled := howned _ _ _ (logOf_of_reply hruns hreply)
    have hjustified := hwithin.justified
    rcases (exec_step hexec).execution_stays hheap with hsame | ⟨update, rfl, _⟩ | ⟨rfl, _⟩
    · exact Or.inl hsame
    · obtain ⟨session, hfound⟩ := hjustified.found_of_update
      exact Or.inr (hwithin.filed hfiled hfound hheap)
    · obtain ⟨session, hfound⟩ := hjustified.found_of_complete
      exact Or.inr (hwithin.filed hfiled hfound hheap)
  · exact Or.inr hsession

/-- So is a key whose cached execution it changes. -/
theorem served_cache_isolated (hstart : start.Initial) (hrun : OneByOne start runs state)
    {second : List (Call X × Reply X)} (hruns : runs = first ++ (call, reply) :: second)
    (key : FlowKey) : reply.after.executions key = reply.before.executions key ∨
      HasSession call reply key.session := by
  have hserves := (hrun.request hruns).2.2
  have howned := (served_owned hstart hrun).2
  refine hserves.chain.snoc_induction (motive := fun _ state =>
    state.executions key = reply.before.executions key ∨ HasSession call reply key.session)
    (Or.inl rfl) ?_
  intro mine now event next tail hreply _ hexec hnow
  rcases hnow with hsame | hsession
  · have hwithin := within_of_reply hrun hruns hreply
    have hfiled := howned _ _ _ (logOf_of_reply hruns hreply)
    have hjustified := hwithin.justified
    rcases (exec_step hexec).executions with heq | ⟨execution, rfl, heq⟩ | ⟨other, rfl, heq⟩
    · rw [heq]
      exact Or.inl hsame
    · by_cases hkey : key = execution.key
      · obtain ⟨session, hopened, hsession⟩ := hjustified.opened_of_insert
        rw [hkey, hsession]
        exact Or.inr (hwithin.hasSession hopened)
      · rw [heq, Function.update_of_ne hkey]
        exact Or.inl hsame
    · by_cases hkey : key = other
      · obtain ⟨session, e, hfound, hasked⟩ := hjustified.found_of_invalidate
        rw [hkey]
        exact Or.inr (hwithin.filed_key hfiled hfound hasked)
      · rw [heq, Function.update_of_ne hkey]
        exact Or.inl hsame
  · exact Or.inr hsession

/-- Whatever a served call changes of executions and of the cache is its own session's. -/
theorem served_isolated (hstart : start.Initial) (hrun : OneByOne start runs state)
    {second : List (Call X × Reply X)} (hruns : runs = first ++ (call, reply) :: second) :
    Isolated call reply := by
  refine ⟨?_, fun e execution hbefore => served_executions_isolated hstart hrun hruns hbefore,
    served_cache_isolated hstart hrun hruns⟩
  rintro _ _ ⟨session, hopened, rfl⟩ ⟨session', hopened', rfl⟩
  rw [hopened.unique hopened']

end Isolation

section Evidence

variable {start state : World X} {runs first : List (Call X × Reply X)} {call : Call X}
  {reply : Reply X} {past mine tail log more : Log X} {entry : Logged (sig X) (World X)}
  {e : ExecId} {row : UserRow}

/-- Served alone, whoever marks a user has just checked the password of that user. -/
theorem Within.accepted (hwithin : Within start runs first past mine tail entry call reply)
    (hmarks : Marks e row entry) : ∃ front checks check, past = front ++ checks ∧ check ∈ checks ∧
      (∀ other ∈ checks, other.event.op.touches = false) ∧
        PasswordAccepted (Authust.callAt runs) past e row.uid check := by
  cases hmarks with
  | @intro execution pending hop hheap hpending huid =>
      have hjustified := hwithin.justified
      rw [hop] at hjustified
      generalize hmine : mine.map Logged.event = history at hjustified
      cases hjustified with
      | plain hplain => cases hplain
      | @authenticate request admitted middle form session e checked index taken stage
          context copied stored hash password hadmission hcopied hpassword hstored =>
          obtain ⟨head, checks, before, rfl, _, hchecks, _, hchain⟩ := hwithin.chain.of_append hmine
          have huntouched : ∀ other ∈ checks, other.event.op.touches = false := by
            have hevents : ∀ event ∈ checks.map Logged.event, event.op.touches = false := by
              rw [hchecks]
              simp [passwordCheck, Op.touches]
            exact fun other hmem => hevents _ (List.mem_map_of_mem hmem)
          -- the four operations of the check leave the execution as it is
          obtain ⟨_, first', rfl, hchecks, hread, hchain⟩ := hchain.of_cons hchecks
          obtain ⟨_, second', rfl, hchecks, hprepare, hchain⟩ := hchain.of_cons hchecks
          obtain ⟨_, third', rfl, hchecks, hquery, hchain⟩ := hchain.of_cons hchecks
          obtain ⟨_, fourth', rfl, hchecks, hverify, hchain⟩ := hchain.of_cons hchecks
          obtain rfl := List.map_eq_nil_iff.mp hchecks
          have hlast := (exec_step hverify).heap_eq rfl
          have hthird := (exec_step hquery).heap_eq rfl
          have hsecond := (exec_step hprepare).heap_eq rfl
          have hfirst := (exec_step hread).heap_eq rfl
          cases hchain
          rw [hlast, hthird] at hheap
          have hearlier : before.heap[e]? = some execution := by
            rw [← hfirst, ← hsecond]
            exact hheap
          obtain ⟨found, hfound, rfl⟩ := exec_readContext hread
          rw [hearlier] at hfound
          cases hfound
          rw [hpending] at hcopied
          cases hcopied
          obtain ⟨stored', hrow, hstoreduid, rfl⟩ := exec_queryPassword hquery
          refine ⟨logOf first ++ head, _, ⟨reply.who, second', ⟨.queryPassword pending.uid,
            .ok (some stored'.password)⟩⟩, ?_, ?_, huntouched, ?_⟩
          · rw [hwithin.past_eq, List.append_assoc]
          · simp
          · have hcall : Authust.callAt runs reply.who = .postFlow request := by
              rw [← hwithin.who, hwithin.callAt]
            have hfound : Found (.postFlow request) (own reply.who past) session e := by
              rw [← hwithin.who, hwithin.own_eq, hmine]
              simp only [List.append_assoc]
              exact hadmission.found _
            rw [← huid]
            exact .intro hcall hadmission.form_eq hfound hpassword rfl hrow hstoreduid hstored
              (exec_verifyPassword hverify) hheap hpending rfl

/-- What comes after something else ends in whatever the whole ends in. -/
theorem suffix_of_not_mem {α : Type} {past since front last : List α} {a : α}
    (heq : past ++ a :: since = front ++ last) (hnot : a ∉ last) :
    ∃ rest, since = rest ++ last := by
  rcases List.append_eq_append_iff.mp heq with ⟨middle, rfl, hrest⟩ | ⟨middle, rfl, hrest⟩
  · cases middle with
    | nil =>
        rw [List.nil_append] at hrest
        rw [← hrest] at hnot
        exact absurd List.mem_cons_self hnot
    | cons head middle =>
        simp only [List.cons_append, List.cons.injEq] at hrest
        exact ⟨middle, hrest.2⟩
  · rw [hrest] at hnot
    simp at hnot

theorem LoginEvidence.append {calls : Nat → Call X} (hevidence : LoginEvidence calls log e row)
    (hmore : ∀ later ∈ more, ∀ user, later.event.op ≠ .useMutContext e (.setPending user)) :
    LoginEvidence calls (log ++ more) e row := by
  cases hevidence with
  | @intro past since entry check hlog hidentified hunreplaced hcheck haccepted =>
      refine .intro (by rw [hlog, List.append_assoc, List.cons_append]) hidentified ?_
        (List.mem_append_left _ hcheck) (haccepted.mono more)
      intro later hmem
      rcases List.mem_append.mp hmem with hmem | hmem
      · exact hunreplaced later hmem
      · exact hmore later hmem

/-- Whoever has been marked since he was identified has given the password. -/
theorem LoginEvidence.of_marked {since : Log X} {identified : Logged (sig X) (World X)}
    (hrun : OneByOne start runs state) (hlog : logOf runs = log ++ more)
    (hsplit : log = past ++ identified :: since)
    (hidentified : Identified (callAt runs) past e row identified)
    (hunreplaced : ∀ later ∈ since, ∀ user, later.event.op ≠ .useMutContext e (.setPending user))
    (hmarked : ∃ mark ∈ since, Marks e row mark) : LoginEvidence (callAt runs) log e row := by
  obtain ⟨mark, hmark, hmarks⟩ := hmarked
  obtain ⟨before, after, rfl⟩ := List.append_of_mem hmark
  have hcut : logOf runs = (past ++ identified :: before) ++ mark :: (after ++ more) := by
    rw [hlog, hsplit]
    simp
  obtain ⟨_, call, reply, mine, tail, hwithin⟩ := within_of_log hrun hcut
  obtain ⟨front, checks, check, hpast, hcheck, huntouched, haccepted⟩ := hwithin.accepted hmarks
  -- the check does not reach back to where the user was identified
  have hnot : identified ∉ checks := by
    intro hmem
    have htouches := huntouched identified hmem
    cases hidentified with
    | intro _ _ _ _ _ _ _ _ _ _ _ hevent =>
        rw [hevent] at htouches
        cases htouches
  obtain ⟨rest, rfl⟩ := suffix_of_not_mem hpast hnot
  have hprefix : log = (past ++ identified :: (rest ++ checks)) ++ mark :: after := by
    rw [hsplit]
    simp
  have hevidence := haccepted.mono (mark :: after)
  rw [← hprefix] at hevidence
  refine .intro hsplit hidentified hunreplaced ?_ hevidence
  simp [hcheck]

/-- An authenticated pending user has been identified and has given the password. -/
theorem PendingSince.evidence (hrun : OneByOne start runs state) (hlog : logOf runs = log ++ more)
    {pending : PendingUser} (hsince : PendingSince (callAt runs) log e pending)
    (hauthenticated : pending.authenticated = true) :
    ∃ row, LoginEvidence (callAt runs) log e row ∧ pending.uid = row.uid ∧
      pending.isAdmin = row.administrator := by
  cases hsince with
  | @intro past since identified row hsplit hidentified hunreplaced hpending hmarked =>
      refine ⟨row, .of_marked hrun hlog hsplit hidentified hunreplaced (hmarked hauthenticated),
        ?_, ?_⟩
      · rw [hpending]
        rfl
      · rw [hpending]
        rfl

/-- The user that a committing request has logged in is backed by evidence. -/
theorem SignedIn.evidence (hstart : start.Initial) (hrun : OneByOne start runs state)
    {second : List (Call X × Reply X)} (hruns : runs = first ++ (call, reply) :: second)
    (hreply : reply.log = mine ++ entry :: tail) {request : Request X} {session : Session}
    {user : PendingUser} {token : X.Token}
    (hsigned : SignedIn request session e user token (mine.map Logged.event)) :
    ∃ (row : UserRow) (claims : Claims),
      LoginEvidence (callAt runs) (logOf first ++ reply.log) e row ∧ user.uid = row.uid ∧
        X.encodeToken { claims with
        sub := some row.uid, authenticated := true, isAdmin := row.administrator } = .ok token := by
  generalize hmine : mine.map Logged.event = history at hsigned
  cases hsigned with
  | @intro past rest index taken stage context added cookie claims hcompleting hkind hpending
      hauthenticated _ _ hencoded _ =>
      have hcut : mine.map Logged.event = (past ++ entering e index taken stage) ++
          ⟨.readContext e, context⟩ :: ([⟨.addedCookie, added⟩, ⟨.addCookie token, ()⟩,
            ⟨.prepareCached "update sessions set user_id = $1 where uid = $2", .ok ()⟩,
            ⟨.updateSession user.uid session.sessionId, .ok ()⟩] ++ rest) := by
        rw [hmine]
        simp [loginEvents]
      obtain ⟨head, later, rfl, hhead, hlater⟩ := List.map_eq_append_iff.mp hcut
      obtain ⟨read, after, rfl, hread, _⟩ := List.map_eq_cons_iff.mp hlater
      have hsplit : reply.log = head ++ read :: (after ++ entry :: tail) := by
        rw [hreply]
        simp
      have hlog := logOf_of_reply hruns hsplit
      obtain ⟨state', hexec⟩ := (within_of_reply hrun hruns hsplit).exec
      rw [hread] at hexec
      obtain ⟨execution, hheap, rfl⟩ := exec_readContext hexec
      have hsince := (served_originated hstart hrun).2 _ _ _ hlog e execution user hheap hpending
      obtain ⟨row, hevidence, huid, hadmin⟩ := hsince.evidence hrun hlog hauthenticated
      refine ⟨row, claims, ?_, huid, ?_⟩
      · rw [hsplit, ← List.append_assoc]
        apply hevidence.append
        intro last hmem set hop
        -- the request has completed an entry before
        obtain ⟨front, back, hback⟩ := List.append_of_mem hmem
        have hevents : reply.log.map Logged.event =
            (head ++ front).map Logged.event ++ last.event :: back.map Logged.event := by
          rw [hsplit, hback]
          simp
        have hjustified := served_justified (hrun.request hruns).2.2 hevents
        rw [hop] at hjustified
        have hcompleted : ⟨.completeCurrent e, ()⟩ ∈ (head ++ front).map Logged.event := by
          rw [List.map_append, hhead]
          cases hcompleting with
          | intro middle _ _ => simp
        have htouches := hjustified.setPending_untouched _ hcompleted
        cases htouches
      · rw [loginClaims, huid, hadmin] at hencoded
        exact hencoded

/-- Without a commit a row is only ever inserted. -/
theorem chain_rows {moves : World X → World X → Prop} {who : Nat} {before after : World X}
    (hchain : (machine X moves).Chain who before log after)
    (huncommitted : (⟨.commit, .ok ()⟩ : Event (sig X)) ∉ log.map Logged.event) (sid : String) :
    after.sessions sid = before.sessions sid ∨
      before.sessions sid = none ∧ after.sessions sid = some none := by
  refine hchain.invariant (fun state => state.sessions sid = before.sessions sid ∨
    before.sessions sid = none ∧ state.sessions sid = some none) ?_ (Or.inl rfl)
  rintro now event next ⟨entry, hmem, rfl, _⟩ hexec hnow
  have hother : entry.event ≠ ⟨.commit, .ok ()⟩ :=
    fun hcommit => huncommitted (hcommit ▸ List.mem_map_of_mem hmem)
  rcases (exec_step hexec).row_other hother sid with heq | ⟨hfresh, hcreated⟩
  · rwa [heq]
  · refine Or.inr ⟨?_, hcreated⟩
    rcases hnow with hkept | ⟨hnone, _⟩
    · rw [← hkept, hfresh]
    · exact hnone

/-- Nothing is on the desk of a call that has not been served yet. -/
theorem OneByOne.desk_fresh (hstart : start.Initial) (hrun : OneByOne start runs state) {who : Nat}
    (hfresh : runs.length ≤ who) : state.desk who = ⟨[], none⟩ := by
  have hview : state.desk who = start.desk who := hrun.view_fresh desk hfresh
  rw [hview, hstart.desk]

end Evidence

section Changes

variable {start state : World X} {runs first second : List (Call X × Reply X)} {call : Call X}
  {reply : Reply X} {mine : Log X} {entry : Logged (sig X) (World X)}

/-- What is on the desk of a served call, and the row it finds there. -/
theorem Within.desk_eq (hstart : start.Initial) {past tail : Log X}
    (hwithin : Within start runs first past mine tail entry call reply) :
    entry.before.desk reply.who = (mine.map Logged.event).foldl Desk.next ⟨[], none⟩ := by
  have hview : entry.before.desk reply.who =
      (mine.map Logged.event).foldl Desk.next (reply.before.desk reply.who) :=
    hwithin.chain.view_eq desk
  rw [hview, hwithin.earlier.desk_fresh hstart (Nat.le_of_eq hwithin.number.symm)]

/-- The last operation of a served call ends in the state it leaves. -/
theorem Within.last_step {past : Log X}
    (hwithin : Within start runs first past mine [] entry call reply) :
    Step reply.who entry.before entry.event reply.after := by
  have hchain := hwithin.serves.chain
  rw [hwithin.log_eq] at hchain
  obtain ⟨_, _, last, hexec, hend⟩ := hchain.entry
  cases hend
  exact exec_step hexec

/-- What a commit does to the row of the session of its request. -/
theorem SignedIn.row_change (hstart : start.Initial) (hrun : OneByOne start runs state)
    (hruns : runs = first ++ (call, reply) :: second) (hreply : reply.log = mine ++ [entry])
    (hevent : entry.event = ⟨.commit, .ok ()⟩) {request : Request X} {session : Session}
    {e : ExecId} {user : PendingUser} {token : X.Token} (hcall : call = .postFlow request)
    (hfound : Found call (mine.map Logged.event) session e)
    (hsigned : SignedIn request session e user token (mine.map Logged.event)) :
    RowChange (callAt runs) (logOf first ++ reply.log) call reply session.sessionId := by
  have hwithin := within_of_reply hrun hruns hreply
  have howned := (served_owned hstart hrun).2 _ _ _ (logOf_of_reply hruns hreply)
  obtain ⟨row, claims, hevidence, huid, hencoded⟩ := hsigned.evidence hstart hrun hruns hreply
  obtain ⟨updates, hdesk⟩ := hsigned.desk ⟨[], none⟩
  rw [← hwithin.desk_eq hstart] at hdesk
  have hstep := hwithin.last_step
  rw [hevent] at hstep
  have hlog := hfound
  rw [← hwithin.own_eq] at hlog
  obtain ⟨asked, hasked, hfiled⟩ := howned.filed_of_found hlog
  rw [hcall] at hasked
  cases hasked
  refine .login hcall (hwithin.hasSession hfound.opened) (hfiled.later hstep)
    hevidence ?_ ?_ hencoded
  · have hlisted : entry.before.transactions reply.who =
        updates ++ [(user.uid, session.sessionId)] := congrArg Desk.updates hdesk
    rw [hstep.sessions_commit, hlisted, SessionTable.applyUpdates_last
      (howned.row_of_opened hlog.opened), huid]
  · have hcookie : reply.after.cookies reply.who = (reply.after.desk reply.who).cookie := rfl
    rw [hcookie, hstep.desk_self, hdesk]
    rfl

/-- What a commit does to any row. -/
theorem committed_row_change (hstart : start.Initial) (hrun : OneByOne start runs state)
    (hruns : runs = first ++ (call, reply) :: second) (hreply : reply.log = mine ++ [entry])
    (huncommitted : (⟨.commit, .ok ()⟩ : Event (sig X)) ∉ mine.map Logged.event)
    (hevent : entry.event = ⟨.commit, .ok ()⟩) (sid : String) :
    RowChange (callAt runs) (logOf first ++ reply.log) call reply sid := by
  have hwithin := within_of_reply hrun hruns hreply
  have hrows := chain_rows hwithin.chain huncommitted sid
  have hstep := hwithin.last_step
  rw [hevent] at hstep
  have hother : reply.after.sessions sid = entry.before.sessions sid →
      RowChange (callAt runs) (logOf first ++ reply.log) call reply sid := by
    intro hsame
    rcases hrows with hkept | ⟨hfresh, hinserted⟩
    · exact .kept (hsame.trans hkept)
    · exact .inserted hfresh (hsame.trans hinserted)
  have hlisted : entry.before.transactions reply.who =
      ((mine.map Logged.event).foldl Desk.next ⟨[], none⟩).updates :=
    congrArg Desk.updates (hwithin.desk_eq hstart)
  have hjustified := hwithin.justified
  rw [hevent] at hjustified
  cases hjustified.committing with
  | @intro request session e hcall hfound hown hlast =>
      rcases hlast with hunlisted | ⟨user, token, hsigned⟩
      · apply hother
        rw [hstep.sessions_commit, hlisted, Desk.foldl_updates hunlisted]
        rfl
      · by_cases hsid : sid = session.sessionId
        · rw [hsid]
          exact hsigned.row_change hstart hrun hruns hreply hevent hcall hfound
        · apply hother
          have hempty : ∀ update ∈ (⟨[], none⟩ : Desk X).updates, update.2 = session.sessionId := by
            simp
          have hupdates := Desk.own_updates hown hempty
          rw [hstep.sessions_commit, hlisted]
          refine SessionTable.applyUpdates_other fun update hmem hsame => hsid ?_
          rw [← hsame, hupdates update hmem]

/-- What a served call does to any row. -/
theorem served_row_change (hstart : start.Initial) (hrun : OneByOne start runs state)
    (hruns : runs = first ++ (call, reply) :: second) (sid : String) :
    RowChange (callAt runs) (logOf first ++ reply.log) call reply sid := by
  have hserves := (hrun.request hruns).2.2
  by_cases hcommitted : (⟨.commit, .ok ()⟩ : Event (sig X)) ∈ reply.log.map Logged.event
  · obtain ⟨entry, hmem, hevent⟩ := List.mem_map.mp hcommitted
    obtain ⟨mine, tail, hreply⟩ := List.append_of_mem hmem
    have hjustified := (within_of_reply hrun hruns hreply).justified
    rw [hevent] at hjustified
    obtain ⟨request, rfl⟩ : ∃ request, call = .postFlow request := by
      cases hjustified.committing with
      | intro hcall _ _ _ => exact ⟨_, hcall⟩
    obtain ⟨rest, hpath, _⟩ := hserves.stops
    have hevents : reply.log.map Logged.event =
        mine.map Logged.event ++ entry.event :: tail.map Logged.event := by
      rw [hreply, List.map_append, List.map_cons]
    obtain rfl := List.map_eq_nil_iff.mp (commit_last hpath (by rw [hevent]) hevents)
    refine committed_row_change hstart hrun hruns hreply ?_ hevent sid
    intro hearlier
    obtain ⟨front, back, hback⟩ := List.append_of_mem hearlier
    rw [hback, List.append_assoc, List.cons_append] at hevents
    have hnone := commit_last hpath rfl hevents
    simp at hnone
  · rcases chain_rows hserves.chain hcommitted sid with hkept | ⟨hfresh, hinserted⟩
    · exact .kept hkept
    · exact .inserted hfresh hinserted

/-- Served one after another, a request changes the row of its own session at most, apart from
inserting a fresh one; whom it logs in there has been identified and has given the password on
the execution of that session and flow; and it leaves all other sessions' executions alone. -/
theorem login_sound_isolated (hstart : start.Initial) (hrun : OneByOne start runs state)
    (hruns : runs = first ++ (call, reply) :: second) :
    (∀ sid, RowChange (callAt runs) (logOf first ++ reply.log) call reply sid) ∧
      Isolated call reply :=
  ⟨served_row_change hstart hrun hruns, served_isolated hstart hrun hruns⟩

end Changes

section LoginRun

theorem memberLogin_rows : (sampleServe oneForm [sampleGet, memberLogin]).1.map (fun run =>
    (run.2.before.sessions "s", run.2.after.sessions "s")) =
      [(some none, some none), (some none, some (some 1))] := by
  decide +kernel

/-- The member's login changes the row of the session, on the evidence of the member's name and
password. -/
theorem memberLogin_login_sound : ∃ first call reply,
    (sampleServe oneForm [sampleGet, memberLogin]).1 = first ++ [(call, reply)] ∧
      reply.before.sessions "s" = some none ∧ reply.after.sessions "s" = some (some 1) ∧
        Isolated call reply ∧ ∃ e row, row.uid = 1 ∧
          LoginEvidence (callAt (sampleServe oneForm [sampleGet, memberLogin]).1)
            (logOf first ++ reply.log) e row := by
  obtain ⟨fetched, rest, hruns, _, hrest⟩ := List.map_eq_cons_iff.mp memberLogin_rows
  obtain ⟨⟨call, reply⟩, rfl, hrow⟩ := List.map_eq_singleton_iff.mp hrest
  rw [Prod.mk.injEq] at hrow
  obtain ⟨hbefore, hafter⟩ := hrow
  have hsplit : (sampleServe oneForm [sampleGet, memberLogin]).1 = [fetched] ++ [(call, reply)] :=
    hruns
  obtain ⟨hchange, hisolated⟩ := login_sound_isolated (World.boot_initial _ _ _ _ _ _)
    (sampleServe_oneByOne oneForm [sampleGet, memberLogin]) hsplit
  refine ⟨[fetched], call, reply, hsplit, hbefore, hafter, hisolated, ?_⟩
  cases hchange "s" with
  | kept hsame =>
      rw [hbefore, hafter] at hsame
      cases hsame
  | inserted hfresh _ =>
      rw [hbefore] at hfresh
      cases hfresh
  | @login request e row _ _ _ _ _ hevidence hrow _ _ =>
      refine ⟨e, row, ?_, hevidence⟩
      rw [hafter, Option.some.injEq, Option.some.injEq] at hrow
      exact hrow.symm

end LoginRun

end Authust
