import Authust.Server.Alone

/-! # What a request commits

The updates of a request wait in its transaction until it commits. A request that commits
has advanced its execution by its own submission and then by logins only, all of them for
its own session.
-/

namespace Authust

open Coop Coop.Task Coop.Machine

variable {X : Externals}

namespace SessionTable

variable {sessions : SessionTable} {updates : List (Uuid × String)} {uid : Uuid} {sid : String}

theorem applyUpdates_append (sessions : SessionTable) (first second : List (Uuid × String)) :
    applyUpdates sessions (first ++ second) =
      applyUpdates (applyUpdates sessions first) second := by
  induction first generalizing sessions with
  | nil => rfl
  | cons update rest ih =>
      obtain ⟨uid, sid⟩ := update
      simp only [List.cons_append, applyUpdates]
      split
      all_goals exact ih _

theorem applyUpdates_isSome (sessions : SessionTable) (updates : List (Uuid × String)) :
    (applyUpdates sessions updates sid).isSome = (sessions sid).isSome := by
  induction updates generalizing sessions with
  | nil => rfl
  | cons update rest ih =>
      obtain ⟨uid, other⟩ := update
      cases hrow : sessions other with
      | none => simp only [applyUpdates, hrow, ih]
      | some row =>
          simp only [applyUpdates, hrow, ih]
          by_cases hsame : sid = other
          · subst hsame
            rw [Function.update_self, hrow]
            rfl
          · rw [Function.update_of_ne hsame]

theorem applyUpdates_other (hother : ∀ update ∈ updates, update.2 ≠ sid) :
    applyUpdates sessions updates sid = sessions sid := by
  induction updates generalizing sessions with
  | nil => rfl
  | cons update rest ih =>
      obtain ⟨uid, other⟩ := update
      have hne : sid ≠ other := (hother (uid, other) List.mem_cons_self).symm
      have hrest := fun update hmem => hother update (List.mem_cons_of_mem _ hmem)
      cases hrow : sessions other with
      | none => simp only [applyUpdates, hrow, ih hrest]
      | some row => simp only [applyUpdates, hrow, ih hrest, Function.update_of_ne hne]

/-- A row that names a user goes on naming one. -/
theorem applyUpdates_user (huser : ∃ uid, sessions sid = some (some uid)) :
    ∃ uid, applyUpdates sessions updates sid = some (some uid) := by
  induction updates generalizing sessions with
  | nil => exact huser
  | cons update rest ih =>
      obtain ⟨uid, other⟩ := update
      cases hrow : sessions other with
      | none =>
          simp only [applyUpdates, hrow]
          exact ih huser
      | some row =>
          simp only [applyUpdates, hrow]
          refine ih ?_
          by_cases hsame : sid = other
          · rw [hsame, Function.update_self]
            exact ⟨uid, rfl⟩
          · rw [Function.update_of_ne hsame]
            exact huser

theorem applyUpdates_mem (hmem : (uid, sid) ∈ updates) (hrow : (sessions sid).isSome) :
    ∃ uid, applyUpdates sessions updates sid = some (some uid) := by
  obtain ⟨first, second, rfl⟩ := List.append_of_mem hmem
  rw [← applyUpdates_isSome sessions first] at hrow
  obtain ⟨row, hrow⟩ := Option.isSome_iff_exists.mp hrow
  rw [applyUpdates_append, applyUpdates, hrow]
  simp only
  exact applyUpdates_user ⟨uid, Function.update_self ..⟩

/-- The last update of a row is what it says. -/
theorem applyUpdates_last (hrow : (sessions sid).isSome) :
    applyUpdates sessions (updates ++ [(uid, sid)]) sid = some (some uid) := by
  rw [← applyUpdates_isSome sessions updates] at hrow
  obtain ⟨row, hrow⟩ := Option.isSome_iff_exists.mp hrow
  rw [applyUpdates_append, applyUpdates, hrow]
  simp only [applyUpdates, Function.update_self]

/-- Updates of a single row leave a row alone, unless it is the one they update last. -/
theorem applyUpdates_row {row : String} (hown : ∀ update ∈ updates, update.2 = row) (sid : String) :
    applyUpdates sessions updates sid = sessions sid ∨
      ∃ uid, updates.getLast? = some (uid, sid) := by
  rcases List.eq_nil_or_concat' updates with rfl | ⟨front, last, rfl⟩
  · exact Or.inl rfl
  · by_cases hsame : sid = row
    · have hlast : last.2 = sid := by
        rw [hsame]
        exact hown last (by simp)
      exact Or.inr ⟨last.1, by simp [← hlast]⟩
    · left
      refine applyUpdates_other fun update hmem hother => hsame ?_
      rw [← hother, hown update hmem]

theorem applyUpdates_getLast (hlast : updates.getLast? = some (uid, sid))
    (hrow : (sessions sid).isSome) : applyUpdates sessions updates sid = some (some uid) := by
  obtain ⟨front, rfl⟩ := List.getLast?_eq_some_iff.mp hlast
  exact applyUpdates_last hrow

end SessionTable

/-- The operations on the desk of a request. -/
def Op.signs : Op X → Bool
  | .addCookie _ | .updateSession _ _ | .commit => true
  | _ => false

/-- The operations on the transaction of a request. -/
def Op.enlists : Op X → Bool
  | .updateSession _ _ | .commit => true
  | _ => false

theorem Op.signs_of_writes {op : Op X} (hop : op.writes = false) : op.signs = false := by
  cases op with
  | addCookie token => cases hop
  | updateSession uid sid => cases hop
  | commit => cases hop
  | _ => rfl

theorem Op.signs_of_handles {op : Op X} (hop : op.handles = true) : op.signs = false := by
  cases op with
  | addCookie token => cases hop
  | updateSession uid sid => cases hop
  | commit => cases hop
  | _ => rfl

theorem Op.enlists_of_signs {op : Op X} (hop : op.signs = false) : op.enlists = false := by
  cases op with
  | updateSession uid sid => cases hop
  | commit => cases hop
  | _ => rfl

section Desk

variable {history : History X}

theorem Desk.next_unsigned {event : Event (sig X)} (hevent : event.op.signs = false)
    (desk : Desk X) : desk.next event = desk := by
  obtain ⟨op, res⟩ := event
  cases op with
  | addCookie token => cases hevent
  | updateSession uid sid => cases hevent
  | commit => cases hevent
  | _ => rfl

theorem Desk.next_updates {event : Event (sig X)} (hevent : event.op.enlists = false)
    (desk : Desk X) : (desk.next event).updates = desk.updates := by
  obtain ⟨op, res⟩ := event
  cases op with
  | updateSession uid sid => cases hevent
  | commit => cases hevent
  | _ => rfl

theorem Desk.foldl_unsigned (hunsigned : ∀ event ∈ history, event.op.signs = false)
    (desk : Desk X) : history.foldl Desk.next desk = desk := by
  induction history generalizing desk with
  | nil => rfl
  | cons event rest ih =>
      rw [List.foldl_cons, Desk.next_unsigned (hunsigned event List.mem_cons_self)]
      exact ih (fun other hmem => hunsigned other (List.mem_cons_of_mem _ hmem)) desk

theorem Desk.foldl_updates (hunlisted : ∀ event ∈ history, event.op.enlists = false)
    (desk : Desk X) : (history.foldl Desk.next desk).updates = desk.updates := by
  induction history generalizing desk with
  | nil => rfl
  | cons event rest ih =>
      rw [List.foldl_cons, ih fun other hmem => hunlisted other (List.mem_cons_of_mem _ hmem)]
      exact Desk.next_updates (hunlisted event List.mem_cons_self) desk

/-- The updates of a history without a commit wait in the transaction. -/
theorem Desk.mem_foldl_updates (huncommitted : ∀ event ∈ history, event.op ≠ .commit) {uid : Uuid}
    {sid : String} (hmem : ⟨.updateSession uid sid, .ok ()⟩ ∈ history) (desk : Desk X) :
    (uid, sid) ∈ (history.foldl Desk.next desk).updates := by
  have hstays : ∀ (rest : History X) (desk : Desk X), (∀ event ∈ rest, event.op ≠ .commit) →
      (uid, sid) ∈ desk.updates → (uid, sid) ∈ (rest.foldl Desk.next desk).updates := by
    intro rest desk huncommitted hupdate
    induction rest generalizing desk with
    | nil => exact hupdate
    | cons event rest ih =>
        refine ih _ (fun other hother => huncommitted other (List.mem_cons_of_mem _ hother)) ?_
        obtain ⟨op, res⟩ := event
        cases op with
        | commit => exact absurd rfl (huncommitted _ List.mem_cons_self)
        | updateSession other row =>
            cases res with
            | error kind => exact hupdate
            | ok value => exact List.mem_append_left _ hupdate
        | _ => exact hupdate
  obtain ⟨first, second, rfl⟩ := List.append_of_mem hmem
  rw [List.foldl_append, List.foldl_cons]
  refine hstays second _ (fun event hevent => huncommitted event (by simp [hevent])) ?_
  simp [Desk.next]

/-- If a history updates one row only, so does its transaction. -/
theorem Desk.own_updates {row : String}
    (hown : ∀ event ∈ history, ∀ uid sid, event.op = .updateSession uid sid → sid = row)
    {desk : Desk X} (hdesk : ∀ update ∈ desk.updates, update.2 = row) :
    ∀ update ∈ (history.foldl Desk.next desk).updates, update.2 = row := by
  induction history generalizing desk with
  | nil => exact hdesk
  | cons event rest ih =>
      refine ih (fun other hmem => hown other (List.mem_cons_of_mem _ hmem)) ?_
      by_cases henlists : event.op.enlists = false
      · rw [Desk.next_updates henlists]
        exact hdesk
      · have hfirst := hown event List.mem_cons_self
        obtain ⟨op, res⟩ := event
        cases op with
        | updateSession uid sid =>
            cases res with
            | error kind => exact hdesk
            | ok value =>
                intro update hmem
                rcases List.mem_append.mp hmem with hmem | hmem
                · exact hdesk update hmem
                · rw [List.mem_singleton.mp hmem]
                  exact hfirst uid sid rfl
        | commit =>
            cases res with
            | error kind => exact hdesk
            | ok value => simp [Desk.next]
        | _ => exact absurd rfl henlists

end Desk

section Turns

variable {request : Request X} {session : Session} {e : ExecId} {history : History X}

theorem unsigned_entering {index : Nat} {entry : FlowEntry} {stage : Stage} :
    ∀ event ∈ (entering e index entry stage : History X), event.op.signs = false := by
  simp [entering, stageLookup, Op.signs]

/-- The turns of a completion loop that has ended well. -/
inductive Turns (request : Request X) (session : Session) (e : ExecId) : History X → Prop
  | leave {history : History X} (hunsigned : ∀ event ∈ history, event.op.signs = false) :
      Turns request session e history
  | login {index : Nat} {entry : FlowEntry} {stage : Stage} {context : ExecutionContext}
      {added : Option X.Token} {cookie token : X.Token} {claims : Claims} {user : PendingUser}
      {rest : History X} (hkind : stage.kind = .userLogin) (hpending : context.pending = some user)
      (hauthenticated : user.authenticated = true) (hcookie : added.or request.cookie = some cookie)
      (hdecoded : X.decodeToken cookie = .ok claims)
      (hencoded : X.encodeToken (loginClaims claims user) = .ok token)
      (hrest : Turns request session e rest) :
      Turns request session e (entering e index entry stage ++
        loginEvents e context added token user session ++ ⟨.completeCurrent e, ()⟩ :: rest)

/-- A login that leaves the loop has recorded an error only. -/
theorem unsigned_userLogin_leave {entry : FlowEntry}
    (htrace : Trace (userLogin X request session e entry).run history (.ok .leave)) :
    ∀ event ∈ history, event.op.signs = false := by
  obtain ⟨context, tail, rfl, htail⟩ := trace_access_bind.mp htrace
  split at htail
  next => cases (trace_done.mp htail).2
  next user _ =>
    split at htail
    next =>
      obtain ⟨_, cookie, _, _, hread, rfl⟩ := trace_lift_bind.mp htail
      split at hread
      next => cases (trace_done.mp hread).2
      next =>
        split at hread
        next => cases (trace_done.mp hread).2
        next =>
          obtain ⟨_, _, _, _, hset, rfl⟩ := trace_bind_ok.mp hread
          obtain ⟨_, _, _, _, hprepared, rfl⟩ := trace_bind_ok.mp hset
          obtain ⟨_, _, _, _, hupdated, rfl⟩ := trace_bind_ok.mp hprepared
          cases (trace_done.mp hupdated).2
    next =>
      obtain ⟨_, _, rfl, hleave⟩ := trace_access_bind.mp htail
      obtain ⟨rfl, _⟩ := trace_done.mp hleave
      simp [Op.signs]

theorem unsigned_completeTurn_leave {exhausted : Bool}
    (htrace : Trace (completeTurn X request session e exhausted).run history (.ok .leave)) :
    ∀ event ∈ history, event.op.signs = false := by
  unfold completeTurn at htrace
  rcases trace_entering.mp htrace with ⟨tail, rfl, htail⟩ | ⟨index, entry, stage, tail, rfl, htail⟩
  · obtain ⟨rfl, _⟩ := trace_done.mp htail
    simp [Op.signs]
  · have hpanic : ∀ message, ¬ Trace (ExceptT.lift (panic message) : Handler X LoopControl).run tail
        (.ok .leave) := by
      intro message hmessage
      rw [run_lift, trace_bind] at hmessage
      obtain ⟨_, _, _, hnever, _⟩ := hmessage
      exact not_trace_panic hnever
    have hunsigned : ∀ event ∈ tail, event.op.signs = false := by
      split at htail
      next =>
        obtain ⟨rfl, _⟩ := trace_done.mp htail
        simp
      next =>
        split at htail
        next =>
          obtain ⟨rfl, _⟩ := trace_done.mp htail
          simp
        next =>
          split at htail
          next => exact unsigned_userLogin_leave htail
          next => exact absurd htail (hpanic _)
          next => exact absurd htail (hpanic _)
          next => exact absurd htail (hpanic _)
    intro event hmem
    rcases List.mem_append.mp hmem with hmem | hmem
    · exact unsigned_entering event hmem
    · exact hunsigned event hmem

theorem turns_completeLoop {left : Nat}
    (htrace : Trace (completeLoop X request session e left).run history (.ok ())) :
    Turns request session e history := by
  induction left generalizing history with
  | zero =>
      obtain ⟨first, control, _, hturn, hdone, rfl⟩ := trace_bind_ok.mp htrace
      obtain ⟨rfl, _⟩ := trace_done.mp hdone
      rw [List.append_nil]
      cases control with
      | leave => exact .leave (unsigned_completeTurn_leave hturn)
      | proceed => cases (trace_completeTurn_proceed hturn).1
  | succ left ih =>
      obtain ⟨first, control, second, hturn, hrest, rfl⟩ := trace_bind_ok.mp htrace
      cases control with
      | leave =>
          obtain ⟨rfl, _⟩ := trace_done.mp hrest
          rw [List.append_nil]
          exact .leave (unsigned_completeTurn_leave hturn)
      | proceed =>
          obtain ⟨_, index, entry, stage, tail, hkind, rfl, hlogin⟩ :=
            trace_completeTurn_proceed hturn
          obtain ⟨context, user, added, cookie, claims, token, rfl, hpending, hauthenticated,
            hcookie, hdecoded, hencoded⟩ := trace_userLogin hlogin
          obtain ⟨_, rest, rfl, hloop⟩ := trace_access_bind.mp hrest
          exact .login hkind hpending hauthenticated hcookie hdecoded hencoded (ih hloop)

/-- The loop updates the row of the session it was called for. -/
theorem Turns.own (hturns : Turns request session e history) :
    ∀ event ∈ history, ∀ uid sid, event.op = .updateSession uid sid → sid = session.sessionId := by
  have hfree : ∀ past : History X, (∀ event ∈ past, event.op.signs = false) →
      ∀ event ∈ past, ∀ uid sid, event.op = .updateSession uid sid → sid = session.sessionId := by
    intro past hunsigned event hmem uid sid hop
    have hsigns := hunsigned event hmem
    rw [hop] at hsigns
    cases hsigns
  induction hturns with
  | leave hunsigned => exact hfree _ hunsigned
  | login _ _ _ _ _ _ _ ih =>
      intro event hmem uid sid hop
      simp only [List.mem_append, List.mem_cons] at hmem
      rcases hmem with (hmem | hmem) | rfl | hmem
      · exact hfree _ unsigned_entering event hmem uid sid hop
      · simp only [loginEvents, List.mem_cons, List.not_mem_nil, or_false] at hmem
        rcases hmem with rfl | rfl | rfl | rfl | rfl
        all_goals cases hop
        rfl
      · cases hop
      · exact ih event hmem uid sid hop

/-- The request has logged a user in to its session, and has signed nothing since. -/
inductive SignedIn (request : Request X) (session : Session) (e : ExecId) (user : PendingUser)
    (token : X.Token) : History X → Prop
  | intro {past rest : History X} {index : Nat} {entry : FlowEntry} {stage : Stage}
      {context : ExecutionContext} {added : Option X.Token} {cookie : X.Token} {claims : Claims}
      (hcompleting : Completing request past session e) (hkind : stage.kind = .userLogin)
      (hpending : context.pending = some user) (hauthenticated : user.authenticated = true)
      (hcookie : added.or request.cookie = some cookie)
      (hdecoded : X.decodeToken cookie = .ok claims)
      (hencoded : X.encodeToken (loginClaims claims user) = .ok token)
      (hrest : ∀ event ∈ rest, event.op.signs = false) :
      SignedIn request session e user token (past ++ (entering e index entry stage ++
        loginEvents e context added token user session) ++ rest)

theorem Turns.signedIn (hturns : Turns request session e history) {past : History X}
    (hcompleting : Completing request past session e) :
    (∀ event ∈ history, event.op.signs = false) ∨
      ∃ user token, SignedIn request session e user token (past ++ history) := by
  induction hturns generalizing past with
  | leave hunsigned => exact Or.inl hunsigned
  | @login index entry stage context added cookie token claims user rest hkind hpending
      hauthenticated hcookie hdecoded hencoded _ ih =>
      right
      rw [← List.append_assoc]
      rcases @ih (past ++ (entering e index entry stage ++
          loginEvents e context added token user session) ++ [⟨.completeCurrent e, ()⟩])
          ((hcompleting.append _).append _) with hunsigned | ⟨later, last, hsigned⟩
      · refine ⟨user, token, .intro hcompleting hkind hpending hauthenticated hcookie hdecoded
          hencoded ?_⟩
        intro event hmem
        rcases List.mem_cons.mp hmem with rfl | hmem
        · rfl
        · exact hunsigned event hmem
      · rw [List.append_assoc _ [_] rest] at hsigned
        exact ⟨later, last, hsigned⟩

/-- The transaction and the jar after a login. -/
theorem SignedIn.desk {user : PendingUser} {token : X.Token}
    (hsigned : SignedIn request session e user token history) (desk : Desk X) :
    ∃ updates, history.foldl Desk.next desk =
      ⟨updates ++ [(user.uid, session.sessionId)], some token⟩ := by
  cases hsigned with
  | @intro past rest index entry stage context added _ _ _ _ _ _ _ _ _ hrest =>
      rw [List.foldl_append, Desk.foldl_unsigned hrest, List.foldl_append, List.foldl_append,
        Desk.foldl_unsigned unsigned_entering]
      exact ⟨(past.foldl Desk.next desk).updates, rfl⟩

end Turns

section Committing

variable {request : Request X} {form : Value} {session : Session} {e : ExecId}
  {context : CheckContext} {history : History X}

/-- Once it has its session, a POST leaves its desk alone up to its submission. -/
theorem Admission.unsigned (hadmission : Admission request history form session e context) :
    ∃ extension opening rest, history = opening ++ rest ∧
      handleAuth X request.cookie = .ok extension ∧
        Trace (Session.fromRequestParts X extension).run opening (.ok session) ∧
          ∀ event ∈ rest, event.op.signs = false := by
  cases hadmission with
  | @intro extension _ _ _ _ _ _ opening finding connecting checking hextension _ _
      hsession _ hfound hcontext hcheck =>
      refine ⟨extension, opening, finding ++ connecting ++ checking, by simp,
        hextension, hsession, ?_⟩
      intro event hmem
      have hfinding := readOnly_getExecution.path hfound event
      have hconnecting := readOnly_openPost.path hcontext event
      have hchecking := readOnly_check.path hcheck event
      rw [Bool.not_eq_true] at hfinding hconnecting hchecking
      simp only [List.mem_append] at hmem
      rcases hmem with (hmem | hmem) | hmem
      · exact Op.signs_of_writes (hfinding hmem)
      · exact Op.signs_of_writes (hconnecting hmem)
      · exact Op.signs_of_writes (hchecking hmem)

theorem unsigned_handleSubmission {result : Except ApiErrorKind Unit}
    (htrace : Trace (handleSubmission X form e).run history result) :
    ∀ event ∈ history, event.op.signs = false := by
  rcases trace_handleSubmission.mp htrace with ⟨rfl, _⟩ | ⟨index, entry, stage, tail, rfl, htail⟩
  · simp [Op.signs]
  · intro event hmem
    rcases List.mem_append.mp hmem with hmem | hmem
    · exact unsigned_entering event hmem
    · have hhandles := handling_handleStage.path htail event hmem
      exact Op.signs_of_handles (by simpa using hhandles)

theorem Op.enlists_of_opens {op : Op X} (hop : op.opens = true) : op.enlists = false := by
  cases op with
  | updateSession uid sid => cases hop
  | commit => cases hop
  | _ => rfl

/-- Up to its submission a POST leaves its transaction alone. -/
theorem Admission.unlisted (hadmission : Admission request history form session e context) :
    ∀ event ∈ history, event.op.enlists = false := by
  obtain ⟨extension, opening, rest, rfl, _, hsession, hunsigned⟩ := hadmission.unsigned
  intro event hmem
  rcases List.mem_append.mp hmem with hmem | hmem
  · have hopens := opening_fromRequestParts.path hsession event hmem
    exact Op.enlists_of_opens (by simpa using hopens)
  · exact Op.enlists_of_signs (hunsigned event hmem)

/-- What a request that commits has in its transaction: nothing, or updates of its own row. -/
inductive Committing (call : Call X) (history : History X) : Prop
  | intro {request : Request X} {session : Session} {e : ExecId} (hcall : call = .postFlow request)
      (hfound : Found call history session e)
      (hown : ∀ event ∈ history, ∀ uid sid, event.op = .updateSession uid sid →
        sid = session.sessionId)
      (hlast : (∀ event ∈ history, event.op.enlists = false) ∨
        ∃ user token, SignedIn request session e user token history)

theorem Justified.committing {call : Call X} (hjustified : Justified call history .commit) :
    Committing call history := by
  cases hjustified with
  | plain hplain => cases hplain
  | @commit request admitted handled looped form session e context hadmission hhandled hlooped =>
      have hturns := turns_completeLoop hlooped
      have hcompleting : Completing request (admitted ++ handled ++ [⟨.completeCurrent e, ()⟩])
          session e := .intro [] hadmission hhandled
      have hunlisted : ∀ event ∈ admitted ++ handled ++ [⟨.completeCurrent e, ()⟩],
          event.op.enlists = false := by
        intro event hmem
        simp only [List.mem_append, List.mem_singleton] at hmem
        rcases hmem with (hmem | hmem) | rfl
        · exact hadmission.unlisted event hmem
        · exact Op.enlists_of_signs (unsigned_handleSubmission hhandled event hmem)
        · rfl
      rw [List.append_cons]
      refine .intro rfl (hcompleting.append looped).found ?_ ?_
      · intro event hmem uid sid hop
        rcases List.mem_append.mp hmem with hmem | hmem
        · have henlists := hunlisted event hmem
          rw [hop] at henlists
          cases henlists
        · exact hturns.own event hmem uid sid hop
      · rcases hturns.signedIn hcompleting with hunsigned | hsigned
        · left
          intro event hmem
          rcases List.mem_append.mp hmem with hmem | hmem
          · exact hunlisted event hmem
          · exact Op.enlists_of_signs (hunsigned event hmem)
        · exact Or.inr hsigned

end Committing

end Authust
