import Authust.Server.Discipline

/-! # Histories of submissions and turns

What a submission and a turn of the completion loop have issued when they end well. Both
take up the current entry first and do not ask for it again.
-/

namespace Authust

open Coop Coop.Task

variable {X : Externals}

/-- The operations that ask for the position of an execution, or change it. -/
def Op.tracks : Op X → Bool
  | .getEntry _ | .completeCurrent _ => true
  | _ => false

/-- The operations that change executions. -/
def Op.touches : Op X → Bool
  | .insertExecution _ | .useMutContext _ _ | .completeCurrent _ => true
  | _ => false

/-- The operations of the session extractor. -/
def Op.opens : Op X → Bool
  | .connection | .prepareCached _ | .querySession _ | .sampleSessionKey | .insertSession _
  | .addCookie _ => true
  | _ => false

/-- The operations of a stage that handles a submission. -/
def Op.handles : Op X → Bool
  | .useMutContext _ _ => true
  | op => op.looks

abbrev Handling {α : Type} (task : Task (sig X) α) : Prop :=
  @Avoids (sig X) α (fun op => op.handles = false) task

abbrev Untouching {α : Type} (task : Task (sig X) α) : Prop :=
  @Avoids (sig X) α (fun op => op.touches = true) task

/-- The operations that show an execution: one that is completed leaves the cache. -/
def Op.shows : Op X → Bool
  | .invalidateExecution _ => true
  | op => !op.writes

abbrev Opening {α : Type} (task : Task (sig X) α) : Prop :=
  @Avoids (sig X) α (fun op => op.opens = false) task

abbrev Showing {α : Type} (task : Task (sig X) α) : Prop :=
  @Avoids (sig X) α (fun op => op.shows = false) task

section Parts

variable {α : Type} {request : Request X} {form : Value} {session : Session} {e : ExecId}

theorem Op.handles_of_looks {op : Op X} (hop : op.looks = true) : op.handles = true := by
  cases op with
  | useMutContext e update => rfl
  | _ => exact hop

theorem Looks.handling {task : Task (sig X) α} (hlooks : Looks task) : Handling task := by
  apply hlooks.mono
  intro op hop
  by_contra hlooking
  rw [Bool.not_eq_false] at hlooking
  rw [Op.handles_of_looks hlooking] at hop
  cases hop

theorem Op.tracks_of_handles {op : Op X} (hop : op.handles = true) : op.tracks = false := by
  cases op with
  | getEntry e => cases hop
  | completeCurrent e => cases hop
  | _ => rfl

theorem ReadOnly.untouching {task : Task (sig X) α} (hreads : ReadOnly task) : Untouching task := by
  apply hreads.mono
  intro op hop
  cases op with
  | insertExecution execution => rfl
  | useMutContext e update => rfl
  | completeCurrent e => rfl
  | _ => cases hop

theorem Opening.untouching {task : Task (sig X) α} (hopening : Opening task) : Untouching task := by
  apply hopening.mono
  intro op hop
  cases op with
  | insertExecution execution => rfl
  | useMutContext e update => rfl
  | completeCurrent e => rfl
  | _ => cases hop

theorem handling_access {op : Op X} (hop : op.handles = true) : Handling (access op).run :=
  ⟨by simp [hop], fun _ => avoids_done⟩

theorem handling_lift {task : Task (sig X) α} (htask : Handling task) :
    Handling (ExceptT.lift task : Handler X α).run := by
  rw [run_lift]
  exact htask.bind fun _ => avoids_done

theorem handling_handlePasswordStage {backends : List PasswordBackend} :
    Handling (handlePasswordStage X form e backends).run := by
  apply avoids_lift_perform_bind rfl
  intro context
  split
  next => exact avoids_done
  next =>
    split
    next => exact avoids_done
    next =>
      split
      next =>
        refine Avoids.run_bind (avoids_perform rfl) fun _ => Avoids.run_bind (avoids_perform rfl) ?_
        intro stored
        cases stored with
        | none => exact avoids_done
        | some stored =>
            simp only
            split
            next => exact avoids_done
            next =>
              apply avoids_lift_perform_bind rfl
              intro result
              split
              next => exact handling_access rfl
              next => exact avoids_done
              next => exact avoids_done
      next => exact avoids_done

theorem handling_handleIdentification {password : Option (DataRef StageQuery)}
    {userFields : List UserField} :
    Handling (handleIdentification X form e password userFields).run := by
  unfold handleIdentification
  split
  next => exact avoids_done
  next =>
    apply Avoids.run_bind looks_lookupUser.handling
    intro found
    cases found with
    | none => exact avoids_done
    | some user =>
        apply avoids_lift_perform_bind rfl
        intro _
        cases password with
        | none => exact avoids_done
        | some reference =>
            apply Avoids.run_bind (handling_lift looks_lookupStage.handling)
            intro stage
            split
            next => exact handling_handlePasswordStage
            next => exact handling_lift looks_panic.handling

theorem handling_handleStage {stage : Stage} : Handling (handleStage X form e stage).run := by
  unfold handleStage
  split
  next => exact avoids_done
  next => exact avoids_done
  next => exact handling_handleIdentification
  next => exact avoids_done
  next => exact avoids_done
  next => exact avoids_done
  next => exact handling_handlePasswordStage
  next => exact avoids_done

theorem opening_setSessionCookie {claims : Claims} :
    Opening (setSessionCookie X claims).run := by
  unfold setSessionCookie
  split
  next => exact avoids_done
  next => exact ⟨by simp [Op.opens], fun _ => avoids_done⟩

theorem opening_makeNewSession : Opening (makeNewSession X).run := by
  refine ⟨by simp [Op.opens], fun key => ?_⟩
  refine Avoids.run_bind (avoids_perform rfl) fun _ =>
    Avoids.run_bind (avoids_perform rfl) fun _ => ?_
  exact Avoids.run_bind opening_setSessionCookie fun _ => avoids_done

theorem opening_fromRequestParts {extension : AuthExtension} :
    Opening (Session.fromRequestParts X extension).run := by
  apply Avoids.run_bind (avoids_perform rfl)
  intro _
  split
  next => exact opening_makeNewSession
  next => exact avoids_done
  next claims _ =>
    refine Avoids.run_bind (avoids_perform rfl) fun _ =>
      Avoids.run_bind (avoids_perform rfl) fun row => ?_
    cases row with
    | some userId => exact avoids_done
    | none => exact opening_makeNewSession

theorem ReadOnly.showing {task : Task (sig X) α} (hreads : ReadOnly task) : Showing task := by
  apply hreads.mono
  intro op hop
  cases op with
  | invalidateExecution key => rfl
  | _ => simpa [Op.shows] using hop

theorem Showing.untouching {task : Task (sig X) α} (hshowing : Showing task) : Untouching task := by
  apply hshowing.mono
  intro op hop
  cases op with
  | insertExecution execution => rfl
  | useMutContext e update => rfl
  | completeCurrent e => rfl
  | _ => cases hop

theorem showing_completedComponent {context : CheckContext} :
    Showing (completedComponent X e context) := by
  unfold completedComponent
  split
  next => exact avoids_perform_bind rfl fun _ => avoids_perform_bind rfl fun _ => avoids_done
  next => exact avoids_done

theorem showing_data {error : Option SubmissionError} {context : CheckContext} :
    Showing (data X e error context) := by
  refine avoids_perform_bind rfl fun flow => avoids_perform_bind rfl fun entry => ?_
  apply Avoids.bind looks_lookupStage.readOnly.showing
  intro stage
  refine avoids_perform_bind rfl fun completed => Avoids.bind readOnly_check.showing
    fun denied => ?_
  split
  next => exact avoids_done
  next =>
    simp only
    split
    next =>
      apply Avoids.bind showing_completedComponent
      intro _
      exact avoids_perform_bind rfl fun _ => avoids_done
    next =>
      apply Avoids.bind readOnly_currentComponent.showing
      intro _
      exact avoids_perform_bind rfl fun _ => avoids_done

/-- Up to its submission a POST leaves the executions alone. -/
theorem Admission.untouching {admitted : History X} {context : CheckContext}
    (hadmission : Admission request admitted form session e context) :
    ∀ event ∈ admitted, event.op.touches = false := by
  cases hadmission with
  | intro _ _ _ hsession _ hfound hcontext hcheck =>
      intro event hmem
      have hopening := opening_fromRequestParts.untouching.path hsession event
      have hfinding := readOnly_getExecution.untouching.path hfound event
      have hconnecting := readOnly_openPost.untouching.path hcontext event
      have hchecking := readOnly_check.untouching.path hcheck event
      rw [Bool.not_eq_true] at hopening hfinding hconnecting hchecking
      simp only [List.mem_append] at hmem
      rcases hmem with ((hmem | hmem) | hmem) | hmem
      · exact hopening hmem
      · exact hfinding hmem
      · exact hconnecting hmem
      · exact hchecking hmem

end Parts

/-- A history shows which entry was taken up. -/
theorem entering_append_inj {e : ExecId} {index index' : Nat} {entry entry' : FlowEntry}
    {stage stage' : Stage} {tail tail' : History X}
    (heq : entering e index entry stage ++ tail = entering e index' entry' stage' ++ tail') :
    index = index' ∧ entry = entry' ∧ stage = stage' ∧ tail = tail' := by
  simp only [entering, stageLookup, List.cons_append, List.nil_append, List.cons.injEq,
    Event.mk.injEq, heq_eq_eq, Prod.mk.injEq, Option.some.injEq, true_and] at heq
  obtain ⟨⟨rfl, rfl⟩, ⟨_, rfl⟩, rfl⟩ := heq
  exact ⟨rfl, rfl, rfl, rfl⟩

section Inversions

variable {α : Type} {request : Request X} {form : Value} {session : Session} {e : ExecId}
  {history : History X}

theorem trace_access_bind {op : Op X} {f : op.Res → Handler X α} {result : Except ApiErrorKind α} :
    Trace (access op >>= f).run history result ↔
      ∃ res tail, history = ⟨op, res⟩ :: tail ∧ Trace (f res).run tail result := by
  rw [run_lift_bind]
  exact trace_perform_bind

theorem trace_lift_bind {β : Type} {task : Task (sig X) β} {f : β → Handler X α}
    {result : Except ApiErrorKind α} : Trace (ExceptT.lift task >>= f).run history result ↔
      ∃ first value second, Trace task first value ∧ Trace (f value).run second result ∧
        history = first ++ second := by
  rw [run_lift_bind]
  exact trace_bind

/-- The common start of a submission and of a turn. -/
theorem trace_entering {f : Nat × FlowEntry → Stage → Handler X α} {g : Handler X α}
    {result : Except ApiErrorKind α} :
    Trace (do
        if ← access (.isCompleted e) then g
        else do
          let entry ← access (.getEntry e)
          let stage ← ExceptT.lift (lookupStage X e entry.2.stage)
          f entry stage : Handler X α).run history result ↔
      (∃ tail, history = ⟨.isCompleted e, true⟩ :: tail ∧ Trace g.run tail result) ∨
      ∃ index entry stage tail, history = entering e index entry stage ++ tail ∧
        Trace (f (index, entry) stage).run tail result := by
  rw [trace_access_bind]
  constructor
  · rintro ⟨completed, tail, rfl, htail⟩
    cases completed with
    | true => exact Or.inl ⟨tail, rfl, htail⟩
    | false =>
        obtain ⟨⟨index, entry⟩, _, rfl, hentered⟩ := trace_access_bind.mp htail
        obtain ⟨lookup, stage, rest, hlookup, hrest, rfl⟩ := trace_lift_bind.mp hentered
        obtain rfl := trace_lookupStage.mp hlookup
        exact Or.inr ⟨index, entry, stage, rest, rfl, hrest⟩
  · rintro (⟨tail, rfl, htail⟩ | ⟨index, entry, stage, tail, rfl, htail⟩)
    · exact ⟨true, tail, rfl, htail⟩
    · refine ⟨false, _, rfl, trace_access_bind.mpr ⟨(index, entry), _, rfl, ?_⟩⟩
      exact trace_lift_bind.mpr ⟨_, stage, tail, trace_lookupStage.mpr rfl, htail, rfl⟩

theorem trace_handleSubmission {result : Except ApiErrorKind Unit} :
    Trace (handleSubmission X form e).run history result ↔
      (history = [⟨.isCompleted e, true⟩] ∧ result = .ok ()) ∨
      ∃ index entry stage tail, history = entering e index entry stage ++ tail ∧
        Trace (handleStage X form e stage).run tail result := by
  unfold handleSubmission
  rw [trace_entering]
  refine or_congr ?_ Iff.rfl
  constructor
  · rintro ⟨tail, rfl, htail⟩
    obtain ⟨rfl, hresult⟩ := trace_done.mp htail
    exact ⟨rfl, hresult⟩
  · rintro ⟨rfl, rfl⟩
    exact ⟨[], rfl, .refl _⟩

theorem trace_lookupUserBy {sql : String} {key : UserKey} {found : Option PartialUser} :
    Trace (lookupUserBy X sql key).run history (.ok found) ↔
      ∃ row, history = [⟨.prepareCached sql, .ok ()⟩, ⟨.queryUser key, .ok row⟩] ∧
        found = row.map UserRow.toPartialUser := by
  unfold lookupUserBy
  rw [trace_bind_ok]
  constructor
  · rintro ⟨_, _, _, hpreparing, hrest, rfl⟩
    obtain ⟨_, row, _, hquerying, hdone, rfl⟩ := trace_bind_ok.mp hrest
    obtain rfl := trace_perform.mp hpreparing
    obtain rfl := trace_perform.mp hquerying
    obtain ⟨rfl, heq⟩ := trace_done.mp hdone
    cases heq
    exact ⟨row, rfl, rfl⟩
  · rintro ⟨row, rfl, rfl⟩
    refine ⟨_, (), _, trace_perform.mpr rfl, ?_, rfl⟩
    exact trace_bind_ok.mpr ⟨_, row, [], trace_perform.mpr rfl, .refl _, rfl⟩

/-- The statements that may look a submitted text up. -/
inductive EnabledKey (X : Externals) (text : String) (useName useEmail useUuid : Bool) :
    UserKey → Prop
  | name (henabled : useName = true) : EnabledKey X text useName useEmail useUuid (.name text)
  | email (henabled : useEmail = true) : EnabledKey X text useName useEmail useUuid (.email text)
  | uuid {uid : Uuid} (henabled : useUuid = true) (hparsed : X.parseUuid text = some uid) :
      EnabledKey X text useName useEmail useUuid (.uid uid)

/-- The user was answered by a statement on that key. -/
def AnsweredBy (history : History X) (key : UserKey) (user : PartialUser) : Prop :=
  ∃ row, ⟨.queryUser key, .ok (some row)⟩ ∈ history ∧ user = row.toPartialUser

theorem answeredBy_of_lookupUserBy {sql : String} {key : UserKey} {user : PartialUser}
    (htrace : Trace (lookupUserBy X sql key).run history (.ok (some user))) :
    AnsweredBy history key user := by
  obtain ⟨row, rfl, hfound⟩ := trace_lookupUserBy.mp htrace
  obtain ⟨row, rfl, rfl⟩ := Option.map_eq_some_iff.mp hfound.symm
  exact ⟨row, by simp, rfl⟩

theorem AnsweredBy.append {key : UserKey} {user : PartialUser} {first second : History X}
    (hanswered : AnsweredBy second key user) : AnsweredBy (first ++ second) key user := by
  obtain ⟨row, hmem, heq⟩ := hanswered
  exact ⟨row, List.mem_append_right _ hmem, heq⟩

theorem AnsweredBy.extend {key : UserKey} {user : PartialUser} {first second : History X}
    (hanswered : AnsweredBy first key user) : AnsweredBy (first ++ second) key user := by
  obtain ⟨row, hmem, heq⟩ := hanswered
  exact ⟨row, List.mem_append_left _ hmem, heq⟩

section Lookups

variable {text : String} {useName useEmail useUuid : Bool} {user : PartialUser}

theorem answeredBy_of_lookupUserByUuid
    (htrace : Trace (lookupUserByUuid X text useUuid).run history (.ok (some user))) :
    ∃ key, EnabledKey X text useName useEmail useUuid key ∧ AnsweredBy history key user := by
  unfold lookupUserByUuid at htrace
  split at htrace
  next henabled =>
    split at htrace
    next uid hparsed => exact ⟨_, .uuid henabled hparsed, answeredBy_of_lookupUserBy htrace⟩
    next => cases (trace_done.mp htrace).2
  next => cases (trace_done.mp htrace).2

theorem answeredBy_of_lookupUserByEmail
    (htrace : Trace (lookupUserByEmail X text useEmail useUuid).run history (.ok (some user))) :
    ∃ key, EnabledKey X text useName useEmail useUuid key ∧ AnsweredBy history key user := by
  unfold lookupUserByEmail at htrace
  split at htrace
  next henabled =>
    obtain ⟨first, found, second, hfirst, hsecond, rfl⟩ := trace_bind_ok.mp htrace
    cases found with
    | some found =>
        obtain ⟨rfl, heq⟩ := trace_done.mp hsecond
        cases heq
        exact ⟨_, .email henabled, (answeredBy_of_lookupUserBy hfirst).extend⟩
    | none =>
        obtain ⟨key, hkey, hanswered⟩ := answeredBy_of_lookupUserByUuid hsecond
        exact ⟨key, hkey, hanswered.append⟩
  next => exact answeredBy_of_lookupUserByUuid htrace

/-- A user that a submitted text identifies was found through an enabled field. -/
theorem answeredBy_of_lookupUser
    (htrace : Trace (lookupUser X text useName useEmail useUuid).run history (.ok (some user))) :
    ∃ key, EnabledKey X text useName useEmail useUuid key ∧ AnsweredBy history key user := by
  unfold lookupUser at htrace
  split at htrace
  next henabled =>
    obtain ⟨first, found, second, hfirst, hsecond, rfl⟩ := trace_bind_ok.mp htrace
    cases found with
    | some found =>
        obtain ⟨rfl, heq⟩ := trace_done.mp hsecond
        cases heq
        exact ⟨_, .name henabled, (answeredBy_of_lookupUserBy hfirst).extend⟩
    | none =>
        obtain ⟨key, hkey, hanswered⟩ := answeredBy_of_lookupUserByEmail hsecond
        exact ⟨key, hkey, hanswered.append⟩
  next => exact answeredBy_of_lookupUserByEmail htrace

end Lookups

/-- What a successful login issues after it has taken up its entry. -/
def loginEvents (e : ExecId) (context : ExecutionContext) (added : Option X.Token)
    (token : X.Token) (user : PendingUser) (session : Session) : History X :=
  [⟨.readContext e, context⟩, ⟨.addedCookie, added⟩, ⟨.addCookie token, ()⟩,
    ⟨.prepareCached "update sessions set user_id = $1 where uid = $2", .ok ()⟩,
    ⟨.updateSession user.uid session.sessionId, .ok ()⟩]

/-- A login issues an update for an authenticated pending user. -/
theorem trace_userLogin {entry : FlowEntry}
    (htrace : Trace (userLogin X request session e entry).run history (.ok .proceed)) :
    ∃ context user added cookie claims token,
      history = loginEvents e context added token user session ∧
        context.pending = some user ∧ user.authenticated = true ∧
          added.or request.cookie = some cookie ∧ X.decodeToken cookie = .ok claims ∧
            X.encodeToken (loginClaims claims user) = .ok token := by
  obtain ⟨context, tail, rfl, htail⟩ := trace_access_bind.mp htrace
  split at htail
  next => cases (trace_done.mp htail).2
  next user hpending =>
    split at htail
    next hauthenticated =>
      obtain ⟨reading, cookie, _, hreading, hread, rfl⟩ := trace_lift_bind.mp htail
      obtain ⟨added, rfl, rfl⟩ := trace_getSessionCookie.mp hreading
      split at hread
      next => cases (trace_done.mp hread).2
      next cookie hcookie =>
        split at hread
        next => cases (trace_done.mp hread).2
        next claims hdecoded =>
          obtain ⟨setting, _, _, hsetting, hset, rfl⟩ := trace_bind_ok.mp hread
          obtain ⟨token, hencoded, rfl⟩ := trace_setSessionCookie.mp hsetting
          obtain ⟨preparing, _, _, hpreparing, hprepared, rfl⟩ := trace_bind_ok.mp hset
          obtain ⟨updating, _, _, hupdating, hupdated, rfl⟩ := trace_bind_ok.mp hprepared
          obtain rfl := trace_perform.mp hpreparing
          obtain rfl := trace_perform.mp hupdating
          obtain ⟨rfl, _⟩ := trace_done.mp hupdated
          exact ⟨context, user, added, cookie, claims, token, rfl, hpending, hauthenticated,
            hcookie, hdecoded, hencoded⟩
    next =>
      obtain ⟨_, _, rfl, hleave⟩ := trace_access_bind.mp htail
      cases (trace_done.mp hleave).2

/-- Only a login lets a turn proceed. -/
theorem trace_completeTurn_proceed {exhausted : Bool}
    (htrace : Trace (completeTurn X request session e exhausted).run history (.ok .proceed)) :
    exhausted = false ∧ ∃ index entry stage tail, stage.kind = .userLogin ∧
      history = entering e index entry stage ++ tail ∧
        Trace (userLogin X request session e entry).run tail (.ok .proceed) := by
  unfold completeTurn at htrace
  rcases trace_entering.mp htrace with ⟨tail, rfl, htail⟩ | ⟨index, entry, stage, tail, rfl, htail⟩
  · cases (trace_done.mp htail).2
  · have hpanic : ∀ message, ¬ Trace (ExceptT.lift (panic message) : Handler X LoopControl).run tail
        (.ok .proceed) := by
      intro message hmessage
      rw [run_lift, trace_bind] at hmessage
      obtain ⟨_, _, _, hnever, _⟩ := hmessage
      exact not_trace_panic hnever
    split at htail
    next => cases (trace_done.mp htail).2
    next =>
      split at htail
      next => cases (trace_done.mp htail).2
      next hexhausted =>
        split at htail
        next hkind => exact ⟨by simpa using hexhausted, index, entry, stage, tail,
          hkind, rfl, htail⟩
        next => exact absurd htail (hpanic _)
        next => exact absurd htail (hpanic _)
        next => exact absurd htail (hpanic _)

/-- The flow is shown with the error that is given, and with the pending user of a context that
has been read, or with none. -/
theorem trace_data_shown {error : Option SubmissionError} {context : CheckContext}
    {shown : FlowData} (htrace : Trace (data X e error context) history shown) :
    shown.error = error ∧ (shown.pendingUser = none ∨ ∃ inner,
      (⟨.readContext e, inner⟩ : Event (sig X)) ∈ history ∧ shown.pendingUser = inner.pending) := by
  obtain ⟨_, _, rfl, hentry⟩ := trace_perform_bind.mp htrace
  obtain ⟨_, _, rfl, hlookup⟩ := trace_perform_bind.mp hentry
  obtain ⟨_, _, _, _, hasked, rfl⟩ := trace_bind.mp hlookup
  obtain ⟨completed, _, rfl, hchecked⟩ := trace_perform_bind.mp hasked
  obtain ⟨_, denied, _, _, hshown, rfl⟩ := trace_bind.mp hchecked
  split at hshown
  next =>
    obtain ⟨_, rfl⟩ := trace_done.mp hshown
    exact ⟨rfl, Or.inl rfl⟩
  next =>
    simp only at hshown
    split at hshown
    all_goals
      obtain ⟨_, _, _, _, hread, rfl⟩ := trace_bind.mp hshown
      obtain ⟨inner, _, rfl, hdone⟩ := trace_perform_bind.mp hread
      obtain ⟨_, rfl⟩ := trace_done.mp hdone
      exact ⟨rfl, Or.inr ⟨inner, by simp, rfl⟩⟩

/-- A request sets the pending user before it touches any execution. -/
theorem Justified.setPending_untouched {call : Call X} {user : PendingUser}
    (hjustified : Justified call history (.useMutContext e (.setPending user))) :
    ∀ event ∈ history, event.op.touches = false := by
  cases hjustified with
  | plain hplain => cases hplain
  | @setPending _ admitted lookup _ _ _ _ index entry stage _ _ _ _ hadmission _ _ hlookup =>
      intro event hmem
      simp only [List.mem_append] at hmem
      rcases hmem with (hmem | hmem) | hmem
      · exact hadmission.untouching event hmem
      · have hentering : ∀ event ∈ (entering e index entry stage : History X),
            event.op.touches = false := by
          simp [entering, stageLookup, Op.touches]
        exact hentering event hmem
      · have huntouched := looks_lookupUser.readOnly.untouching.path hlookup event hmem
        simpa using huntouched

end Inversions

end Authust
