import Authust.Server.Ownership

/-! # The cookie jar of a request

The session cookie that a request reads for its jar is that of its own session. What a
request that commits leaves in its jar carries the flag of the user it has logged in last.
-/

namespace Authust

open Coop Coop.Task Coop.Machine

variable {X : Externals}

/-- The session cookie that a history leaves in the jar. -/
def jarOf (history : History X) : Option X.Token := (history.foldl Desk.next ⟨[], none⟩).cookie

/-- The operations on the jar of a request. -/
def Op.fills : Op X → Bool
  | .addCookie _ => true
  | _ => false

/-- Whenever a history asks for the jar, it is shown what it has put there. -/
def JarShown (history : History X) : Prop :=
  ∀ first added second, history = first ++ ⟨.addedCookie, added⟩ :: second → added = jarOf first

/-- The session cookie that a request reads for its jar is that of its session. -/
def NamesSession (request : Request X) (session : Session) (history : History X) : Prop :=
  ∀ cookie claims, (jarOf history).or request.cookie = some cookie →
    X.decodeToken cookie = .ok claims → claims.sid = session.sessionId

/-- A token is accepted of the issuer alone that `VALIDATION` asks for, and what has been encoded
for this issuer is decoded again. -/
structure TokensRoundTrip (X : Externals) : Prop where
  issuer : ∀ {token claims}, X.decodeToken token = .ok claims → claims.iss = "authust"
  decode : ∀ {claims token}, claims.iss = "authust" → X.encodeToken claims = .ok token →
    X.decodeToken token = .ok claims

/-- With the key of the server nothing fails to be encoded. -/
def EncodesTokens (X : Externals) : Prop :=
  ∀ claims, claims.iss = "authust" → ∃ token, X.encodeToken claims = .ok token

theorem TokensRoundTrip.newClaims {sid : String} {token : X.Token} (htokens : TokensRoundTrip X)
    (hencoded : X.encodeToken (newClaims sid) = .ok token) :
    X.decodeToken token = .ok (newClaims sid) :=
  htokens.decode rfl hencoded

/-- A login keeps the issuer of the token that it rewrites. -/
theorem TokensRoundTrip.loginClaims {claims : Claims} {user : PendingUser} {cookie token : X.Token}
    (htokens : TokensRoundTrip X) (hdecoded : X.decodeToken cookie = .ok claims)
    (hencoded : X.encodeToken (loginClaims claims user) = .ok token) :
    X.decodeToken token = .ok (loginClaims claims user) := by
  have hissuer : claims.iss = "authust" := htokens.issuer hdecoded
  exact htokens.decode hissuer hencoded

theorem tokensRoundTrip_plain : TokensRoundTrip Externals.plain where
  issuer := by
    intro token claims hdecoded
    simp only [Externals.plain] at hdecoded
    split at hdecoded
    next hissuer =>
      cases hdecoded
      exact hissuer
    next => cases hdecoded
  decode := by
    intro claims token hissuer hencoded
    cases hencoded
    exact if_pos hissuer

theorem encodesTokens_plain : EncodesTokens Externals.plain := fun claims _ => ⟨claims, rfl⟩

theorem Op.fills_of_signs {op : Op X} (hop : op.signs = false) : op.fills = false := by
  cases op with
  | addCookie token => cases hop
  | _ => rfl

section Jar

variable {first second history : History X} {request : Request X} {session : Session}
  {token : X.Token}

theorem Desk.foldl_cookie (hunfilled : ∀ event ∈ history, event.op.fills = false) (desk : Desk X) :
    (history.foldl Desk.next desk).cookie = desk.cookie := by
  induction history generalizing desk with
  | nil => rfl
  | cons event rest ih =>
      rw [List.foldl_cons, ih fun other hmem => hunfilled other (List.mem_cons_of_mem _ hmem)]
      have hfirst := hunfilled event List.mem_cons_self
      obtain ⟨op, res⟩ := event
      cases op with
      | addCookie token => cases hfirst
      | updateSession uid sid => cases res <;> rfl
      | commit => cases res <;> rfl
      | _ => rfl

theorem jarOf_append (hunfilled : ∀ event ∈ second, event.op.fills = false) :
    jarOf (first ++ second) = jarOf first := by
  rw [jarOf, List.foldl_append, Desk.foldl_cookie hunfilled]
  rfl

/-- The last cookie that is added stays in the jar. -/
theorem jarOf_addCookie (hunfilled : ∀ event ∈ second, event.op.fills = false) :
    jarOf (first ++ ⟨.addCookie token, ()⟩ :: second) = some token := by
  rw [List.append_cons, jarOf_append hunfilled, jarOf, List.foldl_append]
  rfl

theorem NamesSession.append (hnames : NamesSession request session first)
    (hunfilled : ∀ event ∈ second, event.op.fills = false) :
    NamesSession request session (first ++ second) := by
  intro cookie claims hcookie
  rw [jarOf_append hunfilled] at hcookie
  exact hnames cookie claims hcookie

/-- A cookie of the session names it from then on. -/
theorem namesSession_addCookie {claims : Claims} (htoken : X.decodeToken token = .ok claims)
    (hsid : claims.sid = session.sessionId)
    (hunfilled : ∀ event ∈ second, event.op.fills = false) :
    NamesSession request session (first ++ ⟨.addCookie token, ()⟩ :: second) := by
  intro cookie decoded hcookie hdecoded
  rw [jarOf_addCookie hunfilled, Option.some_or, Option.some.injEq] at hcookie
  rw [← hcookie, htoken, Except.ok.injEq] at hdecoded
  rw [← hdecoded, hsid]

end Jar

section Admission

variable {request : Request X} {form : Value} {session : Session} {e : ExecId}
  {context : CheckContext} {history : History X} {extension : AuthExtension}

theorem missing_of_handleAuth {cookie : Option X.Token}
    (hextension : handleAuth X cookie = .ok .missingCookie) : cookie = none := by
  cases cookie with
  | none => rfl
  | some token =>
      simp only [handleAuth] at hextension
      cases hdecode : X.decodeToken token <;> rw [hdecode] at hextension <;> cases hextension

/-- The token that a session was extracted from. -/
theorem decoded_of_handleAuth {cookie : Option X.Token} {claims : Claims}
    (hextension : handleAuth X cookie = .ok (.valid claims)) :
    ∃ token, cookie = some token ∧ X.decodeToken token = .ok claims := by
  cases cookie with
  | none => cases hextension
  | some token =>
      simp only [handleAuth] at hextension
      cases hdecode : X.decodeToken token with
      | error kind =>
          rw [hdecode] at hextension
          cases hextension
      | ok decoded =>
          rw [hdecode] at hextension
          cases hextension
          exact ⟨token, rfl, hdecode⟩

/-- What the extractor leaves in the jar: nothing, or the cookie of a new session. -/
theorem Extracted.jar_cases (hextracted : Extracted extension session history) :
    (∃ claims, extension = .valid claims ∧ jarOf history = none) ∨
      ∃ sid token, X.encodeToken (newClaims sid) = .ok token ∧ jarOf history = some token := by
  cases hextracted with
  | @presented claims userId sql hclaims _ => exact Or.inl ⟨claims, hclaims, rfl⟩
  | @fresh asking sid sql token _ _ hencoded =>
      have hadded : jarOf ((asking ++ [⟨.sampleSessionKey, sid⟩, ⟨.prepareCached sql, .ok ()⟩,
          ⟨.insertSession sid, .ok ()⟩]) ++ ⟨.addCookie token, ()⟩ :: []) = some token :=
        jarOf_addCookie (by simp)
      rw [List.append_assoc] at hadded
      exact Or.inr ⟨sid, token, hencoded, hadded⟩

theorem Extracted.names (htokens : TokensRoundTrip X)
    (hextension : handleAuth X request.cookie = .ok extension)
    (hextracted : Extracted extension session history) : NamesSession request session history := by
  cases hextracted with
  | @presented claims userId sql hclaims hsession =>
      intro cookie decoded hcookie hdecoded
      rw [hclaims] at hextension
      obtain ⟨token, hpresented, htoken⟩ := decoded_of_handleAuth hextension
      have hsame : some token = some cookie := hpresented.symm.trans hcookie
      rw [← Option.some.inj hsame, htoken, Except.ok.injEq] at hdecoded
      rw [← hdecoded, hsession]
  | @fresh asking sid sql token _ hsession hencoded =>
      have hnames : NamesSession request session ((asking ++ [⟨.sampleSessionKey, sid⟩,
          ⟨.prepareCached sql, .ok ()⟩, ⟨.insertSession sid, .ok ()⟩]) ++
            ⟨.addCookie token, ()⟩ :: []) :=
        namesSession_addCookie (htokens.newClaims hencoded) (by rw [hsession]; rfl) (by simp)
      simpa using hnames

/-- The cookie of a new session is no administrator's. -/
theorem Extracted.unprivileged (htokens : TokensRoundTrip X)
    (hextracted : Extracted extension session history) {token : X.Token} {claims : Claims}
    (hjar : jarOf history = some token) (hdecoded : X.decodeToken token = .ok claims) :
    claims.isAdmin = false := by
  rcases hextracted.jar_cases with ⟨_, _, hnone⟩ | ⟨sid, added, hencoded, hadded⟩
  · rw [hnone] at hjar
    cases hjar
  · rw [hadded, Option.some.injEq] at hjar
    rw [← hjar, htokens.newClaims hencoded, Except.ok.injEq] at hdecoded
    rw [← hdecoded]
    rfl

/-- After its session is extracted an admitted POST leaves its jar alone. -/
theorem Admission.extracted (hadmission : Admission request history form session e context) :
    ∃ extension opening rest, history = opening ++ rest ∧
      handleAuth X request.cookie = .ok extension ∧ Extracted extension session opening ∧
        ∀ event ∈ rest, event.op.fills = false := by
  obtain ⟨extension, opening, rest, rfl, hextension, hsession, hunsigned⟩ := hadmission.unsigned
  exact ⟨extension, opening, rest, rfl, hextension, extracted_fromRequestParts hsession,
    fun event hmem => Op.fills_of_signs (hunsigned event hmem)⟩

end Admission

section Granting

variable {request : Request X} {session : Session} {e : ExecId} {history : History X}

/-- Through every login of the loop the cookie stays that of the session. -/
theorem Turns.names (htokens : TokensRoundTrip X) (hturns : Turns request session e history)
    {past : History X} (hnames : NamesSession request session past)
    (hshown : JarShown (past ++ history)) : NamesSession request session (past ++ history) := by
  induction hturns generalizing past with
  | leave hunsigned =>
      exact hnames.append fun event hmem => Op.fills_of_signs (hunsigned event hmem)
  | @login index entry stage context added cookie token claims user rest _ _ _ hcookie hdecoded
      hencoded _ ih =>
      have hread : NamesSession request session
          (past ++ entering e index entry stage ++ [⟨.readContext e, context⟩]) :=
        (hnames.append fun event hmem =>
          Op.fills_of_signs (unsigned_entering event hmem)).append (by simp [Op.fills])
      -- the login rewrites the cookie it has read
      have hadded : added =
          jarOf (past ++ entering e index entry stage ++ [⟨.readContext e, context⟩]) := by
        refine hshown _ added ([⟨.addCookie token, ()⟩,
          ⟨.prepareCached "update sessions set user_id = $1 where uid = $2", .ok ()⟩,
          ⟨.updateSession user.uid session.sessionId, .ok ()⟩] ++
            ⟨.completeCurrent e, ()⟩ :: rest) ?_
        simp [loginEvents]
      rw [hadded] at hcookie
      have hsid : (loginClaims claims user).sid = session.sessionId :=
        hread cookie claims hcookie hdecoded
      have hlater : NamesSession request session ((past ++ entering e index entry stage ++
          [⟨.readContext e, context⟩, ⟨.addedCookie, added⟩]) ++ ⟨.addCookie token, ()⟩ ::
            [⟨.prepareCached "update sessions set user_id = $1 where uid = $2", .ok ()⟩,
              ⟨.updateSession user.uid session.sessionId, .ok ()⟩, ⟨.completeCurrent e, ()⟩]) :=
        namesSession_addCookie (htokens.loginClaims hdecoded hencoded) hsid (by simp [Op.fills])
      have hwhole : past ++ (entering e index entry stage ++
          loginEvents e context added token user session ++ ⟨.completeCurrent e, ()⟩ :: rest) =
          ((past ++ entering e index entry stage ++
            [⟨.readContext e, context⟩, ⟨.addedCookie, added⟩]) ++ ⟨.addCookie token, ()⟩ ::
            [⟨.prepareCached "update sessions set user_id = $1 where uid = $2", .ok ()⟩,
              ⟨.updateSession user.uid session.sessionId, .ok ()⟩, ⟨.completeCurrent e, ()⟩]) ++
            rest := by
        simp [loginEvents]
      rw [hwhole] at hshown ⊢
      exact ih hlater hshown

theorem SignedIn.jar {user : PendingUser} {token : X.Token}
    (hsigned : SignedIn request session e user token history) : jarOf history = some token := by
  obtain ⟨updates, hdesk⟩ := hsigned.desk ⟨[], none⟩
  rw [jarOf, hdesk]

/-- The token of a login carries the flag of its user. -/
theorem SignedIn.flag (htokens : TokensRoundTrip X) {user : PendingUser} {token : X.Token}
    (hsigned : SignedIn request session e user token history) {claims : Claims}
    (hdecoded : X.decodeToken token = .ok claims) : claims.isAdmin = user.isAdmin := by
  cases hsigned with
  | intro _ _ _ _ _ hread hencoded _ =>
      rw [htokens.loginClaims hread hencoded, Except.ok.injEq] at hdecoded
      rw [← hdecoded]
      rfl

/-- A request that commits with an administrator's token in its jar has logged an administrator
in to the session that the token names. -/
theorem Justified.granting (htokens : TokensRoundTrip X) {call : Call X}
    (hjustified : Justified call history .commit) (hshown : JarShown history) {token : X.Token}
    {claims : Claims} (hjar : jarOf history = some token)
    (hdecoded : X.decodeToken token = .ok claims)
    (hadmin : claims.isAdmin = true) : ∃ request session e user, call = .postFlow request ∧
      Found call history session e ∧ claims.sid = session.sessionId ∧ user.isAdmin = true ∧
        SignedIn request session e user token history := by
  cases hjustified with
  | plain hplain => cases hplain
  | @commit request admitted handled looped form session e context hadmission hhandled hlooped =>
      have hturns := turns_completeLoop hlooped
      have hcompleting : Completing request (admitted ++ handled ++ [⟨.completeCurrent e, ()⟩])
          session e := .intro [] hadmission hhandled
      obtain ⟨extension, opening, rest, hopening, hextension, hextracted, hrest⟩ :=
        hadmission.extracted
      have hbefore : admitted ++ handled ++ [⟨.completeCurrent e, ()⟩] =
          opening ++ (rest ++ handled ++ [⟨.completeCurrent e, ()⟩]) := by
        simp [hopening]
      have hunfilled : ∀ event ∈ rest ++ handled ++ [(⟨.completeCurrent e, ()⟩ : Event (sig X))],
          event.op.fills = false := by
        intro event hmem
        simp only [List.mem_append, List.mem_singleton] at hmem
        rcases hmem with (hmem | hmem) | rfl
        · exact hrest event hmem
        · exact Op.fills_of_signs (unsigned_handleSubmission hhandled event hmem)
        · rfl
      rw [List.append_cons] at hshown hjar ⊢
      -- without a login the jar still holds the cookie of the session extractor
      rcases hturns.signedIn hcompleting with hunsigned | ⟨user, last, hsigned⟩
      · rw [jarOf_append fun event hmem => Op.fills_of_signs (hunsigned event hmem), hbefore,
          jarOf_append hunfilled] at hjar
        rw [hextracted.unprivileged htokens hjar hdecoded] at hadmin
        cases hadmin
      · have hsame : last = token := by
          rw [hsigned.jar, Option.some.injEq] at hjar
          exact hjar
        rw [hsame] at hsigned
        have hnames : NamesSession request session
            (admitted ++ handled ++ [⟨.completeCurrent e, ()⟩] ++ looped) := by
          refine hturns.names htokens ?_ hshown
          rw [hbefore]
          exact (hextracted.names htokens hextension).append hunfilled
        refine ⟨request, session, e, user, rfl, (hcompleting.append looped).found,
          hnames token claims ?_ hdecoded, ?_, hsigned⟩
        · rw [hjar, Option.some_or]
        · rw [← hsigned.flag htokens hdecoded]
          exact hadmin

end Granting

end Authust
