import Mathlib.Algebra.Order.Ring.Nat
import Mathlib.Data.List.Basic

/-! # CSRF tokens

The layer that compares the `X-CSRF-Token` header with the `csrf-token` cookie. A token is
either the secret itself or a mask followed by the masked secret. `none` is a panic.
-/

namespace Authust

def alphanumericChars : List Char :=
  ['a', 'b', 'c', 'd', 'e', 'f', 'g', 'h', 'i', 'j', 'k', 'l', 'm', 'n', 'o', 'p', 'q', 'r', 's',
   't', 'u', 'v', 'w', 'x', 'y', 'z', 'A', 'B', 'C', 'D', 'E', 'F', 'G', 'H', 'I', 'J', 'K', 'L',
   'M', 'N', 'O', 'P', 'Q', 'R', 'S', 'T', 'U', 'V', 'W', 'X', 'Y', 'Z', '0', '1', '2', '3', '4',
   '5', '6', '7', '8', '9']

def alphanumericRange : Nat := alphanumericChars.length

def csrfSecretLength : Nat := 32

def csrfTokenLength : Nat := csrfSecretLength * 2

def csrfCookieName : String := "csrf-token"

def usizeModulus : Nat := 2 ^ 64

/-- `usize::overflowing_sub`. -/
def overflowingSub (x y : Nat) : Nat × Bool :=
  ((x + (usizeModulus - y)) % usizeModulus, decide (x < y))

def overflowingSubChars (x y : Nat) : Nat :=
  let (value, overflowed) := overflowingSub x y
  if overflowed then alphanumericRange - 1 - (usizeModulus - 1 - value)
  else value

/-- The position in the alphabet; `none` is the panic of `expect`. -/
def alphanumericPosition (c : Char) : Option Nat := alphanumericChars.idxOf? c

/-- The zipped iterators of `mask_op`: a character is converted before the mask is asked
for its next one. -/
def maskOp (mask chars : List Char) (add : Bool) : Option (List Char) :=
  match chars, mask with
  | [], _ => some []
  | c :: _, [] => (alphanumericPosition c).map fun _ => []
  | c :: chars, m :: mask => do
      let x ← alphanumericPosition c
      let y ← alphanumericPosition m
      let out ← alphanumericChars[
        if add then (x + y) % alphanumericRange else overflowingSubChars x y]?
      let rest ← maskOp mask chars add
      some (out :: rest)

/-- `&text[..bytes]` and `&text[bytes..]`; `none` where the index is no boundary. -/
def splitAtByte : Nat → List Char → Option (List Char × List Char)
  | 0, chars => some ([], chars)
  | _ + 1, [] => none
  | bytes + 1, c :: chars =>
      if c.utf8Size ≤ bytes + 1 then
        (splitAtByte (bytes + 1 - c.utf8Size) chars).map fun (first, second) => (c :: first, second)
      else none
  termination_by structural _ chars => chars

def unmaskCsrf (token : List Char) : Option (List Char) := do
  let (mask, token) ← splitAtByte csrfSecretLength token
  maskOp mask token false

/-- `mask_csrf` for the mask that `generate_csrf` drew. -/
def maskCsrf (mask secret : List Char) : Option (List Char) := do
  let out ← maskOp mask secret true
  some (mask ++ out)

/-- `str::len`. -/
def byteLength (chars : List Char) : Nat := (chars.map Char.utf8Size).sum

def validateToken (requestToken secret : List Char) : Option Bool :=
  if byteLength requestToken = csrfTokenLength then do
    let token ← unmaskCsrf requestToken
    some (token = secret)
  else some (requestToken = secret)

inductive Method : Type
  | get
  | head
  | options
  | trace
  | post
  | put
  | delete
  | connect
  | patch
  | extension (name : String)
  deriving DecidableEq

/-- `GET | HEAD | OPTIONS | TRACE`. -/
def Method.isSafe : Method → Bool
  | get | head | options | trace => true
  | _ => false

inductive UriScheme : Type
  | http
  | https
  | other (text : String)
  deriving DecidableEq

abbrev HeaderValue := List UInt8

def isVisibleAscii (byte : UInt8) : Bool := 32 ≤ byte && byte < 127 || byte = 9

/-- `HeaderValue::to_str`. -/
def HeaderValue.toStr (value : HeaderValue) : Option (List Char) :=
  if value.all isVisibleAscii then some (value.map fun byte => Char.ofNat byte.toNat) else none

/-- What the layer reads of a request. -/
structure CsrfRequest where
  method : Method
  scheme : Option UriScheme
  headers : List (String × HeaderValue)
  /-- The jar of the cookie layer. -/
  cookies : List (String × List Char)

structure CsrfResponse where
  status : Nat
  body : String
  deriving DecidableEq

inductive CsrfCookieError : Type
  | missingCookie
  | invalidHeader
  | validationError
  deriving DecidableEq

namespace CsrfRequest

def header (request : CsrfRequest) (name : String) : Option HeaderValue :=
  request.headers.lookup name

def cookie (request : CsrfRequest) : Option (List Char) :=
  request.cookies.lookup csrfCookieName

end CsrfRequest

def csrfErrorResponse : CsrfResponse := ⟨403, "CSRF Error"⟩

def isSecure (scheme : Option UriScheme) : Bool :=
  match scheme with
  | some scheme => scheme = .https
  | none => false

/-- `check_cookie` with what it adds to the jar; `generated` is what `generate_csrf` draws. -/
def checkCookie (request : CsrfRequest) (add : Bool) (generated : List Char) :
    Option (Except CsrfCookieError Unit × List (String × List Char)) :=
  match request.cookie with
  | none =>
      some (.error .missingCookie,
        if add then (csrfCookieName, generated) :: request.cookies else request.cookies)
  | some cookie =>
      match request.header "x-csrf-token" with
      | none => some (.error .invalidHeader, request.cookies)
      | some header =>
          match header.toStr with
          | none => some (.error .invalidHeader, request.cookies)
          | some text => do
              if ← validateToken text cookie then some (.ok (), request.cookies)
              else some (.error .validationError, request.cookies)

/-- The end of both branches of `check_csrf`: only a failed validation declines. -/
def cookieVerdict (request : CsrfRequest) (generated : List Char) :
    Option (Except CsrfResponse Unit × List (String × List Char)) :=
  (checkCookie request true generated).map fun (result, cookies) =>
    if result = .error .validationError then (.error csrfErrorResponse, cookies)
    else (.ok (), cookies)

/-- The origin a request to this host would have, `scheme://host`. -/
def ownOrigin (scheme : Option UriScheme) (host : List Char) : List Char :=
  (if isSecure scheme then "https" else "http").toList ++ "://".toList ++ host

/-- The tests of `check_csrf` before the cookie: the `Host` header and the origin. -/
def checkOrigin (request : CsrfRequest) (allowedHostsWildcard : Bool)
    (allowedHosts : List (List Char)) : Except CsrfResponse Unit :=
  match request.header "host" with
  | none => .error ⟨400, "Misssing host header"⟩
  | some header =>
      match header.toStr with
      | none => .error ⟨400, "Invalid Host header"⟩
      | some host =>
          match request.header "origin" with
          | none => .ok ()
          | some origin =>
              match origin.toStr with
              | none => .error ⟨400, ""⟩
              | some origin =>
                  let host := ownOrigin request.scheme host
                  if host = origin || allowedHostsWildcard || allowedHosts.contains host then
                    .ok ()
                  else .error csrfErrorResponse

/-- `check_csrf`. -/
def checkCsrf (request : CsrfRequest) (allowedHostsWildcard : Bool)
    (allowedHosts : List (List Char)) (generated : List Char) :
    Option (Except CsrfResponse Unit × List (String × List Char)) :=
  if request.method.isSafe then cookieVerdict request generated
  else
    match checkOrigin request allowedHostsWildcard allowedHosts with
    | .error response => some (.error response, request.cookies)
    | .ok () => cookieVerdict request generated

structure CsrfEndpoint where
  allowedHosts : List (List Char)
  allowedHostsWildcard : Bool

/-- `CsrfLayer::layer`. -/
def CsrfEndpoint.layer (allowedHosts : List (List Char)) : CsrfEndpoint where
  allowedHosts := allowedHosts
  allowedHostsWildcard := allowedHosts.contains ['*']

/-- `CsrfEndpoint::call`: whether the inner service is called. -/
def CsrfEndpoint.accepts (endpoint : CsrfEndpoint) (request : CsrfRequest)
    (generated : List Char) : Bool :=
  match checkCsrf request endpoint.allowedHostsWildcard endpoint.allowedHosts generated with
  | some (.ok (), _) => true
  | _ => false

section Enforcement

variable {request : CsrfRequest} {endpoint : CsrfEndpoint} {generated : List Char}

/-- The request carries a token that validates against its cookie. -/
def CsrfRequest.Validates (request : CsrfRequest) : Prop :=
  ∃ cookie header text, request.cookie = some cookie ∧
    request.header "x-csrf-token" = some header ∧ header.toStr = some text ∧
      validateToken text cookie = some true

/-- The request carries a CSRF cookie and a readable token header. -/
def CsrfRequest.CarriesToken (request : CsrfRequest) : Prop :=
  ∃ cookie header text, request.cookie = some cookie ∧
    request.header "x-csrf-token" = some header ∧ header.toStr = some text

/-- The `Host` header is missing or unreadable, or the origin is unreadable or foreign. -/
def CsrfRequest.OriginRefused (request : CsrfRequest) (endpoint : CsrfEndpoint) : Prop :=
  (request.header "host").bind HeaderValue.toStr = none ∨
    ∃ host origin, (request.header "host").bind HeaderValue.toStr = some host ∧
      request.header "origin" = some origin ∧
        ∀ text, origin.toStr = some text →
          text ≠ ownOrigin request.scheme host ∧ endpoint.allowedHostsWildcard = false ∧
            ownOrigin request.scheme host ∉ endpoint.allowedHosts

theorem checkOrigin_ok_iff :
    checkOrigin request endpoint.allowedHostsWildcard endpoint.allowedHosts = .ok () ↔
      ¬ request.OriginRefused endpoint := by
  unfold checkOrigin CsrfRequest.OriginRefused
  cases hheader : request.header "host" with
  | none => simp
  | some header =>
      cases hhost : header.toStr with
      | none => simp [hhost]
      | some host =>
          cases horigin : request.header "origin" with
          | none => simp [hhost]
          | some origin =>
              cases htext : origin.toStr with
              | none => simp [hhost, htext]
              | some text =>
                  by_cases hown : ownOrigin request.scheme host = text
                  · simp [hhost, htext, hown]
                  · have hforeign : text ≠ ownOrigin request.scheme host := Ne.symm hown
                    cases hwildcard : endpoint.allowedHostsWildcard <;>
                      simp [hhost, htext, hown, hforeign]

theorem accepts_iff_cookieVerdict (hmethod : request.method.isSafe = false) :
    endpoint.accepts request generated = true ↔
      ¬ request.OriginRefused endpoint ∧
        ∃ cookies, cookieVerdict request generated = some (.ok (), cookies) := by
  rw [← checkOrigin_ok_iff]
  unfold CsrfEndpoint.accepts checkCsrf
  rw [hmethod]
  cases horigin : checkOrigin request endpoint.allowedHostsWildcard endpoint.allowedHosts with
  | error response => simp
  | ok value =>
      cases hverdict : cookieVerdict request generated with
      | none => simp
      | some verdict =>
          obtain ⟨result, cookies⟩ := verdict
          cases result <;> simp

/-- Without a cookie or a readable header the cookie test has nothing to decline. -/
theorem cookieVerdict_of_not_carries (hcarries : ¬ request.CarriesToken) :
    ∃ cookies, cookieVerdict request generated = some (.ok (), cookies) := by
  unfold cookieVerdict checkCookie
  cases hcookie : request.cookie with
  | none => simp
  | some cookie =>
      cases hheader : request.header "x-csrf-token" with
      | none => simp
      | some header =>
          cases htext : header.toStr with
          | none => simp [htext]
          | some text => exact absurd ⟨cookie, header, text, hcookie, hheader, htext⟩ hcarries

/-- A carried token is what the cookie test decides by. -/
theorem validates_of_cookieVerdict (hcarries : request.CarriesToken)
    {cookies : List (String × List Char)}
    (hverdict : cookieVerdict request generated = some (.ok (), cookies)) :
    request.Validates := by
  obtain ⟨cookie, header, text, hcookie, hheader, htext⟩ := hcarries
  refine ⟨cookie, header, text, hcookie, hheader, htext, ?_⟩
  unfold cookieVerdict checkCookie at hverdict
  cases hvalid : validateToken text cookie with
  | none => simp [hcookie, hheader, htext, hvalid] at hverdict
  | some valid =>
      cases valid with
      | true => rfl
      | false => simp [hcookie, hheader, htext, hvalid] at hverdict

theorem not_validates_of_not_carries (hcarries : ¬ request.CarriesToken) :
    ¬ request.Validates := by
  rintro ⟨cookie, header, text, hcookie, hheader, htext, _⟩
  exact hcarries ⟨cookie, header, text, hcookie, hheader, htext⟩

/-- An unsafe request is let through only with a valid token exactly when its origin is
refused or it carries a cookie and a readable token header. -/
theorem accepts_validates_iff (hmethod : request.method.isSafe = false) :
    (endpoint.accepts request generated = true → request.Validates) ↔
      request.OriginRefused endpoint ∨ request.CarriesToken := by
  constructor
  · intro hsound
    by_cases hrefused : request.OriginRefused endpoint
    · exact Or.inl hrefused
    by_cases hcarries : request.CarriesToken
    · exact Or.inr hcarries
    have haccepts : endpoint.accepts request generated = true :=
      (accepts_iff_cookieVerdict hmethod).mpr ⟨hrefused, cookieVerdict_of_not_carries hcarries⟩
    exact absurd (hsound haccepts) (not_validates_of_not_carries hcarries)
  · intro hcondition haccepts
    obtain ⟨horigin, cookies, hverdict⟩ := (accepts_iff_cookieVerdict hmethod).mp haccepts
    rcases hcondition with hrefused | hcarries
    · exact absurd hrefused horigin
    · exact validates_of_cookieVerdict hcarries hverdict

/-- A form post as a page of another site sends it: no cookie, no token, no origin. -/
def foreignPost : CsrfRequest where
  method := .post
  scheme := none
  headers := [("host", [97])]
  cookies := []

theorem foreignPost_accepts_validates_iff :
    foreignPost.method.isSafe = false ∧
      (((CsrfEndpoint.layer []).accepts foreignPost [] = true → foreignPost.Validates) ↔
        foreignPost.OriginRefused (.layer []) ∨ foreignPost.CarriesToken) :=
  ⟨rfl, accepts_validates_iff rfl⟩

theorem accepts_without_token :
    ¬ ∀ (endpoint : CsrfEndpoint) (request : CsrfRequest) (generated : List Char),
      request.method.isSafe = false → endpoint.accepts request generated = true →
        request.Validates := by
  intro hclaim
  have hvalidates := hclaim (.layer []) foreignPost [] rfl (by decide)
  exact not_validates_of_not_carries (by rintro ⟨_, _, _, hcookie, _⟩; cases hcookie) hvalidates

end Enforcement

section Origins

variable {request : CsrfRequest} {allowedHosts : List (List Char)} {host origin : List Char}
  {generated : List Char} {cookies : List (String × List Char)}

/-- The origin is that of the request's own host or one of the allowed ones. -/
def OriginAllowed (allowedHosts : List (List Char)) (scheme : Option UriScheme)
    (host origin : List Char) : Prop :=
  origin = ownOrigin scheme host ∨ origin ∈ allowedHosts

theorem originRefused_iff {endpoint : CsrfEndpoint}
    (hhost : (request.header "host").bind HeaderValue.toStr = some host)
    (horigin : (request.header "origin").bind HeaderValue.toStr = some origin) :
    request.OriginRefused endpoint ↔ origin ≠ ownOrigin request.scheme host ∧
      endpoint.allowedHostsWildcard = false ∧
        ownOrigin request.scheme host ∉ endpoint.allowedHosts := by
  obtain ⟨header, hheader, htext⟩ := Option.bind_eq_some_iff.mp horigin
  unfold CsrfRequest.OriginRefused
  simp [hhost, hheader, htext]

/-- What the layer tests is whether the own origin is listed, not the one it is sent. -/
theorem accepts_iff_ownOrigin (hmethod : request.method.isSafe = false)
    (hhost : (request.header "host").bind HeaderValue.toStr = some host)
    (horigin : (request.header "origin").bind HeaderValue.toStr = some origin)
    (hwildcard : ['*'] ∉ allowedHosts)
    (hcookie : checkCookie request true generated = some (.ok (), cookies)) :
    (CsrfEndpoint.layer allowedHosts).accepts request generated = true ↔
      origin = ownOrigin request.scheme host ∨ ownOrigin request.scheme host ∈ allowedHosts := by
  have hnone : (CsrfEndpoint.layer allowedHosts).allowedHostsWildcard = false := by
    simpa [CsrfEndpoint.layer] using hwildcard
  have hverdict : cookieVerdict request generated = some (.ok (), cookies) := by
    simp [cookieVerdict, hcookie]
  rw [accepts_iff_cookieVerdict hmethod, originRefused_iff hhost horigin, hnone]
  simp only [CsrfEndpoint.layer, true_and, hverdict]
  constructor
  · rintro ⟨haccepted, _⟩
    by_contra hneither
    exact haccepted (not_or.mp hneither)
  · intro heither
    exact ⟨fun hneither => heither.elim hneither.1 hneither.2, cookies, rfl⟩

/-- An unsafe request with an origin is accepted as its origin deserves exactly when the origin
is the request's own, or both or neither of the two are listed. -/
theorem accepts_originAllowed_iff (hmethod : request.method.isSafe = false)
    (hhost : (request.header "host").bind HeaderValue.toStr = some host)
    (horigin : (request.header "origin").bind HeaderValue.toStr = some origin)
    (hwildcard : ['*'] ∉ allowedHosts)
    (hcookie : checkCookie request true generated = some (.ok (), cookies)) :
    ((CsrfEndpoint.layer allowedHosts).accepts request generated = true ↔
        OriginAllowed allowedHosts request.scheme host origin) ↔
      origin = ownOrigin request.scheme host ∨
        (ownOrigin request.scheme host ∈ allowedHosts ↔ origin ∈ allowedHosts) := by
  rw [accepts_iff_ownOrigin hmethod hhost horigin hwildcard hcookie]
  unfold OriginAllowed
  by_cases hown : origin = ownOrigin request.scheme host
  · simp [hown]
  · simp [hown]

/-- A post to the host `a` from a page of the origin, with a cookie and its token. -/
def crossOriginPost (origin : HeaderValue) : CsrfRequest where
  method := .post
  scheme := none
  headers := [("host", [97]), ("origin", origin), ("x-csrf-token", [98])]
  cookies := [(csrfCookieName, ['b'])]

/-- `http://a` -/
def ownPage : HeaderValue := [104, 116, 116, 112, 58, 47, 47, 97]

/-- `http://b` -/
def foreignPage : HeaderValue := [104, 116, 116, 112, 58, 47, 47, 98]

theorem crossOriginPost_originAllowed_iff :
    ((CsrfEndpoint.layer []).accepts (crossOriginPost ownPage) [] = true ↔
        OriginAllowed [] none ['a'] "http://a".toList) ↔
      "http://a".toList = ownOrigin none ['a'] ∨
        (ownOrigin none ['a'] ∈ [] ↔ "http://a".toList ∈ []) := by
  have hcookie : checkCookie (crossOriginPost ownPage) true [] =
      some (.ok (), [(csrfCookieName, ['b'])]) := rfl
  have horigin : ((crossOriginPost ownPage).header "origin").bind HeaderValue.toStr =
      some "http://a".toList := by decide +kernel
  exact accepts_originAllowed_iff rfl rfl horigin (by decide) hcookie

/-- A listed origin is refused. -/
theorem listed_origin_refused :
    ¬ ∀ (request : CsrfRequest) (allowedHosts : List (List Char))
      (host origin generated : List Char)
        (cookies : List (String × List Char)), request.method.isSafe = false →
      (request.header "host").bind HeaderValue.toStr = some host →
      (request.header "origin").bind HeaderValue.toStr = some origin → ['*'] ∉ allowedHosts →
      checkCookie request true generated = some (.ok (), cookies) →
      ((CsrfEndpoint.layer allowedHosts).accepts request generated = true ↔
        OriginAllowed allowedHosts request.scheme host origin) := by
  intro hclaim
  have horigin : ((crossOriginPost foreignPage).header "origin").bind HeaderValue.toStr =
      some "http://b".toList := by decide +kernel
  have haccepts := hclaim (crossOriginPost foreignPage) ["http://b".toList] ['a'] _ [] _ rfl rfl
    horigin (by decide) rfl
  have hrefused : (CsrfEndpoint.layer ["http://b".toList]).accepts
      (crossOriginPost foreignPage) [] =
      false := by decide +kernel
  rw [hrefused] at haccepts
  exact Bool.false_ne_true (haccepts.mpr (Or.inr List.mem_cons_self))

end Origins

end Authust
