import Mathlib.Algebra.Group.Fin.Basic
import Authust.Cipher.Pad
import Authust.Server.Csrf

/-! # Masked CSRF tokens

The masking of a secret is a pad over the positions of the alphabet, modulo its length. It
is exact on alphanumeric text; a character outside the alphabet panics.
-/

namespace Authust

open Cipher

/-- A position in the alphabet. -/
abbrev Symbol := Fin alphanumericRange

instance : NeZero alphanumericRange := ⟨by decide⟩

namespace Symbol

def char (symbol : Symbol) : Char := alphanumericChars.get symbol

def text (symbols : List Symbol) : List Char := symbols.map char

theorem position_char (symbol : Symbol) : alphanumericPosition symbol.char = some symbol.val := by
  revert symbol
  decide +kernel

theorem getElem?_eq (symbol : Symbol) : alphanumericChars[symbol.val]? = some symbol.char :=
  List.getElem?_eq_getElem symbol.isLt

theorem add_val (x y : Symbol) : (x.val + y.val) % alphanumericRange = (x + y).val :=
  (Fin.val_add x y).symm

/-- The correction of a subtraction that overflows is subtraction modulo the range. -/
theorem overflowingSubChars_val (x y : Symbol) : overflowingSubChars x.val y.val = (x - y).val := by
  have hx : x.val < 62 := x.isLt
  have hy : y.val < 62 := y.isLt
  rw [Fin.sub_def]
  simp only [overflowingSubChars, overflowingSub, usizeModulus,
    show alphanumericRange = 62 from rfl]
  by_cases hlt : x.val < y.val
  · simp only [hlt, decide_true, if_true]
    omega
  · simp only [hlt, decide_false, Bool.false_eq_true, if_false]
    omega

end Symbol

/-- Every character is in the alphabet. -/
def Alphanumeric (chars : List Char) : Prop := ∀ c ∈ chars, c ∈ alphanumericChars

instance (chars : List Char) : Decidable (Alphanumeric chars) :=
  List.decidableBAll _ chars

section Masking

variable {mask chars text : List Char} {masks symbols : List Symbol}

theorem alphanumeric_text : Alphanumeric (Symbol.text symbols) := by
  intro c hc
  obtain ⟨symbol, _, rfl⟩ := List.mem_map.mp hc
  exact List.get_mem _ _

/-- Alphanumeric text is made of symbols. -/
theorem Alphanumeric.exists_text (hchars : Alphanumeric chars) :
    ∃ symbols, chars = Symbol.text symbols := by
  induction chars with
  | nil => exact ⟨[], rfl⟩
  | cons c rest ih =>
      obtain ⟨hc, hrest⟩ := List.forall_mem_cons.mp hchars
      obtain ⟨symbol, rfl⟩ := List.mem_iff_get.mp hc
      obtain ⟨symbols, rfl⟩ := ih hrest
      exact ⟨symbol :: symbols, rfl⟩

/-- `mask_op` computes the pad, and its inverse when it subtracts. -/
theorem maskOp_text (add : Bool) : maskOp (Symbol.text masks) (Symbol.text symbols) add =
    some (Symbol.text (if add then pad masks symbols else unpad masks symbols)) := by
  induction symbols generalizing masks with
  | nil => cases masks <;> cases add <;> rfl
  | cons x symbols ih =>
      cases masks with
      | nil =>
          simp only [Symbol.text, List.map_cons, List.map_nil, maskOp, Symbol.position_char]
          cases add <;> rfl
      | cons y masks =>
          simp only [Symbol.text] at ih
          simp only [Symbol.text, List.map_cons, maskOp, Symbol.position_char, ih]
          cases add with
          | false => simp [Symbol.overflowingSubChars_val, Symbol.getElem?_eq, unpad]
          | true => simp [Symbol.add_val, Symbol.getElem?_eq, pad]

theorem alphanumericPosition_isSome_iff {c : Char} :
    (alphanumericPosition c).isSome = true ↔ c ∈ alphanumericChars := by
  simp [alphanumericPosition]

/-- Masking text of the length of its mask panics exactly at a character outside the alphabet. -/
theorem maskOp_isSome_iff {add : Bool} (hlength : mask.length = chars.length) :
    (maskOp mask chars add).isSome = true ↔ Alphanumeric mask ∧ Alphanumeric chars := by
  constructor
  · intro hsome
    induction chars generalizing mask with
    | nil =>
        rw [List.length_eq_zero_iff.mp hlength]
        exact ⟨nofun, nofun⟩
    | cons c chars ih =>
        cases mask with
        | nil => cases hlength
        | cons m mask =>
            obtain ⟨_, hmasked⟩ := Option.isSome_iff_exists.mp hsome
            simp only [maskOp, Option.bind_eq_bind, Option.bind_eq_some_iff] at hmasked
            obtain ⟨x, hx, y, hy, _, _, rest, hrest, _⟩ := hmasked
            have hc := alphanumericPosition_isSome_iff.mp (Option.isSome_of_mem hx)
            have hm := alphanumericPosition_isSome_iff.mp (Option.isSome_of_mem hy)
            obtain ⟨hmask, hchars⟩ := ih (Nat.succ.inj hlength) (Option.isSome_of_mem hrest)
            exact ⟨List.forall_mem_cons.mpr ⟨hm, hmask⟩, List.forall_mem_cons.mpr ⟨hc, hchars⟩⟩
  · rintro ⟨hmask, hchars⟩
    obtain ⟨masks, rfl⟩ := hmask.exists_text
    obtain ⟨symbols, rfl⟩ := hchars.exists_text
    rw [maskOp_text]
    rfl

end Masking

section Tokens

variable {token secret mask text : List Char}

theorem Alphanumeric.append (hfirst : Alphanumeric mask) (hsecond : Alphanumeric text) :
    Alphanumeric (mask ++ text) :=
  List.forall_mem_append.mpr ⟨hfirst, hsecond⟩

/-- Text of one byte a character. -/
def SingleByte (chars : List Char) : Prop := ∀ c ∈ chars, c.utf8Size = 1

theorem Alphanumeric.singleByte (htext : Alphanumeric text) : SingleByte text := by
  have hsizes : alphanumericChars.all (fun c => c.utf8Size == 1) = true := by decide
  intro c hc
  simpa using List.all_eq_true.mp hsizes c (htext c hc)

theorem SingleByte.byteLength_eq (htext : SingleByte text) : byteLength text = text.length := by
  have hsizes : text.map Char.utf8Size = text.map fun _ => 1 := List.map_congr_left htext
  simp [byteLength, hsizes]

theorem SingleByte.splitAtByte_eq (htext : SingleByte text) {bytes : Nat}
    (hbytes : bytes ≤ text.length) :
    splitAtByte bytes text = some (text.take bytes, text.drop bytes) := by
  induction text generalizing bytes with
  | nil =>
      rw [Nat.le_zero.mp hbytes]
      rfl
  | cons c text ih =>
      obtain ⟨hc, hrest⟩ := List.forall_mem_cons.mp htext
      cases bytes with
      | zero => rfl
      | succ bytes =>
          rw [splitAtByte, hc, if_pos (Nat.le_add_left 1 bytes), Nat.add_sub_cancel,
            ih hrest (Nat.le_of_succ_le_succ hbytes)]
          rfl

theorem length_halves (hlength : token.length = csrfTokenLength) :
    (token.take csrfSecretLength).length = (token.drop csrfSecretLength).length := by
  simp [hlength, csrfTokenLength, csrfSecretLength]

theorem SingleByte.unmaskCsrf_eq (htoken : SingleByte token)
    (hlength : token.length = csrfTokenLength) : unmaskCsrf token =
      maskOp (token.take csrfSecretLength) (token.drop csrfSecretLength) false := by
  rw [unmaskCsrf, htoken.splitAtByte_eq (by simp [hlength, csrfTokenLength, csrfSecretLength])]
  rfl

/-- A token of two halves is compared by what its unmasking answers. -/
theorem SingleByte.validateToken_eq (htoken : SingleByte token)
    (hlength : token.length = csrfTokenLength) : validateToken token secret =
      (maskOp (token.take csrfSecretLength) (token.drop csrfSecretLength) false).map
        fun found => decide (found = secret) := by
  rw [validateToken, if_pos (htoken.byteLength_eq.trans hlength), htoken.unmaskCsrf_eq hlength]
  cases maskOp (token.take csrfSecretLength) (token.drop csrfSecretLength) false <;> rfl

theorem validateToken_of_other_length (hlength : byteLength token ≠ csrfTokenLength) :
    validateToken token secret = some (decide (token = secret)) :=
  if_neg hlength

end Tokens

section Exactness

variable {token secret mask : List Char}

/-- Subtracting a mask undoes adding it. -/
theorem maskOp_inverse (hmask : Alphanumeric mask) (hsecret : Alphanumeric secret)
    (hlength : mask.length = secret.length) :
    ∃ masked, maskOp mask secret true = some masked ∧ Alphanumeric masked ∧
      masked.length = secret.length ∧ maskOp mask masked false = some secret := by
  obtain ⟨masks, rfl⟩ := hmask.exists_text
  obtain ⟨symbols, rfl⟩ := hsecret.exists_text
  have hsymbols : masks.length = symbols.length := by simpa [Symbol.text] using hlength
  refine ⟨_, maskOp_text true, alphanumeric_text, ?_, ?_⟩
  · simpa [Symbol.text] using length_pad hsymbols
  · rw [maskOp_text, if_neg Bool.false_ne_true, if_pos rfl, unpad_pad hsymbols]

/-- Adding a mask undoes subtracting it. -/
theorem maskOp_of_unmasked {masked : List Char} (hmask : Alphanumeric mask)
    (hmasked : Alphanumeric masked) (hlength : mask.length = masked.length)
    (hunmasked : maskOp mask masked false = some secret) :
    maskOp mask secret true = some masked := by
  obtain ⟨masks, rfl⟩ := hmask.exists_text
  obtain ⟨symbols, rfl⟩ := hmasked.exists_text
  have hsymbols : masks.length = symbols.length := by simpa [Symbol.text] using hlength
  rw [maskOp_text, if_neg Bool.false_ne_true, Option.some.injEq] at hunmasked
  rw [← hunmasked, maskOp_text, if_pos rfl, pad_unpad hsymbols]

/-- A secret that is masked as `mask_csrf` masks it is read again and validates. -/
theorem maskCsrf_validates (hmask : Alphanumeric mask)
    (hmaskLength : mask.length = csrfSecretLength) (hsecret : Alphanumeric secret)
    (hsecretLength : secret.length = csrfSecretLength) :
    ∃ masked, maskOp mask secret true = some masked ∧
      maskCsrf mask secret = some (mask ++ masked) ∧ unmaskCsrf (mask ++ masked) = some secret ∧
        validateToken (mask ++ masked) secret = some true := by
  obtain ⟨masked, hmasked, halphanumeric, hlength, hunmasked⟩ :=
    maskOp_inverse hmask hsecret (hmaskLength.trans hsecretLength.symm)
  have htokenLength : (mask ++ masked).length = csrfTokenLength := by
    simp [hmaskLength, hlength, hsecretLength, csrfTokenLength, csrfSecretLength]
  have htoken := (hmask.append halphanumeric).singleByte
  have hread : maskOp ((mask ++ masked).take csrfSecretLength)
      ((mask ++ masked).drop csrfSecretLength) false = some secret := by
    rw [List.take_left' hmaskLength, List.drop_left' hmaskLength]
    exact hunmasked
  refine ⟨masked, hmasked, by rw [maskCsrf, hmasked]; rfl, ?_, ?_⟩
  · rw [htoken.unmaskCsrf_eq htokenLength, hread]
  · rw [htoken.validateToken_eq htokenLength, hread]
    simp

/-- A token of two halves validates only against the secret whose masked text is its second
half. -/
theorem maskOp_of_validateToken (htoken : Alphanumeric token)
    (hlength : token.length = csrfTokenLength) (hvalid : validateToken token secret = some true) :
    maskOp (token.take csrfSecretLength) secret true = some (token.drop csrfSecretLength) := by
  rw [htoken.singleByte.validateToken_eq hlength, Option.map_eq_some_iff] at hvalid
  obtain ⟨found, hfound, hsame⟩ := hvalid
  obtain rfl := of_decide_eq_true hsame
  refine maskOp_of_unmasked ?_ ?_ (length_halves hlength) hfound
  · exact fun c hc => htoken c (List.mem_of_mem_take hc)
  · exact fun c hc => htoken c (List.mem_of_mem_drop hc)

/-- A token validates against one secret at most. -/
theorem validateToken_unique {secret' : List Char} (hvalid : validateToken token secret = some true)
    (hvalid' : validateToken token secret' = some true) : secret = secret' := by
  unfold validateToken at hvalid hvalid'
  split at hvalid
  next hlength =>
    rw [if_pos hlength] at hvalid'
    cases hunmasked : unmaskCsrf token with
    | none => simp [hunmasked] at hvalid
    | some found =>
        simp only [hunmasked, Option.bind_eq_bind, Option.bind_some, Option.some.injEq,
          decide_eq_true_eq] at hvalid hvalid'
        exact hvalid.symm.trans hvalid'
  next hlength =>
    rw [if_neg hlength] at hvalid'
    simp only [Option.some.injEq, decide_eq_true_eq] at hvalid hvalid'
    exact hvalid.symm.trans hvalid'

/-- Masking is invertible and validation is exact. -/
theorem masking_exact :
    (∀ mask secret, Alphanumeric mask → Alphanumeric secret → mask.length = secret.length →
      ∃ masked, maskOp mask secret true = some masked ∧ maskOp mask masked false = some secret) ∧
    (∀ mask secret, Alphanumeric mask → mask.length = csrfSecretLength → Alphanumeric secret →
      secret.length = csrfSecretLength → ∃ masked, maskOp mask secret true = some masked ∧
        maskCsrf mask secret = some (mask ++ masked) ∧ unmaskCsrf (mask ++ masked) = some secret ∧
          validateToken (mask ++ masked) secret = some true) ∧
    (∀ token secret, Alphanumeric token → token.length = csrfTokenLength →
      validateToken token secret = some true →
        maskOp (token.take csrfSecretLength) secret true = some (token.drop csrfSecretLength)) ∧
    (∀ token secret, byteLength token ≠ csrfTokenLength → validateToken token secret = some true →
      token = secret) ∧
    ∀ token secret secret', validateToken token secret = some true →
      validateToken token secret' = some true → secret = secret' := by
  refine ⟨?_, fun _ _ => maskCsrf_validates, fun _ _ => maskOp_of_validateToken, ?_,
    fun _ _ _ => validateToken_unique⟩
  · intro mask secret hmask hsecret hlength
    obtain ⟨masked, hmasked, _, _, hunmasked⟩ := maskOp_inverse hmask hsecret hlength
    exact ⟨masked, hmasked, hunmasked⟩
  · intro token secret hlength hvalid
    rw [validateToken_of_other_length hlength] at hvalid
    exact of_decide_eq_true (Option.some.inj hvalid)

end Exactness

section Answers

variable {text cookie : List Char} {request : CsrfRequest} {endpoint : CsrfEndpoint}
  {generated : List Char}

/-- A text of the length of a masked token is over the alphabet. -/
def WellFormedToken (text : List Char) : Prop :=
  text.length = csrfTokenLength → Alphanumeric text

/-- A readable header is text of one byte a character. -/
theorem HeaderValue.singleByte_toStr {value : HeaderValue} (htext : value.toStr = some text) :
    SingleByte text := by
  have hsizes : ∀ n < 127, (Char.ofNat n).utf8Size = 1 := by decide
  unfold HeaderValue.toStr at htext
  split at htext
  next hvisible =>
    cases htext
    intro c hc
    obtain ⟨byte, hbyte, rfl⟩ := List.mem_map.mp hc
    have hrange := List.all_eq_true.mp hvisible byte hbyte
    simp only [isVisibleAscii, Bool.or_eq_true, Bool.and_eq_true, decide_eq_true_eq,
      UInt8.lt_iff_toNat_lt] at hrange
    rcases hrange with ⟨_, hlt⟩ | rfl
    · exact hsizes _ hlt
    · exact hsizes _ (by decide)
  next => cases htext

/-- Validation answers exactly on well-formed text: of all that it does, only the conversion of
a character outside the alphabet can fail. -/
theorem SingleByte.validateToken_isSome_iff (htext : SingleByte text) :
    (validateToken text cookie).isSome = true ↔ WellFormedToken text := by
  unfold WellFormedToken
  by_cases hlength : text.length = csrfTokenLength
  · rw [htext.validateToken_eq hlength, Option.isSome_map, maskOp_isSome_iff
      (length_halves hlength)]
    simp only [hlength, true_implies]
    constructor
    · rintro ⟨hfirst, hsecond⟩
      have happended := hfirst.append hsecond
      rwa [List.take_append_drop] at happended
    · intro halphanumeric
      exact ⟨fun c hc => halphanumeric c (List.mem_of_mem_take hc),
        fun c hc => halphanumeric c (List.mem_of_mem_drop hc)⟩
  · have hbytes : byteLength text ≠ csrfTokenLength := htext.byteLength_eq ▸ hlength
    simp [validateToken_of_other_length hbytes, hlength]

/-- The token of the request, if it is compared with a cookie, is well formed. -/
def CsrfRequest.WellFormed (request : CsrfRequest) : Prop :=
  ∀ cookie header text, request.cookie = some cookie →
    request.header "x-csrf-token" = some header → header.toStr = some text → WellFormedToken text

theorem CsrfRequest.wellFormed_iff {header : HeaderValue} (hcookie : request.cookie = some cookie)
    (hheader : request.header "x-csrf-token" = some header) :
    request.WellFormed ↔ ∀ text, header.toStr = some text → WellFormedToken text := by
  constructor
  · exact fun hformed text htext => hformed cookie header text hcookie hheader htext
  · intro hformed _ found text _ hfound htext
    rw [hheader, Option.some.injEq] at hfound
    exact hformed text (hfound ▸ htext)

theorem cookieVerdict_isSome_iff :
    (cookieVerdict request generated).isSome = true ↔ request.WellFormed := by
  cases hcookie : request.cookie with
  | none => simp [cookieVerdict, checkCookie, CsrfRequest.WellFormed, hcookie]
  | some cookie =>
      cases hheader : request.header "x-csrf-token" with
      | none => simp [cookieVerdict, checkCookie, CsrfRequest.WellFormed, hcookie, hheader]
      | some header =>
          rw [CsrfRequest.wellFormed_iff hcookie hheader]
          cases htext : header.toStr with
          | none => simp [cookieVerdict, checkCookie, hcookie, hheader, htext]
          | some text =>
              have hvalid : (validateToken text cookie).isSome = true ↔ WellFormedToken text :=
                (HeaderValue.singleByte_toStr htext).validateToken_isSome_iff
              simp only [Option.some.injEq, forall_eq', ← hvalid]
              cases hvalidated : validateToken text cookie with
              | none => simp [cookieVerdict, checkCookie, hcookie, hheader, htext, hvalidated]
              | some valid =>
                  cases valid <;>
                    simp [cookieVerdict, checkCookie, hcookie, hheader, htext, hvalidated]

/-- `check_csrf` answers exactly the requests that it refuses before the token or whose token is
well formed. -/
theorem checkCsrf_isSome_iff :
    (checkCsrf request endpoint.allowedHostsWildcard endpoint.allowedHosts
      generated).isSome = true ↔
      request.method.isSafe = false ∧ request.OriginRefused endpoint ∨ request.WellFormed := by
  unfold checkCsrf
  cases hmethod : request.method.isSafe with
  | true => simp [cookieVerdict_isSome_iff]
  | false =>
      have horigin : checkOrigin request endpoint.allowedHostsWildcard endpoint.allowedHosts =
          .ok () ↔ ¬ request.OriginRefused endpoint := checkOrigin_ok_iff
      cases hchecked : checkOrigin request endpoint.allowedHostsWildcard endpoint.allowedHosts with
      | error response =>
          simp only [hchecked, reduceCtorEq, false_iff, not_not] at horigin
          simp [horigin]
      | ok value =>
          simp only [hchecked, true_iff] at horigin
          simp [horigin, cookieVerdict_isSome_iff]

/-- CSRF checking answers, whatever the cookie, exactly where a text of the length of a masked
token is over the alphabet. -/
theorem csrf_answers_iff (value : HeaderValue) (text cookie : List Char) (request : CsrfRequest)
    (endpoint : CsrfEndpoint) (generated : List Char) :
    (value.toStr = some text →
      ((validateToken text cookie).isSome = true ↔ WellFormedToken text)) ∧
    ((checkCsrf request endpoint.allowedHostsWildcard endpoint.allowedHosts
      generated).isSome = true ↔
      request.method.isSafe = false ∧ request.OriginRefused endpoint ∨ request.WellFormed) :=
  ⟨fun htext => (HeaderValue.singleByte_toStr htext).validateToken_isSome_iff,
    checkCsrf_isSome_iff⟩

/-- A header of as many dashes as a masked token has characters panics. -/
theorem dashes_panic : ∃ (value : HeaderValue) (text cookie : List Char),
    value.toStr = some text ∧ validateToken text cookie = none ∧
      checkCsrf ⟨.get, none, [("x-csrf-token", value)], [(csrfCookieName, cookie)]⟩ false [] [] =
        none := by
  refine ⟨List.replicate 64 45, List.replicate 64 '-', [], ?_, ?_, ?_⟩ <;> decide +kernel

end Answers

end Authust
