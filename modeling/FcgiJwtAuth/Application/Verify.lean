import FcgiJwtAuth.JwtInterface
import FcgiJwtAuth.Jwks.FindVerifier

/-!
# Verifying a token

`application.cpp`: `verify_jwks_authentication_jwt` decodes a token, reads its claims, has the
`microsoft` store check the signature, and reads the user and the two dates. Its `catch` clauses
take `runtime_error` and `invalid_argument`; what reading an absent or ill-typed claim throws is
neither.
-/

namespace FcgiJwtAuth

open CLang HTTPUtils

variable (J : JwtCpp) (P : Picojson)

/-! ## The code -/

/-- The text of the audience, or `<no aud>`. -/
def audienceText {σ : Type} (jwt : DecodedJwt) : Exec σ Bytes :=
  match jwt.payload.find (bytes "aud") with
  | none => pure (bytes "<no aud>")
  | some _ => do
    let aud ← Exec.ofExcept (J.getAudience jwt)
    -- `set_to_json`
    pure (P.serialize (.array (aud.map .string)))

/-- The claims read in front of the signature check. -/
def readClaims {σ : Type} (jwt : DecodedJwt) : Exec σ PUnit := do
  let _typ ← Exec.ofExcept (J.getType jwt)
  let _algorithm ← Exec.ofExcept (J.getAlgorithm jwt)
  let _keyId ← Exec.ofExcept (J.getKeyId jwt)
  let _issuer ← Exec.ofExcept (J.getIssuer jwt)
  let _aud ← audienceText J P jwt
  pure ⟨⟩

/-- The dates read behind it. -/
def readDates {σ : Type} (jwt : DecodedJwt) : Exec σ PUnit := do
  let _issueTimeDate ← Exec.ofExcept (J.getIssuedAt jwt)
  let _validUntilDate ← Exec.ofExcept (J.getExpiresAt jwt)
  pure ⟨⟩

/-- What follows the signature check. -/
def readUser {σ : Type} (jwt : DecodedJwt) (jwtStr : Bytes) : Exec σ ℤ := do
  match ← jwtinterfaceGetUserContext J P jwtStr with
  | none => pure 3
  | some _ =>
    let _ ← readDates J jwt
    pure 0

/-- The part of the `try` block behind the claims. -/
def verifySignature (env : JwksEnv) (jwt : DecodedJwt) (jwtStr : Bytes) : Exec Manager ℤ := do
  match ← verifyJwt J P env (bytes "microsoft") jwtStr with
  | false => pure 2
  | true => readUser J P jwt jwtStr

/-- The `try` block of `verify_jwks_authentication_jwt`. -/
def verifyTry (env : JwksEnv) (jwtStr : Bytes) : Exec Manager ℤ := do
  let jwt ← Exec.ofExcept (J.decode jwtStr)
  let _ ← readClaims J P jwt
  verifySignature J P env jwt jwtStr

/-- `verify_jwks_authentication_jwt`. -/
def verifyJwksAuthenticationJwt (env : JwksEnv) (jwtStr : Bytes) : Exec Manager ℤ :=
  catchTokenErrors 1 (verifyTry J P env jwtStr)

/-- `verify_jwks_authentication`. -/
def verifyJwksAuthentication (env : JwksEnv) (cookiesStr authStr : Option CStr) :
    Exec Manager ℤ :=
  verifyJwksAuthenticationJwt J P env
    (jwtinterfaceGetTokenFromCookieOrAuthorization cookiesStr authStr)

/-- Both overloads of `application_verify_jwt_authentication`, behind the choice of the token: the
result of the verification is kept in the context, whatever it is. `storeMan` says whether the
pointer to the manager is not null. -/
def applicationVerifyToken (env : JwksEnv) (storeMan : Bool) (jwtStr : Bytes) :
    Exec Manager (Option JwtUserContext) := do
  let verified ← (if storeMan then verifyJwksAuthenticationJwt J P env jwtStr else pure 0)
  let userCtx ← jwtinterfaceGetUserContext J P jwtStr
  pure (userCtx.map fun ctx => { ctx with verified := verified })

/-- The token of the cookie overload: the first `auth` cookie, or the empty string. -/
def cookieToken (cookies : Option Cookies) : Bytes :=
  match getCookie cookies (bytes "auth") 0 with
  | none => []
  | some jwtChr => jwtChr

/-- `application_verify_jwt_authentication(store_man, cookies)`. -/
def applicationVerifyJwtAuthentication (env : JwksEnv) (storeMan : Bool)
    (cookies : Option Cookies) : Exec Manager (Option JwtUserContext) :=
  applicationVerifyToken J P env storeMan (cookieToken cookies)

/-- `application_verify_jwt_authentication(store_man, cookies_str, auth_str)`. -/
def applicationVerifyJwtAuthenticationStr (env : JwksEnv) (storeMan : Bool)
    (cookiesStr authStr : Option CStr) : Exec Manager (Option JwtUserContext) :=
  applicationVerifyToken J P env storeMan
    (jwtinterfaceGetTokenFromCookieOrAuthorization cookiesStr authStr)

/-! ## Reading claims in sequence -/

section Checks

variable {σ α β : Type}

/-- A computation that returns when `A` holds and throws past the `catch` clauses when it does
not. -/
def Checks (A : Prop) (m : Exec σ α) : Prop :=
  ∀ s, (A ∧ ∃ a, m.run s = (.ret a, s)) ∨ (¬ A ∧ ∃ e, Escapes e ∧ m.run s = (.throws e, s))

theorem checks_pure (a : α) : Checks True (pure a : Exec σ α) :=
  fun _ => Or.inl ⟨trivial, a, rfl⟩

theorem checks_ofExcept {A : Prop} {r : Except Exn α} (h : Reads A r) :
    Checks A (Exec.ofExcept r : Exec σ α) := by
  intro s
  rcases h with ⟨hA, a, rfl⟩ | ⟨hA, e, rfl, he⟩
  · exact Or.inl ⟨hA, a, rfl⟩
  · exact Or.inr ⟨hA, e, he, rfl⟩

theorem Checks.bind {A B : Prop} {m : Exec σ α} {f : α → Exec σ β} (hm : Checks A m)
    (hf : ∀ a, Checks B (f a)) : Checks (A ∧ B) (m >>= f) := by
  intro s
  rcases hm s with ⟨hA, a, hrun⟩ | ⟨hA, e, he, hrun⟩
  · rw [Exec.bind_ret hrun]
    rcases hf a s with ⟨hB, b, hb⟩ | ⟨hB, e, he, hb⟩
    · exact Or.inl ⟨⟨hA, hB⟩, b, hb⟩
    · exact Or.inr ⟨fun h => hB h.2, e, he, hb⟩
  · exact Or.inr ⟨fun h => hA h.1, e, he, Exec.bind_throws hrun⟩

theorem Checks.iff {A B : Prop} {m : Exec σ α} (h : Checks A m) (hAB : A ↔ B) : Checks B m :=
  fun s => by rw [← hAB]; exact h s

end Checks

/-- The claims that are read in front of the signature check are there and of their types. -/
def WellTyped (jwt : DecodedJwt) : Prop :=
  HasString jwt.header (bytes "typ") ∧ HasString jwt.header (bytes "alg") ∧
    HasString jwt.header (bytes "kid") ∧ HasString jwt.payload (bytes "iss") ∧
    AudienceReadable jwt.payload

/-- Both dates are numbers. -/
def HasDates (jwt : DecodedJwt) : Prop :=
  HasDate jwt.payload (bytes "iat") ∧ HasDate jwt.payload (bytes "exp")

theorem checks_audienceText {σ : Type} (jwt : DecodedJwt) :
    Checks (AudienceReadable jwt.payload) (audienceText J P jwt : Exec σ Bytes) := by
  unfold audienceText
  cases haud : jwt.payload.find (bytes "aud") with
  | none =>
    exact (checks_pure _).iff ⟨fun _ => Or.inl haud, fun _ => trivial⟩
  | some v =>
    have hread := reads_audience haud (J.getAudience_reads jwt)
    exact ((checks_ofExcept hread).bind fun _ => checks_pure _).iff (and_iff_left trivial)

theorem checks_readClaims {σ : Type} (jwt : DecodedJwt) :
    Checks (WellTyped jwt) (readClaims J P jwt : Exec σ PUnit) := by
  have htyp := reads_string (J.getType_reads jwt)
  have halg := reads_string (J.getAlgorithm_reads jwt)
  have hkid := reads_string (J.getKeyId_reads jwt)
  have hiss := reads_string (J.getIssuer_reads jwt)
  have h := (checks_ofExcept (σ := σ) htyp).bind fun _ =>
    (checks_ofExcept halg).bind fun _ => (checks_ofExcept hkid).bind fun _ =>
      (checks_ofExcept hiss).bind fun _ =>
        (checks_audienceText J P jwt).bind fun _ => checks_pure (PUnit.unit : PUnit.{1})
  exact h.iff (by simp only [WellTyped, and_true])

theorem checks_readDates {σ : Type} (jwt : DecodedJwt) :
    Checks (HasDates jwt) (readDates J jwt : Exec σ PUnit) := by
  have hiat := reads_date (J.getIssuedAt_reads jwt)
  have hexp := reads_date (J.getExpiresAt_reads jwt)
  have h := (checks_ofExcept (σ := σ) hiat).bind fun _ =>
    (checks_ofExcept hexp).bind fun _ => checks_pure (PUnit.unit : PUnit.{1})
  exact h.iff (by simp only [HasDates, and_true])

end FcgiJwtAuth
