import FcgiJwtAuth.HTTPUtils.Cookies
import FcgiJwtAuth.Libraries.JwtCpp

/-!
# The token of a request and the identity in it

`jwtinterface.cpp`: which cookie the token is taken from, and which user a token names. The user
context is read from the payload alone; no signature is looked at here.
-/

namespace FcgiJwtAuth

open CLang HTTPUtils

/-! ## The token -/

/-- The loop over the cookie array: every `auth` cookie overwrites `jwt_str`. -/
def authLoop (buf : Bytes) : List Cookie → Bytes → Bytes
  | .entry name value :: cookies, jwtStr =>
    authLoop buf cookies
      (if strEq (cstr buf name) (bytes "auth") then cstr buf value else jwtStr)
  | _, jwtStr => jwtStr

/-- `jwtinterface_get_token_from_cookie`. -/
def jwtinterfaceGetTokenFromCookie (cookies : Option Cookies) : Bytes :=
  match cookies with
  | none => []
  | some c => authLoop c.header c.array []

/-- `jwtinterface_get_token_from_cookie_or_authorization`. The authorization header is not
parsed. -/
def jwtinterfaceGetTokenFromCookieOrAuthorization (cookiesStr _authStr : Option CStr) : Bytes :=
  match parseCookies cookiesStr with
  | none => []
  | some c => authLoop c.header c.array []

/-- The values of the `auth` cookies of a header, in order. -/
def authValues (header : Bytes) : List Bytes :=
  ((cookiePairs header).filter (·.1 = bytes "auth")).map (·.2)

/-- The loop over an array of entries and its terminator leaves the last `auth` value. -/
theorem authLoop_entries (buf : Bytes) (entries : List (ℕ × ℕ)) (jwtStr : Bytes) :
    authLoop buf (entries.map (fun e => .entry e.1 e.2) ++ [.null]) jwtStr =
      (((entries.map (readEntry buf)).filter (·.1 = bytes "auth")).map (·.2)).getLastD jwtStr := by
  induction entries generalizing jwtStr with
  | nil => rfl
  | cons e entries ih =>
    rw [List.map_cons, List.cons_append, authLoop, ih, List.map_cons]
    by_cases hauth : cstr buf e.1 = bytes "auth"
    · have hread : (readEntry buf e).1 = bytes "auth" := hauth
      rw [List.filter_cons_of_pos (by simpa using hread), List.map_cons, List.getLastD_cons]
      simp only [strEq, hauth, decide_true, if_true, readEntry]
    · have hread : (readEntry buf e).1 ≠ bytes "auth" := hauth
      rw [List.filter_cons_of_neg (by simpa using hread)]
      simp only [strEq, hauth, decide_false, Bool.false_eq_true, if_false]

/-- **The token the login page and the file manager see**: the last `auth` cookie. -/
theorem token_parseCookies (h : CStr) :
    jwtinterfaceGetTokenFromCookie (parseCookies (some h)) = (authValues h.val).getLastD [] := by
  obtain ⟨buf, entries, hparse, hread⟩ := parseCookies_entries h
  rw [hparse, jwtinterfaceGetTokenFromCookie, authLoop_entries, hread, authValues]

/-- Both loops read the same token. -/
theorem jwtinterfaceGetToken_eq (cookies auth : Option CStr) :
    jwtinterfaceGetTokenFromCookieOrAuthorization cookies auth =
      jwtinterfaceGetTokenFromCookie (parseCookies cookies) := by
  unfold jwtinterfaceGetTokenFromCookieOrAuthorization jwtinterfaceGetTokenFromCookie
  rfl

/-! ## The user -/

/-- `JWTUserContext`. -/
structure JwtUserContext where
  friendlyName : Bytes
  emailAddress : Bytes
  payloadJsonStr : Bytes
  payloadJsonStrPretty : Bytes
  headerJsonStr : Bytes
  verified : ℤ
deriving DecidableEq

/-- `jwtinterface_get_string`; `none` is its `-1`. -/
def jwtinterfaceGetString (obj : Object) (key : Bytes) : Option Bytes :=
  (obj.find key).bind Json.string?

section

variable (J : JwtCpp) (P : Picojson)

/-- One line of `prettyPrintObject`. -/
def prettyPrintMember (member : Bytes × Json) : Bytes :=
  bytes "  " ++ P.serialize (.string member.1) ++ bytes ": " ++ P.serialize member.2

/-- `prettyPrintObject`. -/
def prettyPrintObject (obj : Object) : Bytes :=
  if obj = [] then bytes "\x7b\x7d"
  else bytes "\x7b\n" ++ (bytes ",\n").intercalate (obj.map (prettyPrintMember P)) ++
    bytes "\n\x7d"

/-- The context filled in from a decoded token. -/
def userContextOf (jwt : DecodedJwt) : Option JwtUserContext :=
  match (jwtinterfaceGetString jwt.payload (bytes "email")).or
      (jwtinterfaceGetString jwt.payload (bytes "preferred_username")) with
  | none => none
  | some email =>
    match jwtinterfaceGetString jwt.payload (bytes "name") with
    | none => none
    | some name => some
      { friendlyName := name
        emailAddress := email
        payloadJsonStr := P.serialize (.object jwt.payload)
        payloadJsonStrPretty := prettyPrintObject P jwt.payload
        headerJsonStr := P.serialize (.object jwt.header)
        verified := 0 }

/-- The two `catch` clauses that stand behind every token: `runtime_error` and
`invalid_argument`. -/
def catchTokenErrors {σ : Type} {α : Type} (fallback : α) (m : Exec σ α) : Exec σ α :=
  m.catching fun e =>
    if e.isRuntimeError then some (pure fallback)
    else if e.isInvalidArgument then some (pure fallback)
    else none

/-- `jwtinterface_getusercontext`; `none` is the null pointer. -/
def jwtinterfaceGetUserContext {σ : Type} (jwtStr : Bytes) : Exec σ (Option JwtUserContext) :=
  catchTokenErrors none <|
    if jwtStr = [] then pure none
    else do
      let jwt ← Exec.ofExcept (J.decode jwtStr)
      pure (userContextOf P jwt)

/-- The user a token names, if it decodes and names one. -/
def tokenUser (jwtStr : Bytes) : Option JwtUserContext :=
  if jwtStr = [] then none
  else
    match J.decode jwtStr with
    | .ok jwt => userContextOf P jwt
    | .error _ => none

end

/-! ## What they return -/

section CatchTokenErrors

variable {σ α : Type} {fallback : α} {m : Exec σ α} {s s' : σ}

theorem catchTokenErrors_ret {a : α} (h : m.run s = (.ret a, s')) :
    (catchTokenErrors fallback m).run s = (.ret a, s') := Exec.catching_ret h

theorem catchTokenErrors_undefined (h : m.run s = (.undefined, s')) :
    (catchTokenErrors fallback m).run s = (.undefined, s') := Exec.catching_undefined h

/-- An exception of one of the two classes ends in the fallback. -/
theorem catchTokenErrors_caught {e : Exn} (he : e.isRuntimeError ∨ e.isInvalidArgument)
    (h : m.run s = (.throws e, s')) :
    (catchTokenErrors fallback m).run s = (.ret fallback, s') := by
  rw [catchTokenErrors, Exec.catching_throws h]
  rcases he with he | he
  · simp [he]
  · cases e.isRuntimeError <;> simp [he]

/-- The exceptions of an unreadable claim pass. -/
theorem catchTokenErrors_escapes {e : Exn} (he : Escapes e) (h : m.run s = (.throws e, s')) :
    (catchTokenErrors fallback m).run s = (.throws e, s') := by
  rw [catchTokenErrors, Exec.catching_throws h]
  rcases he with rfl | rfl <;> rfl

end CatchTokenErrors

variable (J : JwtCpp) (P : Picojson)

/-- `jwtinterface_getusercontext` always returns, and leaves everything as it was. -/
theorem jwtinterfaceGetUserContext_run {σ : Type} (jwtStr : Bytes) (s : σ) :
    (jwtinterfaceGetUserContext J P jwtStr).run s = (.ret (tokenUser J P jwtStr), s) := by
  unfold jwtinterfaceGetUserContext tokenUser
  by_cases hempty : jwtStr = []
  · rw [if_pos hempty, if_pos hempty]
    exact catchTokenErrors_ret rfl
  · rw [if_neg hempty, if_neg hempty]
    cases hdecode : J.decode jwtStr with
    | ok jwt => exact catchTokenErrors_ret rfl
    | error e => exact catchTokenErrors_caught (J.decode_error hdecode) rfl

/-- The payload names a user: an address under one of two names, and a display name. -/
def HasIdentity (payload : Object) : Prop :=
  (HasString payload (bytes "email") ∨ HasString payload (bytes "preferred_username")) ∧
    HasString payload (bytes "name")

theorem jwtinterfaceGetString_isSome (obj : Object) (key : Bytes) :
    (jwtinterfaceGetString obj key).isSome ↔ HasString obj key := by
  unfold jwtinterfaceGetString HasString
  cases obj.find key with
  | none => simp
  | some v => cases v <;> simp [Json.string?]

theorem userContextOf_isSome (jwt : DecodedJwt) :
    (userContextOf P jwt).isSome ↔ HasIdentity jwt.payload := by
  unfold userContextOf HasIdentity
  rw [← jwtinterfaceGetString_isSome, ← jwtinterfaceGetString_isSome,
    ← jwtinterfaceGetString_isSome]
  cases jwtinterfaceGetString jwt.payload (bytes "email") <;>
    cases jwtinterfaceGetString jwt.payload (bytes "preferred_username") <;>
      cases jwtinterfaceGetString jwt.payload (bytes "name") <;> simp

/-- A token names a user when it is not empty, decodes, and its payload does. -/
theorem tokenUser_isSome (jwtStr : Bytes) :
    (tokenUser J P jwtStr).isSome ↔
      jwtStr ≠ [] ∧ ∃ jwt, J.decode jwtStr = .ok jwt ∧ HasIdentity jwt.payload := by
  unfold tokenUser
  by_cases hempty : jwtStr = []
  · simp [hempty]
  · rw [if_neg hempty]
    cases hdecode : J.decode jwtStr with
    | error e => simp
    | ok jwt => simp [hempty, userContextOf_isSome]

end FcgiJwtAuth
