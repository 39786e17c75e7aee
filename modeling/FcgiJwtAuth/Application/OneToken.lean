import FcgiJwtAuth.Application.Verify

/-!
# One token for each request

`/verify` authenticates the token that `HTTPUtils_get_cookie` finds, which is the first `auth`
cookie; the login page, the string overload and the file manager take theirs from a loop that ends
with the last one. A header with two different `auth` cookies is authenticated as one user and acted
on as another.
-/

namespace FcgiJwtAuth

open CLang HTTPUtils

variable (J : JwtCpp) (P : Picojson)

/-- The user of `fileman_process_index_get_request` and `fileman_process_list_get_request`. -/
def filemanUserContext {σ : Type} (cookie authorisation : Option CStr) :
    Exec σ (Option JwtUserContext) :=
  jwtinterfaceGetUserContext J P
    (jwtinterfaceGetTokenFromCookieOrAuthorization cookie authorisation)

/-- **The token `/verify` authenticates**: the first `auth` cookie. -/
theorem cookieToken_parseCookies (h : CStr) :
    cookieToken (parseCookies (some h)) = (authValues h.val).headD [] := by
  have hfirst : getCookie (parseCookies (some h)) (bytes "auth") 0 = (authValues h.val).head? := by
    rw [getCookie_parseCookies, authValues, List.head?_map, List.head?_filter]
  unfold cookieToken
  rw [hfirst, List.headD_eq_head?_getD]
  cases (authValues h.val).head? <;> rfl

/-- Every path of a request reads the same token: the cookie lookup, both token loops, and with
them both overloads of the verification and the user of the file manager. -/
structure OneToken (h : CStr) (auth : Option CStr) : Prop where
  cookie_or_authorization : jwtinterfaceGetTokenFromCookieOrAuthorization (some h) auth =
    cookieToken (parseCookies (some h))
  cookie : jwtinterfaceGetTokenFromCookie (parseCookies (some h)) =
    cookieToken (parseCookies (some h))
  overloads : ∀ env storeMan, applicationVerifyJwtAuthenticationStr J P env storeMan (some h) auth =
    applicationVerifyJwtAuthentication J P env storeMan (parseCookies (some h))
  identity : (filemanUserContext J P (some h) auth : Exec Manager _) =
    jwtinterfaceGetUserContext J P (cookieToken (parseCookies (some h)))

/-- The first and the last `auth` cookie have one value (there may be none). -/
def OneAuthValue (header : Bytes) : Prop :=
  (authValues header).head? = (authValues header).getLast?

/-- The defaults of the two readings are the same empty string. -/
theorem headD_eq_getLastD_iff {α : Type*} (l : List α) (d : α) :
    l.headD d = l.getLastD d ↔ l.head? = l.getLast? := by
  cases l with
  | nil => simp
  | cons a l => simp [List.getLast?_cons]

/-- **One token, exactly when the first and the last `auth` cookie agree.** -/
theorem oneToken_iff (h : CStr) (auth : Option CStr) :
    OneToken J P h auth ↔ OneAuthValue h.val := by
  have htoken := token_parseCookies h
  have hcookie := cookieToken_parseCookies h
  have hloops := jwtinterfaceGetToken_eq (some h) auth
  constructor
  · intro hone
    have heq := hone.cookie
    rw [htoken, hcookie] at heq
    exact (headD_eq_getLastD_iff _ _).mp heq.symm
  · intro hagree
    have heq : jwtinterfaceGetTokenFromCookie (parseCookies (some h)) =
        cookieToken (parseCookies (some h)) := by
      rw [htoken, hcookie]
      exact ((headD_eq_getLastD_iff _ _).mpr hagree).symm
    have heq' : jwtinterfaceGetTokenFromCookieOrAuthorization (some h) auth =
        cookieToken (parseCookies (some h)) := hloops.trans heq
    refine ⟨heq', heq, fun env storeMan => ?_, ?_⟩
    · rw [applicationVerifyJwtAuthenticationStr, heq', applicationVerifyJwtAuthentication]
    · rw [filemanUserContext, heq']

/-- Two `auth` cookies: `/verify` authenticates `a`, the file manager acts on `b`. -/
theorem oneToken_two_cookies :
    ¬ OneToken (JwtCpp.ofTable [] fun _ _ => false) (Picojson.ofTable [])
      (CStr.lit "auth=a; auth=b") none := by
  intro hone
  have hfirst : cookieToken (parseCookies (some (CStr.lit "auth=a; auth=b"))) = bytes "a" := by
    decide
  have hlast : jwtinterfaceGetTokenFromCookie (parseCookies (some (CStr.lit "auth=a; auth=b"))) =
      bytes "b" := by
    decide
  have heq := hone.cookie
  rw [hfirst, hlast] at heq
  exact absurd heq (by decide)

end FcgiJwtAuth
