import FcgiJwtAuth.AppAuth.Logout
import FcgiJwtAuth.CLang.Prog

/-!
# Control paths of a request

`appauth_process_request` once more, as the calls it makes: to the verification, the exchange and
the output. With these calls answered by the program's own functions this is the handler of the
other modules. Over every choice of answers it holds that a cookie is made of a token only if this
token was verified before, and that a user is sent on from the login page only if the token of the
request was.
-/

namespace FcgiJwtAuth

open CLang HTTPUtils

/-! ## The calls of the handlers -/

/-- What the handlers call. -/
inductive HandlerCall
  | verifyJwksAuthenticationJwt (jwtStr : Bytes)
  | applicationVerifyJwtAuthentication (cookies : Option Cookies)
  | getTokensFromMicrosoft (code : CStr)
  | getUserContext (jwtStr : Bytes)
  /-- A write, or another call on the output. -/
  | emit (e : Event)

/-- What a call returns. -/
abbrev HandlerCall.Answer : HandlerCall → Type
  | .verifyJwksAuthenticationJwt _ => ℤ
  | .applicationVerifyJwtAuthentication _ => Option JwtUserContext
  | .getTokensFromMicrosoft _ => ℤ × Option CStr
  | .getUserContext _ => Option JwtUserContext
  | .emit _ => PUnit

/-- The functions that are called. -/
def HandlerCall.exec (D : Deployment) (env : RequestEnv) : (c : HandlerCall) → Exec Serving c.Answer
  | .verifyJwksAuthenticationJwt jwtStr =>
    onStoreMan (FcgiJwtAuth.verifyJwksAuthenticationJwt D.jwt D.json env.jwks jwtStr)
  | .applicationVerifyJwtAuthentication cookies =>
    onStoreMan (FcgiJwtAuth.applicationVerifyJwtAuthentication D.jwt D.json env.jwks true cookies)
  | .getTokensFromMicrosoft code =>
    onCodes (FcgiJwtAuth.getTokensFromMicrosoft D.json D.green D.site env.exchange code)
  | .getUserContext jwtStr => jwtinterfaceGetUserContext D.jwt D.json jwtStr
  | .emit e => FcgiJwtAuth.emit e

/-- A handler, as its calls. -/
abbrev Handler (α : Type) := Prog HandlerCall HandlerCall.Answer α

/-- The calls in front, with their answers. -/
abbrev Answereds := List (Prog.Answered HandlerCall HandlerCall.Answer)

namespace Handler

variable (D : Deployment) (env : RequestEnv)

/-- A call alone. -/
def perform (c : HandlerCall) : Handler c.Answer := Prog.perform c

def emit (e : Event) : Handler PUnit := perform (.emit e)

def verify (jwtStr : Bytes) : Handler ℤ := perform (.verifyJwksAuthenticationJwt jwtStr)

def applicationVerify (cookies : Option Cookies) : Handler (Option JwtUserContext) :=
  perform (.applicationVerifyJwtAuthentication cookies)

def getTokens (code : CStr) : Handler (ℤ × Option CStr) := perform (.getTokensFromMicrosoft code)

def getUserContext (jwtStr : Bytes) : Handler (Option JwtUserContext) :=
  perform (.getUserContext jwtStr)

/-! ## The handlers -/

def processLoginPagePost (req : Request) : Handler ℤ :=
  match req.form with
  | .failed => pure 0
  | .null => pure 0
  | .fields getfield => do
    emit (.page (loginPostPage D env getfield))
    emit .finish
    pure 0

def alreadyAuthenticated (req : Request) : Handler Bool :=
  if req.cookie.isSome || req.authorization.isSome then do
    let res ← verify
      (jwtinterfaceGetTokenFromCookieOrAuthorization req.cookie req.authorization)
    pure (decide (res = 0))
  else pure false

def answerLoginPage (returnTo : Bytes) (authenticated : Bool) : Handler ℤ := do
  let _ ← (if authenticated then emit (.page (alreadyAuthenticatedPage returnTo 0)) else pure ⟨⟩)
  emit (.page (loginFormPage D returnTo))
  emit .close
  emit .finish
  pure 0

def processLoginPageGet (req : Request) : Handler ℤ := do
  let authenticated ← alreadyAuthenticated req
  answerLoginPage D (returnTo req.queryString) authenticated

def cookieContent (jwtoken : Bytes) : Handler Bytes :=
  if jwtoken = [] then pure (bytes "NO CONTENT: ERROR\r\n")
  else do
    let userCtx ← getUserContext jwtoken
    pure (jwtContent userCtx)

def verifiedTokenPage (truncated : CStr × Option CStr) (jwtoken : CStr) : Handler Page := do
  let res ← verify jwtoken.val
  pure (if res = 0 then authenticatedPage jwtoken (redirectUrl truncated) truncated.1
    else codeUnauthorizedPage)

def tokensPage (truncated : CStr × Option CStr) (tokens : ℤ × Option CStr) : Handler Page :=
  if tokens.1 = 0 then
    match tokens.2 with
    | none => pure nullTokenPage
    | some jwtoken => verifiedTokenPage truncated jwtoken
  else pure retrievalFailedPage

def exchangedCodePage (code : CStr) (truncated : CStr × Option CStr) : Handler Page := do
  let tokens ← getTokens code
  tokensPage truncated tokens

def codeResponsePage (ctx : RequestContext) (jwtoken content : Bytes) : Handler Page :=
  match ctx.qs (bytes "error") with
  | some error => pure (providerErrorPage D error (ctx.qs (bytes "error_description")))
  | none =>
    match ctx.qs (bytes "code"), ctx.qs (bytes "state") with
    | some code, some state =>
      if openidconnectVerifyString D.site.oauth2DefaultClientSecret state = 0 then
        exchangedCodePage code (truncateAtSecondLastDot state)
      else pure notVerifyablePage
    | _, _ => pure (missingArgumentPage D jwtoken content)

def processCodeResponse (ctx : RequestContext) : Handler ℤ := do
  let jwtoken := cookieToken ctx.cookies
  let content ← cookieContent jwtoken
  let page ← codeResponsePage D ctx jwtoken content
  emit (.page page)
  emit .flush
  emit .close
  emit .finish
  pure 0

def processVerificationRequest (req : Request) (ctx : RequestContext) : Handler ℤ := do
  let userCtx ← applicationVerify ctx.cookies
  emit (.page (verificationAnswer D req userCtx))
  emit .flush
  emit .close
  emit .finish
  pure 0

def directTokenPage (ctx : RequestContext) : Handler Page :=
  match ctx.qs (bytes "token") with
  | none => pure directMissingPage
  | some jwtoken => do
    let res ← verify jwtoken.val
    pure (if res = 0 then directAcceptedPage jwtoken (ctx.qs (bytes "state"))
      else directUnauthorizedPage res)

def processDirectTokenAuthRequest (ctx : RequestContext) : Handler ℤ := do
  let page ← directTokenPage ctx
  emit (.page page)
  emit (.text [])
  emit .close
  emit .finish
  pure 0

def processDebugTokenAuthRequest (ctx : RequestContext) : Handler ℤ := do
  let content ← cookieContent (cookieToken ctx.cookies)
  emit (.page (debugPage content))
  emit .close
  emit .finish
  pure 0

def processLogoutRequest (ctx : RequestContext) : Handler ℤ := do
  emit (.page (logoutPage D ctx.cookies))
  emit (.text (logoutContent D))
  emit .close
  emit .finish
  pure 0

def processBare (status : String) : Handler ℤ := do
  emit (.page (barePage status))
  emit .finish
  pure 0

def handle (req : Request) (ctx : RequestContext) : Route → Handler ℤ
  | .loginPost => processLoginPagePost D env req
  | .logout => processLogoutRequest D ctx
  | .verify => processVerificationRequest D req ctx
  | .microsoft => processCodeResponse D ctx
  | .direct => processDirectTokenAuthRequest ctx
  | .debug => processDebugTokenAuthRequest ctx
  | .head => processBare "403"
  | .notFound => processBare "404"

def isLoginPageGet (req : Request) : Handler Bool :=
  match req.requestMethod with
  | none => .undefined
  | some method =>
    if strEq method.val (bytes "GET") then
      match req.pathInfo with
      | none => .undefined
      | some path => pure (strEq path.val (bytes "login"))
    else pure false

def fcgxPrepareRequestContext (req : Request) : Handler RequestContext :=
  match req.requestMethod, req.requestUri, req.scriptName, req.pathInfo, req.documentRoot with
  | some method, some _, some _, some path, some _ => pure (requestContext D.green req method path)
  | _, _, _, _, _ => .undefined

def dispatch (req : Request) : Handler ℤ := do
  let ctx ← fcgxPrepareRequestContext D req
  handle D env req ctx (route ctx.requestMethod ctx.pathInfo)

def appauthProcessRequest (req : Request) : Handler ℤ := do
  match ← isLoginPageGet req with
  | true => processLoginPageGet D req
  | false => dispatch D env req

end Handler

/-! ## They are the handlers -/

section Interp

variable {D : Deployment} {env : RequestEnv}

/-- A handler with its calls made. -/
def Handler.exec {α : Type} (D : Deployment) (env : RequestEnv) (h : Handler α) : Exec Serving α :=
  h.interp (HandlerCall.exec D env)

theorem exec_pure {α : Type} (a : α) : (pure a : Handler α).exec D env = pure a := rfl

theorem exec_bind {α β : Type} (h : Handler α) (f : α → Handler β) :
    (h >>= f).exec D env = h.exec D env >>= fun a => (f a).exec D env := Prog.interp_bind _ h f

theorem exec_perform (c : HandlerCall) : (Handler.perform c).exec D env = c.exec D env :=
  Prog.interp_perform _ c

theorem exec_emit (e : Event) : (Handler.emit e).exec D env = emit e := exec_perform _

theorem exec_verify (jwtStr : Bytes) : (Handler.verify jwtStr).exec D env =
    onStoreMan (verifyJwksAuthenticationJwt D.jwt D.json env.jwks jwtStr) := exec_perform _

theorem exec_applicationVerify (cookies : Option Cookies) :
    (Handler.applicationVerify cookies).exec D env =
      onStoreMan (applicationVerifyJwtAuthentication D.jwt D.json env.jwks true cookies) :=
  exec_perform _

theorem exec_getTokens (code : CStr) : (Handler.getTokens code).exec D env =
    onCodes (getTokensFromMicrosoft D.json D.green D.site env.exchange code) := exec_perform _

theorem exec_getUserContext (jwtStr : Bytes) : (Handler.getUserContext jwtStr).exec D env =
    jwtinterfaceGetUserContext D.jwt D.json jwtStr := exec_perform _

theorem exec_processLoginPagePost (req : Request) :
    (Handler.processLoginPagePost D env req).exec D env = processLoginPagePost D env req := by
  unfold Handler.processLoginPagePost processLoginPagePost
  cases req.form with
  | fields getfield => simp only [exec_bind, exec_emit, exec_pure]
  | _ => rfl

theorem exec_processLoginPageGet (req : Request) :
    (Handler.processLoginPageGet D req).exec D env = processLoginPageGet D env req := by
  have hauth : (Handler.alreadyAuthenticated req).exec D env = alreadyAuthenticated D env req := by
    unfold Handler.alreadyAuthenticated alreadyAuthenticated
    by_cases hsent : (req.cookie.isSome || req.authorization.isSome) = true
    · rw [if_pos hsent, if_pos hsent, exec_bind, exec_verify]
      rfl
    · rw [if_neg hsent, if_neg hsent]
      rfl
  have hanswer : ∀ returnTo authenticated, (Handler.answerLoginPage D returnTo authenticated).exec
      D env = answerLoginPage D returnTo authenticated := by
    intro returnTo authenticated
    unfold Handler.answerLoginPage answerLoginPage
    cases authenticated <;> simp only [exec_bind, exec_emit, exec_pure, if_true, if_false,
      Bool.false_eq_true]
  unfold Handler.processLoginPageGet processLoginPageGet
  simp only [exec_bind, hauth, hanswer]

theorem exec_cookieContent (jwtoken : Bytes) :
    (Handler.cookieContent jwtoken).exec D env = cookieContent D jwtoken := by
  unfold Handler.cookieContent cookieContent
  by_cases hempty : jwtoken = []
  · rw [if_pos hempty, if_pos hempty]
    rfl
  · rw [if_neg hempty, if_neg hempty, exec_bind, exec_getUserContext]
    rfl

theorem exec_tokensPage (truncated : CStr × Option CStr) (tokens : ℤ × Option CStr) :
    (Handler.tokensPage truncated tokens).exec D env = tokensPage D env truncated tokens := by
  unfold Handler.tokensPage tokensPage
  by_cases hzero : tokens.1 = 0
  · rw [if_pos hzero, if_pos hzero]
    cases tokens.2 with
    | none => rfl
    | some jwtoken =>
      simp only [Handler.verifiedTokenPage, verifiedTokenPage, exec_bind, exec_verify, exec_pure]
  · rw [if_neg hzero, if_neg hzero]
    rfl

theorem exec_codeResponsePage (ctx : RequestContext) (jwtoken content : Bytes) :
    (Handler.codeResponsePage D ctx jwtoken content).exec D env =
      codeResponsePage D env ctx jwtoken content := by
  unfold Handler.codeResponsePage codeResponsePage
  cases ctx.qs (bytes "error") with
  | some error => rfl
  | none =>
    cases ctx.qs (bytes "code") with
    | none => rfl
    | some code =>
      cases ctx.qs (bytes "state") with
      | none => rfl
      | some state =>
        simp only
        by_cases hmac : openidconnectVerifyString D.site.oauth2DefaultClientSecret state = 0
        · rw [if_pos hmac, if_pos hmac]
          simp only [Handler.exchangedCodePage, exchangedCodePage, exec_bind, exec_getTokens,
            exec_tokensPage]
        · rw [if_neg hmac, if_neg hmac]
          rfl

theorem exec_processCodeResponse (ctx : RequestContext) :
    (Handler.processCodeResponse D ctx).exec D env = processCodeResponse D env ctx := by
  simp only [Handler.processCodeResponse, processCodeResponse, exec_bind, exec_cookieContent,
    exec_codeResponsePage, exec_emit, exec_pure]

theorem exec_processVerificationRequest (req : Request) (ctx : RequestContext) :
    (Handler.processVerificationRequest D req ctx).exec D env =
      processVerificationRequest D env req ctx := by
  simp only [Handler.processVerificationRequest, processVerificationRequest, exec_bind,
    exec_applicationVerify, exec_emit, exec_pure]

theorem exec_processDirectTokenAuthRequest (ctx : RequestContext) :
    (Handler.processDirectTokenAuthRequest ctx).exec D env =
      processDirectTokenAuthRequest D env ctx := by
  have hpage : (Handler.directTokenPage ctx).exec D env = directTokenPage D env ctx := by
    unfold Handler.directTokenPage directTokenPage
    cases ctx.qs (bytes "token") with
    | none => rfl
    | some jwtoken => simp only [exec_bind, exec_verify, exec_pure]
  simp only [Handler.processDirectTokenAuthRequest, processDirectTokenAuthRequest, exec_bind, hpage,
    exec_emit, exec_pure]

/-- The handler of a route, with its calls made. -/
theorem exec_handle (req : Request) (ctx : RequestContext) (r : Route) :
    (Handler.handle D env req ctx r).exec D env = handle D env req ctx r := by
  cases r with
  | loginPost => exact exec_processLoginPagePost req
  | logout =>
    simp only [Handler.handle, handle, Handler.processLogoutRequest, processLogoutRequest,
      exec_bind, exec_emit, exec_pure]
  | verify => exact exec_processVerificationRequest req ctx
  | microsoft => exact exec_processCodeResponse ctx
  | direct => exact exec_processDirectTokenAuthRequest ctx
  | debug =>
    simp only [Handler.handle, handle, Handler.processDebugTokenAuthRequest,
      processDebugTokenAuthRequest, exec_bind, exec_cookieContent, exec_emit, exec_pure]
  | head =>
    simp only [Handler.handle, handle, Handler.processBare, processBare, exec_bind, exec_emit,
      exec_pure]
  | notFound => simp only [Handler.handle, handle, Handler.processBare, processBare, exec_bind,
      exec_emit, exec_pure]

/-- **With its calls made it is the handler** of the other modules. -/
theorem exec_appauthProcessRequest (req : Request) :
    (Handler.appauthProcessRequest D env req).exec D env = appauthProcessRequest D env req := by
  have hlogin : (Handler.isLoginPageGet req).exec D env = isLoginPageGet req := by
    unfold Handler.isLoginPageGet isLoginPageGet
    cases req.requestMethod with
    | none => rfl
    | some method =>
      simp only
      split_ifs
      · cases req.pathInfo <;> rfl
      · rfl
  have hctx : (Handler.fcgxPrepareRequestContext D req).exec D env =
      fcgxPrepareRequestContext D.green req := by
    unfold Handler.fcgxPrepareRequestContext fcgxPrepareRequestContext
    cases req.requestMethod <;> cases req.requestUri <;> cases req.scriptName <;>
      cases req.pathInfo <;> cases req.documentRoot <;> rfl
  have hdispatch : (Handler.dispatch D env req).exec D env = dispatch D env req := by
    simp only [Handler.dispatch, dispatch, exec_bind, hctx, exec_handle]
  unfold Handler.appauthProcessRequest appauthProcessRequest
  rw [exec_bind, hlogin]
  refine congrArg (isLoginPageGet req >>= ·) (funext fun login => ?_)
  cases login with
  | true => exact exec_processLoginPageGet req
  | false => exact hdispatch

end Interp

/-! ## What is written behind which calls -/

/-- The token was verified: the call has returned 0. -/
def Verified (l : Answereds) (jwtStr : Bytes) : Prop :=
  ⟨.verifyJwksAuthenticationJwt jwtStr, (0 : ℤ)⟩ ∈ l

/-- What follows the `=` of a cookie that is expired. -/
def expiredValue : Bytes :=
  bytes "; Path=/; " ++ bytes "Max-Age=0; Expires=Thu, 01 Jan 1970 00:00:00 GMT; "

/-- A token on the page that is made an `auth` cookie was verified, and any other `auth` cookie on
it is expired, and has no value. -/
structure CookiesVerified (l : Answereds) (page : Page) : Prop where
  verified : ∀ jwtoken, authCookie jwtoken ∈ page.fields → Verified l jwtoken.val
  others : ∀ value, (bytes "Set-Cookie", bytes "auth=" ++ value) ∈ page.fields →
    (∃ jwtoken, authCookie jwtoken = (bytes "Set-Cookie", bytes "auth=" ++ value)) ∨
      expiredValue <+: value

/-- The header blocks satisfy `R`, with the calls in front of them. -/
def PagesSatisfy (R : Answereds → Page → Prop) (l : Answereds) : HandlerCall → Prop
  | .emit (.page page) => R l page
  | _ => True

section Wp

variable {R : Answereds → Page → Prop} {l : Answereds} {α : Type}

/-- Every header block that the handler writes satisfies `R`. -/
def Handler.Writes (R : Answereds → Page → Prop) (h : Handler α) (Q : Answereds → α → Prop)
    (l : Answereds) : Prop := h.wp (PagesSatisfy R) Q l

variable {Q : Answereds → α → Prop}

@[simp] theorem writes_pure (a : α) : (pure a : Handler α).Writes R Q l ↔ Q l a := Iff.rfl

@[simp] theorem writes_bind {β : Type} (h : Handler β) (f : β → Handler α) :
    (h >>= f).Writes R Q l ↔ h.Writes R (fun l b => (f b).Writes R Q l) l := Prog.wp_bind h f

theorem writes_page (page : Page) {Q : Answereds → PUnit → Prop} :
    (Handler.emit (.page page)).Writes R Q l ↔
      R l page ∧ Q (l ++ [⟨.emit (.page page), PUnit.unit⟩]) ⟨⟩ :=
  and_congr_right fun _ => ⟨fun h => h ⟨⟩, fun h _ => h⟩

theorem writes_emit {e : Event} (he : e.page? = none) {Q : Answereds → PUnit → Prop} :
    (Handler.emit e).Writes R Q l ↔ Q (l ++ [⟨.emit e, PUnit.unit⟩]) ⟨⟩ := by
  have hallowed : PagesSatisfy R l (.emit e) := by
    cases e with
    | page page => cases he
    | _ => trivial
  exact ⟨fun h => h.2 ⟨⟩, fun h => ⟨hallowed, fun _ => h⟩⟩

theorem writes_verify (jwtStr : Bytes) {Q : Answereds → ℤ → Prop} :
    (Handler.verify jwtStr).Writes R Q l ↔
      ∀ res : ℤ, Q (l ++ [⟨.verifyJwksAuthenticationJwt jwtStr, res⟩]) res :=
  ⟨fun h => h.2, fun h => ⟨trivial, h⟩⟩

theorem writes_applicationVerify (cookies : Option Cookies)
    {Q : Answereds → Option JwtUserContext → Prop} :
    (Handler.applicationVerify cookies).Writes R Q l ↔ ∀ userCtx : Option JwtUserContext,
      Q (l ++ [⟨.applicationVerifyJwtAuthentication cookies, userCtx⟩]) userCtx :=
  ⟨fun h => h.2, fun h => ⟨trivial, h⟩⟩

theorem writes_getTokens (code : CStr) {Q : Answereds → ℤ × Option CStr → Prop} :
    (Handler.getTokens code).Writes R Q l ↔
      ∀ tokens : ℤ × Option CStr, Q (l ++ [⟨.getTokensFromMicrosoft code, tokens⟩]) tokens :=
  ⟨fun h => h.2, fun h => ⟨trivial, h⟩⟩

theorem writes_getUserContext (jwtStr : Bytes) {Q : Answereds → Option JwtUserContext → Prop} :
    (Handler.getUserContext jwtStr).Writes R Q l ↔ ∀ userCtx : Option JwtUserContext,
      Q (l ++ [⟨.getUserContext jwtStr, userCtx⟩]) userCtx :=
  ⟨fun h => h.2, fun h => ⟨trivial, h⟩⟩

/-- Whatever it returns. -/
def Handler.WritesOnly (R : Answereds → Page → Prop) (h : Handler α) (l : Answereds) : Prop :=
  h.Writes R (fun _ _ => True) l

/-- What holds of every header block holds on every control path. -/
theorem Handler.WritesOnly.of_makes {h : Handler α} (hR : h.WritesOnly R []) {page : Page}
    (hmakes : h.Makes l (.emit (.page page))) : R l page :=
  (Prog.wp_iff_makes h).mp hR l _ hmakes

/-- A page, and what is written behind it. -/
theorem writesOnly_page {page : Page} {rest : Handler ℤ} (h : R l page)
    (hrest : ∀ l, rest.WritesOnly R l) :
    (do
      Handler.emit (.page page)
      rest).WritesOnly R l := by
  rw [Handler.WritesOnly, writes_bind, writes_page]
  exact ⟨h, hrest _⟩

theorem writesOnly_emit {e : Event} (he : e.page? = none) {rest : Handler ℤ}
    (hrest : ∀ l, rest.WritesOnly R l) :
    (do
      Handler.emit e
      rest).WritesOnly R l := by
  rw [Handler.WritesOnly, writes_bind, writes_emit he]
  exact hrest _

theorem writesOnly_pure (a : α) : (pure a : Handler α).WritesOnly R l := trivial

/-- The end of most handlers. -/
theorem writesOnly_close (l : Answereds) :
    (do
      Handler.emit .close
      Handler.emit .finish
      pure 0 : Handler ℤ).WritesOnly R l :=
  writesOnly_emit rfl fun _ => writesOnly_emit rfl fun _ => writesOnly_pure 0

theorem writesOnly_flush (l : Answereds) :
    (do
      Handler.emit .flush
      Handler.emit .close
      Handler.emit .finish
      pure 0 : Handler ℤ).WritesOnly R l := writesOnly_emit rfl writesOnly_close

/-- A page that is made and written. -/
theorem writesOnly_makesPage {h : Handler Page} {rest : Handler ℤ} (hpage : h.Writes R R l)
    (hrest : ∀ l, rest.WritesOnly R l) :
    (do
      let page ← h
      Handler.emit (.page page)
      rest).WritesOnly R l := by
  rw [Handler.WritesOnly, writes_bind]
  exact Prog.wp_mono hpage fun _ _ hR => writesOnly_page hR hrest

end Wp

/-! ### The pages -/

section Pages

variable {l : Answereds}

theorem authCookie_fst (jwtoken : CStr) : (authCookie jwtoken).1 = bytes "Set-Cookie" := rfl

/-- A page without cookies. -/
theorem cookiesVerified_of_noCookie {page : Page}
    (h : ∀ field ∈ page.fields, field.1 ≠ bytes "Set-Cookie") : CookiesVerified l page where
  verified jwtoken hmem := absurd (authCookie_fst jwtoken) (h _ hmem)
  others _ hmem := absurd rfl (h _ hmem)

/-- A page that writes its content type alone. -/
theorem cookiesVerified_of_contentType {page : Page} (h : page.fields = [contentType]) :
    CookiesVerified l page := by
  refine cookiesVerified_of_noCookie fun field hfield => ?_
  rw [h, List.mem_singleton] at hfield
  rw [hfield]
  decide

theorem authCookie_injective {a b : CStr} (h : authCookie a = authCookie b) : a.val = b.val := by
  have hvalue := (Prod.mk.inj h).2
  simp only [List.append_assoc] at hvalue
  exact List.append_cancel_right (List.append_cancel_left hvalue)

/-- A page with the cookie of a verified token. -/
theorem cookiesVerified_of_authCookie {page : Page} {jwtoken : CStr}
    (hverified : Verified l jwtoken.val)
    (h : ∀ field ∈ page.fields, field = authCookie jwtoken ∨ field.1 ≠ bytes "Set-Cookie") :
    CookiesVerified l page where
  verified jwtoken' hmem := by
    rcases h _ hmem with heq | hne
    · rwa [authCookie_injective heq]
    · exact absurd (authCookie_fst jwtoken') hne
  others value hmem := by
    rcases h _ hmem with heq | hne
    · exact Or.inl ⟨jwtoken, heq.symm⟩
    · exact absurd rfl hne

/-- Texts that end differently. -/
theorem append_ne_of_suffix {a b s t : Bytes} (hlength : s.length = t.length) (hne : s ≠ t) :
    a ++ s ≠ b ++ t := fun h => hne (List.append_inj' h hlength).2

/-- An expiring field is no cookie of a token. -/
theorem expiringCookie_ne_authCookie (D : Deployment) (name jwtoken : CStr) :
    expiringCookie D name ≠ authCookie jwtoken := by
  intro h
  have hvalue := (Prod.mk.inj h).2
  have hexpires : bytes "Max-Age=0; Expires=Thu, 01 Jan 1970 00:00:00 GMT; " =
      bytes "Max-Age=0; Expires=Thu, 01 Jan 1970 00:00:00 GM" ++ bytes "T; " := by decide
  rw [hexpires, ← List.append_assoc] at hvalue
  by_cases hauth : strEq name.val (bytes "auth") = true
  · have hattributes : bytes "; Path=/; Secure; HttpOnly; SameSite=Lax" =
        bytes "; Path=" ++ bytes "/; Secure; HttpOnly; SameSite=Lax" := by decide
    rw [if_pos hauth, hattributes, List.append_assoc,
      ← List.append_assoc (_ ++ jwtoken.val)] at hvalue
    exact append_ne_of_suffix (by decide) (by decide) hvalue
  · have hattributes : bytes "; Path=/; Secure; HttpOnly; SameSite=Lax" =
        bytes "; Path=/; Secure; HttpOnly; SameSite=" ++ bytes "Lax" := by decide
    rw [if_neg hauth, List.append_nil, hattributes, ← List.append_assoc] at hvalue
    exact append_ne_of_suffix (by decide) (by decide) hvalue

/-- The library writes no `=` for a text that has none. -/
def EncodesPlainly (D : Deployment) : Prop :=
  ∀ s : CStr, ch '=' ∉ s.val → ch '=' ∉ D.green.htmlspecialEncode s

/-- A field that expires a cookie of that name. -/
theorem expired_of_expiringCookie {D : Deployment} (hgreen : EncodesPlainly D) {name : CStr}
    (hname : ch '=' ∉ name.val) {value : Bytes}
    (h : expiringCookie D name = (bytes "Set-Cookie", bytes "auth=" ++ value)) :
    expiredValue <+: value := by
  have hvalue := (Prod.mk.inj h).2
  have hpath : bytes "=; Path=/; " = ch '=' :: bytes "; Path=/; " := by decide
  have hauth : bytes "auth=" = bytes "auth" ++ [ch '='] := by decide
  have hno : ch '=' ∉ bytes "auth" := by decide
  rw [hpath, hauth] at hvalue
  simp only [List.append_assoc, List.cons_append, List.nil_append] at hvalue
  have hbehind := congrArg (after (ch '=')) hvalue
  rw [after_append_cons (hgreen name hname), after_append_cons hno] at hbehind
  rw [← hbehind]
  exact ⟨_, List.append_assoc _ _ _⟩

/-- The fields of a logout: cookies that are expired, under names without `=`. -/
theorem fields_logoutPage (D : Deployment) (cookie : Option CStr) {field : Bytes × Bytes}
    (h : field ∈ (logoutPage D (parseCookies cookie)).fields) :
    (∃ name : CStr, ch '=' ∉ name.val ∧ field = expiringCookie D name) ∨
      field.1 ≠ bytes "Set-Cookie" := by
  have hother : ∀ field ∈ [(bytes "Cache-Control", bytes "no-cache"), contentType],
      field.1 ≠ bytes "Set-Cookie" := by decide
  rcases List.mem_append.mp h with hcookie | hrest
  · cases cookie with
    | none => cases hcookie
    | some header =>
      obtain ⟨buf, entries, hparse, hread⟩ := parseCookies_entries header
      obtain ⟨-, hplain⟩ := cookiePairs_groups header.val .nothing
      simp only [hparse, expiringCookies_entries] at hcookie
      obtain ⟨e, he, rfl⟩ := List.mem_map.mp hcookie
      exact Or.inl ⟨_, hplain (readEntry buf e) (hread ▸ List.mem_map_of_mem he), rfl⟩
  · exact Or.inr (hother field hrest)

theorem cookiesVerified_logoutPage {D : Deployment} (hgreen : EncodesPlainly D)
    (cookie : Option CStr) : CookiesVerified l (logoutPage D (parseCookies cookie)) where
  verified jwtoken hmem := by
    rcases fields_logoutPage D cookie hmem with ⟨name, -, heq⟩ | hne
    · exact absurd heq.symm (expiringCookie_ne_authCookie D name jwtoken)
    · exact absurd rfl hne
  others value hmem := by
    rcases fields_logoutPage D cookie hmem with ⟨name, hname, heq⟩ | hne
    · exact Or.inr (expired_of_expiringCookie hgreen hname heq.symm)
    · exact absurd rfl hne

/-- A redirection without a cookie. -/
theorem cookiesVerified_of_location {page : Page} (location : Bytes)
    (h : ∀ field ∈ page.fields, field = contentType ∨ field = (bytes "Location", location)) :
    CookiesVerified l page := by
  have hlocation : bytes "Location" ≠ bytes "Set-Cookie" := by decide
  refine cookiesVerified_of_noCookie fun field hfield => ?_
  rcases h field hfield with rfl | rfl
  · decide
  · exact hlocation

theorem cookiesVerified_loginPostPage {D : Deployment} {env : RequestEnv}
    (getfield : Bytes → Option (Option Bytes)) :
    CookiesVerified l (loginPostPage D env getfield) := by
  unfold loginPostPage
  split_ifs
  · exact cookiesVerified_of_location (redirectUri D (D.green.urlEncode
      (verifyableString D env getfield))) (by simp [providerPage])
  · exact cookiesVerified_of_contentType rfl

theorem fields_verificationAnswer (D : Deployment) (req : Request)
    (userCtx : Option JwtUserContext) :
    (verificationAnswer D req userCtx).fields = [contentType] := by
  cases userCtx with
  | none => rfl
  | some ctx =>
    simp only [verificationAnswer]
    split_ifs <;> rfl

end Pages

/-! ### The handlers -/

section Handlers

variable {D : Deployment} {env : RequestEnv} {l : Answereds}

/-- The handler makes a page with verified cookies. -/
def Handler.MakesPage (h : Handler Page) (l : Answereds) : Prop :=
  h.Writes CookiesVerified CookiesVerified l

/-- What reading a cookie's content is followed by. -/
theorem keepsCookies_cookieContent (jwtoken : Bytes) {rest : Bytes → Handler ℤ}
    (hrest : ∀ content l, (rest content).WritesOnly CookiesVerified l) :
    (Handler.cookieContent jwtoken >>= rest).WritesOnly CookiesVerified l := by
  unfold Handler.cookieContent
  by_cases hempty : jwtoken = []
  · rw [if_pos hempty]
    exact hrest _ l
  · rw [if_neg hempty, Handler.WritesOnly, writes_bind, writes_bind, writes_getUserContext]
    exact fun userCtx => hrest _ _

/-- **A verification, and what is made of its result**: the cookie of the token if it is 0. -/
theorem makesPage_verify (jwtoken : CStr) {page : ℤ → Page}
    (haccepted : ∀ field ∈ (page 0).fields,
      field = authCookie jwtoken ∨ field.1 ≠ bytes "Set-Cookie")
    (hrejected : ∀ res, res ≠ 0 → (page res).fields = [contentType]) :
    Handler.MakesPage (do
      let res ← Handler.verify jwtoken.val
      pure (page res)) l := by
  rw [Handler.MakesPage, writes_bind, writes_verify]
  intro res
  rw [writes_pure]
  by_cases hres : res = 0
  · subst hres
    refine cookiesVerified_of_authCookie ?_ haccepted
    exact List.mem_append_right _ (List.mem_singleton_self _)
  · exact cookiesVerified_of_contentType (hrejected res hres)

theorem makesPage_tokensPage (truncated : CStr × Option CStr) (tokens : ℤ × Option CStr) :
    (Handler.tokensPage truncated tokens).MakesPage l := by
  unfold Handler.tokensPage
  by_cases hzero : tokens.1 = 0
  · rw [if_pos hzero]
    cases tokens.2 with
    | none => exact cookiesVerified_of_contentType rfl
    | some jwtoken =>
      refine makesPage_verify jwtoken (fun field hfield => ?_) fun res hres => ?_
      · have hlocation : bytes "Location" ≠ bytes "Set-Cookie" := by decide
        rw [if_pos rfl] at hfield
        simp only [authenticatedPage, List.mem_cons, List.not_mem_nil, or_false] at hfield
        rcases hfield with rfl | rfl | rfl
        · exact Or.inl rfl
        · exact Or.inr (by decide)
        · exact Or.inr hlocation
      · rw [if_neg hres]
        rfl
  · rw [if_neg hzero]
    exact cookiesVerified_of_contentType rfl

theorem makesPage_codeResponsePage (ctx : RequestContext) (jwtoken content : Bytes) :
    (Handler.codeResponsePage D ctx jwtoken content).MakesPage l := by
  unfold Handler.codeResponsePage
  cases ctx.qs (bytes "error") with
  | some error => exact cookiesVerified_of_contentType rfl
  | none =>
    cases ctx.qs (bytes "code") with
    | none => exact cookiesVerified_of_contentType rfl
    | some code =>
      cases ctx.qs (bytes "state") with
      | none => exact cookiesVerified_of_contentType rfl
      | some state =>
        simp only
        by_cases hmac : openidconnectVerifyString D.site.oauth2DefaultClientSecret state = 0
        · rw [if_pos hmac, Handler.exchangedCodePage, Handler.MakesPage, writes_bind,
            writes_getTokens]
          exact fun tokens => makesPage_tokensPage _ tokens
        · rw [if_neg hmac]
          exact cookiesVerified_of_contentType rfl

theorem makesPage_directTokenPage (ctx : RequestContext) :
    (Handler.directTokenPage ctx).MakesPage l := by
  unfold Handler.directTokenPage
  cases ctx.qs (bytes "token") with
  | none => exact cookiesVerified_of_contentType rfl
  | some jwtoken =>
    refine makesPage_verify jwtoken (fun field hfield => ?_) fun res hres => ?_
    · rw [if_pos rfl] at hfield
      simp only [directAcceptedPage, directPage, List.mem_cons, List.not_mem_nil, or_false]
        at hfield
      rcases hfield with rfl | rfl
      · exact Or.inl rfl
      · exact Or.inr (by decide)
    · rw [if_neg hres]
      rfl

/-- **Every route.** -/
theorem keepsCookies_handle (hgreen : EncodesPlainly D) {req : Request} {ctx : RequestContext}
    (hctx : ctx.cookies = parseCookies req.cookie) (r : Route) :
    (Handler.handle D env req ctx r).WritesOnly CookiesVerified l := by
  have hbare : ∀ status l, (Handler.processBare status).WritesOnly CookiesVerified l :=
    fun status l => writesOnly_page (cookiesVerified_of_contentType rfl) fun _ =>
      writesOnly_emit rfl fun _ => writesOnly_pure 0
  cases r with
  | loginPost =>
    rw [Handler.handle, Handler.processLoginPagePost]
    cases req.form with
    | fields getfield =>
      exact writesOnly_page (cookiesVerified_loginPostPage getfield) fun _ =>
        writesOnly_emit rfl fun _ => writesOnly_pure 0
    | _ => exact writesOnly_pure 0
  | logout =>
    rw [Handler.handle, Handler.processLogoutRequest, hctx]
    exact writesOnly_page (cookiesVerified_logoutPage hgreen req.cookie) fun _ =>
      writesOnly_emit rfl writesOnly_close
  | verify =>
    rw [Handler.handle, Handler.processVerificationRequest, Handler.WritesOnly, writes_bind,
      writes_applicationVerify]
    intro userCtx
    exact writesOnly_page (cookiesVerified_of_contentType (fields_verificationAnswer D req userCtx))
      writesOnly_flush
  | microsoft =>
    exact keepsCookies_cookieContent _ fun content _ =>
      writesOnly_makesPage (makesPage_codeResponsePage ctx _ content) writesOnly_flush
  | direct =>
    exact writesOnly_makesPage (makesPage_directTokenPage ctx) fun _ =>
      writesOnly_emit rfl writesOnly_close
  | debug =>
    exact keepsCookies_cookieContent _ fun content _ =>
      writesOnly_page (cookiesVerified_of_contentType rfl) writesOnly_close
  | head => exact hbare _ l
  | notFound => exact hbare _ l

/-! ### The login page -/

/-- The token of the request's `auth` cookie, as the login page takes it. -/
def loginToken (req : Request) : Bytes := jwtinterfaceGetTokenFromCookie (parseCookies req.cookie)

/-- A redirection comes behind a verification of the request's token. -/
def RedirectsVerified (req : Request) (l : Answereds) (page : Page) : Prop :=
  page.status = "302" → Verified l (loginToken req)

/-- The two pages of the login page. -/
theorem writesOnly_answerLoginPage {R : Answereds → Page → Prop} {returnTo : Bytes}
    {authenticated : Bool}
    (hpage : authenticated = true → R l (alreadyAuthenticatedPage returnTo 0))
    (hform : ∀ l, R l (loginFormPage D returnTo)) :
    (Handler.answerLoginPage D returnTo authenticated).WritesOnly R l := by
  unfold Handler.answerLoginPage
  cases authenticated with
  | true => exact writesOnly_page (hpage rfl) fun l => writesOnly_page (hform l) writesOnly_close
  | false => exact writesOnly_page (hform l) writesOnly_close

/-- **The login page redirects** only behind a verification that returned 0. -/
theorem writesOnly_processLoginPageGet (req : Request) :
    (Handler.processLoginPageGet D req).WritesOnly (RedirectsVerified req) l := by
  have hform : ∀ l, RedirectsVerified req l (loginFormPage D (returnTo req.queryString)) := by
    intro l hstatus
    exact absurd hstatus (by simp [loginFormPage])
  unfold Handler.processLoginPageGet Handler.alreadyAuthenticated
  by_cases hsent : (req.cookie.isSome || req.authorization.isSome) = true
  · rw [if_pos hsent, Handler.WritesOnly, writes_bind, writes_bind, writes_verify]
    intro res
    rw [writes_pure]
    refine writesOnly_answerLoginPage (fun hzero _ => ?_) hform
    obtain rfl := of_decide_eq_true hzero
    rw [jwtinterfaceGetToken_eq]
    exact List.mem_append_right _ (List.mem_singleton_self _)
  · rw [if_neg hsent]
    exact writesOnly_answerLoginPage (by simp) hform

/-- It sets no cookie. -/
theorem keepsCookies_processLoginPageGet (req : Request) :
    (Handler.processLoginPageGet D req).WritesOnly CookiesVerified l := by
  have hanswer : ∀ authenticated l, (Handler.answerLoginPage D (returnTo req.queryString)
      authenticated).WritesOnly CookiesVerified l := by
    intro authenticated l
    exact writesOnly_answerLoginPage
      (fun _ => cookiesVerified_of_location (returnTo req.queryString)
        (by simp [alreadyAuthenticatedPage]))
      fun _ => cookiesVerified_of_contentType rfl
  unfold Handler.processLoginPageGet Handler.alreadyAuthenticated
  by_cases hsent : (req.cookie.isSome || req.authorization.isSome) = true
  · rw [if_pos hsent, Handler.WritesOnly, writes_bind, writes_bind, writes_verify]
    exact fun res => hanswer _ _
  · rw [if_neg hsent]
    exact hanswer _ _

/-- **Every request.** -/
theorem keepsCookies_appauthProcessRequest (hgreen : EncodesPlainly D) (req : Request) :
    (Handler.appauthProcessRequest D env req).WritesOnly CookiesVerified l := by
  have hdispatch : ∀ l, (Handler.dispatch D env req).WritesOnly CookiesVerified l := by
    intro l
    unfold Handler.dispatch Handler.fcgxPrepareRequestContext
    split
    · exact keepsCookies_handle hgreen rfl _
    · trivial
  unfold Handler.appauthProcessRequest Handler.isLoginPageGet
  cases req.requestMethod with
  | none => trivial
  | some method =>
    simp only
    by_cases hget : strEq method.val (bytes "GET") = true
    · rw [if_pos hget]
      cases req.pathInfo with
      | none => trivial
      | some path =>
        show (match strEq path.val (bytes "login") with
          | true => Handler.processLoginPageGet D req
          | false => Handler.dispatch D env req).WritesOnly CookiesVerified l
        cases strEq path.val (bytes "login") with
        | true => exact keepsCookies_processLoginPageGet req
        | false => exact hdispatch l
    · rw [if_neg hget]
      exact hdispatch l

/-- **Only verified tokens become cookies.** Whatever the verification, the exchange and the cache
answer: on every control path of a request a token is made an `auth` cookie only behind its own
verification, and the login page redirects only behind the one of the request's token. With the
calls made the paths are the handler's. -/
theorem cookies_verified_first (D : Deployment) (env : RequestEnv) (hgreen : EncodesPlainly D)
    (req : Request) :
    (Handler.appauthProcessRequest D env req).exec D env = appauthProcessRequest D env req ∧
    (∀ l page, (Handler.appauthProcessRequest D env req).Makes l (.emit (.page page)) →
      CookiesVerified l page) ∧
    (∀ l page, (Handler.processLoginPageGet D req).Makes l (.emit (.page page)) →
      page.status = "302" → Verified l (loginToken req)) := by
  refine ⟨exec_appauthProcessRequest req, fun l page hmakes => ?_, fun l page hmakes => ?_⟩
  · exact (keepsCookies_appauthProcessRequest hgreen req).of_makes hmakes
  · exact (writesOnly_processLoginPageGet req).of_makes hmakes

end Handlers

/-- Escaping writes no `=`, if the names of its references have none. -/
theorem encodesPlainly_of_htmlEscape {D : Deployment} {entity : Byte → Bytes}
    (hgreen : ∀ s, D.green.htmlspecialEncode s = htmlEscape entity s.val)
    (hentity : PlainNames entity) : EncodesPlainly D := by
  intro s hs hmem
  rw [hgreen] at hmem
  obtain ⟨b, hb, hcoded⟩ := List.mem_flatMap.mp hmem
  rw [htmlEscapeByte] at hcoded
  by_cases hspecial : isHtmlSpecial b = true
  · have hplain := (hentity b hspecial).1
    have hne : ch '=' ≠ ch '&' ∧ ch '=' ≠ ch ';' := by decide
    rw [if_pos hspecial] at hcoded
    simp [hne.1, hne.2, hplain] at hcoded
  · rw [if_neg hspecial, List.mem_singleton] at hcoded
    exact hs (hcoded ▸ hb)

/-- A query string with a token. -/
def tokenQuery (key : Bytes) : Option CStr :=
  if key = bytes "token" then some (CStr.ofBytes signedToken) else none

/-- A site that is given it. -/
def directDeployment : Deployment :=
  { signedDeployment with
    green :=
      { Libgreen.ofQuery tokenQuery with
        htmlspecialEncode := fun s => htmlEscape htmlName s.val } }

/-- `GET direct`. -/
def directGet : Served where
  env := envAt 1790000060 []
  req := requestOf "GET" "direct" none (some (CStr.ofBytes (bytes "token=" ++ signedToken))) .failed

/-- On a path of `GET direct` the token becomes a cookie, and was verified. -/
theorem cookies_verified_first_direct :
    ∃ l page, (Handler.appauthProcessRequest directDeployment directGet.env directGet.req).Makes l
        (.emit (.page page)) ∧
      authCookie (CStr.ofBytes signedToken) ∈ page.fields ∧ CookiesVerified l page := by
  have hgreen : EncodesPlainly directDeployment :=
    encodesPlainly_of_htmlEscape (fun _ => rfl) plainNames_htmlName
  have hmakes : (Handler.appauthProcessRequest directDeployment directGet.env directGet.req).Makes
      [⟨.verifyJwksAuthenticationJwt (CStr.ofBytes signedToken).val, (0 : ℤ)⟩]
      (.emit (.page (directAcceptedPage (CStr.ofBytes signedToken) none))) := .later (.here _ _)
  have hall := cookies_verified_first directDeployment directGet.env hgreen directGet.req
  exact ⟨_, _, hmakes, List.mem_cons_self, hall.2.1 _ _ hmakes⟩

end FcgiJwtAuth
