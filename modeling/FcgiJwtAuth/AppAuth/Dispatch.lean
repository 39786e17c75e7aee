import FcgiJwtAuth.AppAuth.TokenPages
import FcgiJwtAuth.CLang.Run

/-!
# Serving a request

`appauth_process_request` chooses the handler by method and path. A request is served from the
globals that the last one left; after an exception or undefined behaviour there is no process to
serve the next.
-/

namespace FcgiJwtAuth

open CLang HTTPUtils

/-- What `appauth_process_request` does with a request that is not `GET login`. -/
inductive Route
  | loginPost
  | logout
  | verify
  | microsoft
  | direct
  | debug
  /-- `HEAD`, of any path. -/
  | head
  | notFound
deriving DecidableEq

/-- The comparisons of `appauth_process_request`, in their order. -/
def route (requestMethod pathInfo : Bytes) : Route :=
  if strEq requestMethod (bytes "POST") then
    if strEq pathInfo (bytes "login") then .loginPost
    else if strEq pathInfo (bytes "microsoft/logout") then .logout
    else if strEq pathInfo (bytes "verify") then .verify
    else .notFound
  else if strEq requestMethod (bytes "GET") then
    if strEq pathInfo (bytes "microsoft") then .microsoft
    else if strEq pathInfo (bytes "microsoft/logout") then .logout
    else if strEq pathInfo (bytes "verify") then .verify
    else if strEq pathInfo (bytes "direct") then .direct
    else if strEq pathInfo (bytes "debug") then .debug
    else if strEq pathInfo (bytes "logout") then .logout
    else .notFound
  else if strEq requestMethod (bytes "HEAD") then .head
  else .notFound

variable (D : Deployment) (env : RequestEnv)

/-- A header block alone, and no `FCGX_FClose`. -/
def barePage (status : String) : Page where
  status := status
  fields := [contentType]
  body := []

def processBare (status : String) : Exec Serving ℤ := do
  emit (.page (barePage status))
  emit .finish
  pure 0

/-- The handler of a route. -/
def handle (req : Request) (ctx : RequestContext) : Route → Exec Serving ℤ
  | .loginPost => processLoginPagePost D env req
  | .logout => processLogoutRequest D ctx
  | .verify => processVerificationRequest D env req ctx
  | .microsoft => processCodeResponse D env ctx
  | .direct => processDirectTokenAuthRequest D env ctx
  | .debug => processDebugTokenAuthRequest D ctx
  | .head => processBare "403"
  | .notFound => processBare "404"

/-- The comparisons in front of the request context; `strcmp` reads both parameters. -/
def isLoginPageGet (req : Request) : Exec Serving Bool :=
  match req.requestMethod with
  | none => Exec.undefined
  | some method =>
    if strEq method.val (bytes "GET") then
      match req.pathInfo with
      | none => Exec.undefined
      | some path => pure (strEq path.val (bytes "login"))
    else pure false

/-- The part behind the request context. -/
def dispatch (req : Request) : Exec Serving ℤ := do
  let ctx ← fcgxPrepareRequestContext D.green req
  handle D env req ctx (route ctx.requestMethod ctx.pathInfo)

/-- `appauth_process_request`. -/
def appauthProcessRequest (req : Request) : Exec Serving ℤ := do
  match ← isLoginPageGet req with
  | true => processLoginPageGet D env req
  | false => dispatch D env req

/-! ## Requests one after the other -/

/-- A request with what it meets. -/
structure Served where
  env : RequestEnv
  req : Request

/-- A request as a step: its output, and the globals it leaves. -/
def serveStep (globals : Globals) (served : Served) : Option (List Event × Globals) :=
  match (appauthProcessRequest D served.env served.req).run { globals := globals } with
  | (.ret _, s) => some (s.out, s.globals)
  | _ => none

/-- A step of a run of requests. -/
abbrev ServedStep := Step Globals Served (List Event)

/-! ## How a request reaches its handler -/

section Reach

variable {D env} {req : Request} {method path : CStr}

/-- `GET login`. -/
theorem appauthProcessRequest_of_login (hmethod : req.requestMethod = some method)
    (hpath : req.pathInfo = some path) (hget : method.val = bytes "GET")
    (hlogin : path.val = bytes "login") (s : Serving) :
    (appauthProcessRequest D env req).run s = (processLoginPageGet D env req).run s := by
  have hrun : (isLoginPageGet req).run s = (.ret true, s) := by
    simp [isLoginPageGet, hmethod, hpath, strEq, hget, hlogin]
  unfold appauthProcessRequest
  rw [Exec.bind_ret hrun]

/-- Any other request with its parameters set. -/
theorem appauthProcessRequest_of_route (h : req.HasParams method path)
    (hlogin : ¬ (method.val = bytes "GET" ∧ path.val = bytes "login")) (s : Serving) :
    (appauthProcessRequest D env req).run s =
      (handle D env req (requestContext D.green req method path)
        (route method.val path.val)).run s := by
  have hrun : (isLoginPageGet req).run s = (.ret false, s) := by
    unfold isLoginPageGet
    simp only [h.1, h.2.1]
    by_cases hget : method.val = bytes "GET"
    · have hpath : path.val ≠ bytes "login" := fun heq => hlogin ⟨hget, heq⟩
      simp [strEq, hget, hpath]
    · simp [strEq, hget]
  unfold appauthProcessRequest
  rw [Exec.bind_ret hrun]
  exact Exec.bind_ret (fcgxPrepareRequestContext_of_hasParams D.green h s)

/-- A served request, by what its handler does. -/
theorem serveStep_of_handle {globals : Globals} {served : Served} {r : Route}
    (hroute : ∃ method path, served.req.HasParams method path ∧ route method.val path.val = r)
    {rc : ℤ} {s : Serving}
    (hrun : ∀ method path, served.req.HasParams method path →
      (handle D served.env served.req (requestContext D.green served.req method path) r).run
        { globals := globals } = (.ret rc, s))
    (hr : r ≠ .notFound) : serveStep D globals served = some (s.out, s.globals) := by
  obtain ⟨method, path, hparams, rfl⟩ := hroute
  have hlogin : ¬ (method.val = bytes "GET" ∧ path.val = bytes "login") := by
    rintro ⟨hget, hlogin⟩
    rw [hget, hlogin] at hr
    exact hr (by decide)
  rw [serveStep, appauthProcessRequest_of_route hparams hlogin, hrun method path hparams]

/-- The comparisons in front of the context return only if their parameters are set. -/
theorem params_of_isLoginPageGet {s s' : Serving} {login : Bool}
    (h : (isLoginPageGet req).run s = (.ret login, s')) :
    s' = s ∧ ∃ method, req.requestMethod = some method ∧
      (login = true → ∃ path, req.pathInfo = some path ∧ method.val = bytes "GET" ∧
        path.val = bytes "login") ∧
      (login = false → ∀ path, req.pathInfo = some path →
        ¬ (method.val = bytes "GET" ∧ path.val = bytes "login")) := by
  unfold isLoginPageGet at h
  cases hmethod : req.requestMethod with
  | none =>
    simp only [hmethod] at h
    cases (Prod.mk.inj h).1
  | some method =>
    simp only [hmethod] at h
    by_cases hget : method.val = bytes "GET"
    · rw [if_pos (by simpa [strEq] using hget)] at h
      cases hpath : req.pathInfo with
      | none =>
        simp only [hpath] at h
        cases (Prod.mk.inj h).1
      | some path =>
        simp only [hpath] at h
        obtain ⟨hret, rfl⟩ := Prod.mk.inj h
        obtain rfl := Outcome.ret.inj hret
        refine ⟨rfl, method, rfl, fun hlogin => ?_, fun hlogin path' hpath' => ?_⟩
        · exact ⟨path, rfl, hget, by simpa [strEq] using hlogin⟩
        · obtain rfl := Option.some.inj hpath'
          rintro ⟨-, heq⟩
          simp [strEq, heq] at hlogin
    · rw [if_neg (by simpa [strEq] using hget)] at h
      obtain ⟨hret, rfl⟩ := Prod.mk.inj h
      obtain rfl := Outcome.ret.inj hret
      exact ⟨rfl, method, rfl, fun hlogin => absurd hlogin (by simp),
        fun _ path _ heq => hget heq.1⟩

/-- **A request that is answered at all** is `GET login`, or has its parameters set. -/
theorem params_of_returns {s : Serving} (h : (appauthProcessRequest D env req).Returns s) :
    ∃ method path, req.requestMethod = some method ∧ req.pathInfo = some path ∧
      (method.val = bytes "GET" ∧ path.val = bytes "login" ∨
        ¬ (method.val = bytes "GET" ∧ path.val = bytes "login") ∧ req.HasParams method path) := by
  obtain ⟨login, s', hlogin, hrest⟩ := Exec.returns_bind_iff.mp h
  obtain ⟨rfl, method, hmethod, htrue, hfalse⟩ := params_of_isLoginPageGet hlogin
  cases login with
  | true =>
    obtain ⟨path, hpath, heq⟩ := htrue rfl
    exact ⟨method, path, hmethod, hpath, Or.inl heq⟩
  | false =>
    obtain ⟨ctx, s'', hctx, -⟩ := Exec.returns_bind_iff.mp hrest
    obtain ⟨method', path, hparams⟩ := hasParams_of_returns (Exec.returns_of_run hctx)
    obtain rfl := Option.some.inj (hmethod.symm.trans hparams.1)
    exact ⟨method, path, hmethod, hparams.2.1, Or.inr ⟨hfalse rfl path hparams.2.1, hparams⟩⟩

end Reach

/-! ## Requests with all their parameters set -/

/-- A request below `/auth/`. -/
def requestOf (method path : String) (cookie queryString : Option CStr) (form : FormDecoding) :
    Request where
  requestMethod := some (CStr.lit method)
  requestUri := some (CStr.ofBytes (bytes "/auth/" ++ bytes path))
  scriptName := some (CStr.lit "/auth/")
  pathInfo := some (CStr.lit path)
  documentRoot := some (CStr.lit "/srv/www")
  queryString := queryString
  cookie := cookie
  authorization := none
  form := form

theorem requestOf_hasParams (method path : String) (cookie queryString : Option CStr)
    (form : FormDecoding) :
    (requestOf method path cookie queryString form).HasParams (CStr.lit method) (CStr.lit path) :=
  ⟨rfl, rfl, rfl, rfl, rfl⟩

/-- The given second, with a network that answers an exchange with the given body. -/
def envAt (seconds : ℤ) (body : Bytes) : RequestEnv where
  jwks :=
    { now := seconds * 1000000000
      curl := .failed
      saveRamToFile := fun _ _ files => files
      verifyNow := seconds }
  exchange := exchangeAnswered 0 0 200 body
  currentUnixTime := seconds

end FcgiJwtAuth
