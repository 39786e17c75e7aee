import FcgiJwtAuth.AppAuth.Verification

/-!
# One response for each request

Every handler should write one page, in front of everything else, and finish the request once. Most
do, if what they call returns; the login page is the exception twice over: a form that does not
decode is not answered at all, and a user who is already authenticated gets two pages.
-/

namespace FcgiJwtAuth

open CLang HTTPUtils

/-! ## Answering once -/

/-- `FCGX_Finish_r`. -/
def Event.isFinish : Event → Bool
  | .finish => true
  | _ => false

/-- One page, in front of everything else, and one `FCGX_Finish_r`. -/
structure AnsweredOnce (out : List Event) : Prop where
  page : ∃ page rest, out = .page page :: rest ∧ ∀ e ∈ rest, e.page? = none
  finish : out.countP Event.isFinish = 1

theorem answeredOnce_of_page {page : Page} {rest : List Event}
    (hpage : ∀ e ∈ rest, e.page? = none) (hfinish : rest.countP Event.isFinish = 1) :
    AnsweredOnce (.page page :: rest) where
  page := ⟨page, rest, rfl, hpage⟩
  finish := by rwa [List.countP_cons_of_neg (by simp [Event.isFinish])]

/-- What the web server is sent for a request answered once: its one page, and a rest of the
body. -/
theorem AnsweredOnce.written_eq {out : List Event} (h : AnsweredOnce out) :
    ∃ page body, out.filterMap Event.page? = [page] ∧ written out = page.bytes ++ body := by
  obtain ⟨page, rest, rfl, hrest⟩ := h.page
  have hnone : rest.filterMap Event.page? = [] := List.filterMap_eq_nil_iff.mpr hrest
  refine ⟨page, written rest, ?_, rfl⟩
  show page :: rest.filterMap Event.page? = [page]
  rw [hnone]

/-- The call returns 0, and what it has written answers the request once. -/
def Answers (m : Exec Serving ℤ) (globals : Globals) : Prop :=
  ∃ s, m.run { globals := globals } = (.ret 0, s) ∧ AnsweredOnce s.out

/-- The call writes nothing. -/
def Silent {α : Type} (m : Exec Serving α) : Prop :=
  ∀ globals, ∃ globals', (m.run { globals := globals }).2 = { globals := globals' }

section Silent

variable {α β : Type} {globals : Globals}

theorem silent_pure (a : α) : Silent (pure a) := fun globals => ⟨globals, rfl⟩

theorem silent_onStoreMan (m : Exec Manager α) : Silent (onStoreMan m) := fun _ => ⟨_, rfl⟩

theorem silent_onCodes (m : Exec Codes α) : Silent (onCodes m) := fun _ => ⟨_, rfl⟩

/-- The run of a silent call, whatever its outcome. -/
theorem Silent.exists_run {m : Exec Serving α} (hm : Silent m) (globals : Globals) :
    ∃ o globals', m.run { globals := globals } = (o, { globals := globals' }) := by
  obtain ⟨globals', hstate⟩ := hm globals
  exact ⟨_, globals', Prod.ext rfl hstate⟩

theorem Silent.bind {m : Exec Serving α} {f : α → Exec Serving β} (hm : Silent m)
    (hf : ∀ a, Silent (f a)) : Silent (m >>= f) := by
  intro globals
  obtain ⟨o, globals', hrun⟩ := hm.exists_run globals
  cases o with
  | ret a =>
    rw [Exec.bind_ret hrun]
    exact hf a globals'
  | throws e => exact ⟨globals', by rw [Exec.bind_throws hrun]⟩
  | undefined => exact ⟨globals', by rw [Exec.bind_undefined hrun]⟩

/-- **Behind a silent call** that returns, the rest answers. -/
theorem answers_bind_iff {m : Exec Serving α} {f : α → Exec Serving ℤ} (hm : Silent m) :
    Answers (m >>= f) globals ↔ ∃ a globals',
      m.run { globals := globals } = (.ret a, { globals := globals' }) ∧
        Answers (f a) globals' := by
  constructor
  · rintro ⟨s, hs, honce⟩
    obtain ⟨o, globals', hrun⟩ := hm.exists_run globals
    obtain ⟨a, s', ha, -⟩ := Exec.returns_bind_iff.mp (Exec.returns_of_run hs)
    rw [Exec.bind_ret ha] at hs
    obtain ⟨rfl, rfl⟩ := Prod.mk.inj (hrun.symm.trans ha)
    exact ⟨a, globals', hrun, s, hs, honce⟩
  · rintro ⟨a, globals', ha, s, hs, honce⟩
    exact ⟨s, (Exec.bind_ret ha).trans hs, honce⟩

/-- If the rest always answers, it is enough that the silent call returns. -/
theorem answers_bind_iff_returns {m : Exec Serving α} {f : α → Exec Serving ℤ} (hm : Silent m)
    (hf : ∀ a globals, Answers (f a) globals) :
    Answers (m >>= f) globals ↔ m.Returns { globals := globals } := by
  rw [answers_bind_iff hm]
  constructor
  · rintro ⟨a, globals', ha, -⟩
    exact Exec.returns_of_run ha
  · intro h
    obtain ⟨o, globals', hrun⟩ := hm.exists_run globals
    obtain ⟨a, ha⟩ := h
    rw [hrun] at ha
    obtain rfl : o = .ret a := ha
    exact ⟨a, globals', hrun, hf a globals'⟩

end Silent

variable (D : Deployment) (env : RequestEnv) (globals : Globals) (req : Request)

/-! ## What the handlers need -/

/-- The verification of the token returns. -/
def TokenReadable (jwtStr : Bytes) : Prop :=
  ReadableToken D.jwt D.json env.jwks globals.storeMan jwtStr

/-- `GET login`, from a user who sends a cookie or an authorization: the token is readable, and it
is not verified. -/
def AnswersLoginPage : Prop :=
  (req.cookie.isSome || req.authorization.isSome) = true →
    TokenReadable D env globals
        (jwtinterfaceGetTokenFromCookieOrAuthorization req.cookie req.authorization) ∧
      ¬ VerifiedToken D.jwt D.json env.jwks globals.storeMan
        (jwtinterfaceGetTokenFromCookieOrAuthorization req.cookie req.authorization)

/-- The reply for the code is no object without an `id_token`, and a token in it is readable. -/
def CodeReadable (code : CStr) : Prop :=
  match codeReply D.json D.green D.site env.exchange code globals.codesToJwts with
  | .noToken => False
  | .token t _ => TokenReadable D env globals (CStr.ofBytes t).val
  | _ => True

/-- `GET microsoft`: if there is no error, and a state that verifies, then the code is readable. -/
def AnswersCode : Prop :=
  D.green.queryGet req.queryString (bytes "error") = none → ∀ code state,
    D.green.queryGet req.queryString (bytes "code") = some code →
    D.green.queryGet req.queryString (bytes "state") = some state →
    openidconnectVerifyString D.site.oauth2DefaultClientSecret state = 0 →
      CodeReadable D env globals code

/-- What the other routes need. -/
def AnswersRoute : Route → Prop
  | .loginPost => ∃ getfield, req.form = .fields getfield
  | .verify => TokenReadable D env globals req.cookieToken
  | .microsoft => AnswersCode D env globals req
  | .direct => ∀ token, D.green.queryGet req.queryString (bytes "token") = some token →
      TokenReadable D env globals token.val
  | .logout | .debug | .head | .notFound => True

/-- The request has the parameters that are read, and its handler has what it needs. -/
inductive Answerable : Prop
  | loginPage {method path : CStr} (hmethod : req.requestMethod = some method)
    (hpath : req.pathInfo = some path) (hget : method.val = bytes "GET")
    (hlogin : path.val = bytes "login") (h : AnswersLoginPage D env globals req)
  | routed {method path : CStr} (hparams : req.HasParams method path)
    (hlogin : ¬ (method.val = bytes "GET" ∧ path.val = bytes "login"))
    (h : AnswersRoute D env globals req (route method.val path.val))

/-- The request gets one response. -/
def OneResponse : Prop := Answers (appauthProcessRequest D env req) globals

variable {D env globals req}

/-! ## The verification -/

theorem verify_returns_iff {jwtStr : Bytes} :
    (verifyJwksAuthenticationJwt D.jwt D.json env.jwks jwtStr).Returns globals.storeMan ↔
      TokenReadable D env globals jwtStr := by
  constructor
  · exact readableToken_of_returns
  · intro h
    obtain ⟨code, hcode, -⟩ := h.returnsCode
    exact ⟨code, hcode⟩

/-! ## The handlers -/

theorem answers_loginPost : Answers (processLoginPagePost D env req) globals ↔
    ∃ getfield, req.form = .fields getfield := by
  unfold processLoginPagePost
  cases hform : req.form with
  | fields getfield =>
    refine iff_of_true ⟨_, rfl, answeredOnce_of_page ?_ rfl⟩ ⟨getfield, rfl⟩
    simp [Event.page?]
  | _ =>
    -- nothing is written
    refine iff_of_false ?_ (by simp)
    rintro ⟨s, hrun, ⟨page, rest, hout, -⟩, -⟩
    rw [← (Prod.mk.inj hrun).2] at hout
    cases hout

theorem answers_logout (ctx : RequestContext) : Answers (processLogoutRequest D ctx) globals := by
  refine ⟨_, rfl, answeredOnce_of_page ?_ rfl⟩
  simp [Event.page?]

theorem answers_bare (status : String) : Answers (processBare status) globals := by
  refine ⟨_, rfl, answeredOnce_of_page ?_ rfl⟩
  simp [Event.page?]

theorem answers_debug (ctx : RequestContext) :
    Answers (processDebugTokenAuthRequest D ctx) globals := by
  obtain ⟨content, hcontent⟩ :=
    cookieContent_run (D := D) (cookieToken ctx.cookies) { globals := globals }
  refine ⟨_, Exec.bind_ret hcontent, answeredOnce_of_page ?_ rfl⟩
  simp [Event.page?]

theorem answers_verify {ctx : RequestContext} (hctx : ctx.cookies = parseCookies req.cookie) :
    Answers (processVerificationRequest D env req ctx) globals ↔
      TokenReadable D env globals req.cookieToken := by
  rw [← verify_returns_iff]
  constructor
  · rintro ⟨s, hrun, -⟩
    exact processVerificationRequest_returns hctx (Exec.returns_of_run hrun)
  · intro h
    obtain ⟨code, man', hcode⟩ := h.exists_run
    refine ⟨_, processVerificationRequest_run hctx hcode, answeredOnce_of_page ?_ rfl⟩
    simp [Event.page?]

/-- The page of a `direct` request. -/
theorem silent_directTokenPage (ctx : RequestContext) : Silent (directTokenPage D env ctx) := by
  unfold directTokenPage
  cases ctx.qs (bytes "token") with
  | none => exact silent_pure _
  | some jwtoken => exact (silent_onStoreMan _).bind fun _ => silent_pure _

theorem answers_direct {ctx : RequestContext} :
    Answers (processDirectTokenAuthRequest D env ctx) globals ↔
      ∀ token, ctx.qs (bytes "token") = some token → TokenReadable D env globals token.val := by
  have hrest : ∀ (page : Page) globals, Answers
      (do emit (.page page); emit (.text []); emit .close; emit .finish; pure 0) globals := by
    intro page globals
    refine ⟨_, rfl, answeredOnce_of_page ?_ rfl⟩
    simp [Event.page?]
  unfold processDirectTokenAuthRequest
  rw [answers_bind_iff_returns (silent_directTokenPage ctx) hrest]
  unfold directTokenPage
  cases ctx.qs (bytes "token") with
  | none => exact iff_of_true (Exec.returns_pure _ _) (by simp)
  | some token =>
    simp only [Option.some.injEq, forall_eq']
    rw [Exec.returns_bind_pure_iff, returns_onStoreMan_iff, verify_returns_iff]

/-! ### microsoft -/

theorem silent_tokensPage (truncated : CStr × Option CStr) (tokens : ℤ × Option CStr) :
    Silent (tokensPage D env truncated tokens) := by
  unfold tokensPage
  by_cases hzero : tokens.1 = 0
  · rw [if_pos hzero]
    cases tokens.2 with
    | none => exact silent_pure _
    | some jwtoken => exact (silent_onStoreMan _).bind fun _ => silent_pure _
  · rw [if_neg hzero]
    exact silent_pure _

theorem silent_codeResponsePage (ctx : RequestContext) (jwtoken content : Bytes) :
    Silent (codeResponsePage D env ctx jwtoken content) := by
  unfold codeResponsePage
  split
  · exact silent_pure _
  · split
    · split
      · exact (silent_onCodes _).bind (silent_tokensPage _)
      · exact silent_pure _
    · exact silent_pure _

theorem returns_verifiedTokenPage_iff {truncated : CStr × Option CStr} {jwtoken : CStr} :
    (verifiedTokenPage D env truncated jwtoken).Returns { globals := globals } ↔
      TokenReadable D env globals jwtoken.val := by
  unfold verifiedTokenPage
  rw [Exec.returns_bind_pure_iff, returns_onStoreMan_iff, verify_returns_iff]

/-- The exchange of a code, with the verification behind it. -/
theorem returns_exchangedCodePage_iff {code : CStr} {truncated : CStr × Option CStr} :
    (exchangedCodePage D env code truncated).Returns { globals := globals } ↔
      CodeReadable D env globals code := by
  have houtcome := getTokens_outcome D.json D.green D.site env.exchange code globals.codesToJwts
  rcases hrun : (getTokensFromMicrosoft D.json D.green D.site env.exchange code).run
    globals.codesToJwts with ⟨o, codes'⟩
  have hcodes : (onCodes (getTokensFromMicrosoft D.json D.green D.site env.exchange code)).run
      { globals := globals } = (o, { globals := { globals with codesToJwts := codes' } }) := by
    rw [onCodes, Exec.run_on, hrun]
  rw [hrun] at houtcome
  unfold exchangedCodePage CodeReadable
  cases hreply : codeReply D.json D.green D.site env.exchange code globals.codesToJwts with
  | noToken =>
    simp only [hreply] at houtcome
    subst houtcome
    simp only [iff_false]
    rintro ⟨page, hpage⟩
    rw [Exec.bind_undefined hcodes] at hpage
    cases hpage
  | token t parsed =>
    simp only [hreply] at houtcome
    subst houtcome
    rw [Exec.Returns, Exec.bind_ret hcodes]
    simp only [tokensPage, if_pos]
    exact returns_verifiedTokenPage_iff
  | _ =>
    simp only [hreply] at houtcome
    subst houtcome
    refine iff_of_true ?_ trivial
    rw [Exec.Returns, Exec.bind_ret hcodes]
    exact ⟨_, rfl⟩

theorem answers_microsoft {method path : CStr} :
    Answers (processCodeResponse D env (requestContext D.green req method path)) globals ↔
      AnswersCode D env globals req := by
  have hrest : ∀ (page : Page) globals, Answers
      (do emit (.page page); emit .flush; emit .close; emit .finish; pure 0) globals := by
    intro page globals
    refine ⟨_, rfl, answeredOnce_of_page ?_ rfl⟩
    simp [Event.page?]
  obtain ⟨content, hcontent⟩ := cookieContent_run (D := D)
    (cookieToken (requestContext D.green req method path).cookies) { globals := globals }
  unfold processCodeResponse
  rw [Answers, Exec.bind_ret hcontent, ← Answers,
    answers_bind_iff_returns (silent_codeResponsePage _ _ _) hrest]
  unfold codeResponsePage AnswersCode
  simp only [requestContext]
  cases herror : D.green.queryGet req.queryString (bytes "error") with
  | some error => exact iff_of_true (Exec.returns_pure _ _) (by simp)
  | none =>
    cases hcode : D.green.queryGet req.queryString (bytes "code") with
    | none => exact iff_of_true (Exec.returns_pure _ _) (by simp)
    | some code =>
      cases hstate : D.green.queryGet req.queryString (bytes "state") with
      | none => exact iff_of_true (Exec.returns_pure _ _) (by simp)
      | some state =>
        simp only
        by_cases hmac : openidconnectVerifyString D.site.oauth2DefaultClientSecret state = 0
        · rw [if_pos hmac, returns_exchangedCodePage_iff]
          constructor
          · rintro h - _ _ ⟨⟩ ⟨⟩ -
            exact h
          · intro h
            exact h trivial code state rfl rfl hmac
        · rw [if_neg hmac]
          refine iff_of_true (Exec.returns_pure _ _) ?_
          rintro - _ _ ⟨⟩ ⟨⟩ h
          exact absurd h hmac

/-! ### login -/

theorem silent_alreadyAuthenticated : Silent (alreadyAuthenticated D env req) := by
  unfold alreadyAuthenticated
  split
  · exact (silent_onStoreMan _).bind fun _ => silent_pure _
  · exact silent_pure _

/-- Two pages are not one. -/
theorem not_answeredOnce_of_pages {page page' : Page} {rest : List Event} :
    ¬ AnsweredOnce (.page page :: .page page' :: rest) := by
  rintro ⟨⟨p, tail, hout, hnone⟩, -⟩
  obtain ⟨-, rfl⟩ := List.cons_eq_cons.mp hout
  have := hnone _ (List.mem_cons_self)
  simp [Event.page?] at this

theorem answers_answerLoginPage_iff {returnTo : Bytes} {authenticated : Bool} :
    Answers (answerLoginPage D returnTo authenticated) globals ↔ authenticated = false := by
  cases authenticated with
  | false =>
    refine iff_of_true ⟨_, rfl, answeredOnce_of_page ?_ rfl⟩ rfl
    simp [Event.page?]
  | true =>
    refine iff_of_false ?_ (by simp)
    rintro ⟨s, hrun, honce⟩
    rw [← (Prod.mk.inj hrun).2] at honce
    exact not_answeredOnce_of_pages honce

theorem answers_loginPage :
    Answers (processLoginPageGet D env req) globals ↔ AnswersLoginPage D env globals req := by
  unfold processLoginPageGet
  rw [answers_bind_iff silent_alreadyAuthenticated]
  simp only [answers_answerLoginPage_iff]
  unfold alreadyAuthenticated AnswersLoginPage
  by_cases hsent : (req.cookie.isSome || req.authorization.isSome) = true
  · rw [if_pos hsent, ← verify_returns_iff, ← verifyJwks_eq_zero_iff]
    simp only [hsent, forall_const]
    obtain ⟨token, htoken⟩ : ∃ t, jwtinterfaceGetTokenFromCookieOrAuthorization req.cookie
      req.authorization = t := ⟨_, rfl⟩
    rcases hrun : (verifyJwksAuthenticationJwt D.jwt D.json env.jwks token).run
      globals.storeMan with ⟨o, man'⟩
    have hman : (onStoreMan (verifyJwksAuthentication D.jwt D.json env.jwks req.cookie
        req.authorization)).run { globals := globals } =
          (o, { globals := { globals with storeMan := man' } }) := by
      rw [verifyJwksAuthentication, htoken, onStoreMan, Exec.run_on, hrun]
    rw [htoken, Exec.Returns, hrun]
    cases o with
    | ret code =>
      rw [Exec.bind_ret hman]
      constructor
      · rintro ⟨a, globals', ha, rfl⟩
        have hcode : decide (code = 0) = false := Outcome.ret.inj (Prod.mk.inj ha).1
        refine ⟨⟨code, rfl⟩, fun h => ?_⟩
        rw [Outcome.ret.inj h] at hcode
        cases hcode
      · rintro ⟨-, hne⟩
        have hcode : code ≠ 0 := fun h => hne (by rw [h])
        exact ⟨decide (code = 0), _, rfl, decide_eq_false hcode⟩
    | throws e =>
      rw [Exec.bind_throws hman]
      simp
    | undefined =>
      rw [Exec.bind_undefined hman]
      simp
  · rw [if_neg hsent]
    exact iff_of_true ⟨false, globals, rfl, rfl⟩ fun h => absurd h hsent

/-! ## Every request -/

theorem answers_handle {method path : CStr} (r : Route) :
    Answers (handle D env req (requestContext D.green req method path) r) globals ↔
      AnswersRoute D env globals req r := by
  cases r with
  | loginPost => exact answers_loginPost
  | logout => exact iff_of_true (answers_logout _) trivial
  | verify => exact answers_verify rfl
  | microsoft => exact answers_microsoft
  | direct => exact answers_direct
  | debug => exact iff_of_true (answers_debug _) trivial
  | head => exact iff_of_true (answers_bare _) trivial
  | notFound => exact iff_of_true (answers_bare _) trivial

/-- **Exactly the answerable requests get one response.** -/
theorem oneResponse_iff : OneResponse D env globals req ↔ Answerable D env globals req := by
  constructor
  · rintro ⟨s, hrun, honce⟩
    obtain ⟨method, path, hmethod, hpath, hcases⟩ :=
      params_of_returns (Exec.returns_of_run hrun)
    rcases hcases with ⟨hget, hlogin⟩ | ⟨hnot, hparams⟩
    · rw [appauthProcessRequest_of_login hmethod hpath hget hlogin] at hrun
      exact .loginPage hmethod hpath hget hlogin (answers_loginPage.mp ⟨s, hrun, honce⟩)
    · rw [appauthProcessRequest_of_route hparams hnot] at hrun
      exact .routed hparams hnot ((answers_handle _).mp ⟨s, hrun, honce⟩)
  · intro h
    cases h with
    | loginPage hmethod hpath hget hlogin h =>
      obtain ⟨s, hrun, honce⟩ := answers_loginPage.mpr h
      exact ⟨s, (appauthProcessRequest_of_login hmethod hpath hget hlogin _).trans hrun, honce⟩
    | routed hparams hnot h =>
      obtain ⟨s, hrun, honce⟩ := (answers_handle _).mpr h
      exact ⟨s, (appauthProcessRequest_of_route hparams hnot _).trans hrun, honce⟩

/-- A form that cannot be decoded gets no response, and the request is not finished. -/
theorem oneResponse_undecodableForm :
    ¬ OneResponse forgedDeployment (envAt 1790000060 []) startGlobals
      (requestOf "POST" "login" none none .failed) := by
  have hroute : route (CStr.lit "POST").val (CStr.lit "login").val = .loginPost := by decide
  rintro ⟨s, hrun, honce⟩
  rw [appauthProcessRequest_of_route (requestOf_hasParams _ _ _ _ _) (by decide), hroute] at hrun
  unfold handle at hrun
  obtain ⟨getfield, hform⟩ := answers_loginPost.mp ⟨s, hrun, honce⟩
  cases hform

end FcgiJwtAuth
