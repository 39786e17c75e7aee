import FcgiJwtAuth.AppAuth.ControlPaths
import FcgiJwtAuth.AppAuth.OneResponse
import FcgiJwtAuth.CLang.CookieJar
import FcgiJwtAuth.CLang.HeaderBlock

/-!
# The cookies that a response sets

A client reads the `Set-Cookie` fields from the bytes of a response. If no field that is written
holds a line break, then it reads the one cookie of the token that was accepted in this request, or
none; and what `logout` has written for each cookie.
-/

namespace FcgiJwtAuth

open CLang HTTPUtils

/-! ## Reading a page -/

/-- The values of the `Set-Cookie` fields, as a client reads them. -/
def setCookies (out : List Event) : List Bytes := fieldValues (bytes "Set-Cookie") (written out)

/-- A line break in a field of the page would end it. -/
structure Unbroken (p : Page) : Prop where
  status : ch '\n' ∉ bytes p.status
  fields : ∀ f ∈ p.fields, ch ':' ∉ f.1 ∧ ch '\n' ∉ f.1 ∧ ch '\n' ∉ f.2

/-- The value of a field, as it is read. -/
def readValue (f : Bytes × Bytes) : Bytes × Bytes := (f.1, f.2.dropWhile (· = ch ' '))

theorem crlf_eq : bytes "\r\n" = crlf := by decide

theorem readFields_fieldLines {fields : List (Bytes × Bytes)}
    (h : ∀ f ∈ fields, ch ':' ∉ f.1 ∧ ch '\n' ∉ f.1 ∧ ch '\n' ∉ f.2) (rest : Bytes) :
    readFields (fields.flatMap fieldLine ++ crlf ++ rest) = fields.map readValue := by
  induction fields with
  | nil => exact readFields_blank rest
  | cons f fields ih =>
    obtain ⟨⟨hcolon, hname, hvalue⟩, hfields⟩ := List.forall_mem_cons.mp h
    have hline := readFields_field hcolon hname hvalue (fields.flatMap fieldLine ++ crlf ++ rest)
    rw [ih hfields] at hline
    rw [List.flatMap_cons, fieldLine, crlf_eq, List.map_cons, readValue, ← hline]
    simp only [List.append_assoc]

/-- **A page without line breaks** is read back. -/
theorem readFields_page {p : Page} (h : Unbroken p) (rest : Bytes) :
    readFields (p.bytes ++ rest) =
      readValue (bytes "Status", bytes p.status) :: p.fields.map readValue := by
  have hfields := readFields_fieldLines h.fields (p.body ++ rest)
  have hcolon : ch ':' ∉ bytes "Status" := by decide
  have hstatus := readFields_field hcolon (by decide) h.status
    (p.fields.flatMap fieldLine ++ crlf ++ (p.body ++ rest))
  have hlabel : bytes "Status: " = bytes "Status" ++ bytes ": " := by decide
  rw [hfields] at hstatus
  rw [Page.bytes, hlabel, crlf_eq, readValue, ← hstatus]
  simp only [List.append_assoc]

/-- What a client reads of the first page. -/
theorem setCookies_page {p : Page} (h : Unbroken p) (rest : List Event) :
    setCookies (.page p :: rest) =
      ((p.fields.filter (·.1 = bytes "Set-Cookie")).map readValue).map (·.2) := by
  have hstatus : bytes "Status" ≠ bytes "Set-Cookie" := by decide
  have hread := readFields_page h (written rest)
  show fieldValues _ (p.bytes ++ written rest) = _
  rw [fieldValues, hread, List.filter_cons_of_neg (by simp [readValue, hstatus]),
    List.filter_map]
  rfl

/-! ## The token that a request logs in with -/

section Login

variable (D : Deployment) (globals : Globals) (served : Served)

/-- The route of a request whose parameters are set. -/
def Request.route? (req : Request) : Option Route :=
  match req.requestMethod, req.pathInfo with
  | some method, some path => some (route method.val path.val)
  | _, _ => none

/-- The token that the code of the request is exchanged for. -/
def codeToken : Option CStr :=
  match D.green.queryGet served.req.queryString (bytes "error"),
    D.green.queryGet served.req.queryString (bytes "code"),
    D.green.queryGet served.req.queryString (bytes "state") with
  | none, some code, some state =>
    if openidconnectVerifyString D.site.oauth2DefaultClientSecret state = 0 then
      match ((getTokensFromMicrosoft D.json D.green D.site served.env.exchange code).run
        globals.codesToJwts).1 with
      | .ret tokens => if tokens.1 = 0 then tokens.2 else none
      | _ => none
    else none
  | _, _, _ => none

/-- The token that the request presents. -/
def presentedToken : Option CStr :=
  match served.req.route? with
  | some .direct => D.green.queryGet served.req.queryString (bytes "token")
  | some .microsoft => codeToken D globals served
  | _ => none

/-- The verification returns 0. -/
def acceptsToken (jwtoken : CStr) : Bool :=
  match ((verifyJwksAuthenticationJwt D.jwt D.json served.env.jwks jwtoken.val).run
    globals.storeMan).1 with
  | .ret code => decide (code = 0)
  | _ => false

/-- **The token of a login**: it is presented and accepted. -/
def loginOf : Option CStr :=
  (presentedToken D globals served).filter (acceptsToken D globals served)

end Login

/-! ## The pages -/

/-- The page has the cookie of the token, if there is one, and no other, and no line break. -/
structure SetsOnly (jwtoken : Option CStr) (p : Page) : Prop where
  unbroken : Unbroken p
  cookies : p.fields.filter (·.1 = bytes "Set-Cookie") = jwtoken.toList.map authCookie

theorem unbroken_contentType : ch ':' ∉ contentType.1 ∧ ch '\n' ∉ contentType.1 ∧
    ch '\n' ∉ contentType.2 := by
  decide

/-- A page without fields of its own. -/
theorem setsOnly_of_contentType {p : Page} (hstatus : ch '\n' ∉ bytes p.status)
    (hfields : p.fields = [contentType]) : SetsOnly none p where
  unbroken := ⟨hstatus, by
    rw [hfields]
    exact List.forall_mem_singleton.mpr unbroken_contentType⟩
  cookies := by
    have hne : contentType.1 ≠ bytes "Set-Cookie" := by decide
    rw [hfields, List.filter_cons_of_neg (by simpa using hne)]
    rfl

/-- The name of a field that redirects. -/
theorem unbroken_location {location : Bytes} (h : ch '\n' ∉ location) :
    ch ':' ∉ bytes "Location" ∧ ch '\n' ∉ bytes "Location" ∧ ch '\n' ∉ location :=
  ⟨by decide, by decide, h⟩

/-- A redirection without a cookie. -/
theorem setsOnly_of_location {p : Page} {location : Bytes} (hstatus : ch '\n' ∉ bytes p.status)
    (hfields : ∀ f ∈ p.fields, f = contentType ∨ f = (bytes "Location", location))
    (hlocation : ch '\n' ∉ location) : SetsOnly none p where
  unbroken := ⟨hstatus, fun f hf => by
    rcases hfields f hf with rfl | rfl
    · exact unbroken_contentType
    · exact unbroken_location hlocation⟩
  cookies := by
    have hne : contentType.1 ≠ bytes "Set-Cookie" := by decide
    have hne' : bytes "Location" ≠ bytes "Set-Cookie" := by decide
    refine List.filter_eq_nil_iff.mpr fun f hf => ?_
    rcases hfields f hf with rfl | rfl
    · simpa using hne
    · simpa using hne'

theorem unbroken_authCookie {jwtoken : CStr} (h : ch '\n' ∉ jwtoken.val) :
    ch ':' ∉ (authCookie jwtoken).1 ∧ ch '\n' ∉ (authCookie jwtoken).1 ∧
      ch '\n' ∉ (authCookie jwtoken).2 := by
  have hname : ch '\n' ∉ bytes "auth=" := by decide
  have hattributes : ch '\n' ∉ bytes "; Path=/; Secure; HttpOnly; SameSite=Lax" := by decide
  refine ⟨by rw [authCookie_fst]; decide, by rw [authCookie_fst]; decide, ?_⟩
  simp [authCookie, hname, h, hattributes]

/-- The page behind a token that is accepted. -/
theorem setsOnly_authenticatedPage {jwtoken : CStr} (htoken : ch '\n' ∉ jwtoken.val)
    {redirectUrl : Bytes} (hurl : ch '\n' ∉ redirectUrl) (state : CStr) :
    SetsOnly (some jwtoken) (authenticatedPage jwtoken redirectUrl state) where
  unbroken := ⟨show ch '\n' ∉ bytes "302" by decide, by
    simp only [authenticatedPage, List.forall_mem_cons]
    exact ⟨unbroken_authCookie htoken, unbroken_contentType, unbroken_location hurl, by simp⟩⟩
  cookies := by
    have hne : contentType.1 ≠ bytes "Set-Cookie" := by decide
    have hne' : bytes "Location" ≠ bytes "Set-Cookie" := by decide
    rw [authenticatedPage, List.filter_cons_of_pos (by simp [authCookie_fst]),
      List.filter_cons_of_neg (by simpa using hne), List.filter_cons_of_neg (by simpa using hne')]
    rfl

theorem setsOnly_directAcceptedPage {jwtoken : CStr} (htoken : ch '\n' ∉ jwtoken.val)
    (state : Option CStr) : SetsOnly (some jwtoken) (directAcceptedPage jwtoken state) where
  unbroken := ⟨show ch '\n' ∉ bytes "200" by decide, by
    simp only [directAcceptedPage, directPage, List.forall_mem_cons]
    exact ⟨unbroken_authCookie htoken, unbroken_contentType, by simp⟩⟩
  cookies := by
    have hne : contentType.1 ≠ bytes "Set-Cookie" := by decide
    rw [directAcceptedPage, directPage, List.filter_cons_of_pos (by simp [authCookie_fst]),
      List.filter_cons_of_neg (by simpa using hne)]
    rfl

/-! ## What is assumed -/

/-- What the libraries write, and the constants of the site, hold no line break; and a token that
decodes can be sent as the value of a cookie. -/
structure PlainDeployment (D : Deployment) (entity : Byte → Bytes) : Prop where
  escapes : ∀ s, D.green.htmlspecialEncode s = htmlEscape entity s.val
  names : PlainNames entity
  entities : ∀ b, isHtmlSpecial b → ch '\n' ∉ entity b
  urls : ∀ s, ch '\n' ∉ D.green.urlEncode s
  clientId : ch '\n' ∉ D.site.oauth2DefaultClientId.val
  redirectUri : ch '\n' ∉ D.site.oauth2DefaultRedirectUri.val
  tokens : ∀ jwtStr jwt, D.jwt.decode jwtStr = .ok jwt → IsCookieValue jwtStr

/-- No line break comes with the request, in its query or in a state that verifies. -/
structure UnbrokenRequest (D : Deployment) (req : Request) : Prop where
  query : ∀ qs, req.queryString = some qs → ch '\n' ∉ qs.val
  state : ∀ state, D.green.queryGet req.queryString (bytes "state") = some state →
    openidconnectVerifyString D.site.oauth2DefaultClientSecret state = 0 → ch '\n' ∉ state.val

section Answers

variable {D : Deployment} {entity : Byte → Bytes} {env : RequestEnv} {req : Request}
  {globals : Globals} {s' : Serving} {page : Page} {ctx : RequestContext}

theorem not_mem_redirectUrl {state : CStr} {b : Byte} (h : b ∉ state.val) :
    b ∉ redirectUrl (truncateAtSecondLastDot state) := by
  unfold truncateAtSecondLastDot
  cases secondLastDot state.val state.val.length false with
  | none => exact List.not_mem_nil
  | some p => exact fun hmem => h (List.mem_of_mem_take (mem_of_mem_upTo hmem))

theorem verifyJwks_of_accepts {served : Served} {jwtoken : CStr}
    (h : acceptsToken D globals served jwtoken = true) :
    ((verifyJwksAuthenticationJwt D.jwt D.json served.env.jwks jwtoken.val).run
      globals.storeMan).1 = .ret 0 := by
  unfold acceptsToken at h
  split at h
  · rename_i code hcode
    rw [hcode, of_decide_eq_true h]
  · cases h

/-- A token that is accepted can be sent. -/
theorem isCookieValue_of_accepts (hplain : PlainDeployment D entity) {served : Served}
    {jwtoken : CStr} (h : acceptsToken D globals served jwtoken = true) :
    IsCookieValue jwtoken.val := by
  obtain ⟨jwt, kid, hdecode, -⟩ := verifyJwks_eq_zero_iff.mp (verifyJwks_of_accepts h)
  exact hplain.tokens _ _ hdecode

/-- **A verification, and the page that is made of its result.** -/
theorem page_of_verification (req : Request) {jwtoken : CStr} {pageOf : ℤ → Page} {s : Serving}
    (h : (do
      let res ← onStoreMan (verifyJwksAuthenticationJwt D.jwt D.json env.jwks jwtoken.val)
      pure (pageOf res)).run s = (.ret page, s')) :
    ∃ res, page = pageOf res ∧ acceptsToken D s.globals ⟨env, req⟩ jwtoken = decide (res = 0) := by
  obtain ⟨res, s₁, hverify, hpage⟩ := Exec.run_bind_eq_ret_iff.mp h
  rw [onStoreMan, Exec.run_on] at hverify
  refine ⟨res, (Outcome.ret.inj (Prod.mk.inj hpage).1).symm, ?_⟩
  unfold acceptsToken
  rw [(Prod.mk.inj hverify).1]

/-- The page of `direct`. -/
theorem setsOnly_directTokenPage (hplain : PlainDeployment D entity)
    (hqs : ctx.qs = D.green.queryGet req.queryString)
    (h : (directTokenPage D env ctx).run { globals := globals } = (.ret page, s')) :
    SetsOnly ((D.green.queryGet req.queryString (bytes "token")).filter
      (acceptsToken D globals ⟨env, req⟩)) page := by
  unfold directTokenPage at h
  rw [hqs] at h
  cases htoken : D.green.queryGet req.queryString (bytes "token") with
  | none =>
    rw [htoken] at h
    obtain rfl := Outcome.ret.inj (Prod.mk.inj h).1
    exact setsOnly_of_contentType (by decide) rfl
  | some jwtoken =>
    rw [htoken] at h
    obtain ⟨res, rfl, haccepts⟩ := page_of_verification req h
    by_cases hzero : res = 0
    · rw [decide_eq_true hzero] at haccepts
      rw [if_pos hzero, Option.filter_some_pos haccepts]
      exact setsOnly_directAcceptedPage
        (not_mem_of_control (isCookieValue_of_accepts hplain haccepts).control (by decide)) _
    · rw [decide_eq_false hzero] at haccepts
      rw [if_neg hzero, Option.filter_some_neg (by simp [haccepts])]
      exact setsOnly_of_contentType (show ch '\n' ∉ bytes "401" by decide) rfl

/-- The page behind an exchange. -/
theorem setsOnly_tokensPage (req : Request) (hplain : PlainDeployment D entity) {state : CStr}
    (hstate : ch '\n' ∉ state.val) {tokens : ℤ × Option CStr} {s : Serving}
    (h : (tokensPage D env (truncateAtSecondLastDot state) tokens).run s = (.ret page, s')) :
    SetsOnly ((if tokens.1 = 0 then tokens.2 else none).filter
      (acceptsToken D s.globals ⟨env, req⟩)) page := by
  unfold tokensPage at h
  by_cases hzero : tokens.1 = 0
  · rw [if_pos hzero] at h ⊢
    cases htoken : tokens.2 with
    | none =>
      rw [htoken] at h
      obtain rfl := Outcome.ret.inj (Prod.mk.inj h).1
      exact setsOnly_of_contentType (show ch '\n' ∉ bytes "500" by decide) rfl
    | some jwtoken =>
      rw [htoken] at h
      obtain ⟨res, rfl, haccepts⟩ := page_of_verification req h
      by_cases hres : res = 0
      · rw [decide_eq_true hres] at haccepts
        rw [if_pos hres, Option.filter_some_pos haccepts]
        exact setsOnly_authenticatedPage
          (not_mem_of_control (isCookieValue_of_accepts hplain haccepts).control (by decide))
          (not_mem_redirectUrl hstate) _
      · rw [decide_eq_false hres] at haccepts
        rw [if_neg hres, Option.filter_some_neg (by simp [haccepts])]
        exact setsOnly_of_contentType (show ch '\n' ∉ bytes "401" by decide) rfl
  · rw [if_neg hzero] at h ⊢
    obtain rfl := Outcome.ret.inj (Prod.mk.inj h).1
    exact setsOnly_of_contentType (show ch '\n' ∉ bytes "500" by decide) rfl

/-- The page of `microsoft`. -/
theorem setsOnly_codeResponsePage (hplain : PlainDeployment D entity)
    (hrequest : UnbrokenRequest D req) (hqs : ctx.qs = D.green.queryGet req.queryString)
    {jwtoken content : Bytes}
    (h : (codeResponsePage D env ctx jwtoken content).run { globals := globals } =
      (.ret page, s')) :
    SetsOnly ((codeToken D globals ⟨env, req⟩).filter (acceptsToken D globals ⟨env, req⟩))
      page := by
  have hfour : ch '\n' ∉ bytes "400" := by decide
  unfold codeResponsePage at h
  unfold codeToken
  rw [hqs] at h
  simp only
  cases herror : D.green.queryGet req.queryString (bytes "error") with
  | some error =>
    simp only [herror] at h
    obtain rfl := Outcome.ret.inj (Prod.mk.inj h).1
    exact setsOnly_of_contentType (show ch '\n' ∉ bytes "200" by decide) rfl
  | none =>
    simp only [herror] at h
    cases hcode : D.green.queryGet req.queryString (bytes "code") with
    | none =>
      simp only [hcode] at h
      obtain rfl := Outcome.ret.inj (Prod.mk.inj h).1
      exact setsOnly_of_contentType hfour rfl
    | some code =>
      cases hstate : D.green.queryGet req.queryString (bytes "state") with
      | none =>
        simp only [hcode, hstate] at h
        obtain rfl := Outcome.ret.inj (Prod.mk.inj h).1
        exact setsOnly_of_contentType hfour rfl
      | some state =>
        simp only [hcode, hstate] at h
        by_cases hmac : openidconnectVerifyString D.site.oauth2DefaultClientSecret state = 0
        · rw [if_pos hmac] at h
          obtain ⟨tokens, s₁, hexchange, hpage⟩ := Exec.run_bind_eq_ret_iff.mp h
          rw [onCodes, Exec.run_on] at hexchange
          obtain ⟨houtcome, rfl⟩ := Prod.mk.inj hexchange
          have hsets := setsOnly_tokensPage req hplain (hrequest.state state hstate hmac)
            hpage
          simp only [if_pos hmac]
          rw [houtcome]
          exact hsets
        · rw [if_neg hmac] at h
          obtain rfl := Outcome.ret.inj (Prod.mk.inj h).1
          simp only [if_neg hmac]
          exact setsOnly_of_contentType hfour rfl

/-! ## The handlers -/

/-- The output begins with a page that has the cookie of the token alone, or there is none. -/
inductive OutputSets (jwtoken : Option CStr) : List Event → Prop
  | silent : jwtoken = none → OutputSets jwtoken []
  | page {p : Page} {events : List Event} : SetsOnly jwtoken p →
    OutputSets jwtoken (.page p :: events)

theorem authCookie_dropWhile (jwtoken : CStr) :
    readValue (authCookie jwtoken) = authCookie jwtoken := by
  have hauth : bytes "auth=" = ch 'a' :: bytes "uth=" := by decide
  have hne : ch 'a' ≠ ch ' ' := by decide
  rw [readValue, authCookie, hauth]
  simp [hne]

/-- What a client reads of it. -/
theorem OutputSets.setCookies_eq {jwtoken : Option CStr} {out : List Event}
    (h : OutputSets jwtoken out) :
    setCookies out = jwtoken.toList.map fun t => (authCookie t).2 := by
  cases h with
  | silent hnone =>
    rw [hnone]
    rfl
  | page hpage =>
    rw [setCookies_page hpage.unbroken, hpage.cookies, List.map_map, List.map_map]
    refine List.map_congr_left fun t _ => ?_
    show (readValue (authCookie t)).2 = (authCookie t).2
    rw [authCookie_dropWhile]

/-- A page that is made without output stands in front of it. -/
theorem exists_page_of_run {m : Exec Serving Page} {rest : Exec Serving ℤ} {rc : ℤ} {s : Serving}
    (hm : Silent m)
    (hrest : ∀ g p, ∃ events, (rest.run { globals := g, out := [.page p] }).2.out =
      .page p :: events)
    (h : (do
      let page ← m
      emit (.page page)
      rest).run { globals := globals } = (.ret rc, s)) :
    ∃ p events s₁, m.run { globals := globals } = (.ret p, s₁) ∧ s.out = .page p :: events := by
  obtain ⟨p, s₁, hp, hwritten⟩ := Exec.run_bind_eq_ret_iff.mp h
  obtain ⟨o, g, hsilent⟩ := hm.exists_run globals
  obtain ⟨rfl, rfl⟩ := Prod.mk.inj (hsilent.symm.trans hp)
  obtain ⟨events, hevents⟩ := hrest g p
  have hout : s.out = (rest.run { globals := g, out := [.page p] }).2.out :=
    congrArg (fun r => r.2.out) hwritten.symm
  exact ⟨p, events, _, hp, hout.trans hevents⟩

theorem outputSets_loginPost (hplain : PlainDeployment D entity) {rc : ℤ}
    (h : (processLoginPagePost D env req).run { globals := globals } = (.ret rc, s')) :
    OutputSets none s'.out := by
  unfold processLoginPagePost at h
  cases hform : req.form with
  | fields getfield =>
    rw [hform] at h
    obtain rfl := (Prod.mk.inj h).2
    refine .page ?_
    unfold loginPostPage
    split_ifs
    · refine setsOnly_of_location (show ch '\n' ∉ bytes "302" by decide)
        (fun f hf => by simpa [providerPage] using hf) ?_
      have htexts : ∀ text ∈
          [bytes "https://login.microsoftonline.com/common/oauth2/v2.0/authorize?",
            bytes "client_id=", bytes "&", bytes "response_type=code&",
            bytes "scope=openid%20profile%20email&", bytes "redirect_uri=", bytes "state=",
            bytes "&prompt=select_account"], ch '\n' ∉ text := by decide
      simp only [List.forall_mem_cons] at htexts
      simp [redirectUri, authorizeUri, htexts, hplain.urls, hplain.clientId, hplain.redirectUri]
    · exact setsOnly_of_contentType (show ch '\n' ∉ bytes "400 Bad Request" by decide) rfl
  | _ =>
    rw [hform] at h
    obtain rfl := (Prod.mk.inj h).2
    exact .silent rfl

theorem setsOnly_verificationAnswer (userCtx : Option JwtUserContext) :
    SetsOnly none (verificationAnswer D req userCtx) := by
  refine setsOnly_of_contentType ?_ (fields_verificationAnswer D req userCtx)
  cases userCtx with
  | none => exact show ch '\n' ∉ bytes "401 Unauthorized" by decide
  | some ctx =>
    rw [verificationAnswer]
    split_ifs
    · exact show ch '\n' ∉ bytes "200" by decide
    · exact show ch '\n' ∉ bytes "403 Forbidden" by decide

theorem outputSets_verify {rc : ℤ}
    (h : (processVerificationRequest D env req ctx).run { globals := globals } = (.ret rc, s')) :
    OutputSets none s'.out := by
  obtain ⟨userCtx, s₁, huser, hpage⟩ := Exec.run_bind_eq_ret_iff.mp h
  rw [onStoreMan, Exec.run_on] at huser
  obtain rfl := (Prod.mk.inj huser).2
  obtain rfl := (Prod.mk.inj hpage).2
  exact .page (setsOnly_verificationAnswer userCtx)

theorem outputSets_direct (hplain : PlainDeployment D entity)
    (hqs : ctx.qs = D.green.queryGet req.queryString) {rc : ℤ}
    (h : (processDirectTokenAuthRequest D env ctx).run { globals := globals } = (.ret rc, s')) :
    OutputSets ((D.green.queryGet req.queryString (bytes "token")).filter
      (acceptsToken D globals ⟨env, req⟩)) s'.out := by
  obtain ⟨p, events, s₁, hpage, hout⟩ := exists_page_of_run (silent_directTokenPage ctx)
    (fun g p => ⟨_, rfl⟩) h
  rw [hout]
  exact .page (setsOnly_directTokenPage hplain hqs hpage)

theorem outputSets_microsoft (hplain : PlainDeployment D entity)
    (hrequest : UnbrokenRequest D req) (hqs : ctx.qs = D.green.queryGet req.queryString) {rc : ℤ}
    (h : (processCodeResponse D env ctx).run { globals := globals } = (.ret rc, s')) :
    OutputSets ((codeToken D globals ⟨env, req⟩).filter (acceptsToken D globals ⟨env, req⟩))
      s'.out := by
  obtain ⟨content, hcontent⟩ :=
    cookieContent_run (D := D) (cookieToken ctx.cookies) { globals := globals }
  unfold processCodeResponse at h
  rw [Exec.bind_ret hcontent] at h
  obtain ⟨p, events, s₁, hpage, hout⟩ := exists_page_of_run
    (silent_codeResponsePage ctx (cookieToken ctx.cookies) content) (fun g p => ⟨_, rfl⟩) h
  rw [hout]
  exact .page (setsOnly_codeResponsePage hplain hrequest hqs hpage)

theorem outputSets_debug {rc : ℤ}
    (h : (processDebugTokenAuthRequest D ctx).run { globals := globals } = (.ret rc, s')) :
    OutputSets none s'.out := by
  obtain ⟨content, hcontent⟩ :=
    cookieContent_run (D := D) (cookieToken ctx.cookies) { globals := globals }
  unfold processDebugTokenAuthRequest at h
  rw [Exec.bind_ret hcontent] at h
  obtain rfl := (Prod.mk.inj h).2
  exact .page (setsOnly_of_contentType (show ch '\n' ∉ bytes "200" by decide) rfl)

theorem outputSets_bare {status : String} (hstatus : ch '\n' ∉ bytes status) {rc : ℤ}
    (h : (processBare status).run { globals := globals } = (.ret rc, s')) :
    OutputSets none s'.out := by
  obtain rfl := (Prod.mk.inj h).2
  exact .page (setsOnly_of_contentType hstatus rfl)

/-- **Every route but `logout`** sets the cookie of a login, and no other. -/
theorem outputSets_handle (hplain : PlainDeployment D entity) (hrequest : UnbrokenRequest D req)
    {method path : CStr} {r : Route} (hroute : req.route? = some r) (hlogout : r ≠ .logout)
    {rc : ℤ} (h : (handle D env req (requestContext D.green req method path) r).run
      { globals := globals } = (.ret rc, s')) :
    OutputSets (loginOf D globals ⟨env, req⟩) s'.out := by
  unfold loginOf presentedToken
  simp only [hroute]
  cases r with
  | loginPost => exact outputSets_loginPost hplain h
  | logout => exact absurd rfl hlogout
  | verify => exact outputSets_verify h
  | microsoft => exact outputSets_microsoft hplain hrequest rfl h
  | direct => exact outputSets_direct hplain rfl h
  | debug => exact outputSets_debug h
  | head => exact outputSets_bare (by decide) h
  | notFound => exact outputSets_bare (by decide) h

/-- The login page sets none. -/
theorem outputSets_loginPage (hrequest : UnbrokenRequest D req) {rc : ℤ}
    (h : (processLoginPageGet D env req).run { globals := globals } = (.ret rc, s')) :
    OutputSets none s'.out := by
  have hreturn : ch '\n' ∉ returnTo req.queryString := by
    unfold returnTo
    cases hquery : req.queryString with
    | none => exact show ch '\n' ∉ bytes "/" by decide
    | some qs =>
      simp only
      split_ifs
      · exact fun hmem => hrequest.query qs hquery (List.mem_of_mem_drop hmem)
      · decide
  obtain ⟨authenticated, s₁, hauth, hanswer⟩ := Exec.run_bind_eq_ret_iff.mp h
  have hsilent : Silent (alreadyAuthenticated D env req) := silent_alreadyAuthenticated
  obtain ⟨o, g, hsilent⟩ := hsilent.exists_run globals
  obtain ⟨rfl, rfl⟩ := Prod.mk.inj (hsilent.symm.trans hauth)
  cases authenticated with
  | true =>
    obtain rfl := (Prod.mk.inj hanswer).2
    refine .page (setsOnly_of_location (show ch '\n' ∉ bytes "302" by decide) (fun f hf => ?_)
      hreturn)
    simpa [alreadyAuthenticatedPage, or_comm] using hf
  | false =>
    obtain rfl := (Prod.mk.inj hanswer).2
    exact .page (setsOnly_of_contentType (show ch '\n' ∉ bytes "200" by decide) rfl)

end Answers

/-! ## A request -/

section Requests

variable {D : Deployment} {entity : Byte → Bytes} {globals globals' : Globals} {served : Served}
  {out : List Event}

/-- A request that is served is `GET login`, or its route is handled. -/
theorem handled_of_serveStep (h : serveStep D globals served = some (out, globals')) :
    served.req.route? = some .notFound ∧ (∃ rc, (processLoginPageGet D served.env served.req).run
        { globals := globals } = (.ret rc, { globals := globals', out := out })) ∨
      ∃ method path r rc, served.req.route? = some r ∧
        (handle D served.env served.req (requestContext D.green served.req method path) r).run
          { globals := globals } = (.ret rc, { globals := globals', out := out }) := by
  unfold serveStep at h
  split at h
  · rename_i rc s hrun
    obtain ⟨rfl, rfl⟩ := Prod.mk.inj (Option.some.inj h)
    obtain ⟨method, path, hmethod, hpath, ⟨hget, hlogin⟩ | ⟨hnot, hparams⟩⟩ :=
      params_of_returns (Exec.returns_of_run hrun)
    · rw [appauthProcessRequest_of_login hmethod hpath hget hlogin] at hrun
      refine Or.inl ⟨?_, rc, hrun⟩
      rw [Request.route?, hmethod, hpath]
      simp only [hget, hlogin]
      decide
    · rw [appauthProcessRequest_of_route hparams hnot] at hrun
      refine Or.inr ⟨method, path, _, rc, ?_, hrun⟩
      rw [Request.route?, hmethod, hpath]
  · cases h

/-- **The cookies that a client reads** from the response to any request but `logout`. -/
theorem setCookies_of_serveStep (hplain : PlainDeployment D entity)
    (hrequest : UnbrokenRequest D served.req) (hlogout : served.req.route? ≠ some .logout)
    (h : serveStep D globals served = some (out, globals')) :
    setCookies out = (loginOf D globals served).toList.map fun t => (authCookie t).2 := by
  rcases handled_of_serveStep h with ⟨hroute, rc, hrun⟩ | ⟨method, path, r, rc, hroute, hrun⟩
  · have hnone : loginOf D globals served = none := by
      unfold loginOf presentedToken
      simp only [hroute]
      rfl
    rw [hnone]
    exact (outputSets_loginPage hrequest hrun).setCookies_eq
  · have hr : r ≠ .logout := fun heq => hlogout (heq ▸ hroute)
    exact (outputSets_handle hplain hrequest hroute hr hrun).setCookies_eq

end Requests

/-! ## The token of the sample logins -/

/-- A decoder that knows the one token decodes what can be sent. -/
theorem isCookieValue_of_decode (accepts : Verifier → DecodedJwt → Bool) {jwtStr : Bytes}
    {jwt : DecodedJwt}
    (h : (JwtCpp.ofTable [(signedToken, signedJwt)] accepts).decode jwtStr = .ok jwt) :
    IsCookieValue jwtStr := by
  have htoken : jwtStr = signedToken := by
    by_contra hne
    have hbeq : (jwtStr == signedToken) = false := by simpa using hne
    simp [JwtCpp.ofTable, List.lookup_cons, hbeq] at h
  rw [htoken]
  decide +kernel

end FcgiJwtAuth
