import FcgiJwtAuth.AppAuth.ControlPaths

/-!
# Request text in the pages

Two requests that differ in the values of their query parameters alone, and meet the same outcomes,
should be answered with the same markup. The description of an error is escaped; the error code, the
page to return to, the state and the `REDIRECT_URL` of the login template are not, so the markup of
these is added to the page.
-/

namespace FcgiJwtAuth

open CLang HTTPUtils

/-! ## Outcomes -/

/-- What the calls of a request answer: it makes at most one of each. -/
structure Outcomes where
  verification : ℤ
  user : Option JwtUserContext
  exchange : ℤ × Option CStr
  deriving Inhabited

/-- The calls answered by the outcomes, with the output recorded. -/
def Outcomes.answer (O : Outcomes) : (c : HandlerCall) → Exec (List Event) c.Answer
  | .verifyJwksAuthenticationJwt _ => (pure O.verification : Exec (List Event) ℤ)
  | .applicationVerifyJwtAuthentication _ =>
    (pure O.user : Exec (List Event) (Option JwtUserContext))
  | .getTokensFromMicrosoft _ => (pure O.exchange : Exec (List Event) (ℤ × Option CStr))
  | .getUserContext _ => (pure O.user : Exec (List Event) (Option JwtUserContext))
  | .emit e => Exec.modify fun out => out ++ [e]

/-- The pages that the handler writes. -/
def Outcomes.pages (O : Outcomes) (h : Handler ℤ) : List Page :=
  ((h.interp O.answer).run []).2.filterMap Event.page?

/-- The markup of their bodies. -/
def Outcomes.markup (O : Outcomes) (h : Handler ℤ) : Bytes :=
  (O.pages h).flatMap fun page => CLang.markup page.body

/-- Whatever the outcomes, the two requests are answered with the same markup. -/
def SameMarkup (h h' : Handler ℤ) : Prop := ∀ O : Outcomes, O.markup h = O.markup h'

/-! ## The pages of a request -/

namespace Outcomes

variable (O : Outcomes) (D : Deployment)

/-- The content of the cookie. -/
def cookieContent (jwtoken : Bytes) : Bytes :=
  if jwtoken = [] then bytes "NO CONTENT: ERROR\r\n" else jwtContent O.user

/-- The page behind an exchange. -/
def tokensPage (truncated : CStr × Option CStr) : Page :=
  if O.exchange.1 = 0 then
    match O.exchange.2 with
    | none => nullTokenPage
    | some jwtoken =>
      if O.verification = 0 then authenticatedPage jwtoken (redirectUrl truncated) truncated.1
      else codeUnauthorizedPage
  else retrievalFailedPage

/-- The page of `process_code_response`. -/
def codePage (ctx : RequestContext) : Page :=
  match ctx.qs (bytes "error") with
  | some error => providerErrorPage D error (ctx.qs (bytes "error_description"))
  | none =>
    match ctx.qs (bytes "code"), ctx.qs (bytes "state") with
    | some _, some state =>
      if openidconnectVerifyString D.site.oauth2DefaultClientSecret state = 0 then
        O.tokensPage (truncateAtSecondLastDot state)
      else notVerifyablePage
    | _, _ =>
      missingArgumentPage D (cookieToken ctx.cookies) (O.cookieContent (cookieToken ctx.cookies))

end Outcomes

section Pages

variable {O : Outcomes} {D : Deployment}

theorem interp_emit (e : Event) :
    (Handler.emit e).interp O.answer = Exec.modify fun out => out ++ [e] :=
  Prog.interp_perform _ (HandlerCall.emit e)

theorem interp_verify (jwtStr : Bytes) :
    (Handler.verify jwtStr).interp O.answer = pure O.verification :=
  Prog.interp_perform _ (HandlerCall.verifyJwksAuthenticationJwt jwtStr)

theorem interp_getTokens (code : CStr) :
    (Handler.getTokens code).interp O.answer = pure O.exchange :=
  Prog.interp_perform _ (HandlerCall.getTokensFromMicrosoft code)

theorem interp_getUserContext (jwtStr : Bytes) :
    (Handler.getUserContext jwtStr).interp O.answer = pure O.user :=
  Prog.interp_perform _ (HandlerCall.getUserContext jwtStr)

theorem interp_cookieContent (jwtoken : Bytes) :
    (Handler.cookieContent jwtoken).interp O.answer = pure (O.cookieContent jwtoken) := by
  unfold Handler.cookieContent Outcomes.cookieContent
  split_ifs
  · rfl
  · rw [Prog.interp_bind, interp_getUserContext]
    rfl

theorem interp_tokensPage (truncated : CStr × Option CStr) :
    (Handler.tokensPage truncated O.exchange).interp O.answer = pure (O.tokensPage truncated) := by
  unfold Handler.tokensPage Outcomes.tokensPage
  by_cases hzero : O.exchange.1 = 0
  · rw [if_pos hzero, if_pos hzero]
    cases O.exchange.2 with
    | none => rfl
    | some jwtoken =>
      simp only [Handler.verifiedTokenPage]
      rw [Prog.interp_bind, interp_verify]
      rfl
  · rw [if_neg hzero, if_neg hzero]
    rfl

theorem interp_codeResponsePage (ctx : RequestContext) :
    (Handler.codeResponsePage D ctx (cookieToken ctx.cookies)
      (O.cookieContent (cookieToken ctx.cookies))).interp O.answer = pure (O.codePage D ctx) := by
  unfold Handler.codeResponsePage Outcomes.codePage
  cases ctx.qs (bytes "error") with
  | some error => rfl
  | none =>
    cases ctx.qs (bytes "code") with
    | none => rfl
    | some code =>
      cases ctx.qs (bytes "state") with
      | none => rfl
      | some state =>
        simp only
        by_cases hmac : openidconnectVerifyString D.site.oauth2DefaultClientSecret state = 0
        · rw [if_pos hmac, if_pos hmac, Handler.exchangedCodePage, Prog.interp_bind,
            interp_getTokens, Exec.pure_bind, interp_tokensPage]
        · rw [if_neg hmac, if_neg hmac]
          rfl

/-- **One page** is written. -/
theorem pages_processCodeResponse (ctx : RequestContext) :
    O.pages (Handler.processCodeResponse D ctx) = [O.codePage D ctx] := by
  unfold Outcomes.pages Handler.processCodeResponse
  simp only [Prog.interp_bind, interp_cookieContent, Exec.pure_bind, interp_codeResponsePage,
    interp_emit]
  rfl

/-- The user is known from the cookie. -/
def Outcomes.authenticated (O : Outcomes) (req : Request) : Bool :=
  (req.cookie.isSome || req.authorization.isSome) && decide (O.verification = 0)

/-- **The login form** is written, behind a redirection or alone. -/
theorem pages_processLoginPageGet (req : Request) :
    O.pages (Handler.processLoginPageGet D req) =
      (if O.authenticated req then [alreadyAuthenticatedPage (returnTo req.queryString) 0]
        else []) ++
        [loginFormPage D (returnTo req.queryString)] := by
  have hauth : (Handler.alreadyAuthenticated req).interp O.answer = pure (O.authenticated req) := by
    unfold Handler.alreadyAuthenticated Outcomes.authenticated
    cases (req.cookie.isSome || req.authorization.isSome) with
    | true =>
      rw [if_pos rfl, Prog.interp_bind, interp_verify]
      rfl
    | false => rfl
  unfold Outcomes.pages Handler.processLoginPageGet
  rw [Prog.interp_bind, hauth, Exec.pure_bind]
  unfold Handler.answerLoginPage
  cases O.authenticated req with
  | true =>
    simp only [if_true, Prog.interp_bind, interp_emit]
    rfl
  | false =>
    simp only [Bool.false_eq_true, if_false, Prog.interp_bind, interp_emit]
    rfl

end Pages

/-! ## The markup of a page -/

section Markup

variable {O : Outcomes} {D : Deployment}

theorem markup_processCodeResponse (ctx : RequestContext) :
    O.markup (Handler.processCodeResponse D ctx) = markup (O.codePage D ctx).body := by
  rw [Outcomes.markup, pages_processCodeResponse, List.flatMap_singleton]

theorem markup_processLoginPageGet (req : Request) :
    O.markup (Handler.processLoginPageGet D req) =
      (if O.authenticated req then markup (alreadyAuthenticatedPage [] 0).body else []) ++
        markup (loginFormPage D (returnTo req.queryString)).body := by
  have hbody : (alreadyAuthenticatedPage (returnTo req.queryString) 0).body =
      (alreadyAuthenticatedPage [] 0).body := by
    simp only [alreadyAuthenticatedPage]
  rw [Outcomes.markup, pages_processLoginPageGet, List.flatMap_append, List.flatMap_singleton]
  split_ifs
  · rw [List.flatMap_singleton, hbody]
  · rw [List.flatMap_nil]

/-- The library writes none of the three characters. -/
def EscapesMarkup (D : Deployment) : Prop := ∀ s : CStr, markup (D.green.htmlspecialEncode s) = []

/-- Of an error, the code is added, and nothing of the description. -/
theorem markup_providerErrorPage (hgreen : EscapesMarkup D) :
    ∃ (before : Bytes) (behind : Bool → Bytes), ∀ error description,
      markup (providerErrorPage D error description).body =
        before ++ markup error.val ++ behind description.isSome := by
  refine ⟨markup (lines (metaHead ["<!DOCTYPE html>", "<html><head>"]
        ["<style>", "*, body \x7b font-family: sans-serif; \x7d", "</style>", "</head>", "<body>",
          "<h1>Error Returned by Microsoft</h1>"]) ++ bytes "<p>Error Code: <code>"),
    fun described => markup (bytes "</code></p>\r\n") ++
      ((if described then markup (bytes "<h2>Further Detail of this Error</h2><p>") ++
          markup (bytes "</p>\r\n") else []) ++
        markup (lines ["<p><a href=\"/\">Click here to try again.</a></p>", "</body>", "</html>"])),
    fun error description => ?_⟩
  cases description with
  | none =>
    simp only [providerErrorPage, markup_append, List.append_assoc, List.nil_append,
      Option.isSome_none, Bool.false_eq_true, if_false]
  | some text =>
    simp only [providerErrorPage, markup_append, List.append_assoc, hgreen text, List.nil_append,
      Option.isSome_some, if_true]

/-- Of an authenticated request, the page to return to twice, the token and the state. -/
theorem markup_authenticatedPage :
    ∃ (pieces : List Bytes) (between behind : Bytes), 2 ≤ pieces.length ∧
      ∀ jwtoken url state, markup (authenticatedPage jwtoken url state).body =
        (markup url).intercalate pieces ++ markup jwtoken.val ++
          (between ++ markup state.val ++ behind) := by
  refine ⟨[markup (lines (metaHead ["<!DOCTYPE html>", "<html>", "<head>"]
          ["</head>", "<body>", "<h1>Authenticated</h1>"]) ++
        bytes "<p>If you are not redirected automatically please <a href=\""),
      markup (bytes "\">click here ("),
      markup (bytes ")</a>.</p>\r\n" ++ lines ["<p>Token Details Here</p>"] ++
        bytes "<p><a href=\"direct?token=")],
    markup (bytes "&state="),
    markup (bytes "\">Click here</a> to set the token as the <code>auth</code> cookie and " ++
      bytes "continue...</p>\r\n" ++ lines ["</body>", "</html>"]), by simp,
    fun jwtoken url state => ?_⟩
  simp only [authenticatedPage, markup_append, List.append_assoc, List.intercalate_cons_cons,
    List.intercalate_singleton]

end Markup

/-! ## The state -/

/-- Two cut states put the same markup on the page: in front of the cut, which is there once, and
twice more where there is a cut. -/
structure CutsAgree (truncated truncated' : CStr × Option CStr) : Prop where
  text : markup truncated.1.val = markup truncated'.1.val
  cut : markup truncated.1.val ≠ [] → truncated.2.isSome = truncated'.2.isSome

theorem cutsAgree_iff {truncated truncated' : CStr × Option CStr} :
    CutsAgree truncated truncated' ↔
      markup (redirectUrl truncated) = markup (redirectUrl truncated') ∧
        markup truncated.1.val = markup truncated'.1.val := by
  obtain ⟨text, rest⟩ := truncated
  obtain ⟨text', rest'⟩ := truncated'
  constructor
  · intro h
    have htext : markup text.val = markup text'.val := h.text
    refine ⟨?_, htext⟩
    by_cases hnil : markup text.val = []
    · have hnil' : markup text'.val = [] := htext ▸ hnil
      cases rest <;> cases rest' <;> simp [redirectUrl, hnil, hnil']
    · have hcut : rest.isSome = rest'.isSome := h.cut hnil
      cases rest <;> cases rest' <;> simp_all [redirectUrl]
  · rintro ⟨hurl, htext⟩
    refine ⟨htext, fun hne => ?_⟩
    cases rest <;> cases rest' <;> simp_all [redirectUrl]

section State

variable {D : Deployment} {truncated truncated' : CStr × Option CStr}

/-- The exchange returns this token, and it verifies. -/
def Outcomes.verified (jwtoken : CStr) : Outcomes := ⟨0, none, (0, some jwtoken)⟩

/-- **The page of a state**: whatever the outcomes, it has the same markup exactly if the cut states
agree. -/
theorem markup_tokensPage_iff :
    (∀ O : Outcomes, markup (O.tokensPage truncated).body = markup (O.tokensPage truncated').body) ↔
      CutsAgree truncated truncated' := by
  obtain ⟨pieces, between, behind, hpieces, hpage⟩ := markup_authenticatedPage
  rw [cutsAgree_iff]
  constructor
  · intro hall
    -- the token is a marker between the pages to return to and the state
    have hmarker : ∀ jwtoken : CStr,
        (markup (redirectUrl truncated)).intercalate pieces ++ markup jwtoken.val ++
            (between ++ markup truncated.1.val ++ behind) =
          (markup (redirectUrl truncated')).intercalate pieces ++ markup jwtoken.val ++
            (between ++ markup truncated'.1.val ++ behind) := by
      intro jwtoken
      rw [← hpage, ← hpage]
      exact hall (Outcomes.verified jwtoken)
    have hlt := hmarker (CStr.lit "<")
    have hgt := hmarker (CStr.lit ">")
    rw [show markup (CStr.lit "<").val = [ch '<'] by decide] at hlt
    rw [show markup (CStr.lit ">").val = [ch '>'] by decide] at hgt
    simp only [List.append_assoc, List.singleton_append] at hlt hgt
    have hne : ch '<' ≠ ch '>' := by decide
    obtain ⟨hurl, hstate⟩ := append_marker_inj hne hlt hgt
    exact ⟨(intercalate_inj hpieces).mp hurl,
      List.append_cancel_right (List.append_cancel_left hstate)⟩
  · rintro ⟨hurl, hstate⟩ O
    unfold Outcomes.tokensPage
    by_cases hzero : O.exchange.1 = 0
    · rw [if_pos hzero, if_pos hzero]
      cases O.exchange.2 with
      | none => rfl
      | some jwtoken =>
        by_cases hverified : O.verification = 0
        · simp only [if_pos hverified]
          rw [hpage, hpage, hurl, hstate]
        · simp only [if_neg hverified]
    · rw [if_neg hzero, if_neg hzero]

end State

/-! ## The answer of the provider -/

section Code

variable (D : Deployment) (qs qs' : Bytes → Option CStr)

/-- A code and a state that verifies, without an error. -/
def VerifiedState (state : CStr) : Prop :=
  qs (bytes "error") = none ∧ (qs (bytes "code")).isSome ∧ qs (bytes "state") = some state ∧
    openidconnectVerifyString D.site.oauth2DefaultClientSecret state = 0

/-- The same parameters are present, and the states verify or not alike. -/
structure SameParameters : Prop where
  present : ∀ key, (qs key).isSome = (qs' key).isSome
  verified : ∀ state state', qs (bytes "state") = some state → qs' (bytes "state") = some state' →
    (openidconnectVerifyString D.site.oauth2DefaultClientSecret state = 0 ↔
      openidconnectVerifyString D.site.oauth2DefaultClientSecret state' = 0)

/-- What is repeated unescaped agrees: the error codes, and what the states hold. -/
structure EchoesAgree : Prop where
  error : ∀ error error', qs (bytes "error") = some error → qs' (bytes "error") = some error' →
    markup error.val = markup error'.val
  state : ∀ state state', VerifiedState D qs state → VerifiedState D qs' state' →
    CutsAgree (truncateAtSecondLastDot state) (truncateAtSecondLastDot state')

variable {D qs qs'}

theorem SameParameters.exists_value (h : SameParameters D qs qs') {key : Bytes} {value : CStr}
    (hkey : qs key = some value) : ∃ value', qs' key = some value' := by
  have hpresent := h.present key
  rw [hkey, Option.isSome_some] at hpresent
  exact Option.isSome_iff_exists.mp hpresent.symm

theorem SameParameters.absent (h : SameParameters D qs qs') {key : Bytes} (hkey : qs key = none) :
    qs' key = none := by
  have hpresent := h.present key
  rw [hkey, Option.isSome_none] at hpresent
  exact Option.isSome_eq_false_iff.mp hpresent.symm |> Option.isNone_iff_eq_none.mp

/-- A state that verifies stands behind the code in both. -/
theorem SameParameters.exists_verifiedState (h : SameParameters D qs qs') {state : CStr}
    (hstate : VerifiedState D qs state) : ∃ state', VerifiedState D qs' state' := by
  obtain ⟨herror, hcode, hvalue, hmac⟩ := hstate
  obtain ⟨state', hvalue'⟩ := h.exists_value hvalue
  exact ⟨state', h.absent herror, h.present _ ▸ hcode, hvalue',
    (h.verified state state' hvalue hvalue').mp hmac⟩

/-- The pages of an error. -/
theorem markup_errorPage_iff (hgreen : EscapesMarkup D) {error error' : CStr}
    {description description' : Option CStr} (h : description.isSome = description'.isSome) :
    markup (providerErrorPage D error description).body =
        markup (providerErrorPage D error' description').body ↔
      markup error.val = markup error'.val := by
  obtain ⟨before, behind, hpage⟩ := markup_providerErrorPage hgreen
  rw [hpage, hpage, h, List.append_left_inj, List.append_right_inj]

theorem codePage_of_verifiedState (O : Outcomes) {ctx : RequestContext} {state : CStr}
    (h : VerifiedState D ctx.qs state) :
    O.codePage D ctx = O.tokensPage (truncateAtSecondLastDot state) := by
  obtain ⟨herror, hcode, hstate, hmac⟩ := h
  obtain ⟨code, hcode⟩ := Option.isSome_iff_exists.mp hcode
  simp only [Outcomes.codePage, herror, hcode, hstate, if_pos hmac]

/-- Without an error and a state that verifies, the page repeats no parameter. -/
theorem codePage_of_not_verifiedState (O : Outcomes) {ctx : RequestContext}
    (h : SameParameters D ctx.qs qs') (herror : ctx.qs (bytes "error") = none)
    (hnot : ¬ ∃ state, VerifiedState D ctx.qs state) :
    O.codePage D ctx = O.codePage D { ctx with qs := qs' } := by
  have herror' := h.absent herror
  cases hcode : ctx.qs (bytes "code") with
  | none =>
    have hcode' := h.absent hcode
    simp only [Outcomes.codePage, herror, herror', hcode, hcode']
  | some code =>
    obtain ⟨code', hcode'⟩ := h.exists_value hcode
    cases hstate : ctx.qs (bytes "state") with
    | none =>
      have hstate' := h.absent hstate
      simp only [Outcomes.codePage, herror, herror', hcode, hcode', hstate, hstate']
    | some state =>
      obtain ⟨state', hstate'⟩ := h.exists_value hstate
      have hmac : ¬ openidconnectVerifyString D.site.oauth2DefaultClientSecret state = 0 :=
        fun hmac => hnot ⟨state, herror, by rw [hcode]; rfl, hstate, hmac⟩
      have hmac' := mt (h.verified state state' hstate hstate').mpr hmac
      simp only [Outcomes.codePage, herror, herror', hcode, hcode', hstate, hstate', if_neg hmac,
        if_neg hmac']

theorem echoesAgree_of_error {error error' : CStr} (h : qs (bytes "error") = some error)
    (h' : qs' (bytes "error") = some error') :
    EchoesAgree D qs qs' ↔ markup error.val = markup error'.val := by
  constructor
  · exact fun hagree => hagree.error error error' h h'
  · intro hmarkup
    refine ⟨fun e e' he he' => ?_, fun state _ hstate _ => ?_⟩
    · rw [Option.some.inj (he.symm.trans h), Option.some.inj (he'.symm.trans h'), hmarkup]
    · exact absurd (h.symm.trans hstate.1) (by simp)

theorem echoesAgree_of_verifiedState {state state' : CStr} (h : VerifiedState D qs state)
    (h' : VerifiedState D qs' state') :
    EchoesAgree D qs qs' ↔
      CutsAgree (truncateAtSecondLastDot state) (truncateAtSecondLastDot state') := by
  constructor
  · exact fun hagree => hagree.state state state' h h'
  · intro hcuts
    refine ⟨fun e _ he _ => ?_, fun s s' hs hs' => ?_⟩
    · exact absurd (h.1.symm.trans he) (by simp)
    · rw [Option.some.inj (hs.2.2.1.symm.trans h.2.2.1),
        Option.some.inj (hs'.2.2.1.symm.trans h'.2.2.1)]
      exact hcuts

/-- **The answer of the provider**: requests with the same parameters are answered with the same
markup exactly if what is repeated unescaped agrees. -/
theorem sameMarkup_processCodeResponse_iff (hgreen : EscapesMarkup D) {ctx : RequestContext}
    (h : SameParameters D ctx.qs qs') :
    SameMarkup (Handler.processCodeResponse D ctx)
        (Handler.processCodeResponse D { ctx with qs := qs' }) ↔
      EchoesAgree D ctx.qs qs' := by
  simp only [SameMarkup, markup_processCodeResponse]
  cases herror : ctx.qs (bytes "error") with
  | some error =>
    obtain ⟨error', herror'⟩ := h.exists_value herror
    have hdescription := h.present (bytes "error_description")
    rw [echoesAgree_of_error herror herror', ← markup_errorPage_iff hgreen hdescription]
    simp only [Outcomes.codePage, herror, herror', forall_const]
  | none =>
    by_cases hverified : ∃ state, VerifiedState D ctx.qs state
    · obtain ⟨state, hstate⟩ := hverified
      obtain ⟨state', hstate'⟩ := h.exists_verifiedState hstate
      rw [echoesAgree_of_verifiedState hstate hstate', ← markup_tokensPage_iff]
      have hpage : ∀ O : Outcomes, O.codePage D { ctx with qs := qs' } =
          O.tokensPage (truncateAtSecondLastDot state') :=
        fun O => codePage_of_verifiedState O hstate'
      simp only [codePage_of_verifiedState _ hstate, hpage]
    · have hagree : EchoesAgree D ctx.qs qs' :=
        ⟨fun _ _ he _ => absurd (herror.symm.trans he) (by simp),
          fun state _ hstate _ => absurd ⟨state, hstate⟩ hverified⟩
      refine ⟨fun _ => hagree, fun _ O => ?_⟩
      rw [codePage_of_not_verifiedState O h herror hverified]

end Code

/-! ## The login form -/

section Login

variable (D : Deployment)

/-- The login form around the uses of `REDIRECT_URL`, up to its end as a string. -/
def redirectPieces : List Bytes :=
  cutPieces 0 ((TemplateEngine.mk (applicationLoginPageGetContent D) fun _ => none).piecesLoop true
    (bytes "REDIRECT_URL") (applicationLoginPageGetContent D))

/-- The template shows the page to return to. -/
def UsesRedirectUrl : Prop := 2 ≤ (redirectPieces D).length

variable {D}

theorem nul_not_mem_returnTo (queryString : Option CStr) : (0 : Byte) ∉ returnTo queryString :=
  (acceptedReturn_iff.mpr ⟨queryString, rfl⟩).noNul

theorem body_loginFormPage {returnTo : Bytes} (hnul : (0 : Byte) ∉ returnTo) :
    (loginFormPage D returnTo).body = returnTo.intercalate (redirectPieces D) := by
  have hname : isValidVariableName (bytes "REDIRECT_URL") = true := by decide
  unfold redirectPieces
  rw [← upTo_intercalate hnul, ← TemplateEngine.renderLoop_setVariable hname]
  rfl

/-- **The login form** adds the markup of the page to return to, where the template shows it. -/
theorem sameMarkup_processLoginPageGet_iff (req : Request) (queryString' : Option CStr) :
    SameMarkup (Handler.processLoginPageGet D req)
        (Handler.processLoginPageGet D { req with queryString := queryString' }) ↔
      (UsesRedirectUrl D →
        markup (returnTo req.queryString) = markup (returnTo queryString')) := by
  have hbody : ∀ queryString, markup (loginFormPage D (returnTo queryString)).body =
      (markup (returnTo queryString)).intercalate ((redirectPieces D).map markup) := by
    intro queryString
    rw [body_loginFormPage (nul_not_mem_returnTo queryString)]
    exact filter_intercalate isMarkup _ _
  have hsame : SameMarkup (Handler.processLoginPageGet D req)
      (Handler.processLoginPageGet D { req with queryString := queryString' }) ↔
      (markup (returnTo req.queryString)).intercalate ((redirectPieces D).map markup) =
        (markup (returnTo queryString')).intercalate ((redirectPieces D).map markup) := by
    simp only [SameMarkup, markup_processLoginPageGet, hbody]
    constructor
    · exact fun h => List.append_cancel_left (h default)
    · intro h O
      rw [h]
      rfl
  rw [hsame]
  by_cases huses : UsesRedirectUrl D
  · have hholes : 2 ≤ ((redirectPieces D).map markup).length := by
      rw [List.length_map]
      exact huses
    rw [intercalate_inj hholes]
    exact ⟨fun h _ => h, fun h => h huses⟩
  · have hno : ((redirectPieces D).map markup).length < 2 := by
      rw [List.length_map]
      exact not_le.mp huses
    exact ⟨fun _ h => absurd h huses, fun _ => intercalate_of_no_hole hno _ _⟩

end Login

/-! ## Request text in the pages -/

/-- The names of the parameters of a query string. -/
def parameterNames (queryString : Option CStr) : Option (List Bytes) :=
  queryString.map fun qs => (qs.val.splitOn (ch '&')).map (upTo (ch '='))

/-- Requests that differ in the values of their parameters alone are answered with the same
markup. -/
structure AddsNoMarkup (D : Deployment) : Prop where
  code : ∀ (ctx : RequestContext) (qs' : Bytes → Option CStr), SameParameters D ctx.qs qs' →
    SameMarkup (Handler.processCodeResponse D ctx)
      (Handler.processCodeResponse D { ctx with qs := qs' })
  login : ∀ (req : Request) (queryString' : Option CStr),
    parameterNames req.queryString = parameterNames queryString' →
      SameMarkup (Handler.processLoginPageGet D req)
        (Handler.processLoginPageGet D { req with queryString := queryString' })

/-- **Two requests** are answered with the same markup exactly if the texts that are repeated
unescaped have it in common. With the calls made, these are the handlers. -/
theorem sameMarkup_iff_echoes (D : Deployment) (env : RequestEnv) (hgreen : EscapesMarkup D) :
    (∀ (ctx : RequestContext) (qs' : Bytes → Option CStr), SameParameters D ctx.qs qs' →
      (SameMarkup (Handler.processCodeResponse D ctx)
          (Handler.processCodeResponse D { ctx with qs := qs' }) ↔ EchoesAgree D ctx.qs qs')) ∧
    (∀ (req : Request) (queryString' : Option CStr),
      (SameMarkup (Handler.processLoginPageGet D req)
          (Handler.processLoginPageGet D { req with queryString := queryString' }) ↔
        (UsesRedirectUrl D →
          markup (returnTo req.queryString) = markup (returnTo queryString')))) ∧
    (∀ ctx, (Handler.processCodeResponse D ctx).exec D env = processCodeResponse D env ctx) ∧
    (∀ req, (Handler.processLoginPageGet D req).exec D env = processLoginPageGet D env req) :=
  ⟨fun _ _ h => sameMarkup_processCodeResponse_iff hgreen h, sameMarkup_processLoginPageGet_iff,
    exec_processCodeResponse, exec_processLoginPageGet⟩

/-- A query string with an error alone. -/
def errorQuery (error : String) (key : Bytes) : Option CStr :=
  if key = bytes "error" then some (CStr.lit error) else none

theorem errorQuery_error (error : String) :
    errorQuery error (bytes "error") = some (CStr.lit error) := if_pos rfl

theorem sameParameters_errorQuery (D : Deployment) (error error' : String) :
    SameParameters D (errorQuery error) (errorQuery error') := by
  refine ⟨fun key => ?_, fun state _ hstate => ?_⟩
  · unfold errorQuery
    split_ifs <;> rfl
  · have hkey : bytes "state" ≠ bytes "error" := by decide
    rw [errorQuery, if_neg hkey] at hstate
    exact absurd hstate (by simp)

theorem escapesMarkup_escapingDeployment : EscapesMarkup escapingDeployment :=
  fun s => markup_htmlEscape (fun b _ => markup_htmlName b) s.val

/-- Two error codes without markup, and two plain pages to return to. -/
theorem sameMarkup_plain :
    SameMarkup
        (Handler.processCodeResponse escapingDeployment
          ⟨[], [], none, errorQuery "access_denied"⟩)
        (Handler.processCodeResponse escapingDeployment
          ⟨[], [], none, errorQuery "server_error"⟩) ∧
      SameMarkup
        (Handler.processLoginPageGet escapingDeployment
          (requestOf "GET" "login" none (some (CStr.lit "return=/a")) .failed))
        (Handler.processLoginPageGet escapingDeployment
          (requestOf "GET" "login" none (some (CStr.lit "return=/b")) .failed)) := by
  obtain ⟨hcode, hlogin, -, -⟩ :=
    sameMarkup_iff_echoes escapingDeployment directGet.env escapesMarkup_escapingDeployment
  constructor
  · refine (hcode ⟨[], [], none, errorQuery "access_denied"⟩ (errorQuery "server_error")
      (sameParameters_errorQuery _ _ _)).mpr
      ((echoesAgree_of_error (errorQuery_error _) (errorQuery_error _)).mpr ?_)
    decide
  · refine (hlogin (requestOf "GET" "login" none (some (CStr.lit "return=/a")) .failed)
      (some (CStr.lit "return=/b"))).mpr fun _ => ?_
    decide

/-- An error code with a tag in it adds the tag. -/
theorem not_addsNoMarkup_error : ¬ AddsNoMarkup escapingDeployment := by
  intro h
  have hsame := h.code ⟨[], [], none, errorQuery "access_denied"⟩ (errorQuery "<b>")
    (sameParameters_errorQuery _ _ _)
  rw [sameMarkup_processCodeResponse_iff escapesMarkup_escapingDeployment
    (sameParameters_errorQuery _ _ _),
    echoesAgree_of_error (errorQuery_error _) (errorQuery_error _)] at hsame
  revert hsame
  decide

end FcgiJwtAuth
