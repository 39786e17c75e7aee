import FcgiJwtAuth.AppAuth.CodeCache
import FcgiJwtAuth.AppAuth.ServerRuns

/-!
# Where the token of a session comes from

A handler verifies two kinds of tokens before it makes a cookie of them: the one in the query of
`direct`, and the one that a code was exchanged for. A code is exchanged only if the request comes
with a state that verifies, and the cache hands out a token only for the code it was exchanged for.
So in a whole run every session cookie holds the token of the query, or the token that the provider
has given, to this process, for the very code of the request.
-/

namespace FcgiJwtAuth

open CLang HTTPUtils

/-! ## The calls of a request -/

section Calls

variable (D : Deployment)

/-- The request comes back from the provider with the code, and with a state that verifies. -/
structure PresentsCode (req : Request) (code : CStr) : Prop where
  route : ∃ method path, req.HasParams method path ∧ route method.val path.val = .microsoft
  noError : D.green.queryGet req.queryString (bytes "error") = none
  code : D.green.queryGet req.queryString (bytes "code") = some code
  state : ∃ state, D.green.queryGet req.queryString (bytes "state") = some state ∧
    openidconnectVerifyString D.site.oauth2DefaultClientSecret state = 0

/-- The request is for `direct`, and has the token in its query. -/
structure PresentsToken (req : Request) (jwtoken : CStr) : Prop where
  route : ∃ method path, req.HasParams method path ∧ route method.val path.val = .direct
  token : D.green.queryGet req.queryString (bytes "token") = some jwtoken

/-- A code is exchanged if the request presents it. A token is verified if the request presents it
or a code was exchanged for it, and on the login page. -/
def CallsFrom (req : Request) (l : Answereds) : HandlerCall → Prop
  | .getTokensFromMicrosoft code => PresentsCode D req code
  | .verifyJwksAuthenticationJwt jwtStr => req.IsLoginGet ∨
      ∃ jwtoken : CStr, jwtStr = jwtoken.val ∧ (PresentsToken D req jwtoken ∨
        ∃ code, ⟨.getTokensFromMicrosoft code, ((0 : ℤ), some jwtoken)⟩ ∈ l)
  | _ => True

/-- Neither of the two is called. -/
def IsQuiet : HandlerCall → Prop
  | .getTokensFromMicrosoft _ => False
  | .verifyJwksAuthenticationJwt _ => False
  | _ => True

/-- Every call on every path is made as it may be. -/
def Handler.Originates {α : Type} (req : Request) (h : Handler α) (l : Answereds) : Prop :=
  h.wp (CallsFrom D req) (fun _ _ => True) l

variable {D} {env : RequestEnv} {req : Request} {l : Answereds}

theorem originates_of_quiet {α : Type} {h : Handler α} (hquiet : h.Calls IsQuiet) :
    h.Originates D req l := by
  refine hquiet.wp fun l c hc => ?_
  cases c with
  | verifyJwksAuthenticationJwt jwtStr => exact hc.elim
  | getTokensFromMicrosoft code => exact hc.elim
  | _ => trivial

theorem calls_emit (e : Event) : (Handler.emit e).Calls IsQuiet := Prog.calls_perform trivial

theorem calls_cookieContent (jwtoken : Bytes) : (Handler.cookieContent jwtoken).Calls IsQuiet := by
  unfold Handler.cookieContent
  split_ifs
  · exact Prog.calls_pure _
  · exact Prog.Calls.bind (Prog.calls_perform trivial) fun _ => Prog.calls_pure _

/-- What stands behind a page. -/
theorem calls_close : (do
    Handler.emit .close
    Handler.emit .finish
    pure 0 : Handler ℤ).Calls IsQuiet :=
  (calls_emit _).bind fun _ => (calls_emit _).bind fun _ => Prog.calls_pure _

/-- The pages of the login page, and what stands behind them. -/
theorem calls_answerLoginPage (returnTo : Bytes) (authenticated : Bool) :
    (Handler.answerLoginPage D returnTo authenticated).Calls IsQuiet := by
  unfold Handler.answerLoginPage
  refine Prog.Calls.bind ?_ fun _ => (calls_emit _).bind fun _ => calls_close
  cases authenticated with
  | true => exact calls_emit _
  | false => exact Prog.calls_pure _

/-- Every route but the two that verify a token. -/
theorem calls_handle (ctx : RequestContext) {r : Route} (hmicrosoft : r ≠ .microsoft)
    (hdirect : r ≠ .direct) : (Handler.handle D env req ctx r).Calls IsQuiet := by
  have hbare : ∀ status, (Handler.processBare status).Calls IsQuiet := fun status =>
    (calls_emit _).bind fun _ => (calls_emit _).bind fun _ => Prog.calls_pure _
  cases r with
  | loginPost =>
    rw [Handler.handle, Handler.processLoginPagePost]
    cases req.form with
    | fields getfield =>
      exact (calls_emit _).bind fun _ => (calls_emit _).bind fun _ => Prog.calls_pure _
    | _ => exact Prog.calls_pure _
  | logout => exact (calls_emit _).bind fun _ => (calls_emit _).bind fun _ => calls_close
  | verify =>
    refine Prog.Calls.bind (Prog.calls_perform trivial) fun _ => (calls_emit _).bind fun _ => ?_
    exact (calls_emit _).bind fun _ => calls_close
  | microsoft => exact absurd rfl hmicrosoft
  | direct => exact absurd rfl hdirect
  | debug => exact (calls_cookieContent _).bind fun _ => (calls_emit _).bind fun _ => calls_close
  | head => exact hbare _
  | notFound => exact hbare _

/-- Behind a part that calls neither, the rest begins on any path. -/
theorem originates_bind_quiet {α β : Type} {h : Handler α} {f : α → Handler β}
    (hquiet : h.Calls IsQuiet) (hf : ∀ a l, (f a).Originates D req l) :
    (h >>= f).Originates D req l :=
  (Prog.wp_bind h f).mpr (Prog.wp_mono (originates_of_quiet hquiet) fun l a _ => hf a l)

/-- A page is made of calls that may be made, and written. -/
theorem originates_page {h : Handler Page} {rest : Page → Handler ℤ} (hpage : h.Originates D req l)
    (hrest : ∀ page, (rest page).Calls IsQuiet) : (h >>= rest).Originates D req l :=
  (Prog.wp_bind h rest).mpr
    (Prog.wp_mono hpage fun _ page _ => originates_of_quiet (hrest page))

/-- The token of an exchange that returned 0. -/
theorem originates_tokensPage (truncated : CStr × Option CStr) {code : CStr}
    {tokens : ℤ × Option CStr} (htokens : ⟨.getTokensFromMicrosoft code, tokens⟩ ∈ l) :
    (Handler.tokensPage truncated tokens).Originates D req l := by
  unfold Handler.tokensPage
  by_cases hzero : tokens.1 = 0
  · rw [if_pos hzero]
    cases htoken : tokens.2 with
    | none => trivial
    | some jwtoken =>
      have hmem : ⟨.getTokensFromMicrosoft code, ((0 : ℤ), some jwtoken)⟩ ∈ l := by
        rwa [← hzero, ← htoken]
      exact ⟨Or.inr ⟨jwtoken, rfl, Or.inr ⟨code, hmem⟩⟩, fun _ => trivial⟩
  · rw [if_neg hzero]
    trivial

variable {method path : CStr}

theorem originates_codeResponsePage (hparams : req.HasParams method path)
    (hroute : route method.val path.val = .microsoft) (jwtoken content : Bytes) :
    (Handler.codeResponsePage D (requestContext D.green req method path) jwtoken
      content).Originates D req l := by
  unfold Handler.codeResponsePage
  cases herror : (requestContext D.green req method path).qs (bytes "error") with
  | some error => trivial
  | none =>
    cases hcode : (requestContext D.green req method path).qs (bytes "code") with
    | none => trivial
    | some code =>
      cases hstate : (requestContext D.green req method path).qs (bytes "state") with
      | none => trivial
      | some state =>
        simp only
        by_cases hmac : openidconnectVerifyString D.site.oauth2DefaultClientSecret state = 0
        · rw [if_pos hmac]
          have hpresents : PresentsCode D req code :=
            ⟨⟨method, path, hparams, hroute⟩, herror, hcode, state, hstate, hmac⟩
          refine ⟨hpresents, fun tokens => ?_⟩
          exact originates_tokensPage _ (List.mem_append_right _ (List.mem_singleton_self _))
        · rw [if_neg hmac]
          trivial

theorem originates_directTokenPage (hparams : req.HasParams method path)
    (hroute : route method.val path.val = .direct) :
    (Handler.directTokenPage (requestContext D.green req method path)).Originates D req l := by
  unfold Handler.directTokenPage
  cases htoken : (requestContext D.green req method path).qs (bytes "token") with
  | none => trivial
  | some jwtoken =>
    exact ⟨Or.inr ⟨jwtoken, rfl, Or.inl ⟨⟨method, path, hparams, hroute⟩, htoken⟩⟩,
      fun _ => trivial⟩

/-- Every route. -/
theorem originates_handle (hparams : req.HasParams method path) {r : Route}
    (hroute : route method.val path.val = r) :
    (Handler.handle D env req (requestContext D.green req method path) r).Originates D req l := by
  by_cases hmicrosoft : r = .microsoft
  · subst hmicrosoft
    refine originates_bind_quiet (calls_cookieContent _) fun content l => ?_
    exact originates_page (originates_codeResponsePage hparams hroute _ content) fun page =>
      (calls_emit _).bind fun _ => (calls_emit _).bind fun _ => calls_close
  · by_cases hdirect : r = .direct
    · subst hdirect
      exact originates_page (originates_directTokenPage hparams hroute) fun page =>
        (calls_emit _).bind fun _ => (calls_emit _).bind fun _ => calls_close
    · exact originates_of_quiet (calls_handle _ hmicrosoft hdirect)

/-- The login page. -/
theorem originates_processLoginPageGet (hlogin : req.IsLoginGet) :
    (Handler.processLoginPageGet D req).Originates D req l := by
  have hanswer : ∀ authenticated l, (Handler.answerLoginPage D (returnTo req.queryString)
      authenticated).Originates D req l :=
    fun authenticated l => originates_of_quiet (calls_answerLoginPage _ authenticated)
  unfold Handler.processLoginPageGet Handler.alreadyAuthenticated
  split_ifs
  · exact ⟨Or.inl hlogin, fun res => hanswer _ _⟩
  · exact hanswer _ l

/-- **Every request.** -/
theorem originates_appauthProcessRequest (req : Request) :
    (Handler.appauthProcessRequest D env req).Originates D req l := by
  have hdispatch : (Handler.dispatch D env req).Originates D req l := by
    unfold Handler.dispatch Handler.fcgxPrepareRequestContext
    split
    · rename_i method _ _ path _ hmethod huri hscript hpath hroot
      exact originates_handle
        ⟨hmethod, hpath, by simp [huri], by simp [hscript], by simp [hroot]⟩ rfl
    · trivial
  cases hmethod : req.requestMethod with
  | none =>
    rw [Handler.appauthProcessRequest, Handler.isLoginPageGet, hmethod]
    trivial
  | some method =>
    by_cases hget : strEq method.val (bytes "GET") = true
    · cases hpath : req.pathInfo with
      | none =>
        rw [Handler.appauthProcessRequest, Handler.isLoginPageGet, hmethod]
        simp only [hget, if_true, hpath]
        trivial
      | some path =>
        have hread : Handler.isLoginPageGet req = pure (strEq path.val (bytes "login")) := by
          rw [Handler.isLoginPageGet, hmethod]
          simp only [hget, if_true, hpath]
        rw [Handler.appauthProcessRequest, hread]
        cases hlogin : strEq path.val (bytes "login") with
        | true =>
          exact originates_processLoginPageGet ⟨method, path, hmethod, hpath,
            by simpa [strEq] using hget, by simpa [strEq] using hlogin⟩
        | false => exact hdispatch
    · have hread : Handler.isLoginPageGet req = pure false := by
        rw [Handler.isLoginPageGet, hmethod]
        exact if_neg hget
      rw [Handler.appauthProcessRequest, hread]
      exact hdispatch

/-- The login page makes no cookie. -/
theorem noCookie_processLoginPageGet (req : Request) :
    (Handler.processLoginPageGet D req).WritesOnly
      (fun _ page => ∀ field ∈ page.fields, field.1 ≠ bytes "Set-Cookie") l := by
  have hlocation : bytes "Location" ≠ bytes "Set-Cookie" := by decide
  have htype : contentType.1 ≠ bytes "Set-Cookie" := by decide
  have hanswer : ∀ authenticated l, (Handler.answerLoginPage D (returnTo req.queryString)
      authenticated).WritesOnly
        (fun _ page => ∀ field ∈ page.fields, field.1 ≠ bytes "Set-Cookie") l := by
    intro authenticated l
    refine writesOnly_answerLoginPage (fun _ field hfield => ?_) fun _ field hfield => ?_
    · simp only [alreadyAuthenticatedPage, List.mem_cons, List.not_mem_nil, or_false] at hfield
      rcases hfield with rfl | rfl
      · exact hlocation
      · exact htype
    · simp only [loginFormPage, List.mem_cons, List.not_mem_nil, or_false] at hfield
      exact hfield ▸ htype
  unfold Handler.processLoginPageGet Handler.alreadyAuthenticated
  split_ifs
  · rw [Handler.WritesOnly, writes_bind, writes_bind, writes_verify]
    exact fun res => hanswer _ _
  · exact hanswer _ l

end Calls

/-! ## The cache -/

/-- The provider has given the token for the code, when this request presented it. -/
structure ExchangedBy (D : Deployment) (served : Served) (code : CStr) (token : Bytes) : Prop where
  presents : PresentsCode D served.req code
  reply : ∃ parsed, exchangeReply D.json D.green D.site served.env.exchange code =
    .token token parsed

/-- What the cache holds, it held before, or the request has exchanged the code for it. -/
def CodesGrow (D : Deployment) (served : Served) (codes codes' : Codes) : Prop :=
  ∀ (code : CStr) (entry : TimedJwtEntry), codes' code.val = some entry →
    (∃ old, codes code.val = some old ∧ old.value = entry.value) ∨
      ExchangedBy D served code entry.value

section Cache

variable {D : Deployment} {served : Served} {codes codes' codes'' : Codes} {code : CStr}

theorem codesGrow_refl (codes : Codes) : CodesGrow D served codes codes :=
  fun _ entry h => Or.inl ⟨entry, h, rfl⟩

theorem CodesGrow.trans (h : CodesGrow D served codes codes')
    (h' : CodesGrow D served codes' codes'') : CodesGrow D served codes codes'' := by
  intro code entry hentry
  rcases h' code entry hentry with ⟨old, hold, hvalue⟩ | hexchanged
  · rw [← hvalue]
    exact h code old hold
  · exact Or.inr hexchanged

/-- What a call passes on is what the cache held, or what the code is exchanged for. -/
def PassesOn (D : Deployment) (served : Served) (codes : Codes) (code : CStr)
    (passed : ℤ × Option CStr) : Prop :=
  ∀ jwtoken, passed = (0, some jwtoken) → ∃ token, jwtoken = CStr.ofBytes token ∧
    ((∃ entry, codes code.val = some entry ∧ entry.value = token) ∨
      ∃ parsed, exchangeReply D.json D.green D.site served.env.exchange code = .token token parsed)

theorem codesGrow_removeExpired (now : ℤ) (codes : Codes) :
    CodesGrow D served codes (codesRemoveExpired now codes) :=
  fun _ entry h => Or.inl ⟨entry, eq_of_codesRemoveExpired h, rfl⟩

theorem CodesGrow.update (h : CodesGrow D served codes codes') {entry : TimedJwtEntry}
    (hentry : (∃ old, codes code.val = some old ∧ old.value = entry.value) ∨
      ExchangedBy D served code entry.value) :
    CodesGrow D served codes (Function.update codes' code.val (some entry)) := by
  intro c e he
  by_cases hc : c.val = code.val
  · obtain rfl := CStr.ext hc
    rw [Function.update_self] at he
    obtain rfl := Option.some.inj he
    exact hentry
  · rw [Function.update_of_ne hc] at he
    exact h c e he

/-- **One exchange**: what it leaves in the cache, and what it passes on. -/
theorem getTokens_effect (hpresents : PresentsCode D served.req code) (codes : Codes) :
    CodesGrow D served codes
        ((getTokensFromMicrosoft D.json D.green D.site served.env.exchange code).run codes).2 ∧
      ∀ passed, ((getTokensFromMicrosoft D.json D.green D.site served.env.exchange code).run
        codes).1 = .ret passed → PassesOn D served codes code passed := by
  cases hcode : codes code.val with
  | some entry =>
    rw [getTokens_run_of_hit hcode]
    refine ⟨(codesGrow_refl codes).update (Or.inl ⟨entry, hcode, rfl⟩), ?_⟩
    rintro passed hpassed jwtoken rfl
    obtain ⟨-, htoken⟩ := Prod.mk.inj (Outcome.ret.inj hpassed)
    exact ⟨entry.value, (Option.some.inj htoken).symm, Or.inl ⟨entry, hcode, rfl⟩⟩
  | none =>
    have hpurge : CodesGrow D served codes (codesRemoveExpired served.env.exchange.now codes) :=
      codesGrow_removeExpired _ codes
    rw [getTokens_run_of_miss hcode]
    cases hreply : exchangeReply D.json D.green D.site served.env.exchange code with
    | token t parsed =>
      refine ⟨hpurge.update (Or.inr ⟨hpresents, parsed, hreply⟩), ?_⟩
      rintro passed hpassed jwtoken rfl
      obtain ⟨-, htoken⟩ := Prod.mk.inj (Outcome.ret.inj hpassed)
      exact ⟨t, (Option.some.inj htoken).symm, Or.inr ⟨parsed, hreply⟩⟩
    | noToken =>
      refine ⟨hpurge, fun passed hpassed => ?_⟩
      cases hpassed
    | _ =>
      refine ⟨hpurge, ?_⟩
      rintro passed hpassed jwtoken rfl
      cases hpassed

end Cache

/-! ## One request -/

section Requests

variable {D : Deployment} {served : Served} {globals globals' : Globals} {out : List Event}
  {s s' : Serving} {l : Answereds} {rc : ℤ}

/-- A call on a path of the request is made as it may be. -/
theorem callsFrom_of_ends {a : Answereds} {c : HandlerCall} {r : c.Answer} {b : Answereds}
    (hends : (Handler.appauthProcessRequest D served.env served.req).Ends (a ++ ⟨c, r⟩ :: b) rc) :
    CallsFrom D served.req a c := by
  have horiginates : (Handler.appauthProcessRequest D served.env served.req).Originates D
      served.req [] := originates_appauthProcessRequest served.req
  exact (Prog.wp_iff_makes _).mp horiginates a c hends.makes

/-- The codes that are exchanged on a path are presented by the request. -/
def CodesPresented (D : Deployment) (req : Request) (l : Answereds) : Prop :=
  ∀ (code : CStr) (r : ℤ × Option CStr), ⟨.getTokensFromMicrosoft code, r⟩ ∈ l →
    PresentsCode D req code

theorem codesPresented_of_ends
    (hends : (Handler.appauthProcessRequest D served.env served.req).Ends l rc) :
    CodesPresented D served.req l := by
  intro code r hmem
  obtain ⟨a, b, rfl⟩ := List.append_of_mem hmem
  exact callsFrom_of_ends hends

/-- What a transcript leaves in the cache. -/
theorem codesGrow_of_plays (hplays : Prog.Plays (HandlerCall.exec D served.env) s l s')
    (hpresented : CodesPresented D served.req l) :
    CodesGrow D served s.globals.codesToJwts s'.globals.codesToJwts := by
  refine hplays.invariant
    (I := fun before s₁ => CodesPresented D served.req before →
      CodesGrow D served s.globals.codesToJwts s₁.globals.codesToJwts)
    (fun {before s₁ c r s₂} hI hcall hcodes => ?_) (fun _ => codesGrow_refl _) hpresented
  have hbefore := hI fun code r hmem => hcodes code r (List.mem_append_left _ hmem)
  refine hbefore.trans ?_
  have hs₂ : s₂ = ((c.exec D served.env).run s₁).2 := by rw [hcall]
  subst hs₂
  cases c with
  | getTokensFromMicrosoft code =>
    have hcode := hcodes code r (List.mem_append_right _ (List.mem_singleton_self _))
    exact (getTokens_effect hcode _).1
  | getUserContext jwtStr =>
    rw [HandlerCall.exec, jwtinterfaceGetUserContext_run]
    exact codesGrow_refl _
  | _ => exact codesGrow_refl _

/-- **The cookies of one request**: the token of the query, or the one that the code of the request
was exchanged for, now or before. -/
theorem cookie_of_serveStep (hgreen : EncodesPlainly D)
    (h : serveStep D globals served = some (out, globals')) {page : Page} {jwtoken : CStr}
    (hpage : Event.page page ∈ out) (hcookie : authCookie jwtoken ∈ page.fields) :
    PresentsToken D served.req jwtoken ∨
      ∃ code token, PresentsCode D served.req code ∧ jwtoken = CStr.ofBytes token ∧
        ((∃ entry, globals.codesToJwts code.val = some entry ∧ entry.value = token) ∨
          ExchangedBy D served code token) := by
  obtain ⟨l, rc, hends, hplays⟩ := exists_transcript h
  obtain ⟨l₁, l₂, rfl⟩ := mem_out_of_plays hplays rfl hpage
  have hverified : Verified l₁ jwtoken.val :=
    ((keepsCookies_appauthProcessRequest hgreen served.req).of_makes hends.makes).verified jwtoken
      hcookie
  obtain ⟨a, b, rfl⟩ := List.append_of_mem hverified
  rw [List.append_assoc, List.cons_append] at hends hplays
  rcases callsFrom_of_ends hends with hlogin | ⟨jwtoken', hval, hquery | ⟨code, hmem⟩⟩
  · -- the login page makes none
    rw [appauthProcessRequest_of_isLoginGet hlogin, ← List.cons_append,
      ← List.append_assoc] at hends
    exact absurd (authCookie_fst jwtoken)
      ((noCookie_processLoginPageGet served.req).of_makes hends.makes _ hcookie)
  · exact Or.inl (CStr.ext hval ▸ hquery)
  · obtain rfl := CStr.ext hval
    have hpresented := codesPresented_of_ends hends
    have hcode := hpresented code _ (List.mem_append_left _ hmem)
    obtain ⟨a₁, a₂, rfl⟩ := List.append_of_mem hmem
    rw [List.append_assoc, List.cons_append] at hplays hpresented
    obtain ⟨s₁, s₂, hbefore, hcall, -⟩ := hplays.split
    have hgrows := codesGrow_of_plays hbefore fun code r hmem =>
      hpresented code r (List.mem_append_left _ hmem)
    have hpassed := (getTokens_effect hcode s₁.globals.codesToJwts).2 (0, some jwtoken)
      (congrArg Prod.fst hcall)
    obtain ⟨token, htoken, ⟨entry, hentry, rfl⟩ | ⟨parsed, hreply⟩⟩ := hpassed jwtoken rfl
    · exact Or.inr ⟨code, entry.value, hcode, htoken, hgrows code entry hentry⟩
    · exact Or.inr ⟨code, token, hcode, htoken, Or.inr ⟨hcode, parsed, hreply⟩⟩

end Requests

/-! ## Whole runs -/

section Runs

variable {D : Deployment}

/-- Every token in the cache was given for its code, in answer to a request of the run. -/
def CodesFrom (D : Deployment) (h : List ServedStep) (codes : Codes) : Prop :=
  ∀ (code : CStr) (entry : TimedJwtEntry), codes code.val = some entry →
    ∃ st ∈ h, ExchangedBy D st.input code entry.value

/-- A session cookie holds the token of the query, or the token that the provider has given for the
code of the request, to this request or an earlier one. -/
def CookiesOriginate (D : Deployment) (earlier : List ServedStep) (st : ServedStep) : Prop :=
  ∀ page jwtoken, Event.page page ∈ st.output → authCookie jwtoken ∈ page.fields →
    PresentsToken D st.input.req jwtoken ∨
      ∃ code token, PresentsCode D st.input.req code ∧ jwtoken = CStr.ofBytes token ∧
        ∃ f ∈ st :: earlier, ExchangedBy D f.input code token

theorem CodesFrom.serveStep {h : List ServedStep} {globals globals' : Globals} {served : Served}
    {out : List Event} (hI : CodesFrom D h globals.codesToJwts)
    (hstep : serveStep D globals served = some (out, globals')) :
    CodesFrom D (⟨globals, served, out, globals'⟩ :: h) globals'.codesToJwts := by
  obtain ⟨l, rc, hends, hplays⟩ := exists_transcript hstep
  intro code entry hentry
  rcases codesGrow_of_plays hplays (codesPresented_of_ends hends) code entry hentry with
    ⟨old, hold, hvalue⟩ | hexchanged
  · obtain ⟨st, hst, hexchanged⟩ := hI code old hold
    exact ⟨st, List.mem_cons_of_mem _ hst, hvalue ▸ hexchanged⟩
  · exact ⟨_, List.mem_cons_self, hexchanged⟩

/-- **No token crosses codes.** In every run of the server a session cookie holds the token that its
request has in the query of `direct`, or the one that the provider has given in this run for the
very code that its request comes back with, beside a state that verifies. -/
theorem cookies_originate_run (hgreen : EncodesPlainly D) {man : Manager} {h : List ServedStep}
    {globals : Globals} (hrun : Run (FcgiJwtAuth.serveStep D) (loopGlobals man) h globals) :
    Everywhere (CookiesOriginate D) h := by
  refine hrun.everywhere (I := fun h globals => CodesFrom D h globals.codesToJwts)
    (fun code entry hentry => ?_) (fun hI htake => hI.serveStep htake)
    (fun {earlier globals served out globals'} hI htake page jwtoken hpage hcookie => ?_)
  · cases hentry
  · rcases cookie_of_serveStep hgreen htake hpage hcookie with
      hquery | ⟨code, token, hcode, htoken, ⟨entry, hentry, rfl⟩ | hexchanged⟩
    · exact Or.inl hquery
    · obtain ⟨f, hf, hexchanged⟩ := hI code entry hentry
      exact Or.inr ⟨code, entry.value, hcode, htoken, f, List.mem_cons_of_mem _ hf, hexchanged⟩
    · exact Or.inr ⟨code, token, hcode, htoken, _, List.mem_cons_self, hexchanged⟩

end Runs

/-! ## A login with a code -/

/-- `GET microsoft` with a code that is exchanged for a token that verifies. -/
theorem serveStep_of_exchange {D : Deployment} {served : Served} {globals : Globals}
    {code state jwtoken : CStr} {codes : Codes} {man : Manager}
    (hroute : ∃ method path, served.req.HasParams method path ∧
      route method.val path.val = .microsoft)
    (herror : D.green.queryGet served.req.queryString (bytes "error") = none)
    (hcode : D.green.queryGet served.req.queryString (bytes "code") = some code)
    (hstate : D.green.queryGet served.req.queryString (bytes "state") = some state)
    (hmac : openidconnectVerifyString D.site.oauth2DefaultClientSecret state = 0)
    (hexchange : (getTokensFromMicrosoft D.json D.green D.site served.env.exchange code).run
      globals.codesToJwts = (.ret (0, some jwtoken), codes))
    (hverify : (verifyJwksAuthenticationJwt D.jwt D.json served.env.jwks jwtoken.val).run
      globals.storeMan = (.ret 0, man)) :
    serveStep D globals served = some ([.page (authenticatedPage jwtoken
        (redirectUrl (truncateAtSecondLastDot state)) (truncateAtSecondLastDot state).1),
      .flush, .close, .finish], ⟨man, codes⟩) := by
  obtain ⟨truncated, htruncated⟩ : ∃ t, truncateAtSecondLastDot state = t := ⟨_, rfl⟩
  rw [htruncated]
  have hrun : ∀ method path, served.req.HasParams method path →
      (handle D served.env served.req (requestContext D.green served.req method path)
        .microsoft).run { globals := globals } =
          (.ret 0, { globals := ⟨man, codes⟩
                     out := [.page (authenticatedPage jwtoken (redirectUrl truncated) truncated.1),
                       .flush, .close, .finish] }) := by
    intro method path _
    apply processCodeResponse_run
    intro content
    rw [codeResponsePage_of_state _ _ herror hcode hstate hmac, htruncated]
    exact exchangedCodePage_of_success hexchange hverify
  exact serveStep_of_handle hroute hrun (by decide)

theorem presentsCode_getOf (state : CStr)
    (hmac : openidconnectVerifyString AppSpecific.sample.oauth2DefaultClientSecret state = 0) :
    PresentsCode (keysDeployment (codeQuery state)) (getOf state).req (CStr.lit "M.R3") where
  route := ⟨_, _, requestOf_hasParams _ _ _ _ _, by decide⟩
  noError := rfl
  code := rfl
  state := ⟨state, rfl, hmac⟩

theorem exchangeReply_keysDeployment (query : Bytes → Option CStr) :
    exchangeReply (keysDeployment query).json (keysDeployment query).green
      (keysDeployment query).site (envAt 1790000060 signedBody).exchange (CStr.lit "M.R3") =
        .token signedToken true := by
  have hpost : httpPost ((envAt 1790000060 signedBody).exchange.curl
      (exchangePostData (keysDeployment query).green (keysDeployment query).site
        (CStr.lit "M.R3"))) = some ⟨none, signedBody⟩ :=
    httpPost_ofBody (by decide +kernel) (by decide +kernel) 200
  have hparse : (keysDeployment query).json.parse signedBody =
      (.object [(bytes "id_token", .string signedToken)], true) := by
    have hne : (signedBody == testKeys (bytes "k1")) = false := by decide +kernel
    simp [keysDeployment, keysPicojson, Picojson.ofTable, List.lookup_cons, hne]
  simp only [exchangeReply, hpost, hparse]
  rfl

/-- The code is exchanged, and the token becomes the cookie of the session. -/
theorem cookies_originate_run_code :
    ∃ out globals' page, Run (serveStep (keysDeployment (codeQuery shortState)))
        (loopGlobals keysManager) [⟨loopGlobals keysManager, getOf shortState, out, globals'⟩]
        globals' ∧
      Event.page page ∈ out ∧ authCookie (CStr.ofBytes signedToken) ∈ page.fields ∧
      Everywhere (CookiesOriginate (keysDeployment (codeQuery shortState)))
        [⟨loopGlobals keysManager, getOf shortState, out, globals'⟩] := by
  have hpresents := presentsCode_getOf shortState (openidconnectVerifyString_create _ _)
  have hmiss : (loopGlobals keysManager).codesToJwts (CStr.lit "M.R3").val = none := rfl
  have hexchange : ((getTokensFromMicrosoft (keysDeployment (codeQuery shortState)).json
      (keysDeployment (codeQuery shortState)).green (keysDeployment (codeQuery shortState)).site
      (getOf shortState).env.exchange (CStr.lit "M.R3")).run
        (loopGlobals keysManager).codesToJwts).1 = .ret (0, some (CStr.ofBytes signedToken)) := by
    rw [getTokens_run_of_miss hmiss, getOf, exchangeReply_keysDeployment]
  obtain ⟨codes, hexchange⟩ := Exec.exists_state hexchange
  have hverify := verifyJwks_keysManager (getOf shortState).env.jwks
  rw [← ofBytes_signedToken] at hverify
  obtain ⟨state, hstate, hmac⟩ := hpresents.state
  have hstep := serveStep_of_exchange hpresents.route hpresents.noError hpresents.code hstate hmac
    hexchange hverify
  have hrun := Run.cons .nil hstep
  exact ⟨_, _, _, hrun, List.mem_cons_self, List.mem_cons_self,
    cookies_originate_run (encodesPlainly_keysDeployment _) hrun⟩

end FcgiJwtAuth
