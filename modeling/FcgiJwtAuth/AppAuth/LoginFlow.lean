import FcgiJwtAuth.AppAuth.Dispatch
import FcgiJwtAuth.Application.VerifyOutcome
import FcgiJwtAuth.Jwks.KeyLoading

/-!
# Where a login ends

A login takes two requests. The page to return to travels from the form of the first, through the
signed state, to the `Location` that answers the second. On this way nothing looks at it: the
signature vouches for whatever was put in, and the check that the login form makes of its `return`
argument is not made of `redirect_to`. So the login ends at a safe page exactly when the form named
one.
-/

namespace FcgiJwtAuth

open CLang HTTPUtils

/-! ## Safe pages -/

/-- A path of this site on one line: what `process_login_page_get` asks of its `return` argument. -/
structure SafeTarget (location : Bytes) : Prop where
  slash : location.getD 0 0 = ch '/'
  notSlash : location.getD 1 0 ≠ ch '/'
  noCr : ch '\r' ∉ location
  noLf : ch '\n' ∉ location

/-- The `Location` values of a header block. -/
def Page.locations (page : Page) : List Bytes :=
  (page.fields.filter (·.1 = CLang.bytes "Location")).map (·.2)

/-- The `Location` values that are written. -/
def locations (out : List Event) : List Bytes :=
  (out.filterMap Event.page?).flatMap Page.locations

/-- The page to return to is safe; or it holds a NUL, and what stands before its first NUL has a dot
and is safe up to its last one. -/
def SafeSendTo (sendTo : Bytes) : Prop :=
  ((0 : Byte) ∉ sendTo ∧ SafeTarget sendTo) ∨
    (0 : Byte) ∈ sendTo ∧ ∃ path rest, upTo 0 sendTo = path ++ ch '.' :: rest ∧ ch '.' ∉ rest ∧
      SafeTarget path

theorem not_safeTarget_nil : ¬ SafeTarget [] := fun h => absurd h.slash (by decide)

/-! ## The state between the requests -/

section State

variable (D : Deployment) (env : RequestEnv) (getfield : Bytes → Option (Option Bytes))

/-- Without a NUL the whole page is in the salt, with the time behind it. -/
theorem stateSalt_of_noNul {sendTo currentTime : Bytes} (hsend : (0 : Byte) ∉ sendTo)
    (htime : (0 : Byte) ∉ currentTime) :
    (stateSalt sendTo currentTime).val = sendTo ++ ch '.' :: currentTime := by
  have hdot : (0 : Byte) ≠ ch '.' := by decide
  refine CStr.ofBytes_val ?_
  simp [hsend, htime, hdot]

/-- With one, `c_str()` ends at it, and the time is cut off. -/
theorem stateSalt_of_nul {sendTo : Bytes} (hsend : (0 : Byte) ∈ sendTo) (currentTime : Bytes) :
    (stateSalt sendTo currentTime).val = upTo 0 sendTo := by
  have hsplit : sendTo ++ ch '.' :: currentTime =
      upTo 0 sendTo ++ 0 :: (after 0 sendTo ++ ch '.' :: currentTime) := by
    rw [← List.cons_append, ← List.append_assoc, upTo_append_after hsend]
  show upTo 0 (sendTo ++ ch '.' :: currentTime) = upTo 0 sendTo
  rw [hsplit, upTo_append_cons (not_mem_upTo 0 sendTo)]

/-- A state made of a page without a NUL and a time without a dot is cut between the two. -/
theorem truncateAtSecondLastDot_state (secret : CStr) {sendTo currentTime : Bytes}
    (hsend : (0 : Byte) ∉ sendTo) (htime : (0 : Byte) ∉ currentTime)
    (hdot : ch '.' ∉ currentTime) :
    truncateAtSecondLastDot
        (openidconnectCreateVerifyableString secret (stateSalt sendTo currentTime)) =
      (CStr.ofBytes sendTo, some (CStr.ofBytes
        (currentTime ++ ch '.' :: signature secret (sendTo ++ ch '.' :: currentTime)))) := by
  have hsalt := stateSalt_of_noNul hsend htime
  have hstate : (openidconnectCreateVerifyableString secret (stateSalt sendTo currentTime)).val =
      sendTo ++ ch '.' :: (currentTime ++ ch '.' ::
        signature secret (sendTo ++ ch '.' :: currentTime)) := by
    rw [openidconnectCreateVerifyableString_val, hsalt, List.append_assoc, List.cons_append]
  exact truncateAtSecondLastDot_eq_of_dots hstate hdot (noDot_signature _ _)

/-- **The round trip of a state**: it verifies, and is cut into the page it was made for and the
signed time; a string with fewer than two dots is not cut at all. -/
theorem stateRoundTrip (secret : CStr) {sendTo currentTime : Bytes}
    (hsend : (0 : Byte) ∉ sendTo) (htime : (0 : Byte) ∉ currentTime)
    (hdot : ch '.' ∉ currentTime) :
    (∀ state, state = openidconnectCreateVerifyableString secret (stateSalt sendTo currentTime) →
      openidconnectVerifyString secret state = 0 ∧
        (truncateAtSecondLastDot state).1.val = sendTo ∧
        (truncateAtSecondLastDot state).2.map CStr.val = some
          (currentTime ++ ch '.' :: signature secret (sendTo ++ ch '.' :: currentTime))) ∧
      ∀ str : CStr, str.val.count (ch '.') < 2 → truncateAtSecondLastDot str = (str, none) := by
  have hrest : (0 : Byte) ∉
      currentTime ++ ch '.' :: signature secret (sendTo ++ ch '.' :: currentTime) := by
    have hne : (0 : Byte) ≠ ch '.' := by decide
    simp [htime, hne, noNul_signature]
  refine ⟨?_, fun _ => truncateAtSecondLastDot_of_count⟩
  rintro state rfl
  refine ⟨openidconnectVerifyString_create _ _, ?_, ?_⟩
  · rw [truncateAtSecondLastDot_state secret hsend htime hdot]
    exact CStr.ofBytes_val hsend
  · rw [truncateAtSecondLastDot_state secret hsend htime hdot, Option.map_some,
      CStr.ofBytes_val hrest]

theorem stateRoundTrip_dotted :
    openidconnectVerifyString (CStr.lit "k") (openidconnectCreateVerifyableString (CStr.lit "k")
        (stateSalt (bytes "./a.html") (bytes "20261001T120000Z"))) = 0 ∧
      (truncateAtSecondLastDot (openidconnectCreateVerifyableString (CStr.lit "k")
        (stateSalt (bytes "./a.html") (bytes "20261001T120000Z")))).1.val = bytes "./a.html" ∧
      truncateAtSecondLastDot (CStr.lit "a.b") = (CStr.lit "a.b", none) := by
  have hsend : (0 : Byte) ∉ bytes "./a.html" := by decide
  have htime : (0 : Byte) ∉ bytes "20261001T120000Z" := by decide
  obtain ⟨hstate, hfew⟩ := stateRoundTrip (CStr.lit "k") hsend htime (by decide)
  obtain ⟨hverify, htruncated, -⟩ := hstate _ rfl
  exact ⟨hverify, htruncated, hfew _ (by decide)⟩

/-- Without a NUL, what comes back is what was put in. -/
theorem redirectUrl_of_noNul (h : (0 : Byte) ∉ sendTo getfield) :
    redirectUrl (truncateAtSecondLastDot (verifyableString D env getfield)) = sendTo getfield := by
  rw [verifyableString, truncateAtSecondLastDot_state _ h (D.green.formatTime_noNul _)
    (D.green.formatTime_noDot _)]
  exact CStr.ofBytes_val h

/-- With one, the salt has lost its time, and what comes back ends at a dot of the page itself. -/
theorem safeTarget_redirectUrl_of_nul (h : (0 : Byte) ∈ sendTo getfield) :
    SafeTarget (redirectUrl (truncateAtSecondLastDot (verifyableString D env getfield))) ↔
      ∃ path rest, upTo 0 (sendTo getfield) = path ++ ch '.' :: rest ∧ ch '.' ∉ rest ∧
        SafeTarget path := by
  have hsig := noDot_signature D.site.oauth2DefaultClientSecret (upTo 0 (sendTo getfield))
  have hstate : (verifyableString D env getfield).val = upTo 0 (sendTo getfield) ++
      ch '.' :: signature D.site.oauth2DefaultClientSecret (upTo 0 (sendTo getfield)) := by
    rw [verifyableString, openidconnectCreateVerifyableString_val, stateSalt_of_nul h]
  by_cases hdot : ch '.' ∈ upTo 0 (sendTo getfield)
  · obtain ⟨path, rest, hsplit, hrest⟩ := exists_last_split hdot
    have htwo : (verifyableString D env getfield).val = path ++ ch '.' :: (rest ++ ch '.' ::
        signature D.site.oauth2DefaultClientSecret (upTo 0 (sendTo getfield))) := by
      rw [hstate]
      nth_rewrite 1 [hsplit]
      rw [List.append_assoc, List.cons_append]
    rw [(truncateAtSecondLastDot_of_dots htwo hrest hsig).2]
    constructor
    · intro hpath
      exact ⟨path, rest, hsplit, hrest, hpath⟩
    · rintro ⟨path', rest', hsplit', hrest', hpath⟩
      rw [(last_split_unique hrest hrest' (hsplit.symm.trans hsplit')).1]
      exact hpath
  · -- the only dot stands in front of the signature
    rw [truncateAtSecondLastDot_of_dot hstate hdot hsig]
    refine iff_of_false not_safeTarget_nil ?_
    rintro ⟨path, rest, hsplit, -, -⟩
    exact hdot (by simp [hsplit])

/-- **What the second request redirects to is safe exactly when the page to return to is.** -/
theorem safeTarget_redirectUrl_iff :
    SafeTarget (redirectUrl (truncateAtSecondLastDot (verifyableString D env getfield))) ↔
      SafeSendTo (sendTo getfield) := by
  by_cases hnul : (0 : Byte) ∈ sendTo getfield
  · rw [safeTarget_redirectUrl_of_nul D env getfield hnul]
    simp [SafeSendTo, hnul]
  · rw [redirectUrl_of_noNul D env getfield hnul]
    simp [SafeSendTo, hnul]

/-- The address of the provider tells the state in it. -/
theorem redirectUri_injective {raw raw' : Bytes} (h : redirectUri D raw = redirectUri D raw') :
    raw = raw' := by
  unfold redirectUri at h
  exact List.append_cancel_left (List.append_cancel_right h)

end State

/-! ## The two requests -/

/-- A login through the provider: a form that names it is posted, and the request that comes back
carries the state of the redirection that was written, with a code whose exchange and verification
succeed. -/
structure LoginFlow (D : Deployment) (getfield : Bytes → Option (Option Bytes)) (post get : Served)
    (globals₁ globals₂ : Globals) (out : List Event) : Prop where
  posts : ∃ method path, post.req.HasParams method path ∧ route method.val path.val = .loginPost
  form : post.req.form = .fields getfield
  provider : isMicrosoft getfield = true
  answers : ∃ globals, serveStep D globals₁ post = some (out, globals)
  gets : ∃ method path, get.req.HasParams method path ∧ route method.val path.val = .microsoft
  noError : D.green.queryGet get.req.queryString (bytes "error") = none
  carriesState : ∃ raw, locations out = [redirectUri D raw] ∧
    D.green.queryGet get.req.queryString (bytes "state") = some (D.green.urlDecode raw)
  exchanges : ∃ code jwtoken codes man,
    D.green.queryGet get.req.queryString (bytes "code") = some code ∧
    (getTokensFromMicrosoft D.json D.green D.site get.env.exchange code).run
      globals₂.codesToJwts = (.ret (0, some jwtoken), codes) ∧
    (verifyJwksAuthenticationJwt D.jwt D.json get.env.jwks jwtoken.val).run globals₂.storeMan =
      (.ret 0, man)

/-- The request is answered with one `Location`, and that is safe. -/
def RedirectsSafely (D : Deployment) (globals : Globals) (served : Served) : Prop :=
  ∃ out globals' location, serveStep D globals served = some (out, globals') ∧
    locations out = [location] ∧ SafeTarget location

section Flow

variable {D : Deployment} {getfield : Bytes → Option (Option Bytes)} {post get : Served}
  {globals₁ globals₂ : Globals} {out : List Event}

/-- The first request sends the user off with the state that was made. -/
theorem LoginFlow.locations_out (h : LoginFlow D getfield post get globals₁ globals₂ out) :
    locations out =
      [redirectUri D (D.green.urlEncode (verifyableString D post.env getfield))] := by
  obtain ⟨globals, hserve⟩ := h.answers
  have hrun : ∀ method path, post.req.HasParams method path →
      (handle D post.env post.req (requestContext D.green post.req method path) .loginPost).run
        { globals := globals₁ } =
          (.ret 0, { globals := globals₁
                     out := [.page (loginPostPage D post.env getfield), .finish] }) := by
    intro method path _
    rw [handle, processLoginPagePost, h.form]
    rfl
  rw [serveStep_of_handle h.posts hrun (by decide)] at hserve
  obtain ⟨rfl, -⟩ := Prod.mk.inj (Option.some.inj hserve)
  rw [loginPostPage, if_pos h.provider]
  rfl

/-- The second request carries that state. -/
theorem LoginFlow.state (h : LoginFlow D getfield post get globals₁ globals₂ out) :
    D.green.queryGet get.req.queryString (bytes "state") =
      some (verifyableString D post.env getfield) := by
  obtain ⟨raw, hraw, hstate⟩ := h.carriesState
  have heq := h.locations_out.symm.trans hraw
  have hsame := redirectUri_injective D (List.head_eq_of_cons_eq heq)
  rw [hstate, ← hsame, D.green.urlDecode_urlEncode]

/-- The second request redirects to what is cut out of the state. -/
theorem LoginFlow.redirects (h : LoginFlow D getfield post get globals₁ globals₂ out) :
    ∃ out₂ globals, serveStep D globals₂ get = some (out₂, globals) ∧ locations out₂ =
      [redirectUrl (truncateAtSecondLastDot (verifyableString D post.env getfield))] := by
  obtain ⟨code, jwtoken, codes, man, hcode, hexchange, hverify⟩ := h.exchanges
  have hmac : openidconnectVerifyString D.site.oauth2DefaultClientSecret
      (verifyableString D post.env getfield) = 0 := openidconnectVerifyString_create _ _
  -- what the handler cuts the state into
  obtain ⟨truncated, htruncated⟩ :
      ∃ t, truncateAtSecondLastDot (verifyableString D post.env getfield) = t := ⟨_, rfl⟩
  rw [htruncated]
  have hrun : ∀ method path, get.req.HasParams method path →
      (handle D get.env get.req (requestContext D.green get.req method path) .microsoft).run
        { globals := globals₂ } =
          (.ret 0, { globals := ⟨man, codes⟩
                     out := [.page (authenticatedPage jwtoken (redirectUrl truncated) truncated.1),
                       .flush, .close, .finish] }) := by
    intro method path _
    apply processCodeResponse_run
    intro content
    rw [codeResponsePage_of_state _ _ h.noError hcode h.state hmac, htruncated]
    exact exchangedCodePage_of_success hexchange hverify
  exact ⟨_, _, serveStep_of_handle h.gets hrun (by decide), rfl⟩

end Flow

/-- **A login ends at a safe page exactly when the form named one.** -/
theorem loginFlow_redirectsSafely_iff {D : Deployment}
    {getfield : Bytes → Option (Option Bytes)} {post get : Served} {globals₁ globals₂ : Globals}
    {out : List Event} (h : LoginFlow D getfield post get globals₁ globals₂ out) :
    RedirectsSafely D globals₂ get ↔ SafeSendTo (sendTo getfield) := by
  obtain ⟨out₂, globals, hserve, hlocations⟩ := h.redirects
  rw [← safeTarget_redirectUrl_iff D post.env getfield]
  constructor
  · rintro ⟨out', globals', location, hserve', hlocation, hsafe⟩
    obtain ⟨rfl, -⟩ := Prod.mk.inj (Option.some.inj (hserve.symm.trans hserve'))
    rw [List.head_eq_of_cons_eq (hlocations.symm.trans hlocation)]
    exact hsafe
  · intro hsafe
    exact ⟨out₂, globals, _, hserve, hlocations, hsafe⟩

/-! ## Where the user came from -/

/-- What `process_login_page_get` accepts as the page to return to. -/
structure AcceptedReturn (returnPath : Bytes) : Prop where
  slash : returnPath.getD 0 0 = ch '/'
  notSlash : returnPath.getD 1 0 ≠ ch '/'
  noNul : (0 : Byte) ∉ returnPath

/-- These are the pages that the login form can be shown with. -/
theorem acceptedReturn_iff {returnPath : Bytes} :
    AcceptedReturn returnPath ↔ ∃ queryString, returnTo queryString = returnPath := by
  have hname : (bytes "return=").length = 7 := by decide
  constructor
  · intro h
    have hnul : (0 : Byte) ∉ bytes "return=" ++ returnPath := by
      have hreturn : (0 : Byte) ∉ bytes "return=" := by decide
      simp [hreturn, h.noNul]
    have hlen : 0 < returnPath.length := by
      refine List.length_pos_of_ne_nil ?_
      rintro rfl
      exact absurd h.slash (by decide)
    have hget : ∀ n, (bytes "return=" ++ returnPath).getD (7 + n) 0 = returnPath.getD n 0 := by
      intro n
      rw [List.getD_append_right _ _ _ _ (by omega), hname, Nat.add_sub_cancel_left]
    refine ⟨some ⟨_, hnul⟩, ?_⟩
    have hprefix : strncmp 7 (bytes "return=" ++ returnPath) (bytes "return=") = 0 :=
      (strncmp_eq_zero_iff hnul (by decide)).mpr (List.prefix_append _ _)
    have hlong : 8 ≤ (bytes "return=" ++ returnPath).length := by
      rw [List.length_append, hname]
      omega
    have hslash := (hget 0).trans h.slash
    have hnot : ¬ (bytes "return=" ++ returnPath).getD 8 0 = ch '/' := by
      rw [hget 1]
      exact h.notSlash
    simp only [returnTo]
    rw [if_pos ⟨hlong, hprefix, hslash, hnot⟩, ← hname, List.drop_left]
  · rintro ⟨queryString, rfl⟩
    have hroot : AcceptedReturn (bytes "/") := ⟨by decide, by decide, by decide⟩
    unfold returnTo
    cases queryString with
    | none => exact hroot
    | some qs =>
      simp only
      split
      · rename_i hqs
        obtain ⟨-, -, hslash, hnot⟩ := hqs
        refine ⟨?_, ?_, fun h => qs.noNul (List.mem_of_mem_drop h)⟩
        · rw [← hslash, List.getD_eq_getElem?_getD, List.getElem?_drop, List.getD_eq_getElem?_getD]
        · intro h
          rw [List.getD_eq_getElem?_getD, List.getElem?_drop] at h
          exact hnot (by rw [List.getD_eq_getElem?_getD]; exact h)
      · exact hroot

/-- The request is answered with this one `Location`. -/
def RedirectsTo (D : Deployment) (globals : Globals) (served : Served) (location : Bytes) : Prop :=
  ∃ out globals', serveStep D globals served = some (out, globals') ∧ locations out = [location]

/-- The login form keeps a page that is longer than four bytes, and puts `/` for any other. -/
theorem sendTo_eq_iff {getfield : Bytes → Option (Option Bytes)} {redirectTo : Bytes}
    (hfield : getfield (bytes "redirect_to") = some (some redirectTo)) :
    sendTo getfield = redirectTo ↔ redirectTo = bytes "/" ∨ 4 < redirectTo.length := by
  simp only [sendTo, hfield]
  by_cases hlong : 4 < redirectTo.length
  · rw [if_pos hlong]
    exact iff_of_true rfl (Or.inr hlong)
  · rw [if_neg hlong]
    constructor
    · intro h
      exact Or.inl h.symm
    · rintro (h | h)
      · exact h.symm
      · exact absurd h hlong

/-- **A login returns the user where they came from**, if that is `/` or longer than four bytes. -/
theorem loginFlow_returns_iff {D : Deployment} {getfield : Bytes → Option (Option Bytes)}
    {post get : Served} {globals₁ globals₂ : Globals} {out : List Event} {returnPath : Bytes}
    (h : LoginFlow D getfield post get globals₁ globals₂ out) (hreturn : AcceptedReturn returnPath)
    (hfield : getfield (bytes "redirect_to") = some (some returnPath)) :
    RedirectsTo D globals₂ get returnPath ↔
      returnPath = bytes "/" ∨ 4 < returnPath.length := by
  have hnul : (0 : Byte) ∉ sendTo getfield := by
    simp only [sendTo, hfield]
    split
    · exact hreturn.noNul
    · decide
  obtain ⟨out₂, globals, hserve, hlocations⟩ := h.redirects
  rw [redirectUrl_of_noNul D post.env getfield hnul] at hlocations
  rw [← sendTo_eq_iff hfield]
  constructor
  · rintro ⟨out', globals', hserve', hlocation⟩
    obtain ⟨rfl, -⟩ := Prod.mk.inj (Option.some.inj (hserve.symm.trans hserve'))
    exact List.head_eq_of_cons_eq (hlocations.symm.trans hlocation)
  · intro heq
    rw [heq] at hlocations
    exact ⟨out₂, globals, hserve, hlocations⟩

/-! ## Sample logins -/

/-- The verifier of `testdata/ec256-public.pem`. -/
def signedVerifier : Verifier :=
  keyVerifier (.es256 (bytes ("-----BEGIN PUBLIC KEY-----\n" ++
    "MFkwEwYHKoZIzj0CAQYIKoZIzj0DAQcDQgAEa8qPVdjQJm76VvhFMDux9d017VWa\n" ++
    "Sk9VW5x6+t8/RGVfj4msm2KlRAlXGpPvzjM0mAfmfXlW0lYG1PGX8GS7eQ==\n" ++
    "-----END PUBLIC KEY-----\n")))

/-- The body of the reply to an exchange with that token. -/
def signedBody : Bytes := bytes "\x7b\"id_token\":\"" ++ signedToken ++ bytes "\"\x7d"

/-- A form that names an address elsewhere. -/
def elsewhereForm (key : Bytes) : Option (Option Bytes) :=
  if key = bytes "provider" then some (some (bytes "microsoft"))
  else if key = bytes "redirect_to" then some (some (bytes "https://evil.example/"))
  else none

/-- The state that is made of it. -/
def elsewhereState : CStr :=
  openidconnectCreateVerifyableString AppSpecific.sample.oauth2DefaultClientSecret
    (stateSalt (bytes "https://evil.example/") (bytes "20261001T120000Z"))

/-- What the provider sends back. -/
def elsewhereQuery (key : Bytes) : Option CStr :=
  if key = bytes "code" then some (CStr.lit "M.R3")
  else if key = bytes "state" then some elsewhereState
  else none

/-- A site whose one key is the one above. -/
def signedDeployment : Deployment where
  jwt := JwtCpp.ofTable [(signedToken, signedJwt)] fun verifier jwt =>
    decide (verifier = signedVerifier) && decide (jwt.token = signedToken)
  json := .ofTable [(signedBody, .object [(bytes "id_token", .string signedToken)])]
  green := .ofQuery elsewhereQuery
  site := .sample
  loginTemplate := []
  logoutTemplate := []
  authorisationVerification := none

def signedGlobals : Globals where
  storeMan :=
    { stores := Function.update (fun _ => none) (bytes "microsoft") (some
        { verifiers := Function.update (fun _ => none) (bytes "k1") (some signedVerifier) })
      host := { files := fun _ => none, fetches := [] } }
  codesToJwts _ := none

/-- The form is posted. -/
def elsewherePost : Served where
  env := envAt 1790000000 []
  req := requestOf "POST" "login" none none (.fields elsewhereForm)

/-- The user comes back from the provider. -/
def elsewhereGet : Served where
  env := envAt 1790000060 signedBody
  req := requestOf "GET" "microsoft" none
    (some (CStr.ofBytes (bytes "code=M.R3&state=" ++ percentEncode elsewhereState.val))) .failed

theorem decode_signedToken : signedDeployment.jwt.decode signedToken = .ok signedJwt := by
  simp [signedDeployment, JwtCpp.ofTable]

/-- The key accepts the token. -/
theorem verifiedToken_signedToken :
    VerifiedToken signedDeployment.jwt signedDeployment.json elsewhereGet.env.jwks
      signedGlobals.storeMan signedToken := by
  have hverify : signedDeployment.jwt.verify signedVerifier signedJwt
      elsewhereGet.env.jwks.verifyNow = .ok ⟨⟩ := by
    simp [signedDeployment, JwtCpp.ofTable, signedJwt]
  refine ⟨signedJwt, bytes "k1", decode_signedToken, ?_, rfl,
    ⟨_, signedVerifier, rfl, rfl, hverify⟩, ?_, ?_⟩
  · exact ⟨⟨_, rfl⟩, ⟨_, rfl⟩, ⟨_, rfl⟩, ⟨_, rfl⟩, Or.inl rfl⟩
  · exact ⟨by decide +kernel, Or.inl ⟨_, rfl⟩, _, rfl⟩
  · exact ⟨Or.inl ⟨_, rfl⟩, Or.inl ⟨_, rfl⟩⟩

/-- The code is exchanged for it, whatever query strings are read. -/
theorem exchangeReply_signedBody (query : Bytes → Option CStr) :
    exchangeReply signedDeployment.json (.ofQuery query) signedDeployment.site
      elsewhereGet.env.exchange (CStr.lit "M.R3") = .token signedToken true := by
  have hpost : httpPost (elsewhereGet.env.exchange.curl (exchangePostData (.ofQuery query)
      signedDeployment.site (CStr.lit "M.R3"))) = some ⟨none, signedBody⟩ :=
    httpPost_ofBody (by decide +kernel) (by decide +kernel) 200
  have hparse : signedDeployment.json.parse signedBody =
      (.object [(bytes "id_token", .string signedToken)], true) := by
    simp [signedDeployment, Picojson.ofTable]
  simp only [exchangeReply, hpost, hparse]
  rfl

/-- What the form is answered with. -/
def elsewhereOut : List Event :=
  [.page (loginPostPage signedDeployment elsewherePost.env elsewhereForm), .finish]

/-! ### Any form that names the provider -/

/-- What the provider sends back with a state. -/
def codeQuery (state : CStr) (key : Bytes) : Option CStr :=
  if key = bytes "code" then some (CStr.lit "M.R3")
  else if key = bytes "state" then some state
  else none

/-- The site above, where that query is read. -/
def signedDeploymentFor (state : CStr) : Deployment :=
  { signedDeployment with green := .ofQuery (codeQuery state) }

/-- A form is posted. -/
def postOf (getfield : Bytes → Option (Option Bytes)) : Served where
  env := envAt 1790000000 []
  req := requestOf "POST" "login" none none (.fields getfield)

/-- The user comes back with a state. -/
def getOf (state : CStr) : Served where
  env := envAt 1790000060 signedBody
  req := requestOf "GET" "microsoft" none
    (some (CStr.ofBytes (bytes "code=M.R3&state=" ++ percentEncode state.val))) .failed

/-- What the form is answered with. -/
def postOut (getfield : Bytes → Option (Option Bytes)) (state : CStr) : List Event :=
  [.page (loginPostPage (signedDeploymentFor state) (postOf getfield).env getfield), .finish]

/-- The two requests are a login. -/
theorem loginFlow_of_form {getfield : Bytes → Option (Option Bytes)} {state : CStr}
    (hprovider : isMicrosoft getfield = true)
    (hstate : verifyableString (signedDeploymentFor state) (postOf getfield).env getfield = state) :
    LoginFlow (signedDeploymentFor state) getfield (postOf getfield) (getOf state) signedGlobals
      signedGlobals (postOut getfield state) where
  posts := ⟨_, _, requestOf_hasParams _ _ _ _ _, by decide⟩
  form := rfl
  provider := hprovider
  answers := by
    have hroute : ∃ method path, (postOf getfield).req.HasParams method path ∧
        route method.val path.val = .loginPost := ⟨_, _, requestOf_hasParams _ _ _ _ _, by decide⟩
    exact ⟨signedGlobals, serveStep_of_handle hroute (fun _ _ _ => rfl) (by decide)⟩
  gets := ⟨_, _, requestOf_hasParams _ _ _ _ _, by decide⟩
  noError := rfl
  carriesState := by
    refine ⟨(signedDeploymentFor state).green.urlEncode state, ?_, ?_⟩
    · rw [postOut, loginPostPage, if_pos hprovider, hstate]
      rfl
    · rw [(signedDeploymentFor state).green.urlDecode_urlEncode]
      rfl
  exchanges := by
    have hmiss : signedGlobals.codesToJwts (CStr.lit "M.R3").val = none := rfl
    have hval : (CStr.ofBytes signedToken).val = signedToken :=
      CStr.ofBytes_val (by decide +kernel)
    have hexchange : ((getTokensFromMicrosoft signedDeployment.json (.ofQuery (codeQuery state))
        signedDeployment.site elsewhereGet.env.exchange (CStr.lit "M.R3")).run
          signedGlobals.codesToJwts).1 = .ret (0, some (CStr.ofBytes signedToken)) := by
      rw [getTokens_run_of_miss hmiss, exchangeReply_signedBody]
    have hverify := verifyJwks_eq_zero_iff.mpr verifiedToken_signedToken
    rw [← hval] at hverify
    obtain ⟨codes, hcodes⟩ := Exec.exists_state hexchange
    obtain ⟨man, hman⟩ := Exec.exists_state hverify
    exact ⟨CStr.lit "M.R3", CStr.ofBytes signedToken, codes, man, rfl, hcodes, hman⟩

/-! ### An address elsewhere -/

theorem verifyableString_elsewhere :
    verifyableString signedDeployment elsewherePost.env elsewhereForm = elsewhereState := by
  have hsend : sendTo elsewhereForm = bytes "https://evil.example/" := by decide
  rw [verifyableString, hsend]
  rfl

/-- The two requests are a login. -/
theorem loginFlow_elsewhere :
    LoginFlow signedDeployment elsewhereForm elsewherePost elsewhereGet signedGlobals signedGlobals
      elsewhereOut :=
  loginFlow_of_form (by decide) verifyableString_elsewhere

/-- The login ends at `https://evil.example/`. -/
theorem loginFlow_redirectsElsewhere :
    LoginFlow signedDeployment elsewhereForm elsewherePost elsewhereGet signedGlobals signedGlobals
        elsewhereOut ∧
      ¬ RedirectsSafely signedDeployment signedGlobals elsewhereGet := by
  refine ⟨loginFlow_elsewhere, ?_⟩
  obtain ⟨out, globals, hserve, hlocations⟩ := loginFlow_elsewhere.redirects
  have hsend : sendTo elsewhereForm = bytes "https://evil.example/" := by decide
  rw [redirectUrl_of_noNul _ _ _ (by rw [hsend]; decide), hsend] at hlocations
  rintro ⟨out', globals', location, hserve', hlocation, hsafe⟩
  obtain ⟨rfl, -⟩ := Prod.mk.inj (Option.some.inj (hserve.symm.trans hserve'))
  rw [← List.head_eq_of_cons_eq (hlocations.symm.trans hlocation)] at hsafe
  exact absurd hsafe.slash (by decide)

theorem loginFlow_redirectsSafely_iff_elsewhere :
    RedirectsSafely signedDeployment signedGlobals elsewhereGet ↔
      SafeSendTo (sendTo elsewhereForm) :=
  loginFlow_redirectsSafely_iff loginFlow_elsewhere

/-! ### A short path -/

/-- A form that asks to return to `/me`. -/
def shortForm (key : Bytes) : Option (Option Bytes) :=
  if key = bytes "provider" then some (some (bytes "microsoft"))
  else if key = bytes "redirect_to" then some (some (bytes "/me"))
  else none

/-- The state that is made of it. -/
def shortState : CStr :=
  openidconnectCreateVerifyableString AppSpecific.sample.oauth2DefaultClientSecret
    (stateSalt (bytes "/") (bytes "20261001T120000Z"))

theorem loginFlow_short :
    LoginFlow (signedDeploymentFor shortState) shortForm (postOf shortForm) (getOf shortState)
      signedGlobals signedGlobals (postOut shortForm shortState) := by
  refine loginFlow_of_form (by decide) ?_
  have hsend : sendTo shortForm = bytes "/" := by decide
  rw [verifyableString, hsend]
  rfl

theorem acceptedReturn_short : AcceptedReturn (bytes "/me") := by
  constructor <;> decide

/-- The login that came from `/me` ends at `/`. -/
theorem loginFlow_losesShortReturn :
    LoginFlow (signedDeploymentFor shortState) shortForm (postOf shortForm) (getOf shortState)
        signedGlobals signedGlobals (postOut shortForm shortState) ∧
      AcceptedReturn (bytes "/me") ∧
      shortForm (bytes "redirect_to") = some (some (bytes "/me")) ∧
      RedirectsTo (signedDeploymentFor shortState) signedGlobals (getOf shortState) (bytes "/") ∧
      ¬ RedirectsTo (signedDeploymentFor shortState) signedGlobals (getOf shortState)
        (bytes "/me") := by
  have hsend : sendTo shortForm = bytes "/" := by decide
  obtain ⟨out, globals, hserve, hlocations⟩ := loginFlow_short.redirects
  rw [redirectUrl_of_noNul _ _ _ (by rw [hsend]; decide), hsend] at hlocations
  refine ⟨loginFlow_short, acceptedReturn_short, rfl, ⟨out, globals, hserve, hlocations⟩, ?_⟩
  rintro ⟨out', globals', hserve', hlocation⟩
  obtain ⟨rfl, -⟩ := Prod.mk.inj (Option.some.inj (hserve.symm.trans hserve'))
  have heq : bytes "/" = bytes "/me" := List.head_eq_of_cons_eq (hlocations.symm.trans hlocation)
  exact absurd heq (by decide)

theorem loginFlow_returns_iff_short :
    RedirectsTo (signedDeploymentFor shortState) signedGlobals (getOf shortState) (bytes "/me") ↔
      bytes "/me" = bytes "/" ∨ 4 < (bytes "/me").length :=
  loginFlow_returns_iff loginFlow_short acceptedReturn_short rfl

end FcgiJwtAuth
