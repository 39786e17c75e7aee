import Mathlib.Data.List.GetD
import Mathlib.Data.List.Induction
import FcgiJwtAuth.AppAuth.Serving
import FcgiJwtAuth.OpenIdConnect

/-!
# The answer of the provider

`GET microsoft`: the provider sends the user back with a code and the state. A state that verifies
is cut at its second last dot, the code is exchanged, the token verified, and the user redirected to
what the state held.
-/

namespace FcgiJwtAuth

open CLang HTTPUtils

/-! ## The page inside of a state -/

/-- The loop of `truncate_at_second_last_dot`, down from `p`, with a last dot found or not: the
offset of the second last dot. -/
def secondLastDot (str : Bytes) : ℕ → Bool → Option ℕ
  | 0, _ => none
  | p + 1, lastDot =>
    if str.getD p 0 = ch '.' then
      if lastDot then some p else secondLastDot str p true
    else secondLastDot str p lastDot

/-- `truncate_at_second_last_dot`: what is left in `str`, and the string at the returned pointer. -/
def truncateAtSecondLastDot (str : CStr) : CStr × Option CStr :=
  match secondLastDot str.val str.val.length false with
  | none => (str, none)
  | some p => (CStr.ofBytes (str.val.take p), some (CStr.ofBytes (str.val.drop (p + 1))))

/-- `redirect_url`. -/
def redirectUrl (truncated : CStr × Option CStr) : Bytes :=
  match truncated.2 with
  | none => []
  | some _ => truncated.1.val

/-- The scan looks at nothing behind `p`. -/
theorem secondLastDot_append (pre post : Bytes) {p : ℕ} (hp : p ≤ pre.length) (lastDot : Bool) :
    secondLastDot (pre ++ post) p lastDot = secondLastDot pre p lastDot := by
  induction p generalizing lastDot with
  | zero => rfl
  | succ p ih =>
    have hp' : p ≤ pre.length := by omega
    have hget : (pre ++ post).getD p 0 = pre.getD p 0 := List.getD_append _ _ _ _ (by omega)
    rw [secondLastDot, secondLastDot, hget, ih hp', ih hp']

/-- The last character of a string. -/
theorem secondLastDot_concat (str : Bytes) (b : Byte) (lastDot : Bool) :
    secondLastDot (str ++ [b]) (str ++ [b]).length lastDot =
      if b = ch '.' then
        if lastDot then some str.length else secondLastDot str str.length true
      else secondLastDot str str.length lastDot := by
  have hget : (str ++ [b]).getD str.length 0 = b := by
    rw [List.getD_append_right _ _ _ _ (le_refl _), Nat.sub_self]
    rfl
  rw [List.length_append, List.length_singleton, secondLastDot, hget,
    secondLastDot_append _ _ (le_refl _), secondLastDot_append _ _ (le_refl _)]

/-- A part without a dot is passed over. -/
theorem secondLastDot_noDot {suffix : Bytes} (h : ch '.' ∉ suffix) (str : Bytes) (lastDot : Bool) :
    secondLastDot (str ++ suffix) (str ++ suffix).length lastDot =
      secondLastDot str str.length lastDot := by
  induction suffix using List.reverseRecOn with
  | nil => rw [List.append_nil]
  | append_singleton rest b ih =>
    have hrest : ch '.' ∉ rest := fun hmem => h (List.mem_append_left _ hmem)
    have hb : b ≠ ch '.' := fun heq => h (by simp [heq])
    rw [← List.append_assoc, secondLastDot_concat, if_neg hb, ih hrest]

/-- **A string with two dots or more** is cut at the second last one, and the pointer stands behind
it. -/
theorem truncateAtSecondLastDot_eq_of_dots {str : CStr} {a b c : Bytes}
    (hstr : str.val = a ++ ch '.' :: (b ++ ch '.' :: c)) (hb : ch '.' ∉ b) (hc : ch '.' ∉ c) :
    truncateAtSecondLastDot str =
      (CStr.ofBytes a, some (CStr.ofBytes (b ++ ch '.' :: c))) := by
  have hsplit : str.val = a ++ [ch '.'] ++ b ++ [ch '.'] ++ c := by simp [hstr]
  have hdot : secondLastDot str.val str.val.length false = some a.length := by
    rw [hsplit, secondLastDot_noDot hc, secondLastDot_concat, if_pos rfl, if_neg (by simp),
      secondLastDot_noDot hb, secondLastDot_concat, if_pos rfl, if_pos rfl]
  have htake : str.val.take a.length = a := by rw [hstr, List.take_left]
  have hdrop : str.val.drop (a.length + 1) = b ++ ch '.' :: c := by
    rw [hstr, ← List.drop_drop, List.drop_left, List.drop_one, List.tail_cons]
  unfold truncateAtSecondLastDot
  rw [hdot]
  simp only [htake, hdrop]

/-- What is left in front of the cut, and what the handler redirects to. -/
theorem truncateAtSecondLastDot_of_dots {str : CStr} {a b c : Bytes}
    (hstr : str.val = a ++ ch '.' :: (b ++ ch '.' :: c)) (hb : ch '.' ∉ b) (hc : ch '.' ∉ c) :
    (truncateAtSecondLastDot str).1.val = a ∧ redirectUrl (truncateAtSecondLastDot str) = a := by
  have hnul : (0 : Byte) ∉ a := fun h => str.noNul (hstr ▸ List.mem_append_left _ h)
  have ha : (CStr.ofBytes a).val = a := CStr.ofBytes_val hnul
  rw [truncateAtSecondLastDot_eq_of_dots hstr hb hc]
  exact ⟨ha, ha⟩

/-- With only one dot there is nowhere to cut. -/
theorem truncateAtSecondLastDot_of_dot {str : CStr} {a b : Bytes}
    (hstr : str.val = a ++ ch '.' :: b) (ha : ch '.' ∉ a) (hb : ch '.' ∉ b) :
    truncateAtSecondLastDot str = (str, none) := by
  have hsplit : str.val = [] ++ a ++ [ch '.'] ++ b := by simp [hstr]
  have hnone : secondLastDot str.val str.val.length false = none := by
    rw [hsplit, secondLastDot_noDot hb, secondLastDot_concat, if_pos rfl, if_neg (by simp),
      secondLastDot_noDot ha]
    rfl
  rw [truncateAtSecondLastDot, hnone]

/-- **With fewer than two dots** the string stays as it is. -/
theorem truncateAtSecondLastDot_of_count {str : CStr} (h : str.val.count (ch '.') < 2) :
    truncateAtSecondLastDot str = (str, none) := by
  by_cases hdot : ch '.' ∈ str.val
  · obtain ⟨a, b, hsplit, hb⟩ := exists_last_split hdot
    have hcount : a.count (ch '.') + 1 < 2 := by
      have hzero : b.count (ch '.') = 0 := List.count_eq_zero.mpr hb
      rw [hsplit, List.count_append, List.count_cons_self, hzero] at h
      exact h
    have ha : ch '.' ∉ a := List.count_eq_zero.mp (by omega)
    exact truncateAtSecondLastDot_of_dot hsplit ha hb
  · have hnone : secondLastDot str.val str.val.length false = none :=
      secondLastDot_noDot hdot [] false
    rw [truncateAtSecondLastDot, hnone]

variable (D : Deployment) (env : RequestEnv)

/-! ## The pages -/

/-- The content of the token, for a page that shows it. -/
def jwtContent (userCtx : Option JwtUserContext) : Bytes :=
  match userCtx with
  | none => []
  | some ctx =>
    (CStr.ofBytes ctx.headerJsonStr).val ++ bytes "\r\n" ++
      (CStr.ofBytes ctx.payloadJsonStrPretty).val ++ bytes "\r\n"

/-- The content of the `auth` cookie. -/
def cookieContent (jwtoken : Bytes) : Exec Serving Bytes :=
  if jwtoken = [] then pure (bytes "NO CONTENT: ERROR\r\n")
  else do
    let userCtx ← jwtinterfaceGetUserContext D.jwt D.json jwtoken
    pure (jwtContent userCtx)

/-- `<head>` and `</head>`, with what most pages have there. -/
def metaHead (opening closing : List String) : List String :=
  opening ++ ["<meta charset=\"UTF-8\" />",
    "<meta name=\"viewport\" content=\"width=device-width, initial-scale=1\" />",
    "<meta name=\"color-scheme\" content=\"dark light\" />"] ++ closing

/-- The provider reports an error. -/
def providerErrorPage (error : CStr) (description : Option CStr) : Page where
  status := "200"
  fields := [contentType]
  body :=
    lines (metaHead ["<!DOCTYPE html>", "<html><head>"]
        ["<style>", "*, body \x7b font-family: sans-serif; \x7d", "</style>", "</head>", "<body>",
          "<h1>Error Returned by Microsoft</h1>"]) ++
      bytes "<p>Error Code: <code>" ++ error.val ++ bytes "</code></p>\r\n" ++
      (match description with
        | none => []
        | some text => bytes "<h2>Further Detail of this Error</h2><p>" ++
            D.green.htmlspecialEncode text ++ bytes "</p>\r\n") ++
      lines ["<p><a href=\"/\">Click here to try again.</a></p>", "</body>", "</html>"]

/-- The code or the state is missing. -/
def missingArgumentPage (jwtoken content : Bytes) : Page where
  status := "400"
  fields := [contentType]
  body :=
    lines (metaHead ["<!DOCTYPE html>", "<html><head>"]
        ["</head><body>", "<h1>400 Bad Request</h1>",
          "<p>Seems that no <code>code</code> or <code>state</code> argument were " ++
            "supplied.</p>"]) ++
      (if jwtoken = [] then []
        else
          bytes "<p>Generally this is not a page that the developer expects you to see, sorry " ++
          bytes "for that. Since you have a token you should go " ++
          bytes "<a href=\"/\">back home</a> and, " ++
          lines ["if possible, please report this to the developer.</p>"]) ++
      bytes "<pre>" ++ D.green.htmlspecialEncode (CStr.ofBytes content) ++
      lines ["</pre>", "</body></html>"]

/-- The state does not verify. -/
def notVerifyablePage : Page where
  status := "400"
  fields := [contentType]
  body := lines ["<!DOCTYPE html>", "<html><head></head><body>", "<h1>400 Error</h1>",
    "<p>Seems that the verifyable string was not verifyable, sorry.</p>", "</body></html>"]

/-- The exchange fails. -/
def retrievalFailedPage : Page where
  status := "500"
  fields := [contentType]
  body := lines (metaHead ["<!DOCTYPE html>", "<html><head>"]
    ["</head><body>", "<h1>500 Error</h1>", "<p>Token retrieval failed.</p>", "</body></html>"])

/-- The exchange succeeds without a token. -/
def nullTokenPage : Page where
  status := "500"
  fields := [contentType]
  body := lines ["<!DOCTYPE html>", "<html><head></head><body>", "<h1>500 Error</h1>",
    "<p>Token was null.</p>", "</body></html>"]

/-- The token does not verify. -/
def codeUnauthorizedPage : Page where
  status := "401"
  fields := [contentType]
  body := lines (metaHead ["<!DOCTYPE html>", "<html><head>"]
    ["</head><body>", "<h1>401 Unauthorized</h1>",
      "<p>verify_jwks_authentication_jwt() failed.</p>", "</body></html>"])

/-- `auth=…`, as the value of a `Set-Cookie` field. -/
def authCookie (jwtoken : CStr) : Bytes × Bytes :=
  (bytes "Set-Cookie", bytes "auth=" ++ jwtoken.val ++
    bytes "; Path=/; Secure; HttpOnly; SameSite=Lax")

/-- The user is authenticated. -/
def authenticatedPage (jwtoken : CStr) (redirectUrl : Bytes) (state : CStr) : Page where
  status := "302"
  fields := [authCookie jwtoken, contentType, (bytes "Location", redirectUrl)]
  body :=
    lines (metaHead ["<!DOCTYPE html>", "<html>", "<head>"]
        ["</head>", "<body>", "<h1>Authenticated</h1>"]) ++
      bytes "<p>If you are not redirected automatically please <a href=\"" ++ redirectUrl ++
      bytes "\">click here (" ++ redirectUrl ++ bytes ")</a>.</p>\r\n" ++
      lines ["<p>Token Details Here</p>"] ++
      bytes "<p><a href=\"direct?token=" ++ jwtoken.val ++ bytes "&state=" ++ state.val ++
      bytes "\">Click here</a> to set the token as the <code>auth</code> cookie and " ++
      bytes "continue...</p>\r\n" ++
      lines ["</body>", "</html>"]

/-! ## The handler -/

/-- The token is verified. -/
def verifiedTokenPage (truncated : CStr × Option CStr) (jwtoken : CStr) : Exec Serving Page := do
  let res ← onStoreMan (verifyJwksAuthenticationJwt D.jwt D.json env.jwks jwtoken.val)
  pure (if res = 0 then authenticatedPage jwtoken (redirectUrl truncated) truncated.1
    else codeUnauthorizedPage)

/-- The part behind the exchange. -/
def tokensPage (truncated : CStr × Option CStr) (tokens : ℤ × Option CStr) : Exec Serving Page :=
  if tokens.1 = 0 then
    match tokens.2 with
    | none => pure nullTokenPage
    | some jwtoken => verifiedTokenPage D env truncated jwtoken
  else pure retrievalFailedPage

/-- The part behind the state: the code is exchanged. -/
def exchangedCodePage (code : CStr) (truncated : CStr × Option CStr) : Exec Serving Page := do
  let tokens ← onCodes (getTokensFromMicrosoft D.json D.green D.site env.exchange code)
  tokensPage D env truncated tokens

/-- The page of `process_code_response`. -/
def codeResponsePage (ctx : RequestContext) (jwtoken content : Bytes) : Exec Serving Page :=
  match ctx.qs (bytes "error") with
  | some error => pure (providerErrorPage D error (ctx.qs (bytes "error_description")))
  | none =>
    match ctx.qs (bytes "code"), ctx.qs (bytes "state") with
    | some code, some state =>
      if openidconnectVerifyString D.site.oauth2DefaultClientSecret state = 0 then
        exchangedCodePage D env code (truncateAtSecondLastDot state)
      else pure notVerifyablePage
    | _, _ => pure (missingArgumentPage D jwtoken content)

/-- `process_code_response`. -/
def processCodeResponse (ctx : RequestContext) : Exec Serving ℤ := do
  let jwtoken := cookieToken ctx.cookies
  let content ← cookieContent D jwtoken
  let page ← codeResponsePage D env ctx jwtoken content
  emit (.page page)
  emit .flush
  emit .close
  emit .finish
  pure 0

/-! ## What the handler does -/

section Run

variable {D env}

/-- Reading the content of a cookie always returns, and changes nothing. -/
theorem cookieContent_run (jwtoken : Bytes) (s : Serving) :
    ∃ content, (cookieContent D jwtoken).run s = (.ret content, s) := by
  unfold cookieContent
  by_cases hempty : jwtoken = []
  · rw [if_pos hempty]
    exact ⟨_, rfl⟩
  · rw [if_neg hempty, Exec.bind_ret (jwtinterfaceGetUserContext_run D.jwt D.json jwtoken s)]
    exact ⟨_, rfl⟩

/-- A code and a state that verifies lead to the exchange. -/
theorem codeResponsePage_of_state {ctx : RequestContext} {code state : CStr}
    (jwtoken content : Bytes) (herror : ctx.qs (bytes "error") = none)
    (hcode : ctx.qs (bytes "code") = some code) (hstate : ctx.qs (bytes "state") = some state)
    (hmac : openidconnectVerifyString D.site.oauth2DefaultClientSecret state = 0) :
    codeResponsePage D env ctx jwtoken content =
      exchangedCodePage D env code (truncateAtSecondLastDot state) := by
  simp only [codeResponsePage, herror, hcode, hstate, if_pos hmac]

/-- The page behind an exchange and a verification that succeed. -/
theorem exchangedCodePage_of_success {code jwtoken : CStr} {truncated : CStr × Option CStr}
    {globals : Globals} {codes' : Codes} {man' : Manager}
    (hexchange : (getTokensFromMicrosoft D.json D.green D.site env.exchange code).run
      globals.codesToJwts = (.ret (0, some jwtoken), codes'))
    (hverify : (verifyJwksAuthenticationJwt D.jwt D.json env.jwks jwtoken.val).run
      globals.storeMan = (.ret 0, man')) :
    (exchangedCodePage D env code truncated).run { globals := globals } =
      (.ret (authenticatedPage jwtoken (redirectUrl truncated) truncated.1),
        { globals := ⟨man', codes'⟩ }) := by
  have hcodes : (onCodes (getTokensFromMicrosoft D.json D.green D.site env.exchange code)).run
      { globals := globals } =
        (.ret (0, some jwtoken), { globals := { globals with codesToJwts := codes' } }) := by
    rw [onCodes, Exec.run_on, hexchange]
  have hman : (onStoreMan (verifyJwksAuthenticationJwt D.jwt D.json env.jwks jwtoken.val)).run
      { globals := { globals with codesToJwts := codes' } } =
        (.ret 0, { globals := ⟨man', codes'⟩ }) := by
    rw [onStoreMan, Exec.run_on, hverify]
  unfold exchangedCodePage
  rw [Exec.bind_ret hcodes]
  simp only [tokensPage, if_pos]
  rw [verifiedTokenPage, Exec.bind_ret hman, if_pos rfl]
  rfl

/-- The output behind the page. -/
theorem processCodeResponse_run {ctx : RequestContext} {globals globals' : Globals} {page : Page}
    (hpage : ∀ content, (codeResponsePage D env ctx (cookieToken ctx.cookies) content).run
      { globals := globals } = (.ret page, { globals := globals' })) :
    (processCodeResponse D env ctx).run { globals := globals } =
      (.ret 0, { globals := globals', out := [.page page, .flush, .close, .finish] }) := by
  obtain ⟨content, hcontent⟩ := cookieContent_run (D := D) (cookieToken ctx.cookies)
    { globals := globals }
  unfold processCodeResponse
  rw [Exec.bind_ret hcontent, Exec.bind_ret (hpage content)]
  rfl

end Run

end FcgiJwtAuth
