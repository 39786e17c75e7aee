import FcgiJwtAuth.AppAuth.CodeResponse
import FcgiJwtAuth.AppAuth.LoginPage

/-!
# The handlers behind a token

`verify` answers the web server whether a request is authenticated, `direct` makes a cookie of a
token that verifies, `debug` shows the token of the cookie, and `logout` expires every cookie.
-/

namespace FcgiJwtAuth

open CLang HTTPUtils

variable (D : Deployment) (env : RequestEnv)

/-! ## verify -/

/-- The pages of `process_verification_request`, by their status, title and heading. -/
def verificationPage (status title heading : String) : Page where
  status := status
  fields := [contentType]
  body := lines (metaHead ["<!DOCTYPE html>", "<html>", "<head>"]
    ["<title>" ++ title ++ "</title>", "</head>", "<body>", "<h1>" ++ heading ++ "</h1>", "</body>",
      "</html>"])

def authorisedPage : Page := verificationPage "200" "Authorisation" "200 Authorisation (0)"

def unauthorizedPage : Page :=
  verificationPage "401 Unauthorized" "401 Unauthorized" "401 Unauthorized (0)"

def forbiddenPage : Page := verificationPage "403 Forbidden" "403 Forbidden" "401 Forbidden (0)"

/-- The hook of the site takes the user, or there is none. -/
def authorised (req : Request) (userCtx : JwtUserContext) : Bool :=
  match D.authorisationVerification with
  | none => true
  | some hook => decide (hook req userCtx = 0)

/-- The page for the user of the token, if there is one. What its `verified` says is not asked. -/
def verificationAnswer (req : Request) (userCtx : Option JwtUserContext) : Page :=
  match userCtx with
  | none => unauthorizedPage
  | some ctx => if authorised D req ctx then authorisedPage else forbiddenPage

/-- `process_verification_request`. -/
def processVerificationRequest (req : Request) (ctx : RequestContext) : Exec Serving ℤ := do
  let userCtx ← onStoreMan
    (applicationVerifyJwtAuthentication D.jwt D.json env.jwks true ctx.cookies)
  emit (.page (verificationAnswer D req userCtx))
  emit .flush
  emit .close
  emit .finish
  pure 0

/-! ## direct -/

/-- The pages of `process_direct_token_auth_request`, by their status, title and what the body
shows. -/
def directPage (status title : String) (fields : List (Bytes × Bytes)) (content : Bytes) :
    Page where
  status := status
  fields := fields
  body :=
    lines (metaHead ["<!DOCTYPE html>", "<html>", "<head>"]
        ["<title>" ++ title ++ "</title>", "</head>", "<body>"]) ++
      content ++ lines ["</body>", "</html>"]

/-- No token is supplied. -/
def directMissingPage : Page :=
  directPage "401 Unauthorized" "401 Unauthorized" [contentType]
    (lines ["<h1>400 Bad Request</h1>", "<p><code>token</code> MUST be supplied.</p>"])

/-- The token does not verify. -/
def directUnauthorizedPage (res : ℤ) : Page :=
  directPage "401" "401 Unauthorized" [contentType]
    (lines ["<h1>401 Unauthorized</h1>"] ++
      bytes "<p>Could not verify supplied token, rc = " ++ bytes (toString res) ++
      bytes ".</p>\r\n")

/-- The token becomes the cookie. -/
def directAcceptedPage (jwtoken : CStr) (state : Option CStr) : Page :=
  directPage "200" "200 OK" [authCookie jwtoken, contentType]
    (lines ["<h1>200 OK</h1>", "<p>Supplied token verified and accepted.</p>"] ++
      bytes "<p>" ++ (state.getD (CStr.lit "(null?)")).val ++ bytes "</p>\r\n")

/-- The page of `process_direct_token_auth_request`. -/
def directTokenPage (ctx : RequestContext) : Exec Serving Page :=
  match ctx.qs (bytes "token") with
  | none => pure directMissingPage
  | some jwtoken => do
    let res ← onStoreMan (verifyJwksAuthenticationJwt D.jwt D.json env.jwks jwtoken.val)
    pure (if res = 0 then directAcceptedPage jwtoken (ctx.qs (bytes "state"))
      else directUnauthorizedPage res)

/-- `process_direct_token_auth_request`. Its `page` string stays empty, and is written behind the
page. -/
def processDirectTokenAuthRequest (ctx : RequestContext) : Exec Serving ℤ := do
  let page ← directTokenPage D env ctx
  emit (.page page)
  emit (.text [])
  emit .close
  emit .finish
  pure 0

/-! ## debug -/

/-- The token's content. -/
def debugPage (content : Bytes) : Page :=
  directPage "200" "200 OK" [contentType]
    (lines ["<h1>200 OK</h1>", "<p>Contents of Supplied Token:</p>"] ++
      -- `jwt_content.c_str()`
      bytes "<pre>" ++ (CStr.ofBytes content).val ++ bytes "</pre>\r\n")

/-- `process_debug_token_auth_request`. -/
def processDebugTokenAuthRequest (ctx : RequestContext) : Exec Serving ℤ := do
  let content ← cookieContent D (cookieToken ctx.cookies)
  emit (.page (debugPage content))
  emit .close
  emit .finish
  pure 0

/-! ## logout -/

/-- The field that expires a cookie. -/
def expiringCookie (name : CStr) : Bytes × Bytes :=
  (bytes "Set-Cookie", D.green.htmlspecialEncode name ++ bytes "=; Path=/; " ++
    bytes "Max-Age=0; Expires=Thu, 01 Jan 1970 00:00:00 GMT; " ++
    (if strEq name.val (bytes "auth") then bytes "Secure; HttpOnly; SameSite=Lax" else []))

/-- The loop of `process_logout_request` over the cookie array. -/
def expiringCookies (buf : Bytes) : List Cookie → List (Bytes × Bytes)
  | .entry name _ :: cookies =>
    expiringCookie D (CStr.ofBytes (buf.drop name)) :: expiringCookies buf cookies
  | _ => []

/-- The header block of `process_logout_request`. -/
def logoutPage (cookies : Option Cookies) : Page where
  status := "200"
  fields :=
    (match cookies with
      | none => []
      | some c => expiringCookies D c.header c.array) ++
    [(bytes "Cache-Control", bytes "no-cache"), contentType]
  body := []

/-- `application_logout_page_get_content`. -/
def applicationLogoutPageGetContent : Bytes := (applicationTemplate D D.logoutTemplate).render true

/-- The body of `process_logout_request`. -/
def logoutContent : Bytes :=
  ((TemplateEngine.mk (applicationLogoutPageGetContent D) fun _ => none).setVariable
    (bytes "APPLICATION_SERVICEPROVIDER_LOGOUT_URL")
    (bytes ("https://login.microsoftonline.com/common/oauth2/v2.0/logout" ++
      "?post_logout_redirect_uri=" ++
      "https%3A%2F%2Fportal.stockval.co.uk%2Fauth%2Fmicrosoft%2Flogout"))).render true

/-- `process_logout_request`. -/
def processLogoutRequest (ctx : RequestContext) : Exec Serving ℤ := do
  emit (.page (logoutPage D ctx.cookies))
  emit (.text (logoutContent D))
  emit .close
  emit .finish
  pure 0

end FcgiJwtAuth
