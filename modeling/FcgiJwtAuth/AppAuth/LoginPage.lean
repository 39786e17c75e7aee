import FcgiJwtAuth.AppAuth.Serving
import FcgiJwtAuth.OpenIdConnect
import FcgiJwtAuth.SimpleTemplate

/-!
# The login page

`GET login` shows the login form, with the page to return to; `POST login` sends the user to the
provider, with that page inside of the signed state.
-/

namespace FcgiJwtAuth

open CLang HTTPUtils

variable (D : Deployment) (env : RequestEnv)

/-! ## Sending the user to the provider -/

/-- `formdecoder_getfield` finds the provider `microsoft`. -/
def isMicrosoft (getfield : Bytes → Option (Option Bytes)) : Bool :=
  match getfield (bytes "provider") with
  | some (some provider) => decide (provider = bytes "microsoft")
  | _ => false

/-- The page to return to: a `redirect_to` of more than four bytes, whatever it is. -/
def sendTo (getfield : Bytes → Option (Option Bytes)) : Bytes :=
  match getfield (bytes "redirect_to") with
  | some (some redirectTo) => if 4 < redirectTo.length then redirectTo else bytes "/"
  | _ => bytes "/"

/-- `(send_to + '.' + current_time).c_str()`. -/
def stateSalt (sendTo currentTime : Bytes) : CStr := CStr.ofBytes (sendTo ++ ch '.' :: currentTime)

/-- The state that is sent along. -/
def verifyableString (getfield : Bytes → Option (Option Bytes)) : CStr :=
  openidconnectCreateVerifyableString D.site.oauth2DefaultClientSecret
    (stateSalt (sendTo getfield) (D.green.formatTime env.currentUnixTime))

/-- What stands in front of the state in the address of the provider. -/
def authorizeUri : Bytes :=
  bytes "https://login.microsoftonline.com/common/oauth2/v2.0/authorize?" ++
    bytes "client_id=" ++ D.site.oauth2DefaultClientId.val ++ bytes "&" ++
    bytes "response_type=code&" ++
    bytes "scope=openid%20profile%20email&" ++
    bytes "redirect_uri=" ++ D.site.oauth2DefaultRedirectUri.val ++ bytes "&" ++
    bytes "state="

/-- The address of the provider. -/
def redirectUri (state : Bytes) : Bytes :=
  authorizeUri D ++ state ++ bytes "&prompt=select_account"

/-- The redirection to the provider. -/
def providerPage (redirectUri : Bytes) : Page where
  status := "302"
  fields := [contentType, (bytes "Location", redirectUri)]
  body :=
    lines ["<!DOCTYPE html>", "<html>", "<head></head>", "<body>"] ++
      bytes "<p><a href=\"" ++ redirectUri ++ bytes "\">Authenticate at Microsoft</a></p>\r\n" ++
      bytes "<p>" ++ redirectUri ++ bytes "</p>\r\n" ++
      lines ["</body>", "</html>"]

/-- The answer to a form without the provider. -/
def badRequestPage : Page where
  status := "400 Bad Request"
  fields := [contentType]
  body := lines ["<!DOCTYPE html>", "<html><head></head><body>", "<h1>400 Bad Request</h1>",
    "<p>Well, I don't know what that was supposed to be but I cannot process it.</p>",
    "</body></html>"]

/-- The page that a decoded form is answered with. -/
def loginPostPage (getfield : Bytes → Option (Option Bytes)) : Page :=
  if isMicrosoft getfield then
    providerPage (redirectUri D (D.green.urlEncode (verifyableString D env getfield)))
  else badRequestPage

/-- `process_login_page_post`. -/
def processLoginPagePost (req : Request) : Exec Serving ℤ :=
  match req.form with
  -- neither answers the request
  | .failed => pure 0
  | .null => pure 0
  | .fields getfield => do
    emit (.page (loginPostPage D env getfield))
    emit .finish
    pure 0

/-! ## The login form -/

/-- `return_to`: the text behind `return=`, if it is a path and not an address without scheme. -/
def returnTo (queryString : Option CStr) : Bytes :=
  match queryString with
  | none => bytes "/"
  | some qs =>
    if 8 ≤ qs.val.length ∧ strncmp 7 qs.val (bytes "return=") = 0 ∧
        qs.val.getD 7 0 = ch '/' ∧ ¬ qs.val.getD 8 0 = ch '/' then qs.val.drop 7
    else bytes "/"

/-- The answer to a user whose token is verified. -/
def alreadyAuthenticatedPage (returnTo : Bytes) (res : ℤ) : Page where
  status := "302"
  fields := [(bytes "Location", returnTo), contentType]
  body :=
    lines ["<!DOCTYPE html>", "<html>", "<head>", "<meta charset=\"UTF-8\" />",
      "<meta name=\"viewport\" content=\"width=device-width, initial-scale=1\" />",
      "<meta name=\"color-scheme\" content=\"dark light\" />", "<title>Authorisation</title>",
      "</head>", "<body>"] ++
    bytes "<h1>200 Authorisation (" ++ bytes (toString res) ++ bytes ")</h1>\r\n" ++
    lines ["</body>", "</html>"]

/-- What `application_template_init` sets for both templates. -/
def applicationTemplate (template : Bytes) : TemplateEngine :=
  (((((TemplateEngine.mk template fun _ => none).setVariable
    (bytes "WELCOME_TO_COMPANY_NAME") D.site.welcomeToCompanyName.val).setVariable
    (bytes "APPLICATION_NAME") D.site.applicationName.val).setVariable
    (bytes "PRIVACY_POLICY_URL") D.site.privacyPolicyUrl.val).setVariable
    (bytes "APPLICATION_APPLICATION_LOGO_LIGHT") D.site.applicationLogoLight.val).setVariable
    (bytes "APPLICATION_APPLICATION_LOGO_DARK") D.site.applicationLogoDark.val

/-- `application_login_page_get_content`. -/
def applicationLoginPageGetContent : Bytes := (applicationTemplate D D.loginTemplate).render true

/-- The login form. -/
def loginFormPage (returnTo : Bytes) : Page where
  status := "200"
  fields := [contentType]
  body :=
    -- `final_page.c_str()`
    (CStr.ofBytes (((TemplateEngine.mk (applicationLoginPageGetContent D) fun _ => none).setVariable
      (bytes "REDIRECT_URL") returnTo).render true)).val

/-- `(cookie != NULL || authorisation != NULL) && verify_jwks_authentication(…) == 0`. -/
def alreadyAuthenticated (req : Request) : Exec Serving Bool :=
  if req.cookie.isSome || req.authorization.isSome then do
    let res ← onStoreMan
      (verifyJwksAuthentication D.jwt D.json env.jwks req.cookie req.authorization)
    pure (decide (res = 0))
  else pure false

/-- What is written for a user who is authenticated or not. The redirection does not end it. -/
def answerLoginPage (returnTo : Bytes) (authenticated : Bool) : Exec Serving ℤ := do
  let _ ← (if authenticated then emit (.page (alreadyAuthenticatedPage returnTo 0)) else pure ⟨⟩)
  emit (.page (loginFormPage D returnTo))
  emit .close
  emit .finish
  pure 0

/-- `process_login_page_get`. -/
def processLoginPageGet (req : Request) : Exec Serving ℤ := do
  let authenticated ← alreadyAuthenticated D env req
  answerLoginPage D (returnTo req.queryString) authenticated

end FcgiJwtAuth
