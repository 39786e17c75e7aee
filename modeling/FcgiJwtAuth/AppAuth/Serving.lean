import FcgiJwtAuth.Application.Verify
import FcgiJwtAuth.AppAuth.TokenExchange

/-!
# Requests and responses

What a handler of `appauth.cpp` reads and writes. The calls on `req->out` are recorded in order; a
page is a header block that the code writes, with the body behind it. The key store and the code
cache live on between requests.
-/

namespace FcgiJwtAuth

open CLang HTTPUtils

/-! ## Output -/

/-- Lines, each with its line break. -/
def lines (texts : List String) : Bytes := texts.flatMap fun text => bytes text ++ bytes "\r\n"

/-- A CGI response: the header block and the body. -/
structure Page where
  status : String
  fields : List (Bytes × Bytes)
  body : Bytes

/-- One line of a header block. -/
def fieldLine (field : Bytes × Bytes) : Bytes :=
  field.1 ++ bytes ": " ++ field.2 ++ bytes "\r\n"

/-- The page as it is written. -/
def Page.bytes (p : Page) : Bytes :=
  CLang.bytes "Status: " ++ CLang.bytes p.status ++ CLang.bytes "\r\n" ++
    p.fields.flatMap fieldLine ++ CLang.bytes "\r\n" ++ p.body

/-- `Content-Type: text/html; charset=utf-8`. -/
def contentType : Bytes × Bytes := (bytes "Content-Type", bytes "text/html; charset=utf-8")

/-- A call on `req->out`, or on the request. -/
inductive Event
  /-- A write that begins with a header block. -/
  | page (p : Page)
  /-- A write without one. -/
  | text (b : Bytes)
  /-- `FCGX_FFlush`. -/
  | flush
  /-- `FCGX_FClose`. -/
  | close
  /-- `FCGX_Finish_r`. -/
  | finish

/-- The header block that an event writes. -/
def Event.page? : Event → Option Page
  | .page p => some p
  | _ => none

/-- The bytes of a call. -/
def Event.written : Event → Bytes
  | .page p => p.bytes
  | .text b => b
  | _ => []

/-- The bytes that the web server is sent. -/
def written (out : List Event) : Bytes := out.flatMap Event.written

/-! ## Input -/

/-- How `formdecoder_decodefcgirequest` goes. -/
inductive FormDecoding
  /-- It fails. -/
  | failed
  /-- It leaves a null pointer. -/
  | null
  /-- A context, as what `formdecoder_getfield` answers: nothing for an unknown key, and a pointer
  that may be null for a known one. -/
  | fields (getfield : Bytes → Option (Option Bytes))

/-- A request: the parameters that are read, and the body. A parameter that is not set is a null
pointer. -/
structure Request where
  requestMethod : Option CStr
  requestUri : Option CStr
  scriptName : Option CStr
  pathInfo : Option CStr
  documentRoot : Option CStr
  queryString : Option CStr
  cookie : Option CStr
  authorization : Option CStr
  form : FormDecoding

/-- The token of the `auth` cookie. -/
def Request.cookieToken (req : Request) : Bytes := FcgiJwtAuth.cookieToken (parseCookies req.cookie)

/-- The part of `HTTPUtils::RequestContext` that the handlers read. -/
structure RequestContext where
  requestMethod : Bytes
  pathInfo : Bytes
  cookies : Option Cookies
  /-- `querystring_getbykey`. -/
  qs : Bytes → Option CStr

/-- What else a request meets: the surroundings of a verification and of an exchange, and the
time. -/
structure RequestEnv where
  jwks : JwksEnv
  exchange : ExchangeEnv
  /-- `timefn_getcurrentunixtime`. -/
  currentUnixTime : ℤ

/-- What the program is built with and started on. -/
structure Deployment where
  jwt : JwtCpp
  json : Picojson
  green : Libgreen
  site : AppSpecific
  /-- `htdocs/login_template.html`. -/
  loginTemplate : Bytes
  /-- `htdocs/logout_template.html`. -/
  logoutTemplate : Bytes
  /-- `appspecific_authorisation_verification`, if `APPLICATION_AUTHORISATION_VERIFICATION` is
  defined. It answers a number and writes nothing. -/
  authorisationVerification : Option (Request → JwtUserContext → ℤ)

/-! ## State -/

/-- `g_store_man` and `g_codes_to_jwts`. -/
structure Globals where
  storeMan : Manager
  codesToJwts : Codes

/-- A request being served. -/
structure Serving where
  globals : Globals
  out : List Event := []

/-- A write, or another call on the output. -/
def emit (e : Event) : Exec Serving PUnit :=
  Exec.modify fun s => { s with out := s.out ++ [e] }

/-- A call on the key store. -/
def onStoreMan {α : Type} (m : Exec Manager α) : Exec Serving α :=
  m.on (fun s => s.globals.storeMan)
    fun man s => { s with globals := { s.globals with storeMan := man } }

theorem returns_onStoreMan_iff {α : Type} {m : Exec Manager α} {s : Serving} :
    (onStoreMan m).Returns s ↔ m.Returns s.globals.storeMan := Exec.returns_on_iff

/-- A call on the code cache. -/
def onCodes {α : Type} (m : Exec Codes α) : Exec Serving α :=
  m.on (fun s => s.globals.codesToJwts)
    fun codes s => { s with globals := { s.globals with codesToJwts := codes } }

/-! ## The request context -/

/-- The context of a request. -/
def requestContext (G : Libgreen) (req : Request) (method path : CStr) : RequestContext where
  requestMethod := method.val
  pathInfo := path.val
  cookies := parseCookies req.cookie
  qs := G.queryGet req.queryString

/-- `fcgx_prepare_request_context`: a `std::string` is assigned from five of the parameters. -/
def fcgxPrepareRequestContext (G : Libgreen) (req : Request) : Exec Serving RequestContext :=
  match req.requestMethod, req.requestUri, req.scriptName, req.pathInfo, req.documentRoot with
  | some method, some _, some _, some path, some _ => pure (requestContext G req method path)
  | _, _, _, _, _ => Exec.undefined

/-- The parameters that the context is made of are set. -/
def Request.HasParams (req : Request) (method path : CStr) : Prop :=
  req.requestMethod = some method ∧ req.pathInfo = some path ∧ req.requestUri.isSome ∧
    req.scriptName.isSome ∧ req.documentRoot.isSome

theorem fcgxPrepareRequestContext_of_hasParams {req : Request} {method path : CStr} (G : Libgreen)
    (h : req.HasParams method path) (s : Serving) :
    (fcgxPrepareRequestContext G req).run s = (.ret (requestContext G req method path), s) := by
  obtain ⟨hmethod, hpath, huri, hscript, hroot⟩ := h
  obtain ⟨uri, huri⟩ := Option.isSome_iff_exists.mp huri
  obtain ⟨script, hscript⟩ := Option.isSome_iff_exists.mp hscript
  obtain ⟨root, hroot⟩ := Option.isSome_iff_exists.mp hroot
  simp [fcgxPrepareRequestContext, hmethod, hpath, huri, hscript, hroot]

/-- Without them there is none. -/
theorem hasParams_of_returns {req : Request} {G : Libgreen} {s : Serving}
    (h : (fcgxPrepareRequestContext G req).Returns s) :
    ∃ method path, req.HasParams method path := by
  obtain ⟨ctx, hctx⟩ := h
  unfold fcgxPrepareRequestContext at hctx
  split at hctx
  · rename_i method uri script path root hmethod huri hscript hpath hroot
    exact ⟨method, path, hmethod, hpath, by simp [huri], by simp [hscript], by simp [hroot]⟩
  · cases hctx

end FcgiJwtAuth
