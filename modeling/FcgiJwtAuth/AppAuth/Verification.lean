import FcgiJwtAuth.AppAuth.Dispatch
import FcgiJwtAuth.Application.VerifyOutcome

/-!
# What a 200 of `verify` means

The handler asks whether there is a user context, and the context is there whenever the payload of
the cookie's token names a user; the result of the verification is only stored in it. So a request
is answered 200 without a verified token exactly when its token names a user and is not accepted by
the key of its kid.
-/

namespace FcgiJwtAuth

open CLang HTTPUtils

variable (D : Deployment)

/-! ## The verification of a request -/

/-- A request that the handler of `verify` answers. -/
def IsVerification (req : Request) : Prop :=
  ∃ method path, req.requestMethod = some method ∧ req.pathInfo = some path ∧
    route method.val path.val = .verify

/-- A page of status 200 is written. -/
def Answers200 (out : List Event) : Prop := ∃ p, Event.page p ∈ out ∧ p.status = "200"

/-- `verify` answers 200 only if `verify_jwks_authentication_jwt` returned 0 for the token. -/
def AnswersVerified (_ : List ServedStep) (st : ServedStep) : Prop :=
  IsVerification st.input.req → Answers200 st.output →
    ((verifyJwksAuthenticationJwt D.jwt D.json st.input.env.jwks st.input.req.cookieToken).run
      st.pre.storeMan).1 = .ret 0

/-- If the token decodes and names a user, then the key that its kid resolves to accepts it. -/
def AcceptedIfNamed (J : JwtCpp) (P : Picojson) (env : JwksEnv) (man : Manager)
    (jwtStr : Bytes) : Prop :=
  ∀ jwt kid, J.decode jwtStr = .ok jwt → jwt.header.find (bytes "kid") = some (.string kid) →
    NamesUser jwtStr jwt → KeyAccepts J P env man jwt kid

/-- A request for `verify` that carries a token with a user in it carries an accepted one. -/
def CarriesAccepted (_ : List ServedStep) (st : ServedStep) : Prop :=
  IsVerification st.input.req →
    AcceptedIfNamed D.jwt D.json st.input.env.jwks st.pre.storeMan st.input.req.cookieToken

/-! ## The handler -/

section Handler

variable {J : JwtCpp} {P : Picojson} {env : JwksEnv} {man man' : Manager} {jwtStr : Bytes}

/-- The context is the token's, whatever the verification returned. -/
theorem applicationVerifyToken_run {code : ℤ}
    (h : (verifyJwksAuthenticationJwt J P env jwtStr).run man = (.ret code, man')) :
    (applicationVerifyToken J P env true jwtStr).run man =
      (.ret ((tokenUser J P jwtStr).map fun ctx => { ctx with verified := code }), man') := by
  unfold applicationVerifyToken
  rw [if_pos rfl, Exec.bind_ret h, Exec.bind_ret (jwtinterfaceGetUserContext_run J P jwtStr man')]
  rfl

theorem applicationVerifyToken_returns_iff :
    (applicationVerifyToken J P env true jwtStr).Returns man ↔
      (verifyJwksAuthenticationJwt J P env jwtStr).Returns man := by
  constructor
  · intro h
    obtain ⟨code, man', hrun, -⟩ := Exec.returns_bind_iff.mp h
    exact Exec.returns_of_run hrun
  · intro h
    obtain ⟨code, man', hrun⟩ := h.exists_run
    exact Exec.returns_of_run (applicationVerifyToken_run hrun)

/-- Of a readable token that names a user, the code is 0 exactly when its key accepts it. -/
theorem verifiedToken_iff_acceptedIfNamed (hread : ReadableToken J P env man jwtStr)
    (huser : (tokenUser J P jwtStr).isSome) :
    VerifiedToken J P env man jwtStr ↔ AcceptedIfNamed J P env man jwtStr := by
  obtain ⟨hne, jwt, hdecode, hident⟩ := (tokenUser_isSome J P jwtStr).mp huser
  constructor
  · rintro ⟨jwt₁, kid₁, hdecode₁, -, hkid₁, hacc, -, -⟩ jwt₂ kid₂ hdecode₂ hkid₂ -
    obtain rfl : jwt₁ = jwt₂ := Except.ok.inj (hdecode₁.symm.trans hdecode₂)
    obtain rfl : kid₁ = kid₂ := Json.string.inj (Option.some.inj (hkid₁.symm.trans hkid₂))
    exact hacc
  · intro hnamed
    obtain ⟨hw, hkids⟩ := hread jwt hdecode
    obtain ⟨kid, hkid, -⟩ := hw.exists_kid J
    have hname : NamesUser jwtStr jwt := ⟨hne, hident⟩
    have hacc := hnamed jwt kid hdecode hkid hname
    exact ⟨jwt, kid, hdecode, hw, hkid, hacc, hname, (hkids kid hkid).2 hacc hname⟩

/-- A token without a user is vacuously accepted. -/
theorem acceptedIfNamed_of_none (hnone : tokenUser J P jwtStr = none) :
    AcceptedIfNamed J P env man jwtStr := by
  intro jwt kid hdecode _ hname
  have hsome := (tokenUser_isSome_of_decode J P hdecode).mpr hname
  rw [hnone] at hsome
  cases hsome

end Handler

/-- The output of the handler, for the code that the verification returned. -/
def verificationOutput (req : Request) (code : ℤ) : List Event :=
  [.page (verificationAnswer D req
      ((tokenUser D.jwt D.json req.cookieToken).map fun ctx => { ctx with verified := code })),
    .flush, .close, .finish]

section Serve

variable {D} {globals globals' : Globals}

/-- The handler behind a verification that returns. -/
theorem processVerificationRequest_run {env : RequestEnv} {req : Request} {ctx : RequestContext}
    (hctx : ctx.cookies = parseCookies req.cookie) {code : ℤ} {man' : Manager}
    (h : (verifyJwksAuthenticationJwt D.jwt D.json env.jwks req.cookieToken).run
      globals.storeMan = (.ret code, man')) :
    (processVerificationRequest D env req ctx).run { globals := globals } =
      (.ret 0, { globals := { globals with storeMan := man' }
                 out := verificationOutput D req code }) := by
  have hverify : (onStoreMan (applicationVerifyJwtAuthentication D.jwt D.json env.jwks true
      ctx.cookies)).run { globals := globals } =
        (.ret ((tokenUser D.jwt D.json req.cookieToken).map fun user =>
          { user with verified := code }), { globals := { globals with storeMan := man' } }) := by
    rw [applicationVerifyJwtAuthentication, hctx, onStoreMan, Exec.run_on]
    rw [Request.cookieToken] at h
    rw [applicationVerifyToken_run h]
    rfl
  unfold processVerificationRequest
  rw [Exec.bind_ret hverify]
  rfl

/-- It returns only behind a verification that does. -/
theorem processVerificationRequest_returns {env : RequestEnv} {req : Request}
    {ctx : RequestContext} (hctx : ctx.cookies = parseCookies req.cookie)
    (h : (processVerificationRequest D env req ctx).Returns { globals := globals }) :
    (verifyJwksAuthenticationJwt D.jwt D.json env.jwks req.cookieToken).Returns
      globals.storeMan := by
  obtain ⟨userCtx, s', huser, -⟩ := Exec.returns_bind_iff.mp h
  have hreturns := Exec.returns_of_run huser
  rw [onStoreMan, Exec.returns_on_iff, applicationVerifyJwtAuthentication, hctx] at hreturns
  exact applicationVerifyToken_returns_iff.mp hreturns

/-- A step of `verify`: the verification returned, and the page was written. -/
theorem serveStep_of_isVerification {served : Served} {out : List Event}
    (hverify : IsVerification served.req)
    (h : serveStep D globals served = some (out, globals')) :
    ∃ code man', (verifyJwksAuthenticationJwt D.jwt D.json served.env.jwks
        served.req.cookieToken).run globals.storeMan = (.ret code, man') ∧
      out = verificationOutput D served.req code := by
  obtain ⟨method, path, hmethod, hpath, hroute⟩ := hverify
  unfold serveStep at h
  split at h
  · rename_i a s hrun
    obtain ⟨rfl, -⟩ := Prod.mk.inj (Option.some.inj h)
    obtain ⟨method', path', hmethod', hpath', hcases⟩ :=
      params_of_returns (Exec.returns_of_run hrun)
    obtain rfl := Option.some.inj (hmethod.symm.trans hmethod')
    obtain rfl := Option.some.inj (hpath.symm.trans hpath')
    rcases hcases with ⟨hget, hlogin⟩ | ⟨hnot, hparams⟩
    · rw [hget, hlogin] at hroute
      exact absurd hroute (by decide)
    · rw [appauthProcessRequest_of_route hparams hnot, hroute, handle] at hrun
      obtain ⟨code, man', hcode⟩ :=
        (processVerificationRequest_returns rfl (Exec.returns_of_run hrun)).exists_run
      rw [processVerificationRequest_run rfl hcode] at hrun
      refine ⟨code, man', hcode, ?_⟩
      rw [← (Prod.mk.inj hrun).2]
  · cases h

/-- A user in the token is a 200, if the site has no hook or its hook takes the user. -/
theorem answers200_verificationOutput_iff (hhook : ∀ req ctx, authorised D req ctx = true)
    (req : Request) (code : ℤ) :
    Answers200 (verificationOutput D req code) ↔
      (tokenUser D.jwt D.json req.cookieToken).isSome := by
  have hpage : Answers200 (verificationOutput D req code) ↔
      (verificationAnswer D req ((tokenUser D.jwt D.json req.cookieToken).map fun ctx =>
        { ctx with verified := code })).status = "200" := by
    simp [Answers200, verificationOutput]
  rw [hpage]
  cases tokenUser D.jwt D.json req.cookieToken with
  | none => simp [verificationAnswer, unauthorizedPage, verificationPage]
  | some ctx => simp [verificationAnswer, hhook, authorisedPage, verificationPage]

/-- For one request: it is answered soundly exactly when a user comes with an accepted token. -/
theorem answersVerified_iff_carriesAccepted (hhook : ∀ req ctx, authorised D req ctx = true)
    {earlier : List ServedStep} {served : Served} {out : List Event}
    (h : serveStep D globals served = some (out, globals')) :
    AnswersVerified D earlier ⟨globals, served, out, globals'⟩ ↔
      CarriesAccepted D earlier ⟨globals, served, out, globals'⟩ := by
  unfold AnswersVerified CarriesAccepted
  refine imp_congr_right fun (hverify : IsVerification served.req) => ?_
  obtain ⟨code, man', hcode, rfl⟩ := serveStep_of_isVerification hverify h
  have hread := readableToken_of_returns (Exec.returns_of_run hcode)
  simp only [answers200_verificationOutput_iff hhook, verifyJwks_eq_zero_iff]
  cases huser : tokenUser D.jwt D.json served.req.cookieToken with
  | none =>
    refine iff_of_true (fun hsome => ?_) (acceptedIfNamed_of_none huser)
    cases hsome
  | some ctx =>
    have hiff := verifiedToken_iff_acceptedIfNamed hread (Option.isSome_of_mem huser)
    exact ⟨fun himp => hiff.mp (himp rfl), fun hacc _ => hiff.mpr hacc⟩

end Serve

/-- **`verify` answers 200 to verified tokens alone, exactly in the runs where every token that
names a user is accepted by its key.** -/
theorem answersVerified_run_iff (hhook : ∀ req ctx, authorised D req ctx = true)
    {globals₀ globals : Globals} {h : List ServedStep}
    (hrun : Run (serveStep D) globals₀ h globals) :
    Everywhere (AnswersVerified D) h ↔ Everywhere (CarriesAccepted D) h := by
  apply Run.everywhere_congr_step _ hrun
  intro earlier globals served out globals' htake
  exact answersVerified_iff_carriesAccepted hhook htake

/-! ## A forged token -/

/-- A token that nobody signed, with the header `{"alg":"RS256","kid":"k1","typ":"JWT"}`. -/
def forgedToken : Bytes :=
  bytes ("eyJhbGciOiJSUzI1NiIsImtpZCI6ImsxIiwidHlwIjoiSldUIn0." ++
    "eyJpc3MiOiJ4IiwiZW1haWwiOiJldmVAZXhhbXBsZS5jb20iLCJuYW1lIjoiRXZlIn0.Zm9yZ2Vk")

/-- What it decodes to. -/
def forgedJwt : DecodedJwt where
  token := forgedToken
  header := [(bytes "alg", .string (bytes "RS256")), (bytes "kid", .string (bytes "k1")),
    (bytes "typ", .string (bytes "JWT"))]
  payload := [(bytes "email", .string (bytes "eve@example.com")),
    (bytes "iss", .string (bytes "x")), (bytes "name", .string (bytes "Eve"))]

/-- A site without a hook, where no key accepts anything. -/
def forgedDeployment : Deployment where
  jwt := JwtCpp.ofTable [(forgedToken, forgedJwt)] fun _ _ => false
  json := emptyKeysParser
  green := .sample
  site := .sample
  loginTemplate := []
  logoutTemplate := []
  authorisationVerification := none

/-- The files the program starts on: a key document without keys. -/
def startHost : Host where
  files := Function.update (fun _ => none) (bytes "./conf/microsoft.jwks.json")
    (some ⟨emptyKeysBody, true, some 1790000000⟩)
  fetches := []

/-- The store that `main` sets up from it. -/
def startStore : JwksStore where
  srcUrl := bytes "https://login.microsoftonline.com/common/discovery/v2.0/keys"
  backingFile := bytes "./conf/microsoft.jwks.json"
  lastFetchTime := 1790000000 * 1000000000

/-- The stores with this one for `microsoft`. -/
def startManager (stores : Bytes → Option JwksStore) : Manager where
  stores := Function.update stores (bytes "microsoft") (some startStore)
  host := startHost

theorem startManager_stores (store : JwksStore) :
    startManager (Function.update (fun _ => none) (bytes "microsoft") (some store)) =
      startManager fun _ => none := by
  rw [startManager, Function.update_idem, startManager]

def startGlobals : Globals where
  storeMan := startManager fun _ => none
  codesToJwts _ := none

theorem mainInit_startHost :
    (mainInit forgedDeployment.jwt forgedDeployment.json (envAt 1790000000 []).jwks).run
      { stores := fun _ => none, host := startHost } = (.ret ⟨⟩, startGlobals.storeMan) := by
  rw [startGlobals, ← startManager_stores {}]
  rfl

/-- `GET verify` with the forged token in its cookie, a minute later. -/
def forgedRequest : Served where
  env := envAt 1790000060 []
  req := requestOf "GET" "verify" (some (CStr.ofBytes (bytes "auth=" ++ forgedToken))) none .failed

set_option maxRecDepth 20000 in
/-- The store knows no key of that kid, and was loaded a minute ago. -/
theorem verifyJwks_forgedRequest :
    (verifyJwksAuthenticationJwt forgedDeployment.jwt forgedDeployment.json forgedRequest.env.jwks
      forgedRequest.req.cookieToken).run startGlobals.storeMan =
        (.ret 2, startGlobals.storeMan) := by
  have hrun : (verifyJwksAuthenticationJwt forgedDeployment.jwt forgedDeployment.json
      forgedRequest.env.jwks forgedRequest.req.cookieToken).run startGlobals.storeMan =
        (.ret 2, startManager (startManager fun _ => none).stores) := rfl
  rw [hrun]
  exact congrArg (Outcome.ret 2, ·) (startManager_stores startStore)

set_option maxRecDepth 20000 in
/-- Its payload names a user. -/
theorem tokenUser_forgedRequest :
    (tokenUser forgedDeployment.jwt forgedDeployment.json forgedRequest.req.cookieToken).isSome :=
  rfl

theorem serveStep_forgedRequest :
    serveStep forgedDeployment startGlobals forgedRequest =
      some (verificationOutput forgedDeployment forgedRequest.req 2, startGlobals) := by
  have hroute : ∃ method path, forgedRequest.req.HasParams method path ∧
      route method.val path.val = .verify := ⟨_, _, requestOf_hasParams _ _ _ _ _, by decide⟩
  exact serveStep_of_handle hroute
    (fun _ _ _ => processVerificationRequest_run rfl verifyJwks_forgedRequest) (by decide)

/-- The one request of the run. -/
def forgedRequests : List ServedStep :=
  [⟨startGlobals, forgedRequest, verificationOutput forgedDeployment forgedRequest.req 2,
    startGlobals⟩]

/-- The request is answered 200, from the store that `main` set up, though its token was refused. -/
theorem answersVerified_forgedRequests :
    (mainInit forgedDeployment.jwt forgedDeployment.json (envAt 1790000000 []).jwks).run
        { stores := fun _ => none, host := startHost } = (.ret ⟨⟩, startGlobals.storeMan) ∧
      Run (serveStep forgedDeployment) startGlobals forgedRequests startGlobals ∧
        ¬ Everywhere (AnswersVerified forgedDeployment) forgedRequests := by
  refine ⟨mainInit_startHost, .cons .nil serveStep_forgedRequest, fun hsound => ?_⟩
  have hverify : IsVerification forgedRequest.req :=
    ⟨CStr.lit "GET", CStr.lit "verify", rfl, rfl, by decide⟩
  have h200 : Answers200 (verificationOutput forgedDeployment forgedRequest.req 2) :=
    (answers200_verificationOutput_iff (fun _ _ => rfl) _ _).mpr tokenUser_forgedRequest
  have hzero := hsound.1 hverify h200
  have htwo := congrArg Prod.fst verifyJwks_forgedRequest
  have heq := Outcome.ret.inj (htwo.symm.trans hzero)
  exact absurd heq (by decide)

theorem answersVerified_run_iff_forgedRequests :
    Everywhere (AnswersVerified forgedDeployment) forgedRequests ↔
      Everywhere (CarriesAccepted forgedDeployment) forgedRequests :=
  answersVerified_run_iff _ (fun _ _ => rfl) (.cons .nil serveStep_forgedRequest)

end FcgiJwtAuth
