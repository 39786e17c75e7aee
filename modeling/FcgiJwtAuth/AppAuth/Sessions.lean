import FcgiJwtAuth.AppAuth.JarLogout
import FcgiJwtAuth.AppAuth.ServerRuns

/-!
# The sessions of clients

Clients send requests in any order, each with the cookies it has, and take the cookies of the
response; other requests come in between with any cookies at all, and other applications set
cookies of their own. What should hold is a table with a token for each client: a login that is
accepted enters its token, and a logout takes it away. The server keeps no such table. In every run
in which a client sends no line break in what goes into the header fields of a response, the token
that the server reads from the client's next request is the one in the table, and `verify` answers
by it. `SplitResponse` is about the clients that do send one.
-/

namespace FcgiJwtAuth

open CLang HTTPUtils

/-! ## The server and its clients -/

/-- The globals of the server, and the cookies of each client. -/
structure Net (ι : Type) where
  globals : Globals
  jars : ι → Jar

/-- What happens next. -/
inductive Action (ι : Type)
  /-- A client sends a request, with its cookies in it. -/
  | request (client : ι) (served : Served)
  /-- A request comes from somewhere else, with any cookies. -/
  | foreign (served : Served)
  /-- A client is given a cookie by another application. -/
  | elsewhere (client : ι) (name : CookieName) (value : CookieValue) (h : name ≠ authName)
  /-- A client forgets a cookie. -/
  | forgets (client : ι) (name : CookieName)

/-- The request with the cookies of the client. -/
def Served.sentBy (served : Served) (jar : Jar) : Served :=
  { served with req := { served.req with cookie := jar.header } }

section Net

variable {ι : Type} [DecidableEq ι] (D : Deployment)

/-- The cookies of one client change. -/
def Net.setJar (net : Net ι) (client : ι) (jar : Jar) : Net ι :=
  { net with jars := Function.update net.jars client jar }

def netStep (net : Net ι) : Action ι → Option (List Event × Net ι)
  | .request client served =>
    (serveStep D net.globals (served.sentBy (net.jars client))).map fun r =>
      (r.1, { net.setJar client ((net.jars client).receiveAll (setCookies r.1)) with
        globals := r.2 })
  | .foreign served =>
    (serveStep D net.globals served).map fun r => (r.1, { net with globals := r.2 })
  | .elsewhere client name value _ =>
    some ([], net.setJar client ((net.jars client).insert name value))
  | .forgets client name => some ([], net.setJar client ((net.jars client).erase name))

abbrev NetStep (ι : Type) := Step (Net ι) (Action ι) (List Event)

/-! ## The table of sessions -/

/-- The session behind a request of its client. -/
def nextSession (globals : Globals) (served : Served) (session : Option CStr) : Option CStr :=
  if served.req.route? = some .logout then none else (loginOf D globals served).or session

/-- The session of a client behind a run. -/
def sessionOf (client : ι) : List (NetStep ι) → Option CStr
  | [] => none
  | st :: earlier =>
    match st.input with
    | .request c served =>
      if c = client then nextSession D st.pre.globals served (sessionOf client earlier)
      else sessionOf client earlier
    | .forgets c name =>
      if c = client ∧ name = authName then none else sessionOf client earlier
    | .foreign _ => sessionOf client earlier
    | .elsewhere _ _ _ _ => sessionOf client earlier

theorem sessionOf_request (net net' : Net ι) (c client : ι) (served : Served) (out : List Event)
    (h : List (NetStep ι)) :
    sessionOf D c (⟨net, .request client served, out, net'⟩ :: h) =
      if client = c then nextSession D net.globals served (sessionOf D c h)
      else sessionOf D c h := rfl

theorem sessionOf_forgets (net net' : Net ι) (c client : ι) (name : CookieName) (out : List Event)
    (h : List (NetStep ι)) :
    sessionOf D c (⟨net, .forgets client name, out, net'⟩ :: h) =
      if client = c ∧ name = authName then none else sessionOf D c h := rfl

/-- The cookies of the client hold its session. -/
def HoldsSession (client : ι) (h : List (NetStep ι)) (net : Net ι) : Prop :=
  ((net.jars client).lookup authName).map (·.val) = (sessionOf D client h).map CStr.val

/-- The client sends no line break. What the others send does not matter. -/
def SentUnbroken (client : ι) (_ : List (NetStep ι)) (st : NetStep ι) : Prop :=
  ∀ served, st.input = .request client served → UnbrokenRequest D served.req

end Net

/-! ## One request -/

section Requests

variable {D : Deployment} {entity : Byte → Bytes} {globals globals' : Globals} {served : Served}
  {out : List Event}

/-- The login of a request does not depend on its cookies. -/
theorem loginOf_sentBy (jar : Jar) :
    loginOf D globals (served.sentBy jar) = loginOf D globals served := rfl

theorem isCookieValue_of_loginOf (hplain : PlainDeployment D entity) {jwtoken : CStr}
    (h : loginOf D globals served = some jwtoken) : IsCookieValue jwtoken.val :=
  isCookieValue_of_accepts hplain (Option.filter_eq_some_iff.mp h).2

/-- A client takes the cookie of a login. -/
theorem lookup_receive_authCookie {jwtoken : CStr} (h : IsCookieValue jwtoken.val) (jar : Jar) :
    ((jar.receive (authCookie jwtoken).2).lookup authName).map (·.val) = some jwtoken.val := by
  have hname : bytes "auth=" = bytes "auth" ++ [ch '='] := by decide
  have hattributes : bytes "; Path=/; Secure; HttpOnly; SameSite=Lax" =
      ch ';' :: bytes " Path=/; Secure; HttpOnly; SameSite=Lax" := by decide
  have hkept : isDeleting (bytes " Path=/; Secure; HttpOnly; SameSite=Lax") = false := by decide
  have hshape : (authCookie jwtoken).2 = bytes "auth" ++ ch '=' ::
      (jwtoken.val ++ ch ';' :: bytes " Path=/; Secure; HttpOnly; SameSite=Lax") := by
    simp only [authCookie, hname, hattributes, List.append_assoc, List.cons_append,
      List.nil_append]
  have hauth : IsCookieName (bytes "auth") := authName.property
  have hlookup : (jar.insert authName ⟨jwtoken.val, h⟩).lookup authName =
      some ⟨jwtoken.val, h⟩ := AList.lookup_insert jar
  rw [hshape, Jar.receive_pair jar hauth h, if_neg (by simp [hkept])]
  exact congrArg (Option.map (·.val)) hlookup

/-- What `logout` writes. -/
theorem out_of_logout (hroute : served.req.route? = some .logout)
    (h : serveStep D globals served = some (out, globals')) :
    ∃ rest, out = .page (logoutPage D (parseCookies served.req.cookie)) :: rest := by
  rcases handled_of_serveStep h with ⟨hnot, -⟩ | ⟨method, path, r, rc, hr, hrun⟩
  · rw [hroute] at hnot
    cases hnot
  · obtain rfl := Option.some.inj (hroute.symm.trans hr)
    have hout := congrArg Serving.out (Prod.mk.inj hrun).2
    exact ⟨_, hout.symm⟩

/-- **One request of a client**: what it holds behind the response. -/
theorem lookup_served (hplain : PlainDeployment D entity) (hrequest : UnbrokenRequest D served.req)
    {jar : Jar} (h : serveStep D globals (served.sentBy jar) = some (out, globals'))
    {session : Option CStr}
    (hholds : (jar.lookup authName).map (·.val) = session.map CStr.val) :
    ((jar.receiveAll (setCookies out)).lookup authName).map (·.val) =
      (nextSession D globals served session).map CStr.val := by
  unfold nextSession
  by_cases hlogout : served.req.route? = some .logout
  · have hsent : (served.sentBy jar).req.route? = some .logout := hlogout
    obtain ⟨rest, hout⟩ := out_of_logout hsent h
    have hcookie : (served.sentBy jar).req.cookie = jar.header := rfl
    have hauth : IsPlainName authName.val := by decide
    rw [hcookie] at hout
    rw [if_pos hlogout, hout, lookup_logout hplain jar rest authName, if_pos hauth]
    rfl
  · have hsent : UnbrokenRequest D (served.sentBy jar).req := ⟨hrequest.query, hrequest.state⟩
    have hset := setCookies_of_serveStep hplain hsent hlogout h
    rw [loginOf_sentBy] at hset
    rw [if_neg hlogout, hset]
    cases hlogin : loginOf D globals served with
    | none => exact hholds
    | some jwtoken =>
      have hvalue := isCookieValue_of_loginOf hplain hlogin
      rw [Option.toList_some, List.map_singleton, Jar.receiveAll_singleton,
        lookup_receive_authCookie hvalue jar]
      rfl

end Requests

/-! ## Whole runs -/

section Runs

variable {ι : Type} [DecidableEq ι] {D : Deployment} {entity : Byte → Bytes}
  {net net' : Net ι} {h : List (NetStep ι)} {out : List Event} {client : ι}

theorem lookup_setJar (net : Net ι) (client c : ι) (jar : Jar) :
    ((net.setJar client jar).jars c).lookup authName =
      if c = client then jar.lookup authName else (net.jars c).lookup authName := by
  show (Function.update net.jars client jar c).lookup authName = _
  by_cases hc : c = client
  · subst hc
    rw [Function.update_self, if_pos rfl]
  · rw [Function.update_of_ne hc, if_neg hc]

/-- A step that answers a request of a client. -/
theorem serveStep_of_request {served : Served}
    (htake : netStep D net (.request client served) = some (out, net')) :
    ∃ globals', serveStep D net.globals (served.sentBy (net.jars client)) = some (out, globals') ∧
      net' = { net.setJar client ((net.jars client).receiveAll (setCookies out)) with
        globals := globals' } := by
  obtain ⟨⟨out', globals'⟩, hserve, heq⟩ := Option.map_eq_some_iff.mp htake
  obtain ⟨rfl, rfl⟩ := Prod.mk.inj heq
  exact ⟨globals', hserve, rfl⟩

theorem netStep_request {served : Served} {globals' : Globals}
    (hserve : serveStep D net.globals (served.sentBy (net.jars client)) = some (out, globals')) :
    netStep D net (.request client served) =
      some (out, { net.setJar client ((net.jars client).receiveAll (setCookies out)) with
        globals := globals' }) := by
  rw [netStep, hserve]
  rfl

/-- **One step keeps the cookies and the table together.** -/
theorem HoldsSession.netStep (hplain : PlainDeployment D entity) {action : Action ι} {c : ι}
    (hc : HoldsSession D c h net) (htake : netStep D net action = some (out, net'))
    (hsent : SentUnbroken D c h ⟨net, action, out, net'⟩) :
    HoldsSession D c (⟨net, action, out, net'⟩ :: h) net' := by
  unfold HoldsSession at hc ⊢
  cases action with
  | request client served =>
    obtain ⟨globals', hserve, rfl⟩ := serveStep_of_request htake
    have hlookup := lookup_setJar net client c ((net.jars client).receiveAll (setCookies out))
    show (((net.setJar client _).jars c).lookup authName).map (·.val) = _
    rw [hlookup, sessionOf_request]
    by_cases heq : c = client
    · subst heq
      rw [if_pos rfl, if_pos rfl]
      exact lookup_served hplain (hsent served rfl) hserve hc
    · rw [if_neg heq, if_neg (Ne.symm heq)]
      exact hc
  | foreign served =>
    obtain ⟨⟨out', globals'⟩, -, heq⟩ := Option.map_eq_some_iff.mp htake
    obtain ⟨rfl, rfl⟩ := Prod.mk.inj heq
    exact hc
  | elsewhere client name value hname =>
    obtain ⟨rfl, rfl⟩ := Prod.mk.inj (Option.some.inj htake)
    rw [lookup_setJar]
    by_cases heq : c = client
    · subst heq
      rw [if_pos rfl, AList.lookup_insert_ne (Ne.symm hname)]
      exact hc
    · rw [if_neg heq]
      exact hc
  | forgets client name =>
    obtain ⟨rfl, rfl⟩ := Prod.mk.inj (Option.some.inj htake)
    rw [lookup_setJar, sessionOf_forgets]
    by_cases heq : c = client
    · subst heq
      rw [if_pos rfl]
      by_cases hname : name = authName
      · subst hname
        rw [if_pos ⟨rfl, rfl⟩, AList.lookup_erase]
        rfl
      · rw [if_neg fun h => hname h.2, AList.lookup_erase_ne (Ne.symm hname)]
        exact hc
    · rw [if_neg heq, if_neg fun h => heq h.1.symm]
      exact hc

/-- The cookies of a client, as the server reads them. -/
theorem HoldsSession.cookieToken (hI : HoldsSession D client h net) :
    FcgiJwtAuth.cookieToken (parseCookies (net.jars client).header) =
      ((sessionOf D client h).map CStr.val).getD [] := by
  rw [cookieToken_header, hI]

/-- Without a cookie there is no session. -/
theorem holdsSession_start (hstart : (net.jars client).lookup authName = none) :
    HoldsSession D client [] net := by
  rw [HoldsSession, hstart]
  rfl

/-- **The token of a client's next request** is that of its session, if it has sent no line break:
the last one it was logged in with since its last logout, whatever else it sent, and whatever the
others have sent in between. -/
theorem sessions_refine_run (hplain : PlainDeployment D entity) {net₀ : Net ι}
    (hstart : (net₀.jars client).lookup authName = none)
    (hrun : Run (FcgiJwtAuth.netStep D) net₀ h net) (hsent : Everywhere (SentUnbroken D client) h)
    (served : Served) :
    (served.sentBy (net.jars client)).req.cookieToken =
      ((sessionOf D client h).map CStr.val).getD [] := by
  have hholds : HoldsSession D client h net := hrun.invariant (holdsSession_start hstart)
    (fun hI htake hstep => hI.netStep hplain htake hstep) hsent
  exact hholds.cookieToken

/-! ## What verify answers -/

/-- The client was logged in with the token: it was presented in a request of its own, and
accepted. -/
def LoggedIn (D : Deployment) (client : ι) (jwtoken : CStr) (h : List (NetStep ι)) : Prop :=
  ∃ st ∈ h, ∃ served, st.input = .request client served ∧
    presentedToken D st.pre.globals served = some jwtoken ∧
    acceptsToken D st.pre.globals served jwtoken = true

/-- A request for `verify` is answered by the session of its client. -/
structure AnswersBySession (D : Deployment) (client : ι) (earlier : List (NetStep ι))
    (out : List Event) : Prop where
  output : out = [.page (if (sessionOf D client earlier).isSome then authorisedPage
    else unauthorizedPage), .flush, .close, .finish]
  login : ∀ jwtoken, sessionOf D client earlier = some jwtoken → LoggedIn D client jwtoken earlier

/-- The requests of the client for `verify` are answered by its session. -/
def VerifyFollowsSession (D : Deployment) (client : ι) (earlier : List (NetStep ι))
    (st : NetStep ι) : Prop :=
  ∀ served, st.input = .request client served → served.req.route? = some .verify →
    AnswersBySession D client earlier st.output

omit [DecidableEq ι] in
theorem LoggedIn.cons {jwtoken : CStr} (hlogged : LoggedIn D client jwtoken h) (st : NetStep ι) :
    LoggedIn D client jwtoken (st :: h) := by
  obtain ⟨e, he, hrest⟩ := hlogged
  exact ⟨e, List.mem_cons_of_mem _ he, hrest⟩

/-- A session began with a login. -/
theorem loggedIn_of_sessionOf {jwtoken : CStr} (hsession : sessionOf D client h = some jwtoken) :
    LoggedIn D client jwtoken h := by
  induction h with
  | nil => cases hsession
  | cons st earlier ih =>
    obtain ⟨pre, action, out, post⟩ := st
    cases action with
    | request c served =>
      rw [sessionOf_request] at hsession
      by_cases hc : c = client
      · rw [if_pos hc, nextSession] at hsession
        split_ifs at hsession
        rcases Option.or_eq_some_iff.mp hsession with hlogin | ⟨-, hkept⟩
        · obtain ⟨hpresented, haccepted⟩ := Option.filter_eq_some_iff.mp hlogin
          exact ⟨_, List.mem_cons_self, served, by rw [hc], hpresented, haccepted⟩
        · exact (ih hkept).cons _
      · rw [if_neg hc] at hsession
        exact (ih hsession).cons _
    | forgets c name =>
      rw [sessionOf_forgets] at hsession
      split_ifs at hsession
      exact (ih hsession).cons _
    | foreign served => exact (ih hsession).cons _
    | elsewhere c name value hname => exact (ih hsession).cons _

/-- An accepted token names a user. -/
theorem tokenUser_of_accepts {globals : Globals} {served : Served} {jwtoken : CStr}
    (haccepts : acceptsToken D globals served jwtoken = true) :
    (tokenUser D.jwt D.json jwtoken.val).isSome := by
  obtain ⟨jwt, kid, hdecode, -, -, -, hnames, -⟩ :=
    verifyJwks_eq_zero_iff.mp (verifyJwks_of_accepts haccepts)
  exact (tokenUser_isSome_of_decode D.jwt D.json hdecode).mpr hnames

/-- The answer to `verify`, if the cookies hold the session. -/
theorem HoldsSession.answers (hhook : ∀ req ctx, authorised D req ctx = true)
    (hI : HoldsSession D client h net) {served : Served} (hroute : served.req.route? = some .verify)
    (htake : FcgiJwtAuth.netStep D net (.request client served) = some (out, net')) :
    AnswersBySession D client h out := by
  refine ⟨?_, fun jwtoken => loggedIn_of_sessionOf⟩
  obtain ⟨globals', hserve, -⟩ := serveStep_of_request htake
  have hverify : IsVerification (served.sentBy (net.jars client)).req := by
    unfold Request.route? at hroute
    split at hroute
    · rename_i method path hmethod hpath
      exact ⟨method, path, hmethod, hpath, Option.some.inj hroute⟩
    · cases hroute
  have htoken : (served.sentBy (net.jars client)).req.cookieToken =
      ((sessionOf D client h).map CStr.val).getD [] := hI.cookieToken
  obtain ⟨code, man', -, rfl⟩ := serveStep_of_isVerification hverify hserve
  rw [verificationOutput, htoken]
  cases hsession : sessionOf D client h with
  | none => rfl
  | some jwtoken =>
    obtain ⟨st, -, request, -, -, haccepted⟩ := loggedIn_of_sessionOf hsession
    obtain ⟨userCtx, huser⟩ := Option.isSome_iff_exists.mp (tokenUser_of_accepts haccepted)
    simp only [Option.map_some, Option.getD_some, huser, verificationAnswer, hhook]
    rfl

/-- **`verify` follows the sessions.** In every run a client that sends no line break is answered
200 exactly if it has been logged in, by a token that was accepted in a request of its own, and not
logged out since; whatever is sent in between by other clients, and by anyone with cookies of his
own making. -/
theorem verify_follows_sessions_run (hplain : PlainDeployment D entity)
    (hhook : ∀ req ctx, authorised D req ctx = true) {net₀ : Net ι}
    (hstart : (net₀.jars client).lookup authName = none)
    (hrun : Run (FcgiJwtAuth.netStep D) net₀ h net)
    (hsent : Everywhere (SentUnbroken D client) h) :
    Everywhere (VerifyFollowsSession D client) h := by
  refine hrun.everywhere_of_adm (I := HoldsSession D client) (holdsSession_start hstart)
    (fun hI htake hstep => hI.netStep hplain htake hstep) ?_ hsent
  intro earlier s action out s' hI htake _
  rintro served rfl hroute
  exact hI.answers hhook hroute htake

end Runs

/-! ## A session -/

theorem unbroken_htmlName (b : Byte) : ch '\n' ∉ htmlName b := by
  unfold htmlName
  split_ifs <;> decide

theorem unbroken_percentEncode (text : Bytes) : ch '\n' ∉ percentEncode text := by
  have hdigit : ∀ n, ch '\n' ≠ upperHex n := by
    intro n
    have hdigits : ∀ n : Fin 16, ch '\n' ≠ upperHex n := by decide
    rcases Nat.lt_or_ge n 16 with hn | hn
    · exact hdigits ⟨n, hn⟩
    · rw [upperHex, List.getD_eq_default _ _ hn]
      decide
  have hpercent : ch '\n' ≠ ch '%' := by decide
  have hreserved : isUnreserved (ch '\n') = false := by decide
  intro hmem
  obtain ⟨b, -, hbyte⟩ := List.mem_flatMap.mp hmem
  unfold percentEncodeByte at hbyte
  split_ifs at hbyte with hb
  · rw [← List.mem_singleton.mp hbyte, hreserved] at hb
    cases hb
  · simp [hpercent, hdigit] at hbyte

theorem plainDeployment_keysDeployment (query : Bytes → Option CStr) :
    PlainDeployment (keysDeployment query) htmlName where
  escapes _ := rfl
  names := plainNames_htmlName
  entities b _ := unbroken_htmlName b
  urls s := unbroken_percentEncode s.val
  clientId := show ch '\n' ∉ AppSpecific.sample.oauth2DefaultClientId.val by decide
  redirectUri := show ch '\n' ∉ AppSpecific.sample.oauth2DefaultRedirectUri.val by decide
  tokens _ _ h := isCookieValue_of_decode (fun _ _ => true) h

/-- No client has a cookie yet. -/
def freshNet : Net Bool := ⟨loopGlobals keysManager, fun _ => ∅⟩

/-- `GET verify`. -/
def verifyGet : Served where
  env := envAt 1790000070 []
  req := requestOf "GET" "verify" none none .failed

/-- `verify`, for a client that has the token. -/
theorem serveStep_verifyGet {jar : Jar}
    (hjar : (jar.lookup authName).map (·.val) = some signedToken) :
    ∃ out, serveStep (keysDeployment tokenQuery) (loopGlobals keysManager)
      (verifyGet.sentBy jar) = some (out, loopGlobals keysManager) := by
  have htoken : (verifyGet.sentBy jar).req.cookieToken = signedToken := by
    show cookieToken (parseCookies jar.header) = signedToken
    rw [cookieToken_header, hjar]
    rfl
  have hverify : (verifyJwksAuthenticationJwt (keysDeployment tokenQuery).jwt
      (keysDeployment tokenQuery).json verifyGet.env.jwks
        (verifyGet.sentBy jar).req.cookieToken).run (loopGlobals keysManager).storeMan =
          (.ret 0, keysManager) := by
    rw [htoken]
    exact verifyJwks_keysManager _
  have hroute : ∃ method path, (verifyGet.sentBy jar).req.HasParams method path ∧
      route method.val path.val = .verify :=
    ⟨_, _, requestOf_hasParams "GET" "verify" jar.header none .failed, by decide⟩
  exact ⟨_, serveStep_of_handle hroute
    (fun method path _ => processVerificationRequest_run rfl hverify) (by decide)⟩

/-- The login of the client. -/
theorem loginOf_directGet :
    loginOf (keysDeployment tokenQuery) (loopGlobals keysManager) directGet =
      some (CStr.ofBytes signedToken) := by
  have haccepts : acceptsToken (keysDeployment tokenQuery) (loopGlobals keysManager) directGet
      (CStr.ofBytes signedToken) = true := by
    have hverify : (verifyJwksAuthenticationJwt (keysDeployment tokenQuery).jwt
        (keysDeployment tokenQuery).json directGet.env.jwks signedToken).run
          (loopGlobals keysManager).storeMan = (.ret 0, keysManager) := verifyJwks_keysManager _
    rw [acceptsToken, ofBytes_signedToken, hverify]
    rfl
  have hpresented : presentedToken (keysDeployment tokenQuery) (loopGlobals keysManager)
      directGet = some (CStr.ofBytes signedToken) := tokenQuery_token
  rw [loginOf, hpresented, Option.filter_some_pos haccepts]

theorem unbrokenRequest_tokenQuery {req : Request}
    (h : ∀ qs, req.queryString = some qs → ch '\n' ∉ qs.val) :
    UnbrokenRequest (keysDeployment tokenQuery) req where
  query := h
  state state hstate := by
    have hnone : tokenQuery (bytes "state") = some state := hstate
    rw [tokenQuery_state] at hnone
    cases hnone

theorem unbroken_directGet : UnbrokenRequest (keysDeployment tokenQuery) directGet.req :=
  unbrokenRequest_tokenQuery fun qs hqs => by
    have hbreak : ch '\n' ∉ bytes "token=" ++ signedToken := by decide +kernel
    rw [← Option.some.inj hqs]
    intro hmem
    have hupTo : ch '\n' ∈ upTo 0 (bytes "token=" ++ signedToken) := hmem
    exact hbreak (mem_of_mem_upTo hupTo)

/-- The net behind the login of one of the two clients. -/
def loggedInNet : Net Bool :=
  { freshNet.setJar true ((∅ : Jar).receiveAll (setCookies directOut)) with
    globals := loopGlobals keysManager }

theorem netStep_directGet :
    netStep (keysDeployment tokenQuery) freshNet (.request true directGet) =
      some (directOut, loggedInNet) :=
  netStep_request serveStep_directGet

theorem lookup_loggedInNet :
    ((loggedInNet.jars true).lookup authName).map (·.val) = some signedToken := by
  have hjar : loggedInNet.jars true = (∅ : Jar).receiveAll (setCookies directOut) := by
    simp only [loggedInNet, Net.setJar, Function.update_self]
  have hserve : serveStep (keysDeployment tokenQuery) (loopGlobals keysManager)
      (directGet.sentBy ∅) = some (directOut, loopGlobals keysManager) := serveStep_directGet
  have hempty : ((∅ : Jar).lookup authName).map (·.val) = (none : Option CStr).map CStr.val := rfl
  have hroute : ¬ directGet.req.route? = some .logout := by decide
  have hsession : nextSession (keysDeployment tokenQuery) (loopGlobals keysManager) directGet none =
      some (CStr.ofBytes signedToken) := by
    rw [nextSession, if_neg hroute, loginOf_directGet]
    rfl
  rw [hjar, lookup_served (plainDeployment_keysDeployment tokenQuery) unbroken_directGet hserve
    hempty, hsession, Option.map_some, ofBytes_signedToken]

/-- The session of the client behind its login. -/
theorem sessionOf_directGet :
    sessionOf (keysDeployment tokenQuery) true
      [⟨freshNet, .request true directGet, directOut, loggedInNet⟩] =
        some (CStr.ofBytes signedToken) := by
  have hroute : ¬ directGet.req.route? = some .logout := by decide
  have hlogin : loginOf (keysDeployment tokenQuery) freshNet.globals directGet =
    some (CStr.ofBytes signedToken) := loginOf_directGet
  rw [sessionOf_request, if_pos rfl, nextSession, if_neg hroute, hlogin]
  rfl

/-- A run in which the client asks `verify` behind its login. -/
theorem exists_run_login : ∃ out net,
    Run (netStep (keysDeployment tokenQuery)) freshNet
        [⟨loggedInNet, .request true verifyGet, out, net⟩,
          ⟨freshNet, .request true directGet, directOut, loggedInNet⟩] net ∧
      Everywhere (SentUnbroken (keysDeployment tokenQuery) true)
        [⟨loggedInNet, .request true verifyGet, out, net⟩,
          ⟨freshNet, .request true directGet, directOut, loggedInNet⟩] := by
  obtain ⟨out, hserve⟩ := serveStep_verifyGet lookup_loggedInNet
  refine ⟨out, _, .cons (.cons .nil netStep_directGet) (netStep_request hserve), ?_, ?_, trivial⟩
  · rintro served heq
    obtain ⟨-, rfl⟩ := Action.request.inj heq
    exact unbrokenRequest_tokenQuery fun qs hqs => by cases hqs
  · rintro served heq
    obtain ⟨-, rfl⟩ := Action.request.inj heq
    exact unbroken_directGet

/-- Behind its login the client is answered 200. -/
theorem verify_follows_sessions_run_login : ∃ out net,
    Run (netStep (keysDeployment tokenQuery)) freshNet
        [⟨loggedInNet, .request true verifyGet, out, net⟩,
          ⟨freshNet, .request true directGet, directOut, loggedInNet⟩] net ∧
      Everywhere (VerifyFollowsSession (keysDeployment tokenQuery) true)
        [⟨loggedInNet, .request true verifyGet, out, net⟩,
          ⟨freshNet, .request true directGet, directOut, loggedInNet⟩] ∧
      out = [.page authorisedPage, .flush, .close, .finish] := by
  obtain ⟨out, net, hrun, hsent⟩ := exists_run_login
  have hfollows := verify_follows_sessions_run (plainDeployment_keysDeployment tokenQuery)
    (fun _ _ => rfl) rfl hrun hsent
  have hanswer := (hfollows.1 verifyGet rfl (by decide)).output
  rw [sessionOf_directGet] at hanswer
  exact ⟨out, net, hrun, hfollows, hanswer⟩

/-- Its next request has the token in it. -/
theorem sessions_refine_run_login : ∃ out net,
    Run (netStep (keysDeployment tokenQuery)) freshNet
        [⟨loggedInNet, .request true verifyGet, out, net⟩,
          ⟨freshNet, .request true directGet, directOut, loggedInNet⟩] net ∧
      (verifyGet.sentBy (net.jars true)).req.cookieToken = signedToken := by
  obtain ⟨out, net, hrun, hsent⟩ := exists_run_login
  have htoken := sessions_refine_run (plainDeployment_keysDeployment tokenQuery) rfl hrun hsent
    verifyGet
  have hroute : verifyGet.req.route? = some .verify := by decide
  have hlogin : loginOf (keysDeployment tokenQuery) loggedInNet.globals verifyGet = none := by
    unfold loginOf presentedToken
    simp only [hroute]
    rfl
  have hsession : nextSession (keysDeployment tokenQuery) loggedInNet.globals verifyGet
      (some (CStr.ofBytes signedToken)) = some (CStr.ofBytes signedToken) := by
    rw [nextSession, if_neg (by simp [hroute]), hlogin]
    rfl
  rw [sessionOf_request, if_pos rfl, sessionOf_directGet, hsession] at htoken
  exact ⟨out, net, hrun, htoken.trans ofBytes_signedToken⟩

end FcgiJwtAuth
