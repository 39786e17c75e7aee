import FcgiJwtAuth.AppAuth.ControlPaths
import FcgiJwtAuth.CLang.Transcript
import FcgiJwtAuth.Jwks.MicrosoftStore

/-!
# Whole runs of the server

`main` sets up the key store and serves one request after the other. Each request is a transcript of
the calls that its handler makes, so what holds of every control path holds in every run; and what
the calls keep, the run keeps. Hence a session cookie that is set anywhere in a run holds a token
that was accepted in that request, under a key of the start-up file or of a document fetched from
the one configured url.
-/

namespace FcgiJwtAuth

open CLang HTTPUtils

/-! ## What a verification keeps and means -/

section Verify

variable {J : JwtCpp} {P : Picojson} {env : JwksEnv} {I : Manager → Prop}

theorem keeps_catchTokenErrors {α : Type} (fallback : α) {m : Exec Manager α} (hm : m.Keeps I) :
    (catchTokenErrors fallback m).Keeps I := by
  refine hm.catching fun e k hk => ?_
  split_ifs at hk <;>
    · obtain rfl := Option.some.inj hk
      exact Exec.keeps_pure _

theorem keeps_readClaims (jwt : DecodedJwt) : (readClaims J P jwt : Exec Manager _).Keeps I := by
  intro man h
  rcases checks_readClaims J P jwt man with ⟨-, u, hrun⟩ | ⟨-, e, -, hrun⟩ <;> rwa [hrun]

theorem keeps_readUser (jwt : DecodedJwt) (jwtStr : Bytes) :
    (readUser J P jwt jwtStr : Exec Manager ℤ).Keeps I := by
  refine Exec.Keeps.bind (fun man h => ?_) fun userCtx => ?_
  · rwa [jwtinterfaceGetUserContext_run]
  · cases userCtx with
    | none => exact Exec.keeps_pure _
    | some ctx =>
      refine Exec.Keeps.bind (fun man h => ?_) fun _ => Exec.keeps_pure _
      rcases checks_readDates J jwt man with ⟨-, u, hrun⟩ | ⟨-, e, -, hrun⟩ <;> rwa [hrun]

/-- A verification touches the manager in `verify_jwt` alone. -/
theorem keeps_verifyJwks {jwtStr : Bytes}
    (h : (verifyJwt J P env (bytes "microsoft") jwtStr).Keeps I) :
    (verifyJwksAuthenticationJwt J P env jwtStr).Keeps I := by
  refine keeps_catchTokenErrors 1 ?_
  refine (Exec.keeps_ofExcept _).bind fun jwt => (keeps_readClaims jwt).bind fun _ => ?_
  refine h.bind fun accepted => ?_
  cases accepted with
  | false => exact Exec.keeps_pure _
  | true => exact keeps_readUser jwt jwtStr

/-- **The code 0** is returned behind a `verify_jwt` that returned true, and leaves what it
left. -/
theorem verifyJwt_of_zero {jwtStr : Bytes} {man man' : Manager}
    (h : (verifyJwksAuthenticationJwt J P env jwtStr).run man = (.ret 0, man')) :
    (verifyJwt J P env (bytes "microsoft") jwtStr).run man = (.ret true, man') := by
  -- the fallback of the `catch` clauses is 1
  have htry : (verifyTry J P env jwtStr).run man = (.ret 0, man') := by
    rcases hrun : (verifyTry J P env jwtStr).run man with ⟨code | e | _, s⟩
    · rw [verifyJwksAuthenticationJwt, catchTokenErrors_ret hrun] at h
      exact h
    · rw [verifyJwksAuthenticationJwt, catchTokenErrors, Exec.catching_throws hrun] at h
      split_ifs at h
      all_goals exact absurd (Prod.mk.inj h).1 (by simp)
    · rw [verifyJwksAuthenticationJwt, catchTokenErrors_undefined hrun] at h
      cases h
  obtain ⟨jwt, man₁, hdecode, hclaims⟩ := Exec.run_bind_eq_ret_iff.mp htry
  obtain ⟨u, man₂, hread, hsignature⟩ := Exec.run_bind_eq_ret_iff.mp hclaims
  obtain ⟨accepted, man₃, hverify, huser⟩ := Exec.run_bind_eq_ret_iff.mp hsignature
  have h₁ : man₁ = man := by
    have hkeeps := Exec.keeps_ofExcept (I := (· = man)) (J.decode jwtStr) man rfl
    rwa [hdecode] at hkeeps
  have h₂ : man₂ = man₁ := by
    have hkeeps := keeps_readClaims (J := J) (P := P) (I := (· = man₁)) jwt man₁ rfl
    rwa [hread] at hkeeps
  subst h₂ h₁
  cases accepted with
  | false => exact absurd (Prod.mk.inj huser).1 (by simp)
  | true =>
    have hkeeps := keeps_readUser (J := J) (P := P) (I := (· = man₃)) jwt jwtStr man₃ rfl
    rw [huser] at hkeeps
    rwa [← hkeeps] at hverify

/-- What it leaves is what the lookup of the kid leaves. -/
theorem manager_of_zero {jwtStr kid : Bytes} {man man' : Manager} {store : JwksStore}
    {jwt : DecodedJwt} (hstore : man.stores (bytes "microsoft") = some store)
    (hdecode : J.decode jwtStr = .ok jwt) (hkid : J.getKeyId jwt = .ok kid)
    (h : (verifyJwksAuthenticationJwt J P env jwtStr).run man = (.ret 0, man')) :
    man' = man.withStore (bytes "microsoft")
      ((findVerifier J P env kid).run ⟨store, man.host⟩).2 := by
  have hrun := verifyJwt_of_zero h
  rw [verifyJwt_run env (bytes "microsoft") jwtStr hstore, hdecode] at hrun
  simp only [hkid] at hrun
  rcases hfind : (findVerifier J P env kid).run ⟨store, man.host⟩ with ⟨found | _ | _, s'⟩
  · rw [hfind] at hrun
    cases found <;> exact (Prod.mk.inj hrun).2.symm
  · rw [hfind] at hrun
    cases (Prod.mk.inj hrun).1
  · rw [hfind] at hrun
    cases (Prod.mk.inj hrun).1

/-- A key that is in the store is found without a fetch, and the manager stays as it is. -/
theorem verifyJwks_of_known {jwtStr kid : Bytes} {man man' : Manager} {store : JwksStore}
    {jwt : DecodedJwt} {verifier : Verifier} (hstore : man.stores (bytes "microsoft") = some store)
    (hdecode : J.decode jwtStr = .ok jwt) (hkid : J.getKeyId jwt = .ok kid)
    (hverifier : store.verifiers kid = some verifier)
    (h : (verifyJwksAuthenticationJwt J P env jwtStr).run man = (.ret 0, man')) : man' = man := by
  have hdue : ¬ RefreshDue env store kid := fun hdue => by
    rw [hdue.1] at hverifier
    cases hverifier
  rw [manager_of_zero hstore hdecode hkid h, findVerifier_run_of_not_due J P hdue]
  exact withStore_self hstore

end Verify

/-! ## A request as a transcript -/

/-- The token decodes and is accepted by a key of its kid, which is in the start-up file or in a
document that was fetched. -/
def AcceptedUnder (D : Deployment) (startup : Bytes) (host : Host) (env : JwksEnv)
    (jwtStr : Bytes) : Prop :=
  ∃ jwt kid verifier text, D.jwt.decode jwtStr = .ok jwt ∧ D.jwt.getKeyId jwt = .ok kid ∧
    D.jwt.verify verifier jwt env.verifyNow = .ok ⟨⟩ ∧ KnownDocument startup host text ∧
      FromDocument D.jwt D.json text kid verifier

section Requests

variable {D : Deployment} {env : RequestEnv} {globals globals' : Globals} {served : Served}
  {out : List Event} {s s' : Serving} {l : Answereds} {startup : Bytes} {first : List Fetch}

/-- **A served request is a control path**, with its calls made one after the other. -/
theorem exists_transcript (h : serveStep D globals served = some (out, globals')) :
    ∃ l rc, (Handler.appauthProcessRequest D served.env served.req).Ends l rc ∧
      Prog.Plays (HandlerCall.exec D served.env) { globals := globals } l
        { globals := globals', out := out } := by
  unfold serveStep at h
  split at h
  · rename_i rc s hrun
    obtain ⟨rfl, rfl⟩ := Prod.mk.inj (Option.some.inj h)
    rw [← exec_appauthProcessRequest] at hrun
    obtain ⟨l, hends, hplays⟩ := Prog.interp_run_iff.mp hrun
    exact ⟨l, rc, hends, hplays⟩
  · cases h

/-- The output is what the transcript writes. -/
theorem out_of_call (D : Deployment) (env : RequestEnv) (c : HandlerCall) (s : Serving) :
    ((c.exec D env).run s).2.out = s.out ++ (match c with | .emit e => [e] | _ => []) := by
  cases c with
  | emit e => rfl
  | getUserContext jwtStr =>
    rw [HandlerCall.exec, jwtinterfaceGetUserContext_run, List.append_nil]
  | _ => exact (List.append_nil _).symm

/-- A page in the output is written somewhere in the transcript. -/
theorem mem_out_of_plays {page : Page} (hplays : Prog.Plays (HandlerCall.exec D env) s l s')
    (hout : s.out = []) (hpage : Event.page page ∈ s'.out) :
    ∃ l₁ l₂, l = l₁ ++ ⟨.emit (.page page), PUnit.unit⟩ :: l₂ := by
  have hwritten := hplays.invariant
    (I := fun before s => Event.page page ∈ s.out →
      ∃ l₁ l₂, before = l₁ ++ ⟨.emit (.page page), PUnit.unit⟩ :: l₂)
    (fun {before s c r s₁} hI hcall hmem => ?_) (fun hmem => ?_)
  · exact hwritten hpage
  · have hs₁ := out_of_call D env c s
    rw [hcall] at hs₁
    rw [hs₁] at hmem
    rcases List.mem_append.mp hmem with hold | hnew
    · obtain ⟨l₁, l₂, rfl⟩ := hI hold
      exact ⟨l₁, l₂ ++ [⟨c, r⟩], by simp⟩
    · cases c with
      | emit e =>
        obtain rfl := List.mem_singleton.mp hnew
        exact ⟨before, [], rfl⟩
      | _ => cases hnew
  · rw [hout] at hmem
    cases hmem

/-- The calls change the key store in `verify_jwt` alone. -/
theorem keeps_call {I : Manager → Prop}
    (hverify : ∀ jwtStr, (verifyJwt D.jwt D.json env.jwks (bytes "microsoft") jwtStr).Keeps I)
    (c : HandlerCall) : (c.exec D env).Keeps fun s => I s.globals.storeMan := by
  intro s h
  cases c with
  | verifyJwksAuthenticationJwt jwtStr => exact keeps_verifyJwks (hverify jwtStr) _ h
  | applicationVerifyJwtAuthentication cookies =>
    refine Exec.Keeps.bind (keeps_verifyJwks (hverify _)) (fun code => ?_) _ h
    refine Exec.Keeps.bind (fun man hman => ?_) fun userCtx => Exec.keeps_pure _
    rwa [jwtinterfaceGetUserContext_run]
  | getTokensFromMicrosoft code => exact h
  | getUserContext jwtStr =>
    rw [HandlerCall.exec, jwtinterfaceGetUserContext_run]
    exact h
  | emit e => exact h

/-- So what `verify_jwt` keeps, the transcript keeps. -/
theorem storeMan_of_plays {I : Manager → Prop}
    (hverify : ∀ jwtStr, (verifyJwt D.jwt D.json env.jwks (bytes "microsoft") jwtStr).Keeps I)
    (hplays : Prog.Plays (HandlerCall.exec D env) s l s') (h : I s.globals.storeMan) :
    I s'.globals.storeMan :=
  hplays.keeps (I := fun s => I s.globals.storeMan) (keeps_call hverify) h

/-- **What `verify_jwt` keeps, a request keeps.** -/
theorem storeMan_of_serveStep {I : Manager → Prop}
    (hverify : ∀ jwtStr,
      (verifyJwt D.jwt D.json served.env.jwks (bytes "microsoft") jwtStr).Keeps I)
    (h : serveStep D globals served = some (out, globals')) (hI : I globals.storeMan) :
    I globals'.storeMan := by
  obtain ⟨l, rc, -, hplays⟩ := exists_transcript h
  exact storeMan_of_plays hverify hplays hI

/-- It keeps it however it ends. -/
theorem storeMan_of_run {I : Manager → Prop}
    (hverify : ∀ jwtStr, (verifyJwt D.jwt D.json env.jwks (bytes "microsoft") jwtStr).Keeps I)
    (req : Request) (h : I s.globals.storeMan) :
    I ((appauthProcessRequest D env req).run s).2.globals.storeMan := by
  rw [← exec_appauthProcessRequest]
  exact Prog.keeps_interp (I := fun s => I s.globals.storeMan) (keeps_call hverify) _ s h

/-- A verification in the transcript that returned 0, as a call. -/
theorem run_of_verified (hplays : Prog.Plays (HandlerCall.exec D env) s l s') {jwtStr : Bytes}
    (hverified : Verified l jwtStr) :
    ∃ l₁ l₂ s₁ s₂, Prog.Plays (HandlerCall.exec D env) s l₁ s₁ ∧
      (verifyJwksAuthenticationJwt D.jwt D.json env.jwks jwtStr).run s₁.globals.storeMan =
        (.ret 0, s₂.globals.storeMan) ∧
      Prog.Plays (HandlerCall.exec D env) s₂ l₂ s' := by
  obtain ⟨l₁, l₂, rfl⟩ := List.append_of_mem hverified
  obtain ⟨s₁, s₂, hbefore, hcall, hbehind⟩ := hplays.split
  refine ⟨l₁, l₂, s₁, s₂, hbefore, ?_, hbehind⟩
  have hcall : (onStoreMan (verifyJwksAuthenticationJwt D.jwt D.json env.jwks jwtStr)).run s₁ =
    (.ret 0, s₂) := hcall
  rw [onStoreMan, Exec.run_on] at hcall
  obtain ⟨hret, rfl⟩ := Prod.mk.inj hcall
  exact Prod.ext hret rfl

/-- **A verification in the transcript that returned 0** found a key of a known document. -/
theorem acceptedUnder_of_verified (hplays : Prog.Plays (HandlerCall.exec D env) s l s')
    (hconfigured : Configured D.jwt D.json startup s.globals.storeMan) {jwtStr : Bytes}
    (hverified : Verified l jwtStr) :
    AcceptedUnder D startup s'.globals.storeMan.host env.jwks jwtStr := by
  have hkeeps : ∀ (first : List Fetch) (jwtStr : Bytes),
      (verifyJwt D.jwt D.json env.jwks (bytes "microsoft") jwtStr).Keeps
        (ConfiguredSince D.jwt D.json startup first) :=
    fun first jwtStr => keeps_verifyJwt env.jwks jwtStr startup first
  obtain ⟨l₁, l₂, s₁, s₂, hbefore, hrun, hbehind⟩ := run_of_verified hplays hverified
  have h₁ := storeMan_of_plays (hkeeps _) hbefore ⟨hconfigured, List.suffix_refl _⟩
  have h₂ := keeps_verifyJwks (hkeeps _ jwtStr) _ ⟨h₁.1, List.suffix_refl _⟩
  rw [hrun] at h₂
  have hgrows := (storeMan_of_plays (hkeeps _) hbehind ⟨h₂.1, List.suffix_refl _⟩).2
  obtain ⟨jwt, kid, store, verifier, hdecode, hkid, hstore, hverifier, haccepted⟩ :=
    verifyJwt_true (verifyJwt_of_zero hrun)
  have hissuer : issuerVerifiers s₂.globals.storeMan (bytes "microsoft") kid = some verifier := by
    rw [issuerVerifiers_of_some hstore, hverifier]
  obtain ⟨text, hknown, hfrom⟩ := h₂.1.keys kid verifier hissuer
  exact ⟨jwt, kid, verifier, text, hdecode, hkid, haccepted, hknown.mono hgrows, hfrom⟩

/-- `GET login`. -/
def Request.IsLoginGet (req : Request) : Prop :=
  ∃ method path, req.requestMethod = some method ∧ req.pathInfo = some path ∧
    method.val = bytes "GET" ∧ path.val = bytes "login"

/-- On that path the login page is all there is. -/
theorem appauthProcessRequest_of_isLoginGet {req : Request} (h : req.IsLoginGet) :
    Handler.appauthProcessRequest D env req = Handler.processLoginPageGet D req := by
  obtain ⟨method, path, hmethod, hpath, hget, hlogin⟩ := h
  have htrue : Handler.isLoginPageGet req = .ret true := by
    simp [Handler.isLoginPageGet, hmethod, hpath, strEq, hget, hlogin]
    rfl
  rw [Handler.appauthProcessRequest, htrue]
  rfl

end Requests

/-! ## Runs -/

/-- In this very request, in front of the page, a verification of the token has returned 0. -/
def AcceptedBefore (D : Deployment) (st : ServedStep) (page : Page) (jwtStr : Bytes) : Prop :=
  ∃ l l' rc, (Handler.appauthProcessRequest D st.input.env st.input.req).Ends
      (l ++ ⟨.emit (.page page), PUnit.unit⟩ :: l') rc ∧
    Prog.Plays (HandlerCall.exec D st.input.env) { globals := st.pre }
      (l ++ ⟨.emit (.page page), PUnit.unit⟩ :: l') { globals := st.post, out := st.output } ∧
    Verified l jwtStr

/-- What a page of the step rests on: a token that was accepted in front of it, under a key of a
document known when the request has ended. -/
structure RestsOn (D : Deployment) (startup : Bytes) (st : ServedStep) (page : Page)
    (jwtStr : Bytes) : Prop where
  accepted : AcceptedBefore D st page jwtStr
  key : AcceptedUnder D startup st.post.storeMan.host st.input.env.jwks jwtStr

/-- What a step's session cookies and its login redirect rest on. -/
structure SessionsAccepted (D : Deployment) (startup : Bytes) (st : ServedStep) : Prop where
  cookies : ∀ page value, Event.page page ∈ st.output →
    (bytes "Set-Cookie", bytes "auth=" ++ value) ∈ page.fields →
      expiredValue <+: value ∨
        ∃ jwtoken, authCookie jwtoken = (bytes "Set-Cookie", bytes "auth=" ++ value) ∧
          RestsOn D startup st page jwtoken.val
  login : st.input.req.IsLoginGet → ∀ page, Event.page page ∈ st.output → page.status = "302" →
    RestsOn D startup st page (loginToken st.input.req)

/-- The globals that the loop of `main` starts with. -/
def loopGlobals (man : Manager) : Globals where
  storeMan := man
  codesToJwts _ := none

section Runs

variable {D : Deployment} {globals globals' : Globals} {served : Served} {out : List Event}
  {startup : Bytes}

/-- A request keeps the store as it was set up. -/
theorem Configured.serveStep (hI : Configured D.jwt D.json startup globals.storeMan)
    (h : serveStep D globals served = some (out, globals')) :
    Configured D.jwt D.json startup globals'.storeMan := by
  have hkept := storeMan_of_serveStep
    (I := ConfiguredSince D.jwt D.json startup globals.storeMan.host.fetches)
    (fun jwtStr => keeps_verifyJwt served.env.jwks jwtStr startup _) h ⟨hI, List.suffix_refl _⟩
  exact hkept.1

/-- What one request sets and redirects to. -/
theorem sessionsAccepted_of_serveStep (hgreen : EncodesPlainly D)
    (hI : Configured D.jwt D.json startup globals.storeMan)
    (h : FcgiJwtAuth.serveStep D globals served = some (out, globals')) :
    SessionsAccepted D startup ⟨globals, served, out, globals'⟩ := by
  obtain ⟨l, rc, hends, hplays⟩ := exists_transcript h
  refine ⟨fun page value hpage hfield => ?_, fun hlogin page hpage hstatus => ?_⟩
  · obtain ⟨l₁, l₂, rfl⟩ := mem_out_of_plays hplays rfl hpage
    have hcookies : CookiesVerified l₁ page :=
      (keepsCookies_appauthProcessRequest hgreen served.req).of_makes hends.makes
    rcases hcookies.others value hfield with ⟨jwtoken, htoken⟩ | hexpired
    · have hverified := hcookies.verified jwtoken (htoken ▸ hfield)
      exact Or.inr ⟨jwtoken, htoken, ⟨l₁, l₂, rc, hends, hplays, hverified⟩,
        acceptedUnder_of_verified hplays hI (List.mem_append_left _ hverified)⟩
    · exact Or.inl hexpired
  · obtain ⟨l₁, l₂, rfl⟩ := mem_out_of_plays hplays rfl hpage
    have hmakes := hends.makes
    rw [appauthProcessRequest_of_isLoginGet hlogin] at hmakes
    have hverified : Verified l₁ (loginToken served.req) :=
      (writesOnly_processLoginPageGet served.req).of_makes hmakes hstatus
    exact ⟨⟨l₁, l₂, rc, hends, hplays, hverified⟩,
      acceptedUnder_of_verified hplays hI (List.mem_append_left _ hverified)⟩

/-- **Sessions over a whole run of the server.** From the start-up file on, whatever the requests
and the network bring: a session cookie that a handler writes, and a redirect from the login page,
rests on a token that was accepted in this request, by a key of the start-up file or of a document
fetched so far; and documents are fetched from the configured url alone. -/
theorem sessions_accepted_run (hgreen : EncodesPlainly D) {env : JwksEnv} {host : Host}
    {man : Manager} {u : PUnit} (hfetches : host.fetches = [])
    (hinit : (mainInit D.jwt D.json env).run (emptyManager host) = (.ret u, man))
    {h : List ServedStep} (hrun : Run (FcgiJwtAuth.serveStep D) (loopGlobals man) h globals) :
    ∃ file, host.files microsoftFile = some file ∧
      Everywhere (fun _ st => SessionsAccepted D file.content st) h ∧
      ∀ f ∈ globals.storeMan.host.fetches, f.url = microsoftUrl := by
  obtain ⟨file, hfile, -, rfl⟩ := mainInit_ret hinit
  have hstart : Configured D.jwt D.json file.content
      (loopGlobals (microsoftManager (microsoftStore D.jwt D.json file) host)).storeMan :=
    configured_start hfetches
  refine ⟨file, hfile, ?_, ?_⟩
  · exact hrun.everywhere
      (I := fun _ globals => Configured D.jwt D.json file.content globals.storeMan) hstart
      (fun hI htake => hI.serveStep htake)
      (fun hI htake => sessionsAccepted_of_serveStep hgreen hI htake)
  · have hend := hrun.invariant (A := fun _ _ => True)
      (I := fun _ globals => Configured D.jwt D.json file.content globals.storeMan) hstart
      (fun hI htake _ => hI.serveStep htake) (everywhere_of_forall (fun _ _ => trivial) h)
    exact hend.fetches

end Runs

/-! ## A run from a file with a key -/

/-- A file with the key of the test data. -/
def keysFile : File := ⟨testKeys (bytes "k1"), true, some 1790000000⟩

/-- The surroundings of a process that starts on it. -/
def keysHost : Host where
  files := Function.update (fun _ => none) microsoftFile (some keysFile)
  fetches := []

/-- A parser that knows the key set and the reply of the provider. -/
def keysPicojson : Picojson :=
  .ofTable [(testKeys (bytes "k1"), keySetOf [testKey (bytes "k1")]),
    (signedBody, .object [(bytes "id_token", .string signedToken)])]

/-- A site that is given query strings, and whose library escapes text. -/
def keysDeployment (query : Bytes → Option CStr) : Deployment :=
  { signedDeployment with
    jwt := testJwtCpp
    json := keysPicojson
    green :=
      { Libgreen.ofQuery query with htmlspecialEncode := fun s => htmlEscape htmlName s.val } }

theorem encodesPlainly_keysDeployment (query : Bytes → Option CStr) :
    EncodesPlainly (keysDeployment query) :=
  encodesPlainly_of_htmlEscape (fun _ => rfl) plainNames_htmlName

set_option maxRecDepth 20000 in
theorem keySet_keysFile : KeySet keysPicojson keysFile.content [testKey (bytes "k1")] :=
  keySet_keySetOf rfl

/-- The key store that the process starts with. -/
def keysManager : Manager :=
  microsoftManager (microsoftStore testJwtCpp keysPicojson keysFile) keysHost

theorem mainInit_keysHost (env : JwksEnv) :
    (mainInit testJwtCpp keysPicojson env).run (emptyManager keysHost) = (.ret ⟨⟩, keysManager) :=
  mainInit_of_keySet (by simp [keysHost]) rfl keySet_keysFile

theorem microsoftStore_keysFile :
    (microsoftStore testJwtCpp keysPicojson keysFile).verifiers (bytes "k1") =
      some (keyVerifier (.es256 testPem)) := by
  have hnone : (fun _ => none : Verifiers) (bytes "k1") = none := rfl
  show loadedVerifiers testJwtCpp keysPicojson keysFile.content (fun _ => none) (bytes "k1") = _
  rw [loadedVerifiers, keySet_keysFile.keysMember]
  simp only [loadKeys_eq, leadingObjects_map]
  refine (emplaceAll_of_none hnone _).trans ((lookup_publishedKeys_iff testJwtCpp).mpr ?_)
  exact ⟨_, .here (acceptable_testKey (bytes "k1")), rfl⟩

/-- The token is verified under that key. -/
theorem verifyJwks_keysManager (env : JwksEnv) :
    (verifyJwksAuthenticationJwt testJwtCpp keysPicojson env signedToken).run keysManager =
      (.ret 0, keysManager) := by
  have hdecode : testJwtCpp.decode signedToken = .ok signedJwt := by
    simp [testJwtCpp, JwtCpp.ofTable]
  have hverify : testJwtCpp.verify (keyVerifier (.es256 testPem)) signedJwt env.verifyNow =
      .ok ⟨⟩ := by
    simp [testJwtCpp, JwtCpp.ofTable, signedJwt]
  have hresolved : resolvedVerifier testJwtCpp keysPicojson env
      ⟨microsoftStore testJwtCpp keysPicojson keysFile, keysHost⟩ (bytes "k1") =
        some (keyVerifier (.es256 testPem)) := by
    simp only [resolvedVerifier, microsoftStore_keysFile]
  have hzero : ((verifyJwksAuthenticationJwt testJwtCpp keysPicojson env signedToken).run
      keysManager).1 = .ret 0 := by
    refine verifyJwks_eq_zero_iff.mpr ⟨signedJwt, bytes "k1", hdecode, ?_, rfl,
      ⟨_, _, microsoftManager_stores _ _, hresolved, hverify⟩, ?_, ?_⟩
    · exact ⟨⟨_, rfl⟩, ⟨_, rfl⟩, ⟨_, rfl⟩, ⟨_, rfl⟩, Or.inl rfl⟩
    · exact ⟨by decide +kernel, Or.inl ⟨_, rfl⟩, _, rfl⟩
    · exact ⟨Or.inl ⟨_, rfl⟩, Or.inl ⟨_, rfl⟩⟩
  obtain ⟨man', hrun⟩ := Exec.exists_state hzero
  have hkid : testJwtCpp.getKeyId signedJwt = .ok (bytes "k1") := rfl
  have hsame : man' = keysManager := verifyJwks_of_known (microsoftManager_stores _ _) hdecode hkid
    microsoftStore_keysFile hrun
  rw [hrun, hsame]

/-- What `GET direct` is answered with, by the code of the verification. -/
def directAnswer (jwtoken : CStr) (state : Option CStr) (code : ℤ) : List Event :=
  [.page (if code = 0 then directAcceptedPage jwtoken state else directUnauthorizedPage code),
    .text [], .close, .finish]

/-- `GET direct` with a token for which the verification returns. -/
theorem processDirectTokenAuthRequest_run {D : Deployment} {env : RequestEnv} {ctx : RequestContext}
    {globals : Globals} {man' : Manager} {jwtoken : CStr} {code : ℤ}
    (hqs : ctx.qs (bytes "token") = some jwtoken)
    (h : (verifyJwksAuthenticationJwt D.jwt D.json env.jwks jwtoken.val).run globals.storeMan =
      (.ret code, man')) :
    (processDirectTokenAuthRequest D env ctx).run { globals := globals } =
      (.ret 0,
        { globals := { globals with storeMan := man' }
          out := directAnswer jwtoken (ctx.qs (bytes "state")) code }) := by
  have hcall : (onStoreMan (verifyJwksAuthenticationJwt D.jwt D.json env.jwks jwtoken.val)).run
      { globals := globals } = (.ret code, { globals := { globals with storeMan := man' } }) := by
    rw [onStoreMan, Exec.run_on, h]
  have hpage : (directTokenPage D env ctx).run { globals := globals } =
      (.ret (if code = 0 then directAcceptedPage jwtoken (ctx.qs (bytes "state"))
        else directUnauthorizedPage code), { globals := { globals with storeMan := man' } }) := by
    rw [directTokenPage, hqs]
    exact Exec.bind_ret hcall
  exact Exec.bind_ret hpage

/-- The step that serves it. -/
theorem serveStep_direct {D : Deployment} {served : Served} {globals : Globals} {man' : Manager}
    {jwtoken : CStr} {state : Option CStr} {code : ℤ}
    (hroute : ∃ method path, served.req.HasParams method path ∧
      route method.val path.val = .direct)
    (htoken : D.green.queryGet served.req.queryString (bytes "token") = some jwtoken)
    (hstate : D.green.queryGet served.req.queryString (bytes "state") = state)
    (h : (verifyJwksAuthenticationJwt D.jwt D.json served.env.jwks jwtoken.val).run
      globals.storeMan = (.ret code, man')) :
    serveStep D globals served =
      some (directAnswer jwtoken state code, { globals with storeMan := man' }) := by
  have hrun : ∀ method path, served.req.HasParams method path →
      (handle D served.env served.req (requestContext D.green served.req method path) .direct).run
          { globals := globals } =
        (.ret 0,
          { globals := { globals with storeMan := man' }
            out := directAnswer jwtoken state code }) := by
    intro method path _
    let ctx := requestContext D.green served.req method path
    have hqs : ctx.qs (bytes "token") = some jwtoken := htoken
    have hdirect := processDirectTokenAuthRequest_run hqs h
    have hstate' : ctx.qs (bytes "state") = state := hstate
    rw [hstate'] at hdirect
    exact hdirect
  exact serveStep_of_handle hroute hrun (by decide)

theorem ofBytes_signedToken : (CStr.ofBytes signedToken).val = signedToken :=
  CStr.ofBytes_val (by decide +kernel)

theorem tokenQuery_token : tokenQuery (bytes "token") = some (CStr.ofBytes signedToken) :=
  if_pos rfl

theorem tokenQuery_state : tokenQuery (bytes "state") = none := if_neg (by decide)

theorem route_directGet (env : RequestEnv) :
    ∃ method path, ({ directGet with env := env } : Served).req.HasParams method path ∧
      route method.val path.val = .direct :=
  ⟨_, _, requestOf_hasParams _ _ _ _ _, by decide⟩

/-- What this one is answered with. -/
def directOut : List Event :=
  [.page (directAcceptedPage (CStr.ofBytes signedToken) none), .text [], .close, .finish]

theorem serveStep_directGet :
    serveStep (keysDeployment tokenQuery) (loopGlobals keysManager) directGet =
      some (directOut, loopGlobals keysManager) := by
  have hverify : (verifyJwksAuthenticationJwt (keysDeployment tokenQuery).jwt
      (keysDeployment tokenQuery).json directGet.env.jwks signedToken).run
        (loopGlobals keysManager).storeMan = (.ret 0, keysManager) := verifyJwks_keysManager _
  rw [← ofBytes_signedToken] at hverify
  exact serveStep_direct (route_directGet directGet.env) tokenQuery_token tokenQuery_state hverify

/-- The token becomes a cookie, under the key of the file that the process has started on. -/
theorem sessions_accepted_run_direct :
    ∃ globals', Run (serveStep (keysDeployment tokenQuery)) (loopGlobals keysManager)
        [⟨loopGlobals keysManager, directGet, directOut, globals'⟩] globals' ∧
      Event.page (directAcceptedPage (CStr.ofBytes signedToken) none) ∈ directOut ∧
      authCookie (CStr.ofBytes signedToken) ∈
        (directAcceptedPage (CStr.ofBytes signedToken) none).fields ∧
      ∃ file, keysHost.files microsoftFile = some file ∧
        Everywhere (fun _ st => SessionsAccepted (keysDeployment tokenQuery) file.content st)
          [⟨loopGlobals keysManager, directGet, directOut, globals'⟩] ∧
        ∀ f ∈ globals'.storeMan.host.fetches, f.url = microsoftUrl := by
  have hrun : Run (serveStep (keysDeployment tokenQuery)) (loopGlobals keysManager)
      [⟨loopGlobals keysManager, directGet, directOut, loopGlobals keysManager⟩]
        (loopGlobals keysManager) := .cons .nil serveStep_directGet
  exact ⟨_, hrun, List.mem_cons_self, List.mem_cons_self,
    sessions_accepted_run (encodesPlainly_keysDeployment tokenQuery) rfl
      (mainInit_keysHost (fetchingEnv [])) hrun⟩

end FcgiJwtAuth
