import FcgiJwtAuth.AppAuth.ServerRuns
import FcgiJwtAuth.Jwks.Replay

/-!
# The server over several starts

The backing file outlives the process. A start reads it and forgets everything else, so over any
sequence of requests, ends and starts the keys are those of a log: the text that the last start has
read, and the documents fetched since. Two things follow: a document that the running process gets
over can keep it from starting again, and a document without a usable key locks every token out for
24 hours behind a start.
-/

namespace FcgiJwtAuth

open CLang

/-! ## Lifetimes -/

/-- A server that runs, or has ended. -/
structure Life where
  /-- The globals of the process, or those that the last one in the loop has left. -/
  globals : Globals
  running : Bool

/-- What happens to a server. -/
inductive LifeEvent
  /-- It takes a request. -/
  | serve (served : Served)
  /-- It is ended from outside. -/
  | stop
  /-- It is started. -/
  | start (env : JwksEnv)

/-- What the log goes by: the files, and the documents fetched so far. -/
def Life.host (life : Life) : Host := life.globals.storeMan.host

/-- The loop of `main` goes on if the request returns 0. What is not caught ends the process, and so
does undefined behaviour: with the surroundings as they are at that point. -/
def serveLife (D : Deployment) (globals : Globals) (served : Served) : List Event × Life :=
  match (appauthProcessRequest D served.env served.req).run { globals := globals } with
  | (.ret rc, s) => (s.out, ⟨s.globals, rc = 0⟩)
  -- an exception, or undefined behaviour
  | (_, s) => (s.out, ⟨s.globals, false⟩)

/-- A start keeps nothing but the surroundings; it gets to the loop, or ends before. -/
def startLife (D : Deployment) (globals : Globals) (env : JwksEnv) : Life :=
  match (mainInit D.jwt D.json env).run (emptyManager globals.storeMan.host) with
  | (.ret _, man) => ⟨loopGlobals man, true⟩
  | (_, man) => ⟨{ globals with storeMan := { globals.storeMan with host := man.host } }, false⟩

abbrev LifeStep := Step Life LifeEvent (List Event)

/-! ## A request in a lifetime -/

/-- If the call returns, then 0. -/
def ReturnsZero (m : Exec Serving ℤ) : Prop := ∀ s rc s', m.run s = (.ret rc, s') → rc = 0

/-- What the last start has read, if the step is one that gets to the loop. -/
def LifeStep.started? (st : LifeStep) : Option Bytes :=
  match st.input with
  | .start _ =>
    if st.post.running then (st.pre.host.files microsoftFile).map File.content else none
  | _ => none

/-- The documents fetched in the step. -/
def LifeStep.documents (st : LifeStep) : List Bytes :=
  st.post.host.documents.drop st.pre.host.documents.length

/-- **The log of documents**: a start leaves the text it reads, and each fetch adds a document. -/
def documentLog (startup : Bytes) : List LifeStep → List Bytes
  | [] => [startup]
  | st :: earlier =>
    match st.started? with
    | some text => [text]
    | none => documentLog startup earlier ++ st.documents

/-- Saving works while the request is served. -/
def SavesStep (st : LifeStep) : Prop :=
  match st.input with
  | .serve served => SavesText served.env.jwks
  | _ => True

/-- Saving has worked for the last document of the log, if it was fetched. -/
def LastSaved : List LifeStep → Prop
  | [] => True
  | st :: earlier =>
    st.started?.isSome ∨ (if st.documents = [] then LastSaved earlier else SavesStep st)

/-- The store has the keys of the log, and the backing file holds the last entry if it was
saved. -/
structure FollowsLog (D : Deployment) (startup : Bytes) (h : List LifeStep) (life : Life) :
    Prop where
  replays : Replays D.jwt D.json (documentLog startup h) life.globals.storeMan
  file : LastSaved h → ∃ text, (documentLog startup h).getLast? = some text ∧
    HoldsText life.host text

section

variable {D : Deployment} {globals globals' : Globals} {served : Served} {env : JwksEnv}
  {out : List Event} {startup : Bytes} {host : Host} {man : Manager} {u : PUnit}
  {life life' : Life} {h : List LifeStep}

/-- A request continues the log, however it ends. -/
theorem continues_serveLife (hI : Replays D.jwt D.json (documentLog startup h) globals.storeMan)
    (served : Served) :
    Continues D.jwt D.json served.env.jwks globals.storeMan.host (documentLog startup h)
      (serveLife D globals served).2.globals.storeMan := by
  have hkept : Continues D.jwt D.json served.env.jwks globals.storeMan.host
      (documentLog startup h) ((appauthProcessRequest D served.env served.req).run
        { globals := globals }).2.globals.storeMan :=
    storeMan_of_run (fun jwtStr => keeps_verifyJwt_continues jwtStr) served.req hI.continues
  unfold serveLife
  rcases hrun : (appauthProcessRequest D served.env served.req).run { globals := globals } with
    ⟨rc | e | _, s⟩
  all_goals
    rw [hrun] at hkept
    exact hkept

theorem startLife_of_ret
    (hinit : (mainInit D.jwt D.json env).run (emptyManager globals.storeMan.host) = (.ret u, man)) :
    startLife D globals env = ⟨loopGlobals man, true⟩ := by
  rw [startLife, hinit]

/-- **A start that fails** leaves everything as it was. -/
theorem startLife_of_fails
    (hfails : ∀ u man, (mainInit D.jwt D.json env).run (emptyManager globals.storeMan.host) ≠
      (.ret u, man)) :
    startLife D globals env = ⟨globals, false⟩ := by
  have hhost := mainInit_host D.jwt D.json env globals.storeMan.host
  unfold startLife
  rcases hinit : (mainInit D.jwt D.json env).run (emptyManager globals.storeMan.host) with
    ⟨u | e | _, man⟩
  · exact absurd hinit (hfails u man)
  all_goals
    rw [hinit] at hhost
    have hsame : man.host = globals.storeMan.host := hhost
    simp only [hsame]

/-- A start gets to the loop exactly on the texts that it starts from. -/
theorem running_startLife_iff :
    (startLife D globals env).running = true ↔ StartsFrom D.json globals.storeMan.host := by
  rw [← mainInit_ret_iff (J := D.jwt) env]
  constructor
  · intro hrunning
    by_contra hfails
    push Not at hfails
    rw [startLife_of_fails hfails] at hrunning
    cases hrunning
  · rintro ⟨u, man, hinit⟩
    rw [startLife_of_ret hinit]

/-- Then it has a log of its own. -/
theorem replays_startLife (hrunning : (startLife D globals env).running = true) :
    ∃ text, HoldsText globals.storeMan.host text ∧
      (startLife D globals env).host = globals.storeMan.host ∧
      Replays D.jwt D.json [text] (startLife D globals env).globals.storeMan := by
  obtain ⟨u, man, hinit⟩ := (mainInit_ret_iff env).mpr (running_startLife_iff.mp hrunning)
  rw [startLife_of_ret hinit]
  obtain ⟨file, hfile, hread, rfl⟩ := mainInit_ret hinit
  exact ⟨file.content, ⟨file, hfile, hread, rfl⟩, rfl, replays_start _ _ file _⟩

/-- A step without a fetch and without a start. -/
theorem FollowsLog.idle {st : LifeStep} (hI : FollowsLog D startup h life)
    (hstarted : st.started? = none) (hdocs : st.documents = [])
    (hsame : life'.globals.storeMan = life.globals.storeMan) :
    FollowsLog D startup (st :: h) life' := by
  have hlog : documentLog startup (st :: h) = documentLog startup h := by
    rw [documentLog, hstarted, hdocs, List.append_nil]
  have hhost : life'.host = life.host := congrArg Manager.host hsame
  refine ⟨?_, fun hsaved => ?_⟩
  · rw [hlog, hsame]
    exact hI.replays
  · rw [LastSaved, hstarted, if_pos hdocs] at hsaved
    rw [hlog, hhost]
    exact hI.file (hsaved.resolve_left (by simp))

/-- **A request goes on with the log**, also one that ends the process. -/
theorem FollowsLog.serve (hI : FollowsLog D startup h life)
    (hserve : serveLife D life.globals served = (out, life')) :
    FollowsLog D startup (⟨life, .serve served, out, life'⟩ :: h) life' := by
  have hcontinues := continues_serveLife hI.replays served
  rw [hserve] at hcontinues
  obtain ⟨documents, hdocs, hreplays, hfollows⟩ := hcontinues
  have hnew : LifeStep.documents ⟨life, .serve served, out, life'⟩ = documents := by
    show List.drop life.globals.storeMan.host.documents.length
      life'.globals.storeMan.host.documents = documents
    rw [hdocs, List.drop_left]
  have hlog : documentLog startup (⟨life, .serve served, out, life'⟩ :: h) =
      documentLog startup h ++ documents := congrArg (documentLog startup h ++ ·) hnew
  refine ⟨by rwa [hlog], fun hsaved => ?_⟩
  have hsaved := hsaved.resolve_left (by simp [LifeStep.started?])
  rw [hnew] at hsaved
  rw [hlog]
  rcases List.eq_nil_or_concat' documents with rfl | ⟨front, text, rfl⟩
  · -- without a fetch the file is as it was
    rw [if_pos rfl] at hsaved
    obtain ⟨text, hlast, file, hfile, hrest⟩ := hI.file hsaved
    refine ⟨text, by rwa [List.append_nil], file, ?_, hrest⟩
    exact (congrFun (hfollows.same rfl) _).trans hfile
  · -- the last document is the one that was saved last
    rw [if_neg (by simp)] at hsaved
    refine ⟨text, ?_, hfollows.last text (by simp) hsaved⟩
    rw [← List.append_assoc, List.getLast?_concat]

/-- A start that gets to the loop has a log of its own; any other changes nothing. -/
theorem FollowsLog.start (hI : FollowsLog D startup h life) (env : JwksEnv) :
    FollowsLog D startup (⟨life, .start env, [], startLife D life.globals env⟩ :: h)
      (startLife D life.globals env) := by
  by_cases hrunning : (startLife D life.globals env).running = true
  · obtain ⟨text, ⟨file, hfile, hread, rfl⟩, hhost, hreplays⟩ := replays_startLife hrunning
    have hstarted : LifeStep.started? ⟨life, .start env, [], startLife D life.globals env⟩ =
        some file.content := by
      simp [LifeStep.started?, hrunning, Life.host, hfile]
    have hlog : documentLog startup (⟨life, .start env, [], startLife D life.globals env⟩ :: h) =
        [file.content] := by
      rw [documentLog, hstarted]
    refine ⟨by rwa [hlog], fun _ => ⟨file.content, by rw [hlog]; rfl, file, ?_, hread, rfl⟩⟩
    rw [hhost]
    exact hfile
  · have hfails : startLife D life.globals env = ⟨life.globals, false⟩ :=
      startLife_of_fails fun u man hinit => hrunning (by rw [startLife_of_ret hinit])
    rw [hfails]
    exact hI.idle rfl (List.drop_length) rfl

/-- The step sets no session cookie, and its login page does not redirect. -/
structure NoSession (st : ServedStep) : Prop where
  cookies : ∀ page value, Event.page page ∈ st.output →
    (bytes "Set-Cookie", bytes "auth=" ++ value) ∈ page.fields → expiredValue <+: value
  login : st.input.req.IsLoginGet → ∀ page, Event.page page ∈ st.output → page.status ≠ "302"

/-- The store has no key, and its last fetch is not 24 hours ago. -/
structure LockedOut (env : JwksEnv) (man : Manager) : Prop where
  store : ∃ store, man.stores (bytes "microsoft") = some store ∧
    (∀ kid, store.verifiers kid = none) ∧ hours (env.now - store.lastFetchTime) < 24

/-- A start on a file without a usable key. -/
theorem lockedOut_start {J : JwtCpp} {P : Picojson} {file : File}
    (hkeyless : documentKeys J P file.content = [])
    (hnow : hours (env.now - file.mtime.getD 0 * 1000000000) < 24) :
    LockedOut env (microsoftManager (microsoftStore J P file) host) := by
  refine ⟨_, microsoftManager_stores _ _, fun kid => ?_, hnow⟩
  show loadedVerifiers J P file.content (fun _ => none) kid = none
  rw [loadedVerifiers_eq, hkeyless, emplaceAll_nil]

/-- Then a lookup finds nothing and changes nothing. -/
theorem LockedOut.findVerifier {J : JwtCpp} {P : Picojson} (hlocked : LockedOut env man)
    {store : JwksStore} (hstore : man.stores (bytes "microsoft") = some store) (kid : Bytes) :
    (FcgiJwtAuth.findVerifier J P env kid).run ⟨store, man.host⟩ =
      (.ret none, ⟨store, man.host⟩) := by
  obtain ⟨store', hstore', hkeys, hclock⟩ := hlocked.store
  obtain rfl := Option.some.inj (hstore.symm.trans hstore')
  have hdue : ¬ RefreshDue env store kid := fun hdue => absurd hdue.2 (not_le.mpr hclock)
  rw [findVerifier_run_of_not_due J P hdue, hkeys kid]

/-- So a verification leaves the manager as it is. -/
theorem LockedOut.keeps_verifyJwt {J : JwtCpp} {P : Picojson} (hlocked : LockedOut env man)
    (jwtStr : Bytes) :
    (verifyJwt J P env (bytes "microsoft") jwtStr).Keeps (· = man) := by
  refine keeps_verifyJwt_of fun man' hman store hstore kid => ?_
  subst hman
  rw [hlocked.findVerifier hstore]
  exact withStore_self hstore

/-- And accepts no token. -/
theorem LockedOut.verifyJwks_ne_zero {J : JwtCpp} {P : Picojson} (hlocked : LockedOut env man)
    {man' : Manager} {jwtStr : Bytes} :
    (verifyJwksAuthenticationJwt J P env jwtStr).run man ≠ (.ret 0, man') := by
  intro hzero
  have hkept : man' = man := by
    have hkeeps := keeps_verifyJwks (hlocked.keeps_verifyJwt (J := J) (P := P) jwtStr) man rfl
    rwa [hzero] at hkeeps
  obtain ⟨jwt, kid, store, verifier, -, -, hstore, hverifier, -⟩ :=
    verifyJwt_true (verifyJwt_of_zero hzero)
  obtain ⟨store', hstore', hkeys, -⟩ := hlocked.store
  rw [hkept] at hstore
  obtain rfl := Option.some.inj (hstore.symm.trans hstore')
  rw [hkeys kid] at hverifier
  cases hverifier

/-- No transcript has a verification that returned 0. -/
theorem LockedOut.not_verified {env : RequestEnv} {s s' : Serving} {l : Answereds}
    (hlocked : LockedOut env.jwks s.globals.storeMan)
    (hplays : Prog.Plays (HandlerCall.exec D env) s l s') (jwtStr : Bytes) :
    ¬ Verified l jwtStr := by
  intro hverified
  obtain ⟨l₁, l₂, s₁, s₂, hbefore, hrun, -⟩ := run_of_verified hplays hverified
  have hsame : s₁.globals.storeMan = s.globals.storeMan :=
    storeMan_of_plays (I := (· = s.globals.storeMan)) hlocked.keeps_verifyJwt hbefore rfl
  rw [hsame] at hrun
  exact hlocked.verifyJwks_ne_zero hrun

/-- What one request sets and redirects to, then. -/
theorem LockedOut.noSession (hgreen : EncodesPlainly D)
    (hlocked : LockedOut served.env.jwks globals.storeMan)
    (h : serveStep D globals served = some (out, globals')) :
    NoSession ⟨globals, served, out, globals'⟩ := by
  obtain ⟨l, rc, hends, hplays⟩ := exists_transcript h
  have hno := LockedOut.not_verified hlocked hplays
  refine ⟨fun page value hpage hfield => ?_, fun hlogin page hpage hstatus => ?_⟩
  · obtain ⟨l₁, l₂, rfl⟩ := mem_out_of_plays hplays rfl hpage
    have hcookies : CookiesVerified l₁ page :=
      (keepsCookies_appauthProcessRequest hgreen served.req).of_makes hends.makes
    rcases hcookies.others value hfield with ⟨jwtoken, htoken⟩ | hexpired
    · have hverified := hcookies.verified jwtoken (htoken ▸ hfield)
      exact absurd (List.mem_append_left _ hverified) (hno jwtoken.val)
    · exact hexpired
  · obtain ⟨l₁, l₂, rfl⟩ := mem_out_of_plays hplays rfl hpage
    rw [appauthProcessRequest_of_isLoginGet hlogin] at hends
    have hverified : Verified l₁ (loginToken served.req) :=
      (writesOnly_processLoginPageGet served.req).of_makes hends.makes hstatus
    exact hno _ (List.mem_append_left _ hverified)

/-- A run in which the server is locked out at every step. -/
theorem noSession_run (hgreen : EncodesPlainly D) {h : List ServedStep}
    (hrun : Run (FcgiJwtAuth.serveStep D) (loopGlobals man) h globals)
    (hlocked : Everywhere (fun _ st => LockedOut st.input.env.jwks man) h) :
    globals.storeMan = man ∧ Everywhere (fun _ st => NoSession st) h := by
  have hstep : ∀ {s s' : Globals} {served : Served} {out : List Event}, s.storeMan = man →
      FcgiJwtAuth.serveStep D s served = some (out, s') → LockedOut served.env.jwks man →
        s'.storeMan = man := fun hI htake hnow =>
    storeMan_of_serveStep (I := (· = man)) hnow.keeps_verifyJwt htake hI
  constructor
  · exact hrun.invariant (A := fun _ st => LockedOut st.input.env.jwks man)
      (I := fun _ globals => globals.storeMan = man) rfl hstep hlocked
  · refine hrun.everywhere_of_adm (A := fun _ st => LockedOut st.input.env.jwks man)
      (I := fun _ globals => globals.storeMan = man) rfl hstep ?_ hlocked
    intro _ s _ _ _ hI htake hnow
    subst hI
    exact hnow.noSession hgreen htake

/-- **Locked out for a day.** A start on a file without a usable key: as long as no request comes 24
hours after the file was written, nothing is fetched and no session begins, whatever the provider
would publish meanwhile. -/
theorem lockout_run (hgreen : EncodesPlainly D) {file : File}
    (hfile : host.files microsoftFile = some file)
    (hinit : (mainInit D.jwt D.json env).run (emptyManager host) = (.ret u, man))
    (hkeyless : documentKeys D.jwt D.json file.content = [])
    {h : List ServedStep} (hrun : Run (FcgiJwtAuth.serveStep D) (loopGlobals man) h globals)
    (hclock : Everywhere (fun _ st =>
      hours (st.input.env.jwks.now - file.mtime.getD 0 * 1000000000) < 24) h) :
    globals.storeMan = man ∧ Everywhere (fun _ st => NoSession st) h := by
  obtain ⟨file', hfile', -, rfl⟩ := mainInit_ret hinit
  obtain rfl := Option.some.inj (hfile.symm.trans hfile')
  exact noSession_run hgreen hrun (hclock.imp fun _ _ hnow => lockedOut_start hkeyless hnow)

end

/-! ## A key roll-over -/

/-- A file with a page in the place of the keys, and a server that starts on it. -/
def pageFile : File := ⟨htmlBody, true, some 1790000000⟩

def pageHost : Host where
  files := Function.update (fun _ => none) microsoftFile (some pageFile)
  fetches := []

def pageManager : Manager :=
  microsoftManager (microsoftStore testJwtCpp keysPicojson pageFile) pageHost

set_option maxRecDepth 20000 in
theorem keysMember_htmlBody : keysMember (keysPicojson.parse htmlBody).1 = .notObject := rfl

theorem documentKeys_htmlBody : documentKeys testJwtCpp keysPicojson htmlBody = [] := by
  rw [documentKeys, keysMember_htmlBody]

theorem pageHost_file : pageHost.files microsoftFile = some pageFile := by
  simp [pageHost]

theorem mainInit_pageHost :
    (mainInit testJwtCpp keysPicojson (fetchingEnv [])).run (emptyManager pageHost) =
      (.ret ⟨⟩, pageManager) := by
  have hboots : BootsFrom keysPicojson pageFile.content := by
    rw [BootsFrom, pageFile, keysMember_htmlBody]
    trivial
  obtain ⟨u, man, hinit⟩ :=
    (mainInit_ret_iff (J := testJwtCpp) (fetchingEnv [])).mpr
      ⟨pageFile.content, ⟨pageFile, pageHost_file, rfl, rfl⟩, hboots⟩
  obtain ⟨file, hfile, -, rfl⟩ := mainInit_ret hinit
  obtain rfl := Option.some.inj (hfile.symm.trans pageHost_file)
  exact hinit

theorem day_directGet : hours (directGet.env.jwks.now - 1790000000 * 1000000000) < 24 := by
  show hours (1790000060 * 1000000000 - 1790000000 * 1000000000) < 24
  decide

/-- A minute later a token is rejected. -/
theorem verifyJwks_pageManager :
    ∃ code man', (verifyJwksAuthenticationJwt testJwtCpp keysPicojson directGet.env.jwks
      signedToken).run pageManager = (.ret code, man') := by
  have hlocked : LockedOut directGet.env.jwks pageManager :=
    lockedOut_start documentKeys_htmlBody day_directGet
  obtain ⟨store, hstore, hkeys, hclock⟩ := hlocked.store
  have hdecode : testJwtCpp.decode signedToken = .ok signedJwt := by
    simp [testJwtCpp, JwtCpp.ofTable]
  have hw : WellTyped signedJwt := ⟨⟨_, rfl⟩, ⟨_, rfl⟩, ⟨_, rfl⟩, ⟨_, rfl⟩, Or.inl rfl⟩
  have hkid : testJwtCpp.getKeyId signedJwt = .ok (bytes "k1") := rfl
  have hdefined : ¬ StoreBreaks keysPicojson directGet.env.jwks pageManager (bytes "k1") := by
    rintro ⟨store', hstore', hdue, -⟩
    obtain rfl := Option.some.inj (hstore.symm.trans hstore')
    exact absurd hdue.2 (not_le.mpr hclock)
  have hrejected : ¬ KeyAccepts testJwtCpp keysPicojson directGet.env.jwks pageManager signedJwt
      (bytes "k1") := by
    rintro ⟨store', verifier, hstore', hresolved, -⟩
    obtain rfl := Option.some.inj (hstore.symm.trans hstore')
    simp only [resolvedVerifier, hkeys] at hresolved
    rw [if_neg (not_le.mpr hclock)] at hresolved
    cases hresolved
  rcases verifyJwks_of_rejected testJwtCpp keysPicojson hdecode hw hkid hdefined hrejected with
    hret | hret
  · exact ⟨_, Exec.exists_state hret⟩
  · exact ⟨_, Exec.exists_state hret⟩

/-- `GET direct` a minute later. -/
theorem lockout_run_page :
    ∃ out globals', Run (serveStep (keysDeployment tokenQuery)) (loopGlobals pageManager)
        [⟨loopGlobals pageManager, directGet, out, globals'⟩] globals' ∧
      globals'.storeMan = pageManager ∧
        Everywhere (fun _ st => NoSession st)
          [(⟨loopGlobals pageManager, directGet, out, globals'⟩ : ServedStep)] := by
  obtain ⟨code, man', hverify⟩ := verifyJwks_pageManager
  have hcall : (verifyJwksAuthenticationJwt (keysDeployment tokenQuery).jwt
      (keysDeployment tokenQuery).json directGet.env.jwks (CStr.ofBytes signedToken).val).run
        (loopGlobals pageManager).storeMan = (.ret code, man') := by
    rw [ofBytes_signedToken]
    exact hverify
  have hroute : ∃ method path, directGet.req.HasParams method path ∧
      route method.val path.val = .direct := route_directGet directGet.env
  have hstep := serveStep_direct hroute tokenQuery_token tokenQuery_state hcall
  have hrun : Run (serveStep (keysDeployment tokenQuery)) (loopGlobals pageManager)
      [⟨loopGlobals pageManager, directGet, directAnswer (CStr.ofBytes signedToken) none code,
        { loopGlobals pageManager with storeMan := man' }⟩]
      { loopGlobals pageManager with storeMan := man' } := .cons .nil hstep
  exact ⟨_, _, hrun, lockout_run (encodesPlainly_keysDeployment tokenQuery) pageHost_file
    mainInit_pageHost documentKeys_htmlBody hrun ⟨day_directGet, trivial⟩⟩

end FcgiJwtAuth
