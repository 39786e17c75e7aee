import FcgiJwtAuth.Application.VerifyOutcome
import FcgiJwtAuth.Jwks.Provenance

/-!
# Expired tokens

Every verifier of a store is set up with a leeway of eight years, in the RSA branch and in the EC
branch of `add_key_from_json_object` alike. `verify_jwks_authentication_jwt` reads the expiry behind
the signature check, and prints it.
-/

namespace FcgiJwtAuth

open CLang

/-! ## The time claims -/

/-- How a verifier of jwt-cpp looks at the time claims of a token. -/
structure TimeChecks (J : JwtCpp) where
  /-- What else it checks: the algorithm, and the signature under it. -/
  signed : List Algorithm → DecodedJwt → Prop
  getNotBefore : DecodedJwt → Except Exn ℤ
  getNotBefore_reads : ∀ jwt, ReadsClaim DateValue jwt.payload (bytes "nbf") (getNotBefore jwt)
  /-- With leeway `L` the claims that are there have to satisfy `now ≤ exp + L`, `iat ≤ now + L` and
  `nbf ≤ now + L`. -/
  verify_iff : ∀ v jwt now, J.verify v jwt now = .ok ⟨⟩ ↔ signed v.algorithms jwt ∧
    (jwt.payload.find (bytes "exp") ≠ none →
      ∃ t, J.getExpiresAt jwt = .ok t ∧ now ≤ t + v.leeway) ∧
    (jwt.payload.find (bytes "iat") ≠ none →
      ∃ t, J.getIssuedAt jwt = .ok t ∧ t ≤ now + v.leeway) ∧
    (jwt.payload.find (bytes "nbf") ≠ none → ∃ t, getNotBefore jwt = .ok t ∧ t ≤ now + v.leeway)

/-- The leeway of the verifiers in a store: eight years of 365 days. -/
def keyLeeway : ℕ := 252288000

section

variable {J : JwtCpp} (T : TimeChecks J)

/-- A token that has both dates is inside the window of a leeway. -/
structure TimeChecks.InWindow (leeway : ℕ) (jwt : DecodedJwt) (now : ℤ) : Prop where
  expiresAt : ∃ t, J.getExpiresAt jwt = .ok t ∧ now ≤ t + leeway
  issuedAt : ∃ t, J.getIssuedAt jwt = .ok t ∧ t ≤ now + leeway
  notBefore : jwt.payload.find (bytes "nbf") ≠ none →
    ∃ t, T.getNotBefore jwt = .ok t ∧ t ≤ now + leeway

theorem HasDate.find_ne_none {obj : Object} {key : Bytes} (h : HasDate obj key) :
    obj.find key ≠ none := by
  rcases h with ⟨n, hn⟩ | ⟨bits, hbits⟩ <;> simp [*]

/-- A verifier takes a token with both dates if it is signed and inside the window. -/
theorem TimeChecks.verify_of_hasDates {jwt : DecodedJwt} (hdates : HasDates jwt) (v : Verifier)
    (now : ℤ) :
    J.verify v jwt now = .ok ⟨⟩ ↔ T.signed v.algorithms jwt ∧ T.InWindow v.leeway jwt now := by
  rw [T.verify_iff]
  refine and_congr_right fun _ => ⟨fun ⟨hexp, hiat, hnbf⟩ => ?_, fun h => ?_⟩
  · exact ⟨hexp hdates.2.find_ne_none, hiat hdates.1.find_ne_none, hnbf⟩
  · exact ⟨fun _ => h.expiresAt, fun _ => h.issuedAt, h.notBefore⟩

end

/-! ## The verifiers of a run -/

section

variable {J : JwtCpp} {P : Picojson}

/-- Every verifier of a store was set up by `add_key_from_json_object`. -/
def LoadedVerifiers (verifiers : Verifiers) : Prop :=
  ∀ kid verifier, verifiers kid = some verifier → ∃ alg, verifier = keyVerifier alg

theorem FromDocument.exists_alg {text kid : Bytes} {verifier : Verifier}
    (h : FromDocument J P text kid verifier) : ∃ alg, verifier = keyVerifier alg := by
  obtain ⟨-, -, -, -, alg, -, heq⟩ := h
  exact ⟨alg, heq⟩

/-- In every manager that calls lead to. -/
theorem loadedVerifiers_of_run {host : Host} {h : Calls} {man : Manager}
    (hrun : Run (callStep J P) (emptyManager host) h man) (issuer : Bytes) :
    LoadedVerifiers (issuerVerifiers man issuer) := by
  intro kid verifier hkid
  obtain ⟨text, -, hfrom⟩ := provenanced_of_run hrun issuer kid verifier hkid
  exact hfrom.exists_alg

/-- A refresh that a lookup makes brings verifiers of this kind alone. -/
theorem LoadedVerifiers.resolved {env : JwksEnv} {s : StoreIn} {kid : Bytes} {verifier : Verifier}
    (hloaded : LoadedVerifiers s.store.verifiers)
    (h : resolvedVerifier J P env s kid = some verifier) : ∃ alg, verifier = keyVerifier alg := by
  have hret : ((findVerifier J P env kid).run s).1 = .ret (some verifier) := by
    rcases findVerifier_outcome J P env s kid with ⟨hret, -⟩ | ⟨hnone, -⟩
    · rw [hret, h]
    · rw [hnone] at h
      cases h
  obtain ⟨s', hrun⟩ := Exec.exists_state hret
  have hafter := findVerifier_returned hrun
  have hadds := addsFrom_findVerifier (J := J) (P := P) env s kid
  rw [hrun] at hadds
  rcases hadds kid verifier hafter.symm with hbefore | ⟨text, -, hfrom⟩
  · exact hloaded kid verifier hbefore
  · exact hfrom.exists_alg

/-! ## What is accepted -/

/-- The token passes every check but those of its times: it decodes, its claims can be read, it is
signed under the key that its kid resolves to, and it names a user. -/
def AcceptedButForTimes (T : TimeChecks J) (P : Picojson) (env : JwksEnv) (man : Manager)
    (jwtStr : Bytes) (jwt : DecodedJwt) : Prop :=
  J.decode jwtStr = .ok jwt ∧ WellTyped jwt ∧ NamesUser jwtStr jwt ∧ HasDates jwt ∧
    ∃ kid store alg, jwt.header.find (bytes "kid") = some (.string kid) ∧
      man.stores (bytes "microsoft") = some store ∧
      resolvedVerifier J P env ⟨store, man.host⟩ kid = some (keyVerifier alg) ∧ T.signed [alg] jwt

/-- **What is answered with 0**: the tokens that pass every other check and are inside the window of
the leeway. -/
theorem verifyJwks_eq_zero_iff_inWindow (T : TimeChecks J) (env : JwksEnv) (jwtStr : Bytes)
    {man : Manager} (hloaded : LoadedVerifiers (issuerVerifiers man (bytes "microsoft"))) :
    ((verifyJwksAuthenticationJwt J P env jwtStr).run man).1 = .ret 0 ↔
      ∃ jwt, AcceptedButForTimes T P env man jwtStr jwt ∧
        T.InWindow keyLeeway jwt env.verifyNow := by
  rw [verifyJwks_eq_zero_iff]
  constructor
  · rintro ⟨jwt, kid, hdecode, hw, hkid, ⟨store, verifier, hstore, hresolved, hverify⟩, hname,
      hdates⟩
    rw [issuerVerifiers_of_some hstore] at hloaded
    obtain ⟨alg, rfl⟩ := hloaded.resolved hresolved
    obtain ⟨hsigned, hwindow⟩ := (T.verify_of_hasDates hdates _ _).mp hverify
    exact ⟨jwt, ⟨hdecode, hw, hname, hdates, kid, store, alg, hkid, hstore, hresolved, hsigned⟩,
      hwindow⟩
  · rintro ⟨jwt, ⟨hdecode, hw, hname, hdates, kid, store, alg, hkid, hstore, hresolved, hsigned⟩,
      hwindow⟩
    have hverify := (T.verify_of_hasDates hdates (keyVerifier alg) _).mpr ⟨hsigned, hwindow⟩
    exact ⟨jwt, kid, hdecode, hw, hkid, ⟨store, _, hstore, hresolved, hverify⟩, hname, hdates⟩

/-- A token whose expiry has passed is not answered with 0. -/
def RefusesExpired (J : JwtCpp) (P : Picojson) (env : JwksEnv) (man : Manager) (jwtStr : Bytes) :
    Prop :=
  ∀ jwt t, J.decode jwtStr = .ok jwt → J.getExpiresAt jwt = .ok t → t < env.verifyNow →
    ((verifyJwksAuthenticationJwt J P env jwtStr).run man).1 ≠ .ret 0

/-- **An expired token is refused exactly when** something else is wrong with it, or it is outside
of the window of eight years. -/
theorem refusesExpired_iff (T : TimeChecks J) {host : Host} {h : Calls} {man : Manager}
    (hrun : Run (callStep J P) (emptyManager host) h man) (env : JwksEnv) (jwtStr : Bytes) :
    RefusesExpired J P env man jwtStr ↔
      ∀ jwt t, J.decode jwtStr = .ok jwt → J.getExpiresAt jwt = .ok t → t < env.verifyNow →
        AcceptedButForTimes T P env man jwtStr jwt → ¬ T.InWindow keyLeeway jwt env.verifyNow := by
  have hzero := verifyJwks_eq_zero_iff_inWindow (P := P) T env jwtStr
    (loadedVerifiers_of_run hrun (bytes "microsoft"))
  constructor
  · intro hrefuses jwt t hdecode hexp hlate haccepted hwindow
    exact hrefuses jwt t hdecode hexp hlate (hzero.mpr ⟨jwt, haccepted, hwindow⟩)
  · intro hcond jwt t hdecode hexp hlate hret
    obtain ⟨jwt', haccepted, hwindow⟩ := hzero.mp hret
    obtain rfl : jwt = jwt' := Except.ok.inj (hdecode.symm.trans haccepted.1)
    exact hcond jwt t hdecode hexp hlate haccepted hwindow

end

/-! ## A token that has expired -/

/-- The date is there, can be read, and satisfies the bound; or it is not there. -/
def dateWithin (obj : Object) (key : Bytes) (bound : ℤ → Prop) [DecidablePred bound] : Bool :=
  match obj.find key with
  | none => true
  | some v =>
    match dateValue v with
    | .ok t => bound t
    | .error _ => false

theorem dateWithin_iff (obj : Object) (key : Bytes) (bound : ℤ → Prop) [DecidablePred bound] :
    dateWithin obj key bound = true ↔
      (obj.find key ≠ none → ∃ t, readClaim dateValue obj key = .ok t ∧ bound t) := by
  unfold dateWithin readClaim
  cases obj.find key with
  | none => simp
  | some v => cases hv : dateValue v <;> simp [hv]

/-- A verifier for the token of the test data that looks at the times. -/
def datedVerify (v : Verifier) (jwt : DecodedJwt) (now : ℤ) : Except Exn PUnit :=
  if (v.algorithms = [.es256 testPem] ∧ jwt.token = signedToken) ∧
      dateWithin jwt.payload (bytes "exp") (fun t => now ≤ t + v.leeway) ∧
      dateWithin jwt.payload (bytes "iat") (fun t => t ≤ now + v.leeway) ∧
      dateWithin jwt.payload (bytes "nbf") (fun t => t ≤ now + v.leeway) then .ok ⟨⟩
  else .error .systemError

/-- The library of the test data, with it. -/
def datedJwtCpp : JwtCpp := { testJwtCpp with verify := datedVerify }

theorem datedVerify_iff (v : Verifier) (jwt : DecodedJwt) (now : ℤ) :
    datedVerify v jwt now = .ok ⟨⟩ ↔
      (v.algorithms = [.es256 testPem] ∧ jwt.token = signedToken) ∧
        dateWithin jwt.payload (bytes "exp") (fun t => now ≤ t + v.leeway) ∧
        dateWithin jwt.payload (bytes "iat") (fun t => t ≤ now + v.leeway) ∧
        dateWithin jwt.payload (bytes "nbf") (fun t => t ≤ now + v.leeway) := by
  rw [datedVerify]
  split_ifs with hall
  · exact iff_of_true rfl hall
  · exact iff_of_false (by simp) hall

/-- It looks at them as jwt-cpp does. -/
def datedChecks : TimeChecks datedJwtCpp where
  signed algorithms jwt := algorithms = [.es256 testPem] ∧ jwt.token = signedToken
  getNotBefore jwt := readClaim dateValue jwt.payload (bytes "nbf")
  getNotBefore_reads _ := readsClaim_readClaim dateValue_law _ _
  verify_iff v jwt now := (datedVerify_iff v jwt now).trans <| and_congr_right fun _ =>
    and_congr (dateWithin_iff _ _ _) (and_congr (dateWithin_iff _ _ _) (dateWithin_iff _ _ _))

/-- The key set of the test data is loaded. -/
theorem exists_run_datedJwtCpp :
    ∃ h, Run (callStep datedJwtCpp testPicojson)
      (emptyManager { files := fun _ => none, fetches := [] }) h (loadedManager fun _ => none) := by
  have hmake : callStep datedJwtCpp testPicojson
      (emptyManager { files := fun _ => none, fetches := [] })
      (.getOrCreateStore (bytes "microsoft")) = some (.ret .done, newStoreManager) := rfl
  have hload : callStep datedJwtCpp testPicojson newStoreManager
      (.loadStore (bytes "microsoft") (testKeys (bytes "k1"))) =
        some (.ret (.loaded true), loadedManager fun _ => none) := by
    -- loading does not look at the verifier
    have hsame : (ManagerCall.loadStore (bytes "microsoft") (testKeys (bytes "k1"))).exec
        datedJwtCpp testPicojson = (ManagerCall.loadStore (bytes "microsoft")
          (testKeys (bytes "k1"))).exec testJwtCpp testPicojson := rfl
    rw [callStep, Exec.step, hsame, loadStore_newStoreManager]
  exact ⟨_, .cons (.cons .nil hmake) hload⟩

/-- A call with the clock at that second. -/
def clockAt (now : ℤ) : JwksEnv := { fetchingEnv [] with verifyNow := now }

theorem datedJwtCpp_decode : datedJwtCpp.decode signedToken = .ok signedJwt := by
  simp [datedJwtCpp, testJwtCpp, JwtCpp.ofTable]

theorem datedJwtCpp_getExpiresAt : datedJwtCpp.getExpiresAt signedJwt = .ok 1790003600 := by
  have hexp : signedJwt.payload.find (bytes "exp") = some (.int 1790003600) := rfl
  show readClaim dateValue signedJwt.payload (bytes "exp") = _
  rw [readClaim, hexp]
  rfl

theorem datedJwtCpp_getIssuedAt : datedJwtCpp.getIssuedAt signedJwt = .ok 1790000000 := by
  have hiat : signedJwt.payload.find (bytes "iat") = some (.int 1790000000) := rfl
  show readClaim dateValue signedJwt.payload (bytes "iat") = _
  rw [readClaim, hiat]
  rfl

/-- The token of the test data passes every check but those of its times. -/
theorem acceptedButForTimes_signedToken (now : ℤ) :
    AcceptedButForTimes datedChecks testPicojson (clockAt now) (loadedManager fun _ => none)
      signedToken signedJwt := by
  have htyped : WellTyped signedJwt :=
    ⟨⟨_, rfl⟩, ⟨_, rfl⟩, ⟨_, rfl⟩, ⟨_, rfl⟩, Or.inl rfl⟩
  have huser : NamesUser signedToken signedJwt :=
    ⟨by decide +kernel, Or.inl ⟨_, rfl⟩, ⟨_, rfl⟩⟩
  have hdates : HasDates signedJwt := ⟨Or.inl ⟨_, rfl⟩, Or.inl ⟨_, rfl⟩⟩
  refine ⟨datedJwtCpp_decode, htyped, huser, hdates, bytes "k1", loadedStore, .es256 testPem, rfl,
    loadedManager_stores _, ?_, rfl, rfl⟩
  rw [resolvedVerifier, loadedStore_verifiers]

/-- One second after its expiry the token of the test data is answered with 0. -/
theorem not_refusesExpired_signedToken :
    (∃ h, Run (callStep datedJwtCpp testPicojson)
      (emptyManager { files := fun _ => none, fetches := [] }) h (loadedManager fun _ => none)) ∧
    ¬ RefusesExpired datedJwtCpp testPicojson (clockAt 1790003601) (loadedManager fun _ => none)
      signedToken := by
  obtain ⟨h, hrun⟩ := exists_run_datedJwtCpp
  refine ⟨⟨h, hrun⟩, fun hrefuses => ?_⟩
  have hwindow : datedChecks.InWindow keyLeeway signedJwt 1790003601 :=
    ⟨⟨_, datedJwtCpp_getExpiresAt, by decide⟩, ⟨_, datedJwtCpp_getIssuedAt, by decide⟩,
      fun hno => absurd rfl hno⟩
  refine hrefuses signedJwt 1790003600 datedJwtCpp_decode datedJwtCpp_getExpiresAt (by decide) ?_
  exact (verifyJwks_eq_zero_iff_inWindow datedChecks _ _ (loadedVerifiers_of_run hrun _)).mpr
    ⟨signedJwt, acceptedButForTimes_signedToken _, hwindow⟩

/-- Eight years and a second after its expiry it is refused. -/
theorem refusesExpired_signedToken :
    RefusesExpired datedJwtCpp testPicojson (clockAt (1790003601 + 252288000))
      (loadedManager fun _ => none) signedToken := by
  obtain ⟨h, hrun⟩ := exists_run_datedJwtCpp
  refine (refusesExpired_iff datedChecks hrun _ _).mpr ?_
  intro jwt t hdecode hexp _ _ hwindow
  obtain rfl : signedJwt = jwt := Except.ok.inj (datedJwtCpp_decode.symm.trans hdecode)
  obtain ⟨t', hread, hlate⟩ := hwindow.expiresAt
  obtain rfl : 1790003600 = t' := Except.ok.inj (datedJwtCpp_getExpiresAt.symm.trans hread)
  exact absurd hlate (by decide)

end FcgiJwtAuth
