import FcgiJwtAuth.Application.Verify

/-!
# How verification ends

Each way a token can be malformed, followed to the outcome of `verify_jwks_authentication_jwt`: a
return code, an exception that no clause takes, or undefined behaviour in the key refresh.
-/

namespace FcgiJwtAuth

open CLang

variable (J : JwtCpp) (P : Picojson)

/-! ## The signature check -/

/-- The key that the kid resolves to in the `microsoft` store accepts the token. -/
def KeyAccepts (env : JwksEnv) (man : Manager) (jwt : DecodedJwt) (kid : Bytes) : Prop :=
  ∃ store verifier, man.stores (bytes "microsoft") = some store ∧
    resolvedVerifier J P env ⟨store, man.host⟩ kid = some verifier ∧
      J.verify verifier jwt env.verifyNow = .ok ⟨⟩

/-- Looking the kid up in the `microsoft` store has undefined behaviour. -/
def StoreBreaks (env : JwksEnv) (man : Manager) (kid : Bytes) : Prop :=
  ∃ store, man.stores (bytes "microsoft") = some store ∧ LookupBreaks P env ⟨store, man.host⟩ kid

/-- How `verify_jwt` ends on a token that decodes and has a kid. -/
theorem verifyJwt_outcome {jwtStr kid : Bytes} {jwt : DecodedJwt}
    (hdecode : J.decode jwtStr = .ok jwt) (hkid : J.getKeyId jwt = .ok kid) (env : JwksEnv)
    (man : Manager) :
    (((verifyJwt J P env (bytes "microsoft") jwtStr).run man).1 = .ret true ∧
        KeyAccepts J P env man jwt kid ∧ ¬ StoreBreaks P env man kid) ∨
      ¬ KeyAccepts J P env man jwt kid ∧
        (((verifyJwt J P env (bytes "microsoft") jwtStr).run man).1 = .undefined ∧
            StoreBreaks P env man kid ∨
          (((verifyJwt J P env (bytes "microsoft") jwtStr).run man).1 = .ret false ∨
              ((verifyJwt J P env (bytes "microsoft") jwtStr).run man).1 = .throws .runtimeError) ∧
            ¬ StoreBreaks P env man kid) := by
  unfold verifyJwt KeyAccepts StoreBreaks
  rw [Exec.bind_ret (Exec.run_get man)]
  cases hstore : man.stores (bytes "microsoft") with
  | none => simp
  | some store =>
    simp only [hdecode, hkid, Exec.ofExcept_ok, Exec.pure_bind, Option.some.injEq,
      exists_eq_left']
    have hon : ∀ {o}, ((findVerifier J P env kid).run ⟨store, man.host⟩).1 = o →
        ∃ man', (onIssuer (bytes "microsoft") store (findVerifier J P env kid)).run man =
          (o, man') := fun h => Exec.exists_state h
    rcases findVerifier_outcome J P env ⟨store, man.host⟩ kid with
      ⟨hret, hok⟩ | ⟨hnone, ⟨hundef, hbreaks⟩ | ⟨hthrow, hok⟩⟩
    · obtain ⟨man', hrun⟩ := hon hret
      rw [Exec.bind_ret hrun]
      cases hres : resolvedVerifier J P env ⟨store, man.host⟩ kid with
      | none => simp [hres, hok]
      | some verifier =>
        cases hver : J.verify verifier jwt env.verifyNow with
        | ok u => simp [hres, hver, hok]
        | error e => simp [hres, hver, hok]
    · obtain ⟨man', hrun⟩ := hon hundef
      rw [Exec.bind_undefined hrun]
      simp [hnone, hbreaks]
    · obtain ⟨man', hrun⟩ := hon hthrow
      rw [Exec.bind_throws hrun]
      simp [hnone, hok]

/-! ## Behind the signature -/

/-- The token names a user. -/
def NamesUser (jwtStr : Bytes) (jwt : DecodedJwt) : Prop :=
  jwtStr ≠ [] ∧ HasIdentity jwt.payload

theorem tokenUser_isSome_of_decode {jwtStr : Bytes} {jwt : DecodedJwt}
    (hdecode : J.decode jwtStr = .ok jwt) :
    (tokenUser J P jwtStr).isSome ↔ NamesUser jwtStr jwt := by
  simp [tokenUser_isSome, hdecode, NamesUser]

/-- What is read behind the signature ends in 0, 3, or an exception that escapes. -/
theorem readUser_outcome {jwtStr : Bytes} {jwt : DecodedJwt}
    (hdecode : J.decode jwtStr = .ok jwt) (man : Manager) :
    (¬ NamesUser jwtStr jwt ∧ (readUser J P jwt jwtStr).run man = (.ret 3, man)) ∨
      NamesUser jwtStr jwt ∧
        (HasDates jwt ∧ (readUser J P jwt jwtStr).run man = (.ret 0, man) ∨
          ¬ HasDates jwt ∧
            ∃ e, Escapes e ∧ (readUser J P jwt jwtStr).run man = (.throws e, man)) := by
  rw [← tokenUser_isSome_of_decode J P hdecode]
  unfold readUser
  rw [Exec.bind_ret (jwtinterfaceGetUserContext_run J P jwtStr man)]
  cases tokenUser J P jwtStr with
  | none => exact Or.inl ⟨by simp, rfl⟩
  | some ctx =>
    refine Or.inr ⟨rfl, ?_⟩
    rcases checks_readDates J jwt man with ⟨hdates, u, hrun⟩ | ⟨hdates, e, he, hrun⟩
    · exact Or.inl ⟨hdates, Exec.bind_ret hrun⟩
    · exact Or.inr ⟨hdates, e, he, Exec.bind_throws hrun⟩

/-! ## The outcome of a token -/

theorem getKeyId_of_find {jwt : DecodedJwt} {kid : Bytes}
    (h : jwt.header.find (bytes "kid") = some (.string kid)) : J.getKeyId jwt = .ok kid := by
  have hread := J.getKeyId_reads jwt
  unfold ReadsClaim at hread
  rw [h] at hread
  exact hread

/-- The value of the kid header of a well-typed token. -/
theorem WellTyped.exists_kid {jwt : DecodedJwt} (h : WellTyped jwt) :
    ∃ kid, jwt.header.find (bytes "kid") = some (.string kid) ∧ J.getKeyId jwt = .ok kid := by
  obtain ⟨kid, hkid⟩ := h.2.2.1
  exact ⟨kid, hkid, getKeyId_of_find J hkid⟩

section Outcome

variable {env : JwksEnv} {jwtStr : Bytes} {man : Manager}

/-- A token that does not decode is answered with 1. -/
theorem verifyJwks_of_malformed {e : Exn} (h : J.decode jwtStr = .error e) :
    (verifyJwksAuthenticationJwt J P env jwtStr).run man = (.ret 1, man) := by
  apply catchTokenErrors_caught (J.decode_error h)
  rw [verifyTry, h]
  rfl

variable {jwt : DecodedJwt} (hdecode : J.decode jwtStr = .ok jwt)
include hdecode

/-- An absent or ill-typed claim in front of the signature escapes. -/
theorem verifyJwks_of_not_wellTyped (h : ¬ WellTyped jwt) :
    ∃ e, Escapes e ∧
      (verifyJwksAuthenticationJwt J P env jwtStr).run man = (.throws e, man) := by
  rcases checks_readClaims J P jwt man with ⟨hw, -⟩ | ⟨-, e, he, hrun⟩
  · exact absurd hw h
  · refine ⟨e, he, catchTokenErrors_escapes he ?_⟩
    rw [verifyTry, hdecode, Exec.ofExcept_ok, Exec.pure_bind, Exec.bind_throws hrun]

/-- The `try` block behind the claims of a well-typed token. -/
theorem verifyTry_of_wellTyped (h : WellTyped jwt) :
    (verifyTry J P env jwtStr).run man = (verifySignature J P env jwt jwtStr).run man := by
  unfold verifyTry
  rcases checks_readClaims J P jwt man with ⟨-, u, hrun⟩ | ⟨hw, -⟩
  · rw [hdecode, Exec.ofExcept_ok, Exec.pure_bind, Exec.bind_ret hrun]
  · exact absurd h hw

variable {kid : Bytes} (hw : WellTyped jwt) (hkid : J.getKeyId jwt = .ok kid)
include hw hkid

theorem verifyJwks_of_breaks (h : StoreBreaks P env man kid) :
    ((verifyJwksAuthenticationJwt J P env jwtStr).run man).1 = .undefined := by
  rcases verifyJwt_outcome J P hdecode hkid env man with
    ⟨-, -, hok⟩ | ⟨-, ⟨hundef, -⟩ | ⟨-, hok⟩⟩
  · exact absurd h hok
  · obtain ⟨man', hrun⟩ := Exec.exists_state hundef
    have hbody := (verifyTry_of_wellTyped J P hdecode hw).trans (Exec.bind_undefined hrun)
    rw [verifyJwksAuthenticationJwt, catchTokenErrors_undefined hbody]
  · exact absurd h hok

/-- Rejected by the store: 2, or 1 when the refresh failed. -/
theorem verifyJwks_of_rejected (hok : ¬ StoreBreaks P env man kid)
    (h : ¬ KeyAccepts J P env man jwt kid) :
    ((verifyJwksAuthenticationJwt J P env jwtStr).run man).1 = .ret 1 ∨
      ((verifyJwksAuthenticationJwt J P env jwtStr).run man).1 = .ret 2 := by
  rcases verifyJwt_outcome J P hdecode hkid env man with
    ⟨-, hacc, -⟩ | ⟨-, ⟨-, hbad⟩ | ⟨hret | hthrow, -⟩⟩
  · exact absurd hacc h
  · exact absurd hbad hok
  · obtain ⟨man', hrun⟩ := Exec.exists_state hret
    have hbody := (verifyTry_of_wellTyped J P hdecode hw).trans (Exec.bind_ret hrun)
    rw [verifyJwksAuthenticationJwt, catchTokenErrors_ret hbody]
    exact Or.inr rfl
  · obtain ⟨man', hrun⟩ := Exec.exists_state hthrow
    have hbody := (verifyTry_of_wellTyped J P hdecode hw).trans (Exec.bind_throws hrun)
    rw [verifyJwksAuthenticationJwt, catchTokenErrors_caught (Or.inl rfl) hbody]
    exact Or.inl rfl

/-- Accepted by the store: the user and the dates decide. -/
theorem verifyJwks_of_accepted (h : KeyAccepts J P env man jwt kid) :
    (¬ NamesUser jwtStr jwt ∧
        ((verifyJwksAuthenticationJwt J P env jwtStr).run man).1 = .ret 3) ∨
      NamesUser jwtStr jwt ∧
        (HasDates jwt ∧ ((verifyJwksAuthenticationJwt J P env jwtStr).run man).1 = .ret 0 ∨
          ¬ HasDates jwt ∧ ∃ e, Escapes e ∧
            ((verifyJwksAuthenticationJwt J P env jwtStr).run man).1 = .throws e) := by
  rcases verifyJwt_outcome J P hdecode hkid env man with ⟨hret, -, -⟩ | ⟨hrej, -⟩
  · obtain ⟨man', hrun⟩ := Exec.exists_state hret
    have hbody := (verifyTry_of_wellTyped J P hdecode hw).trans (Exec.bind_ret hrun)
    rcases readUser_outcome J P hdecode man' with
      ⟨hno, huser⟩ | ⟨hname, ⟨hdates, huser⟩ | ⟨hdates, e, he, huser⟩⟩
    · rw [verifyJwksAuthenticationJwt, catchTokenErrors_ret (hbody.trans huser)]
      exact Or.inl ⟨hno, rfl⟩
    · rw [verifyJwksAuthenticationJwt, catchTokenErrors_ret (hbody.trans huser)]
      exact Or.inr ⟨hname, Or.inl ⟨hdates, rfl⟩⟩
    · rw [verifyJwksAuthenticationJwt, catchTokenErrors_escapes he (hbody.trans huser)]
      exact Or.inr ⟨hname, Or.inr ⟨hdates, e, he, rfl⟩⟩
  · exact absurd h hrej

end Outcome

/-! ## No exception -/

/-- The call returns one of its four codes. -/
def ReturnsCode (env : JwksEnv) (man : Manager) (jwtStr : Bytes) : Prop :=
  ∃ code, ((verifyJwksAuthenticationJwt J P env jwtStr).run man).1 = .ret code ∧
    (code = 0 ∨ code = 1 ∨ code = 2 ∨ code = 3)

/-- The token does not decode; or its header claims, issuer and audience are there and of their
types, looking its kid up is defined, and if the key accepts it and it names a user, then both dates
are numbers. -/
def ReadableToken (env : JwksEnv) (man : Manager) (jwtStr : Bytes) : Prop :=
  ∀ jwt, J.decode jwtStr = .ok jwt → WellTyped jwt ∧
    ∀ kid, jwt.header.find (bytes "kid") = some (.string kid) →
      ¬ StoreBreaks P env man kid ∧
        (KeyAccepts J P env man jwt kid → NamesUser jwtStr jwt → HasDates jwt)

section Readable

variable {J P} {env : JwksEnv} {man : Manager} {jwtStr : Bytes}

/-- Only a readable token lets the call return. -/
theorem readableToken_of_returns (h : (verifyJwksAuthenticationJwt J P env jwtStr).Returns man) :
    ReadableToken J P env man jwtStr := by
  obtain ⟨code, hret⟩ := h
  intro jwt hdecode
  have hw : WellTyped jwt := by
    by_contra hno
    obtain ⟨e, -, hrun⟩ : ∃ e, Escapes e ∧
        (verifyJwksAuthenticationJwt J P env jwtStr).run man = (.throws e, man) :=
      verifyJwks_of_not_wellTyped J P hdecode hno
    rw [hrun] at hret
    cases hret
  refine ⟨hw, fun kid hkid => ?_⟩
  have hget := getKeyId_of_find J hkid
  refine ⟨fun hbreaks => ?_, fun hacc hname => ?_⟩
  · rw [verifyJwks_of_breaks J P hdecode hw hget hbreaks] at hret
    cases hret
  · by_contra hdates
    rcases verifyJwks_of_accepted J P hdecode hw hget hacc with
      ⟨hno, -⟩ | ⟨-, ⟨hd, -⟩ | ⟨-, e, -, hthrow⟩⟩
    · exact hno hname
    · exact hdates hd
    · rw [hthrow] at hret
      cases hret

theorem ReadableToken.returnsCode (hread : ReadableToken J P env man jwtStr) :
    ReturnsCode J P env man jwtStr := by
  cases hdecode : J.decode jwtStr with
  | error e =>
    exact ⟨1, by rw [verifyJwks_of_malformed J P hdecode], Or.inr (Or.inl rfl)⟩
  | ok jwt =>
    obtain ⟨hw, hkids⟩ := hread jwt hdecode
    obtain ⟨kid, hkid, hget⟩ := hw.exists_kid J
    obtain ⟨hok, hdates⟩ := hkids kid hkid
    by_cases hacc : KeyAccepts J P env man jwt kid
    · rcases verifyJwks_of_accepted J P hdecode hw hget hacc with
        ⟨-, hret⟩ | ⟨hname, ⟨-, hret⟩ | ⟨hno, -⟩⟩
      · exact ⟨3, hret, Or.inr (Or.inr (Or.inr rfl))⟩
      · exact ⟨0, hret, Or.inl rfl⟩
      · exact absurd (hdates hacc hname) hno
    · rcases verifyJwks_of_rejected J P hdecode hw hget hok hacc with hret | hret
      · exact ⟨1, hret, Or.inr (Or.inl rfl)⟩
      · exact ⟨2, hret, Or.inr (Or.inr (Or.inl rfl))⟩

/-- The token decodes, its claims can be read, the key that its kid resolves to accepts it, and it
names a user. -/
def VerifiedToken (J : JwtCpp) (P : Picojson) (env : JwksEnv) (man : Manager) (jwtStr : Bytes) :
    Prop :=
  ∃ jwt kid, J.decode jwtStr = .ok jwt ∧ WellTyped jwt ∧
    jwt.header.find (bytes "kid") = some (.string kid) ∧ KeyAccepts J P env man jwt kid ∧
      NamesUser jwtStr jwt ∧ HasDates jwt

/-- **The code 0** is returned for verified tokens alone. -/
theorem verifyJwks_eq_zero_iff :
    ((verifyJwksAuthenticationJwt J P env jwtStr).run man).1 = .ret 0 ↔
      VerifiedToken J P env man jwtStr := by
  constructor
  · intro hzero
    have hread := readableToken_of_returns ⟨0, hzero⟩
    cases hdecode : J.decode jwtStr with
    | error e =>
      rw [verifyJwks_of_malformed J P hdecode] at hzero
      cases hzero
    | ok jwt =>
      obtain ⟨hw, hkids⟩ := hread jwt hdecode
      obtain ⟨kid, hkid, hget⟩ := hw.exists_kid J
      obtain ⟨hok, hdates⟩ := hkids kid hkid
      have hacc : KeyAccepts J P env man jwt kid := by
        by_contra hno
        rcases verifyJwks_of_rejected J P hdecode hw hget hok hno with hret | hret <;>
          · rw [hret] at hzero
            cases hzero
      have hname : NamesUser jwtStr jwt := by
        rcases verifyJwks_of_accepted J P hdecode hw hget hacc with ⟨-, hret⟩ | ⟨hname, -⟩
        · rw [hret] at hzero
          cases hzero
        · exact hname
      exact ⟨jwt, kid, hdecode, hw, hkid, hacc, hname, hdates hacc hname⟩
  · rintro ⟨jwt, kid, hdecode, hw, hkid, hacc, hname, hdates⟩
    rcases verifyJwks_of_accepted J P hdecode hw (getKeyId_of_find J hkid) hacc with
      ⟨hno, -⟩ | ⟨-, ⟨-, hret⟩ | ⟨hno, -⟩⟩
    · exact absurd hname hno
    · exact hret
    · exact absurd hdates hno

end Readable

/-- **Verification returns a code exactly on readable tokens.** -/
theorem verifyJwks_returnsCode_iff (env : JwksEnv) (man : Manager) (jwtStr : Bytes) :
    ReturnsCode J P env man jwtStr ↔ ReadableToken J P env man jwtStr := by
  constructor
  · rintro ⟨code, hret, -⟩
    exact readableToken_of_returns ⟨code, hret⟩
  · exact ReadableToken.returnsCode

/-- A token whose header `{"alg":"RS256","kid":"k1"}` has no `typ`. -/
def untypedToken : Bytes :=
  bytes ("eyJhbGciOiJSUzI1NiIsImtpZCI6ImsxIn0." ++
    "eyJpc3MiOiJ4IiwiZW1haWwiOiJldmVAZXhhbXBsZS5jb20iLCJuYW1lIjoiRXZlIn0.Zm9yZ2Vk")

/-- What it decodes to. -/
def untypedJwt : DecodedJwt where
  token := untypedToken
  header := [(bytes "alg", .string (bytes "RS256")), (bytes "kid", .string (bytes "k1"))]
  payload := [(bytes "email", .string (bytes "eve@example.com")),
    (bytes "iss", .string (bytes "x")), (bytes "name", .string (bytes "Eve"))]

/-- Reading its `typ` throws `std::out_of_range`, which no clause takes. -/
theorem verifyJwks_untypedToken :
    ¬ ReturnsCode (JwtCpp.ofTable [(untypedToken, untypedJwt)] fun _ _ => false)
      (Picojson.ofTable [])
      { now := 0, curl := .failed, saveRamToFile := fun _ _ files => files, verifyNow := 0 }
      { stores := fun _ => none, host := { files := fun _ => none, fetches := [] } }
      untypedToken := by
  have hdecode : (JwtCpp.ofTable [(untypedToken, untypedJwt)] fun _ _ => false).decode untypedToken
      = .ok untypedJwt := by
    simp [JwtCpp.ofTable]
  have hno : ¬ WellTyped untypedJwt := by
    rintro ⟨⟨typ, htyp⟩, -⟩
    have hnone : untypedJwt.header.find (bytes "typ") = none := by decide
    rw [hnone] at htyp
    cases htyp
  obtain ⟨e, -, hrun⟩ := verifyJwks_of_not_wellTyped _ (Picojson.ofTable []) hdecode hno
  rintro ⟨code, hret, -⟩
  rw [hrun] at hret
  cases hret

end FcgiJwtAuth
