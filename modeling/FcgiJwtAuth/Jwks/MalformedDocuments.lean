import FcgiJwtAuth.Jwks.KeyLoading

/-!
# Malformed key documents

The two loaders, of a store and of the manager, are copies of one another. Both look at what the
parser left whether it succeeded or not, read the `keys` member without asking whether there is one,
and take every element of the array for an object; `get_jwk` checks all three.
-/

namespace FcgiJwtAuth

open CLang

variable (J : JwtCpp) (P : Picojson)

/-! ## What a document should give -/

/-- The `keys` array of a text that parses. -/
def keyArray (text : Bytes) : Option (List Json) :=
  match keysMember (P.parse text).1, (P.parse text).2 with
  | .array ary, true => some ary
  | _, _ => none

/-- The elements that are objects. -/
def objectElements : List Json → List Object
  | [] => []
  | .object key :: rest => key :: objectElements rest
  | _ :: rest => objectElements rest

/-- The store with the acceptable keys among some elements. -/
def JwksStore.withKeys (store : JwksStore) (ary : List Json) : JwksStore :=
  { store with
    verifiers := emplaceAll store.verifiers (publishedKeys J (objectElements ary)) }

/-- The loader of a store returns null and changes nothing, or adds the acceptable keys. -/
def StoreLoadsCleanly (text : Bytes) (store : JwksStore) : Prop :=
  (addJwksVerifiersFromString J P text).run store =
    match keyArray P text with
    | none => (.ret false, store)
    | some ary => (.ret true, store.withKeys J ary)

/-- The store that the loader of the manager puts the keys of an issuer into. -/
def issuerStore (env : JwksEnv) (man : Manager) (issuer sourceUrl : Bytes) : JwksStore :=
  (man.stores issuer).getD { srcUrl := sourceUrl, lastFetchTime := env.now }

/-- And the loader of the manager, which makes the store of the issuer if there is none. -/
def ManagerLoadsCleanly (env : JwksEnv) (issuer sourceUrl text : Bytes) (man : Manager) : Prop :=
  (managerAddJwksVerifiersFromString J P env issuer sourceUrl text).run man =
    match keyArray P text with
    | none => (.ret false, man)
    | some ary => (.ret true, { man with
        stores := Function.update man.stores issuer
          (some ((issuerStore env man issuer sourceUrl).withKeys J ary)) })

/-- `get_jwk` skips what is no object. -/
theorem findJwk_objectElements (keyId : Bytes) (ary : List Json) :
    findJwk keyId ((objectElements ary).map Json.object) = findJwk keyId ary := by
  induction ary with
  | nil => rfl
  | cons v rest ih =>
    cases v with
    | object key =>
      rw [objectElements, List.map_cons, findJwk, findJwk, ih]
    | _ => exact ih

/-- It throws exactly when there is no `keys` array to look in. -/
theorem getJwk_eq (text keyId : Bytes) :
    getJwk P text keyId =
      match keyArray P text with
      | none => .error .runtimeError
      | some ary => .ok (findJwk keyId ary) := by
  unfold getJwk keyArray keysMember
  rcases P.parse text with ⟨v, parsed⟩
  cases v with
  | object obj =>
    cases parsed with
    | true =>
      simp only
      cases Object.find obj (bytes "keys") with
      | none => rfl
      | some w => cases w <;> rfl
    | false =>
      simp only
      cases Object.find obj (bytes "keys") with
      | none => rfl
      | some w => cases w <;> rfl
  | _ => rfl

/-! ## What the loaders do -/

variable {env : JwksEnv} {issuer sourceUrl text : Bytes}

/-- The store of the issuer is there after it was asked for. -/
theorem findOrMakeStore_run (env : JwksEnv) (issuer sourceUrl : Bytes) (man : Manager) :
    ∃ man', (findOrMakeStore env issuer sourceUrl).run man =
        (.ret (issuerStore env man issuer sourceUrl), man') ∧ man'.host = man.host ∧
      ∀ store, Function.update man'.stores issuer (some store) =
        Function.update man.stores issuer (some store) := by
  unfold findOrMakeStore issuerStore
  rw [Exec.bind_ret (Exec.run_get man)]
  cases man.stores issuer with
  | some store => exact ⟨man, rfl, rfl, fun _ => rfl⟩
  | none =>
    refine ⟨_, rfl, rfl, fun store => ?_⟩
    exact Function.update_idem _ _ _

/-- The loader of the manager, by what the `keys` member is. -/
theorem managerAddJwksVerifiersFromString_run (env : JwksEnv) (issuer sourceUrl text : Bytes)
    (man : Manager) :
    (managerAddJwksVerifiersFromString J P env issuer sourceUrl text).run man =
      match keysMember (P.parse text).1 with
      | .absent => (.undefined, man)
      | .array ary =>
        let store := issuerStore env man issuer sourceUrl
        (if allObjects ary then .ret true else .throws .runtimeError,
          { man with
            stores := Function.update man.stores issuer
              (some { store with verifiers := loadKeys J store.verifiers ary }) })
      | _ => (.ret false, man) := by
  unfold managerAddJwksVerifiersFromString keysMember
  cases (P.parse text).1 with
  | object obj =>
    simp only
    cases Object.find obj (bytes "keys") with
    | none => rfl
    | some v =>
      cases v with
      | array ary =>
        simp only
        obtain ⟨man', hrun, hhost, hstores⟩ := findOrMakeStore_run env issuer sourceUrl man
        rw [Exec.bind_ret hrun, Exec.run_bind, onIssuer, onStore, Exec.run_on, Exec.run_on,
          addKeys_run]
        simp only [hstores, hhost]
        cases allObjects ary <;> rfl
      | _ => rfl
  | _ => rfl

/-! ## When they do what they should -/

/-- What the parser leaves is no object, or one with a `keys` member; and if that is an array, the
text has parsed and its elements are objects. -/
def Loadable (P : Picojson) (text : Bytes) : Prop :=
  match keysMember (P.parse text).1 with
  | .absent => False
  | .array ary => (P.parse text).2 = true ∧ allObjects ary = true
  | _ => True

theorem leadingObjects_of_allObjects {ary : List Json} (h : allObjects ary = true) :
    leadingObjects ary = objectElements ary := by
  induction ary with
  | nil => rfl
  | cons v rest ih =>
    cases v with
    | object key => rw [leadingObjects, objectElements, ih h]
    | _ => cases h

/-- What both loaders do, beside what they should. -/
theorem loads_eq_iff {σ : Type} {s : σ} {loaded clean : List Json → σ} {text : Bytes}
    (hsame : ∀ ary, allObjects ary = true → loaded ary = clean ary) :
    (match keysMember (P.parse text).1 with
      | .absent => (Outcome.undefined, s)
      | .array ary => (if allObjects ary then .ret true else .throws .runtimeError, loaded ary)
      | _ => (.ret false, s)) =
      (match keyArray P text with
      | none => (.ret false, s)
      | some ary => (.ret true, clean ary)) ↔ Loadable P text := by
  unfold Loadable keyArray
  cases keysMember (P.parse text).1 with
  | absent => simp
  | array ary =>
    cases (P.parse text).2 with
    | false =>
      -- loaded all the same
      cases hall : allObjects ary <;> simp [hall]
    | true =>
      by_cases hall : allObjects ary = true
      · simp [hall, hsame ary hall]
      · simp [hall]
  | _ => simp

theorem storeLoadsCleanly_iff (store : JwksStore) :
    StoreLoadsCleanly J P text store ↔ Loadable P text := by
  unfold StoreLoadsCleanly
  rw [addJwksVerifiersFromString_run]
  refine loads_eq_iff P fun ary hall => ?_
  rw [loadKeys_eq, leadingObjects_of_allObjects hall]
  rfl

theorem managerLoadsCleanly_iff (man : Manager) :
    ManagerLoadsCleanly J P env issuer sourceUrl text man ↔ Loadable P text := by
  unfold ManagerLoadsCleanly
  rw [managerAddJwksVerifiersFromString_run]
  refine loads_eq_iff P fun ary hall => ?_
  rw [loadKeys_eq, leadingObjects_of_allObjects hall]
  rfl

/-- **Both loaders are clean** exactly on the texts that are loadable. -/
theorem loadsCleanly_iff (env : JwksEnv) (issuer sourceUrl text : Bytes) (store : JwksStore)
    (man : Manager) :
    (StoreLoadsCleanly J P text store ↔ Loadable P text) ∧
      (ManagerLoadsCleanly J P env issuer sourceUrl text man ↔ Loadable P text) :=
  ⟨storeLoadsCleanly_iff J P store, managerLoadsCleanly_iff J P man⟩

/-! ## Documents that are not loaded cleanly -/

/-- A parser that knows an object without keys, and an array with a string before the one key. -/
def malformedPicojson : Picojson :=
  .ofTable [(bytes "\x7b\x7d", .object []),
    (bytes "\x7b\"keys\":[\"k0\"," ++ testKeyText (bytes "k1") ++ bytes "]\x7d",
      .object [(bytes "keys", .array [.string (bytes "k0"), .object (testKey (bytes "k1"))])])]

set_option maxRecDepth 20000 in
/-- Neither loader takes the first for a text without keys, or the second for one with a key. -/
theorem loadsCleanly_malformed :
    ¬ StoreLoadsCleanly testJwtCpp malformedPicojson (bytes "\x7b\x7d") {} ∧
      ¬ ManagerLoadsCleanly testJwtCpp malformedPicojson (fetchingEnv [])
        (bytes "microsoft") (bytes "./keys.json") (bytes "\x7b\x7d")
        { stores := fun _ => none, host := { files := fun _ => none, fetches := [] } } ∧
      ¬ StoreLoadsCleanly testJwtCpp malformedPicojson
        (bytes "\x7b\"keys\":[\"k0\"," ++ testKeyText (bytes "k1") ++ bytes "]\x7d") {} := by
  have hempty : ¬ Loadable malformedPicojson (bytes "\x7b\x7d") := id
  have hstring : ¬ Loadable malformedPicojson
      (bytes "\x7b\"keys\":[\"k0\"," ++ testKeyText (bytes "k1") ++ bytes "]\x7d") := by
    rintro ⟨-, hall⟩
    cases hall
  refine ⟨?_, ?_, ?_⟩
  · rwa [storeLoadsCleanly_iff]
  · rwa [managerLoadsCleanly_iff]
  · rwa [storeLoadsCleanly_iff]

end FcgiJwtAuth
