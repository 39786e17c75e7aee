import FcgiJwtAuth.CLang.Emplace
import FcgiJwtAuth.Jwks.FindVerifier

/-!
# Loading a key set

Which entries of a key set the store takes (`Acceptable`), and what the store holds afterwards: the
entries that are taken are put in one after the other, with the rules of `try_emplace`.
-/

namespace FcgiJwtAuth

open CLang

variable (J : JwtCpp) (P : Picojson)

/-! ## Acceptable entries -/

/-- The key material of an entry, of which an algorithm can be built. -/
inductive KeyMaterial (key : Object) : Algorithm → Prop
  | rsa {n e pubkey : Bytes} {alg : Algorithm} :
    key.find (bytes "kty") = some (.string (bytes "RSA")) →
    key.find (bytes "n") = some (.string n) → key.find (bytes "e") = some (.string e) →
    J.createPublicKeyFromRsaComponents n e = .ok pubkey → J.rs256 pubkey = .ok alg →
    KeyMaterial key alg
  | ec {x y pubkey : Bytes} {alg : Algorithm} :
    key.find (bytes "kty") = some (.string (bytes "EC")) →
    key.find (bytes "crv") = some (.string (bytes "P-256")) →
    key.find (bytes "x") = some (.string x) → key.find (bytes "y") = some (.string y) →
    J.createPublicKeyFromEcComponents (bytes "P-256") x y = .ok pubkey →
    J.es256 pubkey = .ok alg → KeyMaterial key alg

/-- An entry that the store takes: a kid, and key material. -/
structure Acceptable (key : Object) (kid : Bytes) (alg : Algorithm) : Prop where
  kid : key.find (bytes "kid") = some (.string kid)
  material : KeyMaterial J key alg

/-- The algorithm of the first entry that is taken for a kid. -/
inductive FirstAcceptable (kid : Bytes) : List Object → Algorithm → Prop
  | here {key : Object} {rest : List Object} {alg : Algorithm} :
    Acceptable J key kid alg → FirstAcceptable kid (key :: rest) alg
  | there {key : Object} {rest : List Object} {alg : Algorithm} :
    (∀ alg', ¬ Acceptable J key kid alg') → FirstAcceptable kid rest alg →
    FirstAcceptable kid (key :: rest) alg

theorem string?_eq_some_iff {v : Json} {s : Bytes} : v.string? = some s ↔ v = .string s := by
  cases v <;> simp [Json.string?]

theorem find_string?_eq_some_iff {key : Object} {name s : Bytes} :
    (key.find name).bind Json.string? = some s ↔ key.find name = some (.string s) := by
  rw [Option.bind_eq_some_iff]
  constructor
  · rintro ⟨v, hv, hs⟩
    rw [hv, string?_eq_some_iff.mp hs]
  · intro h
    exact ⟨_, h, rfl⟩

theorem atString_eq_ok_iff {key : Object} {name s : Bytes} :
    atString key name = .ok s ↔ key.find name = some (.string s) := by
  unfold atString
  cases key.find name with
  | none => simp
  | some v => cases v <;> simp

theorem keyAlgorithm_rsa_iff {key : Object} {alg : Algorithm} :
    keyAlgorithm J (bytes "RSA") key = .ok (some alg) ↔
      ∃ n e pubkey, key.find (bytes "n") = some (.string n) ∧
        key.find (bytes "e") = some (.string e) ∧
        J.createPublicKeyFromRsaComponents n e = .ok pubkey ∧ J.rs256 pubkey = .ok alg := by
  rw [keyAlgorithm, if_pos rfl]
  simp only [except_bind_eq_ok_iff, atString_eq_ok_iff, pure, Except.pure, Except.ok.injEq,
    Option.some.injEq]
  constructor
  · rintro ⟨n, hn, e, he, pubkey, hpub, rsaAlg, halg, rfl⟩
    exact ⟨n, e, pubkey, hn, he, hpub, halg⟩
  · rintro ⟨n, e, pubkey, hn, he, hpub, halg⟩
    exact ⟨n, hn, e, he, pubkey, hpub, alg, halg, rfl⟩

theorem keyAlgorithm_ec_iff {key : Object} {alg : Algorithm} :
    keyAlgorithm J (bytes "EC") key = .ok (some alg) ↔
      ∃ x y pubkey, key.find (bytes "crv") = some (.string (bytes "P-256")) ∧
        key.find (bytes "x") = some (.string x) ∧ key.find (bytes "y") = some (.string y) ∧
        J.createPublicKeyFromEcComponents (bytes "P-256") x y = .ok pubkey ∧
        J.es256 pubkey = .ok alg := by
  have hne : bytes "EC" ≠ bytes "RSA" := by decide
  rw [keyAlgorithm, if_neg hne, if_pos rfl]
  simp only [except_bind_eq_ok_iff, atString_eq_ok_iff]
  constructor
  · rintro ⟨crv, hcrv, x, hx, y, hy, h⟩
    by_cases hcurve : crv = bytes "P-256"
    · subst hcurve
      rw [if_pos rfl] at h
      simp only [except_bind_eq_ok_iff, pure, Except.pure, Except.ok.injEq,
        Option.some.injEq] at h
      obtain ⟨pubkey, hpub, ecAlg, halg, rfl⟩ := h
      exact ⟨x, y, pubkey, hcrv, hx, hy, hpub, halg⟩
    · rw [if_neg hcurve] at h
      cases h
  · rintro ⟨x, y, pubkey, hcrv, hx, hy, hpub, halg⟩
    refine ⟨_, hcrv, x, hx, y, hy, ?_⟩
    rw [if_pos rfl]
    simp only [except_bind_eq_ok_iff, pure, Except.pure, Except.ok.injEq, Option.some.injEq]
    exact ⟨pubkey, hpub, alg, halg, rfl⟩

/-- Another key type is not supported. -/
theorem keyAlgorithm_of_ne {kty : Bytes} {key : Object} (hrsa : kty ≠ bytes "RSA")
    (hec : kty ≠ bytes "EC") : keyAlgorithm J kty key = .ok none := by
  rw [keyAlgorithm, if_neg hrsa, if_neg hec]
  rfl

/-- The key material of an entry is what its `kty` asks for. -/
theorem keyMaterial_iff {key : Object} {alg : Algorithm} :
    KeyMaterial J key alg ↔
      ∃ kty, key.find (bytes "kty") = some (.string kty) ∧
        keyAlgorithm J kty key = .ok (some alg) := by
  constructor
  · intro h
    cases h with
    | rsa hkty hn he hpub halg =>
      exact ⟨_, hkty, (keyAlgorithm_rsa_iff J).mpr ⟨_, _, _, hn, he, hpub, halg⟩⟩
    | ec hkty hcrv hx hy hpub halg =>
      exact ⟨_, hkty, (keyAlgorithm_ec_iff J).mpr ⟨_, _, _, hcrv, hx, hy, hpub, halg⟩⟩
  · rintro ⟨kty, hkty, halg⟩
    by_cases hrsa : kty = bytes "RSA"
    · subst hrsa
      obtain ⟨n, e, pubkey, hn, he, hpub, h⟩ := (keyAlgorithm_rsa_iff J).mp halg
      exact .rsa hkty hn he hpub h
    · by_cases hec : kty = bytes "EC"
      · subst hec
        obtain ⟨x, y, pubkey, hcrv, hx, hy, hpub, h⟩ := (keyAlgorithm_ec_iff J).mp halg
        exact .ec hkty hcrv hx hy hpub h
      · rw [keyAlgorithm_of_ne J hrsa hec] at halg
        cases halg

/-- **The entries that the store takes.** -/
theorem acceptableKey_eq_some_iff {key : Object} {kid : Bytes} {alg : Algorithm} :
    acceptableKey J key = some (kid, alg) ↔ Acceptable J key kid alg := by
  constructor
  · intro h
    unfold acceptableKey at h
    split at h
    · rename_i kid' kty hkid hkty
      split at h
      · rename_i alg' halg
        obtain ⟨rfl, rfl⟩ := Prod.mk.inj (Option.some.inj h)
        exact ⟨find_string?_eq_some_iff.mp hkid,
          (keyMaterial_iff J).mpr ⟨kty, find_string?_eq_some_iff.mp hkty, halg⟩⟩
      · cases h
    · cases h
  · rintro ⟨hkid, hmaterial⟩
    obtain ⟨kty, hkty, halg⟩ := (keyMaterial_iff J).mp hmaterial
    simp only [acceptableKey, find_string?_eq_some_iff.mpr hkid, find_string?_eq_some_iff.mpr hkty,
      halg]

theorem acceptableKey_eq_none_iff {key : Object} :
    acceptableKey J key = none ↔ ∀ kid alg, ¬ Acceptable J key kid alg := by
  rw [Option.eq_none_iff_forall_ne_some]
  constructor
  · intro h kid alg hacc
    exact h _ ((acceptableKey_eq_some_iff J).mpr hacc)
  · rintro h ⟨kid, alg⟩ heq
    exact h kid alg ((acceptableKey_eq_some_iff J).mp heq)

/-! ## What is put in -/

/-- The verifiers that the entries stand for, in order. -/
def publishedKeys (entries : List Object) : List (Bytes × Verifier) :=
  entries.filterMap fun key => (acceptableKey J key).map fun k => (k.1, keyVerifier k.2)

theorem publishedKeys_append (entries entries' : List Object) :
    publishedKeys J (entries ++ entries') = publishedKeys J entries ++ publishedKeys J entries' :=
  List.filterMap_append

theorem publishedKeys_cons_of_acceptable {key : Object} {kid : Bytes} {alg : Algorithm}
    (h : Acceptable J key kid alg) (rest : List Object) :
    publishedKeys J (key :: rest) = (kid, keyVerifier alg) :: publishedKeys J rest := by
  apply List.filterMap_cons_some
  rw [(acceptableKey_eq_some_iff J).mpr h]
  rfl

theorem publishedKeys_cons_of_rejected {key : Object} (h : acceptableKey J key = none)
    (rest : List Object) : publishedKeys J (key :: rest) = publishedKeys J rest := by
  apply List.filterMap_cons_none
  rw [h]
  rfl

/-- A pair is among them when an entry was taken for it. -/
theorem mem_publishedKeys_iff {entries : List Object} {kid : Bytes} {verifier : Verifier} :
    (kid, verifier) ∈ publishedKeys J entries ↔
      ∃ key ∈ entries, ∃ alg, Acceptable J key kid alg ∧ verifier = keyVerifier alg := by
  rw [publishedKeys, List.mem_filterMap]
  constructor
  · rintro ⟨key, hkey, heq⟩
    obtain ⟨⟨kid', alg⟩, hacc, hpair⟩ := Option.map_eq_some_iff.mp heq
    obtain ⟨rfl, rfl⟩ := Prod.mk.inj hpair
    exact ⟨key, hkey, alg, (acceptableKey_eq_some_iff J).mp hacc, rfl⟩
  · rintro ⟨key, hkey, alg, hacc, rfl⟩
    refine ⟨key, hkey, ?_⟩
    rw [(acceptableKey_eq_some_iff J).mpr hacc]
    rfl

/-- An entry is taken with one algorithm. -/
theorem Acceptable.unique {key : Object} {kid : Bytes} {alg alg' : Algorithm}
    (h : Acceptable J key kid alg) (h' : Acceptable J key kid alg') : alg = alg' := by
  have heq := ((acceptableKey_eq_some_iff J).mpr h).symm.trans
    ((acceptableKey_eq_some_iff J).mpr h')
  exact (Prod.mk.inj (Option.some.inj heq)).2

/-- An entry that is rejected, or taken for another kid, is passed over. -/
theorem lookup_publishedKeys_of_not_acceptable {key : Object} {kid : Bytes} {rest : List Object}
    (hno : ∀ alg, ¬ Acceptable J key kid alg) :
    (publishedKeys J (key :: rest)).lookup kid = (publishedKeys J rest).lookup kid := by
  cases hkey : acceptableKey J key with
  | none => rw [publishedKeys_cons_of_rejected J hkey]
  | some k =>
    obtain ⟨kid', alg⟩ := k
    have hacc := (acceptableKey_eq_some_iff J).mp hkey
    have hne : (kid == kid') = false := by
      refine beq_eq_false_iff_ne.mpr ?_
      rintro rfl
      exact hno alg hacc
    rw [publishedKeys_cons_of_acceptable J hacc, List.lookup_cons, hne]

/-- The first pair of a kid comes from the first entry that is taken for it. -/
theorem lookup_publishedKeys_iff {entries : List Object} {kid : Bytes} {verifier : Verifier} :
    (publishedKeys J entries).lookup kid = some verifier ↔
      ∃ alg, FirstAcceptable J kid entries alg ∧ verifier = keyVerifier alg := by
  induction entries with
  | nil =>
    constructor
    · intro h
      cases h
    · rintro ⟨alg, hfirst, -⟩
      cases hfirst
  | cons key rest ih =>
    by_cases htaken : ∃ alg, Acceptable J key kid alg
    · -- the first entry is taken for the kid
      obtain ⟨alg, hacc⟩ := htaken
      rw [publishedKeys_cons_of_acceptable J hacc, List.lookup_cons_self]
      constructor
      · intro h
        exact ⟨alg, .here hacc, (Option.some.inj h).symm⟩
      · rintro ⟨alg', hfirst, rfl⟩
        cases hfirst with
        | here hacc' =>
          rw [hacc.unique J hacc']
        | there hno => exact absurd hacc (hno alg)
    · -- it is rejected, or taken for another kid
      have hno : ∀ alg, ¬ Acceptable J key kid alg := fun alg hacc => htaken ⟨alg, hacc⟩
      rw [lookup_publishedKeys_of_not_acceptable J hno, ih]
      constructor
      · rintro ⟨alg, hfirst, heq⟩
        exact ⟨alg, .there hno hfirst, heq⟩
      · rintro ⟨alg, hfirst, heq⟩
        cases hfirst with
        | here hacc => exact absurd hacc (hno alg)
        | there _ hfirst => exact ⟨alg, hfirst, heq⟩

theorem emplace_eq (verifiers : Verifiers) (kid : Bytes) (alg : Algorithm) :
    emplace verifiers kid alg = tryInsert verifiers kid (keyVerifier alg) := by
  unfold emplace tryInsert
  cases verifiers kid <;> rfl

/-- **Loading an array** puts in the verifiers of its leading objects. -/
theorem loadKeys_eq (verifiers : Verifiers) (ary : List Json) :
    loadKeys J verifiers ary = emplaceAll verifiers (publishedKeys J (leadingObjects ary)) := by
  unfold loadKeys
  induction leadingObjects ary generalizing verifiers with
  | nil => rfl
  | cons key rest ih =>
    rw [List.foldl_cons, ih]
    cases hkey : acceptableKey J key with
    | none =>
      rw [publishedKeys_cons_of_rejected J hkey]
      simp only [loadKey, hkey]
    | some k =>
      obtain ⟨kid, alg⟩ := k
      rw [publishedKeys_cons_of_acceptable J ((acceptableKey_eq_some_iff J).mp hkey),
        emplaceAll_cons, ← emplace_eq]
      simp only [loadKey, hkey]

/-! ## Key sets -/

/-- The text is an object with a `keys` array of these objects. -/
def KeySet (text : Bytes) (entries : List Object) : Prop :=
  ∃ obj, (P.parse text).1 = .object obj ∧
    Object.find obj (bytes "keys") = some (.array (entries.map Json.object))

theorem leadingObjects_map (entries : List Object) :
    leadingObjects (entries.map Json.object) = entries := by
  induction entries with
  | nil => rfl
  | cons key rest ih => rw [List.map_cons, leadingObjects, ih]

theorem allObjects_map (entries : List Object) : allObjects (entries.map Json.object) = true := by
  induction entries with
  | nil => rfl
  | cons key rest ih => rw [List.map_cons, allObjects, ih]

variable {P}

theorem KeySet.keysMember {text : Bytes} {entries : List Object} (h : KeySet P text entries) :
    keysMember (P.parse text).1 = .array (entries.map Json.object) := by
  obtain ⟨obj, hobj, hkeys⟩ := h
  simp only [FcgiJwtAuth.keysMember, hobj, hkeys]

/-- Loading a key set returns, with the verifiers of its entries put in. -/
theorem addJwksVerifiersFromString_run_of_keySet {text : Bytes} {entries : List Object}
    (h : KeySet P text entries) (store : JwksStore) :
    (addJwksVerifiersFromString J P text).run store =
      (.ret true, { store with
        verifiers := emplaceAll store.verifiers (publishedKeys J entries) }) := by
  rw [addJwksVerifiersFromString_run, h.keysMember]
  simp only [allObjects_map, if_true, loadKeys_eq, leadingObjects_map]

/-- A store before and after a key set was loaded. -/
structure LoadsKeySet (entries : List Object) (store store' : JwksStore) : Prop where
  kept : ∀ kid verifier, store.verifiers kid = some verifier → store'.verifiers kid = some verifier
  added : ∀ kid, store.verifiers kid = none → ∀ verifier, store'.verifiers kid = some verifier ↔
    ∃ alg, FirstAcceptable J kid entries alg ∧ verifier = keyVerifier alg
  others : store' = { store with verifiers := store'.verifiers }

theorem loadsKeySet (entries : List Object) (store : JwksStore) :
    LoadsKeySet J entries store { store with
      verifiers := emplaceAll store.verifiers (publishedKeys J entries) } where
  kept _ _ hkid := emplaceAll_of_some hkid _
  added kid hkid verifier := by
    rw [← lookup_publishedKeys_iff, ← emplaceAll_of_none hkid]
  others := rfl

/-- An entry that is not taken changes nothing. -/
theorem addKeyFromJsonObject_run_of_rejected {key : Object}
    (h : ∀ kid alg, ¬ Acceptable J key kid alg) (store : JwksStore) :
    (addKeyFromJsonObject J key).run store = (.ret false, store) := by
  have hnone := (acceptableKey_eq_none_iff J).mpr h
  unfold addKeyFromJsonObject
  rcases hkid : (key.find (bytes "kid")).bind Json.string? with _ | kid
  · rfl
  rcases hkty : (key.find (bytes "kty")).bind Json.string? with _ | kty
  · rfl
  show (Exec.catching (Exec.ofExcept (keyAlgorithm J kty key) >>= _) _).run store = _
  simp only [acceptableKey, hkid, hkty] at hnone
  rcases halg : keyAlgorithm J kty key with e | alg?
  · rfl
  rcases alg? with _ | alg
  · rfl
  · simp only [halg] at hnone
    cases hnone

/-- **Loading a key set** keeps what is there and adds the first acceptable entry of each new kid;
an entry that is not acceptable adds nothing; the halves of an array can be loaded one after the
other; and a second time makes no difference. -/
theorem addJwksVerifiersFromString_keySet :
    (∀ text entries, KeySet P text entries → ∀ store, ∃ store',
      (addJwksVerifiersFromString J P text).run store = (.ret true, store') ∧
        LoadsKeySet J entries store store') ∧
    (∀ key, (∀ kid alg, ¬ Acceptable J key kid alg) → ∀ store,
      (addKeyFromJsonObject J key).run store = (.ret false, store)) ∧
    (∀ whole front back entries entries', KeySet P whole (entries ++ entries') →
      KeySet P front entries → KeySet P back entries' → ∀ store,
      (addJwksVerifiersFromString J P whole).run store =
        (do
          let _ ← addJwksVerifiersFromString J P front
          addJwksVerifiersFromString J P back).run store) ∧
    (∀ text entries, KeySet P text entries → ∀ store,
      (do
        let _ ← addJwksVerifiersFromString J P text
        addJwksVerifiersFromString J P text).run store =
        (addJwksVerifiersFromString J P text).run store) := by
  refine ⟨?_, fun _ => addKeyFromJsonObject_run_of_rejected J, ?_, ?_⟩
  · intro text entries h store
    exact ⟨_, addJwksVerifiersFromString_run_of_keySet J h store, loadsKeySet J entries store⟩
  · intro whole front back entries entries' hwhole hfront hback store
    rw [Exec.bind_ret (addJwksVerifiersFromString_run_of_keySet J hfront store),
      addJwksVerifiersFromString_run_of_keySet J hback,
      addJwksVerifiersFromString_run_of_keySet J hwhole, publishedKeys_append, emplaceAll_append]
  · intro text entries h store
    rw [Exec.bind_ret (addJwksVerifiersFromString_run_of_keySet J h store),
      addJwksVerifiersFromString_run_of_keySet J h,
      addJwksVerifiersFromString_run_of_keySet J h, emplaceAll_idem]

/-! ## The key of the test data -/

/-- `testdata/ec256-public.pem`. -/
def testPem : Bytes :=
  bytes ("-----BEGIN PUBLIC KEY-----\n" ++
    "MFkwEwYHKoZIzj0CAQYIKoZIzj0DAQcDQgAEa8qPVdjQJm76VvhFMDux9d017VWa\n" ++
    "Sk9VW5x6+t8/RGVfj4msm2KlRAlXGpPvzjM0mAfmfXlW0lYG1PGX8GS7eQ==\n" ++
    "-----END PUBLIC KEY-----\n")

def testX : Bytes := bytes "a8qPVdjQJm76VvhFMDux9d017VWaSk9VW5x6-t8_RGU"

def testY : Bytes := bytes "X4-JrJtipUQJVxqT784zNJgH5n15VtJWBtTxl_Bku3k"

/-- The public part of that key, under some kid. -/
def testKey (kid : Bytes) : Object :=
  [(bytes "crv", .string (bytes "P-256")), (bytes "kid", .string kid),
    (bytes "kty", .string (bytes "EC")), (bytes "x", .string testX), (bytes "y", .string testY)]

/-- It, as a text. -/
def testKeyText (kid : Bytes) : Bytes :=
  bytes "\x7b\"crv\":\"P-256\",\"kid\":\"" ++ kid ++ bytes "\",\"kty\":\"EC\",\"x\":\"" ++ testX ++
    bytes "\",\"y\":\"" ++ testY ++ bytes "\"\x7d"

/-- A key set with this one key. -/
def testKeys (kid : Bytes) : Bytes := bytes "\x7b\"keys\":[" ++ testKeyText kid ++ bytes "]\x7d"

/-- A token signed with the private key of `testdata/ec256-private.pem`. -/
def signedToken : Bytes :=
  bytes ("eyJhbGciOiJFUzI1NiIsImtpZCI6ImsxIiwidHlwIjoiSldUIn0." ++
    "eyJlbWFpbCI6ImFubkBleGFtcGxlLmNvbSIsImV4cCI6MTc5MDAwMzYwMCwi" ++
    "aWF0IjoxNzkwMDAwMDAwLCJpc3MiOiJ4IiwibmFtZSI6IkFubiJ9." ++
    "3xq40c9hA3-ILwAO0iZSIOlfRZ2br2jh8kRu1Vod9zBVng2URb" ++
    "AhiK4CARrl5Js98WIu2Ic4B-us0tq8Ucn6rQ")

/-- What it decodes to. -/
def signedJwt : DecodedJwt where
  token := signedToken
  header := [(bytes "alg", .string (bytes "ES256")), (bytes "kid", .string (bytes "k1")),
    (bytes "typ", .string (bytes "JWT"))]
  payload := [(bytes "email", .string (bytes "ann@example.com")), (bytes "exp", .int 1790003600),
    (bytes "iat", .int 1790000000), (bytes "iss", .string (bytes "x")),
    (bytes "name", .string (bytes "Ann"))]

/-- jwt-cpp, as far as it builds the key above and reads that token. -/
def testJwtCpp : JwtCpp :=
  { JwtCpp.ofTable [(signedToken, signedJwt)] (fun verifier jwt =>
      decide (verifier = keyVerifier (.es256 testPem)) && decide (jwt.token = signedToken)) with
    createPublicKeyFromRsaComponents := fun _ _ => .error .systemError
    createPublicKeyFromEcComponents := fun crv x y =>
      if crv = bytes "P-256" ∧ x = testX ∧ y = testY then .ok testPem else .error .systemError }

/-- A key set with two. -/
def testKeysTwo : Bytes :=
  bytes "\x7b\"keys\":[" ++ testKeyText (bytes "k1") ++ ch ',' :: testKeyText (bytes "k2") ++
    bytes "]\x7d"

/-- The key set of some entries. -/
def keySetOf (entries : List Object) : Json :=
  .object [(bytes "keys", .array (entries.map Json.object))]

/-- A parser that knows these key sets. -/
def testPicojson : Picojson :=
  .ofTable [(testKeysTwo, keySetOf [testKey (bytes "k1"), testKey (bytes "k2")]),
    (testKeys (bytes "k1"), keySetOf [testKey (bytes "k1")]),
    (testKeys (bytes "k2"), keySetOf [testKey (bytes "k2")])]

/-- The public key is built of its components. -/
theorem createPublicKey_test :
    testJwtCpp.createPublicKeyFromEcComponents (bytes "P-256") testX testY = .ok testPem := by
  simp [testJwtCpp]

theorem acceptable_testKey (kid : Bytes) :
    Acceptable testJwtCpp (testKey kid) kid (.es256 testPem) where
  kid := rfl
  material := .ec rfl rfl rfl rfl createPublicKey_test rfl

theorem keySet_keySetOf {text : Bytes} {entries : List Object}
    (h : (P.parse text).1 = keySetOf entries) : KeySet P text entries := ⟨_, h, rfl⟩

set_option maxRecDepth 20000 in
theorem keySet_testKeys :
    KeySet testPicojson testKeysTwo [testKey (bytes "k1"), testKey (bytes "k2")] ∧
      KeySet testPicojson (testKeys (bytes "k1")) [testKey (bytes "k1")] ∧
      KeySet testPicojson (testKeys (bytes "k2")) [testKey (bytes "k2")] :=
  ⟨keySet_keySetOf rfl, keySet_keySetOf rfl, keySet_keySetOf rfl⟩

/-- The two keys are loaded, at once or one after the other. -/
theorem addJwksVerifiersFromString_testKeys :
    (∃ store', (addJwksVerifiersFromString testJwtCpp testPicojson testKeysTwo).run {} =
        (.ret true, store') ∧
      LoadsKeySet testJwtCpp [testKey (bytes "k1"), testKey (bytes "k2")] {} store') ∧
    (addKeyFromJsonObject testJwtCpp []).run {} = (.ret false, {}) ∧
    (addJwksVerifiersFromString testJwtCpp testPicojson testKeysTwo).run {} =
      (do
        let _ ← addJwksVerifiersFromString testJwtCpp testPicojson (testKeys (bytes "k1"))
        addJwksVerifiersFromString testJwtCpp testPicojson (testKeys (bytes "k2"))).run {} ∧
    (do
      let _ ← addJwksVerifiersFromString testJwtCpp testPicojson testKeysTwo
      addJwksVerifiersFromString testJwtCpp testPicojson testKeysTwo).run {} =
      (addJwksVerifiersFromString testJwtCpp testPicojson testKeysTwo).run {} := by
  obtain ⟨htwo, hfirst, hsecond⟩ := keySet_testKeys
  obtain ⟨hload, hreject, happend, htwice⟩ :=
    addJwksVerifiersFromString_keySet testJwtCpp (P := testPicojson)
  refine ⟨hload _ _ htwo {}, hreject [] ?_ {}, ?_, htwice _ _ htwo {}⟩
  · rintro kid alg ⟨hkid, -⟩
    cases hkid
  · exact happend _ _ _ _ _ htwo hfirst hsecond {}

/-- The call fetches this text. Files are written. -/
def fetchingEnv (body : Bytes) : JwksEnv where
  now := 1790000000 * 1000000000
  curl := .response 200 body
  saveRamToFile name content files :=
    Function.update files name (some ⟨content, true, some 1790000000⟩)
  verifyNow := 1790000000

end FcgiJwtAuth
