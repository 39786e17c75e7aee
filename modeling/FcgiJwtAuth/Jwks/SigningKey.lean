import FcgiJwtAuth.Jwks.MalformedDocuments

/-!
# The key to sign with

`jwt_creator` asks `get_jwk` for the key of a kid, and the store builds its verifier of that kid
from the same document. `get_jwk` takes the first entry that names the kid, whatever its `kty` is;
the store takes the first one that it can use.
-/

namespace FcgiJwtAuth

open CLang

variable (J : JwtCpp) (P : Picojson)

/-- The entry that the verifier of a kid is built from. -/
def BuiltFrom (entries : List Object) (kid : Bytes) (key : Object) (alg : Algorithm) : Prop :=
  ∃ front back, entries = front ++ key :: back ∧
    (∀ earlier ∈ front, ∀ alg', ¬Acceptable J earlier kid alg') ∧ Acceptable J key kid alg

/-- Where an empty store has a verifier after loading the document, `get_jwk` returns the entry that
it was built from. -/
def SameKey (text : Bytes) (entries : List Object) (kid : Bytes) : Prop :=
  ∀ store : JwksStore, (∀ other, store.verifiers other = none) → ∀ verifier,
    ((addJwksVerifiersFromString J P text).run store).2.verifiers kid = some verifier →
      ∃ key alg, BuiltFrom J entries kid key alg ∧ verifier = keyVerifier alg ∧
        getJwk P text kid = .ok key

/-- `get_jwk` stops at this entry. -/
def isNamed (kid : Bytes) (key : Object) : Bool :=
  decide ((key.find (bytes "kid")).bind Json.string? = some kid) &&
    ((key.find (bytes "kty")).bind Json.string?).isSome

/-- The first entry that names the kid is one that the store takes, if there is one that it takes
for the kid. -/
def FirstNamedUsable (entries : List Object) (kid : Bytes) : Prop :=
  ∀ key, entries.find? (isNamed kid) = some key → (∃ alg, Acceptable J key kid alg) ∨
    ∀ other ∈ entries, ∀ alg, ¬Acceptable J other kid alg

variable {J P} {entries : List Object} {kid text : Bytes} {key : Object} {alg : Algorithm}

theorem Acceptable.isNamed (h : Acceptable J key kid alg) : isNamed kid key = true := by
  obtain ⟨kty, hkty, -⟩ := (keyMaterial_iff J).mp h.material
  unfold FcgiJwtAuth.isNamed
  rw [find_string?_eq_some_iff.mpr h.kid, find_string?_eq_some_iff.mpr hkty]
  simp

/-- The algorithm of the first acceptable entry is the one of the entry that is built from. -/
theorem firstAcceptable_iff :
    FirstAcceptable J kid entries alg ↔ ∃ key, BuiltFrom J entries kid key alg := by
  constructor
  · intro h
    induction h with
    | @here key rest alg hacc =>
      exact ⟨key, [], rest, rfl, fun earlier hin => absurd hin List.not_mem_nil, hacc⟩
    | @there earlier rest alg hno _ ih =>
      obtain ⟨key, front, back, rfl, hfront, hacc⟩ := ih
      exact ⟨key, earlier :: front, back, rfl, List.forall_mem_cons.mpr ⟨hno, hfront⟩, hacc⟩
  · rintro ⟨key, front, back, rfl, hfront, hacc⟩
    induction front with
    | nil => exact .here hacc
    | cons earlier front ih =>
      obtain ⟨hno, hfront⟩ := List.forall_mem_cons.mp hfront
      exact .there hno (ih hfront)

/-- Where some entry is acceptable, one is built from. -/
theorem exists_builtFrom (h : ∃ key ∈ entries, ∃ alg, Acceptable J key kid alg) :
    ∃ key alg, BuiltFrom J entries kid key alg := by
  induction entries with
  | nil =>
    obtain ⟨key, hkey, -⟩ := h
    exact absurd hkey List.not_mem_nil
  | cons first rest ih =>
    by_cases hfirst : ∃ alg, Acceptable J first kid alg
    · obtain ⟨alg, hacc⟩ := hfirst
      exact ⟨first, alg, [], rest, rfl, fun earlier hin => absurd hin List.not_mem_nil, hacc⟩
    · have hno : ∀ alg, ¬Acceptable J first kid alg := fun alg hacc => hfirst ⟨alg, hacc⟩
      obtain ⟨key, hkey, alg, hacc⟩ := h
      have hrest : key ∈ rest := by
        rcases List.mem_cons.mp hkey with rfl | hin
        · exact absurd hacc (hno alg)
        · exact hin
      obtain ⟨key', alg', front, back, rfl, hfront, hacc'⟩ := ih ⟨key, hrest, alg, hacc⟩
      exact ⟨key', alg', first :: front, back, rfl, List.forall_mem_cons.mpr ⟨hno, hfront⟩, hacc'⟩

/-- `get_jwk` returns the first entry that names the kid. -/
theorem findJwk_map (entries : List Object) (kid : Bytes) :
    findJwk kid (entries.map Json.object) = (entries.find? (isNamed kid)).getD [] := by
  induction entries with
  | nil => rfl
  | cons key rest ih =>
    rw [List.map_cons, findJwk, ih, List.find?_cons]
    unfold isNamed
    cases (Object.find key (bytes "kid")).bind Json.string? with
    | none => rfl
    | some named =>
      cases (Object.find key (bytes "kty")).bind Json.string? with
      | none => simp
      | some kty =>
        by_cases hnamed : named = kid
        · simp [hnamed]
        · simp [hnamed]

theorem getJwk_of_keySet (h : KeySet P text entries) (hparsed : (P.parse text).2 = true)
    (kid : Bytes) : getJwk P text kid = .ok ((entries.find? (isNamed kid)).getD []) := by
  obtain ⟨obj, hobj, hkeys⟩ := h
  have hparse : P.parse text = (.object obj, true) := Prod.ext hobj hparsed
  unfold getJwk
  simp only [hparse, hkeys, findJwk_map]

/-- A verifier of the kid is built from one entry. -/
theorem verifier_of_keySet_iff (h : KeySet P text entries) {store : JwksStore}
    (hempty : ∀ other, store.verifiers other = none) {verifier : Verifier} :
    ((addJwksVerifiersFromString J P text).run store).2.verifiers kid = some verifier ↔
      ∃ key alg, BuiltFrom J entries kid key alg ∧ verifier = keyVerifier alg := by
  rw [addJwksVerifiersFromString_run_of_keySet J h,
    (loadsKeySet J entries store).added kid (hempty kid)]
  constructor
  · rintro ⟨alg, hfirst, hverifier⟩
    obtain ⟨key, hbuilt⟩ := firstAcceptable_iff.mp hfirst
    exact ⟨key, alg, hbuilt, hverifier⟩
  · rintro ⟨key, alg, hbuilt, hverifier⟩
    exact ⟨alg, firstAcceptable_iff.mpr ⟨key, hbuilt⟩, hverifier⟩

/-- **Signing and verifying** pick the same entry of a document exactly when the first entry that
names the kid is one that the store takes, or it takes none. -/
theorem sameKey_iff (h : KeySet P text entries) (hparsed : (P.parse text).2 = true) (kid : Bytes) :
    SameKey J P text entries kid ↔ FirstNamedUsable J entries kid := by
  unfold SameKey FirstNamedUsable
  rw [getJwk_of_keySet h hparsed kid]
  constructor
  · intro hsame key hfirst
    by_contra hnot
    obtain ⟨hunusable, hsome⟩ := not_or.mp hnot
    push Not at hsome
    obtain ⟨other, hother, alg, hacc⟩ := hsome
    obtain ⟨built, alg', hbuilt⟩ := exists_builtFrom ⟨other, hother, alg, hacc⟩
    obtain ⟨key', alg'', ⟨front, back, -, -, hacc'⟩, -, hget⟩ := hsame {} (fun _ => rfl) _
      ((verifier_of_keySet_iff h fun _ => rfl).mpr ⟨built, alg', hbuilt, rfl⟩)
    rw [hfirst, Option.getD_some, Except.ok.injEq] at hget
    exact hunusable ⟨alg'', hget ▸ hacc'⟩
  · intro hcond store hempty verifier hverifier
    obtain ⟨key, alg, hbuilt, hkey⟩ := (verifier_of_keySet_iff h hempty).mp hverifier
    refine ⟨key, alg, hbuilt, hkey, ?_⟩
    obtain ⟨front, back, rfl, hfront, hacc⟩ := hbuilt
    -- the entry that is built from names the kid, so some entry is found
    have hin : key ∈ front ++ key :: back := List.mem_append_right front List.mem_cons_self
    have hfound : ((front ++ key :: back).find? (isNamed kid)).isSome = true :=
      List.find?_isSome.mpr ⟨key, hin, hacc.isNamed⟩
    obtain ⟨named, hnamed⟩ := Option.isSome_iff_exists.mp hfound
    obtain ⟨alg', hnamedAcc⟩ := (hcond named hnamed).resolve_right fun hno => hno key hin alg hacc
    have hfront' : front.find? (isNamed kid) = none := by
      cases hearlier : front.find? (isNamed kid) with
      | none => rfl
      | some earlier =>
        rw [List.find?_append, hearlier, Option.some_or] at hnamed
        obtain rfl := Option.some.inj hnamed
        exact absurd hnamedAcc (hfront earlier (List.mem_of_find?_eq_some hearlier) alg')
    rw [List.find?_append, hfront', Option.none_or, List.find?_cons_of_pos hacc.isNamed,
      Option.getD_some]

/-! ## Documents with one kid -/

/-- A key of a type that the store does not take. -/
def octKey : Object := [(bytes "kid", .string (bytes "k1")), (bytes "kty", .string (bytes "oct"))]

/-- A key of another kid, the key of the test data, and two entries more with its kid. -/
def orderedEntries : List Object :=
  [testKey (bytes "k2"), testKey (bytes "k1"), octKey, testKey (bytes "k1")]

/-- They, as a text. -/
def orderedKeys : Bytes :=
  bytes "\x7b\"keys\":[" ++ testKeyText (bytes "k2") ++ ch ',' :: testKeyText (bytes "k1") ++
    bytes ",\x7b\"kid\":\"k1\",\"kty\":\"oct\"\x7d," ++ testKeyText (bytes "k1") ++ bytes "]\x7d"

/-- A parser that knows this document. -/
def orderedPicojson : Picojson := .ofTable [(orderedKeys, keySetOf orderedEntries)]

set_option maxRecDepth 20000 in
theorem parse_orderedKeys :
    orderedPicojson.parse orderedKeys = (keySetOf orderedEntries, true) := rfl

/-- The first of three entries with the kid is one that the store takes. -/
theorem sameKey_orderedKeys :
    (orderedEntries.filter (isNamed (bytes "k1"))).length = 3 ∧
      SameKey testJwtCpp orderedPicojson orderedKeys orderedEntries (bytes "k1") := by
  have hset : KeySet orderedPicojson orderedKeys orderedEntries :=
    keySet_keySetOf (congrArg Prod.fst parse_orderedKeys)
  have hparsed : (orderedPicojson.parse orderedKeys).2 = true := congrArg Prod.snd parse_orderedKeys
  refine ⟨by decide, (sameKey_iff hset hparsed _).mpr fun key hkey => .inl ?_⟩
  have hnamed : orderedEntries.find? (isNamed (bytes "k1")) = some (testKey (bytes "k1")) := rfl
  obtain rfl := Option.some.inj (hnamed.symm.trans hkey)
  exact ⟨_, acceptable_testKey (bytes "k1")⟩

/-- It, in front of the key of the test data with the same kid. -/
def mixedKeys : Bytes :=
  bytes "\x7b\"keys\":[\x7b\"kid\":\"k1\",\"kty\":\"oct\"\x7d," ++ testKeyText (bytes "k1") ++
    bytes "]\x7d"

/-- A parser that knows this document. -/
def mixedPicojson : Picojson := .ofTable [(mixedKeys, keySetOf [octKey, testKey (bytes "k1")])]

set_option maxRecDepth 20000 in
theorem parse_mixedKeys :
    mixedPicojson.parse mixedKeys = (keySetOf [octKey, testKey (bytes "k1")], true) := rfl

/-- `get_jwk` returns the one in front, of which no verifier was built. -/
theorem not_sameKey_mixedKeys :
    ¬∀ (J : JwtCpp) (P : Picojson) (text : Bytes) (entries : List Object) (kid : Bytes),
      KeySet P text entries → (P.parse text).2 = true → SameKey J P text entries kid := by
  intro hall
  have hset : KeySet mixedPicojson mixedKeys [octKey, testKey (bytes "k1")] :=
    keySet_keySetOf (congrArg Prod.fst parse_mixedKeys)
  have hparsed : (mixedPicojson.parse mixedKeys).2 = true := congrArg Prod.snd parse_mixedKeys
  have hsame := hall testJwtCpp mixedPicojson mixedKeys _ (bytes "k1") hset hparsed
  have hacc := acceptable_testKey (bytes "k1")
  obtain ⟨built, alg, hbuilt⟩ := exists_builtFrom
    ⟨testKey (bytes "k1"), List.mem_cons_of_mem octKey List.mem_cons_self, _, hacc⟩
  obtain ⟨key, alg', ⟨_, _, -, -, hkey⟩, -, hget⟩ := hsame {} (fun _ => rfl) _
    ((verifier_of_keySet_iff hset fun _ => rfl).mpr ⟨built, alg, hbuilt, rfl⟩)
  rw [getJwk_of_keySet hset hparsed] at hget
  have hfirst : [octKey, testKey (bytes "k1")].find? (isNamed (bytes "k1")) = some octKey := rfl
  rw [hfirst, Option.getD_some, Except.ok.injEq] at hget
  subst hget
  have hoct : octKey.find (bytes "kty") = some (.string (bytes "oct")) := rfl
  cases hkey.material with
  | rsa hkty =>
    rw [hoct, Option.some.injEq, Json.string.injEq] at hkty
    exact absurd hkty (by decide)
  | ec hkty =>
    rw [hoct, Option.some.injEq, Json.string.injEq] at hkty
    exact absurd hkty (by decide)

end FcgiJwtAuth
