import FcgiJwtAuth.Jwks.KeyLoading

/-!
# What a refresh leaves

A refresh saves the document first and looks at it afterwards, and it puts the keys of the document
into the map without taking any out. So a document that is no key set replaces the one in the
backing file, and a key that the provider no longer publishes is still there.
-/

namespace FcgiJwtAuth

open CLang

variable {J : JwtCpp} {P : Picojson}

/-! ## A lookup that refreshes -/

/-- The lookup refreshes the store, and the fetch brings this document. -/
structure RefreshesFrom (env : JwksEnv) (s : StoreIn) (kid body : Bytes) : Prop where
  due : RefreshDue env s.store kid
  source : s.store.srcUrl ≠ []
  fetched : ∃ t, fetchedDocument env s.host s.store.srcUrl = some (body, t)

/-- The files after the document was saved. -/
def savedFiles (env : JwksEnv) (store : JwksStore) (body : Bytes) (files : Files) : Files :=
  if store.backingFile = [] then files
  else env.saveRamToFile store.backingFile body files

/-- The verifiers after the document was loaded, as far as that went. -/
def loadedVerifiers (J : JwtCpp) (P : Picojson) (body : Bytes) (verifiers : Verifiers) :
    Verifiers :=
  match keysMember (P.parse body).1 with
  | .array ary => loadKeys J verifiers ary
  | _ => verifiers

variable {env : JwksEnv} {s : StoreIn} {kid body : Bytes}

theorem saveBacking_files (env : JwksEnv) (store : JwksStore) (body : Bytes) (host : Host) :
    (saveBacking env store body host).files = savedFiles env store body host.files := by
  unfold saveBacking savedFiles
  by_cases hback : store.backingFile = []
  · rw [if_pos hback, if_pos hback]
  · rw [if_neg hback, if_neg hback]

/-- A fetch writes no file. -/
theorem hostAfterFetch_files (env : JwksEnv) (host : Host) (url : Bytes) :
    (hostAfterFetch env host url).files = host.files := by
  unfold hostAfterFetch
  split <;> rfl

/-- **What a lookup that refreshes leaves**: the document in the backing file, its keys in the map;
and it is defined unless the document is an object without keys. -/
theorem RefreshesFrom.findVerifier_run (h : RefreshesFrom env s kid body) :
    ∃ o s', (findVerifier J P env kid).run s = (o, s') ∧
      s'.host.files = savedFiles env s.store body s.host.files ∧
      s'.store.backingFile = s.store.backingFile ∧
      s'.store.verifiers = loadedVerifiers J P body s.store.verifiers ∧
      (o = .undefined ↔ keysMember (P.parse body).1 = .absent) ∧
      (∀ ary, keysMember (P.parse body).1 = .array ary → allObjects ary = true →
        o = .ret (s'.store.verifiers kid)) := by
  obtain ⟨t, hfetched⟩ := h.fetched
  have hfiles : (saveBacking env s.store body (hostAfterFetch env s.host s.store.srcUrl)).files =
      savedFiles env s.store body s.host.files := by
    rw [saveBacking_files, hostAfterFetch_files]
  have hrun := refresh_run J P env h.source
  rw [hfetched] at hrun
  unfold loadedVerifiers
  rw [findVerifier_run_of_due J P h.due]
  cases hkeys : keysMember (P.parse body).1 with
  | array ary =>
    simp only [hkeys] at hrun
    by_cases hall : allObjects ary = true
    · rw [if_pos hall] at hrun
      rw [hrun]
      refine ⟨_, _, rfl, hfiles, rfl, rfl, by simp, ?_⟩
      intro _ _ _
      rfl
    · rw [if_neg hall] at hrun
      rw [hrun]
      refine ⟨_, _, rfl, hfiles, rfl, rfl, by simp, ?_⟩
      intro ary' hary hall'
      cases hary
      exact absurd hall' hall
  | _ =>
    simp only [hkeys] at hrun
    rw [hrun]
    exact ⟨_, _, rfl, hfiles, rfl, rfl, by simp, by simp⟩

/-! ## The published keys -/

section Published

variable (J)

/-- An entry stands for the verifier of a kid. -/
def Publishes (entries : List Object) (kid : Bytes) (verifier : Verifier) : Prop :=
  ∃ key ∈ entries, ∃ alg, Acceptable J key kid alg ∧ verifier = keyVerifier alg

/-- The verifiers are those of the entries: a kid has one exactly if an entry is acceptable for it,
and it is built from such an entry. -/
structure Installed (entries : List Object) (verifiers : Verifiers) : Prop where
  resolves : ∀ kid, (∃ verifier, verifiers kid = some verifier) ↔
    ∃ key ∈ entries, ∃ alg, Acceptable J key kid alg
  built : ∀ kid verifier, verifiers kid = some verifier → Publishes J entries kid verifier

/-- Putting in the entries installs them exactly when they stand for all that was there. -/
theorem installed_emplaceAll_iff {entries : List Object} {verifiers : Verifiers} :
    Installed J entries (emplaceAll verifiers (publishedKeys J entries)) ↔
      ∀ kid verifier, verifiers kid = some verifier → Publishes J entries kid verifier := by
  constructor
  · intro h kid verifier hkid
    exact h.built kid verifier (emplaceAll_of_some hkid _)
  · intro h
    have hbuilt : ∀ kid verifier,
        emplaceAll verifiers (publishedKeys J entries) kid = some verifier →
          Publishes J entries kid verifier := by
      intro kid verifier hkid
      rcases of_emplaceAll_eq_some hkid with hold | hmem
      · exact h kid verifier hold
      · exact (mem_publishedKeys_iff J).mp hmem
    refine ⟨fun kid => ⟨?_, ?_⟩, hbuilt⟩
    · rintro ⟨verifier, hkid⟩
      obtain ⟨key, hkey, alg, hacc, -⟩ := hbuilt kid verifier hkid
      exact ⟨key, hkey, alg, hacc⟩
    · rintro ⟨key, hkey, alg, hacc⟩
      have hmem : (kid, keyVerifier alg) ∈ publishedKeys J entries :=
        (mem_publishedKeys_iff J).mpr ⟨key, hkey, alg, hacc, rfl⟩
      exact exists_emplaceAll_eq_some verifiers hmem

end Published

/-- The lookup returns, and leaves the verifiers of the entries. -/
def RefreshInstalls (J : JwtCpp) (P : Picojson) (env : JwksEnv) (s : StoreIn) (kid : Bytes)
    (entries : List Object) : Prop :=
  ∃ s', (findVerifier J P env kid).run s = (.ret (s'.store.verifiers kid), s') ∧
    Installed J entries s'.store.verifiers

/-- **A refresh installs the published key set** exactly when the set still stands for all that the
store held. -/
theorem refreshInstalls_iff {entries : List Object} (h : RefreshesFrom env s kid body)
    (hkeys : KeySet P body entries) :
    RefreshInstalls J P env s kid entries ↔
      ∀ kid verifier, s.store.verifiers kid = some verifier →
        Publishes J entries kid verifier := by
  obtain ⟨o, s', hrun, -, -, hverifiers, -, hret⟩ := h.findVerifier_run (J := J) (P := P)
  have hloaded : s'.store.verifiers =
      emplaceAll s.store.verifiers (publishedKeys J entries) := by
    rw [hverifiers, loadedVerifiers, hkeys.keysMember]
    simp only [loadKeys_eq, leadingObjects_map]
  rw [hret _ hkeys.keysMember (allObjects_map entries)] at hrun
  rw [← installed_emplaceAll_iff J, ← hloaded]
  constructor
  · rintro ⟨s'', hrun', hinstalled⟩
    obtain ⟨-, rfl⟩ := Prod.mk.inj (hrun.symm.trans hrun')
    exact hinstalled
  · intro hinstalled
    exact ⟨s', hrun, hinstalled⟩

/-! ## The backing file -/

/-- The text is an object with a `keys` array. -/
def IsKeyDocument (P : Picojson) (body : Bytes) : Prop :=
  (P.parse body).2 = true ∧ ∃ ary, keysMember (P.parse body).1 = .array ary

/-- What the backing file holds. -/
def backingContent (s : StoreIn) : Option Bytes :=
  (s.host.files s.store.backingFile).map File.content

/-- The call is defined, and leaves the content of the backing file and the verifiers as they
were. -/
def LeavesKeys {α : Type} (m : Exec StoreIn α) (s : StoreIn) : Prop :=
  ∃ o s', m.run s = (o, s') ∧ o ≠ .undefined ∧ backingContent s' = backingContent s ∧
    s'.store.verifiers = s.store.verifiers

/-- Saving the text leaves the backing file with the content it has. -/
def SavesNothing (env : JwksEnv) (s : StoreIn) (body : Bytes) : Prop :=
  (env.saveRamToFile s.store.backingFile body s.host.files s.store.backingFile).map
    File.content = backingContent s

/-- Loading what the parser left of the text is defined and adds no kid. -/
def LoadsNothing (J : JwtCpp) (P : Picojson) (store : JwksStore) (body : Bytes) : Prop :=
  match keysMember (P.parse body).1 with
  | .absent => False
  | .array ary => ∀ key ∈ leadingObjects ary, ∀ kid alg, Acceptable J key kid alg →
      store.verifiers kid ≠ none
  | _ => True

theorem loadKeys_eq_self_iff {verifiers : Verifiers} {ary : List Json} :
    loadKeys J verifiers ary = verifiers ↔
      ∀ key ∈ leadingObjects ary, ∀ kid alg, Acceptable J key kid alg → verifiers kid ≠ none := by
  rw [loadKeys_eq, emplaceAll_eq_self_iff]
  constructor
  · intro h key hkey kid alg hacc
    exact h _ ((mem_publishedKeys_iff J).mpr ⟨key, hkey, alg, hacc, rfl⟩)
  · rintro h ⟨kid, verifier⟩ hmem
    obtain ⟨key, hkey, alg, hacc, -⟩ := (mem_publishedKeys_iff J).mp hmem
    exact h key hkey kid alg hacc

theorem loadsNothing_iff {store : JwksStore} {body : Bytes} :
    LoadsNothing J P store body ↔ keysMember (P.parse body).1 ≠ .absent ∧
      loadedVerifiers J P body store.verifiers = store.verifiers := by
  unfold LoadsNothing loadedVerifiers
  cases keysMember (P.parse body).1 with
  | absent => simp
  | array ary => simp [loadKeys_eq_self_iff]
  | _ => simp

/-- A save that succeeds changes nothing only if the text is what the file holds already. -/
theorem savesNothing_iff_of_saved
    (hsaved : (env.saveRamToFile s.store.backingFile body s.host.files s.store.backingFile).map
      File.content = some body) :
    SavesNothing env s body ↔ backingContent s = some body := by
  rw [SavesNothing, hsaved]
  exact eq_comm

/-- A lookup that refreshes leaves the keys intact exactly when saving the document changes nothing
and what the parser left of it has no new key. -/
theorem RefreshesFrom.leavesKeys_iff (h : RefreshesFrom env s kid body)
    (hback : s.store.backingFile ≠ []) :
    LeavesKeys (findVerifier J P env kid) s ↔
      SavesNothing env s body ∧ LoadsNothing J P s.store body := by
  obtain ⟨o, s', hrun, hfiles, hname, hverifiers, hundefined, -⟩ :=
    h.findVerifier_run (J := J) (P := P)
  have hcontent : backingContent s' = (env.saveRamToFile s.store.backingFile body s.host.files
      s.store.backingFile).map File.content := by
    rw [backingContent, hname, hfiles, savedFiles, if_neg hback]
  have hdefined : o ≠ .undefined ↔ keysMember (P.parse body).1 ≠ .absent := not_congr hundefined
  rw [loadsNothing_iff, SavesNothing, ← hcontent, ← hverifiers, ← hdefined]
  constructor
  · rintro ⟨o', s'', hrun', hdefined', hsame, hkeys⟩
    obtain ⟨rfl, rfl⟩ := Prod.mk.inj (hrun.symm.trans hrun')
    exact ⟨hsame, hdefined', hkeys⟩
  · rintro ⟨hsame, hdefined', hkeys⟩
    exact ⟨o, s', hrun, hdefined', hsame, hkeys⟩

/-- The keys survive a document that is no key set. -/
def SurvivesBadDocument (J : JwtCpp) (P : Picojson) (env : JwksEnv) (s : StoreIn)
    (kid body : Bytes) : Prop :=
  ¬ IsKeyDocument P body → LeavesKeys (findVerifier J P env kid) s

/-- **A bad refresh leaves the keys intact** exactly when the document is a key set after all, or
saving it changes nothing and what the parser left of it has no new key. -/
theorem survivesBadDocument_iff (h : RefreshesFrom env s kid body)
    (hback : s.store.backingFile ≠ []) :
    SurvivesBadDocument J P env s kid body ↔
      IsKeyDocument P body ∨ SavesNothing env s body ∧ LoadsNothing J P s.store body := by
  rw [SurvivesBadDocument, h.leavesKeys_iff hback]
  constructor
  · intro hintact
    by_cases hdoc : IsKeyDocument P body
    · exact Or.inl hdoc
    · exact Or.inr (hintact hdoc)
  · rintro (hdoc | hintact) hbad
    · exact absurd hdoc hbad
    · exact hintact

/-! ## A store a day after its last fetch -/

/-- The store holds the key of the test data as `k0`, and so does its backing file. -/
def dayOldStore : StoreIn where
  store :=
    { srcUrl := bytes "https://login.microsoftonline.com/common/discovery/v2.0/keys"
      backingFile := bytes "./conf/microsoft.jwks.json"
      lastFetchTime := 1789900000 * 1000000000
      verifiers := Function.update (fun _ => none) (bytes "k0")
        (some (keyVerifier (.es256 testPem))) }
  host :=
    { files := Function.update (fun _ => none) (bytes "./conf/microsoft.jwks.json")
        (some ⟨testKeys (bytes "k0"), true, some 1789900000⟩)
      fetches := [] }

theorem refreshesFrom_dayOldStore (body : Bytes) :
    RefreshesFrom (fetchingEnv body) dayOldStore (bytes "k1") body where
  due := by
    refine ⟨rfl, ?_⟩
    show 24 ≤ hours (1790000000 * 1000000000 - 1789900000 * 1000000000)
    decide
  source := by decide
  fetched := ⟨0, rfl⟩

/-- The provider publishes `k1` alone, and `k0` is still there. -/
theorem refreshInstalls_withdrawn :
    RefreshesFrom (fetchingEnv (testKeys (bytes "k1"))) dayOldStore (bytes "k1")
        (testKeys (bytes "k1")) ∧
      KeySet testPicojson (testKeys (bytes "k1")) [testKey (bytes "k1")] ∧
      ¬ RefreshInstalls testJwtCpp testPicojson (fetchingEnv (testKeys (bytes "k1"))) dayOldStore
        (bytes "k1") [testKey (bytes "k1")] := by
  refine ⟨refreshesFrom_dayOldStore _, keySet_testKeys.2.1, ?_⟩
  rintro ⟨s', hrun, hinstalled⟩
  obtain ⟨o, s'', hrun', -, -, hverifiers, -, -⟩ :=
    (refreshesFrom_dayOldStore (testKeys (bytes "k1"))).findVerifier_run
      (J := testJwtCpp) (P := testPicojson)
  obtain ⟨-, rfl⟩ := Prod.mk.inj (hrun.symm.trans hrun')
  have hold : s'.store.verifiers (bytes "k0") = some (keyVerifier (.es256 testPem)) := by
    rw [hverifiers, loadedVerifiers, keySet_testKeys.2.1.keysMember]
    simp only [loadKeys_eq]
    have hk0 : dayOldStore.store.verifiers (bytes "k0") = some (keyVerifier (.es256 testPem)) := rfl
    exact emplaceAll_of_some hk0 _
  obtain ⟨key, hkey, alg, hacc, -⟩ := hinstalled.built _ _ hold
  obtain rfl := List.mem_singleton.mp hkey
  have hkid : bytes "k1" = bytes "k0" := by
    have hfind : (testKey (bytes "k1")).find (bytes "kid") = some (.string (bytes "k1")) := rfl
    exact Json.string.inj (Option.some.inj (hfind.symm.trans hacc.kid))
  exact absurd hkid (by decide)

theorem refreshInstalls_iff_withdrawn :
    RefreshInstalls testJwtCpp testPicojson (fetchingEnv (testKeys (bytes "k1"))) dayOldStore
        (bytes "k1") [testKey (bytes "k1")] ↔
      ∀ kid verifier, dayOldStore.store.verifiers kid = some verifier →
        Publishes testJwtCpp [testKey (bytes "k1")] kid verifier :=
  refreshInstalls_iff (refreshesFrom_dayOldStore _) keySet_testKeys.2.1

/-- A page that some gateway puts in the place of the keys. -/
def htmlBody : Bytes := bytes "<html>Service Unavailable</html>"

set_option maxRecDepth 20000 in
theorem not_isKeyDocument_htmlBody : ¬ IsKeyDocument testPicojson htmlBody := by
  rintro ⟨hparsed, -⟩
  have hfailed : (testPicojson.parse htmlBody).2 = false := rfl
  rw [hfailed] at hparsed
  cases hparsed

/-- The page replaces the keys in the backing file. -/
theorem survivesBadDocument_htmlBody :
    RefreshesFrom (fetchingEnv htmlBody) dayOldStore (bytes "k1") htmlBody ∧
      dayOldStore.store.backingFile ≠ [] ∧
      ¬ SurvivesBadDocument testJwtCpp testPicojson (fetchingEnv htmlBody) dayOldStore
        (bytes "k1") htmlBody := by
  refine ⟨refreshesFrom_dayOldStore _, by decide, fun hsurvives => ?_⟩
  obtain ⟨o, s', hrun, -, hsame, -⟩ := hsurvives not_isKeyDocument_htmlBody
  obtain ⟨o', s'', hrun', hfiles, hname, -⟩ :=
    (refreshesFrom_dayOldStore htmlBody).findVerifier_run (J := testJwtCpp) (P := testPicojson)
  obtain ⟨-, rfl⟩ := Prod.mk.inj (hrun.symm.trans hrun')
  have hsaved : backingContent s' = some htmlBody := by
    rw [backingContent, hname, hfiles]
    rfl
  have hbefore : backingContent dayOldStore = some (testKeys (bytes "k0")) := rfl
  rw [hsaved, hbefore] at hsame
  have hlength : htmlBody.length = (testKeys (bytes "k0")).length :=
    congrArg List.length (Option.some.inj hsame)
  exact absurd hlength (by decide +kernel)

theorem survivesBadDocument_iff_htmlBody :
    SurvivesBadDocument testJwtCpp testPicojson (fetchingEnv htmlBody) dayOldStore (bytes "k1")
        htmlBody ↔
      IsKeyDocument testPicojson htmlBody ∨
        SavesNothing (fetchingEnv htmlBody) dayOldStore htmlBody ∧
          LoadsNothing testJwtCpp testPicojson dayOldStore.store htmlBody :=
  survivesBadDocument_iff (refreshesFrom_dayOldStore _) (by decide)

end FcgiJwtAuth
