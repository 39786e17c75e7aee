import FcgiJwtAuth.CLang.Keeps
import FcgiJwtAuth.Jwks.Provenance
import FcgiJwtAuth.Jwks.RefreshRate

/-!
# The store that `main` sets up

`main` makes one store, for `microsoft`, from its backing file, and gives it the url of the
provider's keys. A verification keeps it so: there is no other store, nothing is fetched from
elsewhere, and a key comes from the file or from a document that a fetch has brought.
-/

namespace FcgiJwtAuth

open CLang

/-- The url that `main` sets. -/
def microsoftUrl : Bytes := bytes "https://login.microsoftonline.com/common/discovery/v2.0/keys"

/-- The file that `main` reads. -/
def microsoftFile : Bytes := bytes "./conf/microsoft.jwks.json"

theorem microsoftUrl_ne_nil : microsoftUrl ≠ [] := by decide

theorem isLocal_microsoftUrl : isLocal microsoftUrl = false := by decide

theorem isLocal_microsoftFile : isLocal microsoftFile = true := by decide

section

variable (J : JwtCpp) (P : Picojson)

/-- The store with the fields that `main` assigns. -/
def configuredStore : JwksStore where
  srcUrl := microsoftUrl
  backingFile := microsoftFile

/-- A store into which the file was loaded. -/
def fileStore (file : File) (store : JwksStore) : JwksStore :=
  { store with
    lastFetchTime := file.mtime.getD 0 * 1000000000
    verifiers := loadedVerifiers J P file.content store.verifiers }

/-- The store that is made from the file. -/
def microsoftStore (file : File) : JwksStore := fileStore J P file configuredStore

/-- A manager with a store for `microsoft` alone. -/
def microsoftManager (store : JwksStore) (host : Host) : Manager where
  stores := Function.update (fun _ => none) (bytes "microsoft") (some store)
  host := host

/-- A document that the process has met: what it started from, or what a fetch has brought. -/
def KnownDocument (startup : Bytes) (host : Host) (text : Bytes) : Prop :=
  text = startup ∨ ⟨microsoftUrl, .response 200 text⟩ ∈ host.fetches

/-- The manager is as `main` has set it up, but for keys that were fetched since. -/
structure Configured (startup : Bytes) (man : Manager) : Prop where
  others : ∀ issuer, issuer ≠ bytes "microsoft" → man.stores issuer = none
  store : ∃ store, man.stores (bytes "microsoft") = some store ∧ store.srcUrl = microsoftUrl ∧
    store.backingFile = microsoftFile
  fetches : ∀ f ∈ man.host.fetches, f.url = microsoftUrl
  keys : ∀ kid verifier, issuerVerifiers man (bytes "microsoft") kid = some verifier →
    ∃ text, KnownDocument startup man.host text ∧ FromDocument J P text kid verifier

end

variable {J : JwtCpp} {P : Picojson} {env : JwksEnv} {host : Host} {man : Manager}

@[simp] theorem microsoftManager_stores (store : JwksStore) (host : Host) :
    (microsoftManager store host).stores (bytes "microsoft") = some store := by
  simp [microsoftManager]

/-! ## The start -/

/-- The block of `main` behind the fields of the store. -/
def loadMicrosoftFile (J : JwtCpp) (P : Picojson) (env : JwksEnv) : Exec StoreIn PUnit := do
  let fetched ← onHost (fetchJwksJson env microsoftFile (some 0))
  let _ ← onStore (addJwksVerifiersFromString J P fetched.1)
  onStore <| Exec.modify fun store =>
    { store with lastFetchTime := fetched.2.getD 0 * 1000000000 }

theorem mainInit_eq (J : JwtCpp) (P : Picojson) (env : JwksEnv) :
    mainInit J P env = (getOrCreateStore (bytes "microsoft") >>= fun store =>
      onIssuer (bytes "microsoft")
        { store with backingFile := microsoftFile, srcUrl := microsoftUrl }
        (loadMicrosoftFile J P env)) := rfl

/-- A file that is fetched can be read. -/
theorem readable_of_fetched {fetched : Bytes × ℤ}
    (h : fetchedDocument env host microsoftFile = some fetched) :
    ∃ file, host.files microsoftFile = some file ∧ file.readable = true := by
  simp only [fetchedDocument, isLocal_microsoftFile, if_true] at h
  cases hfile : host.files microsoftFile with
  | none =>
    rw [hfile] at h
    cases h
  | some file =>
    cases hread : file.readable with
    | false => simp [hfile, hread] at h
    | true => exact ⟨file, rfl, hread⟩

/-- A file that cannot be read ends `main`. -/
theorem loadMicrosoftFile_of_unreadable {s : StoreIn}
    (h : fetchedDocument env s.host microsoftFile = none) :
    (loadMicrosoftFile J P env).run s = (.throws .runtimeError, s) := by
  have hfetch : (onHost (fetchJwksJson env microsoftFile (some 0))).run s =
      (.throws .runtimeError, s) := by
    rw [onHost, Exec.run_on, fetchJwksJson_run env (by decide), h, hostAfterFetch,
      isLocal_microsoftFile]
    rfl
  exact Exec.bind_throws hfetch

/-- The block, for a file that can be read. -/
theorem loadMicrosoftFile_run {s : StoreIn} {file : File}
    (hfile : s.host.files microsoftFile = some file) (hread : file.readable = true) :
    (loadMicrosoftFile J P env).run s =
      match keysMember (P.parse file.content).1 with
      | .absent => (.undefined, s)
      | .array ary =>
        if allObjects ary then (.ret ⟨⟩, ⟨fileStore J P file s.store, s.host⟩)
        else (.throws .runtimeError,
          ⟨{ s.store with verifiers := loadKeys J s.store.verifiers ary }, s.host⟩)
      | _ => (.ret ⟨⟩, ⟨fileStore J P file s.store, s.host⟩) := by
  have hfetch : (onHost (fetchJwksJson env microsoftFile (some 0))).run s =
      (.ret (file.content, some (file.mtime.getD 0)), s) := by
    rw [onHost, Exec.run_on, fetchJwksJson_run env (by decide), fetchedDocument, hostAfterFetch,
      isLocal_microsoftFile, hfile]
    simp [hread]
  unfold loadMicrosoftFile fileStore loadedVerifiers
  rw [Exec.bind_ret hfetch, Exec.run_bind, onStore, Exec.run_on, addJwksVerifiersFromString_run]
  cases hkeys : keysMember (P.parse file.content).1 with
  | array ary => cases hall : allObjects ary <;> simp [hall, onStore]
  | _ => simp [onStore]

/-- The manager that the block works on. -/
theorem mainInit_run (J : JwtCpp) (P : Picojson) (env : JwksEnv) (host : Host) :
    (mainInit J P env).run (emptyManager host) =
      (((loadMicrosoftFile J P env).run ⟨configuredStore, host⟩).1,
        microsoftManager ((loadMicrosoftFile J P env).run ⟨configuredStore, host⟩).2.store
          ((loadMicrosoftFile J P env).run ⟨configuredStore, host⟩).2.host) := by
  have hmake : (getOrCreateStore (bytes "microsoft")).run (emptyManager host) =
      (.ret {}, microsoftManager {} host) := rfl
  rw [mainInit_eq, Exec.bind_ret hmake, onIssuer, Exec.run_on]
  simp only [microsoftManager, Function.update_idem]
  rfl

/-- **If `main` gets to its loop**, then the file could be read, and the store is made of it. -/
theorem mainInit_ret {u : PUnit}
    (h : (mainInit J P env).run (emptyManager host) = (.ret u, man)) :
    ∃ file, host.files microsoftFile = some file ∧ file.readable = true ∧
      man = microsoftManager (microsoftStore J P file) host := by
  rw [mainInit_run] at h
  cases hdoc : fetchedDocument env host microsoftFile with
  | none =>
    rw [loadMicrosoftFile_of_unreadable hdoc] at h
    cases h
  | some fetched =>
    obtain ⟨file, hfile, hread⟩ := readable_of_fetched hdoc
    rw [loadMicrosoftFile_run hfile hread] at h
    refine ⟨file, hfile, hread, ?_⟩
    cases hkeys : keysMember (P.parse file.content).1 with
    | absent =>
      simp only [hkeys] at h
      cases h
    | array ary =>
      cases hall : allObjects ary with
      | true =>
        simp only [hkeys, hall, if_true] at h
        exact (Prod.mk.inj h).2.symm
      | false =>
        simp only [hkeys, hall, Bool.false_eq_true, if_false] at h
        cases h
    | _ =>
      simp only [hkeys] at h
      exact (Prod.mk.inj h).2.symm

/-- A key set in the file is enough for it. -/
theorem mainInit_of_keySet {file : File} {entries : List Object}
    (hfile : host.files microsoftFile = some file) (hread : file.readable = true)
    (hkeys : KeySet P file.content entries) :
    (mainInit J P env).run (emptyManager host) =
      (.ret ⟨⟩, microsoftManager (microsoftStore J P file) host) := by
  rw [mainInit_run, loadMicrosoftFile_run hfile hread, hkeys.keysMember]
  simp only [allObjects_map, if_true]
  rfl

/-- Every key of a new store comes from the file. -/
theorem configured_start {file : File} (hfetches : host.fetches = []) :
    Configured J P file.content (microsoftManager (microsoftStore J P file) host) where
  others issuer hne := by simp [microsoftManager, hne]
  store := ⟨_, microsoftManager_stores _ _, rfl, rfl⟩
  fetches f hf := by
    have hf : f ∈ host.fetches := hf
    rw [hfetches] at hf
    cases hf
  keys kid verifier hkid := by
    rw [issuerVerifiers_of_some (microsoftManager_stores _ _)] at hkid
    rcases addsFrom_loadedVerifiers file.content (fun _ => none) kid verifier hkid with
      hold | ⟨text, htext, hfrom⟩
    · cases hold
    · exact ⟨text, Or.inl (Option.some.inj htext).symm, hfrom⟩

/-! ## A lookup -/

/-- What a lookup does to a store and its surroundings, however it ends: at most one fetch, from the
store's url, and keys of the document that it brought. -/
structure LookupEffect (J : JwtCpp) (P : Picojson) (s s' : StoreIn) : Prop where
  srcUrl : s'.store.srcUrl = s.store.srcUrl
  backingFile : s'.store.backingFile = s.store.backingFile
  fetches : s'.host.fetches = s.host.fetches ∨
    ∃ reply, s'.host.fetches = ⟨s.store.srcUrl, reply⟩ :: s.host.fetches
  keys : ∀ kid verifier, s'.store.verifiers kid = some verifier →
    s.store.verifiers kid = some verifier ∨
      ∃ text, ⟨s.store.srcUrl, .response 200 text⟩ ∈ s'.host.fetches ∧
        FromDocument J P text kid verifier

theorem lookupEffect_refl (s : StoreIn) : LookupEffect J P s s :=
  ⟨rfl, rfl, Or.inl rfl, fun _ _ h => Or.inl h⟩

/-- A transfer that brings a document is a response of status 200. -/
theorem reply_of_document {url body : Bytes} {reply : CurlReply}
    (h : Fetch.document ⟨url, reply⟩ = some body) : reply = .response 200 body := by
  unfold Fetch.document at h
  cases reply with
  | response httpCode text =>
    by_cases hcode : httpCode = 200
    · simp only [hcode, if_true, Option.some.injEq] at h
      rw [hcode, h]
    · simp [hcode] at h
  | _ => cases h

/-- **A lookup in a remote store.** -/
theorem findVerifier_effect (env : JwksEnv) {s : StoreIn} (hremote : Remote s) (kid : Bytes) :
    LookupEffect J P s ((findVerifier J P env kid).run s).2 := by
  by_cases hdue : RefreshDue env s.store kid
  · rw [findVerifier_run_of_due J P hdue, refresh_run J P env hremote.1,
      fetchedDocument_of_remote env s.host hremote.2, hostAfterFetch_of_remote env s.host hremote.2]
    cases hbody : Fetch.document ⟨s.store.srcUrl, env.curl⟩ with
    | none => exact ⟨rfl, rfl, Or.inr ⟨_, rfl⟩, fun _ _ h => Or.inl h⟩
    | some body =>
      have hreply := reply_of_document hbody
      have hadds := addsFrom_loadedVerifiers (J := J) (P := P) body s.store.verifiers
      simp only [Option.map_some]
      generalize hsaved : saveBacking env s.store body _ = saved
      have hsent : saved.fetches = ⟨s.store.srcUrl, env.curl⟩ :: s.host.fetches := by
        rw [← hsaved, saveBacking_fetches]
      have hmem : ⟨s.store.srcUrl, .response 200 body⟩ ∈ saved.fetches := by
        rw [hsent, hreply]
        exact List.mem_cons_self
      unfold loadedVerifiers at hadds
      cases hkeys : keysMember (P.parse body).1 with
      | array ary =>
        rw [hkeys] at hadds
        have hkeys' : ∀ kid verifier, loadKeys J s.store.verifiers ary kid = some verifier →
            s.store.verifiers kid = some verifier ∨ ∃ text,
              ⟨s.store.srcUrl, .response 200 text⟩ ∈ saved.fetches ∧
                FromDocument J P text kid verifier := by
          intro kid verifier hkid
          rcases hadds kid verifier hkid with hold | ⟨text, htext, hfrom⟩
          · exact Or.inl hold
          · exact Or.inr ⟨text, Option.some.inj htext ▸ hmem, hfrom⟩
        simp only
        split_ifs <;> exact ⟨rfl, rfl, Or.inr ⟨_, hsent⟩, hkeys'⟩
      | _ => exact ⟨rfl, rfl, Or.inr ⟨_, hsent⟩, fun _ _ h => Or.inl h⟩
  · rw [findVerifier_run_of_not_due J P hdue]
    exact lookupEffect_refl s

/-! ## A verification -/

theorem Configured.remote {startup : Bytes} (h : Configured J P startup man) {store : JwksStore}
    (hstore : man.stores (bytes "microsoft") = some store) : Remote ⟨store, man.host⟩ := by
  obtain ⟨store', hstore', hurl, -⟩ := h.store
  obtain rfl := Option.some.inj (hstore.symm.trans hstore')
  exact ⟨by rw [hurl]; exact microsoftUrl_ne_nil, by rw [hurl]; exact isLocal_microsoftUrl⟩

theorem KnownDocument.mono {startup text : Bytes} {host' : Host}
    (h : KnownDocument startup host text) (hfetches : host.fetches <:+ host'.fetches) :
    KnownDocument startup host' text := h.imp_right fun hmem => hfetches.subset hmem

/-- A lookup for `microsoft` keeps the manager as it was set up. -/
theorem Configured.withStore {startup : Bytes} (h : Configured J P startup man)
    {store : JwksStore} (hstore : man.stores (bytes "microsoft") = some store) {s : StoreIn}
    (heffect : LookupEffect J P ⟨store, man.host⟩ s) :
    Configured J P startup (man.withStore (bytes "microsoft") s) ∧
      man.host.fetches <:+ s.host.fetches := by
  obtain ⟨store', hstore', hurl, hback⟩ := h.store
  obtain rfl := Option.some.inj (hstore.symm.trans hstore')
  have hgrows : man.host.fetches <:+ s.host.fetches := by
    rcases heffect.fetches with hsame | ⟨reply, hcons⟩
    · exact hsame ▸ List.suffix_refl _
    · exact hcons ▸ List.suffix_cons _ _
  refine ⟨⟨fun issuer hne => ?_, ⟨_, Manager.withStore_stores_self s, ?_, ?_⟩, fun f hf => ?_,
    fun kid verifier hkid => ?_⟩, hgrows⟩
  · exact (Function.update_of_ne hne _ _).trans (h.others issuer hne)
  · exact heffect.srcUrl.trans hurl
  · exact heffect.backingFile.trans hback
  · rcases heffect.fetches with hsame | ⟨reply, hcons⟩
    · exact h.fetches f (hsame ▸ hf)
    · have hf : f ∈ s.host.fetches := hf
      rw [hcons] at hf
      rcases List.mem_cons.mp hf with rfl | hold
      · exact hurl
      · exact h.fetches f hold
  · rw [issuerVerifiers_of_some (Manager.withStore_stores_self s)] at hkid
    rcases heffect.keys kid verifier hkid with hold | ⟨text, hmem, hfrom⟩
    · have hissuer : issuerVerifiers man (bytes "microsoft") kid = some verifier := by
        rw [issuerVerifiers_of_some hstore, hold]
      obtain ⟨text, hknown, hfrom⟩ := h.keys kid verifier hissuer
      exact ⟨text, hknown.mono hgrows, hfrom⟩
    · exact ⟨text, Or.inr (hurl ▸ hmem), hfrom⟩

/-- The manager is set up, and the fetches are those at first and later ones. -/
def ConfiguredSince (J : JwtCpp) (P : Picojson) (startup : Bytes) (first : List Fetch)
    (man : Manager) : Prop :=
  Configured J P startup man ∧ first <:+ man.host.fetches

/-- A store that is put back. -/
theorem withStore_self {issuer : Bytes} {store : JwksStore} (h : man.stores issuer = some store) :
    man.withStore issuer ⟨store, man.host⟩ = man := by
  obtain ⟨stores, host⟩ := man
  simp only [Manager.withStore, Manager.mk.injEq, and_true]
  exact Function.update_eq_self_iff.mpr h.symm

/-- `verify_jwt` changes the manager by a lookup in the store of its issuer, if at all. -/
theorem keeps_verifyJwt_of {issuer jwtStr : Bytes} {I : Manager → Prop}
    (hlookup : ∀ man, I man → ∀ store, man.stores issuer = some store → ∀ kid,
      I (man.withStore issuer ((findVerifier J P env kid).run ⟨store, man.host⟩).2)) :
    (verifyJwt J P env issuer jwtStr).Keeps I := by
  intro man h
  cases hstore : man.stores issuer with
  | none =>
    rw [verifyJwt, Exec.bind_ret (Exec.run_get man), hstore]
    exact h
  | some store =>
    rw [verifyJwt_run env _ jwtStr hstore]
    cases J.decode jwtStr with
    | error e => exact h
    | ok jwt =>
      simp only
      cases J.getKeyId jwt with
      | error e => exact h
      | ok kid =>
        have hkept := hlookup man h store hstore kid
        simp only
        rcases hfind : (findVerifier J P env kid).run ⟨store, man.host⟩ with ⟨found | _ | _, s'⟩
        all_goals rw [hfind] at hkept
        · cases found <;> exact hkept
        · exact hkept
        · exact hkept

/-- It keeps the manager as it was set up. -/
theorem keeps_verifyJwt (env : JwksEnv) (jwtStr startup : Bytes) (first : List Fetch) :
    (verifyJwt J P env (bytes "microsoft") jwtStr).Keeps
      (ConfiguredSince J P startup first) := by
  refine keeps_verifyJwt_of fun man h store hstore kid => ?_
  obtain ⟨hconfigured, hgrows⟩ := h.1.withStore hstore
    (findVerifier_effect (J := J) (P := P) env (h.1.remote hstore) kid)
  exact ⟨hconfigured, h.2.trans hgrows⟩

end FcgiJwtAuth
