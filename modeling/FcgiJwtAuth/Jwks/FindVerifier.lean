import FcgiJwtAuth.Jwks.Store

/-!
# What looking up a key does

The pure meaning of loading a key document (`loadKey`, `keysMember`), and from it the outcomes of
`find_verifier`: the kid is known; it is not and the last fetch is too recent; or the store is
refreshed, which may fail, throw in the middle of loading, or run into an absent `keys` member.
-/

namespace FcgiJwtAuth

open CLang

/-- The verifiers of a store. -/
abbrev Verifiers := Bytes → Option Verifier

variable (J : JwtCpp) (P : Picojson)

/-! ## Loading keys -/

/-- The kid and the algorithm of an entry that the store takes. -/
def acceptableKey (key : Object) : Option (Bytes × Algorithm) :=
  match (key.find (bytes "kid")).bind Json.string?, (key.find (bytes "kty")).bind Json.string? with
  | some kid, some kty =>
    match keyAlgorithm J kty key with
    | .ok (some alg) => some (kid, alg)
    | _ => none
  | _, _ => none

/-- A verifier for the kid, unless there is one. -/
def emplace (verifiers : Verifiers) (kid : Bytes) (alg : Algorithm) : Verifiers :=
  match verifiers kid with
  | some _ => verifiers
  | none => Function.update verifiers kid (some (keyVerifier alg))

/-- What one entry adds. -/
def loadKey (verifiers : Verifiers) (key : Object) : Verifiers :=
  match acceptableKey J key with
  | none => verifiers
  | some (kid, alg) => emplace verifiers kid alg

theorem tryEmplace_run (kid : Bytes) (alg : Algorithm) (store : JwksStore) :
    ∃ inserted, (tryEmplace kid alg).run store =
      (.ret inserted, { store with verifiers := emplace store.verifiers kid alg }) := by
  unfold tryEmplace emplace
  rw [Exec.bind_ret (Exec.run_get store)]
  cases store.verifiers kid with
  | some v => exact ⟨false, rfl⟩
  | none => exact ⟨true, rfl⟩

/-- Adding a key never throws, and changes nothing but the verifiers. -/
theorem addKeyFromJsonObject_run (key : Object) (store : JwksStore) :
    ∃ added, (addKeyFromJsonObject J key).run store =
      (.ret added, { store with verifiers := loadKey J store.verifiers key }) := by
  unfold addKeyFromJsonObject loadKey acceptableKey
  cases (key.find (bytes "kid")).bind Json.string? with
  | none => exact ⟨false, rfl⟩
  | some kid =>
    cases (key.find (bytes "kty")).bind Json.string? with
    | none => exact ⟨false, rfl⟩
    | some kty =>
      simp only
      cases keyAlgorithm J kty key with
      | error e => exact ⟨false, rfl⟩
      | ok alg? =>
        cases alg? with
        | none => exact ⟨false, rfl⟩
        | some alg =>
          obtain ⟨inserted, hrun⟩ := tryEmplace_run kid alg store
          exact ⟨inserted, Exec.catching_ret hrun⟩

/-- The entries in front of the first one that is not an object. -/
def leadingObjects : List Json → List Object
  | .object key :: rest => key :: leadingObjects rest
  | _ => []

/-- Every element is an object. -/
def allObjects : List Json → Bool
  | [] => true
  | .object _ :: rest => allObjects rest
  | _ :: _ => false

/-- What the loop adds: the entries up to the first one that is not an object. -/
def loadKeys (verifiers : Verifiers) (ary : List Json) : Verifiers :=
  (leadingObjects ary).foldl (loadKey J) verifiers

/-- The loop runs through an array of objects, and throws at anything else. -/
theorem addKeys_run (ary : List Json) (store : JwksStore) :
    (addKeys J ary).run store =
      (if allObjects ary then .ret ⟨⟩ else .throws .runtimeError,
        { store with verifiers := loadKeys J store.verifiers ary }) := by
  induction ary generalizing store with
  | nil => rfl
  | cons v rest ih =>
    cases v with
    | object key =>
      obtain ⟨added, hrun⟩ := addKeyFromJsonObject_run J key store
      rw [addKeys, Exec.bind_ret hrun, ih]
      rfl
    | _ => rfl

/-! ## Key documents -/

/-- What `find("keys")` meets. -/
inductive KeysMember
  | notObject
  | absent
  | notArray
  | array (elements : List Json)

def keysMember (v : Json) : KeysMember :=
  match v with
  | .object obj =>
    match Object.find obj (bytes "keys") with
    | none => .absent
    | some (.array ary) => .array ary
    | some _ => .notArray
  | _ => .notObject

/-- Loading a document, by what its `keys` member is. -/
theorem addJwksVerifiersFromString_run (jwksString : Bytes) (store : JwksStore) :
    (addJwksVerifiersFromString J P jwksString).run store =
      match keysMember (P.parse jwksString).1 with
      | .absent => (.undefined, store)
      | .array ary =>
        (if allObjects ary then .ret true else .throws .runtimeError,
          { store with verifiers := loadKeys J store.verifiers ary })
      | _ => (.ret false, store) := by
  unfold addJwksVerifiersFromString keysMember
  cases (P.parse jwksString).1 with
  | object obj =>
    simp only
    cases Object.find obj (bytes "keys") with
    | none => rfl
    | some v =>
      cases v with
      | array ary =>
        simp only
        rw [Exec.run_bind, addKeys_run]
        cases allObjects ary <;> rfl
      | _ => rfl
  | _ => rfl

/-! ## Fetching -/

/-- The document and the write time of a fetch that succeeds. -/
def fetchedDocument (env : JwksEnv) (host : Host) (url : Bytes) : Option (Bytes × ℤ) :=
  if isLocal url then
    match host.files url with
    | none => none
    | some file => if file.readable then some (file.content, file.mtime.getD 0) else none
  else
    match env.curl with
    | .response httpCode body => if httpCode = 200 then some (body, 0) else none
    | _ => none

/-- A remote fetch is sent whether it succeeds or not. -/
def hostAfterFetch (env : JwksEnv) (host : Host) (url : Bytes) : Host :=
  if isLocal url then host else { host with fetches := ⟨url, env.curl⟩ :: host.fetches }

theorem fetchJwksJson_run (env : JwksEnv) {url : Bytes} (hurl : url ≠ []) (host : Host) :
    (fetchJwksJson env url (some 0)).run host =
      match fetchedDocument env host url with
      | some (body, t) => (.ret (body, some t), hostAfterFetch env host url)
      | none => (.throws .runtimeError, hostAfterFetch env host url) := by
  unfold fetchJwksJson fetchedDocument hostAfterFetch
  rw [if_neg hurl]
  cases isLocal url with
  | true =>
    simp only [if_true]
    rw [Exec.bind_ret (Exec.run_get host)]
    cases host.files url with
    | none => rfl
    | some file => cases hr : file.readable <;> simp [hr]
  | false =>
    simp only [Bool.false_eq_true, if_false]
    rw [Exec.bind_ret (Exec.run_modify _ host)]
    cases env.curl with
    | noHandle => rfl
    | failed => rfl
    | response httpCode body => by_cases hcode : httpCode = 200 <;> simp [hcode]

/-! ## The refresh -/

/-- The fetched document is saved to the backing file, if the store has one. -/
def saveBacking (env : JwksEnv) (store : JwksStore) (body : Bytes) (host : Host) : Host :=
  if store.backingFile = [] then host
  else { host with files := env.saveRamToFile store.backingFile body host.files }

theorem onHost_saveBackingFile (env : JwksEnv) (store : JwksStore) (body : Bytes) (s : StoreIn) :
    (onHost (saveBackingFile env store body)).run s =
      (.ret ⟨⟩, { s with host := saveBacking env store body s.host }) := by
  unfold onHost saveBackingFile saveBacking
  by_cases hback : store.backingFile = []
  · rw [if_pos hback, if_pos hback]
    rfl
  · rw [if_neg hback, if_neg hback]
    rfl

/-- A refresh, by how the fetch went and what the document is. -/
theorem refresh_run (env : JwksEnv) {s : StoreIn} (hurl : s.store.srcUrl ≠ []) :
    (refresh J P env).run s =
      match fetchedDocument env s.host s.store.srcUrl with
      | none => (.throws .runtimeError,
          { s with host := hostAfterFetch env s.host s.store.srcUrl })
      | some (body, t) =>
        let host := saveBacking env s.store body (hostAfterFetch env s.host s.store.srcUrl)
        match keysMember (P.parse body).1 with
        | .absent => (.undefined, { store := s.store, host := host })
        | .array ary =>
          let loaded := { s.store with verifiers := loadKeys J s.store.verifiers ary }
          if allObjects ary then
            (.ret ⟨⟩, { store := { loaded with lastFetchTime := t * 1000000000 }, host := host })
          else (.throws .runtimeError, { store := loaded, host := host })
        | _ => (.ret ⟨⟩,
            { store := { s.store with lastFetchTime := t * 1000000000 }, host := host }) := by
  unfold refresh
  rw [Exec.bind_ret (Exec.run_get s)]
  have hfetch : (onHost (fetchJwksJson env s.store.srcUrl (some 0))).run s =
      match fetchedDocument env s.host s.store.srcUrl with
      | some (body, t) => (.ret (body, some t),
          { s with host := hostAfterFetch env s.host s.store.srcUrl })
      | none => (.throws .runtimeError,
          { s with host := hostAfterFetch env s.host s.store.srcUrl }) := by
    rw [onHost, Exec.run_on, fetchJwksJson_run env hurl]
    cases fetchedDocument env s.host s.store.srcUrl <;> rfl
  cases hdoc : fetchedDocument env s.host s.store.srcUrl with
  | none =>
    rw [hdoc] at hfetch
    rw [Exec.bind_throws hfetch]
  | some fetched =>
    obtain ⟨body, t⟩ := fetched
    rw [hdoc] at hfetch
    rw [Exec.bind_ret hfetch, Exec.bind_ret (onHost_saveBackingFile env s.store body _),
      Exec.run_bind, onStore, Exec.run_on, addJwksVerifiersFromString_run]
    cases hkeys : keysMember (P.parse body).1 with
    | array ary => cases hall : allObjects ary <;> simp [hkeys, hall, onStore]
    | _ => simp [hkeys, onStore]

/-! ## Outcomes of the lookup -/

/-- The kid is not known, and the last fetch is at least 24 hours ago. -/
def RefreshDue (env : JwksEnv) (store : JwksStore) (kid : Bytes) : Prop :=
  store.verifiers kid = none ∧ 24 ≤ hours (env.now - store.lastFetchTime)

/-- The refresh has undefined behaviour: the store has no source, or the document fetched is an
object without a `keys` member. -/
def RefreshBreaks (env : JwksEnv) (s : StoreIn) : Prop :=
  s.store.srcUrl = [] ∨
    ∃ body t, fetchedDocument env s.host s.store.srcUrl = some (body, t) ∧
      keysMember (P.parse body).1 = .absent

/-- A lookup that makes such a refresh. -/
def LookupBreaks (env : JwksEnv) (s : StoreIn) (kid : Bytes) : Prop :=
  RefreshDue env s.store kid ∧ RefreshBreaks P env s

/-- The verifiers after a refresh that gets through: a document fetched, and every entry of its
keys an object. -/
def refreshedVerifiers (env : JwksEnv) (s : StoreIn) : Option Verifiers :=
  if s.store.srcUrl = [] then none
  else
    match fetchedDocument env s.host s.store.srcUrl with
    | none => none
    | some (body, _) =>
      match keysMember (P.parse body).1 with
      | .absent => none
      | .array ary =>
        if allObjects ary then some (loadKeys J s.store.verifiers ary) else none
      | _ => some s.store.verifiers

/-- The verifier a kid resolves to: the one in the store, or the one a refresh that is due
brings. -/
def resolvedVerifier (env : JwksEnv) (s : StoreIn) (kid : Bytes) : Option Verifier :=
  match s.store.verifiers kid with
  | some verifier => some verifier
  | none =>
    if 24 ≤ hours (env.now - s.store.lastFetchTime) then
      (refreshedVerifiers J P env s).bind fun verifiers => verifiers kid
    else none

/-- Without a refresh the answer is what the store holds, and nothing changes. -/
theorem findVerifier_run_of_not_due {env : JwksEnv} {s : StoreIn} {kid : Bytes}
    (h : ¬ RefreshDue env s.store kid) :
    (findVerifier J P env kid).run s = (.ret (s.store.verifiers kid), s) := by
  unfold findVerifier
  rw [Exec.bind_ret (Exec.run_get s)]
  cases hkid : s.store.verifiers kid with
  | some verifier => rfl
  | none =>
    have hrecent : ¬ 24 ≤ hours (env.now - s.store.lastFetchTime) := fun hd => h ⟨hkid, hd⟩
    have hskip : (refreshIfDue J P env).run s = (.ret ⟨⟩, s) := by
      rw [refreshIfDue, Exec.bind_ret (Exec.run_get s), if_neg hrecent]
      rfl
    simp only
    rw [Exec.bind_ret hskip, Exec.bind_ret (Exec.run_get s), hkid]
    rfl

/-- A lookup that is due refreshes, and answers from the refreshed store. -/
theorem findVerifier_run_of_due {env : JwksEnv} {s : StoreIn} {kid : Bytes}
    (h : RefreshDue env s.store kid) :
    (findVerifier J P env kid).run s =
      match (refresh J P env).run s with
      | (.ret _, s') => (.ret (s'.store.verifiers kid), s')
      | (.throws e, s') => (.throws e, s')
      | (.undefined, s') => (.undefined, s') := by
  unfold findVerifier
  rw [Exec.bind_ret (Exec.run_get s)]
  have hrefresh : (refreshIfDue J P env).run s = (refresh J P env).run s := by
    rw [refreshIfDue, Exec.bind_ret (Exec.run_get s), if_pos h.2]
  simp only [h.1]
  rw [Exec.run_bind, hrefresh]
  rcases (refresh J P env).run s with ⟨_ | _ | _, s'⟩ <;> rfl

/-- With no source to fetch from, the first character of the empty url is read. -/
theorem refresh_run_of_no_source {env : JwksEnv} {s : StoreIn} (hurl : s.store.srcUrl = []) :
    (refresh J P env).run s = (.undefined, s) := by
  rw [refresh, Exec.bind_ret (Exec.run_get s)]
  apply Exec.bind_undefined
  rw [onHost, Exec.run_on, hurl]
  rfl

/-- How a refresh ends. -/
theorem refresh_outcome (env : JwksEnv) (s : StoreIn) :
    (∃ s', (refresh J P env).run s = (.ret ⟨⟩, s') ∧
        refreshedVerifiers J P env s = some s'.store.verifiers ∧ ¬ RefreshBreaks P env s) ∨
      refreshedVerifiers J P env s = none ∧
        ((∃ s', (refresh J P env).run s = (.undefined, s')) ∧ RefreshBreaks P env s ∨
          (∃ s', (refresh J P env).run s = (.throws .runtimeError, s')) ∧
            ¬ RefreshBreaks P env s) := by
  unfold refreshedVerifiers RefreshBreaks
  by_cases hurl : s.store.srcUrl = []
  · rw [refresh_run_of_no_source J P hurl]
    simp [hurl]
  · rw [refresh_run J P env hurl, if_neg hurl]
    cases hdoc : fetchedDocument env s.host s.store.srcUrl with
    | none => simp [hurl]
    | some fetched =>
      obtain ⟨body, t⟩ := fetched
      cases hkeys : keysMember (P.parse body).1 with
      | array ary => cases hall : allObjects ary <;> simp [hurl, hkeys, hall]
      | _ => simp [hurl, hkeys]

/-- **How a lookup ends.** It returns the verifier that the kid resolves to, or throws a
`runtime_error`, except where a refresh that is due has undefined behaviour. -/
theorem findVerifier_outcome (env : JwksEnv) (s : StoreIn) (kid : Bytes) :
    ((findVerifier J P env kid).run s).1 = .ret (resolvedVerifier J P env s kid) ∧
        ¬ LookupBreaks P env s kid ∨
      resolvedVerifier J P env s kid = none ∧
        (((findVerifier J P env kid).run s).1 = .undefined ∧ LookupBreaks P env s kid ∨
          ((findVerifier J P env kid).run s).1 = .throws .runtimeError ∧
            ¬ LookupBreaks P env s kid) := by
  by_cases hdue : RefreshDue env s.store kid
  · have hresolved : resolvedVerifier J P env s kid =
        (refreshedVerifiers J P env s).bind fun verifiers => verifiers kid := by
      simp only [resolvedVerifier, hdue.1, if_pos hdue.2]
    rw [findVerifier_run_of_due J P hdue, hresolved]
    rcases refresh_outcome J P env s with ⟨s', hrun, hsome, hok⟩ | ⟨hnone, hbad | hthrow⟩
    · rw [hrun, hsome]
      exact Or.inl ⟨rfl, fun h => hok h.2⟩
    · obtain ⟨⟨s', hrun⟩, hbreaks⟩ := hbad
      rw [hrun, hnone]
      exact Or.inr ⟨rfl, Or.inl ⟨rfl, hdue, hbreaks⟩⟩
    · obtain ⟨⟨s', hrun⟩, hok⟩ := hthrow
      rw [hrun, hnone]
      exact Or.inr ⟨rfl, Or.inr ⟨rfl, fun h => hok h.2⟩⟩
  · have hresolved : resolvedVerifier J P env s kid = s.store.verifiers kid := by
      unfold resolvedVerifier
      cases hkid : s.store.verifiers kid with
      | some verifier => rfl
      | none =>
        have hrecent : ¬ 24 ≤ hours (env.now - s.store.lastFetchTime) := fun h => hdue ⟨hkid, h⟩
        simp only [if_neg hrecent]
    rw [findVerifier_run_of_not_due J P hdue, hresolved]
    exact Or.inl ⟨rfl, fun h => hdue h.1⟩

end FcgiJwtAuth
