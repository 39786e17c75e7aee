import FcgiJwtAuth.Libraries.JwtCpp

/-!
# The key store

`JWKSStore` holds the verifiers of one issuer by key id. `find_verifier` answers from it; for a kid
it does not know it fetches the issuer's document again when 24 hours have gone by since the last
fetch. `JWKSStoreManager` keeps one store for each issuer.

Times are nanoseconds since the epoch. What a call finds outside of the process (the clock, the
reply to a fetch, what saving a file does) is its `JwksEnv`; the files and the fetches sent so far
are state, in `Host`.
-/

namespace FcgiJwtAuth

open CLang

/-! ## Files and the network -/

/-- A file that can be opened. -/
structure File where
  content : Bytes
  /-- `file.read` succeeds. -/
  readable : Bool
  /-- `st_mtime`, if `stat` succeeds. -/
  mtime : Option ℤ

/-- The files by name. -/
abbrev Files := Bytes → Option File

/-- How a transfer of libcurl can go. -/
inductive CurlReply
  /-- `curl_easy_init` fails. -/
  | noHandle
  /-- `curl_easy_perform` answers an error. -/
  | failed
  | response (httpCode : ℤ) (body : Bytes)

/-- A fetch of a remote document, as it went. -/
structure Fetch where
  url : Bytes
  reply : CurlReply

/-- What the process sees of its surroundings. -/
structure Host where
  files : Files
  /-- The remote fetches, most recent first. -/
  fetches : List Fetch

/-- The inputs of one call. -/
structure JwksEnv where
  /-- `system_clock::now()`. -/
  now : ℤ
  /-- How a fetch goes, if the call makes one. -/
  curl : CurlReply
  /-- What `filesystem_saveramtofile(name, content)` leaves. -/
  saveRamToFile : Bytes → Bytes → Files → Files
  /-- The second that the clock of the verifier reads. -/
  verifyNow : ℤ

/-- `url.front() == '.' || url.front() == '/'`, of a url that has a first character. -/
def isLocal (url : Bytes) : Bool := url.head? = some (ch '.') || url.head? = some (ch '/')

/-- `JWKSStoreManager::fetch_jwks_json`: the document, and the value left in `*last_write_time`
(`none` for a null pointer). Only the branch that reads a file writes to it. -/
def fetchJwksJson (env : JwksEnv) (url : Bytes) (lastWriteTime : Option ℤ) :
    Exec Host (Bytes × Option ℤ) :=
  -- `front()` of an empty string
  if url = [] then Exec.undefined
  else if isLocal url then do
    let host ← Exec.get
    match host.files url with
    | none => Exec.throw .runtimeError
    | some file =>
      if file.readable then
        pure (file.content, lastWriteTime.map fun t => file.mtime.getD t)
      else Exec.throw .runtimeError
  else do
    Exec.modify fun host => { host with fetches := ⟨url, env.curl⟩ :: host.fetches }
    match env.curl with
    | .noHandle => Exec.throw .runtimeError
    | .failed => Exec.throw .runtimeError
    | .response httpCode body =>
      if httpCode = 200 then pure (body, lastWriteTime) else Exec.throw .runtimeError

/-! ## The store of one issuer -/

/-- `JWKSStore`. -/
structure JwksStore where
  srcUrl : Bytes := []
  backingFile : Bytes := []
  lastFetchTime : ℤ := 0
  verifiers : Bytes → Option Verifier := fun _ => none

section

variable (J : JwtCpp) (P : Picojson)

/-- `key.at(name).get<std::string>()`. -/
def atString (key : Object) (name : Bytes) : Except Exn Bytes :=
  match key.find name with
  | none => .error .outOfRange
  | some (.string s) => .ok s
  | some _ => .error .runtimeError

/-- The algorithm built inside the `try` of `add_key_from_json_object`; `none` for an unsupported
key type or curve. -/
def keyAlgorithm (kty : Bytes) (key : Object) : Except Exn (Option Algorithm) :=
  if kty = bytes "RSA" then do
    let n ← atString key (bytes "n")
    let e ← atString key (bytes "e")
    let pubkey ← J.createPublicKeyFromRsaComponents n e
    let rsaAlg ← J.rs256 pubkey
    return some rsaAlg
  else if kty = bytes "EC" then do
    let crv ← atString key (bytes "crv")
    let x ← atString key (bytes "x")
    let y ← atString key (bytes "y")
    if crv = bytes "P-256" then
      let pubkey ← J.createPublicKeyFromEcComponents crv x y
      let ecAlg ← J.es256 pubkey
      return some ecAlg
    else return none
  else return none

/-- The verifier of a key: one algorithm, and a leeway of eight years. -/
def keyVerifier (alg : Algorithm) : Verifier :=
  (({} : Verifier).allowAlgorithm alg).withLeeway (8 * 365 * 24 * 60 * 60)

/-- `try_emplace(kid, …)`, and the set-up of the verifier if it was inserted. -/
def tryEmplace (kid : Bytes) (alg : Algorithm) : Exec JwksStore Bool := do
  let store ← Exec.get
  match store.verifiers kid with
  | some _ => pure false
  | none =>
    Exec.modify fun store =>
      { store with verifiers := Function.update store.verifiers kid (some (keyVerifier alg)) }
    pure true

/-- `JWKSStore::add_key_from_json_object`. -/
def addKeyFromJsonObject (key : Object) : Exec JwksStore Bool :=
  match (key.find (bytes "kid")).bind Json.string?, (key.find (bytes "kty")).bind Json.string? with
  | some kid, some kty =>
    Exec.catching
      (do
        match ← Exec.ofExcept (keyAlgorithm J kty key) with
        | some alg => tryEmplace kid alg
        | none => pure false)
      -- `catch (const std::exception &)`
      (fun _ => some (pure false))
  | _, _ => pure false

/-- The loop over the array: `get<picojson::object>()` of anything else throws. -/
def addKeys : List Json → Exec JwksStore PUnit
  | [] => pure ⟨⟩
  | .object key :: rest => do
    let _ ← addKeyFromJsonObject J key
    addKeys rest
  | _ :: _ => Exec.throw .runtimeError

/-- `JWKSStore::add_jwks_verifiers_from_string`; `false` is the null pointer. -/
def addJwksVerifiersFromString (jwksString : Bytes) : Exec JwksStore Bool :=
  match (P.parse jwksString).1 with
  | .object obj =>
    match Object.find obj (bytes "keys") with
    -- `find("keys")->second` without looking at the iterator
    | none => Exec.undefined
    | some (.array ary) => do
      addKeys J ary
      pure true
    | some _ => pure false
  | _ => pure false

/-- A store together with its surroundings. -/
structure StoreIn where
  store : JwksStore
  host : Host

/-- A call on the host alone. -/
def onHost {α : Type} (m : Exec Host α) : Exec StoreIn α :=
  m.on StoreIn.host fun host s => { s with host := host }

/-- A call on the store alone. -/
def onStore {α : Type} (m : Exec JwksStore α) : Exec StoreIn α :=
  m.on StoreIn.store fun store s => { s with store := store }

/-- `duration_cast<hours>`. -/
def hours (ns : ℤ) : ℤ := ns.tdiv 3600000000000

/-- The document is saved to the backing file, if there is one; a failure is only logged. -/
def saveBackingFile (env : JwksEnv) (store : JwksStore) (jwksJsonStr : Bytes) :
    Exec Host PUnit :=
  if store.backingFile = [] then pure ⟨⟩
  else Exec.modify fun host =>
    { host with files := env.saveRamToFile store.backingFile jwksJsonStr host.files }

/-- The refresh branch of `find_verifier`. -/
def refresh (env : JwksEnv) : Exec StoreIn PUnit := do
  let s ← Exec.get
  let fetched ← onHost (fetchJwksJson env s.store.srcUrl (some 0))
  let _ ← onHost (saveBackingFile env s.store fetched.1)
  let _ ← onStore (addJwksVerifiersFromString J P fetched.1)
  onStore <| Exec.modify fun store =>
    { store with lastFetchTime := fetched.2.getD 0 * 1000000000 }

/-- A refresh, unless the last fetch is less than 24 hours ago. -/
def refreshIfDue (env : JwksEnv) : Exec StoreIn PUnit := do
  let s ← Exec.get
  if 24 ≤ hours (env.now - s.store.lastFetchTime) then refresh J P env else pure ⟨⟩

/-- `JWKSStore::find_verifier`. -/
def findVerifier (env : JwksEnv) (kid : Bytes) : Exec StoreIn (Option Verifier) := do
  let s ← Exec.get
  match s.store.verifiers kid with
  | some verifier => pure (some verifier)
  | none =>
    let _ ← refreshIfDue J P env
    let s ← Exec.get
    pure (s.store.verifiers kid)

/-! ## The stores of all issuers -/

/-- `JWKSStoreManager`, with the surroundings its calls see. -/
structure Manager where
  stores : Bytes → Option JwksStore
  host : Host

/-- A call on the store of an issuer, which is there. -/
def onIssuer {α : Type} (issuer : Bytes) (store : JwksStore) (m : Exec StoreIn α) :
    Exec Manager α :=
  m.on (fun man => ⟨store, man.host⟩)
    fun s man => { stores := Function.update man.stores issuer (some s.store), host := s.host }

/-- `JWKSStoreManager::verify_jwt`. -/
def verifyJwt (env : JwksEnv) (issuer jwtStr : Bytes) : Exec Manager Bool := do
  let man ← Exec.get
  match man.stores issuer with
  | none => pure false
  | some store =>
    let jwt ← Exec.ofExcept (J.decode jwtStr)
    let kid ← Exec.ofExcept (J.getKeyId jwt)
    match ← onIssuer issuer store (findVerifier J P env kid) with
    | none => pure false
    | some tokenVerifier =>
      -- `catch (std::exception &)`
      match J.verify tokenVerifier jwt env.verifyNow with
      | .ok _ => pure true
      | .error _ => pure false

/-- `JWKSStoreManager::get_or_create_store`: the store it points at. -/
def getOrCreateStore (issuer : Bytes) : Exec Manager JwksStore := do
  let man ← Exec.get
  match man.stores issuer with
  | some store => pure store
  | none =>
    Exec.modify fun man => { man with stores := Function.update man.stores issuer (some {}) }
    pure {}

/-- `JWKSStoreManager::init_store`: the store it points at. -/
def initStore (issuer srcUrl : Bytes) : Exec Manager JwksStore := do
  let man ← Exec.get
  match man.stores issuer with
  | some store => pure store
  | none =>
    Exec.modify fun man =>
      { man with stores := Function.update man.stores issuer (some { srcUrl := srcUrl }) }
    pure { srcUrl := srcUrl }

/-- The store of an issuer, made with a url and the time if there is none. -/
def findOrMakeStore (env : JwksEnv) (issuer sourceUrl : Bytes) : Exec Manager JwksStore := do
  let man ← Exec.get
  match man.stores issuer with
  | some store => pure store
  | none =>
    let store : JwksStore := { srcUrl := sourceUrl, lastFetchTime := env.now }
    Exec.modify fun man => { man with stores := Function.update man.stores issuer (some store) }
    pure store

/-- `JWKSStoreManager::add_jwks_verifiers_from_string`; `false` is the null pointer. -/
def managerAddJwksVerifiersFromString (env : JwksEnv) (issuer sourceUrl jwksJson : Bytes) :
    Exec Manager Bool :=
  match (P.parse jwksJson).1 with
  | .object obj =>
    match Object.find obj (bytes "keys") with
    -- here too the iterator is not looked at
    | none => Exec.undefined
    | some (.array ary) => do
      let store ← findOrMakeStore env issuer sourceUrl
      onIssuer issuer store <| onStore (addKeys J ary)
      pure true
    | some _ => pure false
  | _ => pure false

/-- The loop of `get_jwk`: the first object with this kid and some kty; an empty one if there is
none. -/
def findJwk (keyId : Bytes) : List Json → Object
  | [] => []
  | .object key :: rest =>
    match (Object.find key (bytes "kid")).bind Json.string?,
        (Object.find key (bytes "kty")).bind Json.string? with
    | some kid, some _ => if kid = keyId then key else findJwk keyId rest
    | _, _ => findJwk keyId rest
  | _ :: rest => findJwk keyId rest

/-- `JWKSStoreManager::get_jwk`. -/
def getJwk (jwksJson keyId : Bytes) : Except Exn Object :=
  match P.parse jwksJson with
  | (.object obj, true) =>
    match Object.find obj (bytes "keys") with
    | some (.array keys) => .ok (findJwk keyId keys)
    | _ => .error .runtimeError
  | _ => .error .runtimeError

/-- The block of `main` that sets up the `microsoft` store from its backing file. -/
def mainInit (env : JwksEnv) : Exec Manager PUnit := do
  let store ← getOrCreateStore (bytes "microsoft")
  let backingFile := bytes "./conf/microsoft.jwks.json"
  onIssuer (bytes "microsoft")
    { store with
      backingFile := backingFile
      srcUrl := bytes "https://login.microsoftonline.com/common/discovery/v2.0/keys" } <| do
    let fetched ← onHost (fetchJwksJson env backingFile (some 0))
    let _ ← onStore (addJwksVerifiersFromString J P fetched.1)
    onStore <| Exec.modify fun store =>
      { store with lastFetchTime := fetched.2.getD 0 * 1000000000 }

end

end FcgiJwtAuth
