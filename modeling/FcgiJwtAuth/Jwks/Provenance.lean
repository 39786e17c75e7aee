import FcgiJwtAuth.CLang.Run
import FcgiJwtAuth.Jwks.MalformedDocuments
import FcgiJwtAuth.Jwks.RefreshContent

/-!
# Where the keys of an issuer come from

A manager starts without stores. Whatever calls are made of it, for whatever issuers, a key in the
store of an issuer is an entry of a document that was loaded into that store or fetched for it; so a
token is accepted under such a key only, and the stores of other issuers make no difference.
-/

namespace FcgiJwtAuth

open CLang

/-! ## The calls -/

/-- What the rest of the program does with a manager and the stores it points at. -/
inductive ManagerCall
  | getOrCreateStore (issuer : Bytes)
  | initStore (issuer srcUrl : Bytes)
  | addJwksVerifiers (env : JwksEnv) (issuer sourceUrl jwksJson : Bytes)
  /-- `add_jwks_verifiers_from_string` of the store. -/
  | loadStore (issuer jwksString : Bytes)
  /-- Fields of the store are assigned, as in `main`. -/
  | setFields (issuer srcUrl backingFile : Bytes) (lastFetchTime : ℤ)
  | fetchJwksJson (env : JwksEnv) (url : Bytes)
  /-- `find_verifier` of the store. -/
  | findVerifier (env : JwksEnv) (issuer kid : Bytes)
  | verifyJwt (env : JwksEnv) (issuer jwtStr : Bytes)
  /-- No call: the files change. -/
  | filesChange (files : Files)

/-- What a call returns, as far as it is looked at. -/
inductive Answer
  | done
  | loaded (success : Bool)
  | found (verifier : Option Verifier)
  | verified (accepted : Bool)

/-- A call on the store of an issuer: without one it is made on a null pointer. -/
def onStoreOf {α : Type} (issuer : Bytes) (m : Exec StoreIn α) : Exec Manager α := do
  let man ← Exec.get
  match man.stores issuer with
  | none => Exec.undefined
  | some store => onIssuer issuer store m

/-- A call on the host of a manager. -/
def onManagerHost {α : Type} (m : Exec Host α) : Exec Manager α :=
  m.on Manager.host fun host man => { man with host := host }

section

variable (J : JwtCpp) (P : Picojson)

/-- The call is made. -/
def ManagerCall.exec : ManagerCall → Exec Manager Answer
  | .getOrCreateStore issuer => do
    let _ ← FcgiJwtAuth.getOrCreateStore issuer
    pure .done
  | .initStore issuer srcUrl => do
    let _ ← FcgiJwtAuth.initStore issuer srcUrl
    pure .done
  | .addJwksVerifiers env issuer sourceUrl jwksJson => do
    let success ← managerAddJwksVerifiersFromString J P env issuer sourceUrl jwksJson
    pure (.loaded success)
  | .loadStore issuer jwksString => do
    let success ← onStoreOf issuer (onStore (addJwksVerifiersFromString J P jwksString))
    pure (.loaded success)
  | .setFields issuer srcUrl backingFile lastFetchTime => do
    onStoreOf issuer <| onStore <| Exec.modify fun store =>
      { store with srcUrl := srcUrl, backingFile := backingFile, lastFetchTime := lastFetchTime }
    pure .done
  | .fetchJwksJson env url => do
    let _ ← onManagerHost (FcgiJwtAuth.fetchJwksJson env url none)
    pure .done
  | .findVerifier env issuer kid => do
    let verifier ← onStoreOf issuer (FcgiJwtAuth.findVerifier J P env kid)
    pure (.found verifier)
  | .verifyJwt env issuer jwtStr => do
    let accepted ← FcgiJwtAuth.verifyJwt J P env issuer jwtStr
    pure (.verified accepted)
  | .filesChange files => do
    onManagerHost <| Exec.modify fun host => { host with files := files }
    pure .done

/-- A call as a step of a run. -/
def callStep (man : Manager) (call : ManagerCall) : Option (Outcome Answer × Manager) :=
  (call.exec J P).step man

/-- The issuer whose store a call is about. -/
def ManagerCall.issuer : ManagerCall → Option Bytes
  | .getOrCreateStore issuer => some issuer
  | .initStore issuer _ => some issuer
  | .addJwksVerifiers _ issuer _ _ => some issuer
  | .loadStore issuer _ => some issuer
  | .setFields issuer _ _ _ => some issuer
  | .fetchJwksJson _ _ => none
  | .findVerifier _ issuer _ => some issuer
  | .verifyJwt _ issuer _ => some issuer
  | .filesChange _ => none

/-! ## The documents of an issuer -/

/-- The document that a lookup of the kid fetches, if it makes a refresh. -/
def fetchedFor (env : JwksEnv) (s : StoreIn) (kid : Bytes) : Option Bytes :=
  match s.store.verifiers kid with
  | some _ => none
  | none =>
    if 24 ≤ hours (env.now - s.store.lastFetchTime) ∧ s.store.srcUrl ≠ [] then
      (fetchedDocument env s.host s.store.srcUrl).map Prod.fst
    else none

/-- The document that `verify_jwt` fetches for an issuer. -/
def fetchedForToken (env : JwksEnv) (man : Manager) (issuer jwtStr : Bytes) : Option Bytes :=
  match man.stores issuer, J.decode jwtStr with
  | some store, .ok jwt =>
    match J.getKeyId jwt with
    | .ok kid => fetchedFor env ⟨store, man.host⟩ kid
    | .error _ => none
  | _, _ => none

/-- The document that a call loads into the store it is about, or fetches for it. -/
def ManagerCall.document (man : Manager) : ManagerCall → Option Bytes
  | .addJwksVerifiers _ _ _ jwksJson => some jwksJson
  | .loadStore _ jwksString => some jwksString
  | .findVerifier env issuer kid =>
    (man.stores issuer).bind fun store => fetchedFor env ⟨store, man.host⟩ kid
  | .verifyJwt env issuer jwtStr => fetchedForToken J env man issuer jwtStr
  | _ => none

/-- A run of calls. -/
abbrev Calls := List (Step Manager ManagerCall (Outcome Answer))

/-- The documents that were loaded into the store of an issuer, or fetched for it. -/
def documents (issuer : Bytes) (h : Calls) : List Bytes :=
  h.filterMap fun st =>
    if st.input.issuer = some issuer then st.input.document J st.pre else none

/-- The verifier is built from an acceptable entry of the document's keys, with this kid. -/
def FromDocument (text kid : Bytes) (verifier : Verifier) : Prop :=
  ∃ ary, keysMember (P.parse text).1 = .array ary ∧ ∃ key, Json.object key ∈ ary ∧
    ∃ alg, Acceptable J key kid alg ∧ verifier = keyVerifier alg

/-- The verifiers afterwards were there before, or come from the document. -/
def AddsFrom (document : Option Bytes) (before after : Verifiers) : Prop :=
  ∀ kid verifier, after kid = some verifier →
    before kid = some verifier ∨ ∃ text, document = some text ∧ FromDocument J P text kid verifier

/-- The verifiers of an issuer; none without a store. -/
def issuerVerifiers (man : Manager) (issuer : Bytes) : Verifiers :=
  match man.stores issuer with
  | none => fun _ => none
  | some store => store.verifiers

end

variable {J : JwtCpp} {P : Picojson}

theorem addsFrom_refl (document : Option Bytes) (verifiers : Verifiers) :
    AddsFrom J P document verifiers verifiers := fun _ _ h => Or.inl h

theorem object_mem_of_mem_leadingObjects {key : Object} {ary : List Json}
    (h : key ∈ leadingObjects ary) : Json.object key ∈ ary := by
  induction ary with
  | nil => cases h
  | cons v rest ih =>
    cases v with
    | object key' =>
      rcases List.mem_cons.mp h with rfl | hmem
      · exact List.mem_cons_self
      · exact List.mem_cons_of_mem _ (ih hmem)
    | _ => cases h

/-- Loading a document adds its keys alone. -/
theorem addsFrom_loadedVerifiers (text : Bytes) (verifiers : Verifiers) :
    AddsFrom J P (some text) verifiers (loadedVerifiers J P text verifiers) := by
  intro kid verifier hkid
  unfold loadedVerifiers at hkid
  cases hkeys : keysMember (P.parse text).1 with
  | array ary =>
    simp only [hkeys, loadKeys_eq] at hkid
    rcases of_emplaceAll_eq_some hkid with hold | hmem
    · exact Or.inl hold
    · obtain ⟨key, hkey, alg, hacc, heq⟩ := (mem_publishedKeys_iff J).mp hmem
      exact Or.inr ⟨text, rfl, ary, hkeys, key, object_mem_of_mem_leadingObjects hkey, alg, hacc,
        heq⟩
  | _ =>
    simp only [hkeys] at hkid
    exact Or.inl hkid

/-- A lookup adds the keys of the document it fetches alone. -/
theorem addsFrom_findVerifier (env : JwksEnv) (s : StoreIn) (kid : Bytes) :
    AddsFrom J P (fetchedFor env s kid) s.store.verifiers
      ((findVerifier J P env kid).run s).2.store.verifiers := by
  by_cases hdue : RefreshDue env s.store kid
  · by_cases hurl : s.store.srcUrl = []
    · rw [findVerifier_run_of_due J P hdue, refresh_run_of_no_source J P hurl]
      exact addsFrom_refl _ _
    · cases hdoc : fetchedDocument env s.host s.store.srcUrl with
      | none =>
        rw [findVerifier_run_of_due J P hdue, refresh_run J P env hurl, hdoc]
        exact addsFrom_refl _ _
      | some fetched =>
        obtain ⟨body, t⟩ := fetched
        have hrefreshes : RefreshesFrom env s kid body := ⟨hdue, hurl, t, hdoc⟩
        obtain ⟨o, s', hrun, -, -, hverifiers, -, -⟩ :=
          hrefreshes.findVerifier_run (J := J) (P := P)
        have hfetched : fetchedFor env s kid = some body := by
          simp only [fetchedFor, hdue.1]
          rw [if_pos ⟨hdue.2, hurl⟩, hdoc]
          rfl
        rw [hrun, hfetched, hverifiers]
        exact addsFrom_loadedVerifiers body _
  · rw [findVerifier_run_of_not_due J P hdue]
    exact addsFrom_refl _ _

/-! ## What one call changes -/

/-- The manager after a call on the store of an issuer. -/
def Manager.withStore (man : Manager) (issuer : Bytes) (s : StoreIn) : Manager where
  stores := Function.update man.stores issuer (some s.store)
  host := s.host

variable {man : Manager} {issuer : Bytes}

@[simp] theorem Manager.withStore_stores_self (s : StoreIn) :
    (man.withStore issuer s).stores issuer = some s.store := Function.update_self _ _ _

theorem issuerVerifiers_of_some {store : JwksStore} (h : man.stores issuer = some store) :
    issuerVerifiers man issuer = store.verifiers := by
  rw [issuerVerifiers, h]

theorem issuerVerifiers_of_none (h : man.stores issuer = none) :
    issuerVerifiers man issuer = fun _ => none := by
  rw [issuerVerifiers, h]

theorem issuerVerifiers_congr {man' : Manager} (h : man'.stores issuer = man.stores issuer) :
    issuerVerifiers man' issuer = issuerVerifiers man issuer := by
  rw [issuerVerifiers, issuerVerifiers, h]

theorem onStoreOf_run {α : Type} (m : Exec StoreIn α) {store : JwksStore}
    (hstore : man.stores issuer = some store) :
    (onStoreOf issuer m).run man =
      ((m.run ⟨store, man.host⟩).1, man.withStore issuer (m.run ⟨store, man.host⟩).2) := by
  unfold onStoreOf
  rw [Exec.bind_ret (Exec.run_get man), hstore]
  rfl

/-- The stores of a manager are left alone, or the one of the issuer gets keys of the document. -/
def ChangesStore (J : JwtCpp) (P : Picojson) (issuer : Bytes) (document : Option Bytes)
    (man man' : Manager) : Prop :=
  man'.stores = man.stores ∨ ∃ store,
    man'.stores = Function.update man.stores issuer (some store) ∧
      AddsFrom J P document (issuerVerifiers man issuer) store.verifiers

theorem changesStore_refl (document : Option Bytes) :
    ChangesStore J P issuer document man man := Or.inl rfl

theorem ChangesStore.others {document : Option Bytes} {man' : Manager} {issuer' : Bytes}
    (h : ChangesStore J P issuer' document man man') (hne : issuer ≠ issuer') :
    man'.stores issuer = man.stores issuer := by
  rcases h with hsame | ⟨store, hstores, -⟩
  · rw [hsame]
  · rw [hstores, Function.update_of_ne hne]

theorem ChangesStore.addsFrom {document : Option Bytes} {man' : Manager}
    (h : ChangesStore J P issuer document man man') :
    AddsFrom J P document (issuerVerifiers man issuer) (issuerVerifiers man' issuer) := by
  rcases h with hsame | ⟨store, hstores, hadds⟩
  · rw [issuerVerifiers_congr (congrFun hsame issuer)]
    exact addsFrom_refl _ _
  · have hstore : man'.stores issuer = some store := by rw [hstores, Function.update_self]
    rw [issuerVerifiers_of_some hstore]
    exact hadds

/-- A store is made without keys, where there was none. -/
theorem changesStore_newStore {document : Option Bytes} (hnone : man.stores issuer = none)
    {store : JwksStore} (hkeys : store.verifiers = fun _ => none) :
    ChangesStore J P issuer document man
      { man with stores := Function.update man.stores issuer (some store) } := by
  refine Or.inr ⟨store, rfl, ?_⟩
  rw [issuerVerifiers_of_none hnone, hkeys]
  exact addsFrom_refl _ _

theorem getOrCreateStore_changes (issuer : Bytes) (document : Option Bytes) (man : Manager) :
    ChangesStore J P issuer document man ((getOrCreateStore issuer).run man).2 := by
  rw [getOrCreateStore, Exec.bind_ret (Exec.run_get man)]
  cases hstore : man.stores issuer with
  | some store => exact changesStore_refl _
  | none => exact changesStore_newStore hstore rfl

theorem initStore_changes (issuer srcUrl : Bytes) (document : Option Bytes) (man : Manager) :
    ChangesStore J P issuer document man ((initStore issuer srcUrl).run man).2 := by
  rw [initStore, Exec.bind_ret (Exec.run_get man)]
  cases hstore : man.stores issuer with
  | some store => exact changesStore_refl _
  | none => exact changesStore_newStore hstore rfl

/-- What a call adds to a store, it adds to the store of the issuer. -/
theorem onStoreOf_changes {α : Type} {document : Option Bytes} (issuer : Bytes) (m : Exec StoreIn α)
    (h : ∀ store, man.stores issuer = some store →
      AddsFrom J P document store.verifiers (m.run ⟨store, man.host⟩).2.store.verifiers) :
    ChangesStore J P issuer document man ((onStoreOf issuer m).run man).2 := by
  cases hstore : man.stores issuer with
  | none =>
    rw [onStoreOf, Exec.bind_ret (Exec.run_get man), hstore]
    exact changesStore_refl _
  | some store =>
    rw [onStoreOf_run m hstore]
    refine Or.inr ⟨_, rfl, ?_⟩
    rw [issuerVerifiers_of_some hstore]
    exact h store hstore

/-- A loaded document, as a change of the store. -/
theorem onStore_addJwks_state (text : Bytes) (s : StoreIn) :
    ((onStore (addJwksVerifiersFromString J P text)).run s).2.store.verifiers =
      loadedVerifiers J P text s.store.verifiers := by
  rw [onStore, Exec.run_on, addJwksVerifiersFromString_run, loadedVerifiers]
  cases keysMember (P.parse text).1 <;> rfl

/-- The verifier does not throw on the token. -/
def accepts (J : JwtCpp) (verifier : Verifier) (jwt : DecodedJwt) (now : ℤ) : Bool :=
  match J.verify verifier jwt now with
  | .ok _ => true
  | .error _ => false

theorem accepts_eq_true_iff {verifier : Verifier} {jwt : DecodedJwt} {now : ℤ} :
    accepts J verifier jwt now = true ↔ J.verify verifier jwt now = .ok ⟨⟩ := by
  unfold accepts
  cases J.verify verifier jwt now <;> simp

/-- `verify_jwt`, by what the token and the lookup of its kid give. -/
theorem verifyJwt_run (env : JwksEnv) (issuer jwtStr : Bytes) {store : JwksStore}
    (hstore : man.stores issuer = some store) :
    (verifyJwt J P env issuer jwtStr).run man =
      match J.decode jwtStr with
      | .error e => (.throws e, man)
      | .ok jwt =>
        match J.getKeyId jwt with
        | .error e => (.throws e, man)
        | .ok kid =>
          match (findVerifier J P env kid).run ⟨store, man.host⟩ with
          | (.ret none, s') => (.ret false, man.withStore issuer s')
          | (.ret (some verifier), s') =>
            (.ret (accepts J verifier jwt env.verifyNow), man.withStore issuer s')
          | (.throws e, s') => (.throws e, man.withStore issuer s')
          | (.undefined, s') => (.undefined, man.withStore issuer s') := by
  unfold verifyJwt
  rw [Exec.bind_ret (Exec.run_get man), hstore]
  cases J.decode jwtStr with
  | error e => rfl
  | ok jwt =>
    simp only [Exec.ofExcept_ok, Exec.pure_bind]
    cases J.getKeyId jwt with
    | error e => rfl
    | ok kid =>
      simp only [Exec.ofExcept_ok, Exec.pure_bind]
      rw [Exec.run_bind, onIssuer, Exec.run_on]
      rcases (findVerifier J P env kid).run ⟨store, man.host⟩ with ⟨found | _ | _, s'⟩
      · cases found with
        | none => rfl
        | some verifier =>
          simp only [accepts]
          cases J.verify verifier jwt env.verifyNow <;> rfl
      · rfl
      · rfl

/-- `verify_jwt` leaves what its lookup of the token's kid leaves. -/
theorem verifyJwt_changes (env : JwksEnv) (issuer jwtStr : Bytes) (man : Manager) :
    ChangesStore J P issuer (fetchedForToken J env man issuer jwtStr) man
      ((verifyJwt J P env issuer jwtStr).run man).2 := by
  cases hstore : man.stores issuer with
  | none =>
    rw [verifyJwt, Exec.bind_ret (Exec.run_get man), hstore]
    exact changesStore_refl _
  | some store =>
    rw [verifyJwt_run env issuer jwtStr hstore]
    cases hdecode : J.decode jwtStr with
    | error e => exact changesStore_refl _
    | ok jwt =>
      cases hkid : J.getKeyId jwt with
      | error e =>
        simp only [hkid]
        exact changesStore_refl _
      | ok kid =>
        have hlookup := addsFrom_findVerifier (J := J) (P := P) env ⟨store, man.host⟩ kid
        rw [← issuerVerifiers_of_some hstore] at hlookup
        simp only [fetchedForToken, hstore, hdecode, hkid]
        -- however the lookup ends, the store is as it leaves it
        rcases hfind : (findVerifier J P env kid).run ⟨store, man.host⟩ with ⟨found | _ | _, s'⟩
        all_goals rw [hfind] at hlookup
        · cases found <;> exact Or.inr ⟨s'.store, rfl, hlookup⟩
        · exact Or.inr ⟨s'.store, rfl, hlookup⟩
        · exact Or.inr ⟨s'.store, rfl, hlookup⟩

/-- The store that a document is loaded into has the verifiers of the issuer. -/
theorem issuerStore_verifiers (env : JwksEnv) (man : Manager) (issuer sourceUrl : Bytes) :
    (issuerStore env man issuer sourceUrl).verifiers = issuerVerifiers man issuer := by
  unfold issuerStore issuerVerifiers
  cases man.stores issuer <;> rfl

/-- What the loader of the manager leaves. -/
theorem managerAddJwks_changes (env : JwksEnv) (issuer sourceUrl text : Bytes) (man : Manager) :
    ChangesStore J P issuer (some text) man
      ((managerAddJwksVerifiersFromString J P env issuer sourceUrl text).run man).2 := by
  have hloaded := addsFrom_loadedVerifiers (J := J) (P := P) text (issuerVerifiers man issuer)
  rw [loadedVerifiers, ← issuerStore_verifiers env man issuer sourceUrl] at hloaded
  rw [managerAddJwksVerifiersFromString_run]
  cases hkeys : keysMember (P.parse text).1 with
  | array ary =>
    rw [hkeys] at hloaded
    refine Or.inr ⟨_, rfl, ?_⟩
    rw [← issuerStore_verifiers env man issuer sourceUrl]
    exact hloaded
  | _ => exact changesStore_refl _

/-- **What one call does**: it changes the store it is about, by the keys of its document, or none
at all. -/
theorem exec_changes (call : ManagerCall) (man : Manager) :
    ((call.exec J P).run man).2.stores = man.stores ∨ ∃ issuer, call.issuer = some issuer ∧
      ChangesStore J P issuer (call.document J man) man ((call.exec J P).run man).2 := by
  cases call with
  | getOrCreateStore issuer =>
    rw [ManagerCall.exec, Exec.run_bind_pure_state]
    exact Or.inr ⟨issuer, rfl, getOrCreateStore_changes issuer _ man⟩
  | initStore issuer srcUrl =>
    rw [ManagerCall.exec, Exec.run_bind_pure_state]
    exact Or.inr ⟨issuer, rfl, initStore_changes issuer srcUrl _ man⟩
  | addJwksVerifiers env issuer sourceUrl jwksJson =>
    rw [ManagerCall.exec, Exec.run_bind_pure_state]
    exact Or.inr ⟨issuer, rfl, managerAddJwks_changes env issuer sourceUrl jwksJson man⟩
  | loadStore issuer jwksString =>
    rw [ManagerCall.exec, Exec.run_bind_pure_state]
    refine Or.inr ⟨issuer, rfl, onStoreOf_changes issuer _ fun store _ => ?_⟩
    rw [onStore_addJwks_state]
    exact addsFrom_loadedVerifiers jwksString _
  | setFields issuer srcUrl backingFile lastFetchTime =>
    rw [ManagerCall.exec, Exec.run_bind_pure_state]
    exact Or.inr ⟨issuer, rfl, onStoreOf_changes issuer _ fun store _ => addsFrom_refl _ _⟩
  | fetchJwksJson env url =>
    left
    rw [ManagerCall.exec, Exec.run_bind_pure_state]
    rfl
  | findVerifier env issuer kid =>
    rw [ManagerCall.exec, Exec.run_bind_pure_state]
    refine Or.inr ⟨issuer, rfl, onStoreOf_changes issuer _ fun store hstore => ?_⟩
    rw [ManagerCall.document, hstore]
    exact addsFrom_findVerifier env ⟨store, man.host⟩ kid
  | verifyJwt env issuer jwtStr =>
    rw [ManagerCall.exec, Exec.run_bind_pure_state]
    exact Or.inr ⟨issuer, rfl, verifyJwt_changes env issuer jwtStr man⟩
  | filesChange files => exact Or.inl rfl

/-- **A call leaves the stores of other issuers alone.** -/
theorem exec_others (call : ManagerCall) (man : Manager) {issuer : Bytes}
    (h : call.issuer ≠ some issuer) :
    ((call.exec J P).run man).2.stores issuer = man.stores issuer := by
  rcases exec_changes (J := J) (P := P) call man with hsame | ⟨issuer', hissuer, hchanges⟩
  · rw [hsame]
  · apply hchanges.others
    rintro rfl
    exact h hissuer

/-- **A call adds to the store it is about the keys of its document alone.** -/
theorem exec_addsFrom (call : ManagerCall) (man : Manager) {issuer : Bytes}
    (h : call.issuer = some issuer) :
    AddsFrom J P (call.document J man) (issuerVerifiers man issuer)
      (issuerVerifiers ((call.exec J P).run man).2 issuer) := by
  rcases exec_changes (J := J) (P := P) call man with hsame | ⟨issuer', hissuer, hchanges⟩
  · exact ChangesStore.addsFrom (Or.inl hsame)
  · obtain rfl := Option.some.inj (hissuer.symm.trans h)
    exact hchanges.addsFrom

/-! ## Whole runs -/

/-- Every key of a store comes from a document of its issuer. -/
def Provenanced (J : JwtCpp) (P : Picojson) (h : Calls) (man : Manager) : Prop :=
  ∀ issuer kid verifier, issuerVerifiers man issuer kid = some verifier →
    ∃ text ∈ documents J issuer h, FromDocument J P text kid verifier

/-- A manager without stores. -/
def emptyManager (host : Host) : Manager where
  stores _ := none
  host := host

theorem provenanced_empty (host : Host) : Provenanced J P [] (emptyManager host) := by
  intro issuer kid verifier hkid
  cases hkid

theorem mem_documents_cons {st : Step Manager ManagerCall (Outcome Answer)} {earlier : Calls}
    {text : Bytes} (h : text ∈ documents J issuer earlier) :
    text ∈ documents J issuer (st :: earlier) := by
  unfold documents
  rw [List.filterMap_cons]
  split
  · exact h
  · exact List.mem_cons_of_mem _ h

theorem mem_documents_self {st : Step Manager ManagerCall (Outcome Answer)} {earlier : Calls}
    {text : Bytes} (hissuer : st.input.issuer = some issuer)
    (h : st.input.document J st.pre = some text) : text ∈ documents J issuer (st :: earlier) := by
  unfold documents
  rw [List.filterMap_cons, if_pos hissuer, h]
  exact List.mem_cons_self

/-- A call keeps it so. -/
theorem Provenanced.call {earlier : Calls} {call : ManagerCall} {answer : Outcome Answer}
    {man' : Manager} (hI : Provenanced J P earlier man)
    (hcall : (call.exec J P).run man = (answer, man')) :
    Provenanced J P (⟨man, call, answer, man'⟩ :: earlier) man' := by
  intro issuer kid verifier hkid
  have hman' : ((call.exec J P).run man).2 = man' := by rw [hcall]
  have hold : issuerVerifiers man issuer kid = some verifier →
      ∃ text ∈ documents J issuer (⟨man, call, answer, man'⟩ :: earlier),
        FromDocument J P text kid verifier := by
    intro h
    obtain ⟨text, hmem, hfrom⟩ := hI issuer kid verifier h
    exact ⟨text, mem_documents_cons hmem, hfrom⟩
  by_cases hissuer : call.issuer = some issuer
  · have hadds := exec_addsFrom (J := J) (P := P) call man hissuer
    rw [hman'] at hadds
    rcases hadds kid verifier hkid with hbefore | ⟨text, hdocument, hfrom⟩
    · exact hold hbefore
    · exact ⟨text, mem_documents_self hissuer hdocument, hfrom⟩
  · have hsame := exec_others (J := J) (P := P) call man hissuer
    rw [hman'] at hsame
    rw [issuerVerifiers_congr hsame] at hkid
    exact hold hkid

theorem provenanced_of_run {host : Host} {h : Calls}
    (hrun : Run (callStep J P) (emptyManager host) h man) : Provenanced J P h man :=
  hrun.invariant (A := fun _ _ => True) (provenanced_empty host)
    (fun hI htake _ => hI.call (Exec.run_of_step htake).1)
    (everywhere_of_forall (fun _ _ => trivial) h)

/-! ## What a token is accepted under -/

/-- A lookup returns what the store has for the kid afterwards. -/
theorem findVerifier_returned {env : JwksEnv} {s s' : StoreIn} {kid : Bytes}
    {found : Option Verifier} (h : (findVerifier J P env kid).run s = (.ret found, s')) :
    found = s'.store.verifiers kid := by
  by_cases hdue : RefreshDue env s.store kid
  · rw [findVerifier_run_of_due J P hdue] at h
    rcases hrefresh : (refresh J P env).run s with ⟨_ | _ | _, s₁⟩
    · rw [hrefresh] at h
      obtain ⟨hfound, rfl⟩ := Prod.mk.inj h
      exact (Outcome.ret.inj hfound).symm
    · rw [hrefresh] at h
      cases h
    · rw [hrefresh] at h
      cases h
  · rw [findVerifier_run_of_not_due J P hdue] at h
    obtain ⟨hfound, rfl⟩ := Prod.mk.inj h
    exact (Outcome.ret.inj hfound).symm

/-- `verify_jwt` returns true only if the verifier that the store now has for the kid takes the
token. -/
theorem verifyJwt_true {env : JwksEnv} {jwtStr : Bytes} {man' : Manager}
    (h : (verifyJwt J P env issuer jwtStr).run man = (.ret true, man')) :
    ∃ jwt kid store verifier, J.decode jwtStr = .ok jwt ∧ J.getKeyId jwt = .ok kid ∧
      man'.stores issuer = some store ∧ store.verifiers kid = some verifier ∧
      J.verify verifier jwt env.verifyNow = .ok ⟨⟩ := by
  cases hstore : man.stores issuer with
  | none =>
    rw [verifyJwt, Exec.bind_ret (Exec.run_get man), hstore] at h
    cases h
  | some store =>
    rw [verifyJwt_run env issuer jwtStr hstore] at h
    cases hdecode : J.decode jwtStr with
    | error e =>
      rw [hdecode] at h
      cases h
    | ok jwt =>
      cases hkid : J.getKeyId jwt with
      | error e =>
        simp only [hdecode, hkid] at h
        cases h
      | ok kid =>
        simp only [hdecode, hkid] at h
        rcases hfind : (findVerifier J P env kid).run ⟨store, man.host⟩ with ⟨found | _ | _, s'⟩
        · have hfound := findVerifier_returned hfind
          cases found with
          | none =>
            rw [hfind] at h
            cases h
          | some verifier =>
            rw [hfind] at h
            obtain ⟨haccepts, rfl⟩ := Prod.mk.inj h
            exact ⟨jwt, kid, s'.store, verifier, rfl, hkid, Manager.withStore_stores_self s',
              hfound.symm, accepts_eq_true_iff.mp (Outcome.ret.inj haccepts)⟩
        · rw [hfind] at h
          cases h
        · rw [hfind] at h
          cases h

/-! ## Two managers -/

/-- A fetch for the store of the issuer goes the same way in both. -/
def SameFetch (env : JwksEnv) (issuer : Bytes) (man man' : Manager) : Prop :=
  ∀ store, man.stores issuer = some store →
    fetchedDocument env man.host store.srcUrl = fetchedDocument env man'.host store.srcUrl

/-- What a lookup returns, and the store it leaves, depend on the store and the document fetched. -/
theorem findVerifier_congr (env : JwksEnv) {store : JwksStore} {host host' : Host} (kid : Bytes)
    (h : fetchedDocument env host store.srcUrl = fetchedDocument env host' store.srcUrl) :
    ((findVerifier J P env kid).run ⟨store, host⟩).1 =
        ((findVerifier J P env kid).run ⟨store, host'⟩).1 ∧
      ((findVerifier J P env kid).run ⟨store, host⟩).2.store =
        ((findVerifier J P env kid).run ⟨store, host'⟩).2.store := by
  by_cases hdue : RefreshDue env store kid
  · rw [findVerifier_run_of_due J P (s := ⟨store, host⟩) hdue,
      findVerifier_run_of_due J P (s := ⟨store, host'⟩) hdue]
    by_cases hurl : store.srcUrl = []
    · rw [refresh_run_of_no_source J P (s := ⟨store, host⟩) hurl,
        refresh_run_of_no_source J P (s := ⟨store, host'⟩) hurl]
      exact ⟨rfl, rfl⟩
    · rw [refresh_run J P env (s := ⟨store, host⟩) hurl,
        refresh_run J P env (s := ⟨store, host'⟩) hurl]
      simp only [← h]
      cases fetchedDocument env host store.srcUrl with
      | none => exact ⟨rfl, rfl⟩
      | some fetched =>
        cases hkeys : keysMember (P.parse fetched.1).1 with
        | array ary =>
          simp only [hkeys]
          cases allObjects ary <;> exact ⟨rfl, rfl⟩
        | _ => simp only [hkeys, and_self]
  · rw [findVerifier_run_of_not_due J P (s := ⟨store, host⟩) hdue,
      findVerifier_run_of_not_due J P (s := ⟨store, host'⟩) hdue]
    exact ⟨rfl, rfl⟩

/-- **The stores of other issuers make no difference** to `verify_jwt`. -/
theorem verifyJwt_congr (env : JwksEnv) (jwtStr : Bytes) {man' : Manager}
    (hstores : man.stores issuer = man'.stores issuer) (hfetch : SameFetch env issuer man man') :
    ((verifyJwt J P env issuer jwtStr).run man).1 =
        ((verifyJwt J P env issuer jwtStr).run man').1 ∧
      ((verifyJwt J P env issuer jwtStr).run man).2.stores issuer =
        ((verifyJwt J P env issuer jwtStr).run man').2.stores issuer := by
  cases hstore : man.stores issuer with
  | none =>
    have hstore' : man'.stores issuer = none := hstores.symm.trans hstore
    rw [verifyJwt, Exec.bind_ret (Exec.run_get man), Exec.bind_ret (Exec.run_get man'), hstore,
      hstore']
    exact ⟨rfl, hstores⟩
  | some store =>
    rw [verifyJwt_run env issuer jwtStr hstore,
      verifyJwt_run env issuer jwtStr (hstores.symm.trans hstore)]
    cases J.decode jwtStr with
    | error e => exact ⟨rfl, hstores⟩
    | ok jwt =>
      simp only
      cases J.getKeyId jwt with
      | error e => exact ⟨rfl, hstores⟩
      | ok kid =>
        obtain ⟨houtcome, hleft⟩ := findVerifier_congr (J := J) (P := P) env kid
          (hfetch store hstore)
        simp only
        rcases hfind : (findVerifier J P env kid).run ⟨store, man.host⟩ with ⟨o, s₁⟩
        rcases hfind' : (findVerifier J P env kid).run ⟨store, man'.host⟩ with ⟨o', s₁'⟩
        rw [hfind, hfind'] at houtcome hleft
        obtain rfl : o = o' := houtcome
        have hsame : (man.withStore issuer s₁).stores issuer =
            (man'.withStore issuer s₁').stores issuer := by
          rw [Manager.withStore_stores_self, Manager.withStore_stores_self]
          exact congrArg some hleft
        cases o with
        | ret found => cases found <;> exact ⟨rfl, hsame⟩
        | throws e => exact ⟨rfl, hsame⟩
        | undefined => exact ⟨rfl, hsame⟩

/-- **A token is accepted under a key of its issuer alone**: one of a document that was loaded into
the issuer's store or fetched for it. And two managers that agree on the issuer's store agree on the
token. -/
theorem verifyJwt_provenance_isolation :
    (∀ host h man, Run (callStep J P) (emptyManager host) h man →
      ∀ env issuer jwtStr man', (verifyJwt J P env issuer jwtStr).run man = (.ret true, man') →
      ∃ jwt kid store verifier text, J.decode jwtStr = .ok jwt ∧ J.getKeyId jwt = .ok kid ∧
        man'.stores issuer = some store ∧ store.verifiers kid = some verifier ∧
        J.verify verifier jwt env.verifyNow = .ok ⟨⟩ ∧
        text ∈ documents J issuer
          (⟨man, .verifyJwt env issuer jwtStr, .ret (.verified true), man'⟩ :: h) ∧
        FromDocument J P text kid verifier) ∧
    (∀ env issuer jwtStr man man', man.stores issuer = man'.stores issuer →
      SameFetch env issuer man man' →
      ((verifyJwt J P env issuer jwtStr).run man).1 =
          ((verifyJwt J P env issuer jwtStr).run man').1 ∧
        ((verifyJwt J P env issuer jwtStr).run man).2.stores issuer =
          ((verifyJwt J P env issuer jwtStr).run man').2.stores issuer) := by
  refine ⟨?_, fun env issuer jwtStr man man' => verifyJwt_congr env jwtStr⟩
  intro host h man hrun env issuer jwtStr man' hverify
  obtain ⟨jwt, kid, store, verifier, hdecode, hkid, hstore, hverifier, haccepted⟩ :=
    verifyJwt_true hverify
  have hcall : ((ManagerCall.verifyJwt env issuer jwtStr).exec J P).run man =
      (.ret (.verified true), man') := by
    rw [ManagerCall.exec, Exec.bind_ret hverify]
    rfl
  have hissuer : issuerVerifiers man' issuer kid = some verifier := by
    rw [issuerVerifiers_of_some hstore, hverifier]
  obtain ⟨text, hmem, hfrom⟩ := (provenanced_of_run hrun).call hcall issuer kid verifier hissuer
  exact ⟨jwt, kid, store, verifier, text, hdecode, hkid, hstore, hverifier, haccepted, hmem, hfrom⟩

/-! ## A key that was loaded -/

/-- A store with the key of the test data. -/
def loadedStore : JwksStore where
  verifiers := emplaceAll (fun _ => none) (publishedKeys testJwtCpp [testKey (bytes "k1")])

/-- A manager with that store for `microsoft`, and others beside it. -/
def loadedManager (others : Bytes → Option JwksStore) : Manager where
  stores := Function.update others (bytes "microsoft") (some loadedStore)
  host := { files := fun _ => none, fetches := [] }

/-- A manager with a new store for `microsoft`. -/
def newStoreManager : Manager where
  stores := Function.update (fun _ => none) (bytes "microsoft") (some {})
  host := { files := fun _ => none, fetches := [] }

/-- The key set is loaded. -/
theorem loadStore_newStoreManager :
    ((ManagerCall.loadStore (bytes "microsoft") (testKeys (bytes "k1"))).exec testJwtCpp
      testPicojson).run newStoreManager = (.ret (.loaded true), loadedManager fun _ => none) := by
  have hstore : newStoreManager.stores (bytes "microsoft") = some {} := rfl
  have hkeys := addJwksVerifiersFromString_run_of_keySet testJwtCpp keySet_testKeys.2.1 {}
  have hrun : (onStoreOf (bytes "microsoft") (onStore
      (addJwksVerifiersFromString testJwtCpp testPicojson (testKeys (bytes "k1"))))).run
        newStoreManager = (.ret true, loadedManager fun _ => none) := by
    rw [onStoreOf_run _ hstore, onStore, Exec.run_on, hkeys]
    refine congrArg (Prod.mk (Outcome.ret true)) ?_
    rw [Manager.withStore, newStoreManager, Function.update_idem]
    rfl
  rw [ManagerCall.exec, Exec.bind_ret hrun]
  rfl

/-- The two calls are a run. -/
theorem exists_run_loadedManager :
    ∃ h, Run (callStep testJwtCpp testPicojson)
      (emptyManager { files := fun _ => none, fetches := [] }) h
      (loadedManager fun _ => none) := by
  have hmake : callStep testJwtCpp testPicojson
      (emptyManager { files := fun _ => none, fetches := [] })
      (.getOrCreateStore (bytes "microsoft")) = some (.ret .done, newStoreManager) := rfl
  have hload : callStep testJwtCpp testPicojson newStoreManager
      (.loadStore (bytes "microsoft") (testKeys (bytes "k1"))) =
        some (.ret (.loaded true), loadedManager fun _ => none) := by
    rw [callStep, Exec.step, loadStore_newStoreManager]
  exact ⟨_, .cons (.cons .nil hmake) hload⟩

theorem loadedManager_stores (others : Bytes → Option JwksStore) :
    (loadedManager others).stores (bytes "microsoft") = some loadedStore := by
  show Function.update others (bytes "microsoft") (some loadedStore) (bytes "microsoft") = _
  exact Function.update_self _ _ _

theorem loadedStore_verifiers :
    loadedStore.verifiers (bytes "k1") = some (keyVerifier (.es256 testPem)) := by
  have hnone : (fun _ => none : Verifiers) (bytes "k1") = none := rfl
  refine (emplaceAll_of_none hnone _).trans ((lookup_publishedKeys_iff testJwtCpp).mpr ?_)
  exact ⟨_, .here (acceptable_testKey (bytes "k1")), rfl⟩

/-- The token is accepted. -/
theorem verifyJwt_loadedManager (others : Bytes → Option JwksStore) :
    ∃ man', (verifyJwt testJwtCpp testPicojson (fetchingEnv []) (bytes "microsoft")
      signedToken).run (loadedManager others) = (.ret true, man') := by
  have hdecode : testJwtCpp.decode signedToken = .ok signedJwt := by
    simp [testJwtCpp, JwtCpp.ofTable]
  have hkid : testJwtCpp.getKeyId signedJwt = .ok (bytes "k1") := rfl
  have hfind : (findVerifier testJwtCpp testPicojson (fetchingEnv []) (bytes "k1")).run
      ⟨loadedStore, (loadedManager others).host⟩ =
        (.ret (some (keyVerifier (.es256 testPem))),
          ⟨loadedStore, (loadedManager others).host⟩) := by
    have hknown : ¬ RefreshDue (fetchingEnv []) loadedStore (bytes "k1") := by
      rw [RefreshDue, loadedStore_verifiers]
      rintro ⟨hnone, -⟩
      cases hnone
    rw [findVerifier_run_of_not_due _ _ hknown, loadedStore_verifiers]
  have haccepts : accepts testJwtCpp (keyVerifier (.es256 testPem)) signedJwt
      (fetchingEnv []).verifyNow = true := by
    simp [accepts, testJwtCpp, JwtCpp.ofTable, signedJwt]
  rw [verifyJwt_run _ _ _ (loadedManager_stores others), hdecode]
  simp only [hkid, hfind, haccepts]
  exact ⟨_, rfl⟩

/-- The token is accepted under the key that was loaded, with or without other stores. -/
theorem verifyJwt_provenance_isolation_testKeys :
    (∃ h man' jwt kid store verifier text,
      (verifyJwt testJwtCpp testPicojson (fetchingEnv []) (bytes "microsoft") signedToken).run
        (loadedManager fun _ => none) = (.ret true, man') ∧
      testJwtCpp.decode signedToken = .ok jwt ∧ testJwtCpp.getKeyId jwt = .ok kid ∧
      man'.stores (bytes "microsoft") = some store ∧ store.verifiers kid = some verifier ∧
      testJwtCpp.verify verifier jwt (fetchingEnv []).verifyNow = .ok ⟨⟩ ∧
      text ∈ documents testJwtCpp (bytes "microsoft")
        (⟨loadedManager fun _ => none, .verifyJwt (fetchingEnv []) (bytes "microsoft") signedToken,
          .ret (.verified true), man'⟩ :: h) ∧
      FromDocument testJwtCpp testPicojson text kid verifier) ∧
    ((verifyJwt testJwtCpp testPicojson (fetchingEnv []) (bytes "microsoft") signedToken).run
        (loadedManager fun _ => none)).1 =
      ((verifyJwt testJwtCpp testPicojson (fetchingEnv []) (bytes "microsoft") signedToken).run
        (loadedManager fun _ => some {})).1 := by
  obtain ⟨hprovenance, hisolation⟩ :=
    verifyJwt_provenance_isolation (J := testJwtCpp) (P := testPicojson)
  obtain ⟨h, hrun⟩ := exists_run_loadedManager
  obtain ⟨man', hverify⟩ := verifyJwt_loadedManager fun _ => none
  obtain ⟨jwt, kid, store, verifier, text, hall⟩ := hprovenance _ _ _ hrun _ _ _ _ hverify
  refine ⟨⟨h, man', jwt, kid, store, verifier, text, hverify, hall⟩, ?_⟩
  have hstores : (loadedManager fun _ => none).stores (bytes "microsoft") =
      (loadedManager fun _ => some {}).stores (bytes "microsoft") := by
    rw [loadedManager_stores, loadedManager_stores]
  exact (hisolation (fetchingEnv []) _ signedToken _ _ hstores fun _ _ => rfl).1

end FcgiJwtAuth
