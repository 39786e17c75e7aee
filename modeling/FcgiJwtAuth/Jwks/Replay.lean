import FcgiJwtAuth.Jwks.MicrosoftStore

/-!
# The key store as a log of documents

The verifiers of a store are its documents, loaded one after the other: a log, to which each fetch
adds what it brings. The backing file holds the last of them, if saving that one has worked. A
process that starts again has a log of its own, with the text of that file alone.
-/

namespace FcgiJwtAuth

open CLang

/-! ## Documents and their keys -/

/-- The documents that fetches have brought, oldest first. -/
def Host.documents (host : Host) : List Bytes := (host.fetches.filterMap Fetch.document).reverse

/-- The backing file can be read, and holds the text. -/
def HoldsText (host : Host) (text : Bytes) : Prop :=
  ∃ file, host.files microsoftFile = some file ∧ file.readable = true ∧ file.content = text

section

variable (J : JwtCpp) (P : Picojson)

/-- The verifiers that a document brings, in order. -/
def documentKeys (text : Bytes) : List (Bytes × Verifier) :=
  match keysMember (P.parse text).1 with
  | .array ary => publishedKeys J (leadingObjects ary)
  | _ => []

/-- The verifiers of a store into which these documents were loaded. -/
def replayed (texts : List Bytes) : Verifiers :=
  emplaceAll (fun _ => none) (texts.flatMap (documentKeys J P))

/-- The store of `microsoft` holds the keys of these documents. -/
def Replays (log : List Bytes) (man : Manager) : Prop :=
  ∃ store, man.stores (bytes "microsoft") = some store ∧ store.srcUrl = microsoftUrl ∧
    store.backingFile = microsoftFile ∧ store.verifiers = replayed J P log

end

/-- `filesystem_saveramtofile` saves: the file is there afterwards, with the text. -/
def SavesText (env : JwksEnv) : Prop :=
  ∀ name content files, ∃ file, env.saveRamToFile name content files name = some file ∧
    file.readable = true ∧ file.content = content

/-- What the documents fetched since then have left in the backing file: nothing new if there are
none, and the last one if saving works. -/
structure FileFollows (env : JwksEnv) (host host' : Host) (documents : List Bytes) : Prop where
  same : documents = [] → host'.files = host.files
  last : ∀ text, documents.getLast? = some text → SavesText env → HoldsText host' text

/-- The manager goes on with the log from these surroundings. -/
def Continues (J : JwtCpp) (P : Picojson) (env : JwksEnv) (host : Host) (log : List Bytes)
    (man : Manager) : Prop :=
  ∃ documents, man.host.documents = host.documents ++ documents ∧
    Replays J P (log ++ documents) man ∧ FileFollows env host man.host documents

/-- `main` gets to its loop on this text: it is no object, or one with a `keys` member; and if that
is an array, its elements are objects. -/
def BootsFrom (P : Picojson) (text : Bytes) : Prop :=
  match keysMember (P.parse text).1 with
  | .absent => False
  | .array ary => allObjects ary = true
  | _ => True

instance (P : Picojson) (text : Bytes) : Decidable (BootsFrom P text) := by
  unfold BootsFrom
  cases keysMember (P.parse text).1 <;> infer_instance

/-- The texts on which a start gets to the loop. -/
def StartsFrom (P : Picojson) (host : Host) : Prop := ∃ text, HoldsText host text ∧ BootsFrom P text

variable {J : JwtCpp} {P : Picojson} {env : JwksEnv} {host : Host} {man : Manager}
  {log : List Bytes}

theorem loadedVerifiers_eq (body : Bytes) (verifiers : Verifiers) :
    loadedVerifiers J P body verifiers = emplaceAll verifiers (documentKeys J P body) := by
  unfold loadedVerifiers documentKeys
  cases keysMember (P.parse body).1 with
  | array ary => exact loadKeys_eq J verifiers ary
  | _ => rfl

/-- One more document. -/
theorem replayed_concat (texts : List Bytes) (body : Bytes) :
    replayed J P (texts ++ [body]) = loadedVerifiers J P body (replayed J P texts) := by
  rw [loadedVerifiers_eq, replayed, replayed, ← emplaceAll_append, List.flatMap_append,
    List.flatMap_singleton]

theorem documents_of_cons {host' : Host} {f : Fetch} (h : host'.fetches = f :: host.fetches) :
    host'.documents = host.documents ++ f.document.toList := by
  unfold Host.documents
  rw [h]
  cases hdoc : f.document with
  | none => rw [List.filterMap_cons_none hdoc, Option.toList_none, List.append_nil]
  | some body => rw [List.filterMap_cons_some hdoc, List.reverse_cons, Option.toList_some]

theorem HoldsText.unique {text text' : Bytes} (h : HoldsText host text)
    (h' : HoldsText host text') : text = text' := by
  obtain ⟨file, hfile, -, rfl⟩ := h
  obtain ⟨file', hfile', -, rfl⟩ := h'
  rw [Option.some.inj (hfile.symm.trans hfile')]

/-! ## A lookup -/

/-- What a lookup that is due leaves in a remote store: the fetch, and its document in the file and
in the map. -/
theorem findVerifier_of_due_remote {s : StoreIn} (hremote : Remote s) {kid : Bytes}
    (hdue : RefreshDue env s.store kid) :
    ∃ s', ((findVerifier J P env kid).run s).2 = s' ∧ s'.store.srcUrl = s.store.srcUrl ∧
      s'.store.backingFile = s.store.backingFile ∧
      s'.host.fetches = ⟨s.store.srcUrl, env.curl⟩ :: s.host.fetches ∧
      s'.host.files = (Fetch.document ⟨s.store.srcUrl, env.curl⟩).elim s.host.files
        (fun body => savedFiles env s.store body s.host.files) ∧
      s'.store.verifiers = (Fetch.document ⟨s.store.srcUrl, env.curl⟩).elim s.store.verifiers
        (fun body => loadedVerifiers J P body s.store.verifiers) := by
  rw [findVerifier_run_of_due J P hdue, refresh_run J P env hremote.1,
    fetchedDocument_of_remote env s.host hremote.2, hostAfterFetch_of_remote env s.host hremote.2]
  cases hbody : Fetch.document ⟨s.store.srcUrl, env.curl⟩ with
  | none => exact ⟨_, rfl, rfl, rfl, rfl, rfl, rfl⟩
  | some body =>
    simp only [Option.map_some, Option.elim_some]
    generalize hsaved : saveBacking env s.store body _ = saved
    have hsent : saved.fetches = ⟨s.store.srcUrl, env.curl⟩ :: s.host.fetches := by
      rw [← hsaved, saveBacking_fetches]
    have hfiles : saved.files = savedFiles env s.store body s.host.files := by
      rw [← hsaved, saveBacking_files]
    unfold loadedVerifiers
    cases hkeys : keysMember (P.parse body).1 with
    | array ary =>
      simp only
      split_ifs <;> exact ⟨_, rfl, rfl, rfl, hsent, hfiles, rfl⟩
    | _ => exact ⟨_, rfl, rfl, rfl, hsent, hfiles, rfl⟩

/-- Before anything is fetched. -/
theorem Replays.continues (h : Replays J P log man) : Continues J P env man.host log man :=
  ⟨[], (List.append_nil _).symm, (List.append_nil log).symm ▸ h,
    { same := fun _ => rfl
      last := fun text htext => by cases htext }⟩

/-- **A lookup goes on with the log**, however it ends. -/
theorem Continues.findVerifier (h : Continues J P env host log man) {store : JwksStore}
    (hstore : man.stores (bytes "microsoft") = some store) (kid : Bytes) :
    Continues J P env host log (man.withStore (bytes "microsoft")
      ((FcgiJwtAuth.findVerifier J P env kid).run ⟨store, man.host⟩).2) := by
  obtain ⟨documents, hdocs, ⟨store', hstore', hurl, hback, hkeys⟩, hfile⟩ := h
  obtain rfl := Option.some.inj (hstore.symm.trans hstore')
  by_cases hdue : RefreshDue env store kid
  · have hremote : Remote ⟨store, man.host⟩ :=
      ⟨by rw [hurl]; exact microsoftUrl_ne_nil, by rw [hurl]; exact isLocal_microsoftUrl⟩
    obtain ⟨s', hs', hurl', hback', hsent, hfiles, hverifiers⟩ :=
      findVerifier_of_due_remote (J := J) (P := P) hremote hdue
    rw [hs']
    have hgrown : (man.withStore (bytes "microsoft") s').host.documents =
        host.documents ++ (documents ++ (Fetch.document ⟨store.srcUrl, env.curl⟩).toList) := by
      rw [← List.append_assoc, ← hdocs]
      exact documents_of_cons hsent
    refine ⟨_, hgrown, ⟨_, Manager.withStore_stores_self s', hurl'.trans hurl, hback'.trans hback,
      ?_⟩, ?_⟩
    · rw [hverifiers, hkeys]
      cases Fetch.document ⟨store.srcUrl, env.curl⟩ with
      | none => rw [Option.toList_none, List.append_nil, Option.elim_none]
      | some body =>
        rw [Option.toList_some, Option.elim_some, ← replayed_concat, List.append_assoc]
    · cases hbody : Fetch.document ⟨store.srcUrl, env.curl⟩ with
      | none =>
        -- a fetch that failed
        rw [hbody, Option.elim_none] at hfiles
        rw [Option.toList_none, List.append_nil]
        exact ⟨fun hnil => hfiles.trans (hfile.same hnil), fun text htext hsaves => by
          obtain ⟨file, hlast, hrest⟩ := hfile.last text htext hsaves
          exact ⟨file, (congrFun hfiles _).trans hlast, hrest⟩⟩
      | some body =>
        rw [hbody, Option.elim_some] at hfiles
        have hne : store.backingFile ≠ [] := by rw [hback]; decide
        refine ⟨fun hnil => by simp at hnil, fun text htext hsaves => ?_⟩
        rw [Option.toList_some, List.getLast?_concat] at htext
        obtain ⟨file, hsaved, hread, hcontent⟩ :=
          hsaves store.backingFile body man.host.files
        refine ⟨file, (congrFun hfiles _).trans ?_, hread, hcontent.trans (Option.some.inj htext)⟩
        rw [savedFiles, if_neg hne, ← hsaved, hback]
  · rw [findVerifier_run_of_not_due J P hdue]
    exact ⟨documents, hdocs, ⟨_, Manager.withStore_stores_self _, hurl, hback, hkeys⟩, hfile⟩

/-- So does `verify_jwt`. -/
theorem keeps_verifyJwt_continues (jwtStr : Bytes) :
    (verifyJwt J P env (bytes "microsoft") jwtStr).Keeps (Continues J P env host log) :=
  keeps_verifyJwt_of fun _ hI _ hstore kid => hI.findVerifier hstore kid

/-! ## The start -/

/-- A new store has the keys of its file alone. -/
theorem replays_start (J : JwtCpp) (P : Picojson) (file : File) (host : Host) :
    Replays J P [file.content] (microsoftManager (microsoftStore J P file) host) :=
  ⟨_, microsoftManager_stores _ _, rfl, rfl,
    (replayed_concat (J := J) (P := P) [] file.content).symm⟩

/-- **On which files `main` gets to its loop.** -/
theorem mainInit_ret_iff (env : JwksEnv) :
    (∃ u man, (mainInit J P env).run (emptyManager host) = (.ret u, man)) ↔ StartsFrom P host := by
  have hboots : ∀ file, host.files microsoftFile = some file → file.readable = true →
      ((∃ u man, (mainInit J P env).run (emptyManager host) = (.ret u, man)) ↔
        BootsFrom P file.content) := by
    intro file hfile hread
    rw [mainInit_run, loadMicrosoftFile_run hfile hread, BootsFrom]
    cases keysMember (P.parse file.content).1 with
    | absent => simp
    | array ary => cases hall : allObjects ary <;> simp [hall]
    | _ => simp
  constructor
  · rintro ⟨u, man, hinit⟩
    obtain ⟨file, hfile, hread, -⟩ := mainInit_ret hinit
    exact ⟨file.content, ⟨file, hfile, hread, rfl⟩, (hboots file hfile hread).mp ⟨u, man, hinit⟩⟩
  · rintro ⟨-, ⟨file, hfile, hread, rfl⟩, hfrom⟩
    exact (hboots file hfile hread).mpr hfrom

/-- A start leaves the surroundings as they are, however it ends. -/
theorem mainInit_host (J : JwtCpp) (P : Picojson) (env : JwksEnv) (host : Host) :
    ((mainInit J P env).run (emptyManager host)).2.host = host := by
  rw [mainInit_run]
  show ((loadMicrosoftFile J P env).run ⟨configuredStore, host⟩).2.host = host
  cases hdoc : fetchedDocument env host microsoftFile with
  | none => rw [loadMicrosoftFile_of_unreadable hdoc]
  | some fetched =>
    obtain ⟨file, hfile, hread⟩ := readable_of_fetched hdoc
    rw [loadMicrosoftFile_run hfile hread]
    cases keysMember (P.parse file.content).1 with
    | array ary => cases hall : allObjects ary <;> simp [hall]
    | _ => rfl

end FcgiJwtAuth
