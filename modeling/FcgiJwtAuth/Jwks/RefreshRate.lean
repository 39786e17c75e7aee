import FcgiJwtAuth.CLang.Run
import FcgiJwtAuth.Jwks.FindVerifier
import Mathlib.Data.Int.Order.Basic

/-!
# How often a store refreshes

`find_verifier` writes the time of a refresh back from the out-parameter of `fetch_jwks_json`, and
the branch that fetches a remote document never sets it. So after a successful fetch
`last_fetch_time_` is the epoch (or what it was, if loading the document threw), and the next call
for a kid that is still unknown fetches again. Over whole runs: the store fetches at most once in 24
hours exactly when no unknown kid is asked for in the 24 hours after a successful fetch.
-/

namespace FcgiJwtAuth

open CLang

variable (J : JwtCpp) (P : Picojson)

/-! ## Runs of lookups -/

/-- A call of `find_verifier`: what it finds outside, and the kid. -/
structure LookupCall where
  env : JwksEnv
  kid : Bytes

/-- A call as a step. -/
def lookupStep (s : StoreIn) (call : LookupCall) :
    Option (Outcome (Option Verifier) × StoreIn) :=
  (findVerifier J P call.env call.kid).step s

/-- A step of a run of lookups. -/
abbrev Lookup := Step StoreIn LookupCall (Outcome (Option Verifier))

/-- When the call was made. -/
def Lookup.time (st : Lookup) : ℤ := st.input.env.now

/-- The remote fetch the call sent, if it sent one. -/
def Lookup.sent (st : Lookup) : Option Fetch :=
  if st.pre.host.fetches.length < st.post.host.fetches.length then
    st.post.host.fetches.head?
  else none

/-- The document of a fetch that succeeded. -/
def Fetch.document (f : Fetch) : Option Bytes :=
  match f.reply with
  | .response httpCode body => if httpCode = 200 then some body else none
  | _ => none

/-- The call fetched, and the fetch succeeded. -/
def Lookup.succeeded (st : Lookup) : Bool := (st.sent.bind Fetch.document).isSome

/-- Loading the document goes through without an exception. -/
def loadsFully (body : Bytes) : Bool :=
  match keysMember (P.parse body).1 with
  | .array ary => allObjects ary
  | _ => true

/-- The document the call fetched was loaded without an exception. -/
def Lookup.loadedFully (st : Lookup) : Bool := (st.sent.bind Fetch.document).all (loadsFully P)

/-- 24 hours in nanoseconds. -/
def day : ℤ := 24 * 3600000000000

/-- Clock readings do not go back. -/
def InOrder (earlier : List Lookup) (st : Lookup) : Prop :=
  ∀ f : Lookup, f ∈ earlier → f.time ≤ st.time

/-- No fetch in the 24 hours after a successful one. -/
def RateLimited (earlier : List Lookup) (st : Lookup) : Prop :=
  ∀ f : Lookup, f ∈ earlier → f.succeeded = true → st.time < f.time + day → st.sent = none

/-- In the 24 hours after the last successful fetch only kids that the store knows are asked for
(until a day after the epoch others may be, if that fetch loaded its document in full). -/
def AsksKnownKids (earlier : List Lookup) (st : Lookup) : Prop :=
  ∀ f : Lookup, latest Lookup.succeeded earlier = some f → st.time < f.time + day →
    st.pre.store.verifiers st.input.kid ≠ none ∨ f.loadedFully P = true ∧ st.time < day

/-! ## One call -/

theorem hours_lt_iff (ns : ℤ) : ¬ 24 ≤ hours ns ↔ ns < day := by
  have hsign : Int.sign 3600000000000 = 1 := rfl
  unfold hours day
  rw [Int.tdiv_eq_ediv, hsign]
  split <;> omega

variable {J P}

/-- A remote source. -/
def Remote (s : StoreIn) : Prop := s.store.srcUrl ≠ [] ∧ isLocal s.store.srcUrl = false

instance (s : StoreIn) : Decidable (Remote s) := inferInstanceAs (Decidable (_ ∧ _))

/-- A remote document is what the transfer brings. -/
theorem fetchedDocument_of_remote (env : JwksEnv) (host : Host) {url : Bytes}
    (hremote : isLocal url = false) :
    fetchedDocument env host url = (Fetch.document ⟨url, env.curl⟩).map (·, 0) := by
  unfold fetchedDocument Fetch.document
  rw [hremote]
  cases env.curl with
  | response httpCode body => by_cases hcode : httpCode = 200 <;> simp [hcode]
  | _ => rfl

theorem hostAfterFetch_of_remote (env : JwksEnv) (host : Host) {url : Bytes}
    (hremote : isLocal url = false) :
    hostAfterFetch env host url = { host with fetches := ⟨url, env.curl⟩ :: host.fetches } := by
  rw [hostAfterFetch, hremote]
  rfl

/-- Saving a document sends nothing. -/
theorem saveBacking_fetches (env : JwksEnv) (store : JwksStore) (body : Bytes) (host : Host) :
    (saveBacking env store body host).fetches = host.fetches := by
  unfold saveBacking
  split <;> rfl

/-- What one call on a remote store does: nothing; or a fetch that fails and leaves the store alone;
or a fetch that succeeds and sets the time of the last fetch to the epoch, if the document is loaded
in full. -/
theorem lookupStep_cases {s s' : StoreIn} {call : LookupCall} {o : Outcome (Option Verifier)}
    (hremote : Remote s) (h : lookupStep J P s call = some (o, s')) :
    (¬ RefreshDue call.env s.store call.kid ∧ s' = s) ∨
      RefreshDue call.env s.store call.kid ∧ s'.store.srcUrl = s.store.srcUrl ∧
        s'.host.fetches = ⟨s.store.srcUrl, call.env.curl⟩ :: s.host.fetches ∧
          ((Fetch.document ⟨s.store.srcUrl, call.env.curl⟩ = none ∧
              s'.store.lastFetchTime = s.store.lastFetchTime) ∨
            ∃ body, Fetch.document ⟨s.store.srcUrl, call.env.curl⟩ = some body ∧
              s'.store.lastFetchTime =
                if loadsFully P body then 0 else s.store.lastFetchTime) := by
  obtain ⟨hrun, hdef⟩ := Exec.run_of_step h
  by_cases hdue : RefreshDue call.env s.store call.kid
  · refine Or.inr ⟨hdue, ?_⟩
    rw [findVerifier_run_of_due J P hdue, refresh_run J P call.env hremote.1] at hrun
    rw [fetchedDocument_of_remote call.env s.host hremote.2,
      hostAfterFetch_of_remote call.env s.host hremote.2] at hrun
    cases hbody : Fetch.document ⟨s.store.srcUrl, call.env.curl⟩ with
    | none =>
      simp only [hbody, Option.map_none] at hrun
      obtain ⟨-, rfl⟩ := Prod.mk.inj hrun
      exact ⟨rfl, rfl, Or.inl ⟨rfl, rfl⟩⟩
    | some body =>
      simp only [hbody, Option.map_some] at hrun
      cases hkeys : keysMember (P.parse body).1 with
      | absent =>
        simp only [hkeys] at hrun
        exact absurd (Prod.mk.inj hrun).1.symm hdef
      | array ary =>
        have hfull : loadsFully P body = allObjects ary := by rw [loadsFully, hkeys]
        cases hall : allObjects ary with
        | true =>
          simp only [hkeys, hall, if_true] at hrun
          obtain ⟨-, rfl⟩ := Prod.mk.inj hrun
          exact ⟨rfl, saveBacking_fetches _ _ _ _, Or.inr ⟨body, rfl, by rw [hfull, hall]; rfl⟩⟩
        | false =>
          simp only [hkeys, hall, Bool.false_eq_true, if_false] at hrun
          obtain ⟨-, rfl⟩ := Prod.mk.inj hrun
          exact ⟨rfl, saveBacking_fetches _ _ _ _, Or.inr ⟨body, rfl, by rw [hfull, hall]; rfl⟩⟩
      | _ =>
        have hfull : loadsFully P body = true := by rw [loadsFully, hkeys]
        simp only [hkeys] at hrun
        obtain ⟨-, rfl⟩ := Prod.mk.inj hrun
        exact ⟨rfl, saveBacking_fetches _ _ _ _, Or.inr ⟨body, rfl, by rw [hfull]; rfl⟩⟩
  · rw [findVerifier_run_of_not_due J P hdue] at hrun
    exact Or.inl ⟨hdue, (Prod.mk.inj hrun).2.symm⟩

/-! ## What a step records -/

section Records

variable {s s' : StoreIn} {call : LookupCall} {o : Outcome (Option Verifier)} {f : Fetch}

theorem sent_of_same : Lookup.sent ⟨s, call, o, s⟩ = none := by
  rw [Lookup.sent, if_neg (lt_irrefl _)]

theorem sent_of_cons (h : s'.host.fetches = f :: s.host.fetches) :
    Lookup.sent ⟨s, call, o, s'⟩ = some f := by
  simp only [Lookup.sent, h, List.length_cons, Nat.lt_succ_self, if_true, List.head?_cons]

theorem succeeded_of_same : Lookup.succeeded ⟨s, call, o, s⟩ = false := by
  rw [Lookup.succeeded, sent_of_same]
  rfl

theorem succeeded_of_cons (h : s'.host.fetches = f :: s.host.fetches) :
    Lookup.succeeded ⟨s, call, o, s'⟩ = f.document.isSome := by
  rw [Lookup.succeeded, sent_of_cons h]
  rfl

theorem loadedFully_of_cons {body : Bytes} (h : s'.host.fetches = f :: s.host.fetches)
    (hbody : f.document = some body) :
    Lookup.loadedFully P ⟨s, call, o, s'⟩ = loadsFully P body := by
  rw [Lookup.loadedFully, sent_of_cons h, Option.bind_some, hbody]
  rfl

end Records

/-! ## The whole run -/

/-- What holds after any run: the source is still remote, and the time of the last fetch is the
epoch, or at least a day before the last successful fetch, if loading its document threw. -/
structure RateInv (P : Picojson) (earlier : List Lookup) (s : StoreIn) : Prop where
  remote : Remote s
  clock : Everywhere InOrder earlier
  written : ∀ f : Lookup, latest Lookup.succeeded earlier = some f →
    f.loadedFully P = true ∧ s.store.lastFetchTime = 0 ∨
      f.loadedFully P = false ∧ day ≤ f.time - s.store.lastFetchTime

variable {s s' : StoreIn} {earlier : List Lookup} {call : LookupCall}
  {o : Outcome (Option Verifier)}

/-- Every call keeps the invariant. -/
theorem RateInv.step (hI : RateInv P earlier s) (h : lookupStep J P s call = some (o, s'))
    (horder : InOrder earlier ⟨s, call, o, s'⟩) : RateInv P (⟨s, call, o, s'⟩ :: earlier) s' := by
  rcases lookupStep_cases hI.remote h with
    ⟨-, rfl⟩ | ⟨hdue, hurl, hfetch, ⟨hfail, hlast⟩ | ⟨body, hbody, hlast⟩⟩
  · refine ⟨hI.remote, ⟨horder, hI.clock⟩, ?_⟩
    rw [latest_cons_of_neg succeeded_of_same]
    exact hI.written
  · refine ⟨by rw [Remote, hurl]; exact hI.remote, ⟨horder, hI.clock⟩, ?_⟩
    rw [latest_cons_of_neg (by rw [succeeded_of_cons hfetch, hfail]; rfl), hlast]
    exact hI.written
  · refine ⟨by rw [Remote, hurl]; exact hI.remote, ⟨horder, hI.clock⟩, ?_⟩
    rw [latest_cons_of_pos (by rw [succeeded_of_cons hfetch, hbody]; rfl), hlast]
    rintro f hf
    obtain rfl := Option.some.inj hf
    rw [loadedFully_of_cons hfetch hbody]
    cases loadsFully P body with
    | true => exact Or.inl ⟨rfl, rfl⟩
    | false =>
      -- the fetch was due, and the time of the last one has stayed
      have hday : ¬ call.env.now - s.store.lastFetchTime < day := by
        rw [← hours_lt_iff, not_not]
        exact hdue.2
      have hlong : day ≤ call.env.now - s.store.lastFetchTime := by omega
      exact Or.inr ⟨rfl, hlong⟩

/-- For one call, under the invariant: it stays within the rate exactly when the kid is known. -/
theorem rateLimited_iff_asksKnownKids (hI : RateInv P earlier s)
    (h : lookupStep J P s call = some (o, s')) (horder : InOrder earlier ⟨s, call, o, s'⟩) :
    RateLimited earlier ⟨s, call, o, s'⟩ ↔ AsksKnownKids P earlier ⟨s, call, o, s'⟩ := by
  have hsent : Lookup.sent ⟨s, call, o, s'⟩ = none ↔ ¬ RefreshDue call.env s.store call.kid := by
    rcases lookupStep_cases hI.remote h with ⟨hno, rfl⟩ | ⟨hdue, -, hfetch, -⟩
    · exact iff_of_true sent_of_same hno
    · rw [sent_of_cons hfetch]
      exact iff_of_false (by simp) (not_not.mpr hdue)
  have hdue : ¬ RefreshDue call.env s.store call.kid ↔
      s.store.verifiers call.kid ≠ none ∨ call.env.now - s.store.lastFetchTime < day := by
    rw [RefreshDue, ← hours_lt_iff, ← not_and_or]
  constructor
  · intro hlim f hf hwindow
    have hno := hlim f (mem_of_latest hf) (prop_of_latest hf) hwindow
    rw [hsent, hdue] at hno
    rcases hno with hknown | hrecent
    · exact Or.inl hknown
    · right
      rcases hI.written f hf with ⟨hfull, hlast⟩ | ⟨-, hlong⟩
      · rw [hlast, Int.sub_zero] at hrecent
        exact ⟨hfull, hrecent⟩
      · have htime : f.time ≤ call.env.now := horder f (mem_of_latest hf)
        omega
  · intro hask f hf hsucc hwindow
    obtain ⟨g, hg, hle⟩ := le_latest hI.clock hf hsucc
    have hwindow' : Lookup.time ⟨s, call, o, s'⟩ < Lookup.time g + day := by
      have : Lookup.time f ≤ Lookup.time g := hle
      omega
    rw [hsent, hdue]
    rcases hask g hg hwindow' with hknown | ⟨hfull, hepoch⟩
    · exact Or.inl hknown
    · rcases hI.written g hg with ⟨-, hlast⟩ | ⟨hnot, -⟩
      · right
        rw [hlast, Int.sub_zero]
        exact hepoch
      · rw [hfull] at hnot
        cases hnot

/-- **Refreshes are rate limited exactly in the runs that ask for known kids** within the 24 hours
after a successful fetch. -/
theorem rateLimited_run_iff {s₀ s : StoreIn} {h : List Lookup} (hremote : Remote s₀)
    (hrun : Run (lookupStep J P) s₀ h s) (hclock : Everywhere InOrder h) :
    Everywhere RateLimited h ↔ Everywhere (AsksKnownKids P) h := by
  have hinit : RateInv P [] s₀ := ⟨hremote, trivial, fun f hf => by cases hf⟩
  apply Run.everywhere_congr hinit _ _ hrun hclock
  · intro earlier s call o s' hI htake horder
    exact hI.step htake horder
  · intro earlier s call o s' hI htake horder
    exact rateLimited_iff_asksKnownKids hI htake horder

/-! ## A second fetch one second later -/

/-- A store that knows no key yet, with `n` fetches behind it. -/
def keylessStore (n : ℕ) : StoreIn where
  store := { srcUrl := bytes "https://login.microsoftonline.com/common/discovery/v2.0/keys" }
  host :=
    { files := fun _ => none
      fetches := List.replicate n
        ⟨bytes "https://login.microsoftonline.com/common/discovery/v2.0/keys",
          .response 200 emptyKeysBody⟩ }

/-- A call for a kid that the issuer does not publish, at the given second of 2026. -/
def unknownKidCall (second : ℤ) : LookupCall where
  env :=
    { now := (1790000000 + second) * 1000000000
      curl := .response 200 emptyKeysBody
      saveRamToFile := fun _ _ files => files
      verifyNow := 1790000000 + second }
  kid := bytes "k1"

/-- The two calls, one second apart. -/
def twoCalls : List Lookup :=
  [⟨keylessStore 1, unknownKidCall 1, .ret none, keylessStore 2⟩,
    ⟨keylessStore 0, unknownKidCall 0, .ret none, keylessStore 1⟩]

theorem run_twoCalls (J : JwtCpp) :
    Run (lookupStep J emptyKeysParser) (keylessStore 0) twoCalls (keylessStore 2) :=
  .cons (.cons .nil rfl) rfl

theorem inOrder_twoCalls : Everywhere InOrder twoCalls := by
  refine ⟨?_, ?_, trivial⟩
  · intro f hf
    obtain rfl := List.mem_singleton.mp hf
    decide
  · intro f hf
    cases hf

/-- Both calls fetch. -/
theorem rateLimited_twoCalls :
    Run (lookupStep (JwtCpp.ofTable [] fun _ _ => false) emptyKeysParser) (keylessStore 0) twoCalls
        (keylessStore 2) ∧
      Remote (keylessStore 0) ∧ Everywhere InOrder twoCalls ∧
        ¬ Everywhere RateLimited twoCalls := by
  refine ⟨run_twoCalls _, by decide, inOrder_twoCalls, fun hlim => ?_⟩
  have hnone := hlim.1 _ (List.mem_singleton_self _) rfl (by decide)
  have hsent : (Lookup.sent ⟨keylessStore 1, unknownKidCall 1, .ret none, keylessStore 2⟩).isSome :=
    rfl
  rw [hnone] at hsent
  cases hsent

theorem rateLimited_run_iff_twoCalls :
    Everywhere RateLimited twoCalls ↔ Everywhere (AsksKnownKids emptyKeysParser) twoCalls :=
  rateLimited_run_iff (by decide) (run_twoCalls (JwtCpp.ofTable [] fun _ _ => false))
    inOrder_twoCalls

end FcgiJwtAuth
