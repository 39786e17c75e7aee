import FcgiJwtAuth.AppAuth.TokenExchange
import FcgiJwtAuth.CLang.Run

/-!
# The authorization-code cache over runs

A code is looked up before expired entries are removed, and a hit extends the deadline of whatever
it found. So an entry past its deadline is served, and lives on, unless another code was exchanged
in between. A run serves no stale token exactly when each call that is answered from the cache comes
within 30 seconds of the last answer for its code (and its token is one that a C string can hold).
-/

namespace FcgiJwtAuth

open CLang

variable (P : Picojson) (G : Libgreen) (site : AppSpecific)

/-! ## Runs of exchanges -/

/-- A call of `get_tokens_from_microsoft`. -/
structure ExchangeCall where
  env : ExchangeEnv
  code : CStr

/-- A call as a step. -/
def exchangeStep (codes : Codes) (call : ExchangeCall) :
    Option (Outcome (ℤ × Option CStr) × Codes) :=
  (getTokensFromMicrosoft P G site call.env call.code).step codes

/-- A step of a run of exchanges. -/
abbrev Exchange := Step Codes ExchangeCall (Outcome (ℤ × Option CStr))

/-- The entry that the call is answered from. -/
def Exchange.hit (st : Exchange) : Option TimedJwtEntry := st.pre st.input.code.val

/-- The token that the call has exchanged and stored. -/
def Exchange.stored (st : Exchange) : Option Bytes :=
  match st.hit with
  | some _ => none
  | none => (st.post st.input.code.val).map TimedJwtEntry.value

/-- A successful exchange of the code. -/
def Exchange.storesFor (code : CStr) (st : Exchange) : Bool :=
  decide (st.input.code = code) && st.stored.isSome

/-- A call for the code that was answered with a token, from the cache or by an exchange. -/
def Exchange.answersFor (code : CStr) (st : Exchange) : Bool :=
  decide (st.input.code = code) && (st.hit.isSome || st.stored.isSome)

/-- When the deadline of the entry was set: at the lookup, or when the new token was stored. -/
def Exchange.answeredAt (st : Exchange) : ℤ :=
  match st.hit with
  | some _ => st.input.env.now
  | none => st.input.env.storeNow

/-- An answer from the cache is the token that the last exchange of that code stored, and its
deadline has not been reached. -/
def ServesFresh (earlier : List Exchange) (st : Exchange) : Prop :=
  ∀ entry, Exchange.hit st = some entry → st.input.env.now < entry.expiresAt ∧
    ∃ f token, latest (Exchange.storesFor st.input.code) earlier = some f ∧
      st.output = .ret (0, some token) ∧ Exchange.stored f = some token.val

/-- A call that is answered from the cache comes less than 30 seconds after the last answer for its
code, and the token exchanged for the code holds no NUL. -/
def AsksInTime (earlier : List Exchange) (st : Exchange) : Prop :=
  (Exchange.hit st).isSome →
    (∀ g, latest (Exchange.answersFor st.input.code) earlier = some g →
      st.input.env.now < Exchange.answeredAt g + thirtySeconds) ∧
    ∀ f t, latest (Exchange.storesFor st.input.code) earlier = some f →
      Exchange.stored f = some t → (0 : Byte) ∉ t

/-! ## One call -/

variable {P G site}

section OneCall

variable {codes codes' : Codes} {call : ExchangeCall} {o : Outcome (ℤ × Option CStr)}

/-- What one call does: it answers from the cache and extends the deadline; or it stores a token
that it exchanged; or it stores nothing. The last two remove expired entries first. -/
theorem exchangeStep_cases (h : exchangeStep P G site codes call = some (o, codes')) :
    (∃ entry, codes call.code.val = some entry ∧ o = .ret (0, some (CStr.ofBytes entry.value)) ∧
        codes' = Function.update codes call.code.val
          (some { entry with expiresAt := call.env.now + thirtySeconds })) ∨
      codes call.code.val = none ∧
        ((∃ t, codes' = Function.update (codesRemoveExpired call.env.now codes) call.code.val
            (some ⟨t, call.env.storeNow + thirtySeconds⟩)) ∨
          codes' = codesRemoveExpired call.env.now codes) := by
  obtain ⟨hrun, hdef⟩ := Exec.run_of_step h
  cases hcode : codes call.code.val with
  | some entry =>
    rw [getTokens_run_of_hit hcode] at hrun
    obtain ⟨rfl, rfl⟩ := Prod.mk.inj hrun
    exact Or.inl ⟨entry, rfl, rfl, rfl⟩
  | none =>
    rw [getTokens_run_of_miss hcode] at hrun
    refine Or.inr ⟨rfl, ?_⟩
    cases hreply : exchangeReply P G site call.env call.code with
    | noToken =>
      rw [hreply] at hrun
      exact absurd (Prod.mk.inj hrun).1.symm hdef
    | token t parsed =>
      rw [hreply] at hrun
      exact Or.inl ⟨t, (Prod.mk.inj hrun).2.symm⟩
    | _ =>
      rw [hreply] at hrun
      exact Or.inr (Prod.mk.inj hrun).2.symm

/-- An entry that survives the removal of expired ones is unchanged. -/
theorem eq_of_codesRemoveExpired {now : ℤ} {c : Bytes} {entry : TimedJwtEntry}
    (h : codesRemoveExpired now codes c = some entry) : codes c = some entry := by
  rcases addsNothing_codesRemoveExpired now codes c with hnone | hsame
  · rw [hnone] at h
    cases h
  · rw [← hsame, h]

end OneCall

/-! ## The whole run -/

/-- What holds after any run from an empty cache: an entry holds the token of the last exchange of
its code, and its deadline is 30 seconds after the last answer for it. -/
def CacheInv (earlier : List Exchange) (codes : Codes) : Prop :=
  ∀ code : CStr, ∀ entry, codes code.val = some entry →
    (∃ f, latest (Exchange.storesFor code) earlier = some f ∧
      Exchange.stored f = some entry.value) ∧
    ∃ g, latest (Exchange.answersFor code) earlier = some g ∧
      entry.expiresAt = Exchange.answeredAt g + thirtySeconds

section Step

variable {earlier : List Exchange} {codes codes' : Codes} {call : ExchangeCall}
  {o : Outcome (ℤ × Option CStr)}

/-- A step for another code is none of this one's. -/
theorem latest_of_ne {code : CStr} (hne : call.code ≠ code) :
    latest (Exchange.storesFor code) (⟨codes, call, o, codes'⟩ :: earlier) =
        latest (Exchange.storesFor code) earlier ∧
      latest (Exchange.answersFor code) (⟨codes, call, o, codes'⟩ :: earlier) =
        latest (Exchange.answersFor code) earlier := by
  have hcode : decide (call.code = code) = false := decide_eq_false hne
  constructor
  · exact latest_cons_of_neg (by rw [Exchange.storesFor]; simp only [hcode, Bool.false_and])
  · exact latest_cons_of_neg (by rw [Exchange.answersFor]; simp only [hcode, Bool.false_and])

/-- An entry of a code that was not asked for keeps its invariant if it is still the same. -/
theorem CacheInv.other (hI : CacheInv earlier codes) {code : CStr} {entry : TimedJwtEntry}
    (hne : call.code ≠ code) (h : codes code.val = some entry) :
    (∃ f, latest (Exchange.storesFor code) (⟨codes, call, o, codes'⟩ :: earlier) = some f ∧
      Exchange.stored f = some entry.value) ∧
    ∃ g, latest (Exchange.answersFor code) (⟨codes, call, o, codes'⟩ :: earlier) = some g ∧
      entry.expiresAt = Exchange.answeredAt g + thirtySeconds := by
  rw [(latest_of_ne hne).1, (latest_of_ne hne).2]
  exact hI code entry h

/-- Every call keeps the invariant. -/
theorem CacheInv.step (hI : CacheInv earlier codes)
    (h : exchangeStep P G site codes call = some (o, codes')) :
    CacheInv (⟨codes, call, o, codes'⟩ :: earlier) codes' := by
  intro code entry hentry
  have hval : call.code ≠ code → code.val ≠ call.code.val :=
    fun hne heq => hne (CStr.ext heq.symm)
  rcases exchangeStep_cases h with ⟨cached, hcached, -, rfl⟩ | ⟨hmiss, ⟨t, rfl⟩ | rfl⟩
  · by_cases hcode : call.code = code
    · -- a hit: the token stays, the deadline is the new one
      subst hcode
      rw [Function.update_self] at hentry
      obtain rfl := Option.some.inj hentry
      have hhit : Exchange.hit ⟨codes, call, o, Function.update codes call.code.val
          (some { cached with expiresAt := call.env.now + thirtySeconds })⟩ = some cached := hcached
      refine ⟨?_, ⟨_, latest_cons_of_pos ?_, ?_⟩⟩
      · rw [latest_cons_of_neg (by simp [Exchange.storesFor, Exchange.stored, hhit])]
        exact (hI call.code cached hcached).1
      · simp [Exchange.answersFor, hhit]
      · simp only [Exchange.answeredAt, hhit]
    · rw [Function.update_of_ne (hval hcode)] at hentry
      exact hI.other hcode hentry
  · by_cases hcode : call.code = code
    · -- an exchange: the step is the last of both kinds
      subst hcode
      rw [Function.update_self] at hentry
      obtain rfl := Option.some.inj hentry
      have hstored : Exchange.stored ⟨codes, call, o, Function.update
          (codesRemoveExpired call.env.now codes) call.code.val
          (some ⟨t, call.env.storeNow + thirtySeconds⟩)⟩ = some t := by
        simp [Exchange.stored, Exchange.hit, hmiss]
      refine ⟨⟨_, latest_cons_of_pos ?_, hstored⟩, ⟨_, latest_cons_of_pos ?_, ?_⟩⟩
      · simp [Exchange.storesFor, hstored]
      · simp [Exchange.answersFor, hstored]
      · simp only [Exchange.answeredAt, Exchange.hit, hmiss]
    · rw [Function.update_of_ne (hval hcode)] at hentry
      exact hI.other hcode (eq_of_codesRemoveExpired hentry)
  · have hold := eq_of_codesRemoveExpired hentry
    have hcode : call.code ≠ code := by
      rintro rfl
      rw [hmiss] at hold
      cases hold
    exact hI.other hcode hold

/-- For one call, under the invariant: it serves a fresh token exactly when it asks in time. -/
theorem servesFresh_iff_asksInTime (hI : CacheInv earlier codes)
    (h : exchangeStep P G site codes call = some (o, codes')) :
    ServesFresh earlier ⟨codes, call, o, codes'⟩ ↔ AsksInTime earlier ⟨codes, call, o, codes'⟩ := by
  rcases exchangeStep_cases h with ⟨cached, hcached, rfl, -⟩ | ⟨hmiss, -⟩
  · obtain ⟨⟨f, hf, hstored⟩, ⟨g, hg, hdeadline⟩⟩ := hI call.code cached hcached
    constructor
    · intro hfresh _
      obtain ⟨htime, f', token, hf', hout, htok⟩ := hfresh cached hcached
      refine ⟨fun g' hg' => ?_, fun f₂ t hf₂ ht => ?_⟩
      · obtain rfl := Option.some.inj (hg.symm.trans hg')
        rw [← hdeadline]
        exact htime
      · obtain rfl := Option.some.inj (hf'.symm.trans hf₂)
        rw [← Option.some.inj (htok.symm.trans ht)]
        exact token.noNul
    · intro hask entry hentry
      obtain rfl := Option.some.inj (hcached.symm.trans hentry)
      obtain ⟨htime, hnul⟩ := hask (Option.isSome_of_mem hcached)
      refine ⟨?_, f, CStr.ofBytes cached.value, hf, rfl, ?_⟩
      · rw [hdeadline]
        exact htime g hg
      · rw [CStr.ofBytes_val (hnul f _ hf hstored), hstored]
  · have hhit : Exchange.hit ⟨codes, call, o, codes'⟩ = none := hmiss
    refine iff_of_true (fun entry hentry => ?_) (fun hsome => ?_)
    · rw [hhit] at hentry
      cases hentry
    · rw [hhit] at hsome
      cases hsome

end Step

/-- **No stale token is served, exactly in the runs where every answer from the cache is asked for
in time.** -/
theorem servesFresh_run_iff {codes : Codes} {h : List Exchange}
    (hrun : Run (exchangeStep P G site) (fun _ => none) h codes) :
    Everywhere ServesFresh h ↔ Everywhere AsksInTime h := by
  have hinit : CacheInv [] (fun _ => none) := fun code entry hentry => by cases hentry
  have hadm : Everywhere (fun _ _ => True) h := everywhere_of_forall (fun _ _ => trivial) h
  apply Run.everywhere_congr hinit _ _ hrun hadm
  · intro earlier codes call o codes' hI htake _
    exact hI.step htake
  · intro earlier codes call o codes' hI htake _
    exact servesFresh_iff_asksInTime hI htake

/-! ## A stale token -/

/-- The body of a reply with a token. -/
def tokenBody : Bytes := bytes "\x7b\"id_token\":\"t\"\x7d"

/-- A parser that knows it. -/
def tokenBodyParser : Picojson :=
  .ofTable [(tokenBody, .object [(bytes "id_token", .string (bytes "t"))])]

/-- The cache with the token of one code, good until the given time. -/
def cached (expiresAt : ℤ) : Codes :=
  Function.update (fun _ => none) (bytes "M.R3") (some ⟨bytes "t", expiresAt⟩)

/-- A call for that code at the given second. -/
def askAt (seconds : ℤ) : ExchangeCall where
  env := exchangeAnswered (seconds * 1000000000) (seconds * 1000000000) 200 tokenBody
  code := CStr.lit "M.R3"

/-- The code is exchanged, and presented again a minute later. -/
def staleExchanges : List Exchange :=
  [⟨cached 30000000000, askAt 60, .ret (0, some (CStr.lit "t")), cached 90000000000⟩,
    ⟨fun _ => none, askAt 0, .ret (0, some (CStr.lit "t")), cached 30000000000⟩]

theorem run_staleExchanges :
    Run (exchangeStep tokenBodyParser .sample .sample) (fun _ => none) staleExchanges
      (cached 90000000000) := by
  refine Run.cons (Run.cons Run.nil ?_) ?_
  · have hreply : exchangeReply tokenBodyParser .sample .sample (askAt 0).env (askAt 0).code =
        .token (bytes "t") true := rfl
    rw [exchangeStep, Exec.step, getTokens_run_of_miss rfl, hreply]
    rfl
  · have hhit : cached 30000000000 (askAt 60).code.val = some ⟨bytes "t", 30000000000⟩ := rfl
    have hextend : Function.update (cached 30000000000) (askAt 60).code.val
        (some ⟨bytes "t", 90000000000⟩) = cached 90000000000 := Function.update_idem _ _ _
    rw [exchangeStep, Exec.step, getTokens_run_of_hit hhit, ← hextend]
    rfl

/-- The minute-old token is served, half a minute past its deadline. -/
theorem servesFresh_staleExchanges :
    Run (exchangeStep tokenBodyParser .sample .sample) (fun _ => none) staleExchanges
        (cached 90000000000) ∧
      ¬ Everywhere ServesFresh staleExchanges := by
  refine ⟨run_staleExchanges, fun hfresh => ?_⟩
  obtain ⟨htime, -⟩ := hfresh.1 ⟨bytes "t", 30000000000⟩ rfl
  exact absurd htime (by decide)

theorem servesFresh_run_iff_staleExchanges :
    Everywhere ServesFresh staleExchanges ↔ Everywhere AsksInTime staleExchanges :=
  servesFresh_run_iff run_staleExchanges

end FcgiJwtAuth
