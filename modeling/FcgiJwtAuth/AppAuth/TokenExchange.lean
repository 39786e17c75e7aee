import FcgiJwtAuth.HttpClient
import FcgiJwtAuth.Libraries.JwtCpp
import FcgiJwtAuth.Libraries.Libgreen

/-!
# The token exchange

`get_tokens_from_microsoft` trades an authorization code for an `id_token`, and keeps the token for
30 seconds, so that a code can be presented again. What the JSON parser leaves behind is read
without asking whether parsing succeeded, and the `id_token` member without asking whether it is
there.
-/

namespace FcgiJwtAuth

open CLang

/-- `TimedJWTEntry`. Times are readings of the steady clock in nanoseconds. -/
structure TimedJwtEntry where
  value : Bytes
  expiresAt : ℤ
deriving DecidableEq

/-- `g_codes_to_jwts`. -/
abbrev Codes := Bytes → Option TimedJwtEntry

/-- `30s`. -/
def thirtySeconds : ℤ := 30 * 1000000000

/-- `g_codes_to_jwts_remove_expired`, with the clock it reads. -/
def codesRemoveExpired (now : ℤ) (codes : Codes) : Codes := fun code =>
  match codes code with
  | none => none
  | some entry => if now ≥ entry.expiresAt then none else some entry

/-- The inputs of one call. -/
structure ExchangeEnv where
  /-- The first reading of the clock: for the new deadline of a cached token, or for the purge. -/
  now : ℤ
  /-- The reading when a new token is stored. -/
  storeNow : ℤ
  /-- How posting the given data goes. -/
  curl : Bytes → CurlPost

variable (P : Picojson) (G : Libgreen) (site : AppSpecific)

/-- The form that is posted to the token endpoint. -/
def exchangePostData (code : CStr) : Bytes :=
  bytes "client_id=" ++ site.oauth2DefaultClientId.val ++ bytes "&" ++
    bytes "client_secret=" ++ site.oauth2DefaultClientSecret.val ++ bytes "&" ++
    bytes "scope=openid%20profile%20email&" ++
    bytes "code=" ++ G.urlEncode code ++ bytes "&" ++
    bytes "redirect_uri=" ++ site.oauth2DefaultRedirectUri.val ++ bytes "&" ++
    bytes "grant_type=authorization_code"

/-- `g_codes_to_jwts.try_emplace(code, entry)`. -/
def tryEmplaceCode (code : Bytes) (entry : TimedJwtEntry) (codes : Codes) : Codes :=
  match codes code with
  | some _ => codes
  | none => Function.update codes code (some entry)

/-- The part of `get_tokens_from_microsoft` that reads the reply. -/
def readReply (env : ExchangeEnv) (code : CStr) (inputjson : Bytes) :
    Exec Codes (ℤ × Option CStr) :=
  match (P.parse inputjson).1 with
  | .object obj =>
    match Object.find obj (bytes "id_token") with
    -- `find("id_token")->second` without looking at the iterator
    | none => Exec.undefined
    | some (.string token) => do
      Exec.modify (tryEmplaceCode code.val ⟨token, env.storeNow + thirtySeconds⟩)
      -- `strdup(token.c_str())`
      pure (0, some (CStr.ofBytes token))
    | some _ => pure (-2, none)
  | _ => pure (-2, none)

/-- `get_tokens_from_microsoft`: its return code, and `*token_ptr` if it was set. -/
def getTokensFromMicrosoft (env : ExchangeEnv) (code : CStr) :
    Exec Codes (ℤ × Option CStr) := do
  let codes ← Exec.get
  match codes code.val with
  | some existing =>
    Exec.modify fun codes =>
      Function.update codes code.val
        (some { existing with expiresAt := env.now + thirtySeconds })
    pure (0, some (CStr.ofBytes existing.value))
  | none =>
    Exec.modify (codesRemoveExpired env.now)
    match httpPost (env.curl (exchangePostData G site code)) with
    | some response => readReply P env code response.data
    | none => pure (-1, none)

/-! ## What a call does -/

/-- What an exchange meets. -/
inductive Reply
  /-- `http_post` fails. -/
  | failed
  /-- Parsing the body leaves something other than an object. -/
  | notObject
  /-- An object without an `id_token`. -/
  | noToken
  /-- An object whose `id_token` is not a string. -/
  | notString
  /-- An object whose `id_token` is a string; `parsed` when the parser succeeded. -/
  | token (t : Bytes) (parsed : Bool)

/-- The reply to the exchange of a code. -/
def exchangeReply (env : ExchangeEnv) (code : CStr) : Reply :=
  match httpPost (env.curl (exchangePostData G site code)) with
  | none => .failed
  | some response =>
    match P.parse response.data with
    | (.object obj, parsed) =>
      match Object.find obj (bytes "id_token") with
      | none => .noToken
      | some (.string t) => .token t parsed
      | some _ => .notString
    | _ => .notObject

section Run

variable {P G site} {env : ExchangeEnv} {code : CStr} {codes : Codes}

/-- A code in the cache is answered from it, and gets a new deadline. -/
theorem getTokens_run_of_hit {entry : TimedJwtEntry} (h : codes code.val = some entry) :
    (getTokensFromMicrosoft P G site env code).run codes =
      (.ret (0, some (CStr.ofBytes entry.value)),
        Function.update codes code.val
          (some { entry with expiresAt := env.now + thirtySeconds })) := by
  unfold getTokensFromMicrosoft
  rw [Exec.bind_ret (Exec.run_get codes)]
  simp only [h]
  rfl

theorem codesRemoveExpired_of_none {now : ℤ} (h : codes code.val = none) :
    codesRemoveExpired now codes code.val = none := by
  rw [codesRemoveExpired, h]

/-- Any other code, by the reply. -/
theorem getTokens_run_of_miss (h : codes code.val = none) :
    (getTokensFromMicrosoft P G site env code).run codes =
      match exchangeReply P G site env code with
      | .failed => (.ret (-1, none), codesRemoveExpired env.now codes)
      | .notObject => (.ret (-2, none), codesRemoveExpired env.now codes)
      | .noToken => (.undefined, codesRemoveExpired env.now codes)
      | .notString => (.ret (-2, none), codesRemoveExpired env.now codes)
      | .token t _ => (.ret (0, some (CStr.ofBytes t)),
          Function.update (codesRemoveExpired env.now codes) code.val
            (some ⟨t, env.storeNow + thirtySeconds⟩)) := by
  unfold getTokensFromMicrosoft exchangeReply
  rw [Exec.bind_ret (Exec.run_get codes)]
  simp only [h]
  rw [Exec.bind_ret (Exec.run_modify _ codes)]
  cases httpPost (env.curl (exchangePostData G site code)) with
  | none => rfl
  | some response =>
    rcases hparse : P.parse response.data with ⟨v, parsed⟩
    simp only [readReply, hparse]
    cases v with
    | object obj =>
      simp only
      cases Object.find obj (bytes "id_token") with
      | none => rfl
      | some v =>
        cases v with
        | string t =>
          simp only
          rw [Exec.bind_ret (Exec.run_modify _ _), tryEmplaceCode, codesRemoveExpired_of_none h]
          rfl
        | _ => rfl
    | _ => rfl

end Run

/-- The reply for a code, from the cache or by an exchange. -/
def codeReply (env : ExchangeEnv) (code : CStr) (codes : Codes) : Reply :=
  match codes code.val with
  | some entry => .token entry.value true
  | none => exchangeReply P G site env code

/-- How a call ends, by the reply. -/
theorem getTokens_outcome (env : ExchangeEnv) (code : CStr) (codes : Codes) :
    ((getTokensFromMicrosoft P G site env code).run codes).1 =
      match codeReply P G site env code codes with
      | .failed => .ret (-1, none)
      | .notObject => .ret (-2, none)
      | .noToken => .undefined
      | .notString => .ret (-2, none)
      | .token t _ => .ret (0, some (CStr.ofBytes t)) := by
  unfold codeReply
  cases hcode : codes code.val with
  | some entry => rw [getTokens_run_of_hit hcode]
  | none =>
    rw [getTokens_run_of_miss hcode]
    cases exchangeReply P G site env code <;> rfl

/-! ## Every reply -/

/-- The token of a body that is a JSON object with a string `id_token`. -/
def exchangedToken (env : ExchangeEnv) (code : CStr) : Option Bytes :=
  match exchangeReply P G site env code with
  | .token t true => some t
  | _ => none

/-- No entry is new or changed. -/
def AddsNothing (codes codes' : Codes) : Prop := ∀ c, codes' c = none ∨ codes' c = codes c

/-- The call returns. With a token in the body it returns 0, passes exactly that token on, and
stores it for the code and nothing else; without one it returns something else, passes nothing on
and stores nothing. -/
def HandlesReply (env : ExchangeEnv) (code : CStr) (codes : Codes) : Prop :=
  ∃ rc token codes',
    (getTokensFromMicrosoft P G site env code).run codes = (.ret (rc, token), codes') ∧
      match exchangedToken P G site env code with
      | some t => rc = 0 ∧ token.map CStr.val = some t ∧
          (codes' code.val).map TimedJwtEntry.value = some t ∧
          AddsNothing codes (Function.update codes' code.val none)
      | none => rc ≠ 0 ∧ token = none ∧ AddsNothing codes codes'

/-- The reply is not an object without an `id_token`; and if it is one with a string there, then
parsing succeeded and the string holds no NUL. -/
def ReadableReply (env : ExchangeEnv) (code : CStr) : Prop :=
  match exchangeReply P G site env code with
  | .noToken => False
  | .token t parsed => parsed = true ∧ (0 : Byte) ∉ t
  | _ => True

theorem addsNothing_codesRemoveExpired (now : ℤ) (codes : Codes) :
    AddsNothing codes (codesRemoveExpired now codes) := by
  intro c
  unfold codesRemoveExpired
  cases codes c with
  | none => exact Or.inl rfl
  | some entry =>
    simp only
    split
    · exact Or.inl rfl
    · exact Or.inr rfl

theorem AddsNothing.erase {codes codes' : Codes} (h : AddsNothing codes codes') (c : Bytes) :
    AddsNothing codes (Function.update codes' c none) := by
  intro c'
  by_cases hc : c' = c
  · exact Or.inl (by rw [hc, Function.update_self])
  · rw [Function.update_of_ne hc]
    exact h c'

/-- **The exchange handles exactly the readable replies.** -/
theorem getTokens_handlesReply_iff (env : ExchangeEnv) (code : CStr) (codes : Codes)
    (hmiss : codes code.val = none) :
    HandlesReply P G site env code codes ↔ ReadableReply P G site env code := by
  have hpurge := addsNothing_codesRemoveExpired env.now codes
  unfold HandlesReply ReadableReply exchangedToken
  rw [getTokens_run_of_miss hmiss]
  cases exchangeReply P G site env code with
  | failed => exact iff_of_true ⟨-1, none, _, rfl, by decide, rfl, hpurge⟩ trivial
  | notObject => exact iff_of_true ⟨-2, none, _, rfl, by decide, rfl, hpurge⟩ trivial
  | notString => exact iff_of_true ⟨-2, none, _, rfl, by decide, rfl, hpurge⟩ trivial
  | noToken =>
    refine iff_of_false ?_ id
    rintro ⟨rc, token, codes', hrun, -⟩
    cases (Prod.mk.inj hrun).1
  | token t parsed =>
    cases parsed with
    | false =>
      -- the text is cut off, but the token is taken and 0 is returned
      refine iff_of_false ?_ (by simp)
      rintro ⟨rc, token, codes', hrun, hrc, -⟩
      have hret := Outcome.ret.inj (Prod.mk.inj hrun).1
      exact hrc (Prod.mk.inj hret).1.symm
    | true =>
      simp only [true_and]
      constructor
      · rintro ⟨rc, token, codes', hrun, -, htoken, -⟩
        have hret := Outcome.ret.inj (Prod.mk.inj hrun).1
        rw [← (Prod.mk.inj hret).2] at htoken
        have hval : (CStr.ofBytes t).val = t := Option.some.inj htoken
        rw [← hval]
        exact (CStr.ofBytes t).noNul
      · intro hnul
        refine ⟨0, _, _, rfl, rfl, ?_, ?_, ?_⟩
        · rw [Option.map_some, CStr.ofBytes_val hnul]
        · rw [Function.update_self]
          rfl
        · rw [Function.update_idem]
          exact hpurge.erase code.val

/-! ## An error reply -/

/-- One piece holds the whole body. -/
def CurlPost.ofBody (httpStatus : ℤ) (body : Bytes) : CurlPost where
  handle := true
  headerList := true
  pieces := [⟨body, 1, UInt64.ofNat body.length, true⟩]
  performed := true
  contentType := none
  httpStatus := httpStatus
  duplicated := true

/-- A body of at most a mebibyte arrives whole, whatever the status. -/
theorem httpPost_ofBody {body : Bytes} (hpos : 0 < body.length) (hmax : body.length ≤ 1024 * 1024)
    (httpStatus : ℤ) : httpPost (.ofBody httpStatus body) = some ⟨none, body⟩ := by
  have hsize : (UInt64.ofNat body.length).toNat = body.length :=
    UInt64.toNat_ofNat_of_lt' (by simp only [UInt64.size]; omega)
  have hone : (1 : UInt64) * UInt64.ofNat body.length = UInt64.ofNat body.length := UInt64.one_mul _
  have hne : UInt64.ofNat body.length ≠ 0 := by
    intro h
    rw [h] at hsize
    simp at hsize
    omega
  have hle : ¬ UInt64.ofNat body.length > maxResponseSize - UInt64.ofNat 0 := by
    rw [gt_iff_lt, UInt64.lt_iff_toNat_lt, hsize]
    have : (maxResponseSize - UInt64.ofNat 0).toNat = 1024 * 1024 := by decide
    omega
  have hwrite : writeCallback [] ⟨body, 1, UInt64.ofNat body.length, true⟩ =
      (UInt64.ofNat body.length, body) := by
    simp only [writeCallback, hone, if_neg hne, List.length_nil, if_neg hle, if_true, hsize,
      List.nil_append, List.take_length]
  simp only [httpPost, CurlPost.ofBody, Bool.and_self, if_true, transfer, hwrite, hone]

/-- The body of an OAuth error reply. -/
def errorBody : Bytes := bytes "\x7b\"error\":\"invalid_grant\"\x7d"

/-- A parser that knows it. -/
def errorBodyParser : Picojson :=
  .ofTable [(errorBody, .object [(bytes "error", .string (bytes "invalid_grant"))])]

/-- An exchange that is answered with the given status and body. -/
def exchangeAnswered (now storeNow httpStatus : ℤ) (body : Bytes) : ExchangeEnv where
  now := now
  storeNow := storeNow
  curl _ := .ofBody httpStatus body

theorem getTokens_error_reply :
    ¬ HandlesReply errorBodyParser .sample .sample (exchangeAnswered 0 0 400 errorBody)
      (CStr.lit "M.R3") (fun _ => none) := by
  have hreply : exchangeReply errorBodyParser .sample .sample (exchangeAnswered 0 0 400 errorBody)
      (CStr.lit "M.R3") = .noToken := rfl
  rintro ⟨rc, token, codes', hrun, -⟩
  rw [getTokens_run_of_miss rfl, hreply] at hrun
  cases (Prod.mk.inj hrun).1

theorem getTokens_handlesReply_iff_error :
    HandlesReply errorBodyParser .sample .sample (exchangeAnswered 0 0 400 errorBody)
        (CStr.lit "M.R3") (fun _ => none) ↔
      ReadableReply errorBodyParser .sample .sample (exchangeAnswered 0 0 400 errorBody)
        (CStr.lit "M.R3") :=
  getTokens_handlesReply_iff _ _ _ _ _ _ rfl

end FcgiJwtAuth
