import FcgiJwtAuth.CLang.Bytes
import FcgiJwtAuth.CLang.Exec

/-!
# What the program uses of picojson and jwt-cpp

Neither library is part of the repository. JSON values are a data type; the functions of the two
libraries are the fields of `Picojson` and `JwtCpp`, and what the program relies on is stated beside
them. Nothing is assumed of which tokens decode, which signatures verify, or which texts parse.
-/

namespace FcgiJwtAuth

open CLang

/-! ## JSON -/

/-- `picojson::value`. An object is a `std::map`, listed in key order. -/
inductive Json
  | null
  | bool (b : Bool)
  | int (n : ℤ)
  /-- A double, by its bits. -/
  | real (bits : UInt64)
  | string (s : Bytes)
  | array (elements : List Json)
  | object (members : List (Bytes × Json))

/-- `picojson::object`. -/
abbrev Object := List (Bytes × Json)

/-- `obj.find(key)`. -/
def Object.find (obj : Object) (key : Bytes) : Option Json := obj.lookup key

/-- `is<std::string>()`, with the string. -/
def Json.string? : Json → Option Bytes
  | .string s => some s
  | _ => none

/-- The parser and the serializer. Parsing throws nothing: a text that is not JSON is an answer. -/
structure Picojson where
  /-- `json_traits::parse(val, text)`: what it leaves in `val`, whole or not, and whether it
  succeeded. -/
  parse : Bytes → Json × Bool
  /-- `value.serialize()`. -/
  serialize : Json → Bytes

/-! ## Decoded tokens and verifiers -/

/-- `jwt::decoded_jwt`. -/
structure DecodedJwt where
  token : Bytes
  header : Object
  payload : Object

/-- `jwt::algorithm::rs256` and `es256`, with the public key they hold. -/
inductive Algorithm
  | rs256 (pubkey : Bytes)
  | es256 (pubkey : Bytes)
deriving DecidableEq

/-- `jwt::verifier`: the allowed algorithms and the leeway in seconds. -/
structure Verifier where
  algorithms : List Algorithm := []
  leeway : ℕ := 0
deriving DecidableEq

/-- `verifier.allow_algorithm(alg)`. -/
def Verifier.allowAlgorithm (v : Verifier) (alg : Algorithm) : Verifier :=
  { v with algorithms := alg :: v.algorithms }

/-- `verifier.leeway(seconds)`. -/
def Verifier.withLeeway (v : Verifier) (seconds : ℕ) : Verifier := { v with leeway := seconds }

/-! ## Claims -/

/-- Reading a claim: an absent one throws a subclass of `std::out_of_range`, one of another JSON
type throws `std::bad_cast`. -/
def ReadsClaim {α : Type} (value : Json → Except Exn α → Prop) (obj : Object) (key : Bytes)
    (r : Except Exn α) : Prop :=
  match obj.find key with
  | none => r = .error .outOfRange
  | some v => value v r

/-- A string claim. -/
def StringValue (v : Json) (r : Except Exn Bytes) : Prop :=
  match v with
  | .string s => r = .ok s
  | _ => r = .error .badCast

/-- A date claim: any number, read as seconds since the epoch. -/
def DateValue (v : Json) (r : Except Exn ℤ) : Prop :=
  match v with
  | .int n => r = .ok n
  | .real _ => ∃ n, r = .ok n
  | _ => r = .error .badCast

/-- The strings of an array of strings. -/
def strings : List Json → Option (List Bytes)
  | [] => some []
  | .string s :: rest => (strings rest).map (s :: ·)
  | _ :: _ => none

/-- The audience: one string, or an array of strings. -/
def AudienceValue (v : Json) (r : Except Exn (List Bytes)) : Prop :=
  match v with
  | .string s => r = .ok [s]
  | .array elements =>
    match strings elements with
    | some l => r = .ok l
    | none => r = .error .badCast
  | _ => r = .error .badCast

/-- jwt-cpp. -/
structure JwtCpp where
  /-- `jwt::decode`. -/
  decode : Bytes → Except Exn DecodedJwt
  decode_error : ∀ {s e}, decode s = .error e → e.isRuntimeError ∨ e.isInvalidArgument
  getType : DecodedJwt → Except Exn Bytes
  getType_reads : ∀ jwt, ReadsClaim StringValue jwt.header (bytes "typ") (getType jwt)
  getAlgorithm : DecodedJwt → Except Exn Bytes
  getAlgorithm_reads : ∀ jwt, ReadsClaim StringValue jwt.header (bytes "alg") (getAlgorithm jwt)
  getKeyId : DecodedJwt → Except Exn Bytes
  getKeyId_reads : ∀ jwt, ReadsClaim StringValue jwt.header (bytes "kid") (getKeyId jwt)
  getIssuer : DecodedJwt → Except Exn Bytes
  getIssuer_reads : ∀ jwt, ReadsClaim StringValue jwt.payload (bytes "iss") (getIssuer jwt)
  getAudience : DecodedJwt → Except Exn (List Bytes)
  getAudience_reads : ∀ jwt,
    ReadsClaim AudienceValue jwt.payload (bytes "aud") (getAudience jwt)
  getIssuedAt : DecodedJwt → Except Exn ℤ
  getIssuedAt_reads : ∀ jwt, ReadsClaim DateValue jwt.payload (bytes "iat") (getIssuedAt jwt)
  getExpiresAt : DecodedJwt → Except Exn ℤ
  getExpiresAt_reads : ∀ jwt, ReadsClaim DateValue jwt.payload (bytes "exp") (getExpiresAt jwt)
  /-- `verifier.verify(jwt)` with its clock at the given second. -/
  verify : Verifier → DecodedJwt → ℤ → Except Exn PUnit
  /-- `jwt::helper::create_public_key_from_rsa_components(n, e)`. -/
  createPublicKeyFromRsaComponents : Bytes → Bytes → Except Exn Bytes
  /-- `jwt::helper::create_public_key_from_ec_components(crv, x, y)`. -/
  createPublicKeyFromEcComponents : Bytes → Bytes → Bytes → Except Exn Bytes
  /-- The constructor of `jwt::algorithm::rs256`. -/
  rs256 : Bytes → Except Exn Algorithm
  /-- The constructor of `jwt::algorithm::es256`. -/
  es256 : Bytes → Except Exn Algorithm

/-! ## When a claim can be read -/

/-- The member is there and is a string. -/
def HasString (obj : Object) (key : Bytes) : Prop := ∃ s, obj.find key = some (.string s)

/-- The member is there and is a number. -/
def HasDate (obj : Object) (key : Bytes) : Prop :=
  (∃ n, obj.find key = some (.int n)) ∨ ∃ bits, obj.find key = some (.real bits)

/-- The member is absent, a string, or an array of strings. -/
def AudienceReadable (obj : Object) : Prop :=
  obj.find (bytes "aud") = none ∨ HasString obj (bytes "aud") ∨
    ∃ elements l, obj.find (bytes "aud") = some (.array elements) ∧ strings elements = some l

/-- The exceptions of a claim that cannot be read pass through both `catch` clauses. -/
def Escapes (e : Exn) : Prop := e = .outOfRange ∨ e = .badCast

/-- Reading a claim returns when `P` holds of it, and throws what escapes when it does not. -/
def Reads {α : Type} (P : Prop) (r : Except Exn α) : Prop :=
  (P ∧ ∃ a, r = .ok a) ∨ (¬ P ∧ ∃ e, r = .error e ∧ Escapes e)

theorem hasString_iff {obj : Object} {key : Bytes} {v : Json} (h : obj.find key = some v) :
    HasString obj key ↔ ∃ s, v = .string s := by
  simp only [HasString, h, Option.some.injEq]

theorem hasDate_iff {obj : Object} {key : Bytes} {v : Json} (h : obj.find key = some v) :
    HasDate obj key ↔ (∃ n, v = .int n) ∨ ∃ bits, v = .real bits := by
  simp only [HasDate, h, Option.some.injEq]

theorem audienceReadable_iff {obj : Object} {v : Json} (h : obj.find (bytes "aud") = some v) :
    AudienceReadable obj ↔
      (∃ s, v = .string s) ∨ ∃ elements l, v = .array elements ∧ strings elements = some l := by
  simp only [AudienceReadable, HasString, h, Option.some.injEq, reduceCtorEq, false_or]

theorem reads_string {obj : Object} {key : Bytes} {r : Except Exn Bytes}
    (h : ReadsClaim StringValue obj key r) : Reads (HasString obj key) r := by
  unfold ReadsClaim at h
  cases hfind : obj.find key with
  | none =>
    rw [hfind] at h
    exact Or.inr ⟨by simp [HasString, hfind], _, h, Or.inl rfl⟩
  | some v =>
    rw [hfind] at h
    rw [Reads, hasString_iff hfind]
    cases v with
    | string s => exact Or.inl ⟨⟨s, rfl⟩, s, h⟩
    | _ => exact Or.inr ⟨by simp, _, h, Or.inr rfl⟩

theorem reads_date {obj : Object} {key : Bytes} {r : Except Exn ℤ}
    (h : ReadsClaim DateValue obj key r) : Reads (HasDate obj key) r := by
  unfold ReadsClaim at h
  cases hfind : obj.find key with
  | none =>
    rw [hfind] at h
    exact Or.inr ⟨by simp [HasDate, hfind], _, h, Or.inl rfl⟩
  | some v =>
    rw [hfind] at h
    rw [Reads, hasDate_iff hfind]
    cases v with
    | int n => exact Or.inl ⟨Or.inl ⟨n, rfl⟩, n, h⟩
    | real bits =>
      obtain ⟨n, hn⟩ := h
      exact Or.inl ⟨Or.inr ⟨bits, rfl⟩, n, hn⟩
    | _ => exact Or.inr ⟨by simp, _, h, Or.inr rfl⟩

/-- The audience of a payload that has one. -/
theorem reads_audience {obj : Object} {r : Except Exn (List Bytes)} {v : Json}
    (hv : obj.find (bytes "aud") = some v)
    (h : ReadsClaim AudienceValue obj (bytes "aud") r) : Reads (AudienceReadable obj) r := by
  unfold ReadsClaim at h
  rw [hv] at h
  rw [Reads, audienceReadable_iff hv]
  cases v with
  | string s => exact Or.inl ⟨Or.inl ⟨s, rfl⟩, _, h⟩
  | array elements =>
    unfold AudienceValue at h
    cases hl : strings elements with
    | some l =>
      simp only [hl] at h
      exact Or.inl ⟨Or.inr ⟨elements, l, rfl, hl⟩, _, h⟩
    | none =>
      simp only [hl] at h
      exact Or.inr ⟨by simp [hl], _, h, Or.inr rfl⟩
  | _ => exact Or.inr ⟨by simp, _, h, Or.inr rfl⟩

/-! ## Libraries that know a few inputs -/

/-- A claim reader with the laws above. -/
def readClaim {α : Type} (value : Json → Except Exn α) (obj : Object) (key : Bytes) :
    Except Exn α :=
  match obj.find key with
  | none => .error .outOfRange
  | some v => value v

theorem readsClaim_readClaim {α : Type} {value : Json → Except Exn α}
    {law : Json → Except Exn α → Prop} (h : ∀ v, law v (value v)) (obj : Object) (key : Bytes) :
    ReadsClaim law obj key (readClaim value obj key) := by
  unfold ReadsClaim readClaim
  cases obj.find key with
  | none => rfl
  | some v => exact h v

def stringValue : Json → Except Exn Bytes
  | .string s => .ok s
  | _ => .error .badCast

def dateValue : Json → Except Exn ℤ
  | .int n => .ok n
  | .real _ => .ok 0
  | _ => .error .badCast

def audienceValue : Json → Except Exn (List Bytes)
  | .string s => .ok [s]
  | .array elements =>
    match strings elements with
    | some l => .ok l
    | none => .error .badCast
  | _ => .error .badCast

theorem stringValue_law (v : Json) : StringValue v (stringValue v) := by cases v <;> rfl

theorem dateValue_law (v : Json) : DateValue v (dateValue v) := by
  cases v with
  | real bits => exact ⟨0, rfl⟩
  | _ => rfl

theorem audienceValue_law (v : Json) : AudienceValue v (audienceValue v) := by
  cases v with
  | array elements =>
    unfold AudienceValue audienceValue
    cases hl : strings elements <;> simp [hl]
  | _ => rfl

/-- A parser for the texts of a table, which leaves a null in `val` for any other. -/
def Picojson.ofTable (texts : List (Bytes × Json)) : Picojson where
  parse text :=
    match texts.lookup text with
    | some v => (v, true)
    | none => (.null, false)
  serialize _ := []

/-- A key document without keys. -/
def emptyKeysBody : Bytes := bytes "\x7b\"keys\":[]\x7d"

/-- A parser that knows it. -/
def emptyKeysParser : Picojson :=
  .ofTable [(emptyKeysBody, .object [(bytes "keys", .array [])])]

/-- A decoder for the tokens of a table, and a choice of the tokens that verify. A public key is
named by its components. -/
def JwtCpp.ofTable (tokens : List (Bytes × DecodedJwt)) (accepts : Verifier → DecodedJwt → Bool) :
    JwtCpp where
  decode jwtStr :=
    match tokens.lookup jwtStr with
    | some jwt => .ok jwt
    | none => .error .invalidArgument
  decode_error := by
    intro s e h
    cases hs : tokens.lookup s with
    | some jwt => simp [hs] at h
    | none =>
      simp only [hs, Except.error.injEq] at h
      exact h ▸ Or.inr rfl
  getType jwt := readClaim stringValue jwt.header (bytes "typ")
  getType_reads _ := readsClaim_readClaim stringValue_law _ _
  getAlgorithm jwt := readClaim stringValue jwt.header (bytes "alg")
  getAlgorithm_reads _ := readsClaim_readClaim stringValue_law _ _
  getKeyId jwt := readClaim stringValue jwt.header (bytes "kid")
  getKeyId_reads _ := readsClaim_readClaim stringValue_law _ _
  getIssuer jwt := readClaim stringValue jwt.payload (bytes "iss")
  getIssuer_reads _ := readsClaim_readClaim stringValue_law _ _
  getAudience jwt := readClaim audienceValue jwt.payload (bytes "aud")
  getAudience_reads _ := readsClaim_readClaim audienceValue_law _ _
  getIssuedAt jwt := readClaim dateValue jwt.payload (bytes "iat")
  getIssuedAt_reads _ := readsClaim_readClaim dateValue_law _ _
  getExpiresAt jwt := readClaim dateValue jwt.payload (bytes "exp")
  getExpiresAt_reads _ := readsClaim_readClaim dateValue_law _ _
  verify verifier jwt _ := if accepts verifier jwt then .ok ⟨⟩ else .error .systemError
  createPublicKeyFromRsaComponents n e := .ok (n ++ e)
  createPublicKeyFromEcComponents crv x y := .ok (crv ++ x ++ y)
  rs256 pubkey := .ok (.rs256 pubkey)
  es256 pubkey := .ok (.es256 pubkey)

end FcgiJwtAuth
