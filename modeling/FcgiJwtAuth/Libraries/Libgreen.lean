import FcgiJwtAuth.CLang.Bytes

/-!
# What the program uses of libgreen and of the site's own header

`libgreen` is a submodule and `appspecific.h` belongs to the site; neither is part of the
repository.
-/

namespace FcgiJwtAuth

open CLang

/-- The functions of `libgreen`, as what they append, format or look up. -/
structure Libgreen where
  /-- `dynstringhtml_url_encode_appendz`. -/
  urlEncode : CStr → Bytes
  /-- The decoding of one value of a query string. -/
  urlDecode : Bytes → CStr
  urlDecode_urlEncode : ∀ s, urlDecode (urlEncode s) = s
  /-- `dynstringhtml_htmlspecial_encode_appendz`. -/
  htmlspecialEncode : CStr → Bytes
  /-- `timefn_formattimefromunixtime_str`. -/
  formatTime : ℤ → Bytes
  formatTime_noDot : ∀ t, ch '.' ∉ formatTime t
  formatTime_noNul : ∀ t, (0 : Byte) ∉ formatTime t
  /-- `querystring_getbykey` on what `querystring_decode_inplace` made of a query string. -/
  queryGet : Option CStr → Bytes → Option CStr

/-- The constants of `appspecific.h`. -/
structure AppSpecific where
  oauth2DefaultClientId : CStr
  oauth2DefaultClientSecret : CStr
  oauth2DefaultRedirectUri : CStr
  welcomeToCompanyName : CStr
  applicationName : CStr
  privacyPolicyUrl : CStr
  applicationLogoLight : CStr
  applicationLogoDark : CStr

/-! ## A library that knows one query string -/

/-- An upper-case hexadecimal digit. -/
def upperHex (n : ℕ) : Byte := (bytes "0123456789ABCDEF").getD n 0

/-- The value of a digit. -/
def hexValue (b : Byte) : ℕ := (bytes "0123456789ABCDEF").idxOf b

/-- The characters that stand for themselves in a URL. -/
def isUnreserved (b : Byte) : Bool :=
  (ch 'A' ≤ b && b ≤ ch 'Z') || (ch 'a' ≤ b && b ≤ ch 'z') || (ch '0' ≤ b && b ≤ ch '9') ||
    b = ch '-' || b = ch '.' || b = ch '_' || b = ch '~'

/-- One character, escaped where it has to be. -/
def percentEncodeByte (b : Byte) : Bytes :=
  if isUnreserved b then [b] else [ch '%', upperHex (b.toNat / 16), upperHex (b.toNat % 16)]

def percentEncode (s : Bytes) : Bytes := s.flatMap percentEncodeByte

def percentDecode : Bytes → Bytes
  | [] => []
  | c :: rest =>
    if c = ch '%' then
      match rest with
      | h :: l :: rest => UInt8.ofNat (hexValue h * 16 + hexValue l) :: percentDecode rest
      | _ => c :: rest
    else c :: percentDecode rest

theorem percentDecode_cons_ne {c : Byte} (h : c ≠ ch '%') (rest : Bytes) :
    percentDecode (c :: rest) = c :: percentDecode rest := by
  match rest with
  | [] => simp [percentDecode, h]
  | [_] => simp [percentDecode, h]
  | _ :: _ :: _ => rw [percentDecode, if_neg h]

/-- Each character is read back from its encoding. -/
theorem percentDecode_append (b : Byte) (rest : Bytes) :
    percentDecode (percentEncodeByte b ++ rest) = b :: percentDecode rest := by
  have hescape : ∀ n : Fin 256, UInt8.ofNat (hexValue (upperHex (n / 16)) * 16 +
      hexValue (upperHex (n % 16))) = UInt8.ofNat n := by decide +kernel
  have hpercent : isUnreserved (ch '%') = false := by decide
  unfold percentEncodeByte
  by_cases hb : isUnreserved b = true
  · have hne : b ≠ ch '%' := by
      rintro rfl
      rw [hpercent] at hb
      cases hb
    rw [if_pos hb, List.singleton_append, percentDecode_cons_ne hne]
  · have hback := hescape ⟨b.toNat, b.toNat_lt⟩
    rw [UInt8.ofNat_toNat] at hback
    rw [if_neg hb]
    show percentDecode (ch '%' :: upperHex (b.toNat / 16) :: upperHex (b.toNat % 16) :: rest) = _
    rw [percentDecode, if_pos rfl, hback]

theorem percentDecode_percentEncode (s : Bytes) : percentDecode (percentEncode s) = s := by
  induction s with
  | nil => rfl
  | cons b s ih => rw [percentEncode, List.flatMap_cons, percentDecode_append, ← percentEncode, ih]

/-- A library for runs on fixed inputs: one time, and a query string looked up as a whole. -/
def Libgreen.ofQuery (query : Bytes → Option CStr) : Libgreen where
  urlEncode s := percentEncode s.val
  urlDecode b := CStr.ofBytes (percentDecode b)
  urlDecode_urlEncode s := by rw [percentDecode_percentEncode, CStr.ofBytes_of_val]
  htmlspecialEncode s := s.val
  formatTime _ := bytes "20261001T120000Z"
  formatTime_noDot _ := by decide
  formatTime_noNul _ := by decide
  queryGet _ := query

/-- The library where no query string is read. -/
def Libgreen.sample : Libgreen := .ofQuery fun _ => none

/-- The constants of some site. -/
def AppSpecific.sample : AppSpecific where
  oauth2DefaultClientId := CStr.lit "client"
  oauth2DefaultClientSecret := CStr.lit "k"
  oauth2DefaultRedirectUri := CStr.lit "https%3A%2F%2Fexample.com%2Fauth%2Fmicrosoft"
  welcomeToCompanyName := CStr.lit "Example"
  applicationName := CStr.lit "Portal"
  privacyPolicyUrl := CStr.lit "/privacy"
  applicationLogoLight := CStr.lit "res/light.svg"
  applicationLogoDark := CStr.lit "res/dark.svg"

end FcgiJwtAuth
