import FcgiJwtAuth.Sha.Minisha256

/-!
# The state string of `openidconnect.c`

`openidconnect_create_verifyable_string` appends a dot and the first sixteen hexadecimal digits of
SHA-256 over the secret and the salt; `openidconnect_verify_string` looks for the last dot and
compares sixteen characters after it. The two agree, except that the verifier does not look at what
stands behind the sixteenth digit.

A `dynstring` appends bytes exactly, so no call here takes its failure path.
-/

namespace FcgiJwtAuth

open CLang Sha

/-- `hash[16] = '\0'`: what is kept of the digest of `secret ++ salt`. -/
def signature (secret : CStr) (salt : Bytes) : Bytes := (sha256Buf (secret.val ++ salt)).take 16

theorem length_signature (secret : CStr) (salt : Bytes) : (signature secret salt).length = 16 := by
  rw [signature, List.length_take, length_sha256Buf]
  rfl

theorem noNul_signature (secret : CStr) (salt : Bytes) : (0 : Byte) ∉ signature secret salt :=
  fun h => noNul_sha256Buf _ (List.mem_of_mem_take h)

theorem noDot_signature (secret : CStr) (salt : Bytes) : ch '.' ∉ signature secret salt :=
  fun h => noDot_sha256Buf _ (List.mem_of_mem_take h)

/-- `openidconnect_create_verifyable_string`: what it leaves in `*output`. -/
def openidconnectCreateVerifyableString (secret salt : CStr) : CStr where
  val := salt.val ++ ch '.' :: signature secret salt.val
  noNul := by
    have hdot : (0 : Byte) ≠ ch '.' := by decide
    simp [salt.noNul, noNul_signature, hdot]

@[simp] theorem openidconnectCreateVerifyableString_val (secret salt : CStr) :
    (openidconnectCreateVerifyableString secret salt).val =
      salt.val ++ ch '.' :: signature secret salt.val := rfl

/-- `openidconnect_verify_string`. -/
def openidconnectVerifyString (secret input : CStr) : ℤ :=
  match strrchr input.val (ch '.') with
  | none => -1
  | some len =>
    let hash := sha256Buf (secret.val ++ input.val.take len)
    let orighash := input.val.drop (len + 1)
    if strncmp 16 orighash hash = 0 then 0 else -1

/-! ## What the verifier accepts -/

/-- The bounded comparison asks whether the text after the dot starts with the signature. -/
theorem strncmp_sha256Buf (secret : CStr) (salt : Bytes) {sig : Bytes} (h : (0 : Byte) ∉ sig) :
    strncmp 16 sig (sha256Buf (secret.val ++ salt)) = 0 ↔ signature secret salt <+: sig := by
  rw [strncmp_take, ← strncmp_eq_zero_iff h (noNul_signature secret salt), length_signature]
  rfl

/-- **What is accepted**: the text after the last dot starts with the signature of what stands
before it. -/
theorem openidconnectVerifyString_split (secret input : CStr) {salt sig : Bytes}
    (hs : input.val = salt ++ ch '.' :: sig) (hsig : ch '.' ∉ sig) :
    openidconnectVerifyString secret input = 0 ↔ signature secret salt <+: sig := by
  have h0 : (0 : Byte) ∉ sig := by
    have := input.noNul
    rw [hs] at this
    simp only [List.mem_append, List.mem_cons, not_or] at this
    exact this.2.2
  have hlen : strrchr input.val (ch '.') = some salt.length := by
    rw [hs, strrchr_append salt hsig]
  have htake : input.val.take salt.length = salt := by rw [hs, List.take_left]
  have hdrop : input.val.drop (salt.length + 1) = sig := by
    rw [hs, ← List.drop_drop, List.drop_left, List.drop_one, List.tail_cons]
  rw [← strncmp_sha256Buf secret salt h0]
  simp only [openidconnectVerifyString, hlen, htake, hdrop]
  split
  · rename_i hcmp
    simp only [hcmp]
  · rename_i hcmp
    simp [hcmp]

/-- Without a dot nothing is accepted. -/
theorem openidconnectVerifyString_noDot (secret input : CStr) (h : ch '.' ∉ input.val) :
    openidconnectVerifyString secret input = -1 := by
  simp only [openidconnectVerifyString, strrchr_none h]

/-- What was issued is accepted. -/
theorem openidconnectVerifyString_create (secret salt : CStr) :
    openidconnectVerifyString secret (openidconnectCreateVerifyableString secret salt) = 0 := by
  apply (openidconnectVerifyString_split secret _ rfl (noDot_signature _ _)).mpr
  exact List.prefix_refl _

/-! ## Issued and accepted -/

/-- The verifier accepts the string exactly when some salt was issued as it. -/
def AcceptsIssued (secret input : CStr) : Prop :=
  openidconnectVerifyString secret input = 0 ↔
    ∃ salt : CStr, input = openidconnectCreateVerifyableString secret salt

/-- Something without a dot follows a correct signature. -/
def HasTrailer (secret input : CStr) : Prop :=
  ∃ salt tail : Bytes, input.val = salt ++ ch '.' :: (signature secret salt ++ tail) ∧
    tail ≠ [] ∧ ch '.' ∉ tail

/-- The part of an accepted string before its last dot is a salt it was issued for, if nothing
follows the signature. -/
theorem issued_of_split {secret input : CStr} {salt : Bytes}
    (hs : input.val = salt ++ ch '.' :: signature secret salt) :
    ∃ salt : CStr, input = openidconnectCreateVerifyableString secret salt := by
  have hsalt : (0 : Byte) ∉ salt := by
    intro h
    exact input.noNul (hs ▸ List.mem_append_left _ h)
  exact ⟨⟨salt, hsalt⟩, CStr.ext hs⟩

/-- A string with a trailer was not issued: its signature part is too long. -/
theorem not_issued_of_hasTrailer {secret input : CStr} (h : HasTrailer secret input) (salt : CStr) :
    input ≠ openidconnectCreateVerifyableString secret salt := by
  obtain ⟨salt', tail, hs, hne, hdot⟩ := h
  intro hissued
  have hsplit : salt.val ++ ch '.' :: signature secret salt.val =
      salt' ++ ch '.' :: (signature secret salt' ++ tail) := by
    rw [← hs, hissued, openidconnectCreateVerifyableString]
  have htail : ch '.' ∉ signature secret salt' ++ tail := by
    simp [noDot_signature, hdot]
  have hsig := (last_split_unique (noDot_signature _ _) htail hsplit).2
  have hlen := congrArg List.length hsig
  rw [List.length_append, length_signature, length_signature] at hlen
  have := List.length_pos_of_ne_nil hne
  omega

/-- **Exactly what was issued is accepted, unless something follows the signature.** -/
theorem openidconnectVerifyString_issued_iff (secret input : CStr) :
    AcceptsIssued secret input ↔ ¬ HasTrailer secret input := by
  constructor
  · rintro hiff htrail
    obtain ⟨salt, tail, hs, hne, hdot⟩ := htrail
    have hsig : ch '.' ∉ signature secret salt ++ tail := by simp [noDot_signature, hdot]
    have hacc : openidconnectVerifyString secret input = 0 := by
      rw [openidconnectVerifyString_split secret input hs hsig]
      exact List.prefix_append _ _
    obtain ⟨issued, hissued⟩ := hiff.mp hacc
    exact not_issued_of_hasTrailer ⟨salt, tail, hs, hne, hdot⟩ issued hissued
  · intro hno
    constructor
    · intro hacc
      by_cases hdot : ch '.' ∈ input.val
      · obtain ⟨salt, sig, hs, hsig⟩ := exists_last_split hdot
        obtain ⟨tail, rfl⟩ := (openidconnectVerifyString_split secret input hs hsig).mp hacc
        -- an empty tail is the issued string, any other is a trailer
        by_cases hne : tail = []
        · subst hne
          rw [List.append_nil] at hs
          exact issued_of_split hs
        · have htail : ch '.' ∉ tail := fun h => hsig (List.mem_append_right _ h)
          exact absurd ⟨salt, tail, hs, hne, htail⟩ hno
      · rw [openidconnectVerifyString_noDot secret input hdot] at hacc
        exact absurd hacc (by decide)
    · rintro ⟨salt, rfl⟩
      exact openidconnectVerifyString_create secret salt

/-- One more digit behind the signature that secret `k` gives salt `a`. -/
theorem openidconnectVerifyString_trailing_digit :
    ¬ AcceptsIssued (CStr.lit "k") (CStr.lit "a.3ebb1c99b12b77460") := by
  have hsig : signature (CStr.lit "k") (bytes "a") = bytes "3ebb1c99b12b7746" := by decide +kernel
  have hs : (CStr.lit "a.3ebb1c99b12b77460").val =
      bytes "a" ++ ch '.' :: (signature (CStr.lit "k") (bytes "a") ++ bytes "0") := by
    rw [hsig]
    decide
  intro hiff
  have hacc : openidconnectVerifyString (CStr.lit "k") (CStr.lit "a.3ebb1c99b12b77460") = 0 := by
    rw [openidconnectVerifyString_split _ _ hs (by rw [hsig]; decide)]
    exact List.prefix_append _ _
  obtain ⟨salt, hissued⟩ := hiff.mp hacc
  exact not_issued_of_hasTrailer ⟨_, _, hs, by decide, by decide⟩ salt hissued

end FcgiJwtAuth
