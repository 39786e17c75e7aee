import FcgiJwtAuth.CLang.Bytes
import Mathlib.Data.List.Forall2

/-!
# Percent coding

A coded text spells each byte of a text as itself or as `%` and two hexadecimal digits
(`PercentCoded`). A coded text spells one text at most, and it spells one exactly when each of its
`%` has two hexadecimal digits behind it (`WellEscaped`).
-/

namespace CLang

/-- The value of a hexadecimal digit of either case. -/
def hexDigitValue (b : Byte) : Option ℕ :=
  if ch '0' ≤ b ∧ b ≤ ch '9' then some (b.toNat - (ch '0').toNat)
  else if ch 'a' ≤ b ∧ b ≤ ch 'f' then some (b.toNat - (ch 'a').toNat + 10)
  else if ch 'A' ≤ b ∧ b ≤ ch 'F' then some (b.toNat - (ch 'A').toNat + 10)
  else none

/-- The upper-case hexadecimal digit of a number below sixteen. -/
def upperHexDigit (n : ℕ) : Byte :=
  if n < 10 then UInt8.ofNat ((ch '0').toNat + n) else UInt8.ofNat ((ch 'A').toNat + n - 10)

theorem hexDigitValue_upperHexDigit {n : ℕ} (h : n < 16) :
    hexDigitValue (upperHexDigit n) = some n := by
  have hall : ∀ n : Fin 16, hexDigitValue (upperHexDigit n) = some n.val := by decide
  exact hall ⟨n, h⟩

theorem hexDigitValue_lt {b : Byte} {n : ℕ} (h : hexDigitValue b = some n) : n < 16 := by
  have hall : ∀ m : Fin 256, ∀ n ∈ hexDigitValue (UInt8.ofNat m), n < 16 := by decide +kernel
  have hb := hall ⟨b.toNat, b.toNat_lt⟩ n
  rw [UInt8.ofNat_toNat] at hb
  exact hb h

theorem hexDigitValue_percent : hexDigitValue (ch '%') = none := by decide

/-- The byte that two hexadecimal digits spell. -/
def escapedByte (hi lo : ℕ) : Byte := UInt8.ofNat (16 * hi + lo)

theorem escapedByte_div_mod (b : Byte) : escapedByte (b.toNat / 16) (b.toNat % 16) = b := by
  rw [escapedByte, Nat.div_add_mod]
  exact UInt8.ofNat_toNat

/-- `coded` spells `text`, each byte as itself or as an escape; a `%` is always escaped. -/
inductive PercentCoded : Bytes → Bytes → Prop
  | nil : PercentCoded [] []
  | plain {b : Byte} {coded text : Bytes} : b ≠ ch '%' → PercentCoded coded text →
    PercentCoded (b :: coded) (b :: text)
  | escape {hi lo : Byte} {h l : ℕ} {coded text : Bytes} : hexDigitValue hi = some h →
    hexDigitValue lo = some l → PercentCoded coded text →
    PercentCoded (ch '%' :: hi :: lo :: coded) (escapedByte h l :: text)

/-- Each `%` has two hexadecimal digits behind it. -/
def WellEscaped (coded : Bytes) : Prop :=
  ∀ before behind, coded = before ++ ch '%' :: behind →
    ∃ hi lo rest, behind = hi :: lo :: rest ∧ (hexDigitValue hi).isSome ∧ (hexDigitValue lo).isSome

namespace PercentCoded

/-- The text is not longer than its spelling. -/
theorem length_le {coded text : Bytes} (h : PercentCoded coded text) :
    text.length ≤ coded.length := by
  induction h with
  | nil => exact le_rfl
  | plain _ _ ih => simpa using ih
  | escape _ _ _ ih =>
    simp only [List.length_cons]
    omega

theorem eq_nil_iff {coded text : Bytes} (h : PercentCoded coded text) :
    text = [] ↔ coded = [] := by
  cases h <;> simp

end PercentCoded

/-! ## Which texts are spellings -/

theorem wellEscaped_nil : WellEscaped [] := by
  intro before behind h
  simp at h

/-- A byte in front that is not a `%` changes nothing. -/
theorem wellEscaped_cons_of_ne {b : Byte} (hb : b ≠ ch '%') (coded : Bytes) :
    WellEscaped (b :: coded) ↔ WellEscaped coded := by
  constructor
  · intro h before behind heq
    exact h (b :: before) behind (by rw [heq, List.cons_append])
  · intro h before behind heq
    cases before with
    | nil => exact absurd (List.cons.inj heq).1 hb
    | cons c before => exact h before behind (List.cons.inj heq).2

/-- Nor does an escape, since its digits are no `%`. -/
theorem wellEscaped_escape {hi lo : Byte} {coded : Bytes} (hhi : (hexDigitValue hi).isSome)
    (hlo : (hexDigitValue lo).isSome) :
    WellEscaped (ch '%' :: hi :: lo :: coded) ↔ WellEscaped coded := by
  have hne : ∀ {b : Byte}, (hexDigitValue b).isSome → b ≠ ch '%' := by
    rintro b hb rfl
    rw [hexDigitValue_percent] at hb
    cases hb
  have hskip : WellEscaped (hi :: lo :: coded) ↔ WellEscaped coded :=
    (wellEscaped_cons_of_ne (hne hhi) _).trans (wellEscaped_cons_of_ne (hne hlo) _)
  refine Iff.trans ?_ hskip
  constructor
  · intro h before behind heq
    exact h (ch '%' :: before) behind (by rw [heq, List.cons_append])
  · intro h before behind heq
    cases before with
    | nil =>
      obtain rfl := (List.cons.inj heq).2
      exact ⟨hi, lo, coded, rfl, hhi, hlo⟩
    | cons c before => exact h before behind (List.cons.inj heq).2

/-- A `%` in front needs its two digits. -/
theorem WellEscaped.of_percent {behind : Bytes} (h : WellEscaped (ch '%' :: behind)) :
    ∃ hi lo rest, behind = hi :: lo :: rest ∧ (hexDigitValue hi).isSome ∧
      (hexDigitValue lo).isSome :=
  h [] behind rfl

theorem PercentCoded.wellEscaped {coded text : Bytes} (h : PercentCoded coded text) :
    WellEscaped coded := by
  induction h with
  | nil => exact wellEscaped_nil
  | plain hb _ ih => exact (wellEscaped_cons_of_ne hb _).mpr ih
  | escape hhi hlo _ ih =>
    exact (wellEscaped_escape (by rw [hhi]; rfl) (by rw [hlo]; rfl)).mpr ih

/-- **A coded text spells a text** exactly when it is well escaped. -/
theorem exists_percentCoded_iff (coded : Bytes) :
    (∃ text, PercentCoded coded text) ↔ WellEscaped coded := by
  constructor
  · rintro ⟨text, h⟩
    exact h.wellEscaped
  · intro h
    induction hn : coded.length using Nat.strong_induction_on generalizing coded with
    | _ n ih =>
      cases coded with
      | nil => exact ⟨[], .nil⟩
      | cons b rest =>
        by_cases hb : b = ch '%'
        · subst hb
          obtain ⟨hi, lo, rest, rfl, hhi, hlo⟩ := h.of_percent
          obtain ⟨h', hh'⟩ := Option.isSome_iff_exists.mp hhi
          obtain ⟨l', hl'⟩ := Option.isSome_iff_exists.mp hlo
          have hlt : rest.length < n := by
            simp only [List.length_cons] at hn
            omega
          obtain ⟨text, htext⟩ := ih _ hlt rest ((wellEscaped_escape hhi hlo).mp h) rfl
          exact ⟨_, .escape hh' hl' htext⟩
        · have hlt : rest.length < n := by
            simp only [List.length_cons] at hn
            omega
          obtain ⟨text, htext⟩ := ih _ hlt rest ((wellEscaped_cons_of_ne hb rest).mp h) rfl
          exact ⟨_, .plain hb htext⟩

/-- A list of coded texts spells a list of texts exactly when all of them are well escaped. -/
theorem exists_forall₂_percentCoded_iff (codeds : List Bytes) :
    (∃ texts, List.Forall₂ PercentCoded codeds texts) ↔ ∀ coded ∈ codeds, WellEscaped coded := by
  induction codeds with
  | nil => simp
  | cons coded codeds ih =>
    rw [List.forall_mem_cons, ← ih, ← exists_percentCoded_iff]
    constructor
    · rintro ⟨texts, h⟩
      cases h with
      | cons hhead htail => exact ⟨⟨_, hhead⟩, ⟨_, htail⟩⟩
    · rintro ⟨⟨text, hhead⟩, ⟨texts, htail⟩⟩
      exact ⟨_, .cons hhead htail⟩

/-! ## Spelling a text -/

/-- The escape of a byte. -/
def percentEscape (b : Byte) : Bytes :=
  [ch '%', upperHexDigit (b.toNat / 16), upperHexDigit (b.toNat % 16)]

/-- A text with the bytes of `reserved`, and every `%`, escaped. -/
def percentSpell (reserved : Byte → Bool) (text : Bytes) : Bytes :=
  text.flatMap fun b => if reserved b || b == ch '%' then percentEscape b else [b]

theorem percentCoded_percentSpell (reserved : Byte → Bool) (text : Bytes) :
    PercentCoded (percentSpell reserved text) text := by
  induction text with
  | nil => exact .nil
  | cons b text ih =>
    rw [percentSpell, List.flatMap_cons]
    by_cases hb : (reserved b || b == ch '%') = true
    · have hlt : b.toNat < 256 := b.toNat_lt
      have hhi := hexDigitValue_upperHexDigit (n := b.toNat / 16) (by omega)
      have hlo := hexDigitValue_upperHexDigit (n := b.toNat % 16) (by omega)
      have hcoded := PercentCoded.escape hhi hlo ih
      rw [escapedByte_div_mod] at hcoded
      rw [if_pos hb]
      exact hcoded
    · have hne : b ≠ ch '%' := by
        rintro rfl
        simp at hb
      rw [if_neg hb]
      exact .plain hne ih

/-- What is reserved does not stand in the spelling, unless it is a digit or the `%` itself. -/
theorem not_mem_percentSpell {reserved : Byte → Bool} {b : Byte} (hb : reserved b = true)
    (hpct : b ≠ ch '%') (hdigit : hexDigitValue b = none) (text : Bytes) :
    b ∉ percentSpell reserved text := by
  intro hmem
  obtain ⟨c, -, hc⟩ := List.mem_flatMap.mp hmem
  have hnot : ∀ n : ℕ, n < 16 → b ≠ upperHexDigit n := by
    rintro n hn rfl
    rw [hexDigitValue_upperHexDigit hn] at hdigit
    cases hdigit
  have hlt : c.toNat < 256 := c.toNat_lt
  by_cases hres : (reserved c || c == ch '%') = true
  · rw [if_pos hres] at hc
    rcases List.mem_cons.mp hc with rfl | hc
    · exact hpct rfl
    rcases List.mem_cons.mp hc with hc | hc
    · exact hnot _ (by omega) hc
    · exact hnot _ (by omega) (List.mem_singleton.mp hc)
  · rw [if_neg hres] at hc
    obtain rfl := List.mem_singleton.mp hc
    simp [hb] at hres

end CLang
