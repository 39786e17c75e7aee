import FcgiJwtAuth.CLang.Bytes
import Mathlib.Data.Nat.Digits.Defs
import Mathlib.Data.Nat.Digits.Lemmas

/-!
# Decimal numerals and `std::from_chars`

`IsNumeral` says which texts are decimal numerals, and of what. `renderInt` writes a number out, and
`fromChars` reads one, as `std::from_chars` does in base 10: the longest numeral at the start of the
text, if its value fits the type.
-/

namespace CLang

/-! ## Digits -/

def isDigit (b : Byte) : Bool := ch '0' ≤ b && b ≤ ch '9'

def digitValue (b : Byte) : ℕ := b.toNat - (ch '0').toNat

/-- The digit of a number below ten. -/
def digitOf (n : ℕ) : Byte := UInt8.ofNat ((ch '0').toNat + n)

/-- The value of a run of digits. -/
def natValue (digits : Bytes) : ℕ := digits.foldl (fun v b => v * 10 + digitValue b) 0

theorem digitOf_spec {n : ℕ} (h : n < 10) :
    isDigit (digitOf n) = true ∧ digitValue (digitOf n) = n := by
  have hall : ∀ n : Fin 10, isDigit (digitOf n) = true ∧ digitValue (digitOf n) = n := by decide
  exact hall ⟨n, h⟩

theorem not_isDigit_minus : isDigit (ch '-') = false := by decide

/-- The digits of a number, least significant first, and its value. -/
theorem natValue_reverse_digits {ds : List ℕ} (h : ∀ d ∈ ds, d < 10) :
    natValue (ds.reverse.map digitOf) = Nat.ofDigits 10 ds := by
  induction ds with
  | nil => rfl
  | cons d ds ih =>
    obtain ⟨hd, hds⟩ := List.forall_mem_cons.mp h
    have hrest := ih hds
    rw [natValue] at hrest ⊢
    rw [List.reverse_cons, List.map_append, List.foldl_append, hrest, Nat.ofDigits_cons]
    simp only [List.map_cons, List.map_nil, List.foldl_cons, List.foldl_nil, (digitOf_spec hd).2]
    omega

/-! ## Numerals -/

/-- Decimal numerals, and their values; a sign only where one is allowed. -/
inductive IsNumeral (signed : Bool) : Bytes → ℤ → Prop
  | nonneg {digits : Bytes} : digits ≠ [] → (∀ b ∈ digits, isDigit b) →
    IsNumeral signed digits (natValue digits)
  | neg {digits : Bytes} : signed = true → digits ≠ [] → (∀ b ∈ digits, isDigit b) →
    IsNumeral signed (ch '-' :: digits) (-(natValue digits : ℤ))

/-- Without a sign, all of the text is digits. -/
theorem isNumeral_unsigned_iff {text : Bytes} {n : ℤ} :
    IsNumeral false text n ↔ text ≠ [] ∧ (∀ b ∈ text, isDigit b) ∧ n = natValue text := by
  constructor
  · intro h
    cases h with
    | nonneg hne hdigits => exact ⟨hne, hdigits, rfl⟩
    | neg hsigned => cases hsigned
  · rintro ⟨hne, hdigits, rfl⟩
    exact .nonneg hne hdigits

/-- A natural number in decimal. -/
def renderNat (n : ℕ) : Bytes := if n = 0 then [ch '0'] else (Nat.digits 10 n).reverse.map digitOf

/-- An integer in decimal. -/
def renderInt (n : ℤ) : Bytes := if n < 0 then ch '-' :: renderNat n.natAbs else renderNat n.natAbs

theorem renderNat_spec (n : ℕ) :
    renderNat n ≠ [] ∧ (∀ b ∈ renderNat n, isDigit b) ∧ natValue (renderNat n) = n := by
  unfold renderNat
  by_cases hn : n = 0
  · subst hn
    exact ⟨List.cons_ne_nil _ _, List.forall_mem_singleton.mpr (by decide), by decide⟩
  · have hlt : ∀ d ∈ Nat.digits 10 n, d < 10 := fun d hd => Nat.digits_lt_base (by omega) hd
    rw [if_neg hn]
    refine ⟨?_, ?_, ?_⟩
    · simpa using Nat.digits_ne_nil_iff_ne_zero.mpr hn
    · intro b hb
      obtain ⟨d, hd, rfl⟩ := List.mem_map.mp hb
      exact (digitOf_spec (hlt d (List.mem_reverse.mp hd))).1
    · rw [natValue_reverse_digits hlt, Nat.ofDigits_digits]

/-- What is written is a numeral of the number. -/
theorem isNumeral_renderInt (n : ℤ) : IsNumeral true (renderInt n) n := by
  obtain ⟨hne, hdigits, hvalue⟩ := renderNat_spec n.natAbs
  unfold renderInt
  by_cases hneg : n < 0
  · have hnum : IsNumeral true _ _ := IsNumeral.neg rfl hne hdigits
    have hn : -(n.natAbs : ℤ) = n := by omega
    rw [hvalue, hn] at hnum
    rwa [if_pos hneg]
  · have hnum : IsNumeral true _ _ := IsNumeral.nonneg hne hdigits
    have hn : (n.natAbs : ℤ) = n := by omega
    rw [hvalue, hn] at hnum
    rwa [if_neg hneg]

/-! ## `std::from_chars` -/

/-- The integral types that texts are read as. -/
inductive IntType
  | int
  | long
  | unsignedInt
  | unsignedLong
  | longLong
deriving DecidableEq

namespace IntType

def signed : IntType → Bool
  | .int | .long | .longLong => true
  | .unsignedInt | .unsignedLong => false

/-- The widths where `long` has 64 bits. -/
def bits : IntType → ℕ
  | .int | .unsignedInt => 32
  | .long | .unsignedLong | .longLong => 64

/-- `std::numeric_limits<T>::min()`. -/
def min (T : IntType) : ℤ := if T.signed then -2 ^ (T.bits - 1) else 0

/-- `std::numeric_limits<T>::max()`. -/
def max (T : IntType) : ℤ := if T.signed then 2 ^ (T.bits - 1) - 1 else 2 ^ T.bits - 1

/-- The values of a type. -/
abbrev Value (T : IntType) := {n : ℤ // T.min ≤ n ∧ n ≤ T.max}

end IntType

/-- How `std::from_chars` ends. -/
inductive FromChars (T : IntType)
  /-- There is no numeral; nothing is stored. -/
  | invalidArgument
  /-- There is one, up to `ptr`, of no value of the type; nothing is stored. -/
  | resultOutOfRange (ptr : ℕ)
  /-- The value of the numeral up to `ptr` is stored. -/
  | stored (ptr : ℕ) (value : T.Value)

/-- The digits at the start of a text, if there are any. -/
def digitPrefix (text : Bytes) : Option Bytes :=
  if text.takeWhile isDigit = [] then none else some (text.takeWhile isDigit)

/-- The longest numeral at the start of a text, and its value. -/
def numeralPrefix (signed : Bool) (text : Bytes) : Option (Bytes × ℤ) :=
  if signed && text.head? = some (ch '-') then
    (digitPrefix text.tail).map fun digits => (ch '-' :: digits, -(natValue digits : ℤ))
  else (digitPrefix text).map fun digits => (digits, (natValue digits : ℤ))

/-- `std::from_chars(first, last, value)`. -/
def fromChars (T : IntType) (text : Bytes) : FromChars T :=
  match numeralPrefix T.signed text with
  | none => .invalidArgument
  | some (numeral, n) =>
    if h : T.min ≤ n ∧ n ≤ T.max then .stored numeral.length ⟨n, h⟩
    else .resultOutOfRange numeral.length

/-- A numeral is not longer than what stands at the start of the text. -/
def EndsNumeral (rest : Bytes) : Prop := rest.head?.all fun b => !isDigit b

theorem endsNumeral_dropWhile (text : Bytes) : EndsNumeral (text.dropWhile isDigit) := by
  have hhead := List.head?_dropWhile_not isDigit text
  unfold EndsNumeral
  cases hd : (text.dropWhile isDigit).head? with
  | none => rfl
  | some b => simpa [hd] using hhead

theorem digitPrefix_eq_some_iff {text digits : Bytes} :
    digitPrefix text = some digits ↔
      digits ≠ [] ∧ (∀ b ∈ digits, isDigit b) ∧
        ∃ rest, text = digits ++ rest ∧ EndsNumeral rest := by
  unfold digitPrefix
  constructor
  · intro h
    split at h
    · cases h
    · rename_i hne
      obtain rfl := Option.some.inj h
      exact ⟨hne, fun b hb => List.mem_takeWhile_imp hb, text.dropWhile isDigit,
        List.takeWhile_append_dropWhile.symm, endsNumeral_dropWhile text⟩
  · rintro ⟨hne, hdigits, rest, rfl, hrest⟩
    have htake : (digits ++ rest).takeWhile isDigit = digits := by
      rw [List.takeWhile_append_of_pos hdigits]
      cases rest with
      | nil => simp
      | cons b rest =>
        have hb : isDigit b = false := by simpa [EndsNumeral] using hrest
        simp [hb]
    rw [htake, if_neg hne]

/-- A run of digits does not start with a sign. -/
theorem head?_digits_ne_minus {digits rest : Bytes} (hne : digits ≠ [])
    (h : ∀ b ∈ digits, isDigit b) : (digits ++ rest).head? ≠ some (ch '-') := by
  obtain ⟨b, tail, rfl⟩ := List.exists_cons_of_ne_nil hne
  intro hhead
  obtain rfl := Option.some.inj hhead
  have hdigit := h (ch '-') List.mem_cons_self
  rw [not_isDigit_minus] at hdigit
  cases hdigit

/-- **The prefix found** is a numeral that nothing behind it makes longer. -/
theorem numeralPrefix_eq_some_iff {signed : Bool} {text numeral : Bytes} {n : ℤ} :
    numeralPrefix signed text = some (numeral, n) ↔
      IsNumeral signed numeral n ∧ ∃ rest, text = numeral ++ rest ∧ EndsNumeral rest := by
  unfold numeralPrefix
  constructor
  · intro h
    split at h
    · rename_i hminus
      obtain ⟨hsigned, hhead⟩ := Bool.and_eq_true_iff.mp hminus
      obtain ⟨tail, rfl⟩ := List.head?_eq_some_iff.mp (of_decide_eq_true hhead)
      obtain ⟨digits, hprefix, heq⟩ := Option.map_eq_some_iff.mp h
      obtain ⟨rfl, rfl⟩ := Prod.mk.inj heq
      obtain ⟨hne, hdigits, rest, rfl, hrest⟩ := digitPrefix_eq_some_iff.mp hprefix
      exact ⟨.neg hsigned hne hdigits, rest, rfl, hrest⟩
    · obtain ⟨digits, hprefix, heq⟩ := Option.map_eq_some_iff.mp h
      obtain ⟨rfl, rfl⟩ := Prod.mk.inj heq
      obtain ⟨hne, hdigits, rest, htext, hrest⟩ := digitPrefix_eq_some_iff.mp hprefix
      exact ⟨.nonneg hne hdigits, rest, htext, hrest⟩
  · rintro ⟨hnum, rest, rfl, hrest⟩
    cases hnum with
    | nonneg hne hdigits =>
      have hplain : ¬ (signed && decide ((numeral ++ rest).head? = some (ch '-'))) = true := by
        intro hminus
        exact head?_digits_ne_minus hne hdigits
          (of_decide_eq_true (Bool.and_eq_true_iff.mp hminus).2)
      rw [if_neg hplain, digitPrefix_eq_some_iff.mpr ⟨hne, hdigits, rest, rfl, hrest⟩]
      rfl
    | neg hsigned hne hdigits =>
      rename_i digits
      have hprefix : digitPrefix (digits ++ rest) = some digits :=
        digitPrefix_eq_some_iff.mpr ⟨hne, hdigits, rest, rfl, hrest⟩
      rw [if_pos (by simp [hsigned]), List.cons_append, List.tail_cons, hprefix]
      rfl

/-- A text that is a numeral is its own longest prefix. -/
theorem IsNumeral.ne_nil {signed : Bool} {text : Bytes} {n : ℤ} (h : IsNumeral signed text n) :
    text ≠ [] := by
  cases h with
  | nonneg hne _ => exact hne
  | neg => exact List.cons_ne_nil _ _

/-- **What is stored** is the value of the longest numeral at the start of the text, whatever
stands behind it. -/
theorem fromChars_eq_stored_iff {T : IntType} {text : Bytes} {ptr : ℕ} {value : T.Value} :
    fromChars T text = .stored ptr value ↔
      ∃ numeral rest, text = numeral ++ rest ∧ numeral.length = ptr ∧
        IsNumeral T.signed numeral value ∧ EndsNumeral rest := by
  unfold fromChars
  constructor
  · intro h
    cases hp : numeralPrefix T.signed text with
    | none => simp [hp] at h
    | some p =>
      obtain ⟨numeral, n⟩ := p
      obtain ⟨hnum, rest, htext, hrest⟩ := numeralPrefix_eq_some_iff.mp hp
      simp only [hp] at h
      by_cases hfits : T.min ≤ n ∧ n ≤ T.max
      · rw [dif_pos hfits] at h
        cases h
        exact ⟨numeral, rest, htext, rfl, hnum, hrest⟩
      · rw [dif_neg hfits] at h
        cases h
  · rintro ⟨numeral, rest, htext, rfl, hnum, hrest⟩
    rw [numeralPrefix_eq_some_iff.mpr ⟨hnum, rest, htext, hrest⟩]
    exact dif_pos value.2

/-- The whole text is read exactly when it is a numeral of a value of the type. -/
theorem fromChars_whole_iff {T : IntType} {text : Bytes} {value : T.Value} :
    fromChars T text = .stored text.length value ↔ IsNumeral T.signed text value := by
  rw [fromChars_eq_stored_iff]
  constructor
  · rintro ⟨numeral, rest, htext, hlen, hnum, -⟩
    have hrest : rest.length = 0 := by
      rw [htext, List.length_append] at hlen
      omega
    rw [List.length_eq_zero_iff.mp hrest, List.append_nil] at htext
    rwa [htext]
  · intro hnum
    exact ⟨text, [], (List.append_nil text).symm, rfl, hnum, rfl⟩

end CLang
