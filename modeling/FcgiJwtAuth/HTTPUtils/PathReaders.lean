import FcgiJwtAuth.CLang.Numerals
import FcgiJwtAuth.HTTPUtils.Path

/-!
# Reading path elements (`consume_read`, `consume_read_ex`, `src/HTTPUtils.hpp`)

Both readers take the element at `idx` for a number with `std::from_chars` and refuse it when the
number is not the whole element. `consume_read_ex` reads into a local variable first; `consume_read`
lets `from_chars` write to `out`, and so leaves the number there when it refuses what stands behind.
-/

namespace FcgiJwtAuth.HTTPUtils

open CLang

/-- What a reader answers, and what it leaves in its reference arguments. -/
structure Reading (α : Type) where
  ok : Bool
  idx : ℕ
  out : α
deriving DecidableEq

/-- `consume_read_ex<T>` of an integral type. -/
def consumeReadEx (T : IntType) (p : ParsedPath) (idx : ℕ) (out : T.Value) : Reading T.Value :=
  if idx ≥ p.size then ⟨false, idx, out⟩
  else
    let segment := p.getIdx idx
    match fromChars T segment with
    | .invalidArgument | .resultOutOfRange _ => ⟨false, idx, out⟩
    | .stored ptr value =>
      if ptr ≠ segment.length then ⟨false, idx, out⟩ else ⟨true, idx + 1, value⟩

/-- `consume_read<T>` of an integral type: what `from_chars` stores is in `out` at once. -/
def consumeRead (T : IntType) (p : ParsedPath) (idx : ℕ) (out : T.Value) : Reading T.Value :=
  if idx ≥ p.size then ⟨false, idx, out⟩
  else
    let seg := p.getIdx idx
    match fromChars T seg with
    | .invalidArgument | .resultOutOfRange _ => ⟨false, idx, out⟩
    | .stored ptr value =>
      if ptr ≠ seg.length then ⟨false, idx, value⟩ else ⟨true, idx + 1, value⟩

/-- `consume_read<std::string>`. -/
def consumeReadString (p : ParsedPath) (idx : ℕ) (out : Bytes) : Reading Bytes :=
  if idx ≥ p.size then ⟨false, idx, out⟩ else ⟨true, idx + 1, p.getIdx idx⟩

/-! ## What reading an element is -/

/-- The element at `idx` is a numeral of `value`. -/
def HoldsNumeral (T : IntType) (p : ParsedPath) (idx : ℕ) (value : T.Value) : Prop :=
  idx < p.size ∧ IsNumeral T.signed (p.getIdx idx) value

/-- A reader that reads whole numerals only, and leaves everything alone elsewhere. -/
structure ReadsCleanly (T : IntType) (p : ParsedPath) (idx : ℕ) (out : T.Value)
    (reading : Reading T.Value) : Prop where
  ok_iff : reading.ok = true ↔ ∃ value, HoldsNumeral T p idx value
  failed : reading.ok = false → reading.idx = idx ∧ reading.out = out

/-- The two readers agree and fail without side effects. -/
structure ReadersAgree (T : IntType) (p : ParsedPath) (idx : ℕ) (out : T.Value) : Prop where
  same : consumeRead T p idx out = consumeReadEx T p idx out
  read : ReadsCleanly T p idx out (consumeRead T p idx out)
  readEx : ReadsCleanly T p idx out (consumeReadEx T p idx out)

/-- The element at `idx` starts with the numeral of a value of the type other than `out`, and goes
on behind it. -/
def LeavesPartialValue (T : IntType) (p : ParsedPath) (idx : ℕ) (out : T.Value) : Prop :=
  idx < p.size ∧ ∃ numeral rest, ∃ value : T.Value, p.getIdx idx = numeral ++ rest ∧ rest ≠ [] ∧
    IsNumeral T.signed numeral value ∧ EndsNumeral rest ∧ value ≠ out

/-! ## The ways a reading goes -/

theorem consumeReadEx_of_holds {T : IntType} {p : ParsedPath} {idx : ℕ} {value : T.Value}
    (h : HoldsNumeral T p idx value) (out : T.Value) :
    consumeReadEx T p idx out = ⟨true, idx + 1, value⟩ := by
  rw [consumeReadEx, if_neg (Nat.not_le.mpr h.1)]
  simp only [fromChars_whole_iff.mpr h.2]
  exact if_neg (not_not.mpr rfl)

theorem consumeRead_of_holds {T : IntType} {p : ParsedPath} {idx : ℕ} {value : T.Value}
    (h : HoldsNumeral T p idx value) (out : T.Value) :
    consumeRead T p idx out = ⟨true, idx + 1, value⟩ := by
  rw [consumeRead, if_neg (Nat.not_le.mpr h.1)]
  simp only [fromChars_whole_iff.mpr h.2]
  exact if_neg (not_not.mpr rfl)

/-- What is stored of an element that is no numeral ends before the element does. -/
theorem ptr_ne_length {T : IntType} {segment : Bytes} {ptr : ℕ} {value : T.Value}
    (h : fromChars T segment = .stored ptr value)
    (hnum : ¬ ∃ value : T.Value, IsNumeral T.signed segment value) : ptr ≠ segment.length := by
  rintro rfl
  exact hnum ⟨value, fromChars_whole_iff.mp h⟩

theorem not_isNumeral_of_not_holds {T : IntType} {p : ParsedPath} {idx : ℕ} (hidx : idx < p.size)
    (h : ¬ ∃ value, HoldsNumeral T p idx value) :
    ¬ ∃ value : T.Value, IsNumeral T.signed (p.getIdx idx) value := by
  rintro ⟨value, hvalue⟩
  exact h ⟨value, hidx, hvalue⟩

/-- With a local variable a failed reading leaves nothing behind. -/
theorem consumeReadEx_of_not_holds {T : IntType} {p : ParsedPath} {idx : ℕ}
    (h : ¬ ∃ value, HoldsNumeral T p idx value) (out : T.Value) :
    consumeReadEx T p idx out = ⟨false, idx, out⟩ := by
  unfold consumeReadEx
  by_cases hidx : idx ≥ p.size
  · exact if_pos hidx
  · rw [if_neg hidx]
    have hnum := not_isNumeral_of_not_holds (Nat.not_le.mp hidx) h
    cases hread : fromChars T (p.getIdx idx) with
    | invalidArgument => simp only [hread]
    | resultOutOfRange => simp only [hread]
    | stored ptr value =>
      simp only [hread]
      exact if_pos (ptr_ne_length hread hnum)

/-- Without one, it leaves the value of the numeral the element starts with, if there is one. -/
theorem consumeRead_of_not_holds {T : IntType} {p : ParsedPath} {idx : ℕ} {out : T.Value}
    (h : ¬ ∃ value, HoldsNumeral T p idx value) (hleft : ¬ LeavesPartialValue T p idx out) :
    consumeRead T p idx out = ⟨false, idx, out⟩ := by
  unfold consumeRead
  by_cases hidx : idx ≥ p.size
  · exact if_pos hidx
  · rw [if_neg hidx]
    have hlt := Nat.not_le.mp hidx
    have hnum := not_isNumeral_of_not_holds hlt h
    cases hread : fromChars T (p.getIdx idx) with
    | invalidArgument => simp only [hread]
    | resultOutOfRange => simp only [hread]
    | stored ptr value =>
      simp only [hread]
      have hptr := ptr_ne_length hread hnum
      obtain ⟨numeral, rest, hseg, rfl, hvalue, hends⟩ := fromChars_eq_stored_iff.mp hread
      have hrest : rest ≠ [] := by
        rintro rfl
        exact hptr (by rw [hseg, List.append_nil])
      have hout : value = out := by
        by_contra hne
        exact hleft ⟨hlt, numeral, rest, value, hseg, hrest, hvalue, hends, hne⟩
      rw [hout]
      exact if_pos hptr

theorem consumeRead_of_partial {T : IntType} {p : ParsedPath} {idx : ℕ} {out : T.Value}
    (h : LeavesPartialValue T p idx out) : ∃ value, value ≠ out ∧
      consumeRead T p idx out = ⟨false, idx, value⟩ := by
  obtain ⟨hidx, numeral, rest, value, hseg, hrest, hvalue, hends, hne⟩ := h
  refine ⟨value, hne, ?_⟩
  have hread : fromChars T (p.getIdx idx) = .stored numeral.length value :=
    fromChars_eq_stored_iff.mpr ⟨numeral, rest, hseg, rfl, hvalue, hends⟩
  have hptr : numeral.length ≠ (p.getIdx idx).length := by
    have hpos := List.length_pos_iff.mpr hrest
    rw [hseg, List.length_append]
    omega
  rw [consumeRead, if_neg (Nat.not_le.mpr hidx)]
  simp only [hread]
  exact if_pos hptr

/-! ## When the readers agree -/

/-- Reading into a local variable first is clean on every element. -/
theorem consumeReadEx_readsCleanly (T : IntType) (p : ParsedPath) (idx : ℕ) (out : T.Value) :
    ReadsCleanly T p idx out (consumeReadEx T p idx out) := by
  by_cases h : ∃ value, HoldsNumeral T p idx value
  · obtain ⟨value, hvalue⟩ := h
    rw [consumeReadEx_of_holds hvalue]
    exact ⟨iff_of_true rfl ⟨value, hvalue⟩, fun hfalse => Bool.noConfusion hfalse⟩
  · rw [consumeReadEx_of_not_holds h]
    exact ⟨iff_of_false Bool.false_ne_true h, fun _ => ⟨rfl, rfl⟩⟩

/-- **The readers agree** unless a value is left behind. -/
theorem readersAgree_iff (T : IntType) (p : ParsedPath) (idx : ℕ) (out : T.Value) :
    ReadersAgree T p idx out ↔ ¬ LeavesPartialValue T p idx out := by
  constructor
  · intro h hleft
    obtain ⟨value, hne, hread⟩ := consumeRead_of_partial hleft
    have hclean := h.read.failed
    rw [hread] at hclean
    exact hne (hclean rfl).2
  · intro hleft
    have hsame : consumeRead T p idx out = consumeReadEx T p idx out := by
      by_cases h : ∃ value, HoldsNumeral T p idx value
      · obtain ⟨value, hvalue⟩ := h
        rw [consumeRead_of_holds hvalue, consumeReadEx_of_holds hvalue]
      · rw [consumeRead_of_not_holds h hleft, consumeReadEx_of_not_holds h]
    have hread := consumeReadEx_readsCleanly T p idx out
    exact ⟨hsame, hsame ▸ hread, hread⟩

/-- The element `12x`, read for an `int` that is 7 before, leaves 12 behind. -/
theorem readers_disagree_on_junk :
    ¬ ReadersAgree .int ⟨bytes "12x", [⟨0, 3⟩]⟩ 0 ⟨7, by decide⟩ := by
  intro h
  have hsame : (consumeRead .int ⟨bytes "12x", [⟨0, 3⟩]⟩ 0 ⟨7, by decide⟩).out =
      (consumeReadEx .int ⟨bytes "12x", [⟨0, 3⟩]⟩ 0 ⟨7, by decide⟩).out := congrArg _ h.same
  revert hsame
  decide

end FcgiJwtAuth.HTTPUtils
