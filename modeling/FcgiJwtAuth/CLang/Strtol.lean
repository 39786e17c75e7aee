import FcgiJwtAuth.CLang.Numerals

/-!
# `strtol`

`strtol` in base 10: blanks, a sign, and the digits behind it. A value that no `long` has is
replaced by the one closest to it, with `errno` set to `ERANGE`. A `long` has 64 bits.
-/

namespace CLang

def longMin : ℤ := -2 ^ 63

def longMax : ℤ := 2 ^ 63 - 1

def intMax : ℤ := 2 ^ 31 - 1

/-- `isspace`. -/
def isspace (b : Byte) : Bool := b ∈ bytes " \t\n\r" || b = 11 || b = 12

/-- What `strtol` leaves: its value, the offset of `endp`, and whether `errno` is set. -/
structure Strtol where
  value : ℤ
  endp : ℕ
  errno : Bool

/-- The optional sign. -/
def signPrefix (text : Bytes) : Bytes :=
  if text.head? = some (ch '-') ∨ text.head? = some (ch '+') then text.take 1 else []

/-- `strtol(s, &endp, 10)` on the characters before the terminator. -/
def strtol (s : Bytes) : Strtol :=
  let text := s.dropWhile isspace
  let sign := signPrefix text
  match digitPrefix (text.drop sign.length) with
  | none => ⟨0, 0, false⟩
  | some digits =>
    let n : ℤ := if sign = [ch '-'] then -natValue digits else natValue digits
    let endp := (s.takeWhile isspace).length + sign.length + digits.length
    if n < longMin then ⟨longMin, endp, true⟩
    else if longMax < n then ⟨longMax, endp, true⟩
    else ⟨n, endp, false⟩

theorem isspace_of_isDigit {b : Byte} (h : isDigit b = true) : isspace b = false := by
  have hblanks : bytes " \t\n\r" = [32, 9, 10, 13] := rfl
  refine Bool.eq_false_iff.mpr fun hspace => ?_
  have hcases : b = 32 ∨ b = 9 ∨ b = 10 ∨ b = 13 ∨ b = 11 ∨ b = 12 := by
    simpa [isspace, hblanks, or_assoc] using hspace
  rcases hcases with rfl | rfl | rfl | rfl | rfl | rfl <;> exact absurd h (by decide)

/-- **A run of digits** is read up to its end. -/
theorem strtol_digits {digits rest : Bytes} (hne : digits ≠ [])
    (hdigits : ∀ b ∈ digits, isDigit b) (hrest : EndsNumeral rest) :
    strtol (digits ++ rest) =
      if longMax < natValue digits then ⟨longMax, digits.length, true⟩
      else ⟨natValue digits, digits.length, false⟩ := by
  have hprefix : digitPrefix (digits ++ rest) = some digits :=
    digitPrefix_eq_some_iff.mpr ⟨hne, hdigits, rest, rfl, hrest⟩
  obtain ⟨b, tail, rfl⟩ := List.exists_cons_of_ne_nil hne
  have hb := hdigits b List.mem_cons_self
  have hspace := isspace_of_isDigit hb
  have hsign : signPrefix (b :: (tail ++ rest)) = [] := by
    refine if_neg (not_or.mpr ⟨?_, ?_⟩)
    · rintro h
      rw [Option.some.inj h] at hb
      exact absurd hb (by decide)
    · rintro h
      rw [Option.some.inj h] at hb
      exact absurd hb (by decide)
  have hmin : ¬(natValue (b :: tail) : ℤ) < longMin := by
    unfold longMin
    omega
  have hnil : ([] : Bytes) ≠ [ch '-'] := (List.cons_ne_nil _ _).symm
  rw [List.cons_append] at hprefix ⊢
  unfold strtol
  simp only [List.dropWhile_cons, List.takeWhile_cons, hspace, Bool.false_eq_true, if_false, hsign,
    List.length_nil, List.drop_zero, hprefix, if_neg hnil, if_neg hmin, Nat.zero_add]

end CLang
