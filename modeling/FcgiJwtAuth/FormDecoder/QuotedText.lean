import FcgiJwtAuth.FormDecoder.ContentDisposition

/-!
# Quoted text

What `qsp_append_to_dynstring` reads of a bare text and of a quoted one. The scanner looks at a
quote before it looks at its state, so that a quote behind a backslash is neither the end of the
text nor a part of it.
-/

namespace FcgiJwtAuth.FormDecoder

open CLang

/-- A backslash in front of each quote and each backslash. -/
def escape (s : Bytes) : Bytes :=
  s.flatMap fun c => if c = ch '"' ∨ c = ch '\\' then [ch '\\', c] else [c]

/-- A text between quotes. -/
def quoted (s : Bytes) : Bytes := ch '"' :: (escape s ++ [ch '"'])

/-- A delimiter stands in front, or there is nothing left. -/
def Ends (delim rest : Bytes) : Prop := ∀ c r, rest = c :: r → c ∈ delim ∨ c = 0

/-- The quoted text is read back, and all of it is consumed. -/
def DecodesQuoted (delim s rest : Bytes) : Prop :=
  qspAppendToDynstring (quoted s ++ rest) delim = (s, (quoted s).length)

section Scanner

variable {delim s rest : Bytes}

theorem qspLoop_ends (hdelim : ch '"' ∉ delim) (h : Ends delim rest) :
    qspLoop delim .outsideQuotes rest = ([], 0) := by
  cases rest with
  | nil => rfl
  | cons c r =>
    have hc := h c r rfl
    have hquote : c ≠ ch '"' := by
      rintro rfl
      exact hc.elim hdelim (by decide)
    rw [qspLoop]
    simp only [if_neg hquote, if_pos hc]

/-- A bare text is appended as it is. -/
theorem qspLoop_bare (rest : Bytes) (hquote : ch '"' ∉ s) (hs : ∀ c ∈ s, c ∉ delim ∧ c ≠ 0) :
    qspLoop delim .outsideQuotes (s ++ rest) =
      (s ++ (qspLoop delim .outsideQuotes rest).1,
        s.length + (qspLoop delim .outsideQuotes rest).2) := by
  induction s with
  | nil => simp
  | cons c s ih =>
    obtain ⟨hc, hquote⟩ := List.ne_and_not_mem_of_not_mem_cons hquote
    obtain ⟨hcs, hs⟩ := List.forall_mem_cons.mp hs
    have hin : ¬(c ∈ delim ∨ c = 0) := not_or.mpr hcs
    rw [List.cons_append, qspLoop]
    simp only [if_neg hc.symm, if_neg hin, ih hquote hs, List.cons_append, List.length_cons,
      Nat.add_right_comm]

theorem qspLoop_open (rest : Bytes) :
    qspLoop delim .outsideQuotes (ch '"' :: rest) =
      ((qspLoop delim .inQuotes rest).1, (qspLoop delim .inQuotes rest).2 + 1) := by
  rw [qspLoop]
  exact if_pos rfl

theorem qspLoop_close (rest : Bytes) :
    qspLoop delim .inQuotes (ch '"' :: rest) =
      ((qspLoop delim .outsideQuotes rest).1, (qspLoop delim .outsideQuotes rest).2 + 1) := by
  rw [qspLoop]
  exact if_pos rfl

/-- What comes behind a backslash is appended, unless it is a quote. -/
theorem qspLoop_backslash (c : Byte) (rest : Bytes) :
    qspLoop delim .inQuotes (ch '\\' :: c :: rest) =
      ((if c = ch '"' then [] else [c]) ++ (qspLoop delim .inQuotes rest).1,
        (qspLoop delim .inQuotes rest).2 + 2) := by
  have hquote : ch '\\' ≠ ch '"' := by decide
  rw [qspLoop]
  simp only [if_neg hquote, if_pos]
  rw [qspLoop]
  by_cases hc : c = ch '"'
  · simp [hc]
  · simp [hc]

/-- Inside of the quotes, all but the quotes is appended. -/
theorem qspLoop_escape (s rest : Bytes) :
    qspLoop delim .inQuotes (escape s ++ rest) =
      (s.filter (· ≠ ch '"') ++ (qspLoop delim .inQuotes rest).1,
        (escape s).length + (qspLoop delim .inQuotes rest).2) := by
  induction s with
  | nil => simp [escape]
  | cons c s ih =>
    have hcons : escape (c :: s) =
        (if c = ch '"' ∨ c = ch '\\' then [ch '\\', c] else [c]) ++ escape s := rfl
    rw [hcons]
    by_cases hc : c = ch '"' ∨ c = ch '\\'
    · rw [if_pos hc, List.append_assoc, List.cons_append, List.cons_append, List.nil_append,
        qspLoop_backslash, ih]
      by_cases hquote : c = ch '"'
      · simp [hquote]
        omega
      · simp [hquote]
        omega
    · rw [if_neg hc, List.append_assoc, List.singleton_append, qspLoop]
      obtain ⟨hquote, hback⟩ := not_or.mp hc
      simp [hquote, hback, ih, Nat.add_right_comm]

/-- A quoted text is read without the quotes in it. -/
theorem qspLoop_quoted (s rest : Bytes) :
    qspLoop delim .outsideQuotes (quoted s ++ rest) =
      (s.filter (· ≠ ch '"') ++ (qspLoop delim .outsideQuotes rest).1,
        (quoted s).length + (qspLoop delim .outsideQuotes rest).2) := by
  have happ : quoted s ++ rest = ch '"' :: (escape s ++ ch '"' :: rest) := by simp [quoted]
  rw [happ, qspLoop_open, qspLoop_escape, qspLoop_close]
  simp only [quoted, List.length_cons, List.length_append, List.length_nil, Prod.mk.injEq, true_and]
  omega

end Scanner

/-- **A quoted text is read back** exactly when it has no quote in it. -/
theorem decodesQuoted_iff {delim rest : Bytes} (s : Bytes) (hdelim : ch '"' ∉ delim)
    (hrest : Ends delim rest) : DecodesQuoted delim s rest ↔ ch '"' ∉ s := by
  have hread : qspAppendToDynstring (quoted s ++ rest) delim =
      (s.filter (· ≠ ch '"'), (quoted s).length) := by
    unfold qspAppendToDynstring
    rw [qspLoop_quoted, qspLoop_ends hdelim hrest, List.append_nil, Nat.add_zero]
  unfold DecodesQuoted
  rw [hread, Prod.mk.injEq, and_iff_left rfl, List.filter_eq_self]
  constructor
  · intro hall hmem
    exact absurd (hall _ hmem) (by simp)
  · intro hquote c hc
    exact decide_eq_true fun h => hquote (h ▸ hc)

/-- A backslash is read back. -/
theorem decodesQuoted_backslash : DecodesQuoted (bytes ";") (bytes "a\\b") (bytes ";c") :=
  (decodesQuoted_iff _ (by decide) fun c r h => by cases h; exact .inl (by decide)).mpr (by decide)

/-- A quote is not. -/
theorem not_decodesQuoted_quote :
    ¬∀ delim s rest : Bytes, ch '"' ∉ delim → (0 : Byte) ∉ s → Ends delim rest →
      DecodesQuoted delim s rest := by
  intro h
  have hquote := h (bytes ";") (bytes "a\"b") [] (by decide) (by decide) (fun _ _ h => by cases h)
  revert hquote
  unfold DecodesQuoted
  decide

end FcgiJwtAuth.FormDecoder
