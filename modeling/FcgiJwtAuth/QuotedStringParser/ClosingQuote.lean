import FcgiJwtAuth.CLang.CString

/-!
# The quote that closes a field

The parsers of `quotedstringparser.c` look for the next quote that has no backslash in front of it.
A buffer is the text with its terminator; `none` is a read behind the terminator.
-/

namespace FcgiJwtAuth.QuotedStringParser

open CLang

/-! ## The search -/

/-- `strchr(p, c)`, for a `p` in the buffer. -/
def strchrAt (buf : Bytes) (p : ℕ) (c : Byte) : Option (Option ℕ) :=
  if p < buf.length then some (strchr buf p c) else none

/-- `do { temp = strchr(temp, '\"'); … } while (temp != NULL)`: where `temp` points in the end. -/
def closingQuote (buf : Bytes) (temp : ℕ) : Option (Option ℕ) :=
  if temp < buf.length then
    match _h : strchr buf temp (ch '"') with
    | none => some none
    | some t => if buf[t - 1]? = some (ch '\\') then closingQuote buf (t + 1) else some (some t)
  else none
termination_by buf.length - temp
decreasing_by
  have hle := le_of_strchr _h
  omega

section Search

variable {buf : Bytes} {p t : ℕ}

theorem closingQuote_of_none (hp : p < buf.length) (h : strchr buf p (ch '"') = none) :
    closingQuote buf p = some none := by
  rw [closingQuote, if_pos hp]
  split
  · rfl
  · rename_i hsome
    rw [h] at hsome
    cases hsome

theorem closingQuote_of_some (hp : p < buf.length) (h : strchr buf p (ch '"') = some t) :
    closingQuote buf p =
      if buf[t - 1]? = some (ch '\\') then closingQuote buf (t + 1) else some (some t) := by
  rw [closingQuote, if_pos hp]
  split
  · rename_i hnone
    rw [h] at hnone
    cases hnone
  · rename_i t' hsome
    obtain rfl := Option.some.inj (h.symm.trans hsome)
    rfl

theorem le_of_closingQuote (h : closingQuote buf p = some (some t)) : p ≤ t := by
  induction p using closingQuote.induct buf with
  | case1 p hp hnone =>
    rw [closingQuote_of_none hp hnone] at h
    cases h
  | case2 p hp q hq hback ih =>
    rw [closingQuote_of_some hp hq, if_pos hback] at h
    exact (le_of_strchr hq).trans ((Nat.le_succ q).trans (ih h))
  | case3 p hp q hq hback =>
    rw [closingQuote_of_some hp hq, if_neg hback] at h
    obtain rfl := Option.some.inj (Option.some.inj h)
    exact le_of_strchr hq
  | case4 p hp =>
    rw [closingQuote, if_neg hp] at h
    cases h

theorem getElem?_of_closingQuote (h : closingQuote buf p = some (some t)) :
    buf[t]? = some (ch '"') := by
  induction p using closingQuote.induct buf with
  | case1 p hp hnone =>
    rw [closingQuote_of_none hp hnone] at h
    cases h
  | case2 p hp q hq hback ih =>
    rw [closingQuote_of_some hp hq, if_pos hback] at h
    exact ih h
  | case3 p hp q hq hback =>
    rw [closingQuote_of_some hp hq, if_neg hback] at h
    obtain rfl := Option.some.inj (Option.some.inj h)
    exact getElem?_of_strchr hq
  | case4 p hp =>
    rw [closingQuote, if_neg hp] at h
    cases h

/-- In a terminated buffer the search does not leave it. -/
theorem closingQuote_ne_none (h : Terminated buf) (hp : p < buf.length) :
    closingQuote buf p ≠ none := by
  induction p using closingQuote.induct buf with
  | case1 p _ hnone =>
    rw [closingQuote_of_none hp hnone]
    exact Option.some_ne_none none
  | case2 p _ q hq hback ih =>
    rw [closingQuote_of_some hp hq, if_pos hback]
    exact ih (h.lt_of_getElem? (getElem?_of_strchr hq) (by decide))
  | case3 p _ q hq hback =>
    rw [closingQuote_of_some hp hq, if_neg hback]
    exact Option.some_ne_none (some q)
  | case4 p hout => exact absurd hp hout

end Search

/-! ## Escaped quotes -/

/-- Each quote of the text has a backslash in front of it; `prev` is what stands in front of the
text. -/
def AllEscaped : Byte → Bytes → Prop
  | _, [] => True
  | prev, c :: rest => (c = ch '"' → prev = ch '\\') ∧ AllEscaped c rest

instance AllEscaped.decidable : (prev : Byte) → (t : Bytes) → Decidable (AllEscaped prev t)
  | _, [] => isTrue trivial
  | prev, c :: rest =>
    have := AllEscaped.decidable c rest
    inferInstanceAs (Decidable ((c = ch '"' → prev = ch '\\') ∧ AllEscaped c rest))

/-- What stands between the quotes of a field: each quote in it is escaped, and the one behind it is
not. -/
structure Closed (prev : Byte) (body : Bytes) : Prop where
  escaped : AllEscaped prev body
  last : body.getLastD prev ≠ ch '\\'

section Escaped

variable {prev : Byte} {a b t : Bytes}

theorem getLastD_append (a b : Bytes) (d : Byte) :
    (a ++ b).getLastD d = b.getLastD (a.getLastD d) := by
  induction a generalizing d with
  | nil => rfl
  | cons x a ih => rw [List.cons_append, List.getLastD_cons, List.getLastD_cons, ih]

theorem allEscaped_append :
    AllEscaped prev (a ++ b) ↔ AllEscaped prev a ∧ AllEscaped (a.getLastD prev) b := by
  induction a generalizing prev with
  | nil => exact (and_iff_right trivial).symm
  | cons x a ih => rw [List.cons_append, AllEscaped, AllEscaped, ih, List.getLastD_cons, and_assoc]

theorem allEscaped_of_not_mem (h : ch '"' ∉ t) : AllEscaped prev t := by
  induction t generalizing prev with
  | nil => trivial
  | cons c t ih =>
    obtain ⟨hc, ht⟩ := List.ne_and_not_mem_of_not_mem_cons h
    exact ⟨fun heq => absurd heq.symm hc, ih ht⟩

/-- A text with a quote that is not escaped has a first one. -/
theorem exists_closed (h : ¬AllEscaped prev t) :
    ∃ body rest, t = body ++ ch '"' :: rest ∧ Closed prev body := by
  induction t generalizing prev with
  | nil => exact absurd trivial h
  | cons c t ih =>
    by_cases hc : c = ch '"' → prev = ch '\\'
    · obtain ⟨body, rest, rfl, hbody⟩ := ih fun ht => h ⟨hc, ht⟩
      refine ⟨c :: body, rest, rfl, ⟨hc, hbody.escaped⟩, ?_⟩
      rw [List.getLastD_cons]
      exact hbody.last
    · push Not at hc
      obtain ⟨rfl, hprev⟩ := hc
      exact ⟨[], t, rfl, trivial, hprev⟩

end Escaped

/-! ## What the search finds -/

section Finds

variable {prev : Byte} {body t : Bytes}

/-- The last character in front of a position. -/
theorem getElem?_front (pre a rest : Bytes) (prev : Byte) :
    (pre ++ prev :: (a ++ rest))[pre.length + 1 + a.length - 1]? = some (a.getLastD prev) := by
  induction a generalizing pre prev with
  | nil => simp
  | cons x a ih =>
    have hnext := ih (pre ++ [prev]) x
    rw [List.append_assoc, List.singleton_append, List.length_append, List.length_singleton]
      at hnext
    rw [List.cons_append, List.getLastD_cons, ← hnext, List.length_cons]
    congr 1
    omega

theorem lt_front (pre a rest : Bytes) (prev c : Byte) :
    pre.length + 1 < (pre ++ prev :: (a ++ c :: rest)).length := by
  simp only [List.length_append, List.length_cons]
  omega

/-- The first quote behind a character. -/
theorem strchr_front (pre rest : Bytes) {a : Bytes} (hquote : ch '"' ∉ a) (h0 : (0 : Byte) ∉ a) :
    strchr (pre ++ prev :: (a ++ ch '"' :: rest)) (pre.length + 1) (ch '"') =
      some (pre.length + 1 + a.length) := by
  have hfound := strchr_append hquote h0 (pre ++ [prev]) rest
  rwa [List.append_assoc, List.singleton_append, List.length_append, List.length_singleton]
    at hfound

theorem strchr_front_none (pre : Bytes) (hquote : ch '"' ∉ t) :
    strchr (pre ++ prev :: (t ++ [0])) (pre.length + 1) (ch '"') = none := by
  have hnone := strchr_none (by decide) hquote (pre ++ [prev]) []
  rwa [List.append_assoc, List.singleton_append, List.length_append, List.length_singleton]
    at hnone

/-- The search at the first quote in front of it. -/
theorem closingQuote_step (pre rest : Bytes) {a : Bytes} (hquote : ch '"' ∉ a)
    (h0 : (0 : Byte) ∉ a) :
    closingQuote (pre ++ prev :: (a ++ ch '"' :: rest)) (pre.length + 1) =
      if a.getLastD prev = ch '\\' then
        closingQuote ((pre ++ prev :: a) ++ ch '"' :: rest) ((pre ++ prev :: a).length + 1)
      else some (some (pre.length + 1 + a.length)) := by
  have hlen : (pre ++ prev :: a).length + 1 = pre.length + 1 + a.length + 1 := by
    rw [List.length_append, List.length_cons]
    omega
  rw [closingQuote_of_some (lt_front pre a rest prev _) (strchr_front pre rest hquote h0),
    getElem?_front, hlen, List.append_assoc, List.cons_append]
  simp only [Option.some.injEq]

/-- The search where no quote is left. -/
theorem closingQuote_none (pre : Bytes) (hquote : ch '"' ∉ t) :
    closingQuote (pre ++ prev :: (t ++ [0])) (pre.length + 1) = some none :=
  closingQuote_of_none (lt_front pre t [] prev 0) (strchr_front_none pre hquote)

/-- A text with an escaped quote in it, at its first one. -/
theorem exists_escaped (h : AllEscaped prev t) (hquote : ch '"' ∈ t) :
    ∃ a b, t = a ++ ch '"' :: b ∧ ch '"' ∉ a ∧ a.getLastD prev = ch '\\' ∧
      AllEscaped (ch '"') b := by
  have hsplit := upTo_append_after hquote
  rw [← hsplit, allEscaped_append] at h
  obtain ⟨-, hback, hb⟩ := h
  exact ⟨_, _, hsplit.symm, not_mem_upTo _ t, hback rfl, hb⟩

/-- The search goes on behind an escaped quote. -/
theorem closingQuote_escaped (pre rest : Bytes) {a : Bytes} (hquote : ch '"' ∉ a)
    (h0 : (0 : Byte) ∉ a) (hback : a.getLastD prev = ch '\\') :
    closingQuote (pre ++ prev :: ((a ++ ch '"' :: t) ++ rest)) (pre.length + 1) =
      closingQuote ((pre ++ prev :: a) ++ ch '"' :: (t ++ rest))
        ((pre ++ prev :: a).length + 1) := by
  rw [List.append_assoc, List.cons_append, closingQuote_step pre (t ++ rest) hquote h0,
    if_pos hback]

/-- **The closing quote** is found. -/
theorem closingQuote_closed (pre post : Bytes) (h : Closed prev body) (h0 : (0 : Byte) ∉ body) :
    closingQuote (pre ++ prev :: (body ++ ch '"' :: post)) (pre.length + 1) =
      some (some (pre.length + 1 + body.length)) := by
  induction hn : body.length using Nat.strong_induction_on generalizing pre prev body with
  | _ n ih =>
    subst hn
    by_cases hquote : ch '"' ∈ body
    · obtain ⟨a, b, rfl, ha, hback, hb⟩ := exists_escaped h.escaped hquote
      have hlast := h.last
      rw [getLastD_append, List.getLastD_cons] at hlast
      rw [List.mem_append, not_or] at h0
      have hlen : b.length < (a ++ ch '"' :: b).length := by
        rw [List.length_append, List.length_cons]
        omega
      rw [closingQuote_escaped pre _ ha h0.1 hback,
        ih _ hlen (pre ++ prev :: a) ⟨hb, hlast⟩ (List.not_mem_of_not_mem_cons h0.2) rfl]
      simp only [List.length_append, List.length_cons, Option.some.injEq]
      omega
    · rw [closingQuote_step pre post hquote h0, if_neg h.last]

/-- **No closing quote** is found where there is none. -/
theorem closingQuote_unclosed (pre : Bytes) (h : AllEscaped prev t) (h0 : (0 : Byte) ∉ t) :
    closingQuote (pre ++ prev :: (t ++ [0])) (pre.length + 1) = some none := by
  induction hn : t.length using Nat.strong_induction_on generalizing pre prev t with
  | _ n ih =>
    subst hn
    by_cases hquote : ch '"' ∈ t
    · obtain ⟨a, b, rfl, ha, hback, hb⟩ := exists_escaped h hquote
      rw [List.mem_append, not_or] at h0
      have hlen : b.length < (a ++ ch '"' :: b).length := by
        rw [List.length_append, List.length_cons]
        omega
      rw [closingQuote_escaped pre _ ha h0.1 hback]
      exact ih _ hlen (pre ++ prev :: a) hb (List.not_mem_of_not_mem_cons h0.2) rfl
    · exact closingQuote_none pre hquote

end Finds

end FcgiJwtAuth.QuotedStringParser
