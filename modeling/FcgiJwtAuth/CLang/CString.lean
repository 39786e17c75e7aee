import FcgiJwtAuth.CLang.Bytes

/-!
# Pointers into a NUL-terminated buffer

A `char *` is an offset into a buffer, and in-place code is a function from a buffer to a buffer.
The `<string.h>` functions are given on such offsets; each comes with the equations that evaluate
it on a buffer written as a prefix, the text under the pointer, and a rest.
-/

namespace CLang

/-- The C string that starts at `p`. -/
def cstr (buf : Bytes) (p : ℕ) : Bytes := upTo 0 (buf.drop p)

/-- `buf[p] = b`. -/
def poke (buf : Bytes) (p : ℕ) (b : Byte) : Bytes := buf.set p b

/-- The scan of `strchr`: the first `c` at or after `p`, not looking past the terminator. -/
def scanChr (c : Byte) : Bytes → ℕ → Option ℕ
  | [], _ => none
  | b :: rest, p => if b = c then some p else if b = 0 then none else scanChr c rest (p + 1)

/-- `strchr(buf + p, c)`. -/
def strchr (buf : Bytes) (p : ℕ) (c : Byte) : Option ℕ := scanChr c (buf.drop p) p

/-- `strlen(buf + p)`. -/
def strlen (buf : Bytes) (p : ℕ) : ℕ := (cstr buf p).length

/-- `strcmp(a, b) == 0` on two C strings. -/
def strEq (a b : Bytes) : Bool := decide (a = b)

/-- `strncmp(a, b, n)`: the difference of the first unequal characters among the first `n`, each
string read no further than its terminator. -/
def strncmp : ℕ → Bytes → Bytes → ℤ
  | 0, _, _ => 0
  | n + 1, a, b =>
    if a.headD 0 = b.headD 0 then
      if a.headD 0 = 0 then 0 else strncmp n a.tail b.tail
    else (a.headD 0).toNat - (b.headD 0).toNat

/-- `strrchr(s, c)`: the last `c` of a C string. -/
def strrchr (s : Bytes) (c : Byte) : Option ℕ :=
  if c ∈ s then some (s.length - 1 - s.reverse.idxOf c) else none

/-! ## Reading at a known place -/

/-- A string that is followed by its terminator is read back whole. -/
theorem cstr_append {s : Bytes} (h : (0 : Byte) ∉ s) (pre post : Bytes) :
    cstr (pre ++ (s ++ 0 :: post)) pre.length = s := by
  rw [cstr, List.drop_left, upTo_append_cons h]

theorem strlen_append {s : Bytes} (h : (0 : Byte) ∉ s) (pre post : Bytes) :
    strlen (pre ++ (s ++ 0 :: post)) pre.length = s.length := by
  rw [strlen, cstr_append h]

/-- The character under the pointer. -/
theorem getElem?_append_length (pre t : Bytes) : (pre ++ t)[pre.length]? = t.head? := by
  rw [List.getElem?_append_right le_rfl, Nat.sub_self, List.head?_eq_getElem?]

theorem poke_append (pre post : Bytes) (x b : Byte) :
    poke (pre ++ x :: post) pre.length b = pre ++ b :: post := by
  simp [poke]

private theorem scanChr_append {c : Byte} {a : Bytes} (hc : c ∉ a) (h0 : (0 : Byte) ∉ a)
    (rest : Bytes) (p : ℕ) : scanChr c (a ++ c :: rest) p = some (p + a.length) := by
  induction a generalizing p with
  | nil => simp [scanChr]
  | cons x a ih =>
    obtain ⟨hx, ha⟩ := List.ne_and_not_mem_of_not_mem_cons hc
    obtain ⟨hx0, ha0⟩ := List.ne_and_not_mem_of_not_mem_cons h0
    rw [List.cons_append, scanChr, if_neg (Ne.symm hx), if_neg (Ne.symm hx0), ih ha ha0]
    simp only [List.length_cons, Option.some.injEq]
    omega

private theorem scanChr_none {c : Byte} (hc0 : c ≠ 0) {a : Bytes} (hc : c ∉ a) (rest : Bytes)
    (p : ℕ) : scanChr c (a ++ 0 :: rest) p = none := by
  induction a generalizing p with
  | nil => simp [scanChr, Ne.symm hc0]
  | cons x a ih =>
    obtain ⟨hx, ha⟩ := List.ne_and_not_mem_of_not_mem_cons hc
    rw [List.cons_append, scanChr, if_neg (Ne.symm hx), ih ha]
    split <;> rfl

/-- `strchr` finds the first occurrence when it stands before the terminator. -/
theorem strchr_append {c : Byte} {a : Bytes} (hc : c ∉ a) (h0 : (0 : Byte) ∉ a)
    (pre rest : Bytes) :
    strchr (pre ++ (a ++ c :: rest)) pre.length c = some (pre.length + a.length) := by
  rw [strchr, List.drop_left, scanChr_append hc h0]

private theorem le_of_scanChr {c : Byte} {l : Bytes} {p q : ℕ} (h : scanChr c l p = some q) :
    p ≤ q := by
  induction l generalizing p with
  | nil => cases h
  | cons b rest ih =>
    rw [scanChr] at h
    split_ifs at h
    · exact (Option.some.inj h).le
    · exact Nat.le_of_succ_le (ih h)

/-- `strchr` answers no pointer in front of the one it is given. -/
theorem le_of_strchr {buf : Bytes} {p q : ℕ} {c : Byte} (h : strchr buf p c = some q) : p ≤ q :=
  le_of_scanChr h

private theorem getElem?_of_scanChr {c : Byte} {l : Bytes} {p q : ℕ}
    (h : scanChr c l p = some q) : l[q - p]? = some c := by
  induction l generalizing p with
  | nil => cases h
  | cons b rest ih =>
    rw [scanChr] at h
    split_ifs at h with hb
    · rw [← Option.some.inj h, Nat.sub_self, hb, List.getElem?_cons_zero]
    · have hle := le_of_scanChr h
      have hsub : q - p = (q - (p + 1)) + 1 := by omega
      rw [hsub, List.getElem?_cons_succ]
      exact ih h

/-- The character is where `strchr` points. -/
theorem getElem?_of_strchr {buf : Bytes} {p q : ℕ} {c : Byte} (h : strchr buf p c = some q) :
    buf[q]? = some c := by
  have hle := le_of_strchr h
  have hget := getElem?_of_scanChr h
  rwa [List.getElem?_drop, Nat.add_sub_cancel' hle] at hget

/-- `strchr` answers NULL when the string under the pointer does not hold the character. -/
theorem strchr_none {c : Byte} (hc0 : c ≠ 0) {a : Bytes} (hc : c ∉ a) (pre rest : Bytes) :
    strchr (pre ++ (a ++ 0 :: rest)) pre.length c = none := by
  rw [strchr, List.drop_left, scanChr_none hc0 hc]

/-! ## Terminated buffers -/

/-- The last character of the buffer is a terminator. -/
def Terminated (buf : Bytes) : Prop := buf.getLast? = some 0

section Terminated

variable {buf : Bytes} {p : ℕ} {c : Byte}

theorem length_poke (buf : Bytes) (p : ℕ) (b : Byte) : (poke buf p b).length = buf.length :=
  List.length_set

theorem terminated_append (s : Bytes) : Terminated (s ++ [0]) := List.getLast?_concat

/-- Any other character has one behind it. -/
theorem Terminated.lt_of_getElem? (h : Terminated buf) (hc : buf[p]? = some c) (hc0 : c ≠ 0) :
    p + 1 < buf.length := by
  obtain ⟨hp, -⟩ := List.getElem?_eq_some_iff.mp hc
  rw [Terminated, List.getLast?_eq_getElem?] at h
  have hlast : p ≠ buf.length - 1 := by
    intro heq
    rw [← heq, hc] at h
    exact hc0 (Option.some.inj h)
  omega

/-- The terminator is left alone by what is written in front of it. -/
theorem Terminated.poke (h : Terminated buf) (hp : p + 1 < buf.length) (b : Byte) :
    Terminated (poke buf p b) := by
  rw [Terminated, List.getLast?_eq_getElem?] at h
  rw [Terminated, List.getLast?_eq_getElem?, CLang.poke, List.length_set,
    List.getElem?_set_ne (by omega), h]

/-- A character that is replaced by a terminator has one behind it. -/
theorem Terminated.cut (h : Terminated buf) (hc : buf[p]? = some c) (hc0 : c ≠ 0) :
    Terminated (CLang.poke buf p 0) ∧ p + 1 < (CLang.poke buf p 0).length := by
  have hlt := h.lt_of_getElem? hc hc0
  exact ⟨h.poke hlt 0, (length_poke buf p 0).symm ▸ hlt⟩

end Terminated

/-! ## The last occurrence -/

theorem strrchr_none {s : Bytes} {c : Byte} (h : c ∉ s) : strrchr s c = none := by
  rw [strrchr, if_neg h]

/-- `strrchr` points at the separator after which there is no further one. -/
theorem strrchr_append {c : Byte} (a : Bytes) {b : Bytes} (h : c ∉ b) :
    strrchr (a ++ c :: b) c = some a.length := by
  have hrev : (a ++ c :: b).reverse.idxOf c = b.length := by
    have hb : c ∉ b.reverse := by simpa using h
    simp only [List.reverse_append, List.reverse_cons, List.append_assoc, List.singleton_append]
    rw [List.idxOf_append_of_notMem hb, List.idxOf_cons_self, List.length_reverse, Nat.add_zero]
  rw [strrchr, if_pos (by simp), hrev]
  simp only [List.length_append, List.length_cons, Option.some.injEq]
  omega

/-- A list that holds `c` splits at its last `c`. -/
theorem exists_last_split {α : Type*} [DecidableEq α] {c : α} {s : List α} (h : c ∈ s) :
    ∃ a b, s = a ++ c :: b ∧ c ∉ b := by
  have hrev : c ∈ s.reverse := by simpa using h
  refine ⟨(after c s.reverse).reverse, (upTo c s.reverse).reverse, ?_, ?_⟩
  · have hs := congrArg List.reverse (upTo_append_after hrev)
    simpa using hs.symm
  · simpa using not_mem_upTo c s.reverse

/-- The last separator is where two splits agree. -/
theorem last_split_unique {α : Type*} [DecidableEq α] {c : α} {a b a' b' : List α} (hb : c ∉ b)
    (hb' : c ∉ b') (h : a ++ c :: b = a' ++ c :: b') : a = a' ∧ b = b' := by
  have hrev : b.reverse ++ c :: a.reverse = b'.reverse ++ c :: a'.reverse := by
    simpa using congrArg List.reverse h
  have hup := congrArg (upTo c) hrev
  have haf := congrArg (after c) hrev
  rw [upTo_append_cons (by simpa using hb), upTo_append_cons (by simpa using hb')] at hup
  rw [after_append_cons (by simpa using hb), after_append_cons (by simpa using hb')] at haf
  exact ⟨List.reverse_injective haf, List.reverse_injective hup⟩

/-! ## Bounded comparison -/

/-- Only the first `n` characters of the second string are looked at. -/
theorem strncmp_take (n : ℕ) (a b : Bytes) : strncmp n a b = strncmp n a (b.take n) := by
  induction n generalizing a b with
  | zero => rfl
  | succ n ih =>
    cases b with
    | nil => rfl
    | cons y b =>
      rw [List.take_succ_cons, strncmp, strncmp, List.headD_cons, List.headD_cons, List.tail_cons,
        List.tail_cons, ← ih]

/-- Unequal characters have a difference. -/
theorem toNat_sub_ne_zero {x y : Byte} (h : x ≠ y) : (x.toNat : ℤ) - y.toNat ≠ 0 := by
  intro hzero
  exact h (UInt8.toNat_inj.mp (by omega))

/-- Comparing against a text of exactly `n` characters tests for a prefix. -/
theorem strncmp_eq_zero_iff {a b : Bytes} (ha : (0 : Byte) ∉ a) (hb : (0 : Byte) ∉ b) :
    strncmp b.length a b = 0 ↔ b <+: a := by
  induction b generalizing a with
  | nil => simp [strncmp]
  | cons y b ih =>
    obtain ⟨hy, hb'⟩ := List.ne_and_not_mem_of_not_mem_cons hb
    cases a with
    | nil =>
      have hd := toNat_sub_ne_zero hy
      simp only [List.length_cons, strncmp, List.headD_nil, List.headD_cons, if_neg hy]
      simpa using hd
    | cons x a =>
      obtain ⟨hx, ha'⟩ := List.ne_and_not_mem_of_not_mem_cons ha
      by_cases hxy : x = y
      · subst hxy
        have hstep : strncmp (x :: b).length (x :: a) (x :: b) = strncmp b.length a b := by
          simp [strncmp, Ne.symm hx]
        rw [hstep, ih ha' hb', List.cons_prefix_cons]
        simp
      · have hstep : strncmp (y :: b).length (x :: a) (y :: b) = x.toNat - y.toNat := by
          simp [strncmp, hxy]
        rw [hstep, List.cons_prefix_cons]
        simp only [toNat_sub_ne_zero hxy, Ne.symm hxy, false_and]

/-- Comparing a counted text over its own length, against a C string with its terminator. -/
theorem strncmp_length_eq_zero_iff {a b : Bytes} (hb : (0 : Byte) ∉ b) :
    strncmp a.length a b = 0 ↔ a <+: b ∨ b ++ [0] <+: a := by
  induction a generalizing b with
  | nil => simp [strncmp]
  | cons x a ih =>
    cases b with
    | nil =>
      by_cases hx : x = 0
      · simp [strncmp, hx]
      · have hd := toNat_sub_ne_zero hx
        simp only [List.length_cons, strncmp, List.headD_cons, List.headD_nil]
        simpa [hx, Ne.symm hx] using hd
    | cons y b =>
      obtain ⟨hy, hb'⟩ := List.ne_and_not_mem_of_not_mem_cons hb
      by_cases hxy : x = y
      · subst hxy
        have hstep : strncmp (x :: a).length (x :: a) (x :: b) = strncmp a.length a b := by
          simp [strncmp, Ne.symm hy]
        rw [hstep, ih hb', List.cons_append, List.cons_prefix_cons, List.cons_prefix_cons]
        simp
      · have hstep : strncmp (x :: a).length (x :: a) (y :: b) = x.toNat - y.toNat := by
          simp [strncmp, hxy]
        rw [hstep, List.cons_append, List.cons_prefix_cons, List.cons_prefix_cons]
        simp only [toNat_sub_ne_zero hxy, hxy, Ne.symm hxy, false_and, or_false]

/-- Comparing a literal over its own length tests for a prefix. -/
theorem strncmp_literal_iff {a b : Bytes} (ha : (0 : Byte) ∉ a) (hb : (0 : Byte) ∉ b) :
    strncmp a.length a b = 0 ↔ a <+: b := by
  rw [strncmp_length_eq_zero_iff hb]
  refine or_iff_left fun h => ?_
  exact ha (h.subset (List.mem_append_right b (List.mem_singleton_self 0)))

end CLang
