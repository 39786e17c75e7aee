import Mathlib.Data.List.Basic
import Mathlib.Data.List.TakeWhile

/-!
# Byte strings and C strings

`char` data is a list of bytes. A C string is a byte string without a NUL (`CStr`), the terminator
being left implicit; `CStr.ofBytes` is what `c_str()` shows of a counted string, which may hold a
NUL of its own. `upTo` and `after` cut a list at the first occurrence of a separator.
-/

namespace CLang

/-- One `char`. -/
abbrev Byte := UInt8

/-- A counted byte string (`std::string`, or memory). -/
abbrev Bytes := List Byte

/-- The bytes of a literal. -/
def bytes (s : String) : Bytes := s.toUTF8.data.toList

/-- A character literal. -/
def ch (c : Char) : Byte := c.toNat.toUInt8

/-! ## Cutting at a separator -/

variable {α : Type*} [DecidableEq α]

/-- The part of `l` before the first `c` (all of `l` when there is none). -/
def upTo (c : α) (l : List α) : List α := l.takeWhile (· ≠ c)

/-- The part of `l` after the first `c` (empty when there is none). -/
def after (c : α) (l : List α) : List α := (l.dropWhile (· ≠ c)).tail

@[simp] theorem upTo_nil (c : α) : upTo c [] = [] := rfl

@[simp] theorem after_nil (c : α) : after c [] = [] := rfl

theorem upTo_cons_ne {c b : α} (h : b ≠ c) (l : List α) : upTo c (b :: l) = b :: upTo c l := by
  simp [upTo, h]

theorem after_cons_ne {c b : α} (h : b ≠ c) (l : List α) : after c (b :: l) = after c l := by
  simp [after, h]

@[simp] theorem upTo_cons_self (c : α) (l : List α) : upTo c (c :: l) = [] := by simp [upTo]

@[simp] theorem after_cons_self (c : α) (l : List α) : after c (c :: l) = l := by simp [after]

/-- The separator itself is never part of what stands before it. -/
theorem not_mem_upTo (c : α) (l : List α) : c ∉ upTo c l := by
  intro h
  simpa using List.mem_takeWhile_imp h

theorem mem_of_mem_upTo {c b : α} {l : List α} (h : b ∈ upTo c l) : b ∈ l :=
  (List.takeWhile_prefix _).subset h

theorem mem_of_mem_after {c b : α} {l : List α} (h : b ∈ after c l) : b ∈ l :=
  (List.dropWhile_suffix _).subset (List.mem_of_mem_tail h)

/-- Cutting `a ++ c :: b` at a separator that does not occur in `a` gives `a` back. -/
theorem upTo_append_cons {c : α} {a : List α} (h : c ∉ a) (b : List α) :
    upTo c (a ++ c :: b) = a := by
  induction a with
  | nil => simp
  | cons x a ih =>
    obtain ⟨hx, ha⟩ := List.ne_and_not_mem_of_not_mem_cons h
    rw [List.cons_append, upTo_cons_ne (Ne.symm hx), ih ha]

theorem after_append_cons {c : α} {a : List α} (h : c ∉ a) (b : List α) :
    after c (a ++ c :: b) = b := by
  induction a with
  | nil => simp
  | cons x a ih =>
    obtain ⟨hx, ha⟩ := List.ne_and_not_mem_of_not_mem_cons h
    rw [List.cons_append, after_cons_ne (Ne.symm hx), ih ha]

theorem upTo_of_not_mem {c : α} {l : List α} (h : c ∉ l) : upTo c l = l := by
  rw [upTo, List.takeWhile_eq_self_iff]
  intro b hb
  have hne : b ≠ c := fun hbc => h (hbc ▸ hb)
  simpa using hne

/-- A list that holds the separator is its two parts with the separator between them. -/
theorem upTo_append_after {c : α} {l : List α} (h : c ∈ l) :
    upTo c l ++ c :: after c l = l := by
  induction l with
  | nil => simp at h
  | cons b l ih =>
    by_cases hb : b = c
    · subst hb; simp
    · have hl : c ∈ l := (List.mem_cons.mp h).resolve_left (Ne.symm hb)
      rw [upTo_cons_ne hb, after_cons_ne hb, List.cons_append, ih hl]

theorem length_after_lt {c : α} {l : List α} (h : c ∈ l) : (after c l).length < l.length := by
  have := congrArg List.length (upTo_append_after h)
  simp only [List.length_append, List.length_cons] at this
  omega

theorem length_after_le (c : α) (l : List α) : (after c l).length ≤ l.length :=
  (List.tail_suffix _).length_le.trans (List.dropWhile_suffix _).length_le

theorem after_of_not_mem {c : α} {l : List α} (h : c ∉ l) : after c l = [] := by
  have hd : l.dropWhile (· ≠ c) = [] := by
    rw [List.dropWhile_eq_nil_iff]
    intro b hb
    have hne : b ≠ c := fun hbc => h (hbc ▸ hb)
    simpa using hne
  rw [after, hd, List.tail_nil]

/-- A prefix without the separator stands before whatever comes first in the rest. -/
theorem upTo_append_of_not_mem {c : α} {a : List α} (h : c ∉ a) (b : List α) :
    upTo c (a ++ b) = a ++ upTo c b := by
  induction a with
  | nil => rfl
  | cons x a ih =>
    obtain ⟨hx, ha⟩ := List.ne_and_not_mem_of_not_mem_cons h
    rw [List.cons_append, upTo_cons_ne (Ne.symm hx), ih ha, List.cons_append]

/-! ## Segments -/

/-- Induction on the segments of a list, the last one first. -/
theorem segments_induction {c : α} {P : List α → Prop} (last : ∀ s, c ∉ s → P s)
    (cons : ∀ s rest, c ∉ s → P rest → P (s ++ c :: rest)) (l : List α) : P l := by
  by_cases h : c ∈ l
  · rw [← upTo_append_after h]
    exact cons _ _ (not_mem_upTo c l) (segments_induction last cons (after c l))
  · exact last l h
termination_by l.length
decreasing_by exact length_after_lt h

theorem head?_splitOn (c : α) (l : List α) : (l.splitOn c).head? = some (upTo c l) := by
  by_cases h : c ∈ l
  · nth_rewrite 1 [← upTo_append_after h]
    rw [List.splitOn_append_cons_self_of_not_mem (not_mem_upTo c l), List.head?_cons]
  · rw [List.splitOn_eq_singleton h, List.head?_cons, upTo_of_not_mem h]

/-- No segment holds the separator. -/
theorem not_mem_of_mem_splitOn {c : α} {l s : List α} (h : s ∈ l.splitOn c) : c ∉ s := by
  induction l using segments_induction (c := c) with
  | last l hl =>
    rw [List.splitOn_eq_singleton hl, List.mem_singleton] at h
    exact h ▸ hl
  | cons a rest ha ih =>
    rw [List.splitOn_append_cons_self_of_not_mem ha, List.mem_cons] at h
    rcases h with rfl | h
    · exact ha
    · exact ih h

/-- Every other element of a list stands in one of its segments. -/
theorem mem_iff_exists_mem_splitOn {b c : α} (hbc : b ≠ c) (l : List α) :
    b ∈ l ↔ ∃ s ∈ l.splitOn c, b ∈ s := by
  induction l using segments_induction (c := c) with
  | last l hl => simp [List.splitOn_eq_singleton hl]
  | cons a rest ha ih =>
    rw [List.splitOn_append_cons_self_of_not_mem ha]
    simp [hbc, ih]

/-! ## C strings -/

/-- A C string: bytes up to, and without, the terminating NUL. -/
structure CStr where
  /-- The characters before the terminator. -/
  val : Bytes
  noNul : (0 : Byte) ∉ val
deriving DecidableEq

/-- What `c_str()` shows of a counted string: everything before its first NUL. -/
def CStr.ofBytes (s : Bytes) : CStr := ⟨upTo 0 s, not_mem_upTo 0 s⟩

/-- A string literal. -/
def CStr.lit (s : String) : CStr := CStr.ofBytes (bytes s)

@[ext] theorem CStr.ext {s t : CStr} (h : s.val = t.val) : s = t := by
  cases s; cases t; cases h; rfl

/-- A counted string without a NUL is its own C string. -/
theorem CStr.ofBytes_val {s : Bytes} (h : (0 : Byte) ∉ s) : (CStr.ofBytes s).val = s :=
  upTo_of_not_mem h

@[simp] theorem CStr.ofBytes_of_val (s : CStr) : CStr.ofBytes s.val = s :=
  CStr.ext (upTo_of_not_mem s.noNul)

end CLang
