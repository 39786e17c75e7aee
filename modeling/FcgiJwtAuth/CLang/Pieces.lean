import FcgiJwtAuth.CLang.Bytes

/-!
# Texts with holes

A text with holes is the list of its pieces, and `v.intercalate pieces` is the text with `v` in
every hole. What is filled in can be read back from the result as soon as there is a hole, and
likewise what is filled in around a marker that is told apart from it.
-/

namespace CLang

variable {α : Type*}

/-! ## Filling the holes -/

/-- A text is put in front of the first piece. -/
def prependPiece (a : List α) : List (List α) → List (List α)
  | [] => [a]
  | p :: ps => (a ++ p) :: ps

theorem prependPiece_ne_nil (a : List α) (ps : List (List α)) : prependPiece a ps ≠ [] := by
  cases ps <;> simp [prependPiece]

theorem intercalate_prependPiece (v a : List α) {ps : List (List α)} (h : ps ≠ []) :
    v.intercalate (prependPiece a ps) = a ++ v.intercalate ps := by
  obtain ⟨p, ps, rfl⟩ := List.exists_cons_of_ne_nil h
  cases ps with
  | nil => simp [prependPiece]
  | cons q ps => simp [prependPiece]

/-- What is selected from a filled text. -/
theorem filter_intercalate (f : α → Bool) (v : List α) (ps : List (List α)) :
    (v.intercalate ps).filter f = (v.filter f).intercalate (ps.map (List.filter f)) := by
  induction ps with
  | nil => rfl
  | cons p ps ih =>
    cases ps with
    | nil => simp
    | cons q ps =>
      rw [List.intercalate_cons_cons, List.filter_append, List.filter_append, ih]
      simp only [List.map_cons, List.intercalate_cons_cons]

theorem length_intercalate (v : List α) (ps : List (List α)) :
    (v.intercalate ps).length = ps.flatten.length + (ps.length - 1) * v.length := by
  induction ps with
  | nil => simp
  | cons p ps ih =>
    cases ps with
    | nil => simp
    | cons q ps =>
      have hcount : (p :: q :: ps).length - 1 = ((q :: ps).length - 1) + 1 := by simp
      have hflatten : (p :: q :: ps).flatten.length = p.length + (q :: ps).flatten.length := by
        rw [List.flatten_cons, List.length_append]
      rw [List.intercalate_cons_cons, List.length_append, List.length_append, ih, hcount, hflatten,
        Nat.succ_mul]
      omega

/-- **With a hole** the filling can be read back. -/
theorem intercalate_inj {v w : List α} {ps : List (List α)} (h : 2 ≤ ps.length) :
    v.intercalate ps = w.intercalate ps ↔ v = w := by
  constructor
  · intro heq
    have hlength := congrArg List.length heq
    rw [length_intercalate, length_intercalate, Nat.add_left_cancel_iff] at hlength
    have hsame : v.length = w.length := Nat.eq_of_mul_eq_mul_left (by omega) hlength
    match ps, h with
    | p :: q :: ps, _ =>
      rw [List.intercalate_cons_cons, List.intercalate_cons_cons, List.append_assoc,
        List.append_assoc] at heq
      exact (List.append_inj (List.append_cancel_left heq) hsame).1
  · rintro rfl
    rfl

/-- Without one it makes no difference. -/
theorem intercalate_of_no_hole {ps : List (List α)} (h : ps.length < 2) (v w : List α) :
    v.intercalate ps = w.intercalate ps := by
  match ps, h with
  | [], _ => rfl
  | [p], _ => simp

/-! ## Cutting a filled text -/

section Cut

variable [DecidableEq α] {c : α}

/-- The pieces up to the first `c`, the last one cut there. -/
def cutPieces (c : α) : List (List α) → List (List α)
  | [] => []
  | p :: ps => if c ∈ p then [upTo c p] else p :: cutPieces c ps

theorem cutPieces_ne_nil {ps : List (List α)} (h : ps ≠ []) : cutPieces c ps ≠ [] := by
  obtain ⟨p, ps, rfl⟩ := List.exists_cons_of_ne_nil h
  rw [cutPieces]
  split_ifs <;> simp

theorem upTo_append_of_mem {a : List α} (h : c ∈ a) (b : List α) : upTo c (a ++ b) = upTo c a := by
  rw [← upTo_append_after h, List.append_assoc, List.cons_append,
    upTo_append_cons (not_mem_upTo c a), upTo_append_cons (not_mem_upTo c a)]

/-- A filling without `c` leaves the cut where it is. -/
theorem upTo_intercalate {v : List α} (hv : c ∉ v) (ps : List (List α)) :
    upTo c (v.intercalate ps) = v.intercalate (cutPieces c ps) := by
  induction ps with
  | nil => rfl
  | cons p ps ih =>
    rw [cutPieces]
    by_cases hp : c ∈ p
    · rw [if_pos hp, List.intercalate_singleton]
      cases ps with
      | nil => rw [List.intercalate_singleton]
      | cons q ps => rw [List.intercalate_cons_cons, List.append_assoc, upTo_append_of_mem hp]
    · rw [if_neg hp]
      cases ps with
      | nil =>
        rw [List.intercalate_singleton, upTo_of_not_mem hp, cutPieces, List.intercalate_singleton]
      | cons q ps =>
        have hpv : c ∉ p ++ v := by simp [hp, hv]
        rw [List.intercalate_cons_cons, upTo_append_of_not_mem hpv, ih,
          List.intercalate_cons_of_ne_nil (cutPieces_ne_nil (List.cons_ne_nil q ps))]

end Cut

/-! ## Around a marker -/

/-- Two texts around a marker, when it can be one of two. -/
theorem append_marker_inj {x y : α} (hne : x ≠ y) {a b a' b' : List α}
    (hx : a ++ x :: b = a' ++ x :: b') (hy : a ++ y :: b = a' ++ y :: b') : a = a' ∧ b = b' := by
  have hle : ∀ {a b a' b' : List α}, a ++ x :: b = a' ++ x :: b' → a ++ y :: b = a' ++ y :: b' →
      ¬ a.length < a'.length := by
    intro a b a' b' hx hy hlt
    have hget := congrArg (·[a.length]?) hx
    have hget' := congrArg (·[a.length]?) hy
    simp only [List.getElem?_append_right (le_refl _), Nat.sub_self, List.getElem?_cons_zero,
      List.getElem?_append_left hlt] at hget hget'
    exact hne (Option.some.inj (hget.trans hget'.symm))
  have hlength : a.length = a'.length :=
    le_antisymm (not_lt.mp (hle hx.symm hy.symm)) (not_lt.mp (hle hx hy))
  obtain ⟨ha, hb⟩ := List.append_inj hx hlength
  exact ⟨ha, (List.cons.inj hb).2⟩

end CLang
