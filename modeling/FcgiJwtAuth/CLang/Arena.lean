import Mathlib.Algebra.BigOperators.Group.List.Basic
import Mathlib.Data.List.Nodup
import Mathlib.Order.Basic
import Mathlib.Tactic.Abel

/-!
# Allocated cells

An arena holds the cells a program has allocated and not freed, in the order of their allocation. An
address is never handed out twice, so a pointer to a freed cell points to nothing. `total` adds up a
weight over the cells; what each operation does to it is the law that accounts of ownership rest on.
-/

namespace CLang

universe u
variable {α : Type u}

/-- The live cells, each with its address. -/
structure Arena (α : Type u) where
  cells : List (ℕ × α)
  /-- The next address. -/
  fresh : ℕ
  bounded : ∀ c ∈ cells, c.1 < fresh
  distinct : (cells.map Prod.fst).Nodup
deriving DecidableEq

namespace Arena

/-- Nothing allocated. -/
def empty : Arena α := ⟨[], 0, by simp, by simp⟩

/-- The contents of the cells. -/
def values (A : Arena α) : List α := A.cells.map Prod.snd

/-- The cell that a pointer points to. -/
def get? (A : Arena α) (a : ℕ) : Option α := A.cells.lookup a

/-- The first cell of a kind. -/
def find? (A : Arena α) (p : α → Bool) : Option α := A.values.find? p

/-- A new cell, at `A.fresh`. -/
def alloc (A : Arena α) (v : α) : Arena α where
  cells := A.cells ++ [(A.fresh, v)]
  fresh := A.fresh + 1
  bounded c hc := by
    rcases List.mem_append.mp hc with hold | hnew
    · exact Nat.lt_succ_of_lt (A.bounded c hold)
    · rw [List.mem_singleton.mp hnew]
      exact Nat.lt_succ_self _
  distinct := by
    rw [List.map_append, List.nodup_append]
    refine ⟨A.distinct, List.nodup_singleton _, ?_⟩
    intro a hold b hnew
    obtain ⟨c, hc, rfl⟩ := List.mem_map.mp hold
    rw [List.mem_singleton.mp hnew]
    exact Nat.ne_of_lt (A.bounded c hc)

/-- What a write through a pointer does to a cell. -/
def write (a : ℕ) (f : α → α) (c : ℕ × α) : ℕ × α := if c.1 = a then (c.1, f c.2) else c

@[simp] theorem write_fst (a : ℕ) (f : α → α) (c : ℕ × α) : (write a f c).1 = c.1 := by
  unfold write
  split <;> rfl

/-- A write through a pointer. -/
def modify (A : Arena α) (a : ℕ) (f : α → α) : Arena α where
  cells := A.cells.map (write a f)
  fresh := A.fresh
  bounded c hc := by
    obtain ⟨c', hc', rfl⟩ := List.mem_map.mp hc
    rw [write_fst]
    exact A.bounded c' hc'
  distinct := by
    have hfst : Prod.fst ∘ write a f = Prod.fst := funext (write_fst a f)
    rw [List.map_map, hfst]
    exact A.distinct

/-- Frees the first cell of a kind. -/
def freeFirst (A : Arena α) (p : α → Bool) : Arena α where
  cells := A.cells.eraseP fun c => p c.2
  fresh := A.fresh
  bounded c hc := A.bounded c (List.mem_of_mem_eraseP hc)
  distinct := A.distinct.sublist ((List.eraseP_sublist).map _)

variable {A : Arena α} {a b : ℕ} {v : α} {f : α → α} {p : α → Bool}

/-! ## Pointers -/

theorem get?_eq_some_iff : A.get? a = some v ↔ (a, v) ∈ A.cells := by
  unfold get?
  constructor
  · intro h
    obtain ⟨pre, post, hcells, -⟩ := List.lookup_eq_some_iff.mp h
    rw [hcells]
    exact List.mem_append_right _ List.mem_cons_self
  · intro h
    obtain ⟨pre, post, hcells⟩ := List.append_of_mem h
    have hdistinct := A.distinct
    rw [hcells, List.map_append, List.nodup_append] at hdistinct
    refine List.lookup_eq_some_iff.mpr ⟨pre, post, hcells, ?_⟩
    intro c hc
    have hne := hdistinct.2.2 c.1 (List.mem_map_of_mem hc) a (by simp)
    simpa using hne.symm

@[simp] theorem get?_alloc_self (A : Arena α) (v : α) : (A.alloc v).get? A.fresh = some v :=
  get?_eq_some_iff.mpr (List.mem_append_right _ (List.mem_singleton_self _))

/-- Allocating moves no cell and revives none. -/
theorem get?_alloc_of_lt (h : a < A.fresh) : (A.alloc v).get? a = A.get? a := by
  have hne : ((a, v).1 == A.fresh) = false := by simpa using Nat.ne_of_lt h
  show List.lookup a (A.cells ++ [(A.fresh, v)]) = List.lookup a A.cells
  rw [List.lookup_append, List.lookup_cons, hne]
  exact Option.or_none

theorem get?_modify_self (h : A.get? a = some v) : (A.modify a f).get? a = some (f v) := by
  refine get?_eq_some_iff.mpr (List.mem_map.mpr ⟨(a, v), get?_eq_some_iff.mp h, ?_⟩)
  exact if_pos rfl

theorem get?_freeFirst (h : (A.freeFirst p).get? a = some v) : A.get? a = some v :=
  get?_eq_some_iff.mpr (List.mem_of_mem_eraseP (get?_eq_some_iff.mp h))

/-! ## The cells in order -/

@[simp] theorem values_alloc (A : Arena α) (v : α) : (A.alloc v).values = A.values ++ [v] :=
  List.map_append

/-- Writing changes the one cell that the pointer points to. -/
theorem values_modify (h : A.get? a = some v) :
    ∃ pre post, A.values = pre ++ v :: post ∧ (A.modify a f).values = pre ++ f v :: post := by
  obtain ⟨pre, post, hcells⟩ := List.append_of_mem (get?_eq_some_iff.mp h)
  have hdistinct := A.distinct
  rw [hcells, List.map_append, List.map_cons, List.nodup_append, List.nodup_cons] at hdistinct
  obtain ⟨-, ⟨hpost, -⟩, hpre⟩ := hdistinct
  have hkeep : ∀ l : List (ℕ × α), a ∉ l.map Prod.fst → l.map (write a f) = l := by
    intro l hl
    refine (List.map_congr_left fun c hc => if_neg ?_).trans (List.map_id l)
    rintro rfl
    exact hl (List.mem_map_of_mem hc)
  have hpre' : a ∉ pre.map Prod.fst := fun hmem => hpre a hmem a List.mem_cons_self rfl
  refine ⟨pre.map Prod.snd, post.map Prod.snd, ?_, ?_⟩
  · rw [values, hcells, List.map_append, List.map_cons]
  · show (A.cells.map (write a f)).map Prod.snd = _
    rw [hcells, List.map_append, List.map_cons, hkeep pre hpre', hkeep post hpost,
      List.map_append, List.map_cons, write, if_pos rfl]

/-- Writing to the cell allocated last. -/
theorem modify_alloc (A : Arena α) (v : α) (f : α → α) :
    (A.alloc v).modify A.fresh f = A.alloc (f v) := by
  have hold : A.cells.map (write A.fresh f) = A.cells := by
    refine (List.map_congr_left fun c hc => if_neg ?_).trans (List.map_id _)
    exact Nat.ne_of_lt (A.bounded c hc)
  have hcells : (A.cells ++ [(A.fresh, v)]).map (write A.fresh f) =
      A.cells ++ [(A.fresh, f v)] := by
    rw [List.map_append, hold]
    simp [write]
  simp only [modify, alloc, hcells]

theorem values_freeFirst (A : Arena α) (p : α → Bool) :
    (A.freeFirst p).values = A.values.eraseP p := by
  show (A.cells.eraseP (p ∘ Prod.snd)).map Prod.snd = _
  rw [values, List.eraseP_map]

/-! ## Looking a cell up -/

theorem find?_alloc (A : Arena α) (v : α) (p : α → Bool) :
    (A.alloc v).find? p = (A.find? p).or (if p v then some v else none) := by
  rw [find?, values_alloc, List.find?_append, ← find?, List.find?_singleton]

/-- Freeing a cell of one kind leaves the first cell of a kind that excludes it. -/
theorem find?_freeFirst (A : Arena α) {p q : α → Bool} (h : ∀ v, p v = true → q v = false) :
    (A.freeFirst p).find? q = A.find? q := by
  rw [find?, values_freeFirst, find?]
  induction A.values with
  | nil => rfl
  | cons v rest ih =>
    by_cases hp : p v = true
    · have hq : ¬q v = true := Bool.eq_false_iff.mp (h v hp)
      rw [List.eraseP_cons_of_pos hp, List.find?_cons_of_neg hq]
    · rw [List.eraseP_cons_of_neg hp]
      by_cases hq : q v = true
      · rw [List.find?_cons_of_pos hq, List.find?_cons_of_pos hq]
      · rw [List.find?_cons_of_neg hq, List.find?_cons_of_neg hq, ih]

/-! ## Weights -/

variable {M : Type*} [AddCommMonoid M] {w : α → M}

/-- The weights of all cells together. -/
def total (w : α → M) (A : Arena α) : M := (A.values.map w).sum

theorem total_alloc (A : Arena α) (v : α) : total w (A.alloc v) = total w A + w v := by
  rw [total, values_alloc, List.map_append, List.sum_append]
  simp [total]

theorem total_modify (h : A.get? a = some v) :
    total w (A.modify a f) + w v = total w A + w (f v) := by
  obtain ⟨pre, post, hbefore, hafter⟩ := values_modify (f := f) h
  rw [total, total, hbefore, hafter]
  simp only [List.map_append, List.map_cons, List.sum_append, List.sum_cons]
  abel

/-- A write that leaves the weight of the cell leaves the total. -/
theorem total_modify_of_eq (h : A.get? a = some v) (hw : w (f v) = w v) :
    total w (A.modify a f) = total w A := by
  obtain ⟨pre, post, hbefore, hafter⟩ := values_modify (f := f) h
  rw [total, total, hbefore, hafter, List.map_append, List.map_append, List.map_cons, List.map_cons,
    hw]

theorem total_freeFirst (h : A.find? p = some v) : total w (A.freeFirst p) + w v = total w A := by
  obtain ⟨hv, pre, post, hvalues, hpre⟩ := List.find?_eq_some_iff_append.mp h
  have hrest : A.values.eraseP p = pre ++ post := by
    rw [hvalues, List.eraseP_append_right _ (by simpa using hpre), List.eraseP_cons_of_pos hv]
  rw [total, total, values_freeFirst, hrest, hvalues]
  simp only [List.map_append, List.map_cons, List.sum_append, List.sum_cons]
  abel

end Arena

end CLang
