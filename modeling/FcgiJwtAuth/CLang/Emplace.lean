import Mathlib.Data.List.Basic
import Mathlib.Logic.Function.Basic

/-!
# Insertion that keeps what is there

A map into which pairs are put one after the other with `try_emplace`: a key that is present keeps
its value. So of several pairs with one key the first counts, and none of them if the map had the
key before (`emplaceAll_apply`); the laws of loading a list follow from that.
-/

namespace CLang

variable {κ ν : Type*} [DecidableEq κ]

/-- `m.try_emplace(k, v)`. -/
def tryInsert (m : κ → Option ν) (k : κ) (v : ν) : κ → Option ν :=
  match m k with
  | some _ => m
  | none => Function.update m k (some v)

/-- All pairs of a list, in order. -/
def emplaceAll (m : κ → Option ν) (pairs : List (κ × ν)) : κ → Option ν :=
  pairs.foldl (fun m p => tryInsert m p.1 p.2) m

variable {m : κ → Option ν} {pairs : List (κ × ν)} {k : κ} {v : ν}

theorem tryInsert_of_mem (h : m k ≠ none) : tryInsert m k v = m := by
  obtain ⟨w, hw⟩ := Option.ne_none_iff_exists'.mp h
  simp only [tryInsert, hw]

theorem tryInsert_of_none (h : m k = none) : tryInsert m k v = Function.update m k (some v) := by
  simp only [tryInsert, h]

/-- What a key has after one insertion. -/
theorem tryInsert_apply (m : κ → Option ν) (k : κ) (v : ν) (k' : κ) :
    tryInsert m k v k' = (m k').or (if k' = k then some v else none) := by
  by_cases h : m k = none
  · rw [tryInsert_of_none h]
    by_cases hk : k' = k
    · subst hk
      rw [Function.update_self, h, if_pos rfl, Option.none_or]
    · rw [Function.update_of_ne hk, if_neg hk, Option.or_none]
  · rw [tryInsert_of_mem h]
    by_cases hk : k' = k
    · subst hk
      obtain ⟨w, hw⟩ := Option.ne_none_iff_exists'.mp h
      rw [hw, Option.some_or]
    · rw [if_neg hk, Option.or_none]

@[simp] theorem emplaceAll_nil (m : κ → Option ν) : emplaceAll m [] = m := rfl

@[simp] theorem emplaceAll_cons (m : κ → Option ν) (p : κ × ν) (pairs : List (κ × ν)) :
    emplaceAll m (p :: pairs) = emplaceAll (tryInsert m p.1 p.2) pairs := rfl

section Lookup

variable [BEq κ] [LawfulBEq κ]

/-- **The first pair wins**, unless the key was there. -/
theorem emplaceAll_apply (m : κ → Option ν) (pairs : List (κ × ν)) (k : κ) :
    emplaceAll m pairs k = (m k).or (pairs.lookup k) := by
  induction pairs generalizing m with
  | nil => rw [emplaceAll_nil, List.lookup_nil, Option.or_none]
  | cons p pairs ih =>
    rw [emplaceAll_cons, ih, tryInsert_apply, Option.or_assoc, List.lookup_cons]
    by_cases hk : k = p.1
    · simp [hk]
    · have hne : (k == p.1) = false := beq_eq_false_iff_ne.mpr hk
      simp only [hne, if_neg hk, Option.none_or]

/-- What was there stays. -/
theorem emplaceAll_of_some (h : m k = some v) (pairs : List (κ × ν)) :
    emplaceAll m pairs k = some v := by
  rw [emplaceAll_apply, h, Option.some_or]

theorem emplaceAll_of_none (h : m k = none) (pairs : List (κ × ν)) :
    emplaceAll m pairs k = pairs.lookup k := by
  rw [emplaceAll_apply, h, Option.none_or]

/-- What a key has was there, or is in the list. -/
theorem of_emplaceAll_eq_some (h : emplaceAll m pairs k = some v) :
    m k = some v ∨ (k, v) ∈ pairs := by
  cases hold : m k with
  | some w => exact Or.inl ((emplaceAll_of_some hold pairs).symm.trans h)
  | none =>
    rw [emplaceAll_of_none hold] at h
    obtain ⟨front, rest, rfl, -⟩ := List.lookup_eq_some_iff.mp h
    exact Or.inr (List.mem_append_right _ List.mem_cons_self)

/-- A key that is in the list has a value afterwards. -/
theorem exists_emplaceAll_eq_some (m : κ → Option ν) (h : (k, v) ∈ pairs) :
    ∃ w, emplaceAll m pairs k = some w := by
  refine Option.ne_none_iff_exists'.mp ?_
  rw [emplaceAll_apply]
  intro hnone
  have hlookup := List.lookup_eq_none_iff.mp (Option.or_eq_none_iff.mp hnone).2 _ h
  simp at hlookup

end Lookup

theorem emplaceAll_append (m : κ → Option ν) (pairs pairs' : List (κ × ν)) :
    emplaceAll m (pairs ++ pairs') = emplaceAll (emplaceAll m pairs) pairs' :=
  List.foldl_append

/-- A second time adds nothing. -/
theorem emplaceAll_idem (m : κ → Option ν) (pairs : List (κ × ν)) :
    emplaceAll (emplaceAll m pairs) pairs = emplaceAll m pairs := by
  funext k
  rw [emplaceAll_apply, emplaceAll_apply, Option.or_assoc, Option.or_self]

/-- A list adds nothing exactly when each of its keys is there. -/
theorem emplaceAll_eq_self_iff : emplaceAll m pairs = m ↔ ∀ p ∈ pairs, m p.1 ≠ none := by
  constructor
  · intro h p hp hnone
    have hlookup : pairs.lookup p.1 = none := by
      rw [← emplaceAll_of_none hnone pairs, h, hnone]
    have hne := List.lookup_eq_none_iff.mp hlookup p hp
    simp at hne
  · intro h
    induction pairs with
    | nil => rfl
    | cons p pairs ih =>
      rw [emplaceAll_cons, tryInsert_of_mem (h p List.mem_cons_self)]
      exact ih fun q hq => h q (List.mem_cons_of_mem _ hq)

end CLang
