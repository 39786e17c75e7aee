import Mathlib.Data.List.Nodup
import FcgiJwtAuth.HTTPUtils.Cookies

/-!
# Looking a cookie up by its index

`HTTPUtils_get_cookie` takes the number of entries of the name to pass over. A match that is to be
passed over is tested again and not moved behind, so that the number runs down on the first entry of
the name, which is returned whatever the number was.
-/

namespace FcgiJwtAuth.HTTPUtils

open CLang

/-- The value pointers of the entries of a name, in array order. -/
def valuesOf (buf name : Bytes) (array : List Cookie) : List ℕ :=
  array.filterMap fun
    | .entry n v => if cstr buf n = name then some v else none
    | .null => none

/-- The lookup returns the entry of the name with this index, and NULL behind the last one. -/
def IndexedLookup (c : Cookies) (name : Bytes) (idx : ℕ) : Prop :=
  getCookieLoop c.header name c.array idx = (valuesOf c.header name c.array)[idx]?

section Entries

variable {buf name : Bytes} {entries : List (ℕ × ℕ)}

theorem valuesOf_cons (e : ℕ × ℕ) (cookies : List Cookie) :
    valuesOf buf name (.entry e.1 e.2 :: cookies) =
      if cstr buf e.1 = name then e.2 :: valuesOf buf name cookies
      else valuesOf buf name cookies := by
  unfold valuesOf
  rw [List.filterMap_cons]
  by_cases hname : cstr buf e.1 = name
  · simp only [if_pos hname]
  · simp only [if_neg hname]

/-- They are the value pointers of some of the entries. -/
theorem valuesOf_sublist :
    (valuesOf buf name (entries.map (fun e => .entry e.1 e.2) ++ [.null])).Sublist
      (entries.map Prod.snd) := by
  induction entries with
  | nil => exact List.Sublist.refl _
  | cons e entries ih =>
    rw [List.map_cons, List.cons_append, valuesOf_cons, List.map_cons]
    split_ifs
    · exact ih.cons_cons e.2
    · exact ih.cons e.2

/-- The loop answers the first of them, whatever the index. -/
theorem getCookieLoop_eq_head? (idx : ℕ) :
    getCookieLoop buf name (entries.map (fun e => .entry e.1 e.2) ++ [.null]) idx =
      (valuesOf buf name (entries.map (fun e => .entry e.1 e.2) ++ [.null])).head? := by
  induction entries with
  | nil => rfl
  | cons e entries ih =>
    rw [List.map_cons, List.cons_append, valuesOf_cons, getCookieLoop, getCookieRetry_eq, strEq]
    by_cases hname : cstr buf e.1 = name
    · rw [if_pos hname, if_pos (decide_eq_true hname), List.head?_cons]
    · rw [if_neg hname, if_neg (by simpa using hname), ih]

end Entries

/-- Each value that is stored starts behind the one before. -/
theorem parseLoop_increasing (n : ℕ) (buf : Bytes) (p : ℕ) :
    (p :: (parseLoop n buf p).2.map Prod.snd).Pairwise (· < ·) := by
  induction n generalizing buf p with
  | zero => exact List.pairwise_singleton _ p
  | succ n ih =>
    rw [parseLoop]
    by_cases hend : buf.getD p 0 = 0
    · rw [if_pos hend]
      exact List.pairwise_singleton _ p
    · rw [if_neg hend]
      cases heq : strchr buf (skipBlanks buf p) (ch '=') with
      | none =>
        simp only [heq]
        exact List.pairwise_singleton _ p
      | some eq =>
        have hval : p < eq + 1 := by
          have hname : p ≤ skipBlanks buf p := Nat.le_add_right _ _
          have hle := le_of_strchr heq
          omega
        -- a turn that goes on from `next` stores the value in front of it
        have hturn : ∀ {buf' : Bytes} {next : ℕ}, eq + 1 ≤ next →
            (p :: (eq + 1) :: (parseLoop n buf' next).2.map Prod.snd).Pairwise (· < ·) := by
          intro buf' next hnext
          have hrest := List.pairwise_cons.mp (ih buf' next)
          have hbehind : ∀ v ∈ (parseLoop n buf' next).2.map Prod.snd, eq + 1 < v :=
            fun v hv => hnext.trans_lt (hrest.1 v hv)
          refine List.pairwise_cons.mpr ⟨?_, List.pairwise_cons.mpr ⟨hbehind, hrest.2⟩⟩
          intro v hv
          rcases List.mem_cons.mp hv with rfl | hv
          · exact hval
          · exact hval.trans (hbehind v hv)
        cases hsemi : strchr (poke buf eq 0) (eq + 1) (ch ';') with
        | none =>
          simp only [heq, hsemi]
          exact hturn (Nat.le_add_right _ _)
        | some semi =>
          simp only [heq, hsemi]
          exact hturn ((le_of_strchr hsemi).trans (Nat.le_succ _))

/-- No value of a parsed header is found twice. -/
theorem nodup_valuesOf {h : CStr} {c : Cookies} (hparse : parseCookies (some h) = some c)
    (name : Bytes) : (valuesOf c.header name c.array).Nodup := by
  obtain rfl := Option.some.inj hparse
  have hvalues := (List.pairwise_cons.mp
    (parseLoop_increasing (countSegments (h.val ++ [0])) (h.val ++ [0]) 0)).2
  exact (hvalues.imp Nat.ne_of_lt).sublist valuesOf_sublist

/-- **The indexed lookup** is right for the first entry of a name, and for a name that has none. -/
theorem indexedLookup_iff {h : CStr} {c : Cookies} (hparse : parseCookies (some h) = some c)
    (name : Bytes) (idx : ℕ) :
    IndexedLookup c name idx ↔ idx = 0 ∨ valuesOf c.header name c.array = [] := by
  have hnodup := nodup_valuesOf hparse name
  obtain rfl := Option.some.inj hparse
  unfold IndexedLookup
  rw [getCookieLoop_eq_head?, List.head?_eq_getElem?]
  constructor
  · intro heq
    by_contra hnot
    push Not at hnot
    obtain ⟨hidx, hne⟩ := hnot
    have hsome : _ := List.getElem?_eq_getElem (List.length_pos_iff.mpr hne)
    have hlt := (List.getElem?_eq_some_iff.mp (heq.symm.trans hsome)).1
    exact List.nodup_iff_getElem?_ne_getElem?.mp hnodup 0 idx (Nat.pos_of_ne_zero hidx) hlt heq
  · rintro (rfl | hnil)
    · rfl
    · rw [hnil, List.getElem?_nil, List.getElem?_nil]

/-- The array of a header with one name twice. -/
def twice : Cookies where
  header := bytes "a" ++ [0] ++ bytes "1" ++ [0] ++ bytes " a" ++ [0] ++ bytes "2" ++ [0]
  array := [.entry 0 2, .entry 5 7, .null]

theorem parseCookies_twice : parseCookies (some (CStr.lit "a=1; a=2")) = some twice := rfl

/-- The first entry of the name is found. -/
theorem indexedLookup_first : IndexedLookup twice (bytes "a") 0 :=
  (indexedLookup_iff parseCookies_twice (bytes "a") 0).mpr (.inl rfl)

/-- The second one is not. -/
theorem not_indexedLookup_second :
    ¬ ∀ (h : CStr) (c : Cookies), parseCookies (some h) = some c →
      ∀ name idx, IndexedLookup c name idx := by
  intro h
  have hsecond := h _ _ parseCookies_twice (bytes "a") 1
  revert hsecond
  unfold IndexedLookup
  decide

end FcgiJwtAuth.HTTPUtils
