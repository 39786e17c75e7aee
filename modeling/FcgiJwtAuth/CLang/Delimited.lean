import Mathlib.Data.List.Infix
import Mathlib.Tactic.Common

/-!
# Delimited texts

A text with expressions between an opening and a closing delimiter is cut from left to right: an
expression starts where the opening delimiter first occurs, and ends with the first closing
delimiter behind it. Every text is cut in one way, and expressions that are replaced by inert
values leave the cut of the others as it is.
-/

namespace CLang

variable {α : Type*}

/-! ## First occurrences -/

/-- With `r` behind `a`, no occurrence of `p` starts inside of `a`. -/
def Misses (p a r : List α) : Prop := ∀ b, b <:+ a → b ≠ [] → ¬p <+: b ++ r

section Misses

variable {p a b r s : List α}

@[simp] theorem misses_nil : Misses p [] r := fun _ hb hne => absurd (List.suffix_nil.mp hb) hne

theorem misses_cons {x : α} :
    Misses p (x :: a) r ↔ ¬p <+: x :: (a ++ r) ∧ Misses p a r := by
  constructor
  · intro h
    exact ⟨h (x :: a) List.suffix_rfl (List.cons_ne_nil x a),
      fun b hb => h b (hb.trans (List.suffix_cons x a))⟩
  · rintro ⟨hx, ha⟩ b hb hne
    rcases List.suffix_cons_iff.mp hb with rfl | hb
    · exact hx
    · exact ha b hb hne

theorem misses_append : Misses p (a ++ b) r ↔ Misses p a (b ++ r) ∧ Misses p b r := by
  induction a with
  | nil => simp
  | cons x a ih => rw [List.cons_append, misses_cons, misses_cons, ih, List.append_assoc, and_assoc]

/-- In front of an occurrence, what stands behind that occurrence does not matter. -/
theorem misses_self_append : Misses p a (p ++ r) ↔ Misses p a p := by
  refine forall_congr' fun b => forall_congr' fun _ => forall_congr' fun _ => not_congr ?_
  rw [← List.append_assoc]
  constructor
  · intro h
    refine List.prefix_of_prefix_length_le h (List.prefix_append (b ++ p) r) ?_
    rw [List.length_append]
    exact Nat.le_add_left _ _
  · exact fun h => h.trans (List.prefix_append (b ++ p) r)

/-- An occurrence starts behind what misses it. -/
theorem Misses.split (h : Misses p a r) {l : List α} (heq : a ++ r = l ++ (p ++ s)) :
    ∃ k, l = a ++ k ∧ r = k ++ (p ++ s) := by
  rcases List.append_eq_append_iff.mp heq with ⟨k, hl, hr⟩ | ⟨b, ha, hr⟩
  · exact ⟨k, hl, hr⟩
  · rcases eq_or_ne b [] with rfl | hne
    · exact ⟨[], by simpa using ha.symm, by simpa using hr.symm⟩
    · exact absurd ⟨s, hr⟩ (h b ⟨l, ha.symm⟩ hne)

/-- Whatever occurs has a first occurrence. -/
theorem exists_first {t : List α} (h : p <:+: t) : ∃ l r, t = l ++ (p ++ r) ∧ Misses p l p := by
  induction t with
  | nil =>
    obtain rfl := List.infix_nil.mp h
    exact ⟨[], [], rfl, misses_nil⟩
  | cons x t ih =>
    by_cases hpre : p <+: x :: t
    · obtain ⟨r, hr⟩ := hpre
      exact ⟨[], r, hr.symm, misses_nil⟩
    · obtain ⟨l, r, rfl, hl⟩ := ih ((List.infix_cons_iff.mp h).resolve_left hpre)
      have hxl : Misses p (x :: l) (p ++ r) := misses_cons.mpr ⟨hpre, misses_self_append.mpr hl⟩
      exact ⟨x :: l, r, rfl, misses_self_append.mp hxl⟩

end Misses

/-! ## The expressions of a text -/

/-- A text, its expressions (the literal in front and the content), and the literal at the end. -/
inductive Delimited (o c : List α) : List α → List (List α × List α) → List α → Prop
  | tail {t : List α} (hopen : ∀ l r, t = l ++ (o ++ r) → ¬c <:+: r) : Delimited o c t [] t
  | expr {l m rest tail : List α} {es : List (List α × List α)} (hopen : Misses o l o)
      (hclose : Misses c m c) (hrest : Delimited o c rest es tail) :
      Delimited o c (l ++ (o ++ (m ++ (c ++ rest)))) ((l, m) :: es) tail

/-- The text with something in the place of each expression. -/
def fill (f : List α → List α) (es : List (List α × List α)) (tail : List α) : List α :=
  es.flatMap (fun e => e.1 ++ f e.2) ++ tail

section Fill

variable {f g : List α → List α} {es : List (List α × List α)} {tail : List α}

@[simp] theorem fill_nil : fill f [] tail = tail := rfl

@[simp] theorem fill_cons (e : List α × List α) :
    fill f (e :: es) tail = e.1 ++ (f e.2 ++ fill f es tail) := by
  simp [fill]

theorem fill_congr (h : ∀ e ∈ es, f e.2 = g e.2) : fill f es tail = fill g es tail := by
  induction es with
  | nil => rfl
  | cons e es ih =>
    rw [fill_cons, fill_cons, h e List.mem_cons_self,
      ih fun d hd => h d (List.mem_cons_of_mem e hd)]

end Fill

section Delimited

variable {o c t tail : List α} {es : List (List α × List α)}

/-- The expressions themselves in their places are the text. -/
theorem Delimited.fill_self (h : Delimited o c t es tail) :
    fill (fun m => o ++ (m ++ c)) es tail = t := by
  induction h with
  | tail _ => rfl
  | expr _ _ _ ih => rw [fill_cons, ih, List.append_assoc, List.append_assoc]

theorem Delimited.infix_of_mem (h : Delimited o c t es tail) :
    ∀ e ∈ es, o ++ (e.2 ++ c) <:+: t := by
  induction h with
  | tail _ => exact fun e he => absurd he List.not_mem_nil
  | @expr l m rest _ _ _ _ _ ih =>
    intro e he
    rcases List.mem_cons.mp he with rfl | he
    · exact ⟨l, rest, by simp⟩
    · exact (ih e he).trans ⟨l ++ (o ++ (m ++ c)), [], by simp⟩

/-- **Every text is delimited.** -/
theorem Delimited.exists (ho : o ≠ []) (c t : List α) : ∃ es tail, Delimited o c t es tail := by
  induction hn : t.length using Nat.strong_induction_on generalizing t with
  | _ n ih =>
    subst hn
    by_cases hopen : ∀ l r, t = l ++ (o ++ r) → ¬c <:+: r
    · exact ⟨[], t, .tail hopen⟩
    · push Not at hopen
      obtain ⟨l', r', ht, hc⟩ := hopen
      have hoccurs : o <:+: t := ⟨l', r', by rw [ht, List.append_assoc]⟩
      obtain ⟨l, r, rfl, hl⟩ := exists_first hoccurs
      -- the first opening delimiter is not behind the one that is closed
      obtain ⟨k, -, hk⟩ := (misses_self_append.mpr hl).split ht
      have hbehind : r' <:+ r := by
        have hlen := congrArg List.length hk
        simp only [List.length_append] at hlen
        refine List.suffix_of_suffix_length_le ?_ (List.suffix_append o r) (by omega)
        exact hk ▸ (List.suffix_append o r').trans (List.suffix_append k (o ++ r'))
      have hclosed : c <:+: r := hc.trans hbehind.isInfix
      obtain ⟨m, rest, rfl, hm⟩ := exists_first hclosed
      have hshort : rest.length < (l ++ (o ++ (m ++ (c ++ rest)))).length := by
        have := List.length_pos_of_ne_nil ho
        simp only [List.length_append]
        omega
      obtain ⟨es, tail, hrest⟩ := ih _ hshort rest rfl
      exact ⟨(l, m) :: es, tail, .expr hl hm hrest⟩

end Delimited

/-! ## Inert values -/

/-- A value that neither has an opening delimiter nor forms one with what stands around it. -/
structure Inert (o v : List α) : Prop where
  misses : ∀ r, Misses o v r
  front : ∀ l r, Misses o l o → Misses o l (v ++ r)

section Pair

variable {x y : α} {b r v : List α}

/-- An opening delimiter of two characters that starts in a text ends in it too, unless it starts
with the last character. -/
theorem pair_prefix_append (hne : b ≠ []) (h : [x, y] <+: b ++ r) :
    [x, y] <+: b ∨ b = [x] ∧ r.head? = some y := by
  match b, hne with
  | [z], _ =>
    obtain ⟨rfl, hr⟩ := List.cons_prefix_cons.mp h
    obtain ⟨s, rfl⟩ := hr
    exact .inr ⟨rfl, rfl⟩
  | z :: z' :: b, _ =>
    obtain ⟨rfl, hr⟩ := List.cons_prefix_cons.mp h
    obtain ⟨rfl, -⟩ := List.cons_prefix_cons.mp hr
    exact .inl ⟨b, rfl⟩

theorem inert_pair (hne : v ≠ []) (hoccurs : ¬[x, y] <:+: v) (hhead : v.head? ≠ some y)
    (hlast : v.getLast? ≠ some x) : Inert [x, y] v where
  misses := by
    intro r b hb hbne hpre
    rcases pair_prefix_append hbne hpre with hin | ⟨rfl, -⟩
    · exact hoccurs (hin.isInfix.trans hb.isInfix)
    · obtain ⟨a, rfl⟩ := hb
      exact hlast List.getLast?_concat
  front := by
    intro l r hl b hb hbne hpre
    rcases pair_prefix_append hbne hpre with hin | ⟨rfl, hy⟩
    · exact hl b hb hbne (hin.trans (List.prefix_append b _))
    · rw [List.head?_append_of_ne_nil v hne] at hy
      exact hhead hy

end Pair

/-- **Replacing expressions** by inert values leaves the others, and only these. -/
theorem Delimited.substitute {o c t tail : List α} {es : List (List α × List α)}
    (h : Delimited o c t es tail) {f : List α → Option (List α)}
    (hf : ∀ m v, f m = some v → Inert o v) {pre : List α} (hpre : ∀ r, Misses o pre r) :
    ∃ es' tail',
      Delimited o c (pre ++ fill (fun m => (f m).getD (o ++ (m ++ c))) es tail) es' tail' ∧
      ∀ g : List α → List α,
        fill g es' tail' = pre ++ fill (fun m => (f m).getD (g m)) es tail := by
  induction h generalizing pre with
  | @tail t hopen =>
    refine ⟨[], pre ++ t, .tail ?_, fun _ => rfl⟩
    intro l r heq
    obtain ⟨k, -, hk⟩ := (hpre t).split heq
    exact hopen k r hk
  | @expr l m rest tail es hopen hclose hrest ih =>
    cases hm : f m with
    | some v =>
      have hv := hf m v hm
      -- the value becomes a part of the literal in front of the next expression
      have hnext : ∀ r, Misses o (pre ++ (l ++ v)) r := fun r =>
        misses_append.mpr ⟨hpre _, misses_append.mpr ⟨hv.front l r hopen, hv.misses r⟩⟩
      obtain ⟨es', tail', hdel, hfill⟩ := ih hnext
      refine ⟨es', tail', ?_, ?_⟩
      · simpa [hm] using hdel
      · intro g
        rw [hfill g]
        simp [hm]
    | none =>
      obtain ⟨es', tail', hdel, hfill⟩ := ih fun r => (misses_nil : Misses o [] r)
      refine ⟨(pre ++ l, m) :: es', tail', ?_, ?_⟩
      · have hkept := Delimited.expr (misses_append.mpr ⟨hpre _, hopen⟩) hclose hdel
        simpa [hm] using hkept
      · intro g
        rw [fill_cons, hfill g]
        simp [hm]

end CLang
