import FcgiJwtAuth.CLang.Delimited
import FcgiJwtAuth.SimpleTemplate

/-!
# Rendering in one pass

`Render` cuts the template at its delimiters, whatever the variables are, and puts something in the
place of each expression. A value that was put in is not looked at again.
-/

namespace FcgiJwtAuth

open CLang

/-! ## Finding -/

section Find

variable {p l t : Bytes}

theorem findPattern_of_misses (r : Bytes) (h : Misses p l p) :
    findPattern p (l ++ (p ++ r)) = some l.length := by
  induction l with
  | nil =>
    cases heq : p ++ r with
    | nil =>
      obtain ⟨rfl, -⟩ := List.append_eq_nil_iff.mp heq
      rfl
    | cons b rest =>
      rw [List.nil_append, findPattern, if_pos, List.length_nil]
      exact List.isPrefixOf_iff_prefix.mpr ⟨r, heq⟩
  | cons b l ih =>
    obtain ⟨hb, hl⟩ := misses_cons.mp (misses_self_append.mpr h)
    rw [List.cons_append, findPattern, if_neg (by simpa using hb),
      ih (misses_self_append.mp hl), Option.map_some, List.length_cons]

theorem findPattern_eq_none (h : ¬p <:+: t) : findPattern p t = none := by
  induction t with
  | nil => exact if_neg fun hp => h (by rw [hp])
  | cons b t ih =>
    obtain ⟨hb, ht⟩ := not_or.mp (List.infix_cons_iff.not.mp h)
    rw [findPattern, if_neg (by simpa using hb), ih ht, Option.map_none]

/-- What stands behind a delimiter. -/
theorem drop_delimiter (l r : Bytes) (hp : p.length = 2) :
    (l ++ (p ++ r)).drop (l.length + 2) = r := by
  rw [← List.drop_drop, List.drop_left, ← hp, List.drop_left]

theorem isInfix_trim (value : Bytes) : trim value <:+: value := by
  have hleft : value.dropWhile isWhitespace <:+ value := List.dropWhile_suffix _
  have hright := List.dropWhile_suffix isWhitespace (l := (value.dropWhile isWhitespace).reverse)
  have hpre : trim value <+: value.dropWhile isWhitespace := by
    rw [← List.reverse_reverse (value.dropWhile isWhitespace)]
    exact List.reverse_prefix.mpr hright
  exact hpre.isInfix.trans hleft.isInfix

end Find

/-! ## The pass -/

/-- The cut of a template. -/
abbrev Cut : Bytes → List (Bytes × Bytes) → Bytes → Prop := Delimited (bytes "<%") (bytes "%>")

section Pass

variable {t : TemplateEngine} {leaveUnknown : Bool} {rest tail : Bytes}
  {es : List (Bytes × Bytes)}

/-- **The loop** puts what stands for it in the place of each expression. -/
theorem TemplateEngine.renderLoop_of_cut (h : Cut rest es tail) :
    t.renderLoop leaveUnknown rest = fill (t.expand leaveUnknown) es tail := by
  induction h with
  | @tail rest hopen =>
    unfold TemplateEngine.renderLoop
    by_cases hnil : rest = []
    · rw [dif_pos hnil, fill_nil, hnil]
    · rw [dif_neg hnil, fill_nil]
      by_cases hstart : bytes "<%" <:+: rest
      · obtain ⟨l, r, rfl, hl⟩ := exists_first hstart
        have hend := findPattern_eq_none (hopen l r rfl)
        have hopening := drop_delimiter (p := bytes "<%") l r rfl
        simp only [findPattern_of_misses r hl, hopening, hend, List.take_append_drop]
      · rw [findPattern_eq_none hstart]
  | @expr l m rest tail es hopen hclose hrest ih =>
    have hopening := drop_delimiter (p := bytes "<%") l (m ++ (bytes "%>" ++ rest)) rfl
    have hclosing : (l ++ (bytes "<%" ++ (m ++ (bytes "%>" ++ rest)))).drop
        (l.length + 2 + m.length + 2) = rest := by
      rw [Nat.add_assoc, ← List.drop_drop, hopening, drop_delimiter m rest rfl]
    have hnil : l ++ (bytes "<%" ++ (m ++ (bytes "%>" ++ rest))) ≠ [] := by
      intro h
      cases (List.append_eq_nil_iff.mp (List.append_eq_nil_iff.mp h).2).1
    unfold TemplateEngine.renderLoop
    rw [dif_neg hnil]
    simp only [findPattern_of_misses _ hopen, hopening, findPattern_of_misses _ hclose, hclosing,
      List.take_left, ih, fill_cons, List.append_assoc]

end Pass

/-- What comes in the place of an expression: the value of a bound name, verbatim; the expression
itself, if the name is not valid, or not bound and unknown names are left; else nothing. -/
inductive Stands (mVariables : Bytes → Option Bytes) (leaveUnknown : Bool) (content : Bytes) :
    Bytes → Prop
  | bound {value : Bytes} (hvalid : isValidVariableName (trim content) = true)
      (hbound : mVariables (trim content) = some value) :
      Stands mVariables leaveUnknown content value
  | invalid (hinvalid : isValidVariableName (trim content) = false) :
      Stands mVariables leaveUnknown content (bytes "<%" ++ content ++ bytes "%>")
  | left (hunbound : mVariables (trim content) = none) (hleave : leaveUnknown = true) :
      Stands mVariables leaveUnknown content (bytes "<%" ++ content ++ bytes "%>")
  | dropped (hvalid : isValidVariableName (trim content) = true)
      (hunbound : mVariables (trim content) = none) (hdrop : leaveUnknown = false) :
      Stands mVariables leaveUnknown content []

section Expand

variable {t : TemplateEngine} {leaveUnknown : Bool} {content : Bytes}

theorem TemplateEngine.expand_of_valid (h : isValidVariableName (trim content) = true) :
    t.expand leaveUnknown content = (t.mVariables (trim content)).getD
      (if leaveUnknown then bytes "<%" ++ content ++ bytes "%>" else []) := by
  unfold TemplateEngine.expand
  rw [if_pos h]
  cases t.mVariables (trim content) <;> rfl

theorem TemplateEngine.expand_of_invalid (h : isValidVariableName (trim content) = false) :
    t.expand leaveUnknown content = bytes "<%" ++ content ++ bytes "%>" := by
  unfold TemplateEngine.expand
  rw [if_neg (by rw [h]; exact Bool.false_ne_true)]

theorem TemplateEngine.stands_expand (content : Bytes) :
    Stands t.mVariables leaveUnknown content (t.expand leaveUnknown content) := by
  cases hvalid : isValidVariableName (trim content) with
  | false =>
    rw [TemplateEngine.expand_of_invalid hvalid]
    exact .invalid hvalid
  | true =>
    rw [TemplateEngine.expand_of_valid hvalid]
    cases hbound : t.mVariables (trim content) with
    | some value => exact .bound hvalid hbound
    | none =>
      cases hleave : leaveUnknown with
      | true => exact .left hbound rfl
      | false => exact .dropped hvalid hbound rfl

/-- An expression whose name is not bound stays. -/
theorem TemplateEngine.expand_of_unbound (h : t.mVariables (trim content) = none) :
    t.expand true content = bytes "<%" ++ (content ++ bytes "%>") := by
  cases hvalid : isValidVariableName (trim content) with
  | false => rw [TemplateEngine.expand_of_invalid hvalid, List.append_assoc]
  | true =>
    rw [TemplateEngine.expand_of_valid hvalid, h, Option.getD_none, if_pos rfl, List.append_assoc]

end Expand

theorem exists_cut (t : Bytes) : ∃ es tail, Cut t es tail :=
  Delimited.exists (List.cons_ne_nil _ _) _ t

/-- **Rendering is one verbatim pass**: the cut is one of the template alone, and the text between
the expressions is copied. Where no bound name occurs, the template is copied as it is. -/
theorem render_single_pass (t : Bytes) :
    ∃ es tail, Cut t es tail ∧
      (∀ mVariables leaveUnknown, ∃ r : Bytes → Bytes,
        (∀ content, Stands mVariables leaveUnknown content (r content)) ∧
        (TemplateEngine.mk t mVariables).render leaveUnknown = fill r es tail) ∧
      ∀ mVariables : Bytes → Option Bytes,
        (∀ name value, mVariables name = some value → ¬name <:+: t) →
          (TemplateEngine.mk t mVariables).render true = t := by
  obtain ⟨es, tail, hcut⟩ := exists_cut t
  refine ⟨es, tail, hcut, ?_, ?_⟩
  · intro mVariables leaveUnknown
    exact ⟨(TemplateEngine.mk t mVariables).expand leaveUnknown,
      TemplateEngine.stands_expand (t := ⟨t, mVariables⟩),
      TemplateEngine.renderLoop_of_cut hcut⟩
  · intro mVariables hfree
    have hkept : ∀ e ∈ es, (TemplateEngine.mk t mVariables).expand true e.2 =
        bytes "<%" ++ (e.2 ++ bytes "%>") := by
      intro e he
      refine TemplateEngine.expand_of_unbound (Option.eq_none_iff_forall_ne_some.mpr ?_)
      intro value hbound
      have hcontent : e.2 <:+: bytes "<%" ++ (e.2 ++ bytes "%>") :=
        ⟨bytes "<%", bytes "%>", by simp⟩
      have hmark := hcontent.trans (hcut.infix_of_mem e he)
      exact hfree _ value hbound ((isInfix_trim e.2).trans hmark)
    calc (TemplateEngine.mk t mVariables).render true
        = fill ((TemplateEngine.mk t mVariables).expand true) es tail :=
          TemplateEngine.renderLoop_of_cut hcut
      _ = fill (fun m => bytes "<%" ++ (m ++ bytes "%>")) es tail := fill_congr hkept
      _ = t := hcut.fill_self

end FcgiJwtAuth
