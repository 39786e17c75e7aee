import FcgiJwtAuth.CLang.Bytes

/-!
# Escaping text for HTML

`htmlEscape` writes the four special characters as character references and copies the other bytes.
The names of the references are a parameter. A markup character is one of the three that start or
end a tag or an attribute; an escaped text holds none of them.
-/

namespace CLang

/-- The characters that are written as references. -/
def isHtmlSpecial (b : Byte) : Bool :=
  b == ch '&' || b == ch '<' || b == ch '>' || b == ch '"'

/-- The characters that start or end a tag or an attribute. -/
def isMarkup (b : Byte) : Bool := b == ch '<' || b == ch '>' || b == ch '"'

/-- The markup characters of a text, in order. -/
def markup (text : Bytes) : Bytes := text.filter isMarkup

/-- One byte, as a reference `&name;` where it is special. -/
def htmlEscapeByte (name : Byte → Bytes) (b : Byte) : Bytes :=
  if isHtmlSpecial b then ch '&' :: (name b ++ [ch ';']) else [b]

/-- A text with its special characters as references. -/
def htmlEscape (name : Byte → Bytes) (text : Bytes) : Bytes := text.flatMap (htmlEscapeByte name)

/-- The usual names: `amp`, `lt`, `gt` and `quot`. -/
def htmlName (b : Byte) : Bytes :=
  if b = ch '&' then bytes "amp" else if b = ch '<' then bytes "lt"
  else if b = ch '>' then bytes "gt" else bytes "quot"

/-- The names of the references hold no `=` and no `;`. -/
def PlainNames (name : Byte → Bytes) : Prop :=
  ∀ b, isHtmlSpecial b → ch '=' ∉ name b ∧ ch ';' ∉ name b

theorem plainNames_htmlName : PlainNames htmlName := by
  intro b _
  unfold htmlName
  by_cases hamp : b = ch '&'
  · rw [if_pos hamp]
    decide
  by_cases hlt : b = ch '<'
  · rw [if_neg hamp, if_pos hlt]
    decide
  by_cases hgt : b = ch '>'
  · rw [if_neg hamp, if_neg hlt, if_pos hgt]
    decide
  · rw [if_neg hamp, if_neg hlt, if_neg hgt]
    decide

@[simp] theorem markup_nil : markup [] = [] := rfl

@[simp] theorem markup_append (a b : Bytes) : markup (a ++ b) = markup a ++ markup b :=
  List.filter_append a b

theorem not_special_of_all {text : Bytes} (h : text.all (!isHtmlSpecial ·) = true) :
    ∀ b ∈ text, isHtmlSpecial b = false := by
  intro b hb
  simpa using List.all_eq_true.mp h b hb

/-- A text without markup characters has no markup. -/
theorem markup_eq_nil_iff {text : Bytes} : markup text = [] ↔ ∀ b ∈ text, isMarkup b = false := by
  rw [markup, List.filter_eq_nil_iff]
  simp

/-- **An escaped text** has no markup, if the names of the references have none. -/
theorem markup_htmlEscape {name : Byte → Bytes}
    (hname : ∀ b, isHtmlSpecial b = true → markup (name b) = []) (text : Bytes) :
    markup (htmlEscape name text) = [] := by
  have hreference : markup [ch '&'] = [] ∧ markup [ch ';'] = [] := by decide
  have hbyte : ∀ b, markup (htmlEscapeByte name b) = [] := by
    intro b
    rw [htmlEscapeByte]
    by_cases hspecial : isHtmlSpecial b = true
    · rw [if_pos hspecial, ← List.singleton_append, markup_append, markup_append, hreference.1,
        hreference.2, hname b hspecial]
      rfl
    · have hplain : isMarkup b = false := by
        simp only [isHtmlSpecial, Bool.or_eq_true, not_or] at hspecial
        simp [isMarkup, hspecial]
      rw [if_neg hspecial, markup_eq_nil_iff, List.forall_mem_singleton]
      exact hplain
  induction text with
  | nil => rfl
  | cons b text ih =>
    rw [htmlEscape, List.flatMap_cons, markup_append, hbyte b, ← htmlEscape, ih]
    rfl

theorem markup_htmlName (b : Byte) : markup (htmlName b) = [] := by
  unfold htmlName
  split_ifs <;> decide

end CLang
