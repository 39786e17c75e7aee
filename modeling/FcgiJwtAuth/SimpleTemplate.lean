import FcgiJwtAuth.CLang.Pieces

/-!
# The template engine

`simpletemplate.hpp`. A template is rendered in one pass from left to right: text outside of
`<% … %>` is copied, a known variable is replaced by its value, and anything else is kept as it
stands. `rest` is the part of the template from `position` on.
-/

namespace FcgiJwtAuth

open CLang

/-- `TemplateEngine`. -/
structure TemplateEngine where
  mTemplate : Bytes
  mVariables : Bytes → Option Bytes := fun _ => none

/-- `SetVariable`. -/
def TemplateEngine.setVariable (t : TemplateEngine) (name value : Bytes) : TemplateEngine :=
  { t with mVariables := fun n => if n = name then some value else t.mVariables n }

/-- `find(pattern)`: where the pattern first occurs. -/
def findPattern (pattern : Bytes) : Bytes → Option ℕ
  | [] => if pattern = [] then some 0 else none
  | b :: rest =>
    if pattern.isPrefixOf (b :: rest) then some 0 else (findPattern pattern rest).map (· + 1)

/-- `IsWhitespace`. -/
def isWhitespace (c : Byte) : Bool := c = ch ' ' || c = ch '\t' || c = ch '\r' || c = ch '\n'

/-- `Trim`. -/
def trim (value : Bytes) : Bytes :=
  ((value.dropWhile isWhitespace).reverse.dropWhile isWhitespace).reverse

/-- A letter or an underscore. -/
def isNameStart (c : Byte) : Bool :=
  (ch 'A' ≤ c && c ≤ ch 'Z') || (ch 'a' ≤ c && c ≤ ch 'z') || c = ch '_'

/-- `IsValidVariableName`. -/
def isValidVariableName : Bytes → Bool
  | [] => false
  | first :: name => isNameStart first && name.all fun c =>
      isNameStart c || (ch '0' ≤ c && c ≤ ch '9')

/-- What stands for the expression `<%content%>`. -/
def TemplateEngine.expand (t : TemplateEngine) (leaveUnknown : Bool) (content : Bytes) : Bytes :=
  let original := bytes "<%" ++ content ++ bytes "%>"
  let variableName := trim content
  if isValidVariableName variableName then
    match t.mVariables variableName with
    | some value => value
    | none => if leaveUnknown then original else []
  else original

/-- The loop of `Render`. -/
def TemplateEngine.renderLoop (t : TemplateEngine) (leaveUnknown : Bool) (rest : Bytes) : Bytes :=
  if _h : rest = [] then []
  else
    match findPattern (bytes "<%") rest with
    | none => rest
    | some start =>
      match findPattern (bytes "%>") (rest.drop (start + 2)) with
      | none => rest.take start ++ rest.drop start
      | some len =>
        rest.take start ++ t.expand leaveUnknown ((rest.drop (start + 2)).take len) ++
          t.renderLoop leaveUnknown (rest.drop (start + 2 + len + 2))
termination_by rest.length
decreasing_by
  have := List.length_pos_of_ne_nil _h
  rw [List.length_drop]
  omega

/-- `Render`. -/
def TemplateEngine.render (t : TemplateEngine) (leaveUnknown : Bool) : Bytes :=
  t.renderLoop leaveUnknown t.mTemplate

/-! ## One variable -/

/-- The text around the uses of one variable, with the others replaced. -/
def TemplateEngine.piecesLoop (t : TemplateEngine) (leaveUnknown : Bool) (name rest : Bytes) :
    List Bytes :=
  if _h : rest = [] then [[]]
  else
    match findPattern (bytes "<%") rest with
    | none => [rest]
    | some start =>
      match findPattern (bytes "%>") (rest.drop (start + 2)) with
      | none => [rest.take start ++ rest.drop start]
      | some len =>
        let content := (rest.drop (start + 2)).take len
        let pieces := t.piecesLoop leaveUnknown name (rest.drop (start + 2 + len + 2))
        if trim content = name then rest.take start :: pieces
        else prependPiece (rest.take start ++ t.expand leaveUnknown content) pieces
termination_by rest.length
decreasing_by
  have := List.length_pos_of_ne_nil _h
  rw [List.length_drop]
  omega

section Pieces

variable {t : TemplateEngine} {leaveUnknown : Bool} {name : Bytes}

theorem TemplateEngine.piecesLoop_ne_nil (rest : Bytes) :
    t.piecesLoop leaveUnknown name rest ≠ [] := by
  unfold TemplateEngine.piecesLoop
  split_ifs
  · simp
  · cases findPattern (bytes "<%") rest with
    | none => simp
    | some start =>
      cases hlen : findPattern (bytes "%>") (rest.drop (start + 2)) with
      | none => simp [hlen]
      | some len =>
        simp only [hlen]
        split_ifs
        · simp
        · exact prependPiece_ne_nil _ _

/-- The variable itself, and any other expression. -/
theorem TemplateEngine.expand_setVariable (hname : isValidVariableName name = true)
    (value content : Bytes) :
    (t.setVariable name value).expand leaveUnknown content =
      if trim content = name then value else t.expand leaveUnknown content := by
  unfold TemplateEngine.expand TemplateEngine.setVariable
  by_cases heq : trim content = name
  · simp [heq, hname]
  · simp [heq]

/-- **A rendered template** is its pieces, with the value in between. -/
theorem TemplateEngine.renderLoop_setVariable (hname : isValidVariableName name = true)
    (value rest : Bytes) :
    (t.setVariable name value).renderLoop leaveUnknown rest =
      value.intercalate (t.piecesLoop leaveUnknown name rest) := by
  induction hn : rest.length using Nat.strong_induction_on generalizing rest with
  | _ n ih =>
    subst hn
    unfold TemplateEngine.renderLoop TemplateEngine.piecesLoop
    by_cases hnil : rest = []
    · rw [dif_pos hnil, dif_pos hnil, List.intercalate_singleton]
    · rw [dif_neg hnil, dif_neg hnil]
      cases findPattern (bytes "<%") rest with
      | none => simp
      | some start =>
        cases hlen : findPattern (bytes "%>") (rest.drop (start + 2)) with
        | none => simp [hlen]
        | some len =>
          have hshort : (rest.drop (start + 2 + len + 2)).length < rest.length := by
            have hpos := List.length_pos_of_ne_nil hnil
            rw [List.length_drop]
            omega
          have hrest := ih _ hshort (rest.drop (start + 2 + len + 2)) rfl
          simp only [hlen]
          rw [TemplateEngine.expand_setVariable hname, hrest]
          split_ifs
          · rw [List.intercalate_cons_of_ne_nil (TemplateEngine.piecesLoop_ne_nil _)]
          · rw [intercalate_prependPiece _ _ (TemplateEngine.piecesLoop_ne_nil _)]

end Pieces

end FcgiJwtAuth
