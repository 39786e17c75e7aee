import FcgiJwtAuth.CLang.CString

/-!
# Attributes of a header value

`findAttributeValue` is `find_attribute_value` of `contentdisposition.c`, over the scanner
`qsp_append_to_dynstring` of `quotedstringparser.c`. A position in the header is the text from there
to the terminator, so that `pos += consumed` drops characters from it.
-/

namespace FcgiJwtAuth.FormDecoder

open CLang

/-- The `QSP_STATE_…` values. -/
inductive QspState
  | outsideQuotes
  | inQuotes
  | escape
deriving DecidableEq

/-- The loop of `qsp_append_to_dynstring`: the characters appended, and how many were consumed. -/
def qspLoop (delim : Bytes) : QspState → Bytes → Bytes × ℕ
  | _, [] => ([], 0)
  | state, c :: rest =>
    let append (state : QspState) : Bytes × ℕ :=
      let r := qspLoop delim state rest
      (c :: r.1, r.2 + 1)
    let skip (state : QspState) : Bytes × ℕ :=
      let r := qspLoop delim state rest
      (r.1, r.2 + 1)
    -- a quote is looked at first, so an escaped one opens or closes too and is not appended
    if c = ch '"' then
      if state = .inQuotes then skip .outsideQuotes else skip .inQuotes
    else
      match state with
      | .inQuotes => if c = ch '\\' then skip .escape else append .inQuotes
      | .escape => append .inQuotes
      | .outsideQuotes => if c ∈ delim ∨ c = 0 then ([], 0) else append .outsideQuotes

/-- `qsp_append_to_dynstring` on an empty dynstring and everything up to the terminator. -/
def qspAppendToDynstring (buf delim : Bytes) : Bytes × ℕ := qspLoop delim .outsideQuotes buf

/-- `my_isspace`. -/
def myIsspace (b : Byte) : Bool := b ∈ bytes "\t \r\n"

/-- `if (*pos == '=')`: the value read, and the text from `pos` after it. -/
def readValue : Bytes → Bytes × Bytes
  | [] => ([], [])
  | c :: rest =>
    if c = ch '=' then
      let value := qspAppendToDynstring rest (bytes ";")
      (value.1, rest.drop value.2)
    else ([], c :: rest)

/-- What one turn of `find_attribute_value` reads: `fld_name`, `fld_value`, and the text from `pos`
where it stops. -/
structure Attribute where
  name : Bytes
  value : Bytes
  pos : Bytes

/-- One turn of `find_attribute_value`, up to the comparison. -/
def readAttribute (hdr : Bytes) : Attribute :=
  let pos := hdr.dropWhile myIsspace
  let name := qspAppendToDynstring pos (bytes ";=")
  let value := readValue (pos.drop name.2)
  ⟨name.1, value.1, value.2⟩

theorem length_readValue_le (pos : Bytes) : (readValue pos).2.length ≤ pos.length := by
  cases pos with
  | nil => exact Nat.le_refl _
  | cons c rest =>
    by_cases hc : c = ch '='
    · rw [readValue, if_pos hc]
      exact (List.drop_suffix _ rest).length_le.trans (Nat.le_succ _)
    · rw [readValue, if_neg hc]

/-- A turn does not move backwards. -/
theorem length_readAttribute_le (hdr : Bytes) : (readAttribute hdr).pos.length ≤ hdr.length :=
  calc (readAttribute hdr).pos.length
    _ ≤ ((hdr.dropWhile myIsspace).drop _).length := length_readValue_le _
    _ ≤ (hdr.dropWhile myIsspace).length := (List.drop_suffix _ _).length_le
    _ ≤ hdr.length := (List.dropWhile_suffix _).length_le

/-- `find_attribute_value`, from `try_again:` on. The name read is compared over its own length. -/
def findAttributeValue (hdr : Bytes) (attrib : CStr) : Option CStr :=
  let fld := readAttribute hdr
  if strncmp fld.name.length attrib.val fld.name = 0 then some (CStr.ofBytes fld.value)
  else if fld.pos = [] then none
  else findAttributeValue fld.pos.tail attrib
termination_by hdr.length
decreasing_by
  rename_i hpos
  have hlt : fld.pos.tail.length < fld.pos.length := by
    rw [List.length_tail]
    exact Nat.sub_lt (List.length_pos_iff.mpr hpos) Nat.one_pos
  exact hlt.trans_le (length_readAttribute_le hdr)

/-- `contentdisposition_getname`. -/
def contentdispositionGetname (hdr : CStr) : Option CStr :=
  findAttributeValue hdr.val (CStr.lit "name")

/-- `contentdisposition_getfilename`. -/
def contentdispositionGetfilename (hdr : CStr) : Option CStr :=
  findAttributeValue hdr.val (CStr.lit "filename")

/-! ## One turn at a time -/

variable {hdr : Bytes} {attrib : CStr} {fld : Attribute}

theorem findAttributeValue_of_match (hread : readAttribute hdr = fld)
    (hname : strncmp fld.name.length attrib.val fld.name = 0) :
    findAttributeValue hdr attrib = some (CStr.ofBytes fld.value) := by
  rw [findAttributeValue, hread]
  exact if_pos hname

theorem findAttributeValue_of_next (hread : readAttribute hdr = fld)
    (hname : strncmp fld.name.length attrib.val fld.name ≠ 0) (hpos : fld.pos ≠ []) :
    findAttributeValue hdr attrib = findAttributeValue fld.pos.tail attrib := by
  rw [findAttributeValue, hread]
  show (if _ then _ else _) = _
  rw [if_neg hname, if_neg hpos]

theorem findAttributeValue_of_end (hread : readAttribute hdr = fld)
    (hname : strncmp fld.name.length attrib.val fld.name ≠ 0) (hpos : fld.pos = []) :
    findAttributeValue hdr attrib = none := by
  rw [findAttributeValue, hread]
  show (if _ then _ else _) = _
  rw [if_neg hname, if_pos hpos]

end FcgiJwtAuth.FormDecoder
