import FcgiJwtAuth.FormDecoder.QuotedText
import FcgiJwtAuth.FormDecoder.Reassembly

/-!
# Names of attributes and headers

`find_attribute_value` compares the wanted name over the length of the name it has read, and the
callback compares a header name over its own length. A shorter name that the wanted one starts with
therefore matches as well, and so does the empty name of an empty attribute.
-/

namespace FcgiJwtAuth.FormDecoder

open CLang

/-! ## The attributes of a header value -/

/-- All that `find_attribute_value` reads of a header, up to its end. -/
def attributes (hdr : Bytes) : List Attribute :=
  let fld := readAttribute hdr
  if fld.pos = [] then [fld] else fld :: attributes fld.pos.tail
termination_by hdr.length
decreasing_by
  rename_i hpos
  have hlt : fld.pos.tail.length < fld.pos.length := by
    rw [List.length_tail]
    exact Nat.sub_lt (List.length_pos_iff.mpr hpos) Nat.one_pos
  exact hlt.trans_le (length_readAttribute_le hdr)

/-- The lookup answers the value of the first attribute with exactly this name. -/
def ExactAttribute (hdr attrib : CStr) : Prop :=
  findAttributeValue hdr.val attrib =
    ((attributes hdr.val).find? (·.name = attrib.val)).map fun fld => CStr.ofBytes fld.value

/-- The first attribute that the wanted name starts with tells the value of the wanted one. -/
def PrefixesAgree (hdr attrib : CStr) : Prop :=
  ∀ fld, (attributes hdr.val).find? (·.name.isPrefixOf attrib.val) = some fld →
    ∃ named, (attributes hdr.val).find? (·.name = attrib.val) = some named ∧
      CStr.ofBytes named.value = CStr.ofBytes fld.value

section Lookup

variable {hdr : Bytes} {attrib : CStr} {fld : Attribute}

theorem attributes_of_next (hread : readAttribute hdr = fld) (hpos : fld.pos ≠ []) :
    attributes hdr = fld :: attributes fld.pos.tail := by
  rw [attributes, hread]
  exact if_neg hpos

theorem attributes_of_end (hread : readAttribute hdr = fld) (hpos : fld.pos = []) :
    attributes hdr = [fld] := by
  rw [attributes, hread]
  exact if_pos hpos

theorem mem_of_mem_qspLoop {delim : Bytes} {state : QspState} {buf : Bytes} {b : Byte}
    (h : b ∈ (qspLoop delim state buf).1) : b ∈ buf := by
  induction buf generalizing state with
  | nil => cases state <;> cases h
  | cons c rest ih =>
    have hrest : ∀ state, b ∈ (qspLoop delim state rest).1 → b ∈ c :: rest :=
      fun _ hb => List.mem_cons_of_mem c (ih hb)
    have happend : ∀ state, b ∈ c :: (qspLoop delim state rest).1 → b ∈ c :: rest :=
      fun state hb => (List.mem_cons.mp hb).elim (fun hc => hc ▸ List.mem_cons_self) (hrest state)
    have hstop : b ∈ ([] : Bytes) → b ∈ c :: rest := fun hb => absurd hb List.not_mem_nil
    cases state <;> rw [qspLoop] at h <;> simp only at h <;> split_ifs at h <;>
      first
        | exact hrest _ h
        | exact happend _ h
        | exact hstop h

/-- Nothing is read that does not stand in the header. -/
theorem mem_of_mem_readAttribute {b : Byte}
    (h : b ∈ (readAttribute hdr).name ∨ b ∈ (readAttribute hdr).value ∨
      b ∈ (readAttribute hdr).pos) : b ∈ hdr := by
  have hpos : ∀ {p : Bytes}, b ∈ (readValue p).1 ∨ b ∈ (readValue p).2 → b ∈ p := by
    intro p hb
    cases p with
    | nil => exact hb.elim id id
    | cons c rest =>
      rw [readValue] at hb
      split_ifs at hb
      · exact List.mem_cons_of_mem c (hb.elim mem_of_mem_qspLoop List.mem_of_mem_drop)
      · exact hb.elim (fun hnil => absurd hnil List.not_mem_nil) id
  have hblank : ∀ {b}, b ∈ hdr.dropWhile myIsspace → b ∈ hdr :=
    fun hb => (List.dropWhile_suffix myIsspace).subset hb
  rcases h with hname | hrest
  · exact hblank (mem_of_mem_qspLoop hname)
  · exact hblank (List.mem_of_mem_drop (hpos hrest))

/-- **The lookup** takes the first attribute that the wanted name starts with. -/
theorem findAttributeValue_eq_find? (h0 : (0 : Byte) ∉ hdr) :
    findAttributeValue hdr attrib =
      ((attributes hdr).find? (·.name.isPrefixOf attrib.val)).map
        fun fld => CStr.ofBytes fld.value := by
  induction hn : hdr.length using Nat.strong_induction_on generalizing hdr with
  | _ n ih =>
    subst hn
    generalize hread : readAttribute hdr = fld
    have hname0 : (0 : Byte) ∉ fld.name :=
      fun h => h0 (mem_of_mem_readAttribute (.inl (hread ▸ h)))
    have hmatch : strncmp fld.name.length attrib.val fld.name = 0 ↔
        fld.name.isPrefixOf attrib.val = true :=
      (strncmp_eq_zero_iff attrib.noNul hname0).trans List.isPrefixOf_iff_prefix.symm
    let matched : Attribute → Bool := fun fld => fld.name.isPrefixOf attrib.val
    by_cases hpre : matched fld = true
    · have hhead : (attributes hdr).find? matched = some fld := by
        by_cases hpos : fld.pos = []
        · rw [attributes_of_end hread hpos, List.find?_cons_of_pos hpre]
        · rw [attributes_of_next hread hpos, List.find?_cons_of_pos hpre]
      rw [findAttributeValue_of_match hread (hmatch.mpr hpre), hhead, Option.map_some]
    · by_cases hpos : fld.pos = []
      · rw [findAttributeValue_of_end hread (mt hmatch.mp hpre) hpos, attributes_of_end hread hpos,
          List.find?_cons_of_neg (p := matched) hpre, List.find?_nil, Option.map_none]
      · have hshort : fld.pos.tail.length < hdr.length := by
          have hle := length_readAttribute_le hdr
          rw [hread] at hle
          have hpos' := List.length_pos_iff.mpr hpos
          rw [List.length_tail]
          omega
        have htail0 : (0 : Byte) ∉ fld.pos.tail := fun h =>
          h0 (mem_of_mem_readAttribute (.inr (.inr (hread ▸ List.mem_of_mem_tail h))))
        rw [findAttributeValue_of_next hread (mt hmatch.mp hpre) hpos,
          attributes_of_next hread hpos, List.find?_cons_of_neg (p := matched) hpre]
        exact ih _ hshort htail0 rfl

end Lookup

theorem exactAttribute_iff (hdr attrib : CStr) :
    ExactAttribute hdr attrib ↔ PrefixesAgree hdr attrib := by
  unfold ExactAttribute PrefixesAgree
  rw [findAttributeValue_eq_find? hdr.noNul]
  cases hprefix : (attributes hdr.val).find? (·.name.isPrefixOf attrib.val) with
  | none =>
    -- the wanted name starts with itself
    have hnone : (attributes hdr.val).find? (·.name = attrib.val) = none := by
      rw [List.find?_eq_none] at hprefix ⊢
      intro fld hmem hname
      refine hprefix fld hmem (List.isPrefixOf_iff_prefix.mpr ?_)
      exact (of_decide_eq_true hname : fld.name = attrib.val) ▸ List.prefix_rfl
    rw [hnone]
    exact iff_of_true rfl fun fld hfld => by cases hfld
  | some fld =>
    rw [Option.map_some, eq_comm, Option.map_eq_some_iff]
    constructor
    · intro hnamed fld' heq
      exact Option.some.inj heq ▸ hnamed
    · exact fun h => h fld rfl

/-! ## Headers that are written out -/

/-- How the value of an attribute is written. -/
inductive ValueText
  | absent
  | bare (value : Bytes) (hquote : ch '"' ∉ value) (hvalue : ∀ c ∈ value, c ∉ bytes ";" ∧ c ≠ 0)
  | quoted (value : Bytes) (hquote : ch '"' ∉ value)

namespace ValueText

def text : ValueText → Bytes
  | absent => []
  | bare value _ _ => ch '=' :: value
  | quoted value _ => ch '=' :: FormDecoder.quoted value

def value : ValueText → Bytes
  | absent => []
  | bare value _ _ => value
  | quoted value _ => value

end ValueText

/-- One attribute of a header, with the blanks in front of it. The name may be empty. -/
structure Item where
  blanks : Bytes
  name : Bytes
  value : ValueText
  blanks_isspace : ∀ c ∈ blanks, myIsspace c = true
  name_unquoted : ch '"' ∉ name
  name_bare : ∀ c ∈ name, c ∉ bytes ";=" ∧ c ≠ 0
  name_head : ∀ c, name.head? = some c → myIsspace c = false

/-- How it is written. -/
def Item.text (item : Item) : Bytes := item.blanks ++ (item.name ++ item.value.text)

/-- A header of attributes with semicolons between them. -/
def headerText (first : Item) (items : List Item) : Bytes :=
  first.text ++ items.flatMap fun item => ch ';' :: item.text

section Written

variable {rest : Bytes}

theorem readValue_text (value : ValueText) (hrest : Ends (bytes ";") rest) :
    readValue (value.text ++ rest) = (value.value, rest) := by
  have hend := qspLoop_ends (by decide) hrest
  cases value with
  | absent =>
    cases rest with
    | nil => rfl
    | cons c r =>
      have hc : c ≠ ch '=' := by
        rintro rfl
        exact absurd (hrest _ r rfl) (by decide)
      exact if_neg hc
  | bare value hquote hvalue =>
    show readValue (ch '=' :: (value ++ rest)) = (value, rest)
    rw [readValue, if_pos rfl, qspAppendToDynstring, qspLoop_bare rest hquote hvalue, hend]
    simp only [List.append_nil, Nat.add_zero, List.drop_left]
  | quoted value hquote =>
    have hfilter : value.filter (· ≠ ch '"') = value :=
      List.filter_eq_self.mpr fun c hc => decide_eq_true fun h => hquote (h ▸ hc)
    show readValue (ch '=' :: (FormDecoder.quoted value ++ rest)) = (value, rest)
    rw [readValue, if_pos rfl, qspAppendToDynstring, qspLoop_quoted, hend, hfilter]
    simp only [List.append_nil, Nat.add_zero, List.drop_left]

/-- No blank stands where a value starts, or where an attribute ends. -/
theorem dropWhile_text (value : ValueText) (hrest : Ends (bytes ";") rest) :
    (value.text ++ rest).dropWhile myIsspace = value.text ++ rest := by
  cases value with
  | absent =>
    cases rest with
    | nil => rfl
    | cons c r =>
      refine List.dropWhile_cons_of_neg ?_
      rcases hrest c r rfl with hc | rfl
      · rw [List.mem_singleton.mp hc]
        decide
      · decide
  | bare value _ _ => exact List.dropWhile_cons_of_neg (by decide)
  | quoted value _ => exact List.dropWhile_cons_of_neg (by decide)

theorem readAttribute_text (item : Item) (rest : Bytes) (hrest : Ends (bytes ";") rest) :
    readAttribute (item.text ++ rest) = ⟨item.name, item.value.value, rest⟩ := by
  have hafter : Ends (bytes ";=") (item.value.text ++ rest) := by
    intro c r heq
    cases hvalue : item.value with
    | absent =>
      rw [hvalue] at heq
      exact (hrest c r heq).imp_left (List.mem_append_left (bytes "="))
    | bare value _ _ =>
      rw [hvalue] at heq
      exact .inl ((List.cons.inj heq).1 ▸ by decide)
    | quoted value _ =>
      rw [hvalue] at heq
      exact .inl ((List.cons.inj heq).1 ▸ by decide)
  have hblanks : (item.text ++ rest).dropWhile myIsspace =
      item.name ++ (item.value.text ++ rest) := by
    rw [Item.text, List.append_assoc, List.append_assoc,
      List.dropWhile_append_of_pos item.blanks_isspace]
    cases hname : item.name with
    | nil => exact dropWhile_text item.value hrest
    | cons c name =>
      refine List.dropWhile_cons_of_neg ?_
      rw [item.name_head c (by rw [hname]; rfl)]
      exact Bool.false_ne_true
  unfold readAttribute
  simp only [hblanks, qspAppendToDynstring, qspLoop_bare _ item.name_unquoted item.name_bare,
    qspLoop_ends (by decide) hafter, List.append_nil, Nat.add_zero, List.drop_left,
    readValue_text item.value hrest]

/-- **The attributes** of a header that is written out are those it is made of. -/
theorem attributes_headerText (first : Item) (items : List Item) :
    (attributes (headerText first items)).map (fun fld => (fld.name, fld.value)) =
      (first :: items).map fun item => (item.name, item.value.value) := by
  induction items generalizing first with
  | nil =>
    have hread := readAttribute_text first [] fun _ _ h => by cases h
    rw [headerText, List.flatMap_nil, attributes_of_end hread rfl]
    rfl
  | cons item items ih =>
    have hmore : headerText first (item :: items) =
        first.text ++ ch ';' :: headerText item items := by
      simp [headerText]
    have hread := readAttribute_text first (ch ';' :: headerText item items)
      fun c r h => .inl ((List.cons.inj h).1 ▸ by decide)
    rw [hmore, attributes_of_next hread (List.cons_ne_nil _ _), List.map_cons, List.map_cons,
      List.tail_cons, ih item]

end Written

/-! ## The names of the headers of a part -/

/-- The branches of the callback for a header. -/
inductive HeaderKind
  | contentDisposition
  | contentType
  | other
deriving DecidableEq

/-- What the callback takes a header with this name for. -/
def headerKind (name : Bytes) : HeaderKind :=
  if headerIs name "Content-Disposition" then .contentDisposition
  else if headerIs name "Content-Type" then .contentType
  else .other

theorem formdecoderMimedecoderCallback_header (ctx : Context) (env : CallbackEnv) (name : Bytes)
    (value : CStr) :
    formdecoderMimedecoderCallback ctx (env, .header name value) =
      match headerKind name with
      | .contentDisposition => dispositionHeader env value ctx
      | .contentType => contentTypeHeader env value ctx
      | .other => some (0, ctx) := by
  unfold formdecoderMimedecoderCallback headerKind
  by_cases hdisposition : headerIs name "Content-Disposition" = true
  · simp only [if_pos hdisposition]
  · by_cases htype : headerIs name "Content-Type" = true
    · simp only [if_neg hdisposition, if_pos htype]
    · simp only [if_neg hdisposition, if_neg htype]

/-- A header is taken for one of the two only by its whole name. -/
structure ExactHeader (name : Bytes) : Prop where
  contentDisposition :
    headerKind name = .contentDisposition → name = bytes "Content-Disposition"
  contentType : headerKind name = .contentType → name = bytes "Content-Type"

/-- The name is not a shorter one that the literal starts with, and not a longer one that has a NUL
behind the literal. -/
structure Distinct (name literal : Bytes) : Prop where
  shorter : name <+: literal → name = literal
  longer : ¬literal ++ [0] <+: name

theorem distinct_iff {name : Bytes} {literal : String} (h0 : (0 : Byte) ∉ bytes literal) :
    Distinct name (bytes literal) ↔ (headerIs name literal = true → name = bytes literal) := by
  rw [headerIs_iff h0, PrefixOf]
  constructor
  · rintro h (hshort | hlong)
    · exact h.shorter hshort
    · exact absurd hlong h.longer
  · intro h
    refine ⟨fun hshort => h (.inl hshort), fun hlong => ?_⟩
    have hlen := hlong.length_le
    rw [h (.inr hlong), List.length_append, List.length_singleton] at hlen
    exact absurd hlen (Nat.not_succ_le_self _)

theorem exactHeader_iff (name : Bytes) :
    ExactHeader name ↔
      Distinct name (bytes "Content-Disposition") ∧ Distinct name (bytes "Content-Type") := by
  rw [distinct_iff (by decide), distinct_iff (by decide)]
  by_cases hdisposition : headerIs name "Content-Disposition" = true
  · have hkind : headerKind name = .contentDisposition := if_pos hdisposition
    constructor
    · intro h
      have hname := h.contentDisposition hkind
      exact ⟨fun _ => hname, fun htype => absurd htype (by rw [hname]; decide)⟩
    · rintro ⟨hname, -⟩
      exact ⟨fun _ => hname hdisposition, fun htype => by rw [hkind] at htype; cases htype⟩
  · have hkind : headerKind name =
        if headerIs name "Content-Type" = true then .contentType else .other := if_neg hdisposition
    constructor
    · intro h
      exact ⟨fun h' => absurd h' hdisposition,
        fun htype => h.contentType (hkind.trans (if_pos htype))⟩
    · rintro ⟨-, hname⟩
      refine ⟨fun h => ?_, fun h => ?_⟩
      · rw [hkind] at h
        split_ifs at h
      · rw [hkind] at h
        split_ifs at h with htype
        exact hname htype

/-- **Names match on equality** where the first attribute that the wanted name starts with is the
one with the wanted name (or has its value), and where a header name is not shorter than the literal
it is compared with. -/
theorem exactNames_iff (hdr attrib : CStr) (name : Bytes) :
    (ExactAttribute hdr attrib ↔ PrefixesAgree hdr attrib) ∧
      (ExactHeader name ↔
        Distinct name (bytes "Content-Disposition") ∧ Distinct name (bytes "Content-Type")) :=
  ⟨exactAttribute_iff hdr attrib, exactHeader_iff name⟩

/-- The attribute `n` answers for the attribute `name`. -/
theorem not_exactNames_shorter :
    ¬∀ (hdr attrib : CStr) (name : Bytes), ExactAttribute hdr attrib ∧ ExactHeader name := by
  intro h
  have hexact := (h (CStr.lit "form-data; n=1; name=2") (CStr.lit "name") (bytes "X")).1
  unfold ExactAttribute at hexact
  revert hexact
  have hfirst : readAttribute (CStr.lit "form-data; n=1; name=2").val =
      ⟨bytes "form-data", [], bytes "; n=1; name=2"⟩ := rfl
  have hn : readAttribute (bytes " n=1; name=2") = ⟨bytes "n", bytes "1", bytes "; name=2"⟩ := rfl
  have hname : readAttribute (bytes " name=2") = ⟨bytes "name", bytes "2", []⟩ := rfl
  have hattrs : attributes (CStr.lit "form-data; n=1; name=2").val =
      [⟨bytes "form-data", [], bytes "; n=1; name=2"⟩, ⟨bytes "n", bytes "1", bytes "; name=2"⟩,
        ⟨bytes "name", bytes "2", []⟩] := by
    rw [attributes_of_next hfirst (List.cons_ne_nil _ _)]
    refine congrArg _ ((attributes_of_next hn (List.cons_ne_nil _ _)).trans ?_)
    exact congrArg _ (attributes_of_end hname rfl)
  rw [findAttributeValue_eq_find? (CStr.noNul _), hattrs]
  decide

end FcgiJwtAuth.FormDecoder
