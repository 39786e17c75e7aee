import FcgiJwtAuth.CLang.Percent
import Mathlib.Data.List.Forall2

/-!
# Path parsing (`parse_path`, `src/HTTPUtils.cpp`)

A parsed path keeps the decoded segments of a path in one buffer and remembers where each of them
stands. The parser walks over the `/`-separated segments and passes over the empty ones; a malformed
escape anywhere gives up the whole path. Against it stands what a path spells: its non-empty
segments, each one percent coded.
-/

namespace FcgiJwtAuth.HTTPUtils

open CLang

/-- `ParsedPath::Range`. -/
structure Range where
  offset : ℕ
  length : ℕ
deriving DecidableEq

/-- `ParsedPath`. -/
structure ParsedPath where
  storage : Bytes
  ranges : List Range
deriving DecidableEq

namespace ParsedPath

/-- What stands at a range of the storage. -/
def view (p : ParsedPath) (range : Range) : Bytes :=
  (p.storage.drop range.offset).take range.length

/-- The empty view where there is no such range. -/
def getIdx (p : ParsedPath) (idx : ℕ) : Bytes :=
  match p.ranges[idx]? with
  | none => []
  | some range => p.view range

def size (p : ParsedPath) : ℕ := p.ranges.length

end ParsedPath

/-- `detail::hex_val`. -/
def hexVal (c : Byte) : ℤ :=
  if ch '0' ≤ c ∧ c ≤ ch '9' then c.toNat - (ch '0').toNat
  else if ch 'a' ≤ c ∧ c ≤ ch 'f' then c.toNat - (ch 'a').toNat + 10
  else if ch 'A' ≤ c ∧ c ≤ ch 'F' then c.toNat - (ch 'A').toNat + 10
  else -1

/-- `detail::append_percent_decoded`: `dst` with the decoded bytes, or `none` for `false`, after
which the caller drops what was appended. -/
def appendPercentDecoded : Bytes → Bytes → Option Bytes
  | [], dst => some dst
  | c :: rest, dst =>
    if c ≠ ch '%' then appendPercentDecoded rest (dst ++ [c])
    else
      match rest with
      -- `i + 2 < src.size()`
      | hi :: lo :: rest =>
        if hexVal hi < 0 ∨ hexVal lo < 0 then none
        else
          appendPercentDecoded rest
            (dst ++ [UInt8.ofNat ((hexVal hi).toNat <<< 4 ||| (hexVal lo).toNat)])
      | _ => none

/-- One turn of the loop of `parse_path`. -/
def parseSegment (seg : Bytes) (out : ParsedPath) : Option ParsedPath :=
  if seg ≠ [] then
    let offset := out.storage.length
    (appendPercentDecoded seg out.storage).map fun storage =>
      { storage, ranges := out.ranges ++ [⟨offset, storage.length - offset⟩] }
  else some out

/-- The loop of `parse_path`, from `start` on. -/
def parsePathLoop (raw : Bytes) (out : ParsedPath) : Option ParsedPath :=
  match parseSegment (upTo (ch '/') raw) out with
  | none => none
  | some out => if ch '/' ∈ raw then parsePathLoop (after (ch '/') raw) out else some out
termination_by raw.length
decreasing_by exact length_after_lt (by assumption)

/-- `parse_path(std::string_view)`. -/
def parsePath (raw : Bytes) : Option ParsedPath :=
  if raw = [] then none
  else parsePathLoop (if raw.getLast? = some (ch '/') then raw.dropLast else raw) ⟨[], []⟩

/-- `consume`: whether the literal stands at `idx`, and the index after it. -/
def consume (p : ParsedPath) (idx : ℕ) (literal : Bytes) : Bool × ℕ :=
  if idx ≥ p.size ∨ p.getIdx idx ≠ literal then (false, idx) else (true, idx + 1)

/-! ## What a path spells -/

/-- The non-empty segments of a path. -/
def pathSegments (raw : Bytes) : List Bytes := (raw.splitOn (ch '/')).filter (· ≠ [])

/-- The elements of a parsed path. -/
def ParsedPath.elements (p : ParsedPath) : List Bytes := (List.range p.size).map p.getIdx

/-- One more element, behind the others. -/
def ParsedPath.push (p : ParsedPath) (text : Bytes) : ParsedPath where
  storage := p.storage ++ text
  ranges := p.ranges ++ [⟨p.storage.length, text.length⟩]

/-- The ranges lie end to end, from the first offset to the second. -/
inductive Tiles : ℕ → List Range → ℕ → Prop
  | nil (offset : ℕ) : Tiles offset [] offset
  | cons {range : Range} {ranges : List Range} {stop : ℕ} :
    Tiles (range.offset + range.length) ranges stop → Tiles range.offset (range :: ranges) stop

/-! ## Percent decoding -/

/-- `hex_val` knows the hexadecimal digits and answers -1 elsewhere. -/
theorem hexVal_eq (c : Byte) : hexVal c = (hexDigitValue c).elim (-1) Int.ofNat := by
  unfold hexVal hexDigitValue
  by_cases h0 : ch '0' ≤ c ∧ c ≤ ch '9'
  · have hle := UInt8.le_iff_toNat_le.mp h0.1
    rw [if_pos h0, if_pos h0, Option.elim_some, Int.ofNat_eq_natCast]
    omega
  by_cases ha : ch 'a' ≤ c ∧ c ≤ ch 'f'
  · have hle := UInt8.le_iff_toNat_le.mp ha.1
    rw [if_neg h0, if_neg h0, if_pos ha, if_pos ha, Option.elim_some, Int.ofNat_eq_natCast]
    omega
  by_cases hA : ch 'A' ≤ c ∧ c ≤ ch 'F'
  · have hle := UInt8.le_iff_toNat_le.mp hA.1
    rw [if_neg h0, if_neg h0, if_neg ha, if_neg ha, if_pos hA, if_pos hA, Option.elim_some,
      Int.ofNat_eq_natCast]
    omega
  · rw [if_neg h0, if_neg h0, if_neg ha, if_neg ha, if_neg hA, if_neg hA, Option.elim_none]

/-- Shifting and or-ing two digits spells their byte. -/
theorem shift_or_eq_escapedByte {h l : ℕ} (hl : l < 16) :
    UInt8.ofNat (h <<< 4 ||| l) = escapedByte h l := by
  have hor := Nat.shiftLeft_add_eq_or_of_lt (i := 4) hl h
  rw [← hor, Nat.shiftLeft_eq, escapedByte, Nat.mul_comm]

theorem appendPercentDecoded_plain {c : Byte} (hc : c ≠ ch '%') (rest dst : Bytes) :
    appendPercentDecoded (c :: rest) dst = appendPercentDecoded rest (dst ++ [c]) := by
  rw [appendPercentDecoded.eq_def]
  exact if_pos hc

/-- One escape appends the byte its digits spell. -/
theorem appendPercentDecoded_escape {hi lo : Byte} {h l : ℕ} (hhi : hexDigitValue hi = some h)
    (hlo : hexDigitValue lo = some l) (rest dst : Bytes) :
    appendPercentDecoded (ch '%' :: hi :: lo :: rest) dst =
      appendPercentDecoded rest (dst ++ [escapedByte h l]) := by
  have hvals : ¬ (hexVal hi < 0 ∨ hexVal lo < 0) := by
    rw [hexVal_eq, hexVal_eq, hhi, hlo]
    simp
  rw [appendPercentDecoded, if_neg (by simp), if_neg hvals, hexVal_eq, hexVal_eq, hhi, hlo,
    ← shift_or_eq_escapedByte (hexDigitValue_lt hlo)]
  rfl

/-- What the text spells is appended. -/
theorem appendPercentDecoded_of_percentCoded {src text : Bytes} (h : PercentCoded src text)
    (dst : Bytes) : appendPercentDecoded src dst = some (dst ++ text) := by
  induction h generalizing dst with
  | nil => rw [appendPercentDecoded, List.append_nil]
  | plain hb _ ih =>
    rw [appendPercentDecoded_plain hb, ih, List.append_assoc, List.singleton_append]
  | escape hhi hlo _ ih =>
    rw [appendPercentDecoded_escape hhi hlo, ih, List.append_assoc, List.singleton_append]

/-- Where decoding succeeds the text spells something. -/
theorem wellEscaped_of_appendPercentDecoded {src dst out : Bytes}
    (h : appendPercentDecoded src dst = some out) : WellEscaped src := by
  fun_induction appendPercentDecoded src dst with
  | case1 => exact wellEscaped_nil
  | case2 c rest dst hc ih => exact (wellEscaped_cons_of_ne hc rest).mpr (ih h)
  | case3 => cases h
  | case4 c dst hc hi lo rest hvals ih =>
    obtain rfl := not_not.mp hc
    have hdigit : ∀ {b : Byte}, ¬ hexVal b < 0 → (hexDigitValue b).isSome := by
      intro b hb
      rw [hexVal_eq] at hb
      cases hd : hexDigitValue b with
      | none => simp [hd] at hb
      | some n => rfl
    obtain ⟨hhi, hlo⟩ := not_or.mp hvals
    exact (wellEscaped_escape (hdigit hhi) (hdigit hlo)).mpr (ih h)
  | case5 => cases h

/-- **Decoding** appends what the text spells, and fails where it spells nothing. -/
theorem appendPercentDecoded_eq_some_iff {src dst out : Bytes} :
    appendPercentDecoded src dst = some out ↔
      ∃ text, PercentCoded src text ∧ out = dst ++ text := by
  constructor
  · intro h
    obtain ⟨text, htext⟩ :=
      (exists_percentCoded_iff src).mpr (wellEscaped_of_appendPercentDecoded h)
    rw [appendPercentDecoded_of_percentCoded htext] at h
    exact ⟨text, htext, (Option.some.inj h).symm⟩
  · rintro ⟨text, htext, rfl⟩
    exact appendPercentDecoded_of_percentCoded htext dst

/-! ## The segments -/

theorem pathSegments_last {seg : Bytes} (h : ch '/' ∉ seg) :
    pathSegments seg = if seg = [] then [] else [seg] := by
  rw [pathSegments, List.splitOn_eq_singleton h]
  by_cases hseg : seg = [] <;> simp [hseg]

theorem pathSegments_cons {seg : Bytes} (h : ch '/' ∉ seg) (rest : Bytes) :
    pathSegments (seg ++ ch '/' :: rest) =
      (if seg = [] then [] else [seg]) ++ pathSegments rest := by
  rw [pathSegments, List.splitOn_append_cons_self_of_not_mem h]
  by_cases hseg : seg = [] <;> simp [hseg, pathSegments]

/-- A slash at the end of a path ends an empty segment. -/
theorem pathSegments_append_slash (raw : Bytes) :
    pathSegments (raw ++ [ch '/']) = pathSegments raw := by
  induction raw using segments_induction (c := ch '/') with
  | last seg h =>
    rw [pathSegments_cons h, pathSegments_last h, pathSegments_last List.not_mem_nil]
    exact List.append_nil _
  | cons seg rest h ih =>
    rw [List.append_assoc, List.cons_append, pathSegments_cons h, pathSegments_cons h, ih]

/-- The texts of one more segment. -/
theorem parseSegment_eq_some_iff {seg : Bytes} {out p : ParsedPath} :
    parseSegment seg out = some p ↔
      ∃ texts, List.Forall₂ PercentCoded (if seg = [] then [] else [seg]) texts ∧
        p = texts.foldl ParsedPath.push out := by
  unfold parseSegment
  by_cases hseg : seg = []
  · rw [if_neg (not_not.mpr hseg), if_pos hseg]
    simp [eq_comm]
  · rw [if_pos hseg, if_neg hseg]
    constructor
    · intro h
      obtain ⟨storage, hstorage, rfl⟩ := Option.map_eq_some_iff.mp h
      obtain ⟨text, htext, rfl⟩ := appendPercentDecoded_eq_some_iff.mp hstorage
      refine ⟨[text], .cons htext .nil, ?_⟩
      simp [ParsedPath.push]
    · rintro ⟨texts, htexts, rfl⟩
      cases htexts with
      | cons htext hnil =>
        cases hnil
        rw [appendPercentDecoded_of_percentCoded htext]
        simp [ParsedPath.push]

theorem parsePathLoop_last {seg : Bytes} (h : ch '/' ∉ seg) (out : ParsedPath) :
    parsePathLoop seg out = parseSegment seg out := by
  rw [parsePathLoop, upTo_of_not_mem h]
  cases parseSegment seg out with
  | none => rfl
  | some out => exact if_neg h

theorem parsePathLoop_cons {seg : Bytes} (h : ch '/' ∉ seg) (rest : Bytes) (out : ParsedPath) :
    parsePathLoop (seg ++ ch '/' :: rest) out =
      (parseSegment seg out).bind (parsePathLoop rest) := by
  rw [parsePathLoop, upTo_append_cons h, after_append_cons h]
  cases parseSegment seg out with
  | none => rfl
  | some out => exact if_pos (by simp)

/-- **The loop** pushes the texts of all segments, or gives up where one of them spells none. -/
theorem parsePathLoop_eq_some_iff {raw : Bytes} {out p : ParsedPath} :
    parsePathLoop raw out = some p ↔
      ∃ texts, List.Forall₂ PercentCoded (pathSegments raw) texts ∧
        p = texts.foldl ParsedPath.push out := by
  induction raw using segments_induction (c := ch '/') generalizing out with
  | last seg h => rw [parsePathLoop_last h, pathSegments_last h, parseSegment_eq_some_iff]
  | cons seg rest h ih =>
    rw [parsePathLoop_cons h, pathSegments_cons h, Option.bind_eq_some_iff]
    constructor
    · rintro ⟨out', hseg, hrest⟩
      obtain ⟨head, hhead, rfl⟩ := parseSegment_eq_some_iff.mp hseg
      obtain ⟨tail, htail, rfl⟩ := ih.mp hrest
      exact ⟨head ++ tail, List.rel_append hhead htail, (List.foldl_append ..).symm⟩
    · rintro ⟨texts, htexts, rfl⟩
      by_cases hseg : seg = []
      · rw [if_pos hseg, List.nil_append] at htexts
        refine ⟨out, parseSegment_eq_some_iff.mpr ⟨[], ?_, rfl⟩, ih.mpr ⟨texts, htexts, rfl⟩⟩
        rw [if_pos hseg]
        exact .nil
      · rw [if_neg hseg, List.singleton_append] at htexts
        cases htexts with
        | cons hhead htail =>
          refine ⟨out.push _, parseSegment_eq_some_iff.mpr ⟨[_], ?_, rfl⟩, ih.mpr ⟨_, htail, rfl⟩⟩
          rw [if_neg hseg]
          exact .cons hhead .nil

/-- Dropping one slash at the end leaves the segments as they are. -/
theorem pathSegments_trimmed (raw : Bytes) :
    pathSegments (if raw.getLast? = some (ch '/') then raw.dropLast else raw) =
      pathSegments raw := by
  by_cases hlast : raw.getLast? = some (ch '/')
  · rw [if_pos hlast]
    conv_rhs => rw [← List.dropLast_append_getLast? _ hlast]
    rw [pathSegments_append_slash]
  · rw [if_neg hlast]

/-- **The parser** pushes the texts of all segments of a non-empty path. -/
theorem parsePath_eq_some_iff {raw : Bytes} {p : ParsedPath} :
    parsePath raw = some p ↔
      raw ≠ [] ∧ ∃ texts, List.Forall₂ PercentCoded (pathSegments raw) texts ∧
        p = texts.foldl ParsedPath.push ⟨[], []⟩ := by
  unfold parsePath
  by_cases hraw : raw = []
  · simp [hraw]
  · rw [if_neg hraw, parsePathLoop_eq_some_iff, pathSegments_trimmed]
    exact (and_iff_right hraw).symm

/-! ## The ranges -/

/-- `p` holds `texts`: its ranges tile its storage, and these stand there. -/
structure ParsedPath.Holds (p : ParsedPath) (texts : List Bytes) : Prop where
  tiles : Tiles 0 p.ranges p.storage.length
  texts_eq : p.ranges.map p.view = texts

theorem Tiles.append {a b c : ℕ} {ranges : List Range} (h : Tiles a ranges b) {range : Range}
    (hoffset : range.offset = b) (hstop : range.offset + range.length = c) :
    Tiles a (ranges ++ [range]) c := by
  induction h with
  | nil offset =>
    subst hoffset
    exact .cons (hstop ▸ .nil _)
  | cons _ ih => exact .cons (ih hoffset)

theorem Tiles.le {a b : ℕ} {ranges : List Range} (h : Tiles a ranges b) : a ≤ b := by
  induction h with
  | nil => exact le_rfl
  | cons _ ih => omega

/-- A tile ends before the tiling does. -/
theorem Tiles.stop_le {a b : ℕ} {ranges : List Range} (h : Tiles a ranges b) {range : Range}
    (hmem : range ∈ ranges) : range.offset + range.length ≤ b := by
  induction h with
  | nil => cases hmem
  | cons htail ih =>
    rcases List.mem_cons.mp hmem with rfl | hmem
    · exact htail.le
    · exact ih hmem

/-- What stands at a range of the storage stays where it is when the storage grows. -/
theorem ParsedPath.view_push {p : ParsedPath} {range : Range}
    (h : range.offset + range.length ≤ p.storage.length) (text : Bytes) :
    (p.push text).view range = p.view range := by
  have hlen : range.length ≤ (p.storage.drop range.offset).length := by
    rw [List.length_drop]
    omega
  unfold view push
  rw [List.drop_append_of_le_length (by omega), List.take_append_of_le_length hlen]

/-- **One push** adds one element. -/
theorem ParsedPath.Holds.push {p : ParsedPath} {texts : List Bytes} (h : p.Holds texts)
    (text : Bytes) : (p.push text).Holds (texts ++ [text]) where
  tiles := h.tiles.append rfl (by simp [ParsedPath.push])
  texts_eq := by
    have hold : p.ranges.map (p.push text).view = p.ranges.map p.view :=
      List.map_congr_left fun range hrange => view_push (h.tiles.stop_le hrange) text
    have hnew : (p.push text).view ⟨p.storage.length, text.length⟩ = text := by
      simp [view, ParsedPath.push]
    rw [ParsedPath.push, List.map_append, List.map_singleton]
    exact congrArg₂ (· ++ ·) (hold.trans h.texts_eq) (congrArg ([·]) hnew)

theorem ParsedPath.Holds.foldl_push {p : ParsedPath} {held : List Bytes} (h : p.Holds held)
    (texts : List Bytes) : (texts.foldl ParsedPath.push p).Holds (held ++ texts) := by
  induction texts generalizing p held with
  | nil => rwa [List.foldl_nil, List.append_nil]
  | cons text texts ih =>
    have hrest := ih (h.push text)
    rwa [List.append_assoc, List.singleton_append] at hrest

theorem ParsedPath.holds_nil : ParsedPath.Holds ⟨[], []⟩ [] := ⟨.nil 0, rfl⟩

/-- What the getters show are the elements. -/
theorem ParsedPath.Holds.elements_eq {p : ParsedPath} {texts : List Bytes} (h : p.Holds texts) :
    p.elements = texts := by
  rw [← h.texts_eq]
  unfold elements size
  refine List.ext_getElem (by simp) fun i hi hi' => ?_
  have hlt : i < p.ranges.length := by simpa using hi
  rw [List.getElem_map, List.getElem_range, List.getElem_map, getIdx, List.getElem?_eq_getElem hlt]

/-- A range of no length shows the empty text. -/
theorem ParsedPath.Holds.length_pos {p : ParsedPath} {texts : List Bytes} (h : p.Holds texts)
    (hne : [] ∉ texts) : ∀ range ∈ p.ranges, 0 < range.length := by
  intro range hrange
  by_contra hzero
  have hview : p.view range = [] := by
    rw [view, Nat.eq_zero_of_not_pos hzero, List.take_zero]
  exact hne (h.texts_eq ▸ List.mem_map.mpr ⟨range, hrange, hview⟩)

/-! ## Sizes -/

theorem storage_foldl_push (texts : List Bytes) (p : ParsedPath) :
    (texts.foldl ParsedPath.push p).storage = p.storage ++ texts.flatten := by
  induction texts generalizing p with
  | nil => rw [List.foldl_nil, List.flatten_nil, List.append_nil]
  | cons text texts ih =>
    rw [List.foldl_cons, ih, List.flatten_cons, ← List.append_assoc]
    rfl

theorem length_flatten_le_of_percentCoded {codeds texts : List Bytes}
    (h : List.Forall₂ PercentCoded codeds texts) :
    texts.flatten.length ≤ codeds.flatten.length := by
  induction h with
  | nil => exact le_rfl
  | cons hhead _ ih =>
    have hle := hhead.length_le
    rw [List.flatten_cons, List.flatten_cons, List.length_append, List.length_append]
    omega

theorem length_flatten_pathSegments_le (raw : Bytes) :
    (pathSegments raw).flatten.length ≤ raw.length := by
  induction raw using segments_induction (c := ch '/') with
  | last seg h =>
    rw [pathSegments_last h]
    by_cases hseg : seg = [] <;> simp [hseg]
  | cons seg rest h ih =>
    rw [pathSegments_cons h, List.flatten_append, List.length_append, List.length_append,
      List.length_cons]
    have hhead : (if seg = [] then [] else [seg]).flatten.length = seg.length := by
      by_cases hseg : seg = [] <;> simp [hseg]
    omega

/-- No segment is empty, so no element is. -/
theorem nil_not_mem_of_spelled {raw : Bytes} {texts : List Bytes}
    (h : List.Forall₂ PercentCoded (pathSegments raw) texts) : [] ∉ texts := by
  have hsegs : [] ∉ pathSegments raw := by simp [pathSegments]
  generalize pathSegments raw = segs at h hsegs
  induction h with
  | nil => exact List.not_mem_nil
  | cons hhead _ ih =>
    obtain ⟨hne, hrest⟩ := List.ne_and_not_mem_of_not_mem_cons hsegs
    refine List.not_mem_cons_of_ne_of_not_mem ?_ (ih hrest)
    intro htext
    exact hne (hhead.eq_nil_iff.mp htext.symm).symm

/-! ## Exactness -/

/-- What the parser makes of a path: nothing of an empty path, or of one with a `%` that its
segment does not complete; of any other the texts its non-empty segments spell, which tile the
storage and are no longer than the path. -/
structure ParsesExactly (raw : Bytes) (parsed : Option ParsedPath) : Prop where
  none_iff : parsed = none ↔
    raw = [] ∨ ∃ seg ∈ raw.splitOn (ch '/'), ¬ WellEscaped seg
  elements_spelled : ∀ p, parsed = some p →
    List.Forall₂ PercentCoded (pathSegments raw) p.elements
  tiles : ∀ p, parsed = some p → Tiles 0 p.ranges p.storage.length
  ranges_nonempty : ∀ p, parsed = some p → ∀ range ∈ p.ranges, 0 < range.length
  storage_le : ∀ p, parsed = some p → p.storage.length ≤ raw.length

theorem parsePath_eq_none_iff (raw : Bytes) :
    parsePath raw = none ↔ raw = [] ∨ ∃ seg ∈ raw.splitOn (ch '/'), ¬ WellEscaped seg := by
  have hall : (∀ seg ∈ pathSegments raw, WellEscaped seg) ↔
      ∀ seg ∈ raw.splitOn (ch '/'), WellEscaped seg := by
    unfold pathSegments
    constructor
    · intro h seg hseg
      by_cases hnil : seg = []
      · exact hnil ▸ wellEscaped_nil
      · exact h seg (List.mem_filter.mpr ⟨hseg, by simpa using hnil⟩)
    · intro h seg hseg
      exact h seg (List.mem_filter.mp hseg).1
  have hsome : (∃ p, parsePath raw = some p) ↔
      raw ≠ [] ∧ ∀ seg ∈ raw.splitOn (ch '/'), WellEscaped seg := by
    rw [← hall, ← exists_forall₂_percentCoded_iff]
    constructor
    · rintro ⟨p, hp⟩
      obtain ⟨hraw, texts, htexts, -⟩ := parsePath_eq_some_iff.mp hp
      exact ⟨hraw, texts, htexts⟩
    · rintro ⟨hraw, texts, htexts⟩
      exact ⟨_, parsePath_eq_some_iff.mpr ⟨hraw, texts, htexts, rfl⟩⟩
  rw [← not_iff_not, ← ne_eq, ← Option.isSome_iff_ne_none, Option.isSome_iff_exists, hsome]
  push Not
  rfl

/-- **Path parsing is exact**, and paths with the same non-empty segments parse alike. -/
theorem parsePath_exact (raw : Bytes) :
    ParsesExactly raw (parsePath raw) ∧
      ∀ raw', (raw' = [] ↔ raw = []) → pathSegments raw' = pathSegments raw →
        parsePath raw' = parsePath raw := by
  have hheld : ∀ p, parsePath raw = some p → ∃ texts,
      List.Forall₂ PercentCoded (pathSegments raw) texts ∧ p.Holds texts ∧
        p.storage = texts.flatten := by
    intro p hp
    obtain ⟨-, texts, htexts, rfl⟩ := parsePath_eq_some_iff.mp hp
    exact ⟨texts, htexts, ParsedPath.holds_nil.foldl_push texts, storage_foldl_push texts _⟩
  refine ⟨⟨parsePath_eq_none_iff raw, ?_, ?_, ?_, ?_⟩, ?_⟩
  · intro p hp
    obtain ⟨texts, htexts, hholds, -⟩ := hheld p hp
    rwa [hholds.elements_eq]
  · intro p hp
    obtain ⟨texts, -, hholds, -⟩ := hheld p hp
    exact hholds.tiles
  · intro p hp
    obtain ⟨texts, htexts, hholds, -⟩ := hheld p hp
    exact hholds.length_pos (nil_not_mem_of_spelled htexts)
  · intro p hp
    obtain ⟨texts, htexts, -, hstorage⟩ := hheld p hp
    rw [hstorage]
    exact (length_flatten_le_of_percentCoded htexts).trans (length_flatten_pathSegments_le raw)
  · intro raw' hempty hsegs
    refine Option.ext fun p => ?_
    rw [parsePath_eq_some_iff, parsePath_eq_some_iff, hsegs, ne_eq, hempty]

end FcgiJwtAuth.HTTPUtils
