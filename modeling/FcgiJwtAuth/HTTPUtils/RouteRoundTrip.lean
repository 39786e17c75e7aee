import FcgiJwtAuth.HTTPUtils.PathReaders

/-!
# Routes

A route is a list of elements, each of which a caller matches with one of the consumers: a literal
with `consume`, a number or a string with `consume_read`. A path that spells the elements of a route
one by one is read back by its consumers.
-/

namespace FcgiJwtAuth.HTTPUtils

open CLang

/-- One element of a route. -/
inductive RouteElement
  | literal (text : Bytes) (nonempty : text ≠ [])
  | int (value : IntType.int.Value)
  | string (text : Bytes) (nonempty : text ≠ [])

/-- The text of an element; numbers are written in decimal. -/
def RouteElement.text : RouteElement → Bytes
  | .literal text _ => text
  | .int value => renderInt value
  | .string text _ => text

/-- `coded` spells the text of an element with at least its `/` and `%` escaped. -/
structure SpellsElement (element : RouteElement) (coded : Bytes) : Prop where
  coded_text : PercentCoded coded element.text
  no_slash : ch '/' ∉ coded

/-- The spelling that escapes only what must be escaped. -/
def RouteElement.spell (element : RouteElement) : Bytes :=
  percentSpell (· == ch '/') element.text

/-- The path made of coded elements. -/
def joinPath (codeds : List Bytes) : Bytes := [ch '/'].intercalate codeds

/-- The consumer that matches an element returns true, whatever its argument held before, reads the
element and moves on. -/
def ConsumesElement (p : ParsedPath) (idx : ℕ) : RouteElement → ℕ → Prop
  | .literal text _, idx' => consume p idx text = (true, idx')
  | .int value, idx' => ∀ out, consumeRead .int p idx out = ⟨true, idx', value⟩
  | .string text _, idx' => ∀ out, consumeReadString p idx out = ⟨true, idx', text⟩

/-- The consumers of a route, one after the other. -/
inductive ConsumesRoute (p : ParsedPath) : ℕ → List RouteElement → ℕ → Prop
  | nil (idx : ℕ) : ConsumesRoute p idx [] idx
  | cons {idx next stop : ℕ} {element : RouteElement} {route : List RouteElement} :
    ConsumesElement p idx element next → ConsumesRoute p next route stop →
    ConsumesRoute p idx (element :: route) stop

/-- The path of a route parses, and its consumers read the whole of it back. -/
def RoundTrips (route : List RouteElement) (codeds : List Bytes) : Prop :=
  ∃ p, parsePath (joinPath codeds) = some p ∧ ConsumesRoute p 0 route p.size

/-! ## Elements and their spellings -/

theorem RouteElement.text_ne_nil (element : RouteElement) : element.text ≠ [] := by
  cases element with
  | literal _ nonempty => exact nonempty
  | int value => exact (isNumeral_renderInt value).ne_nil
  | string _ nonempty => exact nonempty

theorem SpellsElement.ne_nil {element : RouteElement} {coded : Bytes}
    (h : SpellsElement element coded) : coded ≠ [] := fun hnil =>
  element.text_ne_nil (h.coded_text.eq_nil_iff.mpr hnil)

/-- Every element has a spelling. -/
theorem spellsElement_spell (element : RouteElement) : SpellsElement element element.spell where
  coded_text := percentCoded_percentSpell _ _
  no_slash := not_mem_percentSpell (by simp) (by decide) (by decide) _

/-- The segments of the path of a route are the spellings of its elements. -/
theorem pathSegments_joinPath {route : List RouteElement} {codeds : List Bytes}
    (h : List.Forall₂ SpellsElement route codeds) (hroute : route ≠ []) :
    pathSegments (joinPath codeds) = codeds := by
  have hall : ∀ coded ∈ codeds, coded ≠ [] ∧ ch '/' ∉ coded := by
    clear hroute
    induction h with
    | nil => simp
    | cons hhead _ ih => exact List.forall_mem_cons.mpr ⟨⟨hhead.ne_nil, hhead.no_slash⟩, ih⟩
  have hcodeds : codeds ≠ [] := by
    rintro rfl
    cases h
    exact hroute rfl
  have hsplit := List.splitOn_intercalate (ch '/') (fun coded hc => (hall coded hc).2) hcodeds
  rw [pathSegments, joinPath, hsplit, List.filter_eq_self]
  intro coded hc
  simpa using (hall coded hc).1

/-! ## Reading back -/

theorem ParsedPath.Holds.size_eq {p : ParsedPath} {texts : List Bytes} (h : p.Holds texts) :
    p.size = texts.length := by
  rw [← h.texts_eq, List.length_map]
  rfl

theorem ParsedPath.Holds.getIdx_append_cons {p : ParsedPath} {before behind : List Bytes}
    {text : Bytes} (h : p.Holds (before ++ text :: behind)) : p.getIdx before.length = text := by
  have hget : (p.ranges.map p.view)[before.length]? = some text := by
    rw [h.texts_eq, List.getElem?_append_right le_rfl, Nat.sub_self]
    rfl
  rw [List.getElem?_map] at hget
  obtain ⟨range, hrange, hview⟩ := Option.map_eq_some_iff.mp hget
  rw [getIdx, hrange]
  exact hview

/-- Where its text stands, the consumer of an element reads it. -/
theorem consumesElement_of_getIdx {p : ParsedPath} {idx : ℕ} {element : RouteElement}
    (hidx : idx < p.size) (htext : p.getIdx idx = element.text) :
    ConsumesElement p idx element (idx + 1) := by
  cases element with
  | literal text _ =>
    have hmatch : ¬ (idx ≥ p.size ∨ p.getIdx idx ≠ text) :=
      not_or.mpr ⟨Nat.not_le.mpr hidx, not_not.mpr htext⟩
    exact if_neg hmatch
  | int value =>
    intro out
    refine consumeRead_of_holds ⟨hidx, ?_⟩ out
    rw [htext]
    exact isNumeral_renderInt value
  | string text _ =>
    intro out
    rw [consumeReadString, if_neg (Nat.not_le.mpr hidx), htext]
    rfl

/-- The consumers of the rest of a route, where the elements before it have been read. -/
theorem consumesRoute_of_holds {p : ParsedPath} {before : List Bytes} {route : List RouteElement}
    (h : p.Holds (before ++ route.map RouteElement.text)) :
    ConsumesRoute p before.length route p.size := by
  induction route generalizing before with
  | nil =>
    rw [h.size_eq, List.map_nil, List.append_nil]
    exact .nil _
  | cons element route ih =>
    have hidx : before.length < p.size := by
      rw [h.size_eq, List.length_append, List.map_cons, List.length_cons]
      omega
    have hsplit : p.Holds ((before ++ [element.text]) ++ route.map RouteElement.text) := by
      rwa [List.append_assoc]
    have hrest := ih hsplit
    rw [List.length_append, List.length_singleton] at hrest
    exact .cons (consumesElement_of_getIdx hidx h.getIdx_append_cons) hrest

/-- **Routes are read back**, whichever spellings of its elements the path has. -/
theorem roundTrips_of_spelled {route : List RouteElement} {codeds : List Bytes}
    (h : List.Forall₂ SpellsElement route codeds) (hroute : route ≠ []) :
    RoundTrips route codeds := by
  have hsegs := pathSegments_joinPath h hroute
  have htexts : List.Forall₂ PercentCoded codeds (route.map RouteElement.text) := by
    rw [List.forall₂_map_right_iff]
    exact h.flip.imp fun _ _ hspell => hspell.coded_text
  have hpath : joinPath codeds ≠ [] := by
    intro hnil
    rw [hnil] at hsegs
    obtain rfl : codeds = [] := hsegs.symm
    cases h
    exact hroute rfl
  have hholds := ParsedPath.holds_nil.foldl_push (route.map RouteElement.text)
  refine ⟨_, parsePath_eq_some_iff.mpr ⟨hpath, _, hsegs ▸ htexts, rfl⟩, ?_⟩
  exact consumesRoute_of_holds hholds

/-- The route of a literal, a negative number and a string that needs escaping. -/
theorem roundTrips_client_route :
    let route : List RouteElement := [.literal (bytes "client") (by decide), .int ⟨-12, by decide⟩,
      .string (bytes "a/b%") (by decide)]
    RoundTrips route (route.map RouteElement.spell) :=
  roundTrips_of_spelled
    (List.forall₂_map_right_iff.mpr
      (List.forall₂_same.mpr fun element _ => spellsElement_spell element))
    (List.cons_ne_nil _ _)

/-- The path of the empty route is empty, and the parser refuses it. -/
theorem not_roundTrips_nil : List.Forall₂ SpellsElement [] [] ∧ ¬ RoundTrips [] [] := by
  refine ⟨.nil, ?_⟩
  rintro ⟨p, hp, -⟩
  exact (parsePath_eq_some_iff.mp hp).1 rfl

end FcgiJwtAuth.HTTPUtils
