import FcgiJwtAuth.QuotedStringParser.Callbacker
import Mathlib.Data.List.DropRight

/-!
# Fields as the callback is given them

A line of quoted fields, whose last one may be without its closing quote, and what `qsp_callbacker`
hands out of it. Of a field that is not closed it is what stands behind the last escaped quote.
-/

namespace FcgiJwtAuth.QuotedStringParser

open CLang

/-! ## Fields -/

/-- What stands between the quotes of a field, its own quotes escaped. -/
structure RawField where
  text : Bytes
  closed : Closed (ch '"') text
  nul : (0 : Byte) ∉ text

/-- The field as it stands in the line. -/
def RawField.written (f : RawField) (closing : Bool) : Bytes :=
  ch '"' :: (f.text ++ if closing then [ch '"'] else [])

/-- The fields with commas between them; `closing` says whether the last one has its closing
quote. -/
def rawLine (closing : Bool) : List RawField → Bytes
  | [] => []
  | [f] => f.written closing
  | f :: g :: fields => f.written true ++ ch ',' :: rawLine closing (g :: fields)

theorem RawField.noNul_written (f : RawField) (closing : Bool) :
    (0 : Byte) ∉ f.written closing := by
  have hquote : (0 : Byte) ≠ ch '"' := by decide
  cases closing <;> simpa [written, hquote] using f.nul

theorem noNul_rawLine (closing : Bool) (fields : List RawField) :
    (0 : Byte) ∉ rawLine closing fields := by
  have hcomma : (0 : Byte) ≠ ch ',' := by decide
  induction fields using rawLine.induct with
  | case1 => exact List.not_mem_nil
  | case2 f => exact f.noNul_written closing
  | case3 f g fields ih =>
    rw [rawLine, List.mem_append, List.mem_cons, not_or, not_or]
    exact ⟨f.noNul_written true, hcomma, ih⟩

theorem rawLine_cons_ne_nil (closing : Bool) (f : RawField) (fields : List RawField) :
    rawLine closing (f :: fields) ≠ [] := by
  cases fields with
  | nil => exact List.cons_ne_nil _ _
  | cons g fields => exact List.append_ne_nil_of_left_ne_nil (List.cons_ne_nil _ _) _

/-- The line. -/
def RawField.line (fields : List RawField) (closing : Bool) : CStr :=
  ⟨rawLine closing fields, noNul_rawLine closing fields⟩

def ReturnsZero {σ : Type} (cb : Callback σ) : Prop := ∀ arg idx field, (cb arg idx field).2 = 0

/-- The calls are those of a callback that is given these texts in order, and are counted. -/
structure Reported {σ : Type} (w : Walk σ) (texts : List Bytes) : Prop where
  count : w.count = texts.length
  calls : w.calls.map (fun c => (c.field, c.idx)) = texts.zipIdx

/-- A callback that always returns 0 is given the whole text of each field in order, and the number
of the fields is returned; and no call follows one that returned anything else. -/
structure WalksFields (fields : List RawField) (closing : Bool) : Prop where
  all : ∀ {σ : Type} (cb : Callback σ) (arg : σ), ReturnsZero cb →
    ∃ w, qspCallbacker cb arg (RawField.line fields closing) = some w ∧
      Reported w (fields.map RawField.text)
  stops : ∀ {σ : Type} (cb : Callback σ) (arg : σ),
    ∃ w, qspCallbacker cb arg (RawField.line fields closing) = some w ∧
      ∀ c ∈ w.calls.dropLast, c.answer = 0

/-! ## Where a search without a closing quote leaves off -/

/-- What stands behind the last quote, or all of it. -/
def behindLastQuote (t : Bytes) : Bytes := t.rtakeWhile (· ≠ ch '"')

section Behind

variable {prev : Byte} {a b t : Bytes}

theorem behindLastQuote_eq_self : behindLastQuote t = t ↔ ch '"' ∉ t := by
  rw [behindLastQuote, List.rtakeWhile_eq_self_iff]
  simp only [ne_eq, decide_eq_true_eq]
  exact ⟨fun h hmem => h _ hmem rfl, fun h c hc heq => h (heq ▸ hc)⟩

theorem behindLastQuote_append (a b : Bytes) :
    behindLastQuote (a ++ ch '"' :: b) = behindLastQuote b := by
  induction b using List.reverseRecOn with
  | nil => exact List.rtakeWhile_concat_neg _ _ _ (by decide)
  | append_singleton b x ih =>
    rw [← List.cons_append, ← List.append_assoc, behindLastQuote, List.rtakeWhile_concat,
      behindLastQuote, List.rtakeWhile_concat]
    exact if_congr Iff.rfl (congrArg (· ++ [x]) ih) rfl

theorem nul_behindLastQuote (h : (0 : Byte) ∉ t) : (0 : Byte) ∉ behindLastQuote t :=
  fun hmem => h ((List.rtakeWhile_suffix _ t).subset hmem)

/-- The search moves `rover` behind each escaped quote. -/
theorem skipEscapedQuotes_escaped (pre rest : Bytes) (hquote : ch '"' ∉ a) (h0 : (0 : Byte) ∉ a)
    (hback : a.getLastD prev = ch '\\') :
    skipEscapedQuotes (pre ++ prev :: (a ++ ch '"' :: rest)) pre.length =
      skipEscapedQuotes ((pre ++ prev :: a) ++ ch '"' :: rest) (pre ++ prev :: a).length := by
  have hlen : (pre ++ prev :: a).length = pre.length + 1 + a.length := by
    rw [List.length_append, List.length_cons]
    omega
  rw [skipEscapedQuotes_of_some (lt_front pre a rest prev _) (strchr_front pre rest hquote h0),
    getElem?_front, hback, if_pos rfl, hlen, List.append_assoc, List.cons_append]

/-- **Without a closing quote**, `rover` is behind the last escaped one. -/
theorem skipEscapedQuotes_unclosed (pre : Bytes) (h : AllEscaped prev t) (h0 : (0 : Byte) ∉ t) :
    ∃ a, t = a ++ behindLastQuote t ∧ skipEscapedQuotes (pre ++ prev :: (t ++ [0])) pre.length =
      some (.lost (pre.length + 1 + a.length)) := by
  induction hn : t.length using Nat.strong_induction_on generalizing pre prev t with
  | _ n ih =>
    subst hn
    by_cases hquote : ch '"' ∈ t
    · obtain ⟨a, b, rfl, ha, hback, hb⟩ := exists_escaped h hquote
      rw [List.mem_append, not_or] at h0
      have hlen : b.length < (a ++ ch '"' :: b).length := by
        rw [List.length_append, List.length_cons]
        omega
      obtain ⟨a', ha', hlost⟩ :=
        ih _ hlen (pre ++ prev :: a) hb (List.not_mem_of_not_mem_cons h0.2) rfl
      refine ⟨a ++ ch '"' :: a', ?_, ?_⟩
      · rw [behindLastQuote_append, List.append_assoc, List.cons_append, ← ha']
      · rw [List.append_assoc, List.cons_append, skipEscapedQuotes_escaped pre _ ha h0.1 hback,
          hlost]
        simp only [List.length_append, List.length_cons, Option.some.injEq, Sought.lost.injEq]
        omega
    · refine ⟨[], (behindLastQuote_eq_self.mpr hquote).symm, ?_⟩
      exact skipEscapedQuotes_of_none (lt_front pre t [] prev 0) (strchr_front_none pre hquote)

end Behind

/-! ## One turn, by the text under the cursor -/

section Turn

variable {σ : Type} {cb : Callback σ} {w w' : Walk σ} {pre rest t : Bytes} {texts : List Bytes}
  {p r : ℕ} {buf : Bytes} {keepGoing : ℤ → Bool}

/-- The cursor in front of `rest`. -/
def Walk.place (w : Walk σ) (pre rest : Bytes) : Walk σ :=
  { w with buf := pre ++ (rest ++ [0]), rover := pre.length, keepGoing := true }

theorem Reported.place (h : Reported w texts) (pre rest : Bytes) :
    Reported (w.place pre rest) texts :=
  ⟨h.count, h.calls⟩

theorem Reported.call (h : Reported w texts) (ht : cstr buf p = t) :
    Reported (w.call cb buf p r keepGoing) (texts ++ [t]) where
  count := by rw [Walk.call, h.count, List.length_append, List.length_singleton]
  calls := by
    rw [Walk.call, List.map_append, h.calls, List.zipIdx_append, Nat.zero_add, h.count, ht]
    rfl

theorem Walk.call_place (hbuf : buf = pre ++ (rest ++ [0])) (hr : r = pre.length)
    (hgo : keepGoing (cb w.arg w.count (cstr buf p)).2 = true) :
    w.call cb buf p r keepGoing = (w.call cb buf p r keepGoing).place pre rest := by
  rw [Walk.place, Walk.call, ← hbuf, ← hr, hgo]

theorem found_of_closingQuote (h : closingQuote buf (p + 1) = some (some r)) :
    skipEscapedQuotes buf p = some (.found r) := by
  rw [← skipEscapedQuotes_temp] at h
  obtain ⟨sought, hsought, htemp⟩ := Option.map_eq_some_iff.mp h
  cases sought with
  | lost rover => cases htemp
  | found temp => rw [hsought, Option.some.inj htemp]

theorem turn_quote (w : Walk σ) (cb : Callback σ) (pre t : Bytes) :
    (w.place pre (ch '"' :: t)).turn cb = (w.place pre (ch '"' :: t)).quotedTurn cb := by
  have hget : (pre ++ ch '"' :: (t ++ [0]))[pre.length]? = some (ch '"') :=
    getElem?_append_length pre _
  rw [Walk.turn]
  simp only [Walk.place, List.cons_append, hget, Option.bind_some, if_pos]

/-- A closed field, whose comma is skipped if there is one. -/
theorem turn_closed (w : Walk σ) (cb : Callback σ) (pre rest : Bytes) (f : RawField) :
    (w.place pre (f.written true ++ rest)).turn cb = (rest ++ [0]).head?.map fun c =>
      w.call cb (pre ++ ch '"' :: (f.text ++ 0 :: (rest ++ [0]))) (pre.length + 1)
        (if c = ch ',' then pre.length + 1 + f.text.length + 1 + 1
          else pre.length + 1 + f.text.length + 1) isZero := by
  have hwritten : f.written true ++ rest = ch '"' :: (f.text ++ ch '"' :: rest) := by
    rw [RawField.written, if_pos rfl, List.cons_append, List.append_assoc, List.singleton_append]
  have hfound := found_of_closingQuote (closingQuote_closed pre (rest ++ [0]) f.closed f.nul)
  have hget : (pre ++ ch '"' :: (f.text ++ 0 :: (rest ++ [0])))[pre.length + 1 + f.text.length + 1]?
      = (rest ++ [0]).head? := by
    have hbuf : pre ++ ch '"' :: (f.text ++ 0 :: (rest ++ [0])) =
        (pre ++ ch '"' :: (f.text ++ [0])) ++ (rest ++ [0]) := by
      simp only [List.append_assoc, List.cons_append, List.nil_append]
    have hlen : pre.length + 1 + f.text.length + 1 = (pre ++ ch '"' :: (f.text ++ [0])).length := by
      simp only [List.length_append, List.length_cons, List.length_nil]
      omega
    rw [hbuf, hlen, getElem?_append_length]
  rw [hwritten, turn_quote, Walk.quotedTurn]
  simp only [Walk.place, List.cons_append, List.append_assoc, hfound, Option.bind_some,
    pokeAt_closing, hget]
  rfl

/-- What the callback is given of a closed field, when it returns 0. -/
theorem Reported.call_closed (h : Reported w texts) (hcb : ReturnsZero cb)
    (pre gap rest : Bytes) (f : RawField)
    (hbuf : buf = pre ++ ch '"' :: (f.text ++ 0 :: (gap ++ (rest ++ [0]))))
    (hr : r = pre.length + 1 + f.text.length + 1 + gap.length) :
    ∃ w' pre', w.call cb buf (pre.length + 1) r isZero = w'.place pre' rest ∧
      Reported w' (texts ++ [f.text]) := by
  have htext : cstr buf (pre.length + 1) = f.text := by
    have hread := cstr_append f.nul (pre ++ [ch '"']) (gap ++ (rest ++ [0]))
    rwa [List.append_assoc, List.singleton_append, List.length_append, List.length_singleton,
      ← hbuf] at hread
  refine ⟨_, pre ++ ch '"' :: (f.text ++ 0 :: gap), Walk.call_place ?_ ?_ ?_, h.call htext⟩
  · simp only [hbuf, List.append_assoc, List.cons_append]
  · simp only [hr, List.length_append, List.length_cons]
    omega
  · exact isZero_eq_true.mpr (hcb _ _ _)

/-- **A closed field** in front of another one. -/
theorem Reported.turn_comma (h : Reported w texts) (hcb : ReturnsZero cb) (pre rest : Bytes)
    (f : RawField) :
    ∃ w' pre', (w.place pre (f.written true ++ ch ',' :: rest)).turn cb =
        some (w'.place pre' rest) ∧
      Reported w' (texts ++ [f.text]) := by
  obtain ⟨w', pre', heq, hw'⟩ := h.call_closed hcb pre [ch ','] rest f rfl rfl
  refine ⟨w', pre', ?_, hw'⟩
  rw [turn_closed, List.cons_append, List.head?_cons, Option.map_some, if_pos rfl, ← heq]
  rfl

/-- **A closed field** at the end of the line. -/
theorem Reported.turn_last (h : Reported w texts) (hcb : ReturnsZero cb) (pre : Bytes)
    (f : RawField) :
    ∃ w' pre', (w.place pre (f.written true)).turn cb = some (w'.place pre' []) ∧
      Reported w' (texts ++ [f.text]) := by
  obtain ⟨w', pre', heq, hw'⟩ := h.call_closed hcb pre [] [] f rfl rfl
  have hturn := turn_closed w cb pre [] f
  rw [List.nil_append, List.head?_cons, Option.map_some, if_neg (by decide), List.append_nil]
    at hturn
  exact ⟨w', pre', hturn.trans (congrArg some heq), hw'⟩

/-- **A field that is not closed**: the loop is to end. -/
theorem Reported.turn_unclosed (h : Reported w texts) (cb : Callback σ) (pre : Bytes)
    (f : RawField) :
    ∃ w', (w.place pre (f.written false)).turn cb = some w' ∧ w'.keepGoing = false ∧
      w'.rover < w'.buf.length ∧ Reported w' (texts ++ [behindLastQuote f.text]) := by
  obtain ⟨a, ha, hlost⟩ := skipEscapedQuotes_unclosed pre f.closed.escaped f.nul
  have hwritten : f.written false = ch '"' :: f.text := by
    rw [RawField.written, if_neg Bool.false_ne_true, List.append_nil]
  have hread : cstr (pre ++ ch '"' :: (f.text ++ [0])) (pre.length + 1 + a.length) =
      behindLastQuote f.text := by
    have hcstr := cstr_append (nul_behindLastQuote f.nul) (pre ++ ch '"' :: a) []
    have hlen : (pre ++ ch '"' :: a).length = pre.length + 1 + a.length := by
      rw [List.length_append, List.length_cons]
      omega
    rw [hlen, List.append_assoc, List.cons_append, ← List.append_assoc a, ← ha] at hcstr
    exact hcstr
  refine ⟨w.call cb _ _ _ never, ?_, rfl, lt_of_lost hlost, h.call hread⟩
  rw [hwritten, turn_quote, Walk.quotedTurn]
  simp only [Walk.place, List.cons_append, hlost, Option.bind_some]
  rfl

/-- **An empty line** is taken for one empty field. -/
theorem Reported.turn_empty (h : Reported w texts) (cb : Callback σ) (pre : Bytes) :
    ∃ w', (w.place pre []).turn cb = some w' ∧ w'.keepGoing = false ∧
      w'.rover < w'.buf.length ∧ Reported w' (texts ++ [[]]) := by
  have hin : pre.length < (pre ++ [0]).length := length_lt pre [] 0
  have hget : (pre ++ [(0 : Byte)])[pre.length]? = some 0 := List.getElem?_concat_length
  have hnone : strchrAt (pre ++ [0]) pre.length (ch ',') = some none :=
    strchrAt_missing pre (by decide) List.not_mem_nil
  have hread : cstr (pre ++ [0]) pre.length = [] := cstr_append List.not_mem_nil pre []
  refine ⟨w.call cb (pre ++ [0]) pre.length pre.length never, ?_, rfl, hin, h.call hread⟩
  have hquote : (0 : Byte) ≠ ch '"' := by decide
  have hspace : (0 : Byte) ≠ ch ' ' := by decide
  rw [Walk.turn, Walk.bareTurn]
  simp only [Walk.place, List.nil_append, hget, Option.bind_some, hquote, hspace, if_false, hnone]
  rfl

end Turn

/-! ## Whole lines -/

section Lines

variable {σ : Type} {cb : Callback σ} {w w' : Walk σ} {pre rest : Bytes} {texts : List Bytes}

/-- The loop goes on in front of a text, and ends at the end of the line. -/
theorem loop_place (h : w.turn cb = some (w'.place pre rest)) (h0 : (0 : Byte) ∉ rest) :
    Walk.loop cb w =
      if rest ≠ [] then Walk.loop cb (w'.place pre rest) else some (w'.place pre rest) := by
  have hget : (pre ++ (rest ++ [0]))[pre.length]? = (rest ++ [0]).head? :=
    getElem?_append_length pre _
  rw [Walk.loop_of_turn h]
  simp only [Walk.place, hget]
  cases rest with
  | nil => rfl
  | cons c r =>
    have hc := (List.ne_and_not_mem_of_not_mem_cons h0).1.symm
    simp only [List.cons_append, List.head?_cons, Option.bind_some, ne_eq, hc, not_false_eq_true,
      and_self, if_true, reduceCtorEq]

theorem loop_stop (h : w.turn cb = some w') (hgo : w'.keepGoing = false)
    (hin : w'.rover < w'.buf.length) : Walk.loop cb w = some w' := by
  rw [Walk.loop_of_turn h, List.getElem?_eq_getElem hin, Option.bind_some, if_neg]
  rw [hgo]
  exact fun hcond => Bool.false_ne_true hcond.2

/-- What the callback is given of the fields. -/
def handedTexts (closing : Bool) : List RawField → List Bytes
  | [] => [[]]
  | [f] => [if closing then f.text else behindLastQuote f.text]
  | f :: g :: fields => f.text :: handedTexts closing (g :: fields)

/-- **The loop** over the fields of a line. -/
theorem Reported.loop (h : Reported w texts) (hcb : ReturnsZero cb)
    (pre : Bytes) (closing : Bool) (fields : List RawField) :
    ∃ w', Walk.loop cb (w.place pre (rawLine closing fields)) = some w' ∧
      Reported w' (texts ++ handedTexts closing fields) := by
  induction fields using rawLine.induct generalizing w pre texts with
  | case1 =>
    obtain ⟨w', hturn, hgo, hin, hw'⟩ := h.turn_empty cb pre
    exact ⟨w', loop_stop hturn hgo hin, hw'⟩
  | case2 f =>
    rw [rawLine, handedTexts]
    cases closing with
    | true =>
      obtain ⟨w', pre', hturn, hw'⟩ := h.turn_last hcb pre f
      rw [loop_place hturn List.not_mem_nil, if_neg (not_not_intro rfl)]
      exact ⟨_, rfl, hw'.place pre' []⟩
    | false =>
      obtain ⟨w', hturn, hgo, hin, hw'⟩ := h.turn_unclosed cb pre f
      exact ⟨w', loop_stop hturn hgo hin, hw'⟩
  | case3 f g fields ih =>
    obtain ⟨w', pre', hturn, hw'⟩ := h.turn_comma hcb pre (rawLine closing (g :: fields)) f
    rw [rawLine, handedTexts, loop_place hturn (noNul_rawLine closing _),
      if_pos (rawLine_cons_ne_nil closing g fields), List.append_cons]
    exact ih hw' pre'

/-- What is reported of the calls says what the callback was given. -/
theorem Reported.unique {texts' : List Bytes} (h : Reported w texts) (h' : Reported w texts') :
    texts = texts' := by
  have hcalls := congrArg (List.map Prod.fst) (h.calls.symm.trans h'.calls)
  rwa [List.zipIdx_map_fst, List.zipIdx_map_fst] at hcalls

theorem walksFields_iff_handed (fields : List RawField) (closing : Bool) :
    WalksFields fields closing ↔ handedTexts closing fields = fields.map RawField.text := by
  have hrun : ∀ {σ : Type} (cb : Callback σ) (arg : σ), ReturnsZero cb →
      ∃ w, qspCallbacker cb arg (RawField.line fields closing) = some w ∧
        Reported w (handedTexts closing fields) := by
    intro σ cb arg hcb
    have hstart : Reported (⟨[], 0, arg, [], 0, true⟩ : Walk σ) [] := ⟨rfl, rfl⟩
    exact hstart.loop hcb [] closing fields
  constructor
  · intro h
    obtain ⟨w, hw, htexts⟩ := h.all (fun _ _ _ => ((), 0)) () fun _ _ _ => rfl
    obtain ⟨w', hw', hhanded⟩ := hrun (fun _ _ _ => ((), 0)) () fun _ _ _ => rfl
    obtain rfl := Option.some.inj (hw.symm.trans hw')
    exact hhanded.unique htexts
  · intro heq
    refine ⟨fun cb arg hcb => ?_, fun cb arg => qspCallbacker_answered cb arg _⟩
    obtain ⟨w, hw, hhanded⟩ := hrun cb arg hcb
    exact ⟨w, hw, heq ▸ hhanded⟩

/-- Nothing is lost exactly of a closed last field, or of one without a quote in it. -/
theorem handedTexts_eq_iff (closing : Bool) (fields : List RawField) :
    handedTexts closing fields = fields.map RawField.text ↔
      fields ≠ [] ∧ (closing = true ∨ ∀ f ∈ fields.getLast?, ch '"' ∉ f.text) := by
  induction fields using rawLine.induct with
  | case1 => exact iff_of_false (List.cons_ne_nil _ _) fun h => h.1 rfl
  | case2 f =>
    cases closing with
    | true => exact iff_of_true rfl ⟨List.cons_ne_nil _ _, .inl rfl⟩
    | false =>
      have hself := behindLastQuote_eq_self (t := f.text)
      simpa [handedTexts] using hself
  | case3 f g fields ih =>
    rw [handedTexts, List.map_cons, List.cons.injEq, and_iff_right rfl, ih]
    simp only [ne_eq, reduceCtorEq, not_false_eq_true, true_and, List.getLast?_cons_cons]

/-- **`qsp_callbacker`** loses no text of a line of fields exactly when there is a field, and the
last one has its closing quote or no quote of its own. -/
theorem walksFields_iff (fields : List RawField) (closing : Bool) :
    WalksFields fields closing ↔
      fields ≠ [] ∧ (closing = true ∨ ∀ f ∈ fields.getLast?, ch '"' ∉ f.text) := by
  rw [walksFields_iff_handed, handedTexts_eq_iff]

/-- A field with an escaped quote in it and no closing one; and no field at all. -/
theorem not_walksFields_unclosed :
    (∃ h h0, ¬WalksFields [⟨bytes "a\\\"b", h, h0⟩] false) ∧ ¬WalksFields [] true := by
  have hclosed : Closed (ch '"') (bytes "a\\\"b") := ⟨by decide, by decide⟩
  have hlost : [behindLastQuote (bytes "a\\\"b")] ≠ [bytes "a\\\"b"] := by decide
  refine ⟨⟨hclosed, by decide, ?_⟩, ?_⟩
  · rw [walksFields_iff_handed]
    exact hlost
  · rw [walksFields_iff_handed]
    decide

end Lines

end FcgiJwtAuth.QuotedStringParser
