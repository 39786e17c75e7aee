import FcgiJwtAuth.QuotedStringParser.LoneQuote
import Mathlib.Data.List.Forall2

/-!
# Reading a list of fields

The fields of a line, bare or quoted, and what `qsp_inplace` hands out of them. All but the last one
are read exactly. Of a last field that is bare, only the first character is skipped when there is
room for more, so that its rest is handed out again.
-/

namespace FcgiJwtAuth.QuotedStringParser

open CLang

/-! ## Fields -/

/-- A text that may stand between quotes. -/
structure Quotable (text : Bytes) : Prop where
  quote : ch '"' ∉ text
  last : text.getLast? ≠ some (ch '\\')
  nul : (0 : Byte) ∉ text

/-- A field of a line. -/
inductive Field
  | bare (text : Bytes) (h : Bare text)
  | quoted (text : Bytes) (h : Quotable text)

namespace Field

def text : Field → Bytes
  | bare text _ => text
  | quoted text _ => text

/-- The field as it stands in the line. -/
def written : Field → Bytes
  | bare text _ => text
  | quoted text _ => ch '"' :: (text ++ [ch '"'])

/-- Nothing of the field is left to be read as a further one. -/
def Final : Field → Prop
  | bare text _ => ∀ c ∈ text.tail, c = ch ' '
  | quoted _ _ => True

theorem noNul_text (f : Field) : (0 : Byte) ∉ f.text := by
  cases f with
  | bare text h => exact h.nul
  | quoted text h => exact h.nul

theorem noNul_written (f : Field) : (0 : Byte) ∉ f.written := by
  have hquote : (0 : Byte) ≠ ch '"' := by decide
  cases f with
  | bare text h => exact h.nul
  | quoted text h => simpa [written, hquote] using h.nul

theorem written_ne_nil (f : Field) : f.written ≠ [] := by
  cases f with
  | bare text h => exact h.notEmpty
  | quoted text h => exact List.cons_ne_nil _ _

end Field

/-- The fields with commas between them. -/
def joined (fields : List Field) : Bytes := [ch ','].intercalate (fields.map Field.written)

theorem joined_singleton (f : Field) : joined [f] = f.written := List.intercalate_singleton

theorem joined_cons {fields : List Field} (f : Field) (h : fields ≠ []) :
    joined (f :: fields) = f.written ++ ch ',' :: joined fields := by
  obtain ⟨g, fields, rfl⟩ := List.exists_cons_of_ne_nil h
  rw [joined, List.map_cons, List.map_cons, List.intercalate_cons_cons, List.append_assoc,
    List.singleton_append]
  rfl

theorem noNul_joined (fields : List Field) : (0 : Byte) ∉ joined fields := by
  have hcomma : (0 : Byte) ≠ ch ',' := by decide
  induction fields with
  | nil => exact List.not_mem_nil
  | cons f fields ih =>
    by_cases h : fields = []
    · rw [h, joined_singleton]
      exact f.noNul_written
    · rw [joined_cons f h, List.mem_append, List.mem_cons, not_or, not_or]
      exact ⟨f.noNul_written, hcomma, ih⟩

theorem joined_ne_nil {fields : List Field} (h : fields ≠ []) : joined fields ≠ [] := by
  obtain ⟨f, fields, rfl⟩ := List.exists_cons_of_ne_nil h
  by_cases hf : fields = []
  · rw [hf, joined_singleton]
    exact f.written_ne_nil
  · rw [joined_cons f hf]
    exact List.append_ne_nil_of_left_ne_nil f.written_ne_nil _

/-- The line. -/
def line (fields : List Field) : CStr := ⟨joined fields, noNul_joined fields⟩

/-- The number of the fields is returned, and each pointer is set to the text of its field. -/
def ReadsFields (fields : List Field) (max : ℕ) : Prop :=
  ∃ s, qspInplace (line fields) max = some s ∧ s.count = fields.length ∧
    List.Forall₂ (fun p f => cstr s.buf p = f.text) s.ptrs fields

/-! ## What is handed out already -/

/-- The text is in the buffer, from `p` on, with its terminator. -/
def Stored (buf : Bytes) (p : ℕ) (t : Bytes) : Prop :=
  ∃ a z, buf = a ++ (t ++ 0 :: z) ∧ a.length = p

theorem Stored.append {buf : Bytes} {p : ℕ} {t : Bytes} (h : Stored buf p t) (x : Bytes) :
    Stored (buf ++ x) p t := by
  obtain ⟨a, z, rfl, hp⟩ := h
  exact ⟨a, z ++ x, by simp only [List.append_assoc, List.cons_append], hp⟩

/-- A text whose quotes were both written over. -/
theorem stored_quoted (pre text : Bytes) :
    Stored (pre ++ 0 :: (text ++ [0])) (pre.length + 1) text :=
  ⟨pre ++ [0], [], by rw [List.append_assoc, List.singleton_append], List.length_append⟩

section HandedOut

variable {β : Type} {text : β → Bytes} {buf : Bytes} {p : ℕ} {ptrs : List ℕ} {done : List β} {f : β}

/-- The pointers that are handed out point to the texts of what has been read. -/
def HandedOut (text : β → Bytes) (buf : Bytes) (ptrs : List ℕ) (done : List β) : Prop :=
  List.Forall₂ (fun p f => Stored buf p (text f)) ptrs done

theorem HandedOut.append (h : HandedOut text buf ptrs done) (x : Bytes) :
    HandedOut text (buf ++ x) ptrs done :=
  h.imp fun _ _ hstored => hstored.append x

theorem HandedOut.snoc (h : HandedOut text buf ptrs done) (hf : Stored buf p (text f)) :
    HandedOut text buf (ptrs ++ [p]) (done ++ [f]) :=
  List.rel_append h (.cons hf .nil)

/-- What is handed out is what is read at the pointers. -/
theorem HandedOut.cstr (hnul : ∀ f, (0 : Byte) ∉ text f) (h : HandedOut text buf ptrs done) :
    List.Forall₂ (fun p f => cstr buf p = text f) ptrs done := by
  refine h.imp fun p f hstored => ?_
  obtain ⟨a, z, rfl, rfl⟩ := hstored
  exact cstr_append (hnul f) a z

end HandedOut

/-- The pointers in front of the cursor point to the fields that are read. -/
def Handed (buf : Bytes) (ptrs : List ℕ) (done : List Field) : Prop :=
  List.Forall₂ (fun p f => Stored buf p f.text) ptrs done

section Handed

variable {buf : Bytes} {p : ℕ} {ptrs : List ℕ} {done : List Field} {f : Field}

theorem Handed.append (h : Handed buf ptrs done) (x : Bytes) : Handed (buf ++ x) ptrs done :=
  HandedOut.append h x

theorem Handed.snoc (h : Handed buf ptrs done) (hf : Stored buf p f.text) :
    Handed buf (ptrs ++ [p]) (done ++ [f]) :=
  HandedOut.snoc h hf

theorem Handed.cstr (h : Handed buf ptrs done) :
    List.Forall₂ (fun p f => cstr buf p = Field.text f) ptrs done :=
  HandedOut.cstr Field.noNul_text h

end Handed

/-! ## All fields but the last -/

section Fields

variable {pre rest text : Bytes} {ptrs : List ℕ} {done : List Field} {n max : ℕ}

theorem Quotable.closed (h : Quotable text) : Closed 0 text where
  escaped := allEscaped_of_not_mem h.quote
  last := by
    rw [List.getLastD_eq_getLast?]
    cases hlast : text.getLast? with
    | none => decide
    | some c => exact fun heq => h.last (hlast.trans (congrArg some heq))

/-- **One field** with a comma behind it. -/
theorem Handed.loop_field (h : Handed pre ptrs done) (f : Field) (hrest : rest ≠ [])
    (h0 : (0 : Byte) ∉ rest) (hmax : done.length + 1 < max) :
    ∃ pre' ptrs', Handed pre' ptrs' (done ++ [f]) ∧
      Scan.loop max (scanAt pre (f.written ++ ch ',' :: rest) ptrs done.length) =
        Scan.loop max (scanAt pre' rest ptrs' (done ++ [f]).length) := by
  rw [List.length_append, List.length_singleton]
  cases f with
  | bare text hb =>
    refine ⟨_, _, (h.append (text ++ [0])).snoc ⟨pre, [], rfl, rfl⟩, ?_⟩
    rw [Field.written, loop_step (turn_comma pre rest hb ptrs done.length) h0,
      if_pos ⟨hrest, hmax⟩]
  | quoted text hq =>
    have hcomma : (0 : Byte) ∉ ch ',' :: rest :=
      List.not_mem_cons_of_ne_of_not_mem (by decide) h0
    have hquoted := turn_quoted pre (ch ',' :: rest) hq.closed hq.nul ptrs done.length
    have hblank := turn_blank (pre ++ 0 :: (text ++ [0])) rest (.inr rfl) (ptrs ++ [pre.length + 1])
      (done.length + 1)
    refine ⟨_, _, ((h.append _).snoc (stored_quoted pre text)).append [ch ','], ?_⟩
    have hwritten : (Field.quoted text hq).written ++ ch ',' :: rest =
        ch '"' :: (text ++ ch '"' :: ch ',' :: rest) := by
      simp only [Field.written, List.cons_append, List.append_assoc, List.nil_append]
    rw [hwritten, loop_step hquoted hcomma, if_pos ⟨List.cons_ne_nil _ _, hmax⟩,
      loop_step hblank h0, if_pos ⟨hrest, hmax⟩]

/-- **The fields in front of the last one.** -/
theorem Handed.loop_fields (h : Handed pre ptrs done) (init : List Field) (last : Field)
    (hmax : (done ++ init).length < max) :
    ∃ pre' ptrs', Handed pre' ptrs' (done ++ init) ∧
      Scan.loop max (scanAt pre (joined (init ++ [last])) ptrs done.length) =
        Scan.loop max (scanAt pre' last.written ptrs' (done ++ init).length) := by
  induction init generalizing pre ptrs done with
  | nil =>
    refine ⟨pre, ptrs, ?_, ?_⟩
    · rwa [List.append_nil]
    · rw [List.append_nil, List.nil_append, joined_singleton]
  | cons f init ih =>
    have hne : init ++ [last] ≠ [] := List.append_ne_nil_of_right_ne_nil init (List.cons_ne_nil _ _)
    rw [List.append_cons] at hmax ⊢
    have hnext : done.length + 1 < max := by
      simp only [List.length_append, List.length_singleton] at hmax
      omega
    obtain ⟨pre₁, ptrs₁, h₁, heq₁⟩ := h.loop_field f (joined_ne_nil hne) (noNul_joined _) hnext
    obtain ⟨pre', ptrs', h', heq'⟩ := ih h₁ hmax
    refine ⟨pre', ptrs', h', ?_⟩
    rw [List.cons_append, joined_cons f hne, heq₁, heq']

/-! ## The last field -/

/-- Spaces behind the last field are skipped. -/
theorem loop_spaces (pre : Bytes) (hrest : rest ≠ []) (h : ∀ c ∈ rest, c = ch ' ') (hn : n < max)
    (ptrs : List ℕ) :
    Scan.loop max (scanAt pre rest ptrs n) = some (scanAt (pre ++ rest) [] ptrs n) := by
  induction rest generalizing pre with
  | nil => exact absurd rfl hrest
  | cons c rest ih =>
    obtain ⟨hc, htail⟩ := List.forall_mem_cons.mp h
    have h0 : (0 : Byte) ∉ rest := fun hmem => absurd (htail 0 hmem) (by decide)
    rw [loop_step (turn_blank pre rest (.inl hc) ptrs n) h0]
    by_cases hnil : rest = []
    · rw [if_neg (fun hgo => hgo.1 hnil), hnil]
    · rw [if_pos ⟨hnil, hn⟩, ih (pre ++ [c]) hnil htail, List.append_assoc, List.singleton_append]

/-- Anything else behind it is a further field. -/
theorem lt_count_of_rest (pre : Bytes) {s : Scan} (hcomma : ch ',' ∉ rest) (hquote : ch '"' ∉ rest)
    (h0 : (0 : Byte) ∉ rest) (h : ∃ c ∈ rest, c ≠ ch ' ') (hn : n < max)
    (hloop : Scan.loop max (scanAt pre rest ptrs n) = some s) : n < s.count := by
  induction rest generalizing pre with
  | nil =>
    obtain ⟨c, hc, -⟩ := h
    exact absurd hc List.not_mem_nil
  | cons c rest ih =>
    have hcomma' := List.not_mem_of_not_mem_cons hcomma
    have hquote' := List.not_mem_of_not_mem_cons hquote
    have h0' := List.not_mem_of_not_mem_cons h0
    by_cases hc : c = ch ' '
    · obtain ⟨d, hd, hne⟩ := h
      have hmem : d ∈ rest := (List.mem_cons.mp hd).resolve_left fun heq => hne (heq.trans hc)
      rw [loop_step (turn_blank pre rest (.inl hc) ptrs n) h0',
        if_pos ⟨List.ne_nil_of_mem hmem, hn⟩] at hloop
      exact ih (pre ++ [c]) hcomma' hquote' h0' ⟨d, hmem, hne⟩ hloop
    · have hbare : Bare (c :: rest) :=
        ⟨List.cons_ne_nil c rest, fun heq => hc (Option.some.inj heq), hcomma, hquote, h0⟩
      rw [loop_step (turn_last pre hbare ptrs n) h0'] at hloop
      split_ifs at hloop
      · exact loop_count hloop
      · exact Option.some.inj hloop ▸ Nat.lt_succ_self n

/-- The outcome of a loop that reads one more field, and no more than this. -/
def ReadsLast (max : ℕ) (s : Scan) (done : List Field) (last : Field) : Prop :=
  ∃ s', Scan.loop max s = some s' ∧ s'.count = done.length + 1 ∧
    List.Forall₂ (fun p f => cstr s'.buf p = f.text) s'.ptrs (done ++ [last])

theorem readsLast_quoted (pre : Bytes) (h : Quotable text) (hdone : Handed pre ptrs done)
    (max : ℕ) :
    ReadsLast max (scanAt pre (Field.quoted text h).written ptrs done.length) done
      (.quoted text h) := by
  have hturn := turn_quoted pre [] h.closed h.nul ptrs done.length
  have hstop := loop_step hturn List.not_mem_nil max
  rw [if_neg (fun hgo => hgo.1 rfl)] at hstop
  exact ⟨_, hstop, rfl, (((hdone.append _).snoc (stored_quoted pre text)).append _).cstr⟩

/-- A last bare field is read exactly when there is no room for more, or nothing to be read. -/
theorem readsLast_bare (pre : Bytes) (h : Bare text) (hdone : Handed pre ptrs done)
    (hlast : done.length + 1 = max ∨ ∀ c ∈ text.tail, c = ch ' ') :
    ReadsLast max (scanAt pre (Field.bare text h).written ptrs done.length) done
      (.bare text h) := by
  obtain ⟨c, r, rfl⟩ := List.exists_cons_of_ne_nil h.notEmpty
  have hstep := loop_step (turn_last pre h ptrs done.length)
    (List.not_mem_of_not_mem_cons h.nul) max
  have hstored : Stored (pre ++ (c :: r ++ [0])) pre.length (c :: r) := ⟨pre, [], rfl, rfl⟩
  have hhanded : Handed (pre ++ (c :: r ++ [0])) (ptrs ++ [pre.length])
      (done ++ [.bare (c :: r) h]) := (hdone.append _).snoc hstored
  by_cases hgo : r ≠ [] ∧ done.length + 1 < max
  · have hspaces := hlast.resolve_left (by omega)
    rw [if_pos hgo, loop_spaces (pre ++ [c]) hgo.1 hspaces hgo.2] at hstep
    refine ⟨_, hstep, rfl, ?_⟩
    have hbuf : (scanAt ((pre ++ [c]) ++ r) [] (ptrs ++ [pre.length]) (done.length + 1)).buf =
        pre ++ (c :: r ++ [0]) := by
      simp only [scanAt, List.append_assoc, List.nil_append, List.cons_append]
    rw [hbuf]
    exact hhanded.cstr
  · rw [if_neg hgo] at hstep
    refine ⟨_, hstep, rfl, ?_⟩
    have hbuf : (scanAt (pre ++ [c]) r (ptrs ++ [pre.length]) (done.length + 1)).buf =
        pre ++ (c :: r ++ [0]) := by
      simp only [scanAt, List.append_assoc, List.nil_append, List.cons_append]
    rw [hbuf]
    exact hhanded.cstr

/-- Otherwise it is counted more than once. -/
theorem lt_count_of_bare (pre : Bytes) {s : Scan} (h : Bare text) (hmax : done.length + 1 < max)
    (hlast : ¬∀ c ∈ text.tail, c = ch ' ')
    (hloop : Scan.loop max (scanAt pre text ptrs done.length) = some s) :
    done.length + 1 < s.count := by
  obtain ⟨c, r, rfl⟩ := List.exists_cons_of_ne_nil h.notEmpty
  push Not at hlast
  obtain ⟨d, hd, hne⟩ := hlast
  have h0 := List.not_mem_of_not_mem_cons h.nul
  rw [loop_step (turn_last pre h ptrs done.length) h0,
    if_pos ⟨List.ne_nil_of_mem hd, hmax⟩] at hloop
  exact lt_count_of_rest (pre ++ [c]) (List.not_mem_of_not_mem_cons h.comma)
    (List.not_mem_of_not_mem_cons h.quote) h0 ⟨d, hd, hne⟩ hmax hloop

/-- The last field is read exactly when it fills the last pointer, or leaves nothing. -/
theorem readsLast_iff (pre : Bytes) (last : Field) (hdone : Handed pre ptrs done)
    (hmax : done.length < max) :
    ReadsLast max (scanAt pre last.written ptrs done.length) done last ↔
      done.length + 1 = max ∨ last.Final := by
  cases last with
  | quoted text h => exact iff_of_true (readsLast_quoted pre h hdone max) (.inr trivial)
  | bare text h =>
    refine ⟨fun ⟨s, hloop, hcount, _⟩ => ?_, readsLast_bare pre h hdone⟩
    by_contra hlast
    obtain ⟨hfull, hfinal⟩ := not_or.mp hlast
    have hlt := lt_count_of_bare pre h (by omega) hfinal hloop
    omega

/-! ## Whole lines -/

/-- **A line of fields** is read exactly when it fills all the pointers, or its last field is
quoted, or is bare with nothing but spaces behind its first character. -/
theorem readsFields_iff {fields : List Field} (hne : fields ≠ []) (hmax : fields.length ≤ max) :
    ReadsFields fields max ↔ fields.length = max ∨ (fields.getLast hne).Final := by
  generalize hlast : fields.getLast hne = last
  obtain ⟨init, rfl⟩ : ∃ init, fields = init ++ [last] :=
    ⟨fields.dropLast, hlast ▸ (List.dropLast_append_getLast hne).symm⟩
  have hlen : (init ++ [last]).length = init.length + 1 := List.length_append
  rw [hlen] at hmax
  have hnone : Handed [] [] [] := .nil
  obtain ⟨pre, ptrs, hdone, hloop⟩ := hnone.loop_fields init last hmax
  have hscan : qspInplace (line (init ++ [last])) max =
      Scan.loop max (scanAt pre last.written ptrs init.length) := hloop
  rw [ReadsFields, hscan, hlen]
  exact readsLast_iff pre last hdone hmax

/-- **`qsp_inplace`.** It stays inside of the buffer, unless the text is empty or the scan comes to
a lone quote; and it reads a line of fields exactly as `readsFields_iff` says. -/
theorem qspInplace_iff {max : ℕ} (hmax : 1 ≤ max) :
    (∀ input : CStr, (qspInplace input max).isSome ↔ input.val ≠ [] ∧ ¬Lone max input.val) ∧
    ∀ (fields : List Field) (hne : fields ≠ []), fields.length ≤ max →
      (ReadsFields fields max ↔ fields.length = max ∨ (fields.getLast hne).Final) :=
  ⟨fun input => qspInplace_isSome_iff input hmax, fun _ hne hlen => readsFields_iff hne hlen⟩

/-- Two bare fields, and a quoted one with a comma in it. -/
theorem qspInplace_iff_line :
    (qspInplace (CStr.lit "ab,\"c, d\",ef") 3).isSome ∧ ∃ hab hcd hef,
      ReadsFields
        [.bare (bytes "ab") hab, .quoted (bytes "c, d") hcd, .bare (bytes "ef") hef] 3 := by
  have hval : (CStr.lit "ab,\"c, d\",ef").val = bytes "ab,\"c, d\",ef" := by decide
  have hab : Bare (bytes "ab") := ⟨by decide, by decide, by decide, by decide, by decide⟩
  have hcd : Quotable (bytes "c, d") := ⟨by decide, by decide, by decide⟩
  have hef : Bare (bytes "ef") := ⟨by decide, by decide, by decide, by decide, by decide⟩
  obtain ⟨hreads, hfields⟩ := qspInplace_iff (by decide : 1 ≤ 3)
  refine ⟨(hreads (CStr.lit "ab,\"c, d\",ef")).mpr ⟨?_, fun hlone => ?_⟩, hab, hcd, hef, ?_⟩
  · rw [hval]
    decide
  · have hlast : (bytes "ab,\"c, d\",ef").getLast? = some (ch 'f') := by decide
    rw [hval] at hlone
    exact absurd (hlast.symm.trans hlone.getLast?) (by decide)
  · exact (hfields _ (List.cons_ne_nil _ _) le_rfl).mpr (.inl rfl)

/-- The terminator of an empty text is stepped over; and of a single field with two characters, the
second one is a field again. -/
theorem not_qspInplace_exact :
    qspInplace (CStr.lit "") 1 = none ∧ ∃ h, ¬ReadsFields [.bare (bytes "ab") h] 2 := by
  have hbare : Bare (bytes "ab") := ⟨by decide, by decide, by decide, by decide, by decide⟩
  refine ⟨loop_empty [] [] 0 1, hbare, fun hreads => ?_⟩
  have hlast := (readsFields_iff (List.cons_ne_nil _ _) (Nat.le_succ 1)).mp hreads
  rcases hlast with hfull | hfinal
  · exact absurd (show 1 = 2 from hfull) (by decide)
  · exact absurd (hfinal (ch 'b') (by decide)) (by decide)

end Fields

end FcgiJwtAuth.QuotedStringParser
