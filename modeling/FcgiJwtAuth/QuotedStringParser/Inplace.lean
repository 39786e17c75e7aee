import FcgiJwtAuth.QuotedStringParser.ClosingQuote

/-!
# Comma-separated fields in place

`qsp_inplace` and what one turn of its loop does, for each shape of the text under `rover`. The
pointers it hands out are recorded in the order of its `va_arg` calls.
-/

namespace FcgiJwtAuth.QuotedStringParser

open CLang

/-! ## The function -/

/-- The buffer with its terminator, the cursor, and what was handed out. -/
structure Scan where
  buf : Bytes
  rover : ℕ
  ptrs : List ℕ
  count : ℕ

/-- `*p = b`, inside of the buffer. -/
def pokeAt (buf : Bytes) (p : ℕ) (b : Byte) : Option Bytes :=
  if p < buf.length then some (poke buf p b) else none

/-- `ptr = va_arg(ap, char **); *ptr = p; … count++`, behind which `rover` is where it is set to. -/
def Scan.store (s : Scan) (buf : Bytes) (p rover : ℕ) : Scan :=
  ⟨buf, rover, s.ptrs ++ [p], s.count + 1⟩

/-- The branch of an opening quote. -/
def Scan.quotedTurn (s : Scan) : Option Scan :=
  (pokeAt s.buf s.rover 0).bind fun buf =>
    (closingQuote buf (s.rover + 1)).bind fun
      | some temp => (pokeAt buf temp 0).map fun buf => s.store buf (s.rover + 1) (temp + 1)
      | none => some (s.store buf (s.rover + 1) (s.rover + 1 + 1))

/-- What is behind the label `go_to_next_comma`. -/
def Scan.goToNextComma (s : Scan) : Option Scan :=
  (strchrAt s.buf s.rover (ch ',')).bind fun
    | some temp => (pokeAt s.buf temp 0).map fun buf => s.store buf s.rover (temp + 1)
    | none => some (s.store s.buf s.rover (s.rover + 1))

/-- The branch of a field without a quote in front of it. -/
def Scan.bareTurn (s : Scan) : Option Scan :=
  (strchrAt s.buf s.rover (ch '"')).bind fun
    | some temp => (strchrAt s.buf s.rover (ch ',')).bind fun
      | some temp2 =>
        if temp2 < temp then s.goToNextComma else some (s.store s.buf s.rover temp)
      | none => some (s.store s.buf s.rover temp)
    | none => s.goToNextComma

/-- The body of the loop. -/
def Scan.turn (s : Scan) : Option Scan :=
  s.buf[s.rover]?.bind fun c =>
    if c = ch '"' then s.quotedTurn
    else if c = ch ' ' then some { s with rover := s.rover + 1 }
    else if c = ch ',' then some { s with rover := s.rover + 1 }
    else s.bareTurn

/-! ## The loop ends -/

section Advance

variable {s s' : Scan} {buf buf' : Bytes} {p q t : ℕ} {b c : Byte}

/-- What each turn leaves as it is, and what it moves on. -/
structure Advance (s s' : Scan) : Prop where
  length : s'.buf.length = s.buf.length
  rover : s.rover < s'.rover
  inside : s.rover < s.buf.length
  count : s.count ≤ s'.count

theorem pokeAt_eq_some (h : pokeAt buf p b = some buf') : buf'.length = buf.length := by
  rw [pokeAt] at h
  split_ifs at h
  obtain rfl := Option.some.inj h
  exact List.length_set

theorem pokeAt_of_getElem? (h : buf[p]? = some c) (b : Byte) :
    pokeAt buf p b = some (poke buf p b) :=
  if_pos (List.getElem?_eq_some_iff.mp h).1

theorem strchrAt_eq_some (h : strchrAt buf p c = some (some t)) : strchr buf p c = some t := by
  rw [strchrAt] at h
  split_ifs at h
  exact Option.some.inj h

theorem Scan.store_advance (hin : s.rover < s.buf.length) (hbuf : buf.length = s.buf.length)
    (hq : s.rover < q) : Advance s (s.store buf p q) :=
  ⟨hbuf, hq, hin, Nat.le_succ s.count⟩

theorem Scan.quotedTurn_advance (hin : s.rover < s.buf.length) (h : s.quotedTurn = some s') :
    Advance s s' := by
  obtain ⟨buf, hpoke, h⟩ := Option.bind_eq_some_iff.mp h
  obtain ⟨found, hfound, h⟩ := Option.bind_eq_some_iff.mp h
  have hbuf := pokeAt_eq_some hpoke
  cases found with
  | none =>
    obtain rfl := Option.some.inj h
    exact Scan.store_advance hin hbuf (by omega)
  | some temp =>
    obtain ⟨buf', hpoke', rfl⟩ := Option.map_eq_some_iff.mp h
    have hle := le_of_closingQuote hfound
    exact Scan.store_advance hin ((pokeAt_eq_some hpoke').trans hbuf) (by omega)

theorem Scan.goToNextComma_advance (hin : s.rover < s.buf.length)
    (h : s.goToNextComma = some s') : Advance s s' := by
  obtain ⟨found, hfound, h⟩ := Option.bind_eq_some_iff.mp h
  cases found with
  | none =>
    obtain rfl := Option.some.inj h
    exact Scan.store_advance hin rfl (Nat.lt_succ_self _)
  | some temp =>
    obtain ⟨buf', hpoke, rfl⟩ := Option.map_eq_some_iff.mp h
    have hle := le_of_strchr (strchrAt_eq_some hfound)
    exact Scan.store_advance hin (pokeAt_eq_some hpoke) (by omega)

theorem Scan.bareTurn_advance (hc : s.buf[s.rover]? ≠ some (ch '"'))
    (hin : s.rover < s.buf.length) (h : s.bareTurn = some s') : Advance s s' := by
  obtain ⟨found, hfound, h⟩ := Option.bind_eq_some_iff.mp h
  cases found with
  | none => exact Scan.goToNextComma_advance hin h
  | some temp =>
    have hquote := strchrAt_eq_some hfound
    have hlt : s.rover < temp := by
      refine lt_of_le_of_ne (le_of_strchr hquote) ?_
      rintro rfl
      exact hc (getElem?_of_strchr hquote)
    have hstore : Advance s (s.store s.buf s.rover temp) := Scan.store_advance hin rfl hlt
    obtain ⟨found', -, h⟩ := Option.bind_eq_some_iff.mp h
    cases found' with
    | none => exact Option.some.inj h ▸ hstore
    | some temp2 =>
      simp only at h
      split_ifs at h
      · exact Scan.goToNextComma_advance hin h
      · exact Option.some.inj h ▸ hstore

/-- **Each turn moves on.** -/
theorem Scan.turn_advance (h : s.turn = some s') : Advance s s' := by
  obtain ⟨c, hc, h⟩ := Option.bind_eq_some_iff.mp h
  obtain ⟨hin, -⟩ := List.getElem?_eq_some_iff.mp hc
  have hnext : Advance s { s with rover := s.rover + 1 } :=
    ⟨rfl, Nat.lt_succ_self _, hin, le_refl _⟩
  split_ifs at h with hquote
  · exact Scan.quotedTurn_advance hin h
  · exact Option.some.inj h ▸ hnext
  · exact Option.some.inj h ▸ hnext
  · refine Scan.bareTurn_advance (fun heq => hquote ?_) hin h
    exact Option.some.inj (hc.symm.trans heq)

end Advance

/-- `do { … } while (*rover != '\0' && count < max)`; `none` is an access behind the terminator. -/
def Scan.loop (max : ℕ) (s : Scan) : Option Scan :=
  match _h : s.turn with
  | none => none
  | some s' =>
    match s'.buf[s'.rover]? with
    | none => none
    | some c => if c ≠ 0 ∧ s'.count < max then Scan.loop max s' else some s'
termination_by s.buf.length - s.rover
decreasing_by
  have hadv := Scan.turn_advance _h
  have hlen := hadv.length
  have hrover := hadv.rover
  have hin := hadv.inside
  omega

/-- `qsp_inplace`. -/
def qspInplace (input : CStr) (max : ℕ) : Option Scan := Scan.loop max ⟨input.val ++ [0], 0, [], 0⟩

/-! ## One turn, by the text under the cursor -/

/-- The cursor in front of `rest`. -/
def scanAt (pre rest : Bytes) (ptrs : List ℕ) (count : ℕ) : Scan :=
  ⟨pre ++ (rest ++ [0]), pre.length, ptrs, count⟩

/-- A text that is read up to the comma behind it. -/
structure Bare (b : Bytes) : Prop where
  notEmpty : b ≠ []
  first : b.head? ≠ some (ch ' ')
  comma : ch ',' ∉ b
  quote : ch '"' ∉ b
  nul : (0 : Byte) ∉ b

section Turn

variable {pre rest a b t body : Bytes} {c : Byte} {ptrs : List ℕ} {n max : ℕ} {s s' : Scan}

theorem length_lt (pre t : Bytes) (c : Byte) : pre.length < (pre ++ c :: t).length := by
  rw [List.length_append, List.length_cons]
  omega

theorem pokeAt_append (pre t : Bytes) (c b : Byte) :
    pokeAt (pre ++ c :: t) pre.length b = some (pre ++ b :: t) := by
  rw [pokeAt, if_pos (length_lt pre t c), poke_append]

theorem strchrAt_of_lt {buf : Bytes} {p : ℕ} (h : p < buf.length) (c : Byte) :
    strchrAt buf p c = some (strchr buf p c) :=
  if_pos h

/-- A search from the cursor on finds what stands behind a text without it. -/
theorem strchrAt_found (pre rest : Bytes) (hc : c ∉ b) (h0 : (0 : Byte) ∉ b) :
    strchrAt (pre ++ (b ++ c :: rest)) pre.length c = some (some (pre.length + b.length)) := by
  have hin : pre.length < (pre ++ (b ++ c :: rest)).length := by
    simp only [List.length_append, List.length_cons]
    omega
  rw [strchrAt_of_lt hin, strchr_append hc h0]

theorem strchrAt_missing (pre : Bytes) (hc0 : c ≠ 0) (hc : c ∉ b) :
    strchrAt (pre ++ (b ++ [0])) pre.length c = some none := by
  have hin : pre.length < (pre ++ (b ++ [0])).length := by
    simp only [List.length_append, List.length_singleton]
    omega
  rw [strchrAt_of_lt hin, strchr_none hc0 hc]

theorem pokeAt_found (pre b rest : Bytes) (c x : Byte) :
    pokeAt (pre ++ (b ++ c :: rest)) (pre.length + b.length) x =
      some (pre ++ (b ++ x :: rest)) := by
  rw [← List.length_append, ← List.append_assoc, pokeAt_append, List.append_assoc]

/-- Where the search for the closing quote ends is written to. -/
theorem pokeAt_closing (pre body rest : Bytes) (prev c x : Byte) :
    pokeAt (pre ++ prev :: (body ++ c :: rest)) (pre.length + 1 + body.length) x =
      some (pre ++ prev :: (body ++ x :: rest)) := by
  have hpoke := pokeAt_found pre (prev :: body) rest c x
  rw [List.length_cons, ← Nat.add_assoc, Nat.add_right_comm] at hpoke
  exact hpoke

/-- The cursor behind a text. -/
theorem scanAt_eq (pre a rest : Bytes) (ptrs : List ℕ) (n : ℕ) :
    scanAt (pre ++ a) rest ptrs n =
      ⟨pre ++ (a ++ (rest ++ [0])), pre.length + a.length, ptrs, n⟩ := by
  rw [scanAt, List.append_assoc, List.length_append]

theorem turn_of_cons (pre rest : Bytes) (c : Byte) (ptrs : List ℕ) (n : ℕ) :
    (scanAt pre (c :: rest) ptrs n).turn =
      if c = ch '"' then (scanAt pre (c :: rest) ptrs n).quotedTurn
      else if c = ch ' ' ∨ c = ch ',' then some (scanAt (pre ++ [c]) rest ptrs n)
      else (scanAt pre (c :: rest) ptrs n).bareTurn := by
  have hget : (pre ++ c :: (rest ++ [0]))[pre.length]? = some c := getElem?_append_length pre _
  rw [Scan.turn, scanAt_eq]
  simp only [scanAt, List.cons_append, List.nil_append, hget, Option.bind_some, ite_or,
    List.length_singleton]

/-- A space or a comma is stepped over. -/
theorem turn_blank (pre rest : Bytes) (hc : c = ch ' ' ∨ c = ch ',') (ptrs : List ℕ) (n : ℕ) :
    (scanAt pre (c :: rest) ptrs n).turn = some (scanAt (pre ++ [c]) rest ptrs n) := by
  have hquote : c ≠ ch '"' := by
    rintro rfl
    revert hc
    decide
  rw [turn_of_cons, if_neg hquote, if_pos hc]

/-- A quoted field, up to the quote that closes it. -/
theorem turn_quoted (pre rest : Bytes) (h : Closed 0 body) (h0 : (0 : Byte) ∉ body)
    (ptrs : List ℕ) (n : ℕ) :
    (scanAt pre (ch '"' :: (body ++ ch '"' :: rest)) ptrs n).turn =
      some (scanAt (pre ++ 0 :: (body ++ [0])) rest (ptrs ++ [pre.length + 1]) (n + 1)) := by
  rw [turn_of_cons, if_pos rfl, scanAt_eq, Scan.quotedTurn]
  simp only [scanAt, List.cons_append, List.append_assoc, pokeAt_append, Option.bind_some,
    closingQuote_closed pre (rest ++ [0]) h h0, pokeAt_closing]
  simp only [Scan.store, Option.map_some, Option.some.injEq, Scan.mk.injEq, List.length_append,
    List.length_cons, List.length_nil, List.nil_append, and_true, true_and]
  omega

/-- An opening quote without a closing one: `rover` is moved twice. -/
theorem turn_open (pre : Bytes) (h : AllEscaped 0 t) (h0 : (0 : Byte) ∉ t) (ptrs : List ℕ)
    (n : ℕ) :
    (scanAt pre (ch '"' :: t) ptrs n).turn =
      some ⟨pre ++ 0 :: (t ++ [0]), pre.length + 2, ptrs ++ [pre.length + 1], n + 1⟩ := by
  rw [turn_of_cons, if_pos rfl, Scan.quotedTurn]
  simp only [scanAt, List.cons_append, pokeAt_append, Option.bind_some,
    closingQuote_unclosed pre h h0, Scan.store]

/-- What is neither a quote nor skipped is a bare field. -/
theorem turn_of_bare (pre t : Bytes) (h : Bare b) (ptrs : List ℕ) (n : ℕ) :
    (scanAt pre (b ++ t) ptrs n).turn = (scanAt pre (b ++ t) ptrs n).bareTurn := by
  obtain ⟨c, r, rfl⟩ := List.exists_cons_of_ne_nil h.notEmpty
  have hquote := (List.ne_and_not_mem_of_not_mem_cons h.quote).1.symm
  have hcomma := (List.ne_and_not_mem_of_not_mem_cons h.comma).1.symm
  have hspace : c ≠ ch ' ' := fun hc => h.first (congrArg some hc)
  rw [List.cons_append, turn_of_cons, if_neg hquote, if_neg (not_or.mpr ⟨hspace, hcomma⟩)]

/-- What a text does not hold is found behind it. -/
theorem le_of_strchr_append (pre t : Bytes) (h : c ∉ a) {q : ℕ}
    (hq : strchr (pre ++ (a ++ t)) pre.length c = some q) : pre.length + a.length ≤ q := by
  have hle := le_of_strchr hq
  have hget := getElem?_of_strchr hq
  by_contra hlt
  rw [List.getElem?_append_right hle, List.getElem?_append_left (by omega)] at hget
  exact h (List.mem_of_getElem? hget)

theorem lt_of_strchr_behind (pre t : Bytes) {d : Byte} (h : c ∉ a) (hd : c ≠ d) {q : ℕ}
    (hq : strchr (pre ++ (a ++ d :: t)) pre.length c = some q) : pre.length + a.length < q := by
  have ha : c ∉ a ++ [d] := by
    rw [List.mem_append, List.mem_singleton]
    exact not_or.mpr ⟨h, hd⟩
  rw [List.append_cons] at hq
  have hle := le_of_strchr_append pre t ha hq
  rw [List.length_append, List.length_singleton] at hle
  omega

theorem goToNextComma_comma (pre rest : Bytes) (h : Bare b) (ptrs : List ℕ) (n : ℕ) :
    (scanAt pre (b ++ ch ',' :: rest) ptrs n).goToNextComma =
      some (scanAt (pre ++ (b ++ [0])) rest (ptrs ++ [pre.length]) (n + 1)) := by
  rw [Scan.goToNextComma, scanAt_eq]
  simp only [scanAt, List.cons_append, List.append_assoc,
    strchrAt_found pre (rest ++ [0]) h.comma h.nul, pokeAt_found, Option.bind_some]
  simp only [Scan.store, Option.map_some, Option.some.injEq, Scan.mk.injEq, List.length_append,
    List.length_cons, List.length_nil, List.nil_append, and_true, true_and]
  omega

/-- A bare field with a comma behind it. -/
theorem turn_comma (pre rest : Bytes) (h : Bare b) (ptrs : List ℕ) (n : ℕ) :
    (scanAt pre (b ++ ch ',' :: rest) ptrs n).turn =
      some (scanAt (pre ++ (b ++ [0])) rest (ptrs ++ [pre.length]) (n + 1)) := by
  have hcomma := strchrAt_found pre (rest ++ [0]) h.comma h.nul
  have hin : pre.length < (pre ++ (b ++ ch ',' :: (rest ++ [0]))).length := by
    simp only [List.length_append, List.length_cons]
    omega
  rw [turn_of_bare pre _ h, ← goToNextComma_comma pre rest h, Scan.bareTurn]
  simp only [scanAt, List.append_assoc, List.cons_append, hcomma, Option.bind_some]
  rw [strchrAt_of_lt hin]
  cases hquote : strchr (pre ++ (b ++ ch ',' :: (rest ++ [0]))) pre.length (ch '"') with
  | none => rfl
  | some temp =>
    -- the quote belongs to a later field
    have hlt := lt_of_strchr_behind pre (rest ++ [0]) h.quote (by decide) hquote
    exact if_pos hlt

/-- A bare field that a quote ends. -/
theorem turn_bare (pre rest : Bytes) (h : Bare b) (ptrs : List ℕ) (n : ℕ) :
    (scanAt pre (b ++ ch '"' :: rest) ptrs n).turn =
      some (scanAt (pre ++ b) (ch '"' :: rest) (ptrs ++ [pre.length]) (n + 1)) := by
  have hquote := strchrAt_found pre (rest ++ [0]) h.quote h.nul
  have hin : pre.length < (pre ++ (b ++ ch '"' :: (rest ++ [0]))).length := by
    simp only [List.length_append, List.length_cons]
    omega
  rw [turn_of_bare pre _ h, Scan.bareTurn, scanAt_eq]
  simp only [scanAt, List.append_assoc, List.cons_append, hquote, Option.bind_some, Scan.store]
  rw [strchrAt_of_lt hin]
  cases hcomma : strchr (pre ++ (b ++ ch '"' :: (rest ++ [0]))) pre.length (ch ',') with
  | none => rfl
  | some temp2 =>
    have hle := le_of_strchr_append pre _ h.comma hcomma
    exact if_neg (by omega)

/-- What has neither a quote nor a comma left: `rover` is moved by one. -/
theorem turn_end (pre : Bytes) (hfirst : b.head? ≠ some (ch ' ')) (hcomma : ch ',' ∉ b)
    (hquote : ch '"' ∉ b) (ptrs : List ℕ) (n : ℕ) :
    (scanAt pre b ptrs n).turn =
      some ⟨pre ++ (b ++ [0]), pre.length + 1, ptrs ++ [pre.length], n + 1⟩ := by
  have hturn : (scanAt pre b ptrs n).turn = (scanAt pre b ptrs n).bareTurn := by
    cases b with
    | nil =>
      rw [Scan.turn, scanAt, List.nil_append, getElem?_append_length]
      rfl
    | cons c r =>
      have hc := (List.ne_and_not_mem_of_not_mem_cons hquote).1.symm
      have hc' := (List.ne_and_not_mem_of_not_mem_cons hcomma).1.symm
      have hspace : c ≠ ch ' ' := fun hc => hfirst (congrArg some hc)
      rw [turn_of_cons, if_neg hc, if_neg (not_or.mpr ⟨hspace, hc'⟩)]
  rw [hturn, Scan.bareTurn, Scan.goToNextComma]
  simp only [scanAt, strchrAt_missing pre (by decide) hquote,
    strchrAt_missing pre (by decide) hcomma, Option.bind_some, Scan.store]

/-- An unclosed quote, where a character is behind it to be skipped. -/
theorem turn_unclosed (pre : Bytes) (h : AllEscaped 0 (c :: rest)) (h0 : (0 : Byte) ∉ c :: rest)
    (ptrs : List ℕ) (n : ℕ) :
    (scanAt pre (ch '"' :: c :: rest) ptrs n).turn =
      some (scanAt (pre ++ [0, c]) rest (ptrs ++ [pre.length + 1]) (n + 1)) := by
  rw [turn_open pre h h0, scanAt_eq]
  rfl

/-- The first character of the last bare field is skipped. -/
theorem turn_last (pre : Bytes) (h : Bare (c :: rest)) (ptrs : List ℕ) (n : ℕ) :
    (scanAt pre (c :: rest) ptrs n).turn =
      some (scanAt (pre ++ [c]) rest (ptrs ++ [pre.length]) (n + 1)) := by
  rw [turn_end pre h.first h.comma h.quote, scanAt_eq]
  rfl

/-! ## One turn of the loop -/

theorem loop_of_turn (h : s.turn = some s') :
    Scan.loop max s = s'.buf[s'.rover]?.bind fun c =>
      if c ≠ 0 ∧ s'.count < max then Scan.loop max s' else some s' := by
  rw [Scan.loop]
  split
  · rename_i hnone
    rw [h] at hnone
    cases hnone
  · rename_i s'' hsome
    obtain rfl := Option.some.inj (h.symm.trans hsome)
    cases s'.buf[s'.rover]? <;> rfl

/-- `*rover != '\0' && count < max`, in front of a text. -/
theorem loop_condition (h0 : (0 : Byte) ∉ rest) (next : Option Scan) :
    ((scanAt pre rest ptrs n).buf[(scanAt pre rest ptrs n).rover]?.bind fun c =>
      if c ≠ 0 ∧ (scanAt pre rest ptrs n).count < max then next
      else some (scanAt pre rest ptrs n)) =
    if rest ≠ [] ∧ n < max then next else some (scanAt pre rest ptrs n) := by
  have hget : (scanAt pre rest ptrs n).buf[(scanAt pre rest ptrs n).rover]? =
      (rest ++ [0]).head? := getElem?_append_length pre _
  rw [hget]
  cases rest with
  | nil => rfl
  | cons c r =>
    have hc := (List.ne_and_not_mem_of_not_mem_cons h0).1.symm
    simp only [List.cons_append, List.head?_cons, Option.bind_some, ne_eq, hc, reduceCtorEq,
      not_false_eq_true, true_and, scanAt]

/-- The loop goes on as long as there is text left and room for a further field. -/
theorem loop_step (h : s.turn = some (scanAt pre rest ptrs n)) (h0 : (0 : Byte) ∉ rest)
    (max : ℕ) :
    Scan.loop max s =
      if rest ≠ [] ∧ n < max then Scan.loop max (scanAt pre rest ptrs n)
      else some (scanAt pre rest ptrs n) := by
  rw [loop_of_turn h, loop_condition h0]

/-- `rover` is behind the terminator, and is read. -/
theorem loop_out (h : s.turn = some s') (hout : s'.buf.length ≤ s'.rover) :
    Scan.loop max s = none := by
  rw [loop_of_turn h, List.getElem?_eq_none hout]
  rfl

theorem loop_count (h : Scan.loop max s = some s') : s.count ≤ s'.count := by
  induction s using Scan.loop.induct max with
  | case1 s hnone =>
    rw [Scan.loop] at h
    split at h
    · cases h
    · rename_i s'' hsome
      rw [hnone] at hsome
      cases hsome
  | case2 s t ht hnone =>
    rw [loop_of_turn ht, hnone] at h
    cases h
  | case3 s t ht c hc hgo ih =>
    rw [loop_of_turn ht, hc, Option.bind_some, if_pos hgo] at h
    exact (Scan.turn_advance ht).count.trans (ih h)
  | case4 s t ht c hc hstop =>
    rw [loop_of_turn ht, hc, Option.bind_some, if_neg hstop] at h
    obtain rfl := Option.some.inj h
    exact (Scan.turn_advance ht).count

end Turn

end FcgiJwtAuth.QuotedStringParser
