import FcgiJwtAuth.FormDecoder.AttributeNames

/-!
# What the attribute scanner reads

`find_attribute_value` once more, with its reads. A pointer into the header is the text from there
on, the terminator included; `none` is a read behind the terminator. The jump back to `try_again` is
a relation, so that the loop ends is a statement about it.
-/

namespace FcgiJwtAuth.FormDecoder

open CLang

/-! ## The reads -/

/-- `while (my_isspace(*pos)) { pos++; }`. -/
def skipSpaces : Bytes → Option Bytes
  | [] => none
  | c :: rest => if myIsspace c then skipSpaces rest else some (c :: rest)

/-- `strlen(pos)`, which reads up to the terminator. -/
def strlenAt (pos : Bytes) : Option ℕ :=
  if (0 : Byte) ∈ pos then some (upTo 0 pos).length else none

/-- The loop of `qsp_append_to_dynstring`, with `len - count` turns left. -/
def qspScan (delim : Bytes) : ℕ → QspState → Bytes → Option (Bytes × ℕ)
  | 0, _, _ => some ([], 0)
  | _ + 1, _, [] => none
  | left + 1, state, c :: rest =>
    let append (state : QspState) : Option (Bytes × ℕ) :=
      (qspScan delim left state rest).map fun r => (c :: r.1, r.2 + 1)
    let skip (state : QspState) : Option (Bytes × ℕ) :=
      (qspScan delim left state rest).map fun r => (r.1, r.2 + 1)
    if c = ch '"' then
      if state = .inQuotes then skip .outsideQuotes else skip .inQuotes
    else
      match state with
      | .inQuotes => if c = ch '\\' then skip .escape else append .inQuotes
      | .escape => append .inQuotes
      | .outsideQuotes => if c ∈ delim ∨ c = 0 then some ([], 0) else append .outsideQuotes

/-- `qsp_append_to_dynstring(dynstring, pos, strlen(pos), delim)`. -/
def qspAppendAt (pos delim : Bytes) : Option (Bytes × ℕ) :=
  (strlenAt pos).bind fun len => qspScan delim len .outsideQuotes pos

/-- `if (*pos == '=')`: the value, and `pos` behind it. -/
def readValueAt (pos : Bytes) : Option (Bytes × Bytes) :=
  pos.head?.bind fun c =>
    if c = ch '=' then
      (qspAppendAt pos.tail (bytes ";")).map fun r => (r.1, pos.tail.drop r.2)
    else some ([], pos)

/-- How a turn ends. -/
inductive Turn
  | returns (value : Option CStr)
  | tryAgain (pos : Bytes)

/-- One turn of `find_attribute_value`, from `try_again:` on. -/
def turn (attrib : CStr) (pos : Bytes) : Option Turn :=
  (skipSpaces pos).bind fun pos =>
    (qspAppendAt pos (bytes ";=")).bind fun name =>
      (readValueAt (pos.drop name.2)).bind fun value =>
        if strncmp name.1.length attrib.val name.1 = 0 then
          some (.returns (some (CStr.ofBytes value.1)))
        else value.2.head?.map fun c =>
          if c = 0 ∧ c ≠ ch ';' then .returns none else .tryAgain value.2.tail

/-- The loop returns a value after a number of turns, none of which reads behind the terminator. -/
inductive Returns (attrib : CStr) : ℕ → Bytes → Option CStr → Prop
  | last {pos : Bytes} {value : Option CStr} (hturn : turn attrib pos = some (.returns value)) :
    Returns attrib 1 pos value
  | next {n : ℕ} {pos pos' : Bytes} {value : Option CStr}
      (hturn : turn attrib pos = some (.tryAgain pos')) :
    Returns attrib n pos' value → Returns attrib (n + 1) pos value

/-! ## One turn -/

section Turn

variable {delim t : Bytes} {attrib : CStr}

theorem skipSpaces_append (t : Bytes) :
    skipSpaces (t ++ [0]) = some (t.dropWhile myIsspace ++ [0]) := by
  induction t with
  | nil => rfl
  | cons c t ih =>
    rw [List.cons_append, skipSpaces, List.dropWhile_cons]
    by_cases hc : myIsspace c = true
    · rw [if_pos hc, if_pos hc, ih]
    · rw [if_neg hc, if_neg hc, List.cons_append]

/-- The scanner reads the characters that it is given the number of, and no others. -/
theorem qspScan_append (state : QspState) (t rest : Bytes) :
    qspScan delim t.length state (t ++ rest) = some (qspLoop delim state t) := by
  induction t generalizing state with
  | nil => cases state <;> rfl
  | cons c t ih =>
    cases state <;>
      (rw [List.length_cons, List.cons_append, qspScan, qspLoop]
       simp only [ih, Option.map_some]
       split_ifs <;> rfl)

theorem qspAppendAt_append (h0 : (0 : Byte) ∉ t) :
    qspAppendAt (t ++ [0]) delim = some (qspAppendToDynstring t delim) := by
  have hlen : strlenAt (t ++ [0]) = some t.length := by
    rw [strlenAt, if_pos (List.mem_append_right t List.mem_cons_self), upTo_append_cons h0]
  rw [qspAppendAt, hlen, Option.bind_some, qspScan_append]
  rfl

/-- **The scanner stops** in front of a delimiter, or at the end of the text. -/
theorem qspLoop_stop (delim : Bytes) (state : QspState) (h0 : (0 : Byte) ∉ t) :
    ∃ front behind, t = front ++ behind ∧ front.length = (qspLoop delim state t).2 ∧
      ∀ c, behind.head? = some c → c ∈ delim := by
  induction t generalizing state with
  | nil => exact ⟨[], [], rfl, by cases state <;> rfl, nofun⟩
  | cons c t ih =>
    obtain ⟨hc0, h0⟩ := List.ne_and_not_mem_of_not_mem_cons h0
    -- a turn that goes on consumes `c`
    have hgo : ∀ state', (qspLoop delim state (c :: t)).2 = (qspLoop delim state' t).2 + 1 →
        ∃ front behind, c :: t = front ++ behind ∧
          front.length = (qspLoop delim state (c :: t)).2 ∧
            ∀ c, behind.head? = some c → c ∈ delim := by
      intro state' hnext
      obtain ⟨front, behind, rfl, hlen, hbehind⟩ := ih state' h0
      exact ⟨c :: front, behind, rfl, by rw [hnext, ← hlen, List.length_cons], hbehind⟩
    by_cases hquote : c = ch '"'
    · subst hquote
      cases state with
      | inQuotes => exact hgo .outsideQuotes (congrArg Prod.snd (qspLoop_close t))
      | escape =>
        refine hgo .inQuotes ?_
        rw [qspLoop]
        exact congrArg Prod.snd (if_pos rfl)
      | outsideQuotes => exact hgo .inQuotes (congrArg Prod.snd (qspLoop_open t))
    cases state with
    | inQuotes =>
      by_cases hback : c = ch '\\'
      · refine hgo .escape ?_
        rw [qspLoop]
        simp only [if_neg hquote, if_pos hback]
      · refine hgo .inQuotes ?_
        rw [qspLoop]
        simp only [if_neg hquote, if_neg hback]
    | escape =>
      refine hgo .inQuotes ?_
      rw [qspLoop]
      simp only [if_neg hquote]
    | outsideQuotes =>
      by_cases hdelim : c ∈ delim
      · refine ⟨[], c :: t, rfl, ?_, fun d hd => Option.some.inj hd ▸ hdelim⟩
        rw [qspLoop]
        simp only [if_neg hquote, if_pos (Or.inl hdelim : c ∈ delim ∨ c = 0), List.length_nil]
      · refine hgo .outsideQuotes ?_
        rw [qspLoop]
        simp only [if_neg hquote, if_neg (not_or.mpr ⟨hdelim, hc0.symm⟩)]

/-- What is consumed leaves the terminator, and a delimiter in front if anything else. -/
theorem drop_qspAppend (delim : Bytes) (h0 : (0 : Byte) ∉ t) :
    (t ++ [0]).drop (qspAppendToDynstring t delim).2 =
        t.drop (qspAppendToDynstring t delim).2 ++ [0] ∧
      ∀ c, (t.drop (qspAppendToDynstring t delim).2).head? = some c → c ∈ delim := by
  obtain ⟨front, behind, hsplit, hlen, hbehind⟩ := qspLoop_stop delim .outsideQuotes h0
  rw [qspAppendToDynstring, ← hlen, hsplit, List.append_assoc, List.drop_left, List.drop_left]
  exact ⟨rfl, hbehind⟩

theorem readValueAt_append (h0 : (0 : Byte) ∉ t) :
    readValueAt (t ++ [0]) = some ((readValue t).1, (readValue t).2 ++ [0]) := by
  cases t with
  | nil => rfl
  | cons c rest =>
    have hrest := List.not_mem_of_not_mem_cons h0
    rw [readValueAt, List.cons_append, List.head?_cons, Option.bind_some, List.tail_cons, readValue]
    by_cases hc : c = ch '='
    · rw [if_pos hc, if_pos hc, qspAppendAt_append hrest, Option.map_some,
        (drop_qspAppend (bytes ";") hrest).1]
    · rw [if_neg hc, if_neg hc, List.cons_append]

/-- **A turn** reads what `readAttribute` reads, and nothing behind the terminator. -/
theorem turn_append (attrib : CStr) (h0 : (0 : Byte) ∉ t) :
    turn attrib (t ++ [0]) = some
      (if strncmp (readAttribute t).name.length attrib.val (readAttribute t).name = 0 then
        .returns (some (CStr.ofBytes (readAttribute t).value))
      else if (readAttribute t).pos = [] then .returns none
      else .tryAgain ((readAttribute t).pos.tail ++ [0])) := by
  have hspaces : (0 : Byte) ∉ t.dropWhile myIsspace :=
    fun h => h0 ((List.dropWhile_suffix myIsspace).subset h)
  have hdrop := (drop_qspAppend (bytes ";=") hspaces).1
  have hbehind : ∀ n, (0 : Byte) ∉ (t.dropWhile myIsspace).drop n :=
    fun n h => hspaces (List.mem_of_mem_drop h)
  have hpos0 : (0 : Byte) ∉ (readAttribute t).pos :=
    fun h => h0 (mem_of_mem_readAttribute (.inr (.inr h)))
  rw [turn, skipSpaces_append, Option.bind_some, qspAppendAt_append hspaces, Option.bind_some,
    hdrop, readValueAt_append (hbehind _), Option.bind_some]
  show (if strncmp (readAttribute t).name.length attrib.val (readAttribute t).name = 0 then
    some (Turn.returns (some (CStr.ofBytes (readAttribute t).value)))
    else ((readAttribute t).pos ++ [0]).head?.map fun c =>
      if c = 0 ∧ c ≠ ch ';' then Turn.returns none
      else Turn.tryAgain ((readAttribute t).pos ++ [0]).tail) = _
  by_cases hmatch : strncmp (readAttribute t).name.length attrib.val (readAttribute t).name = 0
  · rw [if_pos hmatch, if_pos hmatch]
  rw [if_neg hmatch, if_neg hmatch]
  cases hpos : (readAttribute t).pos with
  | nil => rfl
  | cons c rest =>
    rw [hpos] at hpos0
    have hc : ¬(c = 0 ∧ c ≠ ch ';') :=
      fun h => (List.ne_and_not_mem_of_not_mem_cons hpos0).1 h.1.symm
    rw [List.cons_append, List.head?_cons, Option.map_some, if_neg hc,
      if_neg (List.cons_ne_nil c rest), List.tail_cons, List.tail_cons]

/-- The value, if there is one, is read up to a semicolon or the end. -/
theorem readValue_stop (h0 : (0 : Byte) ∉ t) (hstop : ∀ c, t.head? = some c → c ∈ bytes ";=") :
    ∀ c, (readValue t).2.head? = some c → c = ch ';' := by
  have hsemicolon : bytes ";" = [ch ';'] := by decide
  have hboth : bytes ";=" = [ch ';', ch '='] := by decide
  intro c hc
  cases t with
  | nil => cases hc
  | cons d rest =>
    rw [readValue] at hc
    split_ifs at hc with hd
    · have hrest := (drop_qspAppend (bytes ";") (List.not_mem_of_not_mem_cons h0)).2 c hc
      rwa [hsemicolon, List.mem_singleton] at hrest
    · have hin := hstop d rfl
      rw [hboth, List.mem_pair] at hin
      exact (Option.some.inj hc).symm.trans (hin.resolve_right hd)

/-- A turn stops in front of a semicolon, or at the end. -/
theorem readAttribute_stop (h0 : (0 : Byte) ∉ t) :
    ∀ c, (readAttribute t).pos.head? = some c → c = ch ';' := by
  have hspaces : (0 : Byte) ∉ t.dropWhile myIsspace :=
    fun h => h0 ((List.dropWhile_suffix myIsspace).subset h)
  exact readValue_stop (mt List.mem_of_mem_drop hspaces) (drop_qspAppend (bytes ";=") hspaces).2

theorem readAttribute_suffix (t : Bytes) : (readAttribute t).pos <:+ t := by
  have hvalue : ∀ p, (readValue p).2 <:+ p := by
    intro p
    cases p with
    | nil => exact List.suffix_rfl
    | cons c rest =>
      rw [readValue]
      split_ifs
      · exact (List.drop_suffix _ rest).trans (List.suffix_cons c rest)
      · exact List.suffix_rfl
  exact (hvalue _).trans ((List.drop_suffix _ _).trans (List.dropWhile_suffix _))

end Turn

/-! ## The loop -/

section Loop

variable {t : Bytes}

theorem exists_returns (attrib : CStr) (h0 : (0 : Byte) ∉ t) :
    ∃ n ≤ t.count (ch ';') + 1, Returns attrib n (t ++ [0]) (findAttributeValue t attrib) := by
  induction hlen : t.length using Nat.strong_induction_on generalizing t with
  | _ len ih =>
    subst hlen
    have hturn := turn_append attrib h0
    by_cases hmatch : strncmp (readAttribute t).name.length attrib.val (readAttribute t).name = 0
    · rw [if_pos hmatch] at hturn
      rw [findAttributeValue_of_match rfl hmatch]
      exact ⟨1, Nat.le_add_left 1 _, .last hturn⟩
    rw [if_neg hmatch] at hturn
    cases hpos : (readAttribute t).pos with
    | nil =>
      rw [if_pos hpos] at hturn
      rw [findAttributeValue_of_end rfl hmatch hpos]
      exact ⟨1, Nat.le_add_left 1 _, .last hturn⟩
    | cons c rest =>
      have hne : (readAttribute t).pos ≠ [] := hpos ▸ List.cons_ne_nil c rest
      have hsuffix := readAttribute_suffix t
      have hc := readAttribute_stop h0 c (by rw [hpos, List.head?_cons])
      rw [if_neg hne, hpos, List.tail_cons] at hturn
      rw [hpos, hc] at hsuffix
      have hshorter : rest.length < t.length := hsuffix.length_le
      have hcount := hsuffix.sublist.count_le (ch ';')
      rw [List.count_cons_self] at hcount
      have hrest : (0 : Byte) ∉ rest :=
        fun h => h0 (hsuffix.subset (List.mem_cons_of_mem _ h))
      obtain ⟨n, hn, hreturns⟩ := ih rest.length hshorter hrest rfl
      rw [findAttributeValue_of_next rfl hmatch hne, hpos, List.tail_cons]
      exact ⟨n + 1, by omega, .next hturn hreturns⟩

end Loop

/-- **The loop ends** for every header and every name, after no more than one turn for each
semicolon and one for what is behind the last of them. No turn reads behind the terminator, and what
is returned is what `findAttributeValue` is. -/
theorem returns_findAttributeValue (hdr attrib : CStr) :
    ∃ n ≤ hdr.val.count (ch ';') + 1,
      Returns attrib n (hdr.val ++ [0]) (findAttributeValue hdr.val attrib) :=
  exists_returns attrib hdr.noNul

end FcgiJwtAuth.FormDecoder
