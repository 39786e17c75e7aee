import FcgiJwtAuth.QuotedStringParser.Inplace

/-!
# Handing fields to a callback

`qsp_callbacker`. Its search for a closing quote moves `rover` along, and leaves it where it is when
there is none. The loop ends on every input, and not a call is made behind one that was not answered
with 0.
-/

namespace FcgiJwtAuth.QuotedStringParser

open CLang

/-! ## The search -/

/-- Where the search ends: `temp` at the closing quote, or NULL with `rover` left behind. -/
inductive Sought
  | found (temp : ℕ)
  | lost (rover : ℕ)

def Sought.temp : Sought → Option ℕ
  | found temp => some temp
  | lost _ => none

/-- What is behind the label `skip_escaped_quotes`. -/
def skipEscapedQuotes (buf : Bytes) (rover : ℕ) : Option Sought :=
  if rover + 1 < buf.length then
    match _h : strchr buf (rover + 1) (ch '"') with
    | none => some (.lost (rover + 1))
    | some temp =>
      if buf[temp - 1]? = some (ch '\\') then skipEscapedQuotes buf temp else some (.found temp)
  else none
termination_by buf.length - rover
decreasing_by
  have hle := le_of_strchr _h
  omega

section Search

variable {buf : Bytes} {p t : ℕ}

theorem skipEscapedQuotes_of_none (hp : p + 1 < buf.length)
    (h : strchr buf (p + 1) (ch '"') = none) : skipEscapedQuotes buf p = some (.lost (p + 1)) := by
  rw [skipEscapedQuotes, if_pos hp]
  split
  · rfl
  · rename_i hsome
    rw [h] at hsome
    cases hsome

theorem skipEscapedQuotes_of_some (hp : p + 1 < buf.length)
    (h : strchr buf (p + 1) (ch '"') = some t) :
    skipEscapedQuotes buf p =
      if buf[t - 1]? = some (ch '\\') then skipEscapedQuotes buf t else some (.found t) := by
  rw [skipEscapedQuotes, if_pos hp]
  split
  · rename_i hnone
    rw [h] at hnone
    cases hnone
  · rename_i t' hsome
    obtain rfl := Option.some.inj (h.symm.trans hsome)
    rfl

/-- The same quote is found as by the sibling parsers. -/
theorem skipEscapedQuotes_temp (buf : Bytes) (p : ℕ) :
    (skipEscapedQuotes buf p).map Sought.temp = closingQuote buf (p + 1) := by
  induction p using skipEscapedQuotes.induct buf with
  | case1 p hp hnone =>
    rw [skipEscapedQuotes_of_none hp hnone, closingQuote_of_none hp hnone]
    rfl
  | case2 p hp t ht hback ih =>
    rw [skipEscapedQuotes_of_some hp ht, closingQuote_of_some hp ht, if_pos hback, if_pos hback, ih]
  | case3 p hp t ht hback =>
    rw [skipEscapedQuotes_of_some hp ht, closingQuote_of_some hp ht, if_neg hback, if_neg hback]
    rfl
  | case4 p hp =>
    rw [skipEscapedQuotes, closingQuote, if_neg hp, if_neg hp]
    rfl

theorem closingQuote_of_found (h : skipEscapedQuotes buf p = some (.found t)) :
    closingQuote buf (p + 1) = some (some t) := by
  rw [← skipEscapedQuotes_temp, h]
  rfl

/-- `rover` is left inside of the buffer. -/
theorem lt_of_lost (h : skipEscapedQuotes buf p = some (.lost t)) : t < buf.length := by
  induction p using skipEscapedQuotes.induct buf with
  | case1 p hp hnone =>
    rw [skipEscapedQuotes_of_none hp hnone] at h
    cases h
    exact hp
  | case2 p hp q hq hback ih =>
    rw [skipEscapedQuotes_of_some hp hq, if_pos hback] at h
    exact ih h
  | case3 p hp q hq hback =>
    rw [skipEscapedQuotes_of_some hp hq, if_neg hback] at h
    cases h
  | case4 p hp =>
    rw [skipEscapedQuotes, if_neg hp] at h
    cases h

/-- In a terminated buffer the search does not leave it. -/
theorem skipEscapedQuotes_ne_none (h : Terminated buf) (hp : p + 1 < buf.length) :
    skipEscapedQuotes buf p ≠ none := by
  intro hnone
  refine closingQuote_ne_none h hp ?_
  rw [← skipEscapedQuotes_temp, hnone]
  rfl

end Search

/-! ## The function -/

/-- `int (*cb)(void * arg, int idx, char * field)`, which reads its field and keeps in `arg` what it
wants of it. -/
abbrev Callback (σ : Type) := σ → ℕ → Bytes → σ × ℤ

/-- A call of it, and what it returned. -/
structure Call where
  idx : ℕ
  field : Bytes
  answer : ℤ

/-- The buffer with its terminator, the locals of the loop, and the calls. -/
structure Walk (σ : Type) where
  buf : Bytes
  rover : ℕ
  arg : σ
  calls : List Call
  count : ℕ
  keepGoing : Bool

section Function

variable {σ : Type}

/-- `keep_going = … cb(arg, count, field); count++`, behind which `rover` is where it is set to. -/
def Walk.call (w : Walk σ) (cb : Callback σ) (buf : Bytes) (field rover : ℕ)
    (keepGoing : ℤ → Bool) : Walk σ :=
  let r := cb w.arg w.count (cstr buf field)
  ⟨buf, rover, r.1, w.calls ++ [⟨w.count, cstr buf field, r.2⟩], w.count + 1, keepGoing r.2⟩

/-- `keep_going = !cb(…)`. -/
def isZero (answer : ℤ) : Bool := answer = 0

/-- `cb(…); keep_going = 0`. -/
def never (_ : ℤ) : Bool := false

/-- The branch of an opening quote. -/
def Walk.quotedTurn (w : Walk σ) (cb : Callback σ) : Option (Walk σ) :=
  (skipEscapedQuotes w.buf w.rover).bind fun
    | .found temp =>
      (pokeAt w.buf temp 0).bind fun buf => buf[temp + 1]?.map fun c =>
        w.call cb buf (w.rover + 1) (if c = ch ',' then temp + 1 + 1 else temp + 1) isZero
    | .lost rover => some (w.call cb w.buf rover rover never)

/-- The branch of a field without a quote in front of it. -/
def Walk.bareTurn (w : Walk σ) (cb : Callback σ) : Option (Walk σ) :=
  (strchrAt w.buf w.rover (ch ',')).bind fun
    | some temp =>
      (pokeAt w.buf temp 0).map fun buf => w.call cb buf w.rover (temp + 1) isZero
    | none => some (w.call cb w.buf w.rover w.rover never)

/-- The body of the loop. -/
def Walk.turn (w : Walk σ) (cb : Callback σ) : Option (Walk σ) :=
  w.buf[w.rover]?.bind fun c =>
    if c = ch '"' then w.quotedTurn cb
    else if c = ch ' ' then some { w with rover := w.rover + 1 }
    else w.bareTurn cb

end Function

/-! ## What a turn does -/

/-- It steps over a space, or makes one call, and goes on behind its field only if that was answered
with 0. -/
inductive Turned {σ : Type} (cb : Callback σ) (w : Walk σ) : Walk σ → Prop
  | space : Turned cb w { w with rover := w.rover + 1 }
  | called (buf : Bytes) (field rover : ℕ) (keepGoing : ℤ → Bool)
      (hlen : buf.length = w.buf.length)
      (hkeep : ∀ answer, keepGoing answer = true → answer = 0 ∧ w.rover < rover) :
      Turned cb w (w.call cb buf field rover keepGoing)

section Turn

variable {σ : Type} {cb : Callback σ} {w w' : Walk σ} {c : Byte} {answer : ℤ}

theorem isZero_eq_true : isZero answer = true ↔ answer = 0 := decide_eq_true_iff

theorem Walk.quotedTurn_turned (h : w.quotedTurn cb = some w') : Turned cb w w' := by
  obtain ⟨sought, hsought, h⟩ := Option.bind_eq_some_iff.mp h
  cases sought with
  | lost rover =>
    obtain rfl := Option.some.inj h
    exact .called w.buf rover rover never rfl (fun _ hgo => by cases hgo)
  | found temp =>
    obtain ⟨buf, hpoke, h⟩ := Option.bind_eq_some_iff.mp h
    obtain ⟨c, -, rfl⟩ := Option.map_eq_some_iff.mp h
    have hle := le_of_closingQuote (closingQuote_of_found hsought)
    refine .called buf _ _ _ (pokeAt_eq_some hpoke) fun answer hgo => ?_
    refine ⟨isZero_eq_true.mp hgo, ?_⟩
    split_ifs <;> omega

theorem Walk.bareTurn_turned (h : w.bareTurn cb = some w') : Turned cb w w' := by
  obtain ⟨found, hfound, h⟩ := Option.bind_eq_some_iff.mp h
  cases found with
  | none =>
    obtain rfl := Option.some.inj h
    exact .called w.buf w.rover w.rover never rfl (fun _ hgo => by cases hgo)
  | some temp =>
    obtain ⟨buf, hpoke, rfl⟩ := Option.map_eq_some_iff.mp h
    have hle := le_of_strchr (strchrAt_eq_some hfound)
    refine .called buf _ _ _ (pokeAt_eq_some hpoke) fun answer hgo => ?_
    exact ⟨isZero_eq_true.mp hgo, by omega⟩

/-- **Each turn.** -/
theorem Walk.turn_turned (h : w.turn cb = some w') : w.rover < w.buf.length ∧ Turned cb w w' := by
  obtain ⟨c, hc, h⟩ := Option.bind_eq_some_iff.mp h
  refine ⟨(List.getElem?_eq_some_iff.mp hc).1, ?_⟩
  split_ifs at h
  · exact Walk.quotedTurn_turned h
  · exact Option.some.inj h ▸ .space
  · exact Walk.bareTurn_turned h

theorem Turned.length (h : Turned cb w w') : w'.buf.length = w.buf.length := by
  cases h with
  | space => rfl
  | called buf field rover keepGoing hlen hkeep => exact hlen

theorem Turned.lt (h : Turned cb w w') (hgo : w'.keepGoing = true) : w.rover < w'.rover := by
  cases h with
  | space => exact Nat.lt_succ_self _
  | called buf field rover keepGoing hlen hkeep => exact (hkeep _ hgo).2

/-- All the calls were answered with 0, but for the last one where the loop is to end. -/
structure Answered (w : Walk σ) : Prop where
  init : ∀ c ∈ w.calls.dropLast, c.answer = 0
  all : w.keepGoing = true → ∀ c ∈ w.calls, c.answer = 0

theorem Turned.answered (h : Turned cb w w') (hw : Answered w) (hgo : w.keepGoing = true) :
    Answered w' := by
  cases h with
  | space => exact ⟨hw.init, hw.all⟩
  | called buf field rover keepGoing hlen hkeep =>
    refine ⟨?_, fun hgo' => ?_⟩
    · rw [Walk.call, List.dropLast_concat]
      exact hw.all hgo
    · rw [Walk.call, List.forall_mem_append, List.forall_mem_singleton]
      exact ⟨hw.all hgo, (hkeep _ hgo').1⟩

theorem Walk.quotedTurn_safe (hterm : Terminated w.buf) (hc : w.buf[w.rover]? = some (ch '"')) :
    ∃ w', w.quotedTurn cb = some w' ∧ Terminated w'.buf ∧ w'.rover < w'.buf.length := by
  have hin := hterm.lt_of_getElem? hc (by decide)
  obtain ⟨sought, hsought⟩ :=
    Option.ne_none_iff_exists'.mp (skipEscapedQuotes_ne_none hterm hin)
  rw [Walk.quotedTurn, hsought, Option.bind_some]
  cases sought with
  | lost rover => exact ⟨_, rfl, hterm, lt_of_lost hsought⟩
  | found temp =>
    have hquote := getElem?_of_closingQuote (closingQuote_of_found hsought)
    obtain ⟨hterm', hlt⟩ := hterm.cut hquote (by decide)
    obtain ⟨d, hd⟩ : ∃ d, (poke w.buf temp 0)[temp + 1]? = some d :=
      ⟨_, List.getElem?_eq_getElem hlt⟩
    simp only [pokeAt_of_getElem? hquote, Option.bind_some, hd, Option.map_some]
    refine ⟨_, rfl, hterm', ?_⟩
    by_cases hcomma : d = ch ','
    · rw [Walk.call, if_pos hcomma]
      exact hterm'.lt_of_getElem? hd (hcomma ▸ by decide)
    · rw [Walk.call, if_neg hcomma]
      exact hlt

theorem Walk.bareTurn_safe (hterm : Terminated w.buf) (hin : w.rover < w.buf.length) :
    ∃ w', w.bareTurn cb = some w' ∧ Terminated w'.buf ∧ w'.rover < w'.buf.length := by
  rw [Walk.bareTurn, strchrAt, if_pos hin, Option.bind_some]
  cases hfound : strchr w.buf w.rover (ch ',') with
  | none => exact ⟨_, rfl, hterm, hin⟩
  | some temp =>
    have hcomma := getElem?_of_strchr hfound
    obtain ⟨hterm', hlt⟩ := hterm.cut hcomma (by decide)
    simp only [pokeAt_of_getElem? hcomma, Option.map_some]
    exact ⟨_, rfl, hterm', hlt⟩

/-- **Each turn** stays inside of a terminated buffer. -/
theorem Walk.turn_safe (cb : Callback σ) (hterm : Terminated w.buf)
    (hin : w.rover < w.buf.length) :
    ∃ w', w.turn cb = some w' ∧ Terminated w'.buf ∧ w'.rover < w'.buf.length := by
  obtain ⟨c, hc⟩ : ∃ c, w.buf[w.rover]? = some c := ⟨_, List.getElem?_eq_getElem hin⟩
  rw [Walk.turn, hc, Option.bind_some]
  by_cases hquote : c = ch '"'
  · rw [if_pos hquote]
    exact Walk.quotedTurn_safe hterm (hquote ▸ hc)
  by_cases hspace : c = ch ' '
  · rw [if_neg hquote, if_pos hspace]
    exact ⟨_, rfl, hterm, hterm.lt_of_getElem? hc (hspace ▸ by decide)⟩
  · rw [if_neg hquote, if_neg hspace]
    exact Walk.bareTurn_safe hterm hin

end Turn

/-! ## The loop -/

/-- `do { … } while (*rover != '\0' && keep_going)`; `none` is an access behind the terminator. -/
def Walk.loop {σ : Type} (cb : Callback σ) (w : Walk σ) : Option (Walk σ) :=
  match _h : w.turn cb with
  | none => none
  | some w' =>
    match w'.buf[w'.rover]? with
    | none => none
    | some c => if _hgo : c ≠ 0 ∧ w'.keepGoing = true then Walk.loop cb w' else some w'
termination_by w.buf.length - w.rover
decreasing_by
  obtain ⟨hin, hturned⟩ := Walk.turn_turned _h
  have hlen := hturned.length
  have hlt := hturned.lt _hgo.2
  omega

section Loop

variable {σ : Type} {cb : Callback σ} {w w' : Walk σ}

theorem Walk.loop_of_turn (h : w.turn cb = some w') :
    Walk.loop cb w = w'.buf[w'.rover]?.bind fun c =>
      if c ≠ 0 ∧ w'.keepGoing = true then Walk.loop cb w' else some w' := by
  rw [Walk.loop]
  split
  · rename_i hnone
    rw [h] at hnone
    cases hnone
  · rename_i w'' hsome
    obtain rfl := Option.some.inj (h.symm.trans hsome)
    cases w'.buf[w'.rover]? with
    | none => rfl
    | some c => exact dite_eq_ite

/-- **The loop** ends, and with it the calls at the first one that is not answered with 0. -/
theorem Walk.loop_answered (hterm : Terminated w.buf) (hin : w.rover < w.buf.length)
    (hgo : w.keepGoing = true) (hw : Answered w) :
    ∃ w', Walk.loop cb w = some w' ∧ Answered w' := by
  induction hn : w.buf.length - w.rover using Nat.strong_induction_on generalizing w with
  | _ n ih =>
    subst hn
    obtain ⟨w', hturn, hterm', hin'⟩ := Walk.turn_safe cb hterm hin
    obtain ⟨-, hturned⟩ := Walk.turn_turned hturn
    have hw' := hturned.answered hw hgo
    rw [Walk.loop_of_turn hturn, List.getElem?_eq_getElem hin', Option.bind_some]
    split_ifs with hcond
    · refine ih _ ?_ hterm' hin' hcond.2 hw' rfl
      have hlen := hturned.length
      have hlt := hturned.lt hcond.2
      omega
    · exact ⟨w', rfl, hw'⟩

end Loop

/-- `qsp_callbacker`. -/
def qspCallbacker {σ : Type} (cb : Callback σ) (arg : σ) (input : CStr) : Option (Walk σ) :=
  Walk.loop cb ⟨input.val ++ [0], 0, arg, [], 0, true⟩

theorem qspCallbacker_answered {σ : Type} (cb : Callback σ) (arg : σ) (input : CStr) :
    ∃ w, qspCallbacker cb arg input = some w ∧ ∀ c ∈ w.calls.dropLast, c.answer = 0 := by
  have hin : 0 < (input.val ++ [0]).length := by
    rw [List.length_append, List.length_singleton]
    exact Nat.succ_pos _
  have hstart : Answered (⟨input.val ++ [0], 0, arg, [], 0, true⟩ : Walk σ) :=
    ⟨fun _ hc => absurd hc List.not_mem_nil, fun _ _ hc => absurd hc List.not_mem_nil⟩
  obtain ⟨w, hw, hanswered⟩ := Walk.loop_answered (terminated_append input.val) hin rfl hstart
  exact ⟨w, hw, hanswered.init⟩

end FcgiJwtAuth.QuotedStringParser
