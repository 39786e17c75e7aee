import FcgiJwtAuth.QuotedStringParser.Inplace

/-!
# Splitting a command line in place

`qsp_inplace_commandline`, over the buffer and the cursor of `qsp_inplace`. Where that one moves on
by a character, this one leaves its loop.
-/

namespace FcgiJwtAuth.QuotedStringParser

open CLang

/-! ## The function -/

/-- The end of a turn: the loop condition is next, or the loop has been left. -/
inductive CommandTurn
  | goesOn (s : Scan)
  | breaks (s : Scan)

/-- The branch of an opening quote. -/
def Scan.quotedArgument (s : Scan) : Option CommandTurn :=
  (pokeAt s.buf s.rover 0).bind fun buf =>
    (closingQuote buf (s.rover + 1)).bind fun
      | some temp =>
        (pokeAt buf temp 0).map fun buf => .goesOn (s.store buf (s.rover + 1) (temp + 1))
      | none => some (.breaks (s.store buf (s.rover + 1) (s.rover + 1)))

/-- What is behind the label `go_to_next_space`. -/
def Scan.goToNextSpace (s : Scan) : Option CommandTurn :=
  (strchrAt s.buf s.rover (ch ' ')).bind fun
    | some temp => (pokeAt s.buf temp 0).map fun buf => .goesOn (s.store buf s.rover (temp + 1))
    | none => some (.breaks (s.store s.buf s.rover s.rover))

/-- The branch of an argument without a quote in front of it. -/
def Scan.wordArgument (s : Scan) : Option CommandTurn :=
  (strchrAt s.buf s.rover (ch '"')).bind fun
    | some temp => (strchrAt s.buf s.rover (ch ' ')).bind fun
      | some temp2 =>
        if temp2 < temp then s.goToNextSpace
        else some (.goesOn (s.store s.buf s.rover temp))
      | none => some (.goesOn (s.store s.buf s.rover temp))
    | none => s.goToNextSpace

/-- The body of the loop. -/
def Scan.commandTurn (s : Scan) : Option CommandTurn :=
  s.buf[s.rover]?.bind fun c =>
    if c = ch '"' then s.quotedArgument
    else if c = ch ' ' then some (.goesOn { s with rover := s.rover + 1 })
    else s.wordArgument

/-! ## The loop ends, and stays inside of the buffer -/

/-- What a turn does that starts inside of the buffer: it moves on, and where the buffer is
terminated, it stays inside of it. -/
structure TurnsWell (s : Scan) (o : Option CommandTurn) : Prop where
  advance : ∀ s', o = some (.goesOn s') → Advance s s'
  safe : Terminated s.buf → o ≠ none ∧
    ∀ s', o = some (.goesOn s') → Terminated s'.buf ∧ s'.rover < s'.buf.length

section Safety

variable {s s' : Scan} {buf : Bytes} {p t : ℕ} {b c : Byte}

theorem TurnsWell.breaks (s s' : Scan) : TurnsWell s (some (.breaks s')) where
  advance := nofun
  safe := fun _ => ⟨Option.some_ne_none _, nofun⟩

theorem TurnsWell.goesOn (hadvance : Advance s s')
    (hsafe : Terminated s.buf → Terminated s'.buf ∧ s'.rover < s'.buf.length) :
    TurnsWell s (some (.goesOn s')) where
  advance := by
    rintro s'' heq
    cases heq
    exact hadvance
  safe := by
    intro hterm
    refine ⟨Option.some_ne_none _, ?_⟩
    rintro s'' heq
    cases heq
    exact hsafe hterm

/-- A field is stored whose end is a character that is replaced by a terminator. -/
theorem TurnsWell.cut (hlen : buf.length = s.buf.length) (hterm : Terminated s.buf → Terminated buf)
    (ht : buf[t]? = some c) (hc : c ≠ 0) (hin : s.rover < s.buf.length) (hle : s.rover ≤ t) :
    TurnsWell s ((pokeAt buf t 0).map fun buf => .goesOn (s.store buf p (t + 1))) := by
  rw [pokeAt_of_getElem? ht, Option.map_some]
  refine .goesOn (Scan.store_advance hin ((length_poke buf t 0).trans hlen) (by omega)) ?_
  exact fun hs => (hterm hs).cut ht hc

theorem Scan.quotedArgument_turnsWell (h : s.buf[s.rover]? = some (ch '"')) :
    TurnsWell s s.quotedArgument := by
  have hin := (List.getElem?_eq_some_iff.mp h).1
  rw [Scan.quotedArgument, pokeAt_of_getElem? h, Option.bind_some]
  have hlen := length_poke s.buf s.rover 0
  have hterm : Terminated s.buf → Terminated (poke s.buf s.rover 0) :=
    fun hs => (hs.cut h (by decide)).1
  cases hfound : closingQuote (poke s.buf s.rover 0) (s.rover + 1) with
  | none =>
    refine ⟨nofun, fun hs => absurd hfound (closingQuote_ne_none (hterm hs) ?_)⟩
    rw [hlen]
    exact hs.lt_of_getElem? h (by decide)
  | some found =>
    cases found with
    | none => exact .breaks s _
    | some t =>
      have hle := le_of_closingQuote hfound
      exact .cut hlen hterm (getElem?_of_closingQuote hfound) (by decide) hin (by omega)

theorem Scan.goToNextSpace_turnsWell (hin : s.rover < s.buf.length) :
    TurnsWell s s.goToNextSpace := by
  rw [Scan.goToNextSpace, strchrAt_of_lt hin, Option.bind_some]
  cases hfound : strchr s.buf s.rover (ch ' ') with
  | none => exact .breaks s _
  | some t => exact .cut rfl id (getElem?_of_strchr hfound) (by decide) hin (le_of_strchr hfound)

theorem Scan.wordArgument_turnsWell (hin : s.rover < s.buf.length)
    (hc : s.buf[s.rover]? ≠ some (ch '"')) : TurnsWell s s.wordArgument := by
  rw [Scan.wordArgument, strchrAt_of_lt hin, strchrAt_of_lt hin, Option.bind_some]
  cases hquote : strchr s.buf s.rover (ch '"') with
  | none => exact Scan.goToNextSpace_turnsWell hin
  | some temp =>
    have htemp := getElem?_of_strchr hquote
    have hlt : s.rover < temp := by
      refine lt_of_le_of_ne (le_of_strchr hquote) ?_
      rintro rfl
      exact hc htemp
    have hstore : TurnsWell s (some (.goesOn (s.store s.buf s.rover temp))) :=
      .goesOn (Scan.store_advance hin rfl hlt)
        fun hs => ⟨hs, (List.getElem?_eq_some_iff.mp htemp).1⟩
    simp only [Option.bind_some]
    cases strchr s.buf s.rover (ch ' ') with
    | none => exact hstore
    | some temp2 =>
      by_cases hbefore : temp2 < temp
      · simp only [if_pos hbefore]
        exact Scan.goToNextSpace_turnsWell hin
      · simp only [if_neg hbefore]
        exact hstore

/-- **Each turn** moves on, and stays inside of the buffer. -/
theorem Scan.commandTurn_turnsWell (hin : s.rover < s.buf.length) :
    TurnsWell s s.commandTurn := by
  obtain ⟨c, hc⟩ : ∃ c, s.buf[s.rover]? = some c := ⟨_, List.getElem?_eq_getElem hin⟩
  rw [Scan.commandTurn, hc, Option.bind_some]
  by_cases hquote : c = ch '"'
  · rw [if_pos hquote]
    exact Scan.quotedArgument_turnsWell (hquote ▸ hc)
  by_cases hspace : c = ch ' '
  · rw [if_neg hquote, if_pos hspace]
    have hc0 : c ≠ 0 := by
      rw [hspace]
      decide
    exact .goesOn ⟨rfl, Nat.lt_succ_self _, hin, le_refl _⟩
      fun hs => ⟨hs, hs.lt_of_getElem? hc hc0⟩
  · rw [if_neg hquote, if_neg hspace]
    refine Scan.wordArgument_turnsWell hin fun heq => hquote ?_
    exact Option.some.inj (hc.symm.trans heq)

theorem Scan.commandTurn_advance (h : s.commandTurn = some (.goesOn s')) : Advance s s' := by
  obtain ⟨c, hc, -⟩ := Option.bind_eq_some_iff.mp h
  exact (Scan.commandTurn_turnsWell (List.getElem?_eq_some_iff.mp hc).1).advance s' h

end Safety

/-- `do { … } while (*rover != '\0' && count < max)`, with its two `break`s; `none` is an access
behind the terminator. -/
def Scan.commandLoop (max : ℕ) (s : Scan) : Option Scan :=
  match _h : s.commandTurn with
  | none => none
  | some (.breaks s') => some s'
  | some (.goesOn s') =>
    match s'.buf[s'.rover]? with
    | none => none
    | some c => if c ≠ 0 ∧ s'.count < max then Scan.commandLoop max s' else some s'
termination_by s.buf.length - s.rover
decreasing_by
  have hadv := Scan.commandTurn_advance _h
  have hlen := hadv.length
  have hrover := hadv.rover
  have hin := hadv.inside
  omega

section Loop

variable {s s' : Scan} {max : ℕ}

theorem commandLoop_of_breaks (h : s.commandTurn = some (.breaks s')) (max : ℕ) :
    Scan.commandLoop max s = some s' := by
  rw [Scan.commandLoop]
  split
  · rename_i hnone
    rw [h] at hnone
    cases hnone
  · rename_i s'' hbreaks
    rw [h] at hbreaks
    cases hbreaks
    rfl
  · rename_i s'' hgoes
    rw [h] at hgoes
    cases hgoes

theorem commandLoop_of_goesOn (h : s.commandTurn = some (.goesOn s')) (max : ℕ) :
    Scan.commandLoop max s = s'.buf[s'.rover]?.bind fun c =>
      if c ≠ 0 ∧ s'.count < max then Scan.commandLoop max s' else some s' := by
  rw [Scan.commandLoop]
  split
  · rename_i hnone
    rw [h] at hnone
    cases hnone
  · rename_i s'' hbreaks
    rw [h] at hbreaks
    cases hbreaks
  · rename_i s'' hgoes
    rw [h] at hgoes
    cases hgoes
    cases s'.buf[s'.rover]? <;> rfl

/-- **The loop** returns, and stays inside of the buffer. -/
theorem commandLoop_safe (hterm : Terminated s.buf) (hin : s.rover < s.buf.length) :
    ∃ s', Scan.commandLoop max s = some s' := by
  induction hn : s.buf.length - s.rover using Nat.strong_induction_on generalizing s with
  | _ n ih =>
    subst hn
    have hwell := Scan.commandTurn_turnsWell hin
    obtain ⟨hne, hgoes⟩ := hwell.safe hterm
    obtain ⟨turn, hturn⟩ := Option.ne_none_iff_exists'.mp hne
    cases turn with
    | breaks s' => exact ⟨s', commandLoop_of_breaks hturn max⟩
    | goesOn s' =>
      obtain ⟨hterm', hin'⟩ := hgoes s' hturn
      have hadv := hwell.advance s' hturn
      rw [commandLoop_of_goesOn hturn, List.getElem?_eq_getElem hin', Option.bind_some]
      split_ifs
      · refine ih _ ?_ hterm' hin' rfl
        have hlen := hadv.length
        have hrover := hadv.rover
        omega
      · exact ⟨s', rfl⟩

end Loop

/-- `qsp_inplace_commandline`. -/
def qspInplaceCommandline (input : CStr) (max : ℕ) : Option Scan :=
  Scan.commandLoop max ⟨input.val ++ [0], 0, [], 0⟩

theorem qspInplaceCommandline_safe (input : CStr) (max : ℕ) :
    ∃ s, qspInplaceCommandline input max = some s := by
  refine commandLoop_safe (terminated_append input.val) ?_
  rw [List.length_append, List.length_singleton]
  exact Nat.succ_pos _

end FcgiJwtAuth.QuotedStringParser
