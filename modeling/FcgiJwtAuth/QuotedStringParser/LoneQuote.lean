import FcgiJwtAuth.QuotedStringParser.Inplace

/-!
# A quote that nothing follows

Where `rover` steps over the terminator: in front of an empty text, and in front of a lone quote.
The branch of an opening quote moves `rover` behind the quote and, when no closing quote is found,
once more, whether or not there is a character.
-/

namespace FcgiJwtAuth.QuotedStringParser

open CLang

/-- The text is fields and separators with a lone quote behind them, where the quote comes before
`room` fields are filled. -/
inductive Lone : ℕ → Bytes → Prop
  | here {room : ℕ} (hroom : 0 < room) : Lone room [ch '"']
  | blank {room : ℕ} {c : Byte} {rest : Bytes} (hc : c = ch ' ' ∨ c = ch ',') :
    Lone room rest → Lone room (c :: rest)
  | quoted {room : ℕ} {body rest : Bytes} (h : Closed 0 body) :
    Lone room rest → Lone (room + 1) (ch '"' :: (body ++ ch '"' :: rest))
  | unclosed {room : ℕ} {c : Byte} {rest : Bytes} (h : AllEscaped 0 (c :: rest)) :
    Lone room rest → Lone (room + 1) (ch '"' :: c :: rest)
  | comma {room : ℕ} {b rest : Bytes} (h : Bare b) :
    Lone room rest → Lone (room + 1) (b ++ ch ',' :: rest)
  | bare {room : ℕ} {b rest : Bytes} (h : Bare b) :
    Lone room (ch '"' :: rest) → Lone (room + 1) (b ++ ch '"' :: rest)

/-- The text that a turn of the loop has in front of it. -/
inductive Shape : Bytes → Prop
  | empty : Shape []
  | lone : Shape [ch '"']
  | blank {c : Byte} {rest : Bytes} (hc : c = ch ' ' ∨ c = ch ',') : Shape (c :: rest)
  | quoted {body rest : Bytes} (h : Closed 0 body) : Shape (ch '"' :: (body ++ ch '"' :: rest))
  | unclosed {c : Byte} {rest : Bytes} (h : AllEscaped 0 (c :: rest)) :
    Shape (ch '"' :: c :: rest)
  | comma {b rest : Bytes} (h : Bare b) : Shape (b ++ ch ',' :: rest)
  | bare {b rest : Bytes} (h : Bare b) : Shape (b ++ ch '"' :: rest)
  | last {c : Byte} {rest : Bytes} (h : Bare (c :: rest)) : Shape (c :: rest)

section Reads

variable {pre t : Bytes} {ptrs : List ℕ} {n max room : ℕ}

theorem getLast?_append_of_eq {a b : Bytes} {c : Byte} (h : b.getLast? = some c) :
    (a ++ b).getLast? = some c := by
  rw [List.getLast?_append, h, Option.some_or]

/-- The lone quote is the last character of the text. -/
theorem Lone.getLast? (h : Lone room t) : t.getLast? = some (ch '"') := by
  induction h with
  | here hroom => rfl
  | @blank room c rest hc h ih => exact getLast?_append_of_eq (a := [c]) ih
  | @quoted room body rest hbody h ih =>
    have hrest : (ch '"' :: rest).getLast? = some (ch '"') :=
      getLast?_append_of_eq (a := [ch '"']) ih
    exact getLast?_append_of_eq (a := ch '"' :: body) hrest
  | @unclosed room c rest hopen h ih => exact getLast?_append_of_eq (a := [ch '"', c]) ih
  | @comma room b rest hb h ih =>
    exact getLast?_append_of_eq (getLast?_append_of_eq (a := [ch ',']) ih)
  | bare hb h ih => exact getLast?_append_of_eq ih

theorem Lone.quote_mem (h : Lone room t) : ch '"' ∈ t := List.mem_of_getLast? h.getLast?

theorem Lone.room_pos (h : Lone room t) : 0 < room := by
  induction h with
  | here hroom => exact hroom
  | blank hc h ih => exact ih
  | quoted hbody h ih => exact Nat.succ_pos _
  | unclosed hopen h ih => exact Nat.succ_pos _
  | comma hb h ih => exact Nat.succ_pos _
  | bare hb h ih => exact Nat.succ_pos _

/-- A text up to its first comma or quote. -/
theorem exists_unquoted (t : Bytes) :
    ∃ b d, t = b ++ d ∧ ch ',' ∉ b ∧ ch '"' ∉ b ∧
      (d = [] ∨ ∃ rest, d = ch ',' :: rest ∨ d = ch '"' :: rest) := by
  induction t with
  | nil => exact ⟨[], [], rfl, List.not_mem_nil, List.not_mem_nil, .inl rfl⟩
  | cons c t ih =>
    by_cases hcomma : ch ',' = c
    · exact ⟨[], c :: t, rfl, List.not_mem_nil, List.not_mem_nil, .inr ⟨t, .inl (hcomma ▸ rfl)⟩⟩
    by_cases hquote : ch '"' = c
    · exact ⟨[], c :: t, rfl, List.not_mem_nil, List.not_mem_nil, .inr ⟨t, .inr (hquote ▸ rfl)⟩⟩
    obtain ⟨b, d, rfl, hb, hb', hd⟩ := ih
    exact ⟨c :: b, d, rfl, List.not_mem_cons_of_ne_of_not_mem hcomma hb,
      List.not_mem_cons_of_ne_of_not_mem hquote hb', hd⟩

/-- A text that starts with neither a quote nor what is skipped. -/
theorem shape_of_bare {c : Byte} {t : Bytes} (hquote : ch '"' ≠ c) (hcomma : ch ',' ≠ c)
    (hspace : c ≠ ch ' ') (h0 : (0 : Byte) ∉ c :: t) : Shape (c :: t) := by
  obtain ⟨b, d, rfl, hb, hb', hd⟩ := exists_unquoted t
  have hbare : Bare (c :: b) :=
    { notEmpty := List.cons_ne_nil c b
      first := fun h => hspace (Option.some.inj h)
      comma := List.not_mem_cons_of_ne_of_not_mem hcomma hb
      quote := List.not_mem_cons_of_ne_of_not_mem hquote hb'
      nul := fun h => h0 (List.mem_append_left d h) }
  rcases hd with rfl | ⟨rest, rfl | rfl⟩
  · rw [List.append_nil]
    exact .last hbare
  · exact .comma hbare
  · exact .bare hbare

/-- Every text has one of the shapes. -/
theorem shape (t : Bytes) (h0 : (0 : Byte) ∉ t) : Shape t := by
  cases t with
  | nil => exact .empty
  | cons c t =>
    by_cases hquote : ch '"' = c
    · subst hquote
      by_cases hopen : AllEscaped 0 t
      · cases t with
        | nil => exact .lone
        | cons c rest => exact .unclosed hopen
      · obtain ⟨body, rest, rfl, hbody⟩ := exists_closed hopen
        exact .quoted hbody
    by_cases hcomma : ch ',' = c
    · exact .blank (.inr hcomma.symm)
    by_cases hspace : c = ch ' '
    · exact .blank (.inl hspace)
    exact shape_of_bare hquote hcomma hspace h0

theorem nul_not_mem_append {a b : Bytes} (h : (0 : Byte) ∉ a ++ b) :
    (0 : Byte) ∉ a ∧ (0 : Byte) ∉ b := by
  rwa [List.mem_append, not_or] at h

/-- The loop on a text without a field in it reads behind the terminator. -/
theorem loop_empty (pre : Bytes) (ptrs : List ℕ) (n max : ℕ) :
    Scan.loop max (scanAt pre [] ptrs n) = none := by
  have hend := turn_end (b := []) pre nofun List.not_mem_nil List.not_mem_nil ptrs n
  refine loop_out hend ?_
  rw [List.length_append]
  exact le_rfl

theorem loop_lone (pre : Bytes) (ptrs : List ℕ) (n max : ℕ) :
    Scan.loop max (scanAt pre [ch '"'] ptrs n) = none := by
  refine loop_out (turn_open (t := []) pre trivial List.not_mem_nil ptrs n) ?_
  rw [List.length_append]
  exact le_rfl

/-- What a turn leaves for the next one, if there is one. -/
theorem loop_of_lone {s : Scan} {rest : Bytes} (h : s.turn = some (scanAt pre rest ptrs n))
    (h0 : (0 : Byte) ∉ rest) (hlone : Lone room rest) (hroom : max - n = room)
    (hloop : Scan.loop max (scanAt pre rest ptrs n) = none) : Scan.loop max s = none := by
  have hne : rest ≠ [] := List.ne_nil_of_mem hlone.quote_mem
  have hpos := hlone.room_pos
  rw [loop_step h h0, if_pos ⟨hne, by omega⟩, hloop]

/-- **A lone quote is stepped over**, and the terminator with it. -/
theorem loop_eq_none_of_lone (h : Lone room t) (h0 : (0 : Byte) ∉ t) (hroom : max - n = room)
    (pre : Bytes) (ptrs : List ℕ) : Scan.loop max (scanAt pre t ptrs n) = none := by
  induction h generalizing pre ptrs n with
  | here hroom => exact loop_lone pre ptrs n max
  | blank hc h ih =>
    have hrest := List.not_mem_of_not_mem_cons h0
    exact loop_of_lone (turn_blank pre _ hc ptrs n) hrest h hroom (ih hrest hroom _ _)
  | quoted hbody h ih =>
    obtain ⟨h0, hrest⟩ := nul_not_mem_append (List.not_mem_of_not_mem_cons h0)
    have hrest := List.not_mem_of_not_mem_cons hrest
    exact loop_of_lone (turn_quoted pre _ hbody h0 ptrs n) hrest h (by omega)
      (ih hrest (by omega) _ _)
  | unclosed hopen h ih =>
    have h0 := List.not_mem_of_not_mem_cons h0
    have hrest := List.not_mem_of_not_mem_cons h0
    exact loop_of_lone (turn_unclosed pre hopen h0 ptrs n) hrest h (by omega)
      (ih hrest (by omega) _ _)
  | comma hb h ih =>
    have hrest := List.not_mem_of_not_mem_cons (nul_not_mem_append h0).2
    exact loop_of_lone (turn_comma pre _ hb ptrs n) hrest h (by omega) (ih hrest (by omega) _ _)
  | bare hb h ih =>
    have hrest := (nul_not_mem_append h0).2
    exact loop_of_lone (turn_bare pre _ hb ptrs n) hrest h (by omega) (ih hrest (by omega) _ _)

/-- A loop that reads behind the terminator does so in its next turn or in a later one. -/
theorem next_of_loop {s : Scan} {rest : Bytes} (h : s.turn = some (scanAt pre rest ptrs n))
    (h0 : (0 : Byte) ∉ rest) (hloop : Scan.loop max s = none) :
    rest ≠ [] ∧ n < max ∧ Scan.loop max (scanAt pre rest ptrs n) = none := by
  rw [loop_step h h0] at hloop
  split_ifs at hloop with hgo
  exact ⟨hgo.1, hgo.2, hloop⟩

/-- **Nothing else steps over the terminator.** -/
theorem lone_of_loop_eq_none (h0 : (0 : Byte) ∉ t) (ht : t ≠ []) (hn : n < max)
    (h : Scan.loop max (scanAt pre t ptrs n) = none) : Lone (max - n) t := by
  induction hlen : t.length using Nat.strong_induction_on generalizing pre t ptrs n with
  | _ len ih =>
    subst hlen
    -- the text that the turn leaves has a lone quote itself
    have hnext : ∀ {pre' rest ptrs' n'}, (0 : Byte) ∉ rest → rest.length < t.length →
        (scanAt pre t ptrs n).turn = some (scanAt pre' rest ptrs' n') → Lone (max - n') rest := by
      intro pre' rest ptrs' n' hrest hlt hturn
      obtain ⟨hne, hmax, hloop⟩ := next_of_loop hturn hrest h
      exact ih _ hlt hrest hne hmax hloop rfl
    have hroom : max - n = (max - (n + 1)) + 1 := by omega
    cases shape t h0 with
    | empty => exact absurd rfl ht
    | lone => exact .here (by omega)
    | @blank c rest hc =>
      have hrest := List.not_mem_of_not_mem_cons h0
      exact .blank hc (hnext hrest (Nat.lt_succ_self _) (turn_blank pre rest hc ptrs n))
    | @quoted body rest hbody =>
      obtain ⟨h0, hrest⟩ := nul_not_mem_append (List.not_mem_of_not_mem_cons h0)
      have hlt : rest.length < (ch '"' :: (body ++ ch '"' :: rest)).length := by
        simp only [List.length_append, List.length_cons]
        omega
      rw [hroom]
      exact .quoted hbody (hnext (List.not_mem_of_not_mem_cons hrest) hlt
        (turn_quoted pre rest hbody h0 ptrs n))
    | @unclosed c rest hopen =>
      have h0 := List.not_mem_of_not_mem_cons h0
      have hlt : rest.length < (ch '"' :: c :: rest).length := by
        simp only [List.length_cons]
        omega
      rw [hroom]
      exact .unclosed hopen (hnext (List.not_mem_of_not_mem_cons h0) hlt
        (turn_unclosed pre hopen h0 ptrs n))
    | @comma b rest hb =>
      have hrest := List.not_mem_of_not_mem_cons (nul_not_mem_append h0).2
      have hlt : rest.length < (b ++ ch ',' :: rest).length := by
        simp only [List.length_append, List.length_cons]
        omega
      rw [hroom]
      exact .comma hb (hnext hrest hlt (turn_comma pre rest hb ptrs n))
    | @bare b rest hb =>
      have hlt : (ch '"' :: rest).length < (b ++ ch '"' :: rest).length := by
        rw [List.length_append]
        exact Nat.lt_add_of_pos_left (List.length_pos_iff.mpr hb.notEmpty)
      rw [hroom]
      exact .bare hb (hnext (nul_not_mem_append h0).2 hlt (turn_bare pre rest hb ptrs n))
    | @last c rest hb =>
      have hrest := List.not_mem_of_not_mem_cons h0
      have hlone := hnext hrest (Nat.lt_succ_self _) (turn_last pre hb ptrs n)
      exact absurd (List.mem_cons_of_mem c hlone.quote_mem) hb.quote

/-- **The reads and writes are inside of the buffer**, but for an empty text and a lone quote. -/
theorem qspInplace_isSome_iff (input : CStr) (hmax : 0 < max) :
    (qspInplace input max).isSome ↔ input.val ≠ [] ∧ ¬Lone max input.val := by
  have hscan : qspInplace input max = Scan.loop max (scanAt [] input.val [] 0) := rfl
  rw [Option.isSome_iff_ne_none, hscan]
  constructor
  · intro hsome
    refine ⟨fun hnil => hsome ?_, fun hlone => hsome ?_⟩
    · rw [hnil, loop_empty]
    · exact loop_eq_none_of_lone hlone input.noNul (Nat.sub_zero max) [] []
  · rintro ⟨hne, hlone⟩ hnone
    exact hlone (lone_of_loop_eq_none input.noNul hne hmax hnone)

end Reads

end FcgiJwtAuth.QuotedStringParser
