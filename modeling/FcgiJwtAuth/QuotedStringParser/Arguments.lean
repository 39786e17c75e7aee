import FcgiJwtAuth.QuotedStringParser.Commandline
import FcgiJwtAuth.QuotedStringParser.Fields

/-!
# Reading a command line

The arguments of a command line, words or quoted texts with spaces between them, and what
`qsp_inplace_commandline` hands out of them: as many as there are pointers, each as it was written.
-/

namespace FcgiJwtAuth.QuotedStringParser

open CLang

/-! ## Arguments -/

/-- A text that is read up to the space behind it. -/
structure Word (text : Bytes) : Prop where
  notEmpty : text ≠ []
  space : ch ' ' ∉ text
  quote : ch '"' ∉ text
  nul : (0 : Byte) ∉ text

/-- An argument of a command line. -/
inductive Argument
  | word (text : Bytes) (h : Word text)
  | quoted (text : Bytes) (h : Quotable text)

namespace Argument

def text : Argument → Bytes
  | word text _ => text
  | quoted text _ => text

/-- The argument as it stands in the line. -/
def written : Argument → Bytes
  | word text _ => text
  | quoted text _ => ch '"' :: (text ++ [ch '"'])

theorem noNul_text (a : Argument) : (0 : Byte) ∉ a.text := by
  cases a with
  | word text h => exact h.nul
  | quoted text h => exact h.nul

theorem noNul_written (a : Argument) : (0 : Byte) ∉ a.written := by
  have hquote : (0 : Byte) ≠ ch '"' := by decide
  cases a with
  | word text h => exact h.nul
  | quoted text h => simpa [written, hquote] using h.nul

theorem written_ne_nil (a : Argument) : a.written ≠ [] := by
  cases a with
  | word text h => exact h.notEmpty
  | quoted text h => exact List.cons_ne_nil _ _

end Argument

def spaces (n : ℕ) : Bytes := List.replicate n (ch ' ')

theorem spaces_succ (n : ℕ) : spaces (n + 1) = ch ' ' :: spaces n := List.replicate_succ

theorem noNul_spaces (n : ℕ) : (0 : Byte) ∉ spaces n :=
  fun hmem => absurd (List.eq_of_mem_replicate hmem) (by decide)

/-- The arguments with spaces behind them, at least one between two arguments. -/
inductive Spaced : List Argument → Bytes → Prop
  | last (a : Argument) (n : ℕ) : Spaced [a] (a.written ++ spaces n)
  | cons (a : Argument) (n : ℕ) {args : List Argument} {rest : Bytes} (h : Spaced args rest) :
      Spaced (a :: args) (a.written ++ (spaces (n + 1) ++ rest))

/-- The line holds the arguments. -/
def CommandLine (args : List Argument) (line : CStr) : Prop :=
  ∃ n rest, line.val = spaces n ++ rest ∧ Spaced args rest

/-- As many arguments are counted as fit in, and each pointer is set to the text of its own. -/
def ReadsArguments (args : List Argument) (max : ℕ) (line : CStr) : Prop :=
  ∃ s, qspInplaceCommandline line max = some s ∧ s.count = min max args.length ∧
    List.Forall₂ (fun p a => cstr s.buf p = Argument.text a) s.ptrs (args.take max)

theorem Spaced.noNul {args : List Argument} {rest : Bytes} (h : Spaced args rest) :
    (0 : Byte) ∉ rest := by
  induction h with
  | last a n =>
    rw [List.mem_append, not_or]
    exact ⟨a.noNul_written, noNul_spaces n⟩
  | cons a n h ih =>
    rw [List.mem_append, List.mem_append, not_or, not_or]
    exact ⟨a.noNul_written, noNul_spaces (n + 1), ih⟩

theorem Spaced.ne_nil {args : List Argument} {rest : Bytes} (h : Spaced args rest) : rest ≠ [] := by
  cases h with
  | last a n => exact List.append_ne_nil_of_left_ne_nil a.written_ne_nil _
  | cons a n h => exact List.append_ne_nil_of_left_ne_nil a.written_ne_nil _

/-! ## One turn, by the text under the cursor -/

section Turn

variable {pre rest text : Bytes} {c : Byte} {ptrs : List ℕ} {n max : ℕ} {s : Scan}

theorem commandTurn_of_cons (pre rest : Bytes) (c : Byte) (ptrs : List ℕ) (n : ℕ) :
    (scanAt pre (c :: rest) ptrs n).commandTurn =
      if c = ch '"' then (scanAt pre (c :: rest) ptrs n).quotedArgument
      else if c = ch ' ' then some (.goesOn (scanAt (pre ++ [c]) rest ptrs n))
      else (scanAt pre (c :: rest) ptrs n).wordArgument := by
  have hget : (pre ++ c :: (rest ++ [0]))[pre.length]? = some c := getElem?_append_length pre _
  rw [Scan.commandTurn, scanAt_eq]
  simp only [scanAt, List.cons_append, List.nil_append, hget, Option.bind_some,
    List.length_singleton]

theorem commandTurn_space (pre rest : Bytes) (ptrs : List ℕ) (n : ℕ) :
    (scanAt pre (ch ' ' :: rest) ptrs n).commandTurn =
      some (.goesOn (scanAt (pre ++ [ch ' ']) rest ptrs n)) := by
  rw [commandTurn_of_cons, if_neg (by decide), if_pos rfl]

/-- A quoted argument: both quotes are written over. -/
theorem commandTurn_quoted (pre rest : Bytes) (h : Quotable text) (ptrs : List ℕ) (n : ℕ) :
    (scanAt pre (ch '"' :: (text ++ ch '"' :: rest)) ptrs n).commandTurn =
      some (.goesOn (scanAt (pre ++ 0 :: (text ++ [0])) rest (ptrs ++ [pre.length + 1])
        (n + 1))) := by
  rw [commandTurn_of_cons, if_pos rfl, scanAt_eq, Scan.quotedArgument]
  simp only [scanAt, List.cons_append, List.append_assoc, pokeAt_append, Option.bind_some,
    closingQuote_closed pre (rest ++ [0]) h.closed h.nul, pokeAt_closing]
  simp only [Scan.store, Option.map_some, Option.some.injEq, CommandTurn.goesOn.injEq,
    Scan.mk.injEq, List.length_append, List.length_cons, List.length_nil, List.nil_append, and_true,
    true_and]
  omega

theorem commandTurn_of_word (pre t : Bytes) (h : Word text) (ptrs : List ℕ) (n : ℕ) :
    (scanAt pre (text ++ t) ptrs n).commandTurn = (scanAt pre (text ++ t) ptrs n).wordArgument := by
  obtain ⟨c, r, rfl⟩ := List.exists_cons_of_ne_nil h.notEmpty
  have hquote := (List.ne_and_not_mem_of_not_mem_cons h.quote).1.symm
  have hspace := (List.ne_and_not_mem_of_not_mem_cons h.space).1.symm
  rw [List.cons_append, commandTurn_of_cons, if_neg hquote, if_neg hspace]

theorem goToNextSpace_space (pre rest : Bytes) (h : Word text) (ptrs : List ℕ) (n : ℕ) :
    (scanAt pre (text ++ ch ' ' :: rest) ptrs n).goToNextSpace =
      some (.goesOn (scanAt (pre ++ (text ++ [0])) rest (ptrs ++ [pre.length]) (n + 1))) := by
  rw [Scan.goToNextSpace, scanAt_eq]
  simp only [scanAt, List.cons_append, List.append_assoc,
    strchrAt_found pre (rest ++ [0]) h.space h.nul, pokeAt_found, Option.bind_some]
  simp only [Scan.store, Option.map_some, Option.some.injEq, CommandTurn.goesOn.injEq,
    Scan.mk.injEq, List.length_append, List.length_cons, List.length_nil, List.nil_append, and_true,
    true_and]
  omega

/-- A word with a space behind it. -/
theorem commandTurn_word (pre rest : Bytes) (h : Word text) (ptrs : List ℕ) (n : ℕ) :
    (scanAt pre (text ++ ch ' ' :: rest) ptrs n).commandTurn =
      some (.goesOn (scanAt (pre ++ (text ++ [0])) rest (ptrs ++ [pre.length]) (n + 1))) := by
  have hspace := strchrAt_found pre (rest ++ [0]) h.space h.nul
  have hin : pre.length < (pre ++ (text ++ ch ' ' :: (rest ++ [0]))).length := by
    simp only [List.length_append, List.length_cons]
    omega
  rw [commandTurn_of_word pre _ h, ← goToNextSpace_space pre rest h, Scan.wordArgument]
  simp only [scanAt, List.append_assoc, List.cons_append, hspace, Option.bind_some]
  rw [strchrAt_of_lt hin]
  cases hquote : strchr (pre ++ (text ++ ch ' ' :: (rest ++ [0]))) pre.length (ch '"') with
  | none => rfl
  | some temp =>
    -- the quote belongs to a later argument
    have hlt := lt_of_strchr_behind pre (rest ++ [0]) h.quote (by decide) hquote
    exact if_pos hlt

/-- A word at the end of the line. -/
theorem commandTurn_last (pre : Bytes) (h : Word text) (ptrs : List ℕ) (n : ℕ) :
    (scanAt pre text ptrs n).commandTurn =
      some (.breaks ⟨pre ++ (text ++ [0]), pre.length, ptrs ++ [pre.length], n + 1⟩) := by
  have hturn := commandTurn_of_word pre [] h ptrs n
  rw [List.append_nil] at hturn
  rw [hturn, Scan.wordArgument, Scan.goToNextSpace]
  simp only [scanAt, strchrAt_missing pre (by decide) h.quote,
    strchrAt_missing pre (by decide) h.space, Option.bind_some, Scan.store]

/-! ## The loop condition -/

/-- The loop at its condition, in front of a text. -/
def commandRest (max : ℕ) (pre rest : Bytes) (ptrs : List ℕ) (n : ℕ) : Option Scan :=
  if rest ≠ [] ∧ n < max then Scan.commandLoop max (scanAt pre rest ptrs n)
  else some (scanAt pre rest ptrs n)

theorem commandLoop_step (h : s.commandTurn = some (.goesOn (scanAt pre rest ptrs n)))
    (h0 : (0 : Byte) ∉ rest) (max : ℕ) :
    Scan.commandLoop max s = commandRest max pre rest ptrs n := by
  rw [commandLoop_of_goesOn h, loop_condition h0, commandRest]

/-- Spaces are skipped. -/
theorem commandRest_spaces (pre : Bytes) (k : ℕ) (h0 : (0 : Byte) ∉ rest) (hn : n < max)
    (ptrs : List ℕ) :
    commandRest max pre (spaces k ++ rest) ptrs n =
      commandRest max (pre ++ spaces k) rest ptrs n := by
  induction k generalizing pre with
  | zero => rw [spaces, List.replicate_zero, List.nil_append, List.append_nil]
  | succ k ih =>
    have hnul : (0 : Byte) ∉ spaces k ++ rest := by
      rw [List.mem_append, not_or]
      exact ⟨noNul_spaces k, h0⟩
    rw [spaces_succ, List.cons_append, commandRest, if_pos ⟨List.cons_ne_nil _ _, hn⟩,
      commandLoop_step (commandTurn_space pre (spaces k ++ rest) ptrs n) hnul, ih,
      List.append_assoc, List.singleton_append]

end Turn

/-! ## Whole lines -/

section Lines

variable {pre rest : Bytes} {ptrs : List ℕ} {done args : List Argument} {max : ℕ}

/-- What comes out of the loop holds the arguments that fit in. -/
def HandsOut (max : ℕ) (args : List Argument) (o : Option Scan) : Prop :=
  ∃ s, o = some s ∧ s.count = (args.take max).length ∧
    HandedOut Argument.text s.buf s.ptrs (args.take max)

/-- The loop ends in front of a text. -/
theorem HandsOut.stop (hdone : HandedOut Argument.text pre ptrs done)
    (htake : (done ++ args).take max = done) (rest : Bytes) :
    HandsOut max (done ++ args) (some (scanAt pre rest ptrs done.length)) := by
  refine ⟨_, rfl, ?_, ?_⟩
  · rw [htake, scanAt]
  · rw [htake]
    exact hdone.append (rest ++ [0])

/-- **One argument** with a space behind it. -/
theorem commandLoop_argument (hdone : HandedOut Argument.text pre ptrs done) (a : Argument) (k : ℕ)
    (h0 : (0 : Byte) ∉ rest) (max : ℕ) :
    ∃ pre' ptrs' k', HandedOut Argument.text pre' ptrs' (done ++ [a]) ∧
      Scan.commandLoop max (scanAt pre (a.written ++ (spaces (k + 1) ++ rest)) ptrs done.length) =
        commandRest max pre' (spaces k' ++ rest) ptrs' (done ++ [a]).length := by
  have hnul : ∀ k, (0 : Byte) ∉ spaces k ++ rest := by
    intro k
    rw [List.mem_append, not_or]
    exact ⟨noNul_spaces k, h0⟩
  rw [List.length_append, List.length_singleton]
  cases a with
  | word text h =>
    refine ⟨_, _, k, (hdone.append (text ++ [0])).snoc ⟨pre, [], rfl, rfl⟩, ?_⟩
    rw [Argument.written, spaces_succ, List.cons_append,
      commandLoop_step (commandTurn_word pre _ h ptrs done.length) (hnul k)]
  | quoted text h =>
    refine ⟨_, _, k + 1, (hdone.append _).snoc (stored_quoted pre text), ?_⟩
    rw [Argument.written, List.cons_append, List.append_assoc, List.singleton_append,
      commandLoop_step (commandTurn_quoted pre _ h ptrs done.length) (hnul (k + 1))]

/-- **The last argument**, with the line ending behind it. -/
theorem HandsOut.last (hdone : HandedOut Argument.text pre ptrs done) (a : Argument)
    (hmax : done.length < max) :
    HandsOut max (done ++ [a]) (Scan.commandLoop max (scanAt pre a.written ptrs done.length)) := by
  have htake : (done ++ [a]).take max = done ++ [a] := by
    apply List.take_of_length_le
    rw [List.length_append, List.length_singleton]
    omega
  have hlen : done.length + 1 = (done ++ [a]).length := by
    rw [List.length_append, List.length_singleton]
  cases a with
  | word text h =>
    have hhanded : HandedOut Argument.text (pre ++ (text ++ [0])) (ptrs ++ [pre.length])
        (done ++ [.word text h]) := (hdone.append _).snoc ⟨pre, [], rfl, rfl⟩
    rw [Argument.written, commandLoop_of_breaks (commandTurn_last pre h ptrs done.length)]
    exact ⟨_, rfl, htake.symm ▸ hlen, htake.symm ▸ hhanded⟩
  | quoted text h =>
    have hhanded : HandedOut Argument.text (pre ++ 0 :: (text ++ [0])) (ptrs ++ [pre.length + 1])
        (done ++ [.quoted text h]) := (hdone.append _).snoc (stored_quoted pre text)
    rw [Argument.written, commandLoop_step (commandTurn_quoted pre [] h ptrs done.length)
      List.not_mem_nil, commandRest, if_neg (fun hgo => hgo.1 rfl)]
    exact ⟨_, rfl, htake.symm ▸ hlen, htake.symm ▸ hhanded.append _⟩

/-- The spaces behind an argument, and what follows them if there is room for it. -/
theorem HandsOut.gap (hdone : HandedOut Argument.text pre ptrs done) (hle : done.length ≤ max)
    (k : ℕ) (h0 : (0 : Byte) ∉ rest)
    (hgo : ∀ pre, HandedOut Argument.text pre ptrs done → done.length < max →
      HandsOut max (done ++ args) (commandRest max pre rest ptrs done.length)) :
    HandsOut max (done ++ args)
      (commandRest max pre (spaces k ++ rest) ptrs done.length) := by
  rcases hle.lt_or_eq with hlt | heq
  · rw [commandRest_spaces pre k h0 hlt]
    exact hgo (pre ++ spaces k) (hdone.append (spaces k)) hlt
  · rw [commandRest, if_neg (fun hgo => hgo.2.ne heq)]
    exact .stop hdone (heq ▸ List.take_left) _

/-- **The loop** hands out the arguments of a line, as many as there are pointers for. -/
theorem Spaced.handsOut (h : Spaced args rest) (hdone : HandedOut Argument.text pre ptrs done)
    (hmax : done.length < max) :
    HandsOut max (done ++ args)
      (Scan.commandLoop max (scanAt pre rest ptrs done.length)) := by
  induction h generalizing pre ptrs done with
  | last a n =>
    cases n with
    | zero =>
      rw [spaces, List.replicate_zero, List.append_nil]
      exact .last hdone a hmax
    | succ k =>
      obtain ⟨pre', ptrs', k', hdone', heq⟩ :=
        commandLoop_argument hdone a k List.not_mem_nil max
      rw [List.append_nil] at heq
      have hle : (done ++ [a]).length ≤ max := List.length_append.trans_le hmax
      have hlast : HandsOut max ((done ++ [a]) ++ [])
          (commandRest max pre' (spaces k' ++ []) ptrs' (done ++ [a]).length) := by
        refine .gap hdone' hle k' List.not_mem_nil fun pre'' hd hlt => ?_
        rw [commandRest, if_neg (fun hgo => hgo.1 rfl)]
        refine .stop hd ?_ []
        rw [List.append_nil, List.take_of_length_le hle]
      rw [heq]
      rwa [List.append_nil (done ++ [a])] at hlast
  | cons a n h ih =>
    obtain ⟨pre', ptrs', k', hdone', heq⟩ := commandLoop_argument hdone a n h.noNul max
    rw [heq, List.append_cons]
    refine .gap hdone' (List.length_append.trans_le hmax) k' h.noNul fun pre'' hd hlt => ?_
    rw [commandRest, if_pos ⟨h.ne_nil, hlt⟩]
    exact ih hd hlt

/-- **The arguments of a line** are read, as many as there are pointers for. -/
theorem readsArguments {line : CStr} (hline : CommandLine args line) (hmax : 1 ≤ max) :
    ReadsArguments args max line := by
  obtain ⟨n, rest, hval, hargs⟩ := hline
  have hnone : HandedOut Argument.text [] [] [] := .nil
  have hscan : qspInplaceCommandline line max =
      commandRest max [] (spaces n ++ rest) [] ([] : List Argument).length := by
    have hne : spaces n ++ rest ≠ [] := List.append_ne_nil_of_right_ne_nil _ hargs.ne_nil
    rw [qspInplaceCommandline, hval, commandRest, if_pos ⟨hne, hmax⟩]
    rfl
  have hreads : HandsOut max ([] ++ args) (qspInplaceCommandline line max) := by
    rw [hscan]
    refine .gap hnone (Nat.zero_le max) n hargs.noNul fun pre hd hlt => ?_
    rw [commandRest, if_pos ⟨hargs.ne_nil, hlt⟩]
    exact hargs.handsOut hd hlt
  obtain ⟨s, hs, hcount, hhanded⟩ := hreads
  exact ⟨s, hs, hcount.trans List.length_take, hhanded.cstr Argument.noNul_text⟩

/-- **`qsp_inplace_commandline`.** It stays inside of the buffer, and hands out the arguments of a
line as they were written. -/
theorem qspInplaceCommandline_reads {max : ℕ} (hmax : 1 ≤ max) :
    (∀ input : CStr, ∃ s, qspInplaceCommandline input max = some s) ∧
    ∀ (args : List Argument) (line : CStr), CommandLine args line →
      ReadsArguments args max line :=
  ⟨fun input => qspInplaceCommandline_safe input max, fun _ _ hline => readsArguments hline hmax⟩

/-- Two arguments, and a pointer for one of them. -/
theorem qspInplaceCommandline_reads_quoted :
    ∃ h h', ReadsArguments [.word (bytes "a") h, .quoted (bytes "b c") h'] 1
      (CStr.lit " a  \"b c\" ") := by
  have hword : Word (bytes "a") := ⟨by decide, by decide, by decide, by decide⟩
  have hquoted : Quotable (bytes "b c") := ⟨by decide, by decide, by decide⟩
  have hline : (CStr.lit " a  \"b c\" ").val =
      spaces 1 ++ (bytes "a" ++ (spaces 2 ++
        (ch '"' :: (bytes "b c" ++ [ch '"']) ++ spaces 1))) := by
    decide
  refine ⟨hword, hquoted, (qspInplaceCommandline_reads (le_refl 1)).2 _ _ ?_⟩
  exact ⟨1, _, hline, .cons (.word _ hword) 1 (.last (.quoted _ hquoted) 1)⟩

end Lines

end FcgiJwtAuth.QuotedStringParser
