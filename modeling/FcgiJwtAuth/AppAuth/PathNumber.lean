import FcgiJwtAuth.CLang.Strtol

/-!
# A number in a path

`appauth_parse_first_number` reads the component of a path that an index selects. A pointer into the
path is the text from there on, the terminator included; `none` is a read behind the terminator.
-/

namespace FcgiJwtAuth

open CLang

/-! ## The function -/

/-- `while (*p != '\0' && *p != '/') p++`. -/
def skipComponent : Bytes → Option Bytes
  | [] => none
  | c :: rest => if c ≠ 0 ∧ c ≠ ch '/' then skipComponent rest else some (c :: rest)

/-- The `for` loop, with the number of turns left. Inside, `none` is the `return 0` of it. -/
def advance : ℕ → Bytes → Option (Option Bytes)
  | 0, p => some (some p)
  | n + 1, p =>
    match skipComponent p with
    | some (c :: rest) => if c = 0 then some none else advance n rest
    | _ => none

/-- `while (isdigit((unsigned char)*p)) p++`. -/
def skipDigits : Bytes → Option Bytes
  | [] => none
  | c :: rest => if isDigit c then skipDigits rest else some (c :: rest)

/-- `strtol(start, &endp, 10)`, which needs the terminator. -/
def strtolAt (start : Bytes) : Option Strtol :=
  if (0 : Byte) ∈ start then some (strtol (upTo 0 start)) else none

/-- The part for the component that was found. -/
def parseComponent (start : Bytes) : Option ℤ := do
  let p ← skipDigits start
  if p.length = start.length then some 0
  else
    let c ← p.head?
    if c ≠ ch '/' ∧ c ≠ 0 then some 0
    else
      let r ← strtolAt start
      if r.errno = true ∨ r.endp ≠ start.length - p.length ∨ r.value < 0 ∨ intMax < r.value then
        some 0
      else some r.value

/-- `appauth_parse_first_number`. -/
def appauthParseFirstNumber (delimiterCount : ℤ) (str : Option CStr) : Option ℤ :=
  match str with
  | none => some 0
  | some s =>
    if delimiterCount ≤ 0 then some 0
    else if (s.val ++ [0]).head? ≠ some (ch '/') then some 0
    else
      match advance delimiterCount.toNat (s.val ++ [0]) with
      | none => none
      | some none => some 0
      | some (some start) => parseComponent start

/-! ## Its rules -/

/-- The number that the component of this index is, where there is one. -/
def PathNumber (delimiterCount : ℤ) (str : Option CStr) (n : ℤ) : Prop :=
  1 ≤ delimiterCount ∧ ∃ s, str = some s ∧ s.val.head? = some (ch '/') ∧
    ∃ component, (s.val.splitOn (ch '/'))[delimiterCount.toNat]? = some component ∧
      IsNumeral false component n ∧ n ≤ intMax

section Scanning

variable {l : Bytes}

theorem skipComponent_append {a : Bytes} (h0 : (0 : Byte) ∉ a) (hslash : ch '/' ∉ a) {c : Byte}
    (hc : c = 0 ∨ c = ch '/') (rest : Bytes) :
    skipComponent (a ++ c :: rest) = some (c :: rest) := by
  induction a with
  | nil =>
    rw [List.nil_append, skipComponent, if_neg]
    rcases hc with rfl | rfl <;> decide
  | cons x a ih =>
    obtain ⟨hx0, h0⟩ := List.ne_and_not_mem_of_not_mem_cons h0
    obtain ⟨hxslash, hslash⟩ := List.ne_and_not_mem_of_not_mem_cons hslash
    rw [List.cons_append, skipComponent, if_pos ⟨hx0.symm, hxslash.symm⟩, ih h0 hslash]

/-- **The loop** leaves the components from the index on, if there are so many. -/
theorem advance_spec (n : ℕ) (h0 : (0 : Byte) ∉ l) :
    (advance n (l ++ [0]) = some none ∧ (l.splitOn (ch '/')).drop n = []) ∨
      ∃ r, advance n (l ++ [0]) = some (some (r ++ [0])) ∧ (0 : Byte) ∉ r ∧
        (l.splitOn (ch '/')).drop n = r.splitOn (ch '/') := by
  induction n generalizing l with
  | zero => exact .inr ⟨l, rfl, h0, rfl⟩
  | succ n ih =>
    by_cases hslash : ch '/' ∈ l
    · have hsplit := upTo_append_after hslash
      have hfront := not_mem_upTo (ch '/') l
      have hafter0 : (0 : Byte) ∉ after (ch '/') l := mt mem_of_mem_after h0
      have hskip : skipComponent (l ++ [0]) = some (ch '/' :: (after (ch '/') l ++ [0])) := by
        nth_rewrite 1 [← hsplit]
        rw [List.append_assoc]
        exact skipComponent_append (mt mem_of_mem_upTo h0) hfront (.inr rfl) _
      have hstep : advance (n + 1) (l ++ [0]) = advance n (after (ch '/') l ++ [0]) := by
        rw [advance, hskip]
        exact if_neg (by decide)
      have hdrop : (l.splitOn (ch '/')).drop (n + 1) =
          ((after (ch '/') l).splitOn (ch '/')).drop n := by
        nth_rewrite 1 [← hsplit]
        rw [List.splitOn_append_cons_self_of_not_mem hfront, List.drop_succ_cons]
      rw [hstep, hdrop]
      exact ih hafter0
    · have hskip := skipComponent_append h0 hslash (.inl rfl) []
      refine .inl ⟨?_, ?_⟩
      · rw [advance, hskip]
        exact if_pos rfl
      · rw [List.splitOn_eq_singleton hslash, List.drop_succ_cons, List.drop_nil]

theorem skipDigits_append {digits : Bytes} (hdigits : ∀ b ∈ digits, isDigit b) {c : Byte}
    (hc : isDigit c = false) (rest : Bytes) :
    skipDigits (digits ++ c :: rest) = some (c :: rest) := by
  induction digits with
  | nil =>
    rw [List.nil_append, skipDigits, if_neg]
    rw [hc]
    exact Bool.false_ne_true
  | cons x digits ih =>
    obtain ⟨hx, hdigits⟩ := List.forall_mem_cons.mp hdigits
    rw [List.cons_append, skipDigits, if_pos hx, ih hdigits]

end Scanning

section Component

variable {r : Bytes}

theorem isDigit_zero : isDigit 0 = false := by decide

theorem isDigit_slash : isDigit (ch '/') = false := by decide

/-- The component at the start of a text is a numeral when the digits at its start end there. -/
theorem isNumeral_upTo_iff {digits q : Bytes} (hr : r = digits ++ q)
    (hdigits : ∀ b ∈ digits, isDigit b) (hq : EndsNumeral q) {n : ℤ} :
    IsNumeral false (upTo (ch '/') r) n ↔
      digits ≠ [] ∧ (q = [] ∨ q.head? = some (ch '/')) ∧ n = natValue digits := by
  have hslash : ch '/' ∉ digits := by
    intro hmem
    have := hdigits _ hmem
    rw [isDigit_slash] at this
    cases this
  have hup : upTo (ch '/') r = digits ++ upTo (ch '/') q := by
    rw [hr, upTo_append_of_not_mem hslash]
  have hend : upTo (ch '/') q = [] ↔ q = [] ∨ q.head? = some (ch '/') := by
    cases q with
    | nil => simp
    | cons c t =>
      by_cases hc : c = ch '/'
      · simp [hc]
      · simp [upTo_cons_ne hc, hc]
  have hnil : (∀ b ∈ upTo (ch '/') q, isDigit b) ↔ upTo (ch '/') q = [] := by
    refine ⟨fun hall => ?_, fun hnil b hb => absurd hb (by rw [hnil]; exact List.not_mem_nil)⟩
    cases q with
    | nil => rfl
    | cons c t =>
      have hc : isDigit c = false := by simpa [EndsNumeral] using hq
      by_cases hcslash : c = ch '/'
      · rw [hcslash, upTo_cons_self]
      · rw [upTo_cons_ne hcslash] at hall
        exact absurd (hall c List.mem_cons_self) (by rw [hc]; exact Bool.false_ne_true)
  rw [hup, ← hend, isNumeral_unsigned_iff]
  constructor
  · rintro ⟨hne, hall, hn⟩
    have hq' := hnil.mp fun b hb => hall b (List.mem_append_right digits hb)
    rw [hq', List.append_nil] at hne hn
    exact ⟨hne, hq', hn⟩
  · rintro ⟨hne, hq', hn⟩
    rw [hq', List.append_nil]
    exact ⟨hne, hdigits, hn⟩

/-- What stands behind the digits, the terminator included. -/
theorem exists_behind_digits {q : Bytes} (h0 : (0 : Byte) ∉ q) (hq : EndsNumeral q) :
    ∃ c t, q ++ [0] = c :: t ∧ isDigit c = false ∧
      ((q = [] ∨ q.head? = some (ch '/')) ↔ ¬(c ≠ ch '/' ∧ c ≠ 0)) := by
  cases q with
  | nil => exact ⟨0, [], rfl, isDigit_zero, iff_of_true (.inl rfl) fun h => h.2 rfl⟩
  | cons c t =>
    have hc0 : c ≠ 0 := (List.ne_and_not_mem_of_not_mem_cons h0).1.symm
    exact ⟨c, t ++ [0], rfl, by simpa [EndsNumeral] using hq, by simp [hc0]⟩

/-- **The component** is its digits, when they are what it consists of, and fit. -/
theorem parseComponent_eq {digits q : Bytes} (hdigits : ∀ b ∈ digits, isDigit b)
    (hq : EndsNumeral q) (h0 : (0 : Byte) ∉ digits ++ q) :
    parseComponent (digits ++ q ++ [0]) =
      some (if digits ≠ [] ∧ (q = [] ∨ q.head? = some (ch '/')) ∧ (natValue digits : ℤ) ≤ intMax
        then (natValue digits : ℤ) else 0) := by
  have h0q : (0 : Byte) ∉ q := fun hmem => h0 (List.mem_append_right digits hmem)
  obtain ⟨c, t, hct, hc, hends⟩ := exists_behind_digits h0q hq
  have hstart : digits ++ q ++ [0] = digits ++ c :: t := by rw [List.append_assoc, hct]
  have hskip := skipDigits_append hdigits hc t
  have hlen : (digits ++ c :: t).length - (c :: t).length = digits.length := by
    rw [List.length_append]
    omega
  have hread : strtolAt (digits ++ c :: t) = some (strtol (digits ++ q)) := by
    rw [← hstart, strtolAt, if_pos (List.mem_append_right _ List.mem_cons_self),
      upTo_append_cons h0]
  unfold parseComponent
  rw [hstart, hskip]
  simp only [Option.bind_eq_bind, Option.bind_some, List.head?_cons, hread, hlen, hends]
  by_cases hne : digits = []
  · simp [hne]
  have hmore : (c :: t).length ≠ (digits ++ c :: t).length := by
    have := List.length_pos_of_ne_nil hne
    rw [List.length_append]
    omega
  by_cases hcomponent : c ≠ ch '/' ∧ c ≠ 0
  · rw [if_neg hmore, if_pos hcomponent, if_neg fun h => h.2.1 hcomponent]
  rw [if_neg hmore, if_neg hcomponent, strtol_digits hne hdigits hq]
  by_cases hint : intMax < natValue digits
  · have hfit : ¬(digits ≠ [] ∧ ¬(c ≠ ch '/' ∧ c ≠ 0) ∧ (natValue digits : ℤ) ≤ intMax) :=
      fun h => Int.not_le.mpr hint h.2.2
    rw [if_neg hfit]
    -- a number that no `long` holds is refused by `errno`
    by_cases hlong : longMax < natValue digits
    · simp [hlong]
    · simp [hlong, hint]
  · have hfit : (natValue digits : ℤ) ≤ intMax := Int.not_lt.mp hint
    have hlong : ¬longMax < natValue digits := by
      unfold longMax
      unfold intMax at hfit
      omega
    have hread : digits ≠ [] ∧ ¬(c ≠ ch '/' ∧ c ≠ 0) ∧ (natValue digits : ℤ) ≤ intMax :=
      ⟨hne, hcomponent, hfit⟩
    rw [if_neg hlong, if_pos hread]
    simp [hint]

/-- The component is read as its rules say, and no further than the terminator. -/
theorem parseComponent_spec (h0 : (0 : Byte) ∉ r) :
    ∃ n, parseComponent (r ++ [0]) = some n ∧
      ((IsNumeral false (upTo (ch '/') r) n ∧ n ≤ intMax) ∨
        n = 0 ∧ ∀ m, IsNumeral false (upTo (ch '/') r) m → ¬m ≤ intMax) := by
  obtain ⟨digits, q, hr, hdigits, hq⟩ : ∃ digits q, r = digits ++ q ∧ (∀ b ∈ digits, isDigit b) ∧
      EndsNumeral q :=
    ⟨r.takeWhile isDigit, r.dropWhile isDigit, List.takeWhile_append_dropWhile.symm,
      fun _ => List.mem_takeWhile_imp, endsNumeral_dropWhile r⟩
  have hnumeral := fun m => isNumeral_upTo_iff hr hdigits hq (n := m)
  have hread := parseComponent_eq hdigits hq (hr ▸ h0)
  rw [← hr] at hread
  refine ⟨_, hread, ?_⟩
  split_ifs with hfit
  · exact .inl ⟨(hnumeral _).mpr ⟨hfit.1, hfit.2.1, rfl⟩, hfit.2.2⟩
  · refine .inr ⟨rfl, fun m hm hle => hfit ?_⟩
    obtain ⟨hne, hends, rfl⟩ := (hnumeral m).mp hm
    exact ⟨hne, hends, hle⟩

end Component

section Path

variable {delimiterCount : ℤ} {s : CStr}

theorem head?_terminated (s : CStr) :
    (s.val ++ [0]).head? = some (ch '/') ↔ s.val.head? = some (ch '/') := by
  cases s.val with
  | nil => exact iff_of_false (by decide) (by decide)
  | cons c t => exact Iff.rfl

/-- The number of a path that starts with a slash is the one of its first component from the index
on. -/
theorem pathNumber_iff (hcount : 1 ≤ delimiterCount) (hslash : s.val.head? = some (ch '/'))
    (n : ℤ) :
    PathNumber delimiterCount (some s) n ↔
      ∃ component, ((s.val.splitOn (ch '/')).drop delimiterCount.toNat).head? = some component ∧
        IsNumeral false component n ∧ n ≤ intMax := by
  rw [List.head?_drop]
  constructor
  · rintro ⟨-, s', hs, -, hcomponent⟩
    obtain rfl := Option.some.inj hs
    exact hcomponent
  · exact fun h => ⟨hcount, s, rfl, hslash, h⟩

end Path

/-- **A number in a path** is read as the rules of the function say, whatever the path and the
index, and nothing behind the terminator is read. -/
theorem appauthParseFirstNumber_spec (delimiterCount : ℤ) (str : Option CStr) :
    ∃ n, appauthParseFirstNumber delimiterCount str = some n ∧
      (PathNumber delimiterCount str n ∨ n = 0 ∧ ∀ m, ¬PathNumber delimiterCount str m) := by
  unfold appauthParseFirstNumber
  cases str with
  | none => exact ⟨0, rfl, .inr ⟨rfl, fun m ⟨_, _, hs, _⟩ => by cases hs⟩⟩
  | some s =>
    by_cases hcount : delimiterCount ≤ 0
    · refine ⟨0, if_pos hcount, .inr ⟨rfl, fun m ⟨h1, _⟩ => ?_⟩⟩
      omega
    by_cases hslash : (s.val ++ [0]).head? ≠ some (ch '/')
    · refine ⟨0, ?_, .inr ⟨rfl, fun m hm => ?_⟩⟩
      · simp only [if_neg hcount, if_pos hslash]
      · obtain ⟨-, s', hs, hs', -⟩ := hm
        obtain rfl := Option.some.inj hs
        exact hslash ((head?_terminated s).mpr hs')
    have hstart := (head?_terminated s).mp (not_not.mp hslash)
    have hnumber := pathNumber_iff (s := s) (by omega : 1 ≤ delimiterCount) hstart
    simp only [if_neg hcount, if_neg hslash, hnumber]
    rcases advance_spec delimiterCount.toNat s.noNul with ⟨hloop, hdrop⟩ | ⟨r, hloop, hr0, hdrop⟩
    · rw [hloop, hdrop]
      exact ⟨0, rfl, .inr ⟨rfl, fun m ⟨_, hnone, _⟩ => by cases hnone⟩⟩
    · obtain ⟨n, hread, hn⟩ := parseComponent_spec hr0
      rw [hloop, hdrop, head?_splitOn]
      refine ⟨n, hread, ?_⟩
      simpa using hn

end FcgiJwtAuth
