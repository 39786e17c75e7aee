import FcgiJwtAuth.CLang.CString

/-!
# The Cookie header parser

`parseCookies` is `HTTPUtils_parse_cookies`: it writes NULs into the header buffer and returns an
array of pointers into it. `cookiePairs` is the same scan as a function of the text, with no buffer
and no pointers; `parseCookies_entries` shows that reading the returned array back from the written
buffer gives exactly `cookiePairs`, so everything said about the pairs is said about the code.
-/

namespace FcgiJwtAuth.HTTPUtils

open CLang

/-- `cookie_t`. Its two pointers are set together; both are NULL in the terminator entry. -/
inductive Cookie
  | entry (name value : ℕ)
  | null
deriving DecidableEq

/-- What the parser leaves behind: the header buffer it wrote to, and the array it allocated. -/
structure Cookies where
  header : Bytes
  array : List Cookie

/-- The characters the second pass skips in front of a name. -/
def isBlank (b : Byte) : Bool := b = ch ' ' || b = ch '\t' || b = ch '\n' || b = ch '\r'

/-- `while (*p == ' ' || …) ++p;` -/
def skipBlanks (buf : Bytes) (p : ℕ) : ℕ := p + ((buf.drop p).takeWhile isBlank).length

/-- First pass: one segment for every `;` that `strchr` finds, and a last one. -/
def countSegments (buf : Bytes) : ℕ := (cstr buf 0).count (ch ';') + 1

/-- Second pass, from `p`, with `n = count - idx` entries left; answers the offsets written. -/
def parseLoop : ℕ → Bytes → ℕ → Bytes × List (ℕ × ℕ)
  | 0, buf, _ => (buf, [])
  | n + 1, buf, p =>
    if buf.getD p 0 = 0 then (buf, [])
    else
      let name := skipBlanks buf p
      match strchr buf name (ch '=') with
      -- `break` before `idx` moves on: the terminator overwrites the name just stored
      | none => (buf, [])
      | some eq =>
        let buf := poke buf eq 0
        let val := eq + 1
        match strchr buf val (ch ';') with
        | some semi =>
          let r := parseLoop n (poke buf semi 0) (semi + 1)
          (r.1, (name, val) :: r.2)
        | none =>
          let r := parseLoop n buf (val + strlen buf val)
          (r.1, (name, val) :: r.2)

/-- `HTTPUtils_parse_cookies`. -/
def parseCookies : Option CStr → Option Cookies
  | none => none
  | some h =>
    let buf := h.val ++ [0]
    let r := parseLoop (countSegments buf) buf 0
    some ⟨r.1, r.2.map (fun e => .entry e.1 e.2) ++ [.null]⟩

/-- A match while `idx` is not zero: `continue` tests the same entry again, which matches again. -/
def getCookieRetry : ℕ → ℕ → ℕ
  | 0, value => value
  | idx + 1, value => getCookieRetry idx value

/-- The loop of `HTTPUtils_get_cookie` over the array. -/
def getCookieLoop (buf name : Bytes) : List Cookie → ℕ → Option ℕ
  | [], _ => none
  | .null :: _, _ => none
  | .entry n v :: cookies, idx =>
    if strEq (cstr buf n) name then some (getCookieRetry idx v)
    else getCookieLoop buf name cookies idx

/-- `HTTPUtils_get_cookie`, with the string read at the pointer it returns. -/
def getCookie (cookies : Option Cookies) (name : Bytes) (idx : ℕ) : Option Bytes :=
  match cookies with
  | none => none
  | some c => (getCookieLoop c.header name c.array idx).map (cstr c.header)

/-! ## The scan without the buffer -/

/-- The pairs the second pass makes of a text: the name runs to the first `=` there is, the value
to the next `;`. -/
def cookiePairs (text : Bytes) : List (Bytes × Bytes) :=
  if ch '=' ∈ text.dropWhile isBlank then
    (upTo (ch '=') (text.dropWhile isBlank),
        upTo (ch ';') (after (ch '=') (text.dropWhile isBlank))) ::
      cookiePairs (after (ch ';') (after (ch '=') (text.dropWhile isBlank)))
  else []
termination_by text.length
decreasing_by
  rename_i h
  have hblank : (text.dropWhile isBlank).length ≤ text.length :=
    (List.dropWhile_suffix _).length_le
  have hname := length_after_lt h
  have hvalue := length_after_le (ch ';') (after (ch '=') (text.dropWhile isBlank))
  omega

/-- The string pointers of an array entry, read back. -/
def readEntry (buf : Bytes) (e : ℕ × ℕ) : Bytes × Bytes := (cstr buf e.1, cstr buf e.2)

theorem cookiePairs_of_not_mem {text : Bytes} (h : ch '=' ∉ text) : cookiePairs text = [] := by
  rw [cookiePairs, if_neg]
  exact fun hm => h ((List.dropWhile_suffix _).subset hm)

section Segment

-- blanks, then a name that does not start with one and holds no `=`
variable {blanks name : Bytes} (hb : ∀ b ∈ blanks, isBlank b)
  (hs : (name ++ [ch '=']).head?.all (fun b => !isBlank b)) (hn : ch '=' ∉ name)
include hb hs

theorem dropWhile_blanks (rest : Bytes) :
    (blanks ++ (name ++ ch '=' :: rest)).dropWhile isBlank = name ++ ch '=' :: rest := by
  rw [List.dropWhile_append_of_pos hb]
  cases name with
  | nil => rfl
  | cons b name => simpa using hs

include hn

/-- The scan of blanks, a name and its `=`, and whatever follows. -/
theorem cookiePairs_step (rest : Bytes) :
    cookiePairs (blanks ++ (name ++ ch '=' :: rest)) =
      (name, upTo (ch ';') rest) :: cookiePairs (after (ch ';') rest) := by
  rw [cookiePairs, dropWhile_blanks hb hs, if_pos (by simp), upTo_append_cons hn,
    after_append_cons hn]

end Segment

/-! ## One turn of the second pass -/

private theorem isBlank_zero : isBlank 0 = false := by decide

/-- At the end of the text the second pass stops, whatever entries are left. -/
theorem parseLoop_end (n : ℕ) (pre : Bytes) :
    parseLoop n (pre ++ ([] ++ [0])) pre.length = (pre ++ ([] ++ [0]), []) := by
  cases n with
  | zero => rfl
  | succ n => simp [parseLoop]

/-- `skipBlanks` moves over the blanks and stops at the name. -/
theorem skipBlanks_append {blanks s : Bytes} (hb : ∀ b ∈ blanks, isBlank b)
    (hs : s.head?.all (fun b => !isBlank b)) (pre : Bytes) :
    skipBlanks (pre ++ (blanks ++ s)) pre.length = (pre ++ blanks).length := by
  have htake : (blanks ++ s).takeWhile isBlank = blanks := by
    rw [List.takeWhile_append_of_pos hb]
    cases s with
    | nil => simp
    | cons b s =>
      have hbf : isBlank b = false := by simpa using hs
      simp [hbf]
  rw [skipBlanks, List.drop_left, htake, List.length_append]

section Turn

variable {blanks name : Bytes} (hb : ∀ b ∈ blanks, isBlank b)
  (hs : (name ++ [ch '=']).head?.all (fun b => !isBlank b))
  (hn : ch '=' ∉ name) (hn0 : (0 : Byte) ∉ name) (hb0 : (0 : Byte) ∉ blanks)
include hb hs hn hn0 hb0

/-- Where the turn finds the name and its `=`. -/
private theorem turn_find (pre rest : Bytes) :
    let buf := pre ++ (blanks ++ (name ++ ch '=' :: rest))
    buf.getD pre.length 0 ≠ 0 ∧ skipBlanks buf pre.length = (pre ++ blanks).length ∧
      strchr buf (pre ++ blanks).length (ch '=') = some (pre ++ blanks ++ name).length ∧
      poke buf (pre ++ blanks ++ name).length 0
        = (pre ++ blanks ++ name ++ [0]) ++ rest := by
  intro buf
  have hhead : (name ++ ch '=' :: rest).head?.all (fun b => !isBlank b) := by
    cases name with
    | nil => simpa using hs
    | cons b name => simpa using hs
  refine ⟨?_, skipBlanks_append hb hhead pre, ?_, ?_⟩
  · cases hbl : blanks with
    | cons b blanks' =>
      have hne : b ≠ 0 := fun h => hb0 (by simp [hbl, h])
      simpa [buf, hbl] using hne
    | nil =>
      cases hnm : name with
      | cons b name' =>
        have hne : b ≠ 0 := fun h => hn0 (by simp [hnm, h])
        simpa [buf, hbl, hnm] using hne
      | nil => simp [buf, hbl, hnm, ch]
  · have h := strchr_append hn hn0 (pre ++ blanks) rest
    rw [← List.length_append] at h
    simpa only [buf, List.append_assoc] using h
  · have h := poke_append (pre ++ blanks ++ name) rest (ch '=') 0
    simpa [buf, List.append_assoc] using h

/-- A turn that finds the `;` of its value goes on behind it. -/
theorem parseLoop_segment (n : ℕ) (pre : Bytes) {value : Bytes} (hv : ch ';' ∉ value)
    (hv0 : (0 : Byte) ∉ value) (more : Bytes) :
    let pre' := pre ++ blanks ++ name ++ [0] ++ value ++ [0]
    parseLoop (n + 1) (pre ++ (blanks ++ (name ++ ch '=' :: (value ++ ch ';' :: more))))
        pre.length
      = ((parseLoop n (pre' ++ more) pre'.length).1,
          ((pre ++ blanks).length, (pre ++ blanks ++ name ++ [0]).length) ::
            (parseLoop n (pre' ++ more) pre'.length).2) := by
  intro pre'
  obtain ⟨hne, hskip, heq, hpoke⟩ :=
    turn_find hb hs hn hn0 hb0 pre (value ++ ch ';' :: more)
  have hval : (pre ++ blanks ++ name).length + 1 = (pre ++ blanks ++ name ++ [0]).length := by
    simp only [List.length_append, List.length_singleton]
  have hsemi := strchr_append hv hv0 (pre ++ blanks ++ name ++ [0]) more
  have hpoke' : poke (pre ++ blanks ++ name ++ [0] ++ (value ++ ch ';' :: more))
      ((pre ++ blanks ++ name ++ [0]).length + value.length) 0 = pre' ++ more := by
    have h := poke_append (pre ++ blanks ++ name ++ [0] ++ value) more (ch ';') 0
    rw [List.length_append] at h
    simpa [pre', List.append_assoc] using h
  have hlen : (pre ++ blanks ++ name ++ [0]).length + value.length + 1 = pre'.length := by
    simp only [pre', List.length_append, List.length_singleton]
  rw [parseLoop, if_neg hne, hskip]
  simp only [heq, hpoke, hval, hsemi, hpoke', hlen]

/-- A turn without a `;` behind its value goes to the end of the text. -/
theorem parseLoop_last (n : ℕ) (pre : Bytes) {value : Bytes} (hv : ch ';' ∉ value)
    (hv0 : (0 : Byte) ∉ value) :
    let pre' := pre ++ blanks ++ name ++ [0] ++ value
    parseLoop (n + 1) (pre ++ (blanks ++ (name ++ ch '=' :: (value ++ [0])))) pre.length
      = (pre' ++ [0], [((pre ++ blanks).length, (pre ++ blanks ++ name ++ [0]).length)]) := by
  intro pre'
  obtain ⟨hne, hskip, heq, hpoke⟩ := turn_find hb hs hn hn0 hb0 pre (value ++ [0])
  have hval : (pre ++ blanks ++ name).length + 1 = (pre ++ blanks ++ name ++ [0]).length := by
    simp only [List.length_append, List.length_singleton]
  have hsemi := strchr_none (by decide : ch ';' ≠ 0) hv (pre ++ blanks ++ name ++ [0]) []
  have hlen := strlen_append hv0 (pre ++ blanks ++ name ++ [0]) []
  have hend : (pre ++ blanks ++ name ++ [0]).length + value.length = pre'.length := by
    simp only [pre', List.length_append]
  have hstop : parseLoop n (pre ++ blanks ++ name ++ [0] ++ (value ++ [0])) pre'.length
      = (pre' ++ [0], []) := by
    have h := parseLoop_end n pre'
    simpa [pre', List.append_assoc] using h
  rw [parseLoop, if_neg hne, hskip]
  simp only [heq, hpoke, hval, hsemi, hlen, hend, hstop]

end Turn

/-! ## The second pass reads as the scan -/

/-- Text that holds an `=` is blanks, a name, the first `=` and a rest. -/
theorem exists_name {text : Bytes} (h : ch '=' ∈ text) :
    ∃ blanks name rest, text = blanks ++ (name ++ ch '=' :: rest) ∧ (∀ b ∈ blanks, isBlank b) ∧
      (name ++ [ch '=']).head?.all (fun b => !isBlank b) ∧ ch '=' ∉ name := by
  have hs : ch '=' ∈ text.dropWhile isBlank := by
    rw [← List.takeWhile_append_dropWhile (p := isBlank) (l := text)] at h
    refine (List.mem_append.mp h).resolve_left fun hb => ?_
    exact absurd (List.mem_takeWhile_imp hb) (by decide)
  refine ⟨text.takeWhile isBlank, upTo (ch '=') (text.dropWhile isBlank),
    after (ch '=') (text.dropWhile isBlank), ?_, fun b hb => List.mem_takeWhile_imp hb, ?_,
    not_mem_upTo _ _⟩
  · rw [upTo_append_after hs, List.takeWhile_append_dropWhile]
  · have hhead : (upTo (ch '=') (text.dropWhile isBlank) ++ [ch '=']).head?
        = (text.dropWhile isBlank).head? := by
      conv_rhs => rw [← upTo_append_after hs]
      cases upTo (ch '=') (text.dropWhile isBlank) <;> rfl
    rw [hhead]
    have := List.head?_dropWhile_not isBlank text
    cases hd : (text.dropWhile isBlank).head? with
    | none => rfl
    | some b => simpa [hd] using this

/-- The two strings a turn leaves behind, read back through the pointers it stored. -/
theorem readEntry_append {name value : Bytes} (hn0 : (0 : Byte) ∉ name)
    (hv0 : (0 : Byte) ∉ value) (pre tail : Bytes) :
    readEntry (pre ++ name ++ [0] ++ value ++ [0] ++ tail)
      (pre.length, (pre ++ name ++ [0]).length) = (name, value) := by
  have hname := cstr_append hn0 pre (value ++ 0 :: tail)
  have hvalue := cstr_append hv0 (pre ++ name ++ [0]) tail
  simp only [readEntry, List.append_assoc, List.cons_append, List.nil_append] at hname hvalue ⊢
  rw [hname, hvalue]

/-- Without an `=` left, `strchr` answers NULL and the array ends. -/
theorem parseLoop_no_eq {text : Bytes} (h : ch '=' ∉ text) (n : ℕ) (pre : Bytes) :
    parseLoop (n + 1) (pre ++ (text ++ [0])) pre.length = (pre ++ (text ++ [0]), []) := by
  have hsplit : pre ++ (text ++ [0])
      = pre ++ text.takeWhile isBlank ++ (text.dropWhile isBlank ++ 0 :: []) := by
    rw [List.append_assoc, ← List.append_assoc (text.takeWhile isBlank),
      List.takeWhile_append_dropWhile]
  have hhead : (text.dropWhile isBlank ++ [0]).head?.all (fun b => !isBlank b) := by
    have := List.head?_dropWhile_not isBlank text
    cases hd : text.dropWhile isBlank with
    | nil => simp [isBlank_zero]
    | cons b s => simpa [hd] using this
  have hblank : ∀ b ∈ text.takeWhile isBlank, isBlank b := fun b hb => List.mem_takeWhile_imp hb
  have hskip := skipBlanks_append hblank hhead pre
  have hnone := strchr_none (by decide : ch '=' ≠ 0)
    (fun hm => h ((List.dropWhile_suffix _).subset hm) : ch '=' ∉ text.dropWhile isBlank)
    (pre ++ text.takeWhile isBlank) []
  rw [← List.append_assoc, ← hsplit] at hskip
  rw [← hsplit] at hnone
  rw [parseLoop]
  split
  · rfl
  · simp only [hskip, hnone]

/-- The second pass leaves the buffer before its start alone, and the entries it writes read back
as the pairs of the scan. The induction is on the entries left; the number of `;` bounds them. -/
theorem parseLoop_spec (n : ℕ) : ∀ (pre text : Bytes), (0 : Byte) ∉ text →
    (text = [] ∨ text.count (ch ';') < n) →
    ∃ tail, (parseLoop n (pre ++ (text ++ [0])) pre.length).1 = pre ++ tail ∧
      (parseLoop n (pre ++ (text ++ [0])) pre.length).2.map (readEntry (pre ++ tail))
        = cookiePairs text := by
  induction n with
  | zero =>
    rintro pre text - (rfl | hn)
    · exact ⟨[0], by simp [parseLoop], by simp [parseLoop, cookiePairs]⟩
    · omega
  | succ n ih =>
    intro pre text h0 hn
    by_cases heq : ch '=' ∈ text
    · obtain ⟨blanks, name, rest, rfl, hb, hs, hnm⟩ := exists_name heq
      have hb0 : (0 : Byte) ∉ blanks := fun h => h0 (by simp [h])
      have hn0 : (0 : Byte) ∉ name := fun h => h0 (by simp [h])
      have hr0 : (0 : Byte) ∉ rest := fun h => h0 (by simp [h])
      rw [cookiePairs_step hb hs hnm]
      by_cases hsemi : ch ';' ∈ rest
      · -- the value ends at a `;`: one turn, then the induction hypothesis behind it
        obtain ⟨value, more, rfl, hv⟩ := List.eq_append_cons_of_mem hsemi
        have hv0 : (0 : Byte) ∉ value := fun h => hr0 (by simp [h])
        have hm0 : (0 : Byte) ∉ more := fun h => hr0 (by simp [h])
        have hcount : more.count (ch ';') < n := by
          rcases hn with hnil | hlt
          · simp at hnil
          · simp only [List.count_append, List.count_cons] at hlt
            simp only [beq_self_eq_true, if_true] at hlt
            omega
        rw [upTo_append_cons hv, after_append_cons hv]
        obtain ⟨tail, hbuf, hread⟩ := ih (pre ++ blanks ++ name ++ [0] ++ value ++ [0]) more hm0
          (Or.inr hcount)
        have hturn := parseLoop_segment hb hs hnm hn0 hb0 n pre hv hv0 (more ++ [0])
        have hshape : pre ++ (blanks ++ (name ++ ch '=' :: (value ++ ch ';' :: more)) ++ [0])
            = pre ++ (blanks ++ (name ++ ch '=' :: (value ++ ch ';' :: (more ++ [0])))) := by
          simp [List.append_assoc]
        have hfinal : pre ++ (blanks ++ name ++ [0] ++ value ++ [0] ++ tail)
            = pre ++ blanks ++ name ++ [0] ++ value ++ [0] ++ tail := by
          simp only [List.append_assoc]
        rw [hshape, hturn]
        refine ⟨blanks ++ name ++ [0] ++ value ++ [0] ++ tail, ?_, ?_⟩
        · rw [hfinal, hbuf]
        · rw [List.map_cons, hfinal, hread, readEntry_append hn0 hv0]
      · -- the value runs to the end of the text
        have hturn := parseLoop_last hb hs hnm hn0 hb0 n pre hsemi hr0
        have hshape : pre ++ (blanks ++ (name ++ ch '=' :: rest) ++ [0])
            = pre ++ (blanks ++ (name ++ ch '=' :: (rest ++ [0]))) := by
          simp [List.append_assoc]
        have hfinal : pre ++ (blanks ++ name ++ [0] ++ rest ++ [0] ++ [])
            = pre ++ blanks ++ name ++ [0] ++ rest ++ [0] ++ [] := by
          simp only [List.append_assoc]
        have hnil : cookiePairs [] = [] := cookiePairs_of_not_mem (by simp)
        rw [upTo_of_not_mem hsemi, after_of_not_mem hsemi, hnil, hshape, hturn]
        refine ⟨blanks ++ name ++ [0] ++ rest ++ [0] ++ [], ?_, ?_⟩
        · rw [hfinal, List.append_nil]
        · rw [List.map_cons, List.map_nil, hfinal, readEntry_append hn0 hr0]
    · rw [cookiePairs_of_not_mem heq, parseLoop_no_eq heq]
      exact ⟨text ++ [0], rfl, rfl⟩

/-- The strings of a returned array, the terminator reading as `none`. -/
def Cookies.read (c : Cookies) : List (Option (Bytes × Bytes)) :=
  c.array.map fun
    | .entry n v => some (readEntry c.header (n, v))
    | .null => none

/-- **Reading the returned array.** `HTTPUtils_parse_cookies` returns entries that read back, from
the buffer it wrote to, as the pairs of the scan, followed by the NULL terminator entry. -/
theorem parseCookies_entries (h : CStr) :
    ∃ (buf : Bytes) (entries : List (ℕ × ℕ)), parseCookies (some h)
        = some ⟨buf, entries.map (fun e => .entry e.1 e.2) ++ [.null]⟩ ∧
      entries.map (readEntry buf) = cookiePairs h.val := by
  have hcount : h.val.count (ch ';') < countSegments (h.val ++ [0]) := by
    have hc := cstr_append h.noNul [] []
    simp only [List.nil_append, List.length_nil] at hc
    rw [countSegments, hc]
    exact Nat.lt_succ_self _
  obtain ⟨tail, hbuf, hread⟩ := parseLoop_spec (countSegments (h.val ++ [0])) [] h.val h.noNul
    (Or.inr hcount)
  simp only [List.nil_append, List.length_nil] at hbuf hread
  exact ⟨_, _, rfl, by rw [hbuf]; exact hread⟩

/-- The returned array as strings: the pairs of the scan in order, then the terminator. -/
theorem parseCookies_read (h : CStr) :
    (parseCookies (some h)).map Cookies.read = some ((cookiePairs h.val).map some ++ [none]) := by
  obtain ⟨buf, entries, hparse, hread⟩ := parseCookies_entries h
  rw [hparse, ← hread]
  simp [Cookies.read, readEntry]

/-! ## Looking a cookie up -/

theorem getCookieRetry_eq (idx value : ℕ) : getCookieRetry idx value = value := by
  induction idx with
  | zero => rfl
  | succ idx ih => exact ih

/-- The lookup loop answers the first entry of the name. -/
theorem getCookieLoop_entries (buf name : Bytes) (entries : List (ℕ × ℕ)) (idx : ℕ) :
    (getCookieLoop buf name (entries.map (fun e => .entry e.1 e.2) ++ [.null]) idx).map (cstr buf)
      = ((entries.map (readEntry buf)).find? (·.1 = name)).map (·.2) := by
  induction entries with
  | nil => rfl
  | cons e entries ih =>
    simp only [List.map_cons, List.cons_append, getCookieLoop, List.find?_cons, strEq]
    by_cases hname : cstr buf e.1 = name
    · simp [hname, readEntry, getCookieRetry_eq]
    · simp [hname, readEntry, ih]

/-- `HTTPUtils_get_cookie` on a parsed header is the first pair of that name. -/
theorem getCookie_parseCookies (h : CStr) (name : Bytes) (idx : ℕ) :
    getCookie (parseCookies (some h)) name idx
      = ((cookiePairs h.val).find? (·.1 = name)).map (·.2) := by
  obtain ⟨buf, entries, hparse, hread⟩ := parseCookies_entries h
  rw [hparse, ← hread]
  exact getCookieLoop_entries buf name entries idx

end FcgiJwtAuth.HTTPUtils
