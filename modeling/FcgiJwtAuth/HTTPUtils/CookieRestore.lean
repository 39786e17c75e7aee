import FcgiJwtAuth.HTTPUtils.Cookies

/-!
# Restoring a parsed header (`HTTPUtils_restore_cookies`, `src/HTTPUtils.cpp`)

The restorer goes through the array and writes the `=` in front of each value and the `;` behind it
back, the latter only where another entry follows. Behind the last value the parser may have
overwritten a `;` too, and this one is not put back.
-/

namespace FcgiJwtAuth.HTTPUtils

open CLang

/-- `cookies[i].name` is not NULL. -/
def Cookie.hasName : Cookie → Bool
  | .entry _ _ => true
  | .null => false

/-- `HTTPUtils_restore_cookies`, from one element of the array on; a value the parser stored is
never at the start of the buffer. -/
def restoreCookies (header : Bytes) : List Cookie → Bytes
  | .entry _ value :: cookies =>
    let header := poke header (value - 1) (ch '=')
    let stop := value + strlen header value
    let header := if cookies.head?.any Cookie.hasName then poke header stop (ch ';') else header
    restoreCookies header cookies
  | _ => header

/-- Restoring the parsed header gives the header back, its terminator included. -/
def RestoresHeader (h : CStr) : Prop :=
  ∀ c, parseCookies (some h) = some c → restoreCookies c.header c.array = h.val ++ [0]

/-- There is no `;` behind the last `=`. -/
def EndsInValue (text : Bytes) : Prop :=
  ∀ before behind, text = before ++ ch '=' :: behind → ch '=' ∉ behind → ch ';' ∉ behind

/-! ## The end of a header -/

theorem endsInValue_of_not_mem {text : Bytes} (h : ch '=' ∉ text) : EndsInValue text := by
  rintro before behind rfl
  simp at h

theorem endsInValue_last_iff {before behind : Bytes} (h : ch '=' ∉ behind) :
    EndsInValue (before ++ ch '=' :: behind) ↔ ch ';' ∉ behind := by
  constructor
  · intro hends
    exact hends before behind rfl h
  · intro hsemi before' behind' heq h'
    exact (last_split_unique h h' heq).2 ▸ hsemi

/-- What stands before a `=` does not matter. -/
theorem endsInValue_append_iff {text : Bytes} (h : ch '=' ∈ text) (before : Bytes) :
    EndsInValue (before ++ text) ↔ EndsInValue text := by
  obtain ⟨a, b, rfl, hb⟩ := exists_last_split h
  rw [← List.append_assoc, endsInValue_last_iff hb, endsInValue_last_iff hb]

theorem endsInValue_of_value {value : Bytes} (h : ch ';' ∉ value) (before : Bytes) :
    EndsInValue (before ++ ch '=' :: value) := by
  by_cases heq : ch '=' ∈ value
  · obtain ⟨a, b, rfl, hb⟩ := exists_last_split heq
    have hsplit : before ++ ch '=' :: (a ++ ch '=' :: b) =
        (before ++ ch '=' :: a) ++ ch '=' :: b := by
      rw [List.append_assoc, List.cons_append]
    rw [hsplit, endsInValue_last_iff hb]
    exact fun hsemi => h (by simp [hsemi])
  · exact (endsInValue_last_iff heq).mpr h

/-- A `;` behind the last `=` is one behind the value. -/
theorem not_endsInValue {before more : Bytes} (h : ch '=' ∈ before) (hmore : ch '=' ∉ more) :
    ¬ EndsInValue (before ++ ch ';' :: more) := by
  obtain ⟨a, b, rfl, hb⟩ := exists_last_split h
  have hne : ch '=' ≠ ch ';' := by decide
  have hlast : ch '=' ∉ b ++ ch ';' :: more := by simp [hb, hmore, hne]
  rw [List.append_assoc, List.cons_append, endsInValue_last_iff hlast]
  simp

/-! ## One turn -/

/-- One turn puts the `=` back, and the `;` where another entry follows. -/
theorem restoreCookies_entry {value : Bytes} (hv0 : (0 : Byte) ∉ value) (pre tail : Bytes)
    (name : ℕ) (cookies : List Cookie) :
    restoreCookies (pre ++ 0 :: (value ++ 0 :: tail)) (.entry name (pre.length + 1) :: cookies) =
      restoreCookies (pre ++ ch '=' :: (value ++
        (if cookies.head?.any Cookie.hasName then ch ';' else 0) :: tail)) cookies := by
  have hval : (pre ++ [ch '=']).length = pre.length + 1 := List.length_append
  have hlen := strlen_append hv0 (pre ++ [ch '=']) tail
  have hstop := poke_append (pre ++ [ch '='] ++ value) tail 0 (ch ';')
  rw [hval] at hlen
  rw [List.length_append, hval] at hstop
  simp only [List.append_assoc, List.cons_append, List.nil_append] at hlen hstop
  rw [restoreCookies, Nat.add_sub_cancel, poke_append, hlen]
  by_cases hnext : cookies.head?.any Cookie.hasName = true
  · simp only [hnext, if_true, hstop]
  · simp only [hnext]
    rfl

/-- The entries of an array with its terminator. -/
def toArray (entries : List (ℕ × ℕ)) : List Cookie :=
  entries.map (fun e => .entry e.1 e.2) ++ [.null]

theorem head?_toArray (entries : List (ℕ × ℕ)) :
    (toArray entries).head?.any Cookie.hasName = true ↔ entries ≠ [] := by
  cases entries with
  | nil => simp [toArray, Cookie.hasName]
  | cons e entries => simp [toArray, Cookie.hasName]

/-! ## The whole array -/

/-- What the parser makes of `text` behind `pre` restores to `out`, whatever then stands before it,
and to `text` itself exactly where that ends in a value. -/
def RestoresTo (n : ℕ) (pre text : Bytes) : Prop :=
  ∃ tail entries out, parseLoop n (pre ++ (text ++ [0])) pre.length = (pre ++ tail, entries) ∧
    (entries ≠ [] ↔ ch '=' ∈ text) ∧
    (∀ pre', pre'.length = pre.length →
      restoreCookies (pre' ++ tail) (toArray entries) = pre' ++ out) ∧
    (out = text ++ [0] ↔ EndsInValue text)

section Turn

variable {blanks name : Bytes} (hb : ∀ b ∈ blanks, isBlank b)
  (hs : (name ++ [ch '=']).head?.all (fun b => !isBlank b))
  (hn : ch '=' ∉ name) (hn0 : (0 : Byte) ∉ name) (hb0 : (0 : Byte) ∉ blanks)
include hb hs hn hn0 hb0

/-- The last turn: its value runs to the end of the text. -/
theorem restoresTo_last (n : ℕ) (pre : Bytes) {value : Bytes} (hv : ch ';' ∉ value)
    (hv0 : (0 : Byte) ∉ value) :
    RestoresTo (n + 1) pre (blanks ++ (name ++ ch '=' :: value)) := by
  have hturn := parseLoop_last hb hs hn hn0 hb0 n pre hv hv0
  have hends := endsInValue_of_value hv (blanks ++ name)
  refine ⟨blanks ++ (name ++ 0 :: (value ++ [0])),
    [((pre ++ blanks).length, (pre ++ blanks ++ name ++ [0]).length)],
    blanks ++ (name ++ ch '=' :: (value ++ [0])), ?_, ?_, ?_, ?_⟩
  · simpa only [List.append_assoc, List.cons_append, List.nil_append] using hturn
  · simp
  · intro pre' hlen
    have hentry := restoreCookies_entry hv0 (pre' ++ blanks ++ name) []
      (pre ++ blanks).length [.null]
    have hval : (pre ++ blanks ++ name ++ [0]).length = (pre' ++ blanks ++ name).length + 1 := by
      simp only [List.length_append, hlen, List.length_singleton]
    rw [← hval] at hentry
    simp only [List.append_assoc] at hentry ⊢
    exact hentry
  · rw [List.append_assoc] at hends
    exact iff_of_true (by simp) hends

/-- A turn whose value ends at a `;`, and what the turns behind it restore to. -/
theorem restoresTo_segment {n : ℕ} {pre value more : Bytes} (hv : ch ';' ∉ value)
    (hv0 : (0 : Byte) ∉ value)
    (hmore : RestoresTo n (pre ++ blanks ++ name ++ [0] ++ value ++ [0]) more) :
    RestoresTo (n + 1) pre (blanks ++ (name ++ ch '=' :: (value ++ ch ';' :: more))) := by
  obtain ⟨tail, entries, out, hparse, hentries, hrestore, hout⟩ := hmore
  have hturn := parseLoop_segment hb hs hn hn0 hb0 n pre hv hv0 (more ++ [0])
  simp only [hparse] at hturn
  let mark : Byte := if ch '=' ∈ more then ch ';' else 0
  refine ⟨blanks ++ (name ++ 0 :: (value ++ 0 :: tail)),
    ((pre ++ blanks).length, (pre ++ blanks ++ name ++ [0]).length) :: entries,
    blanks ++ (name ++ ch '=' :: (value ++ mark :: out)), ?_, ?_, ?_, ?_⟩
  · simpa only [List.append_assoc, List.cons_append, List.nil_append] using hturn
  · simp
  · intro pre' hlen
    have hmark : (if (toArray entries).head?.any Cookie.hasName then ch ';' else 0) = mark :=
      if_congr ((head?_toArray entries).trans hentries) rfl rfl
    have hentry := restoreCookies_entry hv0 (pre' ++ blanks ++ name) tail (pre ++ blanks).length
      (toArray entries)
    have hval : (pre ++ blanks ++ name ++ [0]).length = (pre' ++ blanks ++ name).length + 1 := by
      simp only [List.length_append, hlen, List.length_singleton]
    have hrest := hrestore (pre' ++ blanks ++ name ++ [ch '='] ++ value ++ [mark])
      (by simp only [List.length_append, hlen, List.length_singleton])
    rw [← hval, hmark] at hentry
    simp only [List.append_assoc, List.cons_append, List.nil_append] at hentry hrest ⊢
    exact hentry.trans hrest
  · have hshape : blanks ++ (name ++ ch '=' :: (value ++ ch ';' :: more)) =
        (blanks ++ (name ++ ch '=' :: value)) ++ ch ';' :: more := by
      simp only [List.append_assoc, List.cons_append]
    rw [hshape]
    by_cases hmem : ch '=' ∈ more
    · have hends := endsInValue_append_iff hmem (blanks ++ (name ++ ch '=' :: value) ++ [ch ';'])
      rw [List.append_assoc, List.singleton_append] at hends
      rw [hends, ← hout]
      simp [mark, hmem]
    · refine iff_of_false ?_ (not_endsInValue (by simp) hmem)
      have hne : (0 : Byte) ≠ ch ';' := by decide
      simp [mark, hmem, hne]

end Turn

/-- **Each run of the parser** is undone up to a `;` behind its last value. The induction is on the
entries left; the number of `;` bounds them. -/
theorem restoresTo (n : ℕ) : ∀ (pre text : Bytes), (0 : Byte) ∉ text → text.count (ch ';') < n →
    RestoresTo n pre text := by
  induction n with
  | zero => exact fun _ _ _ hn => absurd hn (Nat.not_lt_zero _)
  | succ n ih =>
    intro pre text h0 hn
    by_cases heq : ch '=' ∈ text
    · obtain ⟨blanks, name, rest, rfl, hb, hs, hnm⟩ := exists_name heq
      have hb0 : (0 : Byte) ∉ blanks := fun h => h0 (by simp [h])
      have hn0 : (0 : Byte) ∉ name := fun h => h0 (by simp [h])
      have hr0 : (0 : Byte) ∉ rest := fun h => h0 (by simp [h])
      by_cases hsemi : ch ';' ∈ rest
      · obtain ⟨value, more, rfl, hv⟩ := List.eq_append_cons_of_mem hsemi
        have hv0 : (0 : Byte) ∉ value := fun h => hr0 (by simp [h])
        have hm0 : (0 : Byte) ∉ more := fun h => hr0 (by simp [h])
        have hcount : more.count (ch ';') < n := by
          simp only [List.count_append, List.count_cons, beq_self_eq_true, if_true] at hn
          omega
        exact restoresTo_segment hb hs hnm hn0 hb0 hv hv0 (ih _ more hm0 hcount)
      · exact restoresTo_last hb hs hnm hn0 hb0 n pre hsemi hr0
    · exact ⟨text ++ [0], [], text ++ [0], parseLoop_no_eq heq n pre, by simp [heq],
        fun _ _ => rfl, iff_of_true rfl (endsInValue_of_not_mem heq)⟩

/-- **Restoring undoes parsing** exactly on the headers that end in a value, or hold none. -/
theorem restoresHeader_iff (h : CStr) : RestoresHeader h ↔ EndsInValue h.val := by
  have hcount : h.val.count (ch ';') < countSegments (h.val ++ [0]) := by
    have hc := cstr_append h.noNul [] []
    simp only [List.nil_append, List.length_nil] at hc
    rw [countSegments, hc]
    exact Nat.lt_succ_self _
  obtain ⟨tail, entries, out, hparse, -, hrestore, hout⟩ :=
    restoresTo (countSegments (h.val ++ [0])) [] h.val h.noNul hcount
  have hrestored := hrestore [] rfl
  simp only [List.nil_append, List.length_nil] at hparse hrestored
  rw [← hout, ← hrestored]
  have hcookies : parseCookies (some h) = some ⟨tail, toArray entries⟩ := by
    simp only [parseCookies, hparse]
    rfl
  constructor
  · intro hres
    exact hres _ hcookies
  · intro heq c hc
    rw [hcookies] at hc
    obtain rfl := Option.some.inj hc
    exact heq

/-- A `;` behind the last value is lost. -/
theorem not_restoresHeader_trailing : ¬ RestoresHeader (CStr.lit "a=b; signed_in=false;") := by
  intro h
  have hrestored := h _ rfl
  revert hrestored
  decide

end FcgiJwtAuth.HTTPUtils
