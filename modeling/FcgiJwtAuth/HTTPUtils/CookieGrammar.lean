import FcgiJwtAuth.HTTPUtils.Cookies

/-!
# The grammar of a Cookie header

A header is a list of `;`-separated segments, each of which is a cookie when it holds an `=`
(`headerCookies`). The parser looks for the `=` of a name without stopping at the next `;`, so a
segment without `=` is taken into the name of a later cookie. It follows the grammar exactly on the
headers where no such segment stands before a cookie (`NoStraySegment`).
-/

namespace FcgiJwtAuth.HTTPUtils

open CLang

/-- The cookie of one segment: its leading blanks dropped, cut at its first `=`. -/
def segmentCookie (seg : Bytes) : Option (Bytes × Bytes) :=
  if ch '=' ∈ seg then
    some (upTo (ch '=') (seg.dropWhile isBlank), after (ch '=') (seg.dropWhile isBlank))
  else none

/-- The cookies of a header, segment by segment. -/
def headerCookies (header : Bytes) : List (Bytes × Bytes) :=
  (header.splitOn (ch ';')).filterMap segmentCookie

/-- No segment without `=` stands before a segment with `=`. -/
def NoStraySegment (header : Bytes) : Prop :=
  (header.splitOn (ch ';')).Pairwise fun a b => ch '=' ∈ b → ch '=' ∈ a

instance (header : Bytes) : Decidable (NoStraySegment header) := by
  unfold NoStraySegment; infer_instance

/-- The parser follows the grammar on `h`: it returns the cookies of the header in order and then
the terminator, and no string it returns holds a `;`. -/
def FollowsGrammar (h : CStr) : Prop :=
  (parseCookies (some h)).map Cookies.read = some ((headerCookies h.val).map some ++ [none]) ∧
    ∀ c, parseCookies (some h) = some c → ∀ p, some p ∈ c.read →
      ch ';' ∉ p.1 ∧ ch ';' ∉ p.2

/-! ## One segment -/

theorem segmentCookie_of_not_mem {seg : Bytes} (h : ch '=' ∉ seg) : segmentCookie seg = none := by
  rw [segmentCookie, if_neg h]

theorem segmentCookie_append {blanks name value : Bytes} (hb : ∀ b ∈ blanks, isBlank b)
    (hs : (name ++ [ch '=']).head?.all (fun b => !isBlank b)) (hn : ch '=' ∉ name) :
    segmentCookie (blanks ++ (name ++ ch '=' :: value)) = some (name, value) := by
  rw [segmentCookie, if_pos (by simp), dropWhile_blanks hb hs, upTo_append_cons hn,
    after_append_cons hn]

/-- A cookie of a segment holds nothing the segment does not hold. -/
theorem mem_of_mem_segmentCookie {seg : Bytes} {p : Bytes × Bytes} {b : Byte}
    (h : segmentCookie seg = some p) (hb : b ∈ p.1 ∨ b ∈ p.2) : b ∈ seg := by
  rw [segmentCookie] at h
  split at h
  · obtain rfl := Option.some.inj h
    rcases hb with hb | hb
    · exact (List.dropWhile_suffix _).subset (mem_of_mem_upTo hb)
    · exact (List.dropWhile_suffix _).subset (mem_of_mem_after hb)
  · cases h

/-- No cookie of a header holds a `;`. -/
theorem semicolon_not_mem_headerCookies {header : Bytes} {p : Bytes × Bytes}
    (h : p ∈ headerCookies header) : ch ';' ∉ p.1 ∧ ch ';' ∉ p.2 := by
  obtain ⟨seg, hseg, hp⟩ := List.mem_filterMap.mp h
  have hsemi := not_mem_of_mem_splitOn hseg
  exact ⟨fun hm => hsemi (mem_of_mem_segmentCookie hp (Or.inl hm)),
    fun hm => hsemi (mem_of_mem_segmentCookie hp (Or.inr hm))⟩

/-! ## The scan against the grammar -/

theorem headerCookies_last {seg : Bytes} (h : ch ';' ∉ seg) :
    headerCookies seg = (segmentCookie seg).toList := by
  rw [headerCookies, List.splitOn_eq_singleton h]
  cases hs : segmentCookie seg <;> simp [hs]

theorem headerCookies_cons {seg : Bytes} (h : ch ';' ∉ seg) (rest : Bytes) :
    headerCookies (seg ++ ch ';' :: rest) = (segmentCookie seg).toList ++ headerCookies rest := by
  rw [headerCookies, List.splitOn_append_cons_self_of_not_mem h]
  cases hs : segmentCookie seg <;> simp [hs, headerCookies]

theorem noStraySegment_cons {seg : Bytes} (h : ch ';' ∉ seg) (rest : Bytes) :
    NoStraySegment (seg ++ ch ';' :: rest) ↔
      (ch '=' ∈ rest → ch '=' ∈ seg) ∧ NoStraySegment rest := by
  rw [NoStraySegment, List.splitOn_append_cons_self_of_not_mem h, List.pairwise_cons,
    mem_iff_exists_mem_splitOn (by decide : ch '=' ≠ ch ';') rest]
  refine and_congr_left fun _ => ⟨?_, ?_⟩
  · rintro hall ⟨s, hs, heq⟩
    exact hall s hs heq
  · intro himp s hs heq
    exact himp ⟨s, hs, heq⟩

/-- A header without any `=` has no cookie. -/
theorem headerCookies_of_not_mem {header : Bytes} (h : ch '=' ∉ header) :
    headerCookies header = [] := by
  rw [headerCookies, List.filterMap_eq_nil_iff]
  intro seg hseg
  refine segmentCookie_of_not_mem fun heq => h ?_
  exact (mem_iff_exists_mem_splitOn (by decide) header).mpr ⟨seg, hseg, heq⟩

/-- A stray segment before a cookie ends up in the first name the scan makes. -/
theorem cookiePairs_stray {seg rest : Bytes} (hseg : ch '=' ∉ seg) (hrest : ch '=' ∈ rest) :
    ∃ p ∈ cookiePairs (seg ++ ch ';' :: rest), ch ';' ∈ p.1 := by
  have heq : ch '=' ∈ seg ++ ch ';' :: rest := by simp [hrest]
  obtain ⟨blanks, name, value, htext, hb, hs, hn⟩ := exists_name heq
  have hblanks : ch '=' ∉ blanks := fun h => absurd (hb _ h) (by decide)
  have hname : blanks ++ name = seg ++ ch ';' :: upTo (ch '=') rest := by
    have hl : upTo (ch '=') (blanks ++ (name ++ ch '=' :: value)) = blanks ++ name := by
      rw [upTo_append_of_not_mem hblanks, upTo_append_cons hn]
    rw [← hl, ← htext, upTo_append_of_not_mem hseg, upTo_cons_ne (by decide)]
  have hsemi : ch ';' ∈ name := by
    have hmem : ch ';' ∈ blanks ++ name := by rw [hname]; simp
    refine (List.mem_append.mp hmem).resolve_left fun h => absurd (hb _ h) (by decide)
  rw [htext, cookiePairs_step hb hs hn]
  exact ⟨_, List.mem_cons_self, hsemi⟩

/-- **The scan makes the grammar's cookies exactly when no stray segment stands before one.** -/
theorem cookiePairs_eq_headerCookies_iff (header : Bytes) :
    cookiePairs header = headerCookies header ↔ NoStraySegment header := by
  induction header using segments_induction (c := ch ';') with
  | last seg hsemi =>
    have hstray : NoStraySegment seg := by
      rw [NoStraySegment, List.splitOn_eq_singleton hsemi]
      exact List.pairwise_singleton _ _
    refine iff_of_true ?_ hstray
    by_cases heq : ch '=' ∈ seg
    · obtain ⟨blanks, name, value, rfl, hb, hs, hn⟩ := exists_name heq
      have hv : ch ';' ∉ value := fun h => hsemi (by simp [h])
      rw [headerCookies_last hsemi, segmentCookie_append hb hs hn, cookiePairs_step hb hs hn,
        upTo_of_not_mem hv, after_of_not_mem hv, cookiePairs_of_not_mem (by simp)]
      rfl
    · rw [cookiePairs_of_not_mem heq, headerCookies_of_not_mem heq]
  | cons seg rest hsemi ih =>
    rw [noStraySegment_cons hsemi, headerCookies_cons hsemi]
    by_cases heq : ch '=' ∈ seg
    · obtain ⟨blanks, name, value, rfl, hb, hs, hn⟩ := exists_name heq
      have hv : ch ';' ∉ value := fun h => hsemi (by simp [h])
      have hshape : blanks ++ (name ++ ch '=' :: value) ++ ch ';' :: rest
          = blanks ++ (name ++ ch '=' :: (value ++ ch ';' :: rest)) := by
        simp [List.append_assoc]
      rw [segmentCookie_append hb hs hn, hshape, cookiePairs_step hb hs hn,
        upTo_append_cons hv, after_append_cons hv]
      simp only [Option.toList_some, List.singleton_append, List.cons.injEq, true_and]
      rw [ih]
      simp
    · rw [segmentCookie_of_not_mem heq]
      simp only [Option.toList_none, List.nil_append]
      by_cases hrest : ch '=' ∈ rest
      · refine iff_of_false ?_ fun h => heq (h.1 hrest)
        intro hcookies
        obtain ⟨p, hp, hps⟩ := cookiePairs_stray heq hrest
        rw [hcookies] at hp
        exact (semicolon_not_mem_headerCookies hp).1 hps
      · have hnone : ch '=' ∉ seg ++ ch ';' :: rest := by
          have hne : ch '=' ≠ ch ';' := by decide
          simp [heq, hrest, hne]
        have hih : NoStraySegment rest := by
          rw [← ih, cookiePairs_of_not_mem hrest, headerCookies_of_not_mem hrest]
        rw [cookiePairs_of_not_mem hnone, headerCookies_of_not_mem hrest]
        simp [hrest, hih]

/-- **`HTTPUtils_parse_cookies` follows the grammar exactly on the headers in which no segment
without `=` stands before a segment with one.** -/
theorem parseCookies_followsGrammar_iff (h : CStr) :
    FollowsGrammar h ↔ NoStraySegment h.val := by
  rw [← cookiePairs_eq_headerCookies_iff, FollowsGrammar, parseCookies_read]
  constructor
  · rintro ⟨hread, -⟩
    have hmap := List.append_cancel_right (Option.some.inj hread)
    exact List.map_injective_iff.mpr (fun _ _ => Option.some.inj) hmap
  · intro hcookies
    refine ⟨by rw [hcookies], fun c hc p hp => ?_⟩
    have hread := parseCookies_read h
    rw [hc, Option.map_some] at hread
    rw [Option.some.inj hread] at hp
    have hp' : p ∈ cookiePairs h.val := by simpa using hp
    exact semicolon_not_mem_headerCookies (hcookies ▸ hp')

/-- A stray segment swallows the cookie behind it. -/
theorem parseCookies_stray_segment : ¬ FollowsGrammar (CStr.lit "foo; auth=x") := by
  rintro ⟨hread, -⟩
  exact absurd hread (by decide)

end FcgiJwtAuth.HTTPUtils
