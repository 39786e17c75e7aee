import Mathlib.Data.List.Infix
import FcgiJwtAuth.AppAuth.LoginFlow
import FcgiJwtAuth.CLang.HtmlEscape
import FcgiJwtAuth.HTTPUtils.CookieGrammar

/-!
# Logging out

`process_logout_request` writes one expiring field for each entry of the cookie array. The array
follows the scan of the header and not its grammar, and the names are escaped for HTML; so a field
names the cookie of its segment only if no segment without `=` comes in between and the name
survives the escaping.
-/

namespace FcgiJwtAuth

open CLang HTTPUtils

/-! ## What is cleared, and what should be -/

/-- The name that a browser reads from a `Set-Cookie` field. -/
def cookieName (value : Bytes) : Bytes := value.takeWhile fun b => b ≠ ch '=' && b ≠ ch ';'

/-- A field that expires a cookie. -/
def isExpiring (field : Bytes × Bytes) : Bool :=
  field.1 = bytes "Set-Cookie" && decide (bytes "Max-Age=0" <:+: field.2)

/-- The names of the cookies that an output expires. -/
def clearedNames (out : List Event) : List Bytes :=
  (out.filterMap Event.page?).flatMap fun page =>
    (page.fields.filter isExpiring).map fun field => cookieName field.2

/-- The names of the segments of a header that hold a `=`. -/
def segmentNames (header : Bytes) : List Bytes := (headerCookies header).map (·.1)

/-- The logout expires the cookies of a header: all of them, in order, and no others. -/
structure ClearsCookies (D : Deployment) (header : CStr) : Prop where
  names : ∀ ctx s, ctx.cookies = parseCookies (some header) → s.out = [] →
    clearedNames ((processLogoutRequest D ctx).run s).2.out = segmentNames header.val
  auth : bytes "auth" ∈ segmentNames header.val → ∀ ctx s,
    ctx.cookies = parseCookies (some header) → s.out = [] →
      bytes "auth" ∈ clearedNames ((processLogoutRequest D ctx).run s).2.out

/-- For each segment with a `=`: the first segment since the last such one, from its first
character that is no blank to its `=`, and the name of the segment itself. -/
def cookieGroups : Option Bytes → List Bytes → List (Bytes × Bytes)
  | _, [] => []
  | first, seg :: segs =>
    let start := first.getD seg
    if ch '=' ∈ seg then
      (upTo (ch '=') (start.dropWhile isBlank), upTo (ch '=') (seg.dropWhile isBlank)) ::
        cookieGroups none segs
    else cookieGroups (some start) segs

/-- `text` reads as `name` once it is escaped: it has no special character, or `name` goes on
behind the part before the first one with the start of its reference. -/
inductive ReadsAs (entity : Byte → Bytes) : Bytes → Bytes → Prop
  | plain {text : Bytes} : (∀ b ∈ text, isHtmlSpecial b = false) → ReadsAs entity text text
  | cut {before behind : Bytes} {b : Byte} : (∀ c ∈ before, isHtmlSpecial c = false) →
    isHtmlSpecial b = true → ReadsAs entity (before ++ b :: behind) (before ++ ch '&' :: entity b)

/-! ## An escaped name -/

/-- What is left of an escaped name that is cut at the end of its first reference. -/
def cutEscape (entity : Byte → Bytes) : Bytes → Bytes
  | [] => []
  | b :: text => if isHtmlSpecial b then ch '&' :: entity b else b :: cutEscape entity text

section Escape

variable {entity : Byte → Bytes}

theorem cutEscape_of_plain {text : Bytes} (h : ∀ b ∈ text, isHtmlSpecial b = false) :
    cutEscape entity text = text := by
  induction text with
  | nil => rfl
  | cons b text ih =>
    obtain ⟨hb, htext⟩ := List.forall_mem_cons.mp h
    rw [cutEscape, hb, ih htext]
    rfl

theorem cutEscape_append {before behind : Bytes} {b : Byte}
    (h : ∀ c ∈ before, isHtmlSpecial c = false) (hb : isHtmlSpecial b = true) :
    cutEscape entity (before ++ b :: behind) = before ++ ch '&' :: entity b := by
  induction before with
  | nil => rw [List.nil_append, List.nil_append, cutEscape, if_pos hb]
  | cons c before ih =>
    obtain ⟨hc, hbefore⟩ := List.forall_mem_cons.mp h
    rw [List.cons_append, cutEscape, hc, ih hbefore]
    rfl

theorem cutEscape_eq_iff {text name : Bytes} :
    cutEscape entity text = name ↔ ReadsAs entity text name := by
  constructor
  · rintro rfl
    by_cases h : ∀ b ∈ text, isHtmlSpecial b = false
    · rw [cutEscape_of_plain h]
      exact .plain h
    · have hdrop : text.dropWhile (!isHtmlSpecial ·) ≠ [] := by
        intro hnil
        exact h fun b hb => by simpa using List.dropWhile_eq_nil_iff.mp hnil b hb
      obtain ⟨b, behind, hsplit⟩ := List.exists_cons_of_ne_nil hdrop
      have hhead := List.head?_dropWhile_not (!isHtmlSpecial ·) text
      rw [hsplit] at hhead
      have hb : isHtmlSpecial b = true := by simpa using hhead
      have hbefore : ∀ c ∈ text.takeWhile (!isHtmlSpecial ·), isHtmlSpecial c = false :=
        fun c hc => by simpa using List.mem_takeWhile_imp hc
      have htext := List.takeWhile_append_dropWhile (p := (!isHtmlSpecial ·)) (l := text)
      rw [hsplit] at htext
      rw [← htext, cutEscape_append hbefore hb]
      exact .cut hbefore hb
  · intro h
    cases h with
    | plain h => exact cutEscape_of_plain h
    | cut hbefore hb => exact cutEscape_append hbefore hb

theorem cookieName_append {a : Bytes} (heq : ch '=' ∉ a) (hsemi : ch ';' ∉ a) (b : Bytes) :
    cookieName (a ++ b) = a ++ cookieName b := by
  refine List.takeWhile_append_of_pos fun c hc => ?_
  have hne : c ≠ ch '=' := fun h => heq (h ▸ hc)
  have hne' : c ≠ ch ';' := fun h => hsemi (h ▸ hc)
  simp [hne, hne']

theorem cookieName_cons_stop {b : Byte} (hb : b = ch '=' ∨ b = ch ';') (rest : Bytes) :
    cookieName (b :: rest) = [] := by
  rcases hb with rfl | rfl <;> rfl

theorem isHtmlSpecial_semicolon : isHtmlSpecial (ch ';') = false := by decide

/-- **A name written into a field** reads back up to its first reference or `;`. -/
theorem cookieName_htmlEscape (hentity : PlainNames entity) {name : Bytes} (h : ch '=' ∉ name)
    (value : Bytes) :
    cookieName (htmlEscape entity name ++ ch '=' :: value) =
      cutEscape entity (upTo (ch ';') name) := by
  induction name with
  | nil => exact cookieName_cons_stop (Or.inl rfl) value
  | cons b name ih =>
    obtain ⟨hb, hname⟩ := List.ne_and_not_mem_of_not_mem_cons h
    rw [htmlEscape, List.flatMap_cons, htmlEscapeByte, List.append_assoc]
    by_cases hspecial : isHtmlSpecial b = true
    · -- the reference ends at its own `;`
      have hsemi : b ≠ ch ';' := by
        rintro rfl
        rw [isHtmlSpecial_semicolon] at hspecial
        cases hspecial
      obtain ⟨heq', hsemi'⟩ := hentity b hspecial
      have hname' := cookieName_append (a := ch '&' :: entity b)
        (List.not_mem_cons_of_ne_of_not_mem (by decide) heq')
        (List.not_mem_cons_of_ne_of_not_mem (by decide) hsemi')
        ([ch ';'] ++ (List.flatMap (htmlEscapeByte entity) name ++ ch '=' :: value))
      rw [upTo_cons_ne hsemi, cutEscape, if_pos hspecial, if_pos hspecial]
      rw [List.singleton_append, cookieName_cons_stop (Or.inr rfl), List.append_nil] at hname'
      simpa only [List.cons_append, List.append_assoc, List.nil_append] using hname'
    · rw [if_neg hspecial, List.singleton_append]
      by_cases hsemi : b = ch ';'
      · subst hsemi
        rw [upTo_cons_self, cookieName_cons_stop (Or.inr rfl)]
        rfl
      · have hcopied := cookieName_append (a := [b]) (by simpa using hb)
          (by simpa using Ne.symm hsemi) (htmlEscape entity name ++ ch '=' :: value)
        rw [upTo_cons_ne hsemi, cutEscape, if_neg hspecial, ← ih hname]
        exact hcopied

end Escape

/-! ## The scan, group by group -/

/-- Blanks are dropped in front of a character that is none. -/
theorem dropWhile_isBlank_append {c : Byte} (hc : isBlank c = false) (a b : Bytes) :
    (a ++ c :: b).dropWhile isBlank = a.dropWhile isBlank ++ c :: b := by
  rw [List.dropWhile_append]
  by_cases ha : (a.dropWhile isBlank).isEmpty = true
  · rw [if_pos ha, List.isEmpty_iff.mp ha, List.dropWhile_cons_of_neg (by simp [hc]),
      List.nil_append]
  · rw [if_neg ha]

/-- The segments without `=` that the scan has passed, and the first of them. -/
inductive Passed : Bytes → Option Bytes → Prop
  | nothing : Passed [] none
  | stray {first more : Bytes} : ch '=' ∉ first → ch ';' ∉ first → ch '=' ∉ more →
    Passed (first ++ ch ';' :: more) (some first)

/-- One more segment without `=`. -/
theorem Passed.segment {passed seg : Bytes} {first : Option Bytes} (h : Passed passed first)
    (heq : ch '=' ∉ seg) (hsemi : ch ';' ∉ seg) :
    Passed (passed ++ (seg ++ [ch ';'])) (some (first.getD seg)) := by
  cases h with
  | nothing => exact .stray heq hsemi List.not_mem_nil
  | stray hfirst hfirst' hmore =>
    rename_i first more
    have hne : ch '=' ≠ ch ';' := by decide
    have hrest : ch '=' ∉ more ++ (seg ++ [ch ';']) := by simp [hmore, heq, hne]
    rw [List.append_assoc, List.cons_append]
    exact .stray hfirst hfirst' hrest

/-- The pair that the scan makes behind the passed segments, up to the first `;` of its name. -/
theorem cookiePairs_passed {passed name : Bytes} {first : Option Bytes} (h : Passed passed first)
    (heq : ch '=' ∉ name) (hsemi : ch ';' ∉ name) (value tail : Bytes) :
    ∃ pair, cookiePairs (passed ++ (name ++ ch '=' :: (value ++ tail))) =
        pair :: cookiePairs (after (ch ';') (value ++ tail)) ∧ ch '=' ∉ pair.1 ∧
      upTo (ch ';') pair.1 =
        upTo (ch '=') ((first.getD (name ++ ch '=' :: value)).dropWhile isBlank) := by
  have hblank : isBlank (ch '=') = false := by decide
  have hpassed : ch '=' ∉ passed := by
    have hne : ch '=' ≠ ch ';' := by decide
    cases h with
    | nothing => exact List.not_mem_nil
    | stray hfirst _ hmore => simp [hfirst, hmore, hne]
  have hstripped : ch '=' ∉ (passed ++ name).dropWhile isBlank := fun hm =>
    (List.mem_append.mp ((List.dropWhile_suffix _).subset hm)).elim hpassed heq
  rw [← List.append_assoc, cookiePairs, dropWhile_isBlank_append hblank, if_pos (by simp),
    upTo_append_cons hstripped, after_append_cons hstripped]
  refine ⟨_, rfl, hstripped, ?_⟩
  cases h with
  | nothing =>
    have hname : ch '=' ∉ name.dropWhile isBlank := fun hm =>
      heq ((List.dropWhile_suffix _).subset hm)
    rw [List.nil_append, Option.getD_none, dropWhile_isBlank_append hblank, upTo_append_cons hname]
    exact upTo_of_not_mem fun hm => hsemi ((List.dropWhile_suffix _).subset hm)
  | stray hfirst hfirst' hmore =>
    rename_i first more
    have hdropped : ch ';' ∉ first.dropWhile isBlank := fun hm =>
      hfirst' ((List.dropWhile_suffix _).subset hm)
    rw [Option.getD_some, List.append_assoc, List.cons_append,
      dropWhile_isBlank_append (by decide), upTo_append_cons hdropped]
    exact (upTo_of_not_mem fun hm => hfirst ((List.dropWhile_suffix _).subset hm)).symm

/-- A segment with a `=` is a name and a value. -/
theorem exists_nameValue {seg : Bytes} (heq : ch '=' ∈ seg) (hsemi : ch ';' ∉ seg) :
    ∃ name value, seg = name ++ ch '=' :: value ∧ ch '=' ∉ name ∧ ch ';' ∉ name ∧
      ch ';' ∉ value := by
  obtain ⟨name, value, rfl, hname⟩ := List.eq_append_cons_of_mem heq
  exact ⟨name, value, rfl, hname, fun hm => hsemi (by simp [hm]), fun hm => hsemi (by simp [hm])⟩

/-- **The names of the scan**, up to their first `;`, are the first segments of the groups. -/
theorem cookiePairs_groups (text : Bytes) {passed : Bytes} {first : Option Bytes}
    (h : Passed passed first) :
    (cookiePairs (passed ++ text)).map (fun pair => upTo (ch ';') pair.1) =
        (cookieGroups first (text.splitOn (ch ';'))).map (·.1) ∧
      ∀ pair ∈ cookiePairs (passed ++ text), ch '=' ∉ pair.1 := by
  have hne : ch '=' ≠ ch ';' := by decide
  induction text using segments_induction (c := ch ';') generalizing passed first with
  | last seg hsemi =>
    rw [List.splitOn_eq_singleton hsemi]
    by_cases heq : ch '=' ∈ seg
    · obtain ⟨name, value, rfl, hname, hname', hvalue⟩ := exists_nameValue heq hsemi
      obtain ⟨pair, hpairs, hpair, hfirst⟩ := cookiePairs_passed h hname hname' value []
      rw [List.append_nil, after_of_not_mem hvalue, cookiePairs_of_not_mem List.not_mem_nil]
        at hpairs
      rw [hpairs]
      refine ⟨?_, by simpa using hpair⟩
      rw [List.map_singleton, hfirst, cookieGroups, if_pos heq]
      rfl
    · have hnone : ch '=' ∉ passed ++ seg := by
        cases h with
        | nothing => simpa using heq
        | stray hfirst _ hmore => simp [hfirst, hmore, heq, hne]
      rw [cookiePairs_of_not_mem hnone]
      refine ⟨?_, by simp⟩
      rw [cookieGroups, if_neg heq]
      rfl
  | cons seg rest hsemi ih =>
    rw [List.splitOn_append_cons_self_of_not_mem hsemi]
    by_cases heq : ch '=' ∈ seg
    · obtain ⟨name, value, rfl, hname, hname', hvalue⟩ := exists_nameValue heq hsemi
      obtain ⟨pair, hpairs, hpair, hfirst⟩ :=
        cookiePairs_passed h hname hname' value (ch ';' :: rest)
      obtain ⟨hrest, hplain⟩ := ih .nothing
      rw [after_append_cons hvalue] at hpairs
      rw [List.nil_append] at hrest hplain
      rw [List.append_assoc, List.cons_append, hpairs]
      refine ⟨?_, List.forall_mem_cons.mpr ⟨hpair, hplain⟩⟩
      rw [List.map_cons, hfirst, hrest, cookieGroups, if_pos heq]
      rfl
    · have hmore := ih (h.segment heq hsemi)
      have hshape : passed ++ (seg ++ ch ';' :: rest) = passed ++ (seg ++ [ch ';']) ++ rest := by
        simp only [List.append_assoc, List.singleton_append]
      rw [hshape, cookieGroups, if_neg heq]
      exact hmore

/-- The segments with a `=` are those of the groups. -/
theorem segmentNames_groups (segs : List Bytes) (first : Option Bytes) :
    (segs.filterMap segmentCookie).map (·.1) = (cookieGroups first segs).map (·.2) := by
  induction segs generalizing first with
  | nil => rfl
  | cons seg segs ih =>
    by_cases heq : ch '=' ∈ seg
    · rw [cookieGroups, if_pos heq,
        List.filterMap_cons_some (b := _) (by rw [segmentCookie, if_pos heq]), List.map_cons,
        List.map_cons, ih none]
    · rw [cookieGroups, if_neg heq, List.filterMap_cons_none (segmentCookie_of_not_mem heq), ih]

/-! ## What the logout writes -/

section Fields

variable {D : Deployment} {entity : Byte → Bytes}

theorem isExpiring_expiringCookie (D : Deployment) (name : CStr) :
    isExpiring (expiringCookie D name) = true := by
  have hage : bytes "Max-Age=0; Expires=Thu, 01 Jan 1970 00:00:00 GMT; " =
      bytes "Max-Age=0" ++ bytes "; Expires=Thu, 01 Jan 1970 00:00:00 GMT; " := by decide
  have hinfix : bytes "Max-Age=0" <:+: (expiringCookie D name).2 := by
    refine ⟨D.green.htmlspecialEncode name ++ bytes "=; Path=/; ",
      bytes "; Expires=Thu, 01 Jan 1970 00:00:00 GMT; " ++
        (if strEq name.val (bytes "auth") then bytes "Secure; HttpOnly; SameSite=Lax" else []), ?_⟩
    rw [expiringCookie, hage]
    simp only [List.append_assoc]
  exact Bool.and_eq_true_iff.mpr ⟨decide_eq_true rfl, decide_eq_true hinfix⟩

/-- The name in a field, as it is read. -/
theorem cookieName_expiringCookie
    (hgreen : ∀ s, D.green.htmlspecialEncode s = htmlEscape entity s.val)
    (hentity : PlainNames entity) {name : CStr} (h : ch '=' ∉ name.val) :
    cookieName (expiringCookie D name).2 = cutEscape entity (upTo (ch ';') name.val) := by
  have hpath : bytes "=; Path=/; " = ch '=' :: bytes "; Path=/; " := by decide
  have hname := cookieName_htmlEscape hentity h
  rw [expiringCookie, hgreen, hpath]
  simp only [List.append_assoc, List.cons_append]
  exact hname _

/-- The fields of the array that the parser returns. -/
theorem expiringCookies_entries (D : Deployment) (buf : Bytes) (entries : List (ℕ × ℕ)) :
    expiringCookies D buf (entries.map (fun e => .entry e.1 e.2) ++ [.null]) =
      entries.map fun e => expiringCookie D (CStr.ofBytes (buf.drop e.1)) := by
  induction entries with
  | nil => rfl
  | cons e entries ih => rw [List.map_cons, List.cons_append, expiringCookies, ih, List.map_cons]

/-- **The names cleared** are the names of the scan, as they read once they are escaped. -/
theorem clearedNames_logout (hgreen : ∀ s, D.green.htmlspecialEncode s = htmlEscape entity s.val)
    (hentity : PlainNames entity) {ctx : RequestContext} {s : Serving} {header : CStr}
    (hctx : ctx.cookies = parseCookies (some header)) (hout : s.out = []) :
    clearedNames ((processLogoutRequest D ctx).run s).2.out =
      (cookiePairs header.val).map fun pair => cutEscape entity (upTo (ch ';') pair.1) := by
  obtain ⟨buf, entries, hparse, hread⟩ := parseCookies_entries header
  obtain ⟨-, hplain⟩ := cookiePairs_groups header.val .nothing
  have hpages : ((processLogoutRequest D ctx).run s).2.out.filterMap Event.page? =
      [logoutPage D ctx.cookies] := by
    show (s.out ++ [_] ++ [_] ++ [_] ++ [_]).filterMap Event.page? = _
    rw [hout]
    rfl
  have hkept : (logoutPage D ctx.cookies).fields.filter isExpiring =
      entries.map fun e => expiringCookie D (CStr.ofBytes (buf.drop e.1)) := by
    have hother : [(bytes "Cache-Control", bytes "no-cache"), contentType].filter isExpiring =
        [] := by
      decide
    rw [hctx, hparse, logoutPage, expiringCookies_entries, List.filter_append, hother,
      List.append_nil, List.filter_eq_self]
    intro field hfield
    obtain ⟨e, -, rfl⟩ := List.mem_map.mp hfield
    exact isExpiring_expiringCookie D _
  rw [clearedNames, hpages, List.flatMap_singleton, hkept, List.map_map, ← hread, List.map_map]
  refine List.map_congr_left fun e he => ?_
  have hname : ch '=' ∉ (readEntry buf e).1 :=
    hplain (readEntry buf e) (hread ▸ List.mem_map_of_mem he)
  exact cookieName_expiringCookie hgreen hentity hname

/-- **The logout clears the cookies** exactly where what stands first behind the last cookie reads
as the name of the next one. -/
theorem clearsCookies_iff (hgreen : ∀ s, D.green.htmlspecialEncode s = htmlEscape entity s.val)
    (hentity : PlainNames entity) (header : CStr) :
    ClearsCookies D header ↔
      ∀ group ∈ cookieGroups none (header.val.splitOn (ch ';')),
        ReadsAs entity group.1 group.2 := by
  obtain ⟨hnames, -⟩ := cookiePairs_groups header.val .nothing
  rw [List.nil_append] at hnames
  have hcut : (cookiePairs header.val).map (fun pair => cutEscape entity (upTo (ch ';') pair.1)) =
      (cookieGroups none (header.val.splitOn (ch ';'))).map fun group =>
        cutEscape entity group.1 := by
    have hmap := congrArg (List.map (cutEscape entity)) hnames
    rwa [List.map_map, List.map_map] at hmap
  have hsegs : segmentNames header.val =
      (cookieGroups none (header.val.splitOn (ch ';'))).map (·.2) :=
    segmentNames_groups _ none
  have hiff : (∀ group ∈ cookieGroups none (header.val.splitOn (ch ';')),
      ReadsAs entity group.1 group.2) ↔
      (cookiePairs header.val).map (fun pair => cutEscape entity (upTo (ch ';') pair.1)) =
        segmentNames header.val := by
    rw [hcut, hsegs, List.map_inj_left]
    exact forall₂_congr fun _ _ => cutEscape_eq_iff.symm
  rw [hiff]
  constructor
  · intro h
    have hcleared := h.names ⟨[], [], parseCookies (some header), fun _ => none⟩
      { globals := signedGlobals } rfl rfl
    rwa [clearedNames_logout hgreen hentity rfl rfl] at hcleared
  · intro heq
    have hall : ∀ ctx s, ctx.cookies = parseCookies (some header) → s.out = [] →
        clearedNames ((processLogoutRequest D ctx).run s).2.out = segmentNames header.val := by
      intro ctx s hctx hout
      rw [clearedNames_logout hgreen hentity hctx hout, heq]
    exact ⟨hall, fun hauth ctx s hctx hout => hall ctx s hctx hout ▸ hauth⟩

end Fields

/-- A site whose library escapes text. -/
def escapingDeployment : Deployment :=
  { signedDeployment with
    green := { Libgreen.sample with htmlspecialEncode := fun s => htmlEscape htmlName s.val } }

/-- Two cookies with plain names are cleared. -/
theorem clearsCookies_plainNames : ClearsCookies escapingDeployment (CStr.lit "a=1; auth=x") := by
  refine (clearsCookies_iff (fun _ => rfl) plainNames_htmlName (CStr.lit "a=1; auth=x")).mpr ?_
  have hgroups : cookieGroups none ((CStr.lit "a=1; auth=x").val.splitOn (ch ';')) =
      [(bytes "a", bytes "a"), (bytes "auth", bytes "auth")] := by decide
  rw [hgroups]
  simp only [List.forall_mem_cons, List.not_mem_nil, false_implies, implies_true, and_true]
  exact ⟨.plain (not_special_of_all (by decide)), .plain (not_special_of_all (by decide))⟩

/-- Behind a segment without `=` the session cookie is kept. -/
theorem not_clearsCookies_stray : ¬ ClearsCookies escapingDeployment (CStr.lit "foo; auth=x") := by
  intro h
  have hnames := h.names ⟨[], [], parseCookies (some (CStr.lit "foo; auth=x")), fun _ => none⟩
    { globals := signedGlobals } rfl rfl
  revert hnames
  decide

end FcgiJwtAuth
