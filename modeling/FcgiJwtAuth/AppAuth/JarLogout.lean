import FcgiJwtAuth.AppAuth.SetCookies
import FcgiJwtAuth.HTTPUtils.ClientCookies

/-!
# What a client keeps behind a logout

`process_logout_request` writes one field for each cookie that it was sent, with the name escaped
for HTML. A client deletes the cookies whose names are written as they are. A name with a special
character is cut in its first reference, so that the field has no `=`, and the cookie is kept.
-/

namespace FcgiJwtAuth

open CLang HTTPUtils

variable {D : Deployment} {entity : Byte → Bytes} {name : Bytes}

/-- The escaping leaves the name as it is. -/
def IsPlainName (name : Bytes) : Prop := ∀ b ∈ name, isHtmlSpecial b = false

instance (name : Bytes) : Decidable (IsPlainName name) :=
  List.decidableBAll (fun b => isHtmlSpecial b = false) name

/-! ## One field -/

theorem htmlEscape_of_plain (h : IsPlainName name) : htmlEscape entity name = name := by
  induction name with
  | nil => rfl
  | cons b name ih =>
    obtain ⟨hb, hname⟩ := List.forall_mem_cons.mp h
    rw [htmlEscape, List.flatMap_cons, htmlEscapeByte, hb]
    exact congrArg (b :: ·) (ih hname)

theorem htmlEscape_cons (b : Byte) (name : Bytes) :
    htmlEscape entity (b :: name) = htmlEscapeByte entity b ++ htmlEscape entity name :=
  List.flatMap_cons

/-- A name with a special character ends its pair in front of the `=`. -/
theorem equals_not_mem_upTo (hentity : PlainNames entity) (hname : IsCookieName name)
    (h : ¬ IsPlainName name) (rest : Bytes) :
    ch '=' ∉ upTo (ch ';') (htmlEscape entity name ++ rest) := by
  have hequals := hname.equals
  have hsemi := hname.semicolon
  clear hname
  induction name with
  | nil => exact absurd (fun _ hmem => absurd hmem List.not_mem_nil) h
  | cons b name ih =>
    obtain ⟨hb, hname⟩ := List.ne_and_not_mem_of_not_mem_cons hequals
    obtain ⟨hb', hname'⟩ := List.ne_and_not_mem_of_not_mem_cons hsemi
    rw [htmlEscape_cons, htmlEscapeByte]
    by_cases hspecial : isHtmlSpecial b = true
    · obtain ⟨heq, hsemi'⟩ := hentity b hspecial
      have hshape : (ch '&' :: (entity b ++ [ch ';']) ++ htmlEscape entity name) ++ rest =
          (ch '&' :: entity b) ++ ch ';' :: (htmlEscape entity name ++ rest) := by simp
      rw [if_pos hspecial, hshape, upTo_append_cons
        (List.not_mem_cons_of_ne_of_not_mem (by decide) hsemi')]
      exact List.not_mem_cons_of_ne_of_not_mem (by decide) heq
    · have hplain : ¬ IsPlainName name := fun hplain =>
        h (List.forall_mem_cons.mpr ⟨by simpa using hspecial, hplain⟩)
      rw [if_neg hspecial, List.singleton_append, List.cons_append, upTo_cons_ne (Ne.symm hb')]
      exact List.not_mem_cons_of_ne_of_not_mem hb (ih hplain hname hname')

/-- The escaped name begins with no blank. -/
theorem dropWhile_htmlEscape (hname : IsCookieName name) (rest : Bytes) :
    (htmlEscape entity name ++ rest).dropWhile (· = ch ' ') = htmlEscape entity name ++ rest := by
  cases name with
  | nil => exact absurd rfl hname.ne_nil
  | cons b name =>
    have hwsp := head?_of_trimWsp hname.trim b rfl
    have hb : b ≠ ch ' ' := fun heq => by
      rw [heq] at hwsp
      exact absurd hwsp (by decide)
    have hamp : ch '&' ≠ ch ' ' := by decide
    rw [htmlEscape_cons, htmlEscapeByte]
    split_ifs
    · exact List.dropWhile_cons_of_neg (by simpa using hamp)
    · exact List.dropWhile_cons_of_neg (by simpa using hb)

/-- The attributes of a field that expires a cookie. -/
def expiringAttributes (name : Bytes) : Bytes :=
  bytes " Path=/; " ++ bytes "Max-Age=0; Expires=Thu, 01 Jan 1970 00:00:00 GMT; " ++
    (if strEq name (bytes "auth") then bytes "Secure; HttpOnly; SameSite=Lax" else [])

theorem isDeleting_expiringAttributes (name : Bytes) : isDeleting (expiringAttributes name) := by
  unfold expiringAttributes
  split_ifs <;> decide

theorem expiringCookie_val (hplain : PlainDeployment D entity) (name : CStr) :
    (expiringCookie D name).2 =
      htmlEscape entity name.val ++ ch '=' :: ([] ++ ch ';' :: expiringAttributes name.val) := by
  have hpath : bytes "=; Path=/; " = ch '=' :: ch ';' :: bytes " Path=/; " := by decide
  rw [expiringCookie, hplain.escapes, hpath, expiringAttributes]
  simp only [List.append_assoc, List.cons_append, List.nil_append]

/-- **The field of a cookie** deletes it, if its name is plain. -/
theorem receive_expiringCookie (hplain : PlainDeployment D entity) (jar : Jar) {name : CStr}
    (hname : IsCookieName name.val) :
    jar.receive (readValue (expiringCookie D name)).2 =
      if IsPlainName name.val then jar.erase ⟨name.val, hname⟩ else jar := by
  have hempty : IsCookieValue [] := by decide
  have hread : (readValue (expiringCookie D name)).2 =
      htmlEscape entity name.val ++ ch '=' :: ([] ++ ch ';' :: expiringAttributes name.val) := by
    rw [readValue, expiringCookie_val hplain, dropWhile_htmlEscape hname]
  rw [hread]
  by_cases hspecial : IsPlainName name.val
  · rw [if_pos hspecial, htmlEscape_of_plain hspecial, Jar.receive_pair jar hname hempty,
      if_pos (isDeleting_expiringAttributes name.val)]
  · rw [if_neg hspecial]
    exact Jar.receive_of_not_mem jar (equals_not_mem_upTo hplain.names hname hspecial _)

/-! ## The fields of a logout -/

/-- The field for the cookie of a client. -/
def logoutField (D : Deployment) (p : Bytes × Bytes) : Bytes × Bytes :=
  expiringCookie D (CStr.ofBytes p.1)

/-- The fields of the page, for the cookies that a client has sent. -/
theorem fields_logoutPage_header (jar : Jar) :
    (logoutPage D (parseCookies jar.header)).fields =
      jar.pairs.map (logoutField D) ++
        [(bytes "Cache-Control", bytes "no-cache"), contentType] := by
  cases hheader : jar.header with
  | none =>
    rw [Jar.pairs, (header_eq_none_iff jar).mp hheader]
    rfl
  | some header =>
    obtain ⟨buf, entries, hparse, hread⟩ := parseCookies_entries header
    rw [cookiePairs_header hheader] at hread
    rw [hparse, logoutPage, expiringCookies_entries, ← hread, List.map_map]
    refine congrArg (· ++ _) (List.map_congr_left fun e _ => ?_)
    -- what stands at the pointer is the name that is read there
    have hname : CStr.ofBytes (buf.drop e.1) = CStr.ofBytes (readEntry buf e).1 :=
      CStr.ext (CStr.ofBytes_val (not_mem_upTo 0 _)).symm
    exact congrArg (expiringCookie D) hname

theorem ofBytes_cookieName (hname : IsCookieName name) : (CStr.ofBytes name).val = name :=
  CStr.ofBytes_val (not_mem_of_control hname.control (by decide))

/-- An escaped name has no line break. -/
theorem unbroken_htmlEscape (hplain : PlainDeployment D entity) (hname : IsCookieName name) :
    ch '\n' ∉ htmlEscape entity name := by
  have hbreak := not_mem_of_control hname.control (b := ch '\n') (by decide)
  intro hmem
  obtain ⟨b, hb, hbyte⟩ := List.mem_flatMap.mp hmem
  have hne : ch '\n' ≠ ch '&' := by decide
  have hne' : ch '\n' ≠ ch ';' := by decide
  unfold htmlEscapeByte at hbyte
  split_ifs at hbyte with hspecial
  · simp [hne, hne', hplain.entities b hspecial] at hbyte
  · exact hbreak (List.mem_singleton.mp hbyte ▸ hb)

theorem unbroken_logoutField (hplain : PlainDeployment D entity) {p : Bytes × Bytes}
    (hname : IsCookieName p.1) : ch '\n' ∉ (logoutField D p).2 := by
  have hne : ch '\n' ≠ ch '=' := by decide
  have hne' : ch '\n' ≠ ch ';' := by decide
  have hattributes : ch '\n' ∉ expiringAttributes p.1 := by
    unfold expiringAttributes
    split_ifs <;> decide
  rw [logoutField, expiringCookie_val hplain, ofBytes_cookieName hname]
  simp [unbroken_htmlEscape hplain hname, hne, hne', hattributes]

/-- No cookie of a client breaks the lines of the page. -/
theorem unbroken_logoutPage (hplain : PlainDeployment D entity) (jar : Jar) :
    Unbroken (logoutPage D (parseCookies jar.header)) where
  status := show ch '\n' ∉ bytes "200" by decide
  fields := by
    have hother : ∀ f ∈ [(bytes "Cache-Control", bytes "no-cache"), contentType],
        ch ':' ∉ f.1 ∧ ch '\n' ∉ f.1 ∧ ch '\n' ∉ f.2 := by decide
    have hname : ch ':' ∉ bytes "Set-Cookie" ∧ ch '\n' ∉ bytes "Set-Cookie" := by decide
    rw [fields_logoutPage_header]
    intro f hf
    rcases List.mem_append.mp hf with hcookie | hrest
    · obtain ⟨p, hp, rfl⟩ := List.mem_map.mp hcookie
      exact ⟨hname.1, hname.2, unbroken_logoutField hplain (jar.sendable hp).1⟩
    · exact hother f hrest

/-- What a client reads of a logout: one field for each of its cookies. -/
theorem setCookies_logout (hplain : PlainDeployment D entity) (jar : Jar) (rest : List Event) :
    setCookies (.page (logoutPage D (parseCookies jar.header)) :: rest) =
      jar.pairs.map fun p => (readValue (logoutField D p)).2 := by
  have hother : [(bytes "Cache-Control", bytes "no-cache"), contentType].filter
      (·.1 = bytes "Set-Cookie") = [] := by decide
  have hfields : (jar.pairs.map (logoutField D)).filter (·.1 = bytes "Set-Cookie") =
      jar.pairs.map (logoutField D) := by
    refine List.filter_eq_self.mpr fun f hf => ?_
    obtain ⟨p, -, rfl⟩ := List.mem_map.mp hf
    exact decide_eq_true rfl
  rw [setCookies_page (unbroken_logoutPage hplain jar), fields_logoutPage_header,
    List.filter_append, hother, hfields, List.append_nil, List.map_map, List.map_map]
  rfl

/-- One field. -/
theorem lookup_receive_logoutField (hplain : PlainDeployment D entity) (name : CookieName)
    (jar : Jar) {p : Bytes × Bytes} (hname : IsCookieName p.1) :
    (jar.receive (readValue (logoutField D p)).2).lookup name =
      if IsPlainName name.val ∧ name.val = p.1 then none else jar.lookup name := by
  have hval := ofBytes_cookieName hname
  have hsent : IsCookieName (CStr.ofBytes p.1).val := by rwa [hval]
  rw [logoutField, receive_expiringCookie hplain jar hsent]
  simp only [hval]
  by_cases hplain : IsPlainName p.1
  · rw [if_pos hplain]
    by_cases heq : name.val = p.1
    · obtain rfl : name = ⟨p.1, hname⟩ := Subtype.ext heq
      rw [if_pos ⟨hplain, rfl⟩, AList.lookup_erase]
    · have hne : name ≠ ⟨p.1, hname⟩ := fun h => heq (congrArg Subtype.val h)
      rw [if_neg fun h => heq h.2, AList.lookup_erase_ne hne]
  · have hno : ¬ (IsPlainName name.val ∧ name.val = p.1) := fun h => hplain (h.2 ▸ h.1)
    rw [if_neg hplain, if_neg hno]

/-- The fields for some cookies delete those of them with plain names. -/
theorem lookup_receiveAll (hplain : PlainDeployment D entity) (name : CookieName)
    {pairs : List (Bytes × Bytes)} (h : ∀ p ∈ pairs, IsCookieName p.1) (jar : Jar) :
    (jar.receiveAll (pairs.map fun p => (readValue (logoutField D p)).2)).lookup name =
      if IsPlainName name.val ∧ name.val ∈ pairs.map (·.1) then none else jar.lookup name := by
  induction pairs generalizing jar with
  | nil => simp [Jar.receiveAll]
  | cons p pairs ih =>
    obtain ⟨hname, hpairs⟩ := List.forall_mem_cons.mp h
    have hrest := ih hpairs (jar.receive (readValue (logoutField D p)).2)
    rw [lookup_receive_logoutField hplain name jar hname] at hrest
    refine hrest.trans ?_
    rw [List.map_cons]
    by_cases hmem : IsPlainName name.val ∧ name.val ∈ pairs.map (·.1)
    · rw [if_pos hmem, if_pos ⟨hmem.1, List.mem_cons_of_mem _ hmem.2⟩]
    · rw [if_neg hmem]
      refine if_congr ?_ rfl rfl
      constructor
      · exact fun heq => ⟨heq.1, List.mem_cons.mpr (Or.inl heq.2)⟩
      · rintro ⟨hname', hcons⟩
        exact ⟨hname', (List.mem_cons.mp hcons).resolve_right fun hm => hmem ⟨hname', hm⟩⟩

/-- **What a logout leaves**: the cookies whose names have a special character. -/
theorem lookup_logout (hplain : PlainDeployment D entity) (jar : Jar) (rest : List Event)
    (name : CookieName) :
    (jar.receiveAll (setCookies (.page (logoutPage D (parseCookies jar.header)) :: rest))).lookup
      name = if IsPlainName name.val then none else jar.lookup name := by
  rw [setCookies_logout hplain, lookup_receiveAll hplain name fun p hp => (jar.sendable hp).1]
  by_cases hspecial : IsPlainName name.val
  · rw [if_pos hspecial]
    by_cases hmem : name.val ∈ jar.pairs.map (·.1)
    · rw [if_pos ⟨hspecial, hmem⟩]
    · rw [if_neg fun h => hmem h.2]
      -- a cookie that was not sent is not there
      cases hlookup : jar.lookup name with
      | none => rfl
      | some value =>
        have hmem' := List.mem_map_of_mem (f := fun e => (e.1.val, e.2.val))
          (AList.mem_lookup_iff.mp hlookup)
        exact absurd (List.mem_map_of_mem (f := Prod.fst) hmem') hmem
  · rw [if_neg hspecial, if_neg fun h => hspecial h.1]

end FcgiJwtAuth
