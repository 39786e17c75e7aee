import Mathlib.Data.List.AList
import Mathlib.Data.List.DropRight
import FcgiJwtAuth.CLang.Bytes

/-!
# The cookies of a client

A client keeps a value under each name. It sends its cookies as one header, and changes them by the
fields it receives: a field is a pair up to the first `;` and attributes behind it, and a pair
without a `=`, or with a name or value that cannot be sent, is passed over. Of the attributes only
`Max-Age=0` is read, which deletes the cookie.
-/

namespace CLang

/-! ## Names and values -/

/-- A blank, in a field. -/
def isWsp (b : Byte) : Bool := b = ch ' ' || b = ch '\t'

/-- A control character. -/
def isControl (b : Byte) : Bool := (b < 32 && b ≠ ch '\t') || b = 127

/-- A text without the blanks around it. -/
def trimWsp (text : Bytes) : Bytes := (text.dropWhile isWsp).rdropWhile isWsp

/-- A name that can be sent. -/
structure IsCookieName (name : Bytes) : Prop where
  ne_nil : name ≠ []
  trim : trimWsp name = name
  equals : ch '=' ∉ name
  semicolon : ch ';' ∉ name
  control : name.all (!isControl ·)

/-- A value that can be sent. -/
structure IsCookieValue (value : Bytes) : Prop where
  trim : trimWsp value = value
  semicolon : ch ';' ∉ value
  control : value.all (!isControl ·)

instance (name : Bytes) : Decidable (IsCookieName name) :=
  decidable_of_iff (name ≠ [] ∧ trimWsp name = name ∧ ch '=' ∉ name ∧ ch ';' ∉ name ∧
      name.all (!isControl ·)) <| by
    constructor
    · rintro ⟨h₁, h₂, h₃, h₄, h₅⟩
      exact ⟨h₁, h₂, h₃, h₄, h₅⟩
    · rintro ⟨h₁, h₂, h₃, h₄, h₅⟩
      exact ⟨h₁, h₂, h₃, h₄, h₅⟩

instance (value : Bytes) : Decidable (IsCookieValue value) :=
  decidable_of_iff (trimWsp value = value ∧ ch ';' ∉ value ∧ value.all (!isControl ·)) <| by
    constructor
    · rintro ⟨h₁, h₂, h₃⟩
      exact ⟨h₁, h₂, h₃⟩
    · rintro ⟨h₁, h₂, h₃⟩
      exact ⟨h₁, h₂, h₃⟩

abbrev CookieName := { name : Bytes // IsCookieName name }

abbrev CookieValue := { value : Bytes // IsCookieValue value }

/-- The cookies of a client. -/
abbrev Jar := AList fun _ : CookieName => CookieValue

theorem not_mem_of_control {text : Bytes} (h : text.all (!isControl ·)) {b : Byte}
    (hb : isControl b = true) : b ∉ text := by
  intro hmem
  have hno := List.all_eq_true.mp h b hmem
  rw [hb] at hno
  cases hno

/-- What is trimmed does not begin with a blank. -/
theorem head?_of_trimWsp {text : Bytes} (h : trimWsp text = text) :
    ∀ b, text.head? = some b → isWsp b = false := by
  intro b hb
  cases text with
  | nil => cases hb
  | cons c text =>
    obtain rfl := Option.some.inj hb
    by_contra hwsp
    have hdrop : (c :: text).dropWhile isWsp = text.dropWhile isWsp :=
      List.dropWhile_cons_of_pos (by simpa using hwsp)
    have hle : (trimWsp (c :: text)).length ≤ text.length := by
      rw [trimWsp, hdrop]
      exact (List.rdropWhile_prefix _ _).length_le.trans (List.dropWhile_suffix _).length_le
    rw [h, List.length_cons] at hle
    omega

/-! ## What is sent -/

/-- One cookie of the header. -/
def cookieText (name value : Bytes) : Bytes := name ++ ch '=' :: value

/-- The cookies as one header, with `; ` in between. -/
def cookieLine : List (Bytes × Bytes) → Bytes
  | [] => []
  | [p] => cookieText p.1 p.2
  | p :: rest => cookieText p.1 p.2 ++ ch ';' :: ch ' ' :: cookieLine rest

/-- The cookies as pairs. -/
def Jar.pairs (jar : Jar) : List (Bytes × Bytes) := jar.entries.map fun e => (e.1.val, e.2.val)

/-- The pairs of a jar can be sent. -/
theorem Jar.sendable (jar : Jar) {p : Bytes × Bytes} (hp : p ∈ jar.pairs) :
    IsCookieName p.1 ∧ IsCookieValue p.2 := by
  obtain ⟨e, -, rfl⟩ := List.mem_map.mp hp
  exact ⟨e.1.property, e.2.property⟩

/-- The pairs of a name are its one cookie. -/
theorem Jar.pairs_filter (jar : Jar) (name : CookieName) :
    (jar.pairs.filter (·.1 = name.val)).map (·.2) =
      ((jar.lookup name).map (·.val)).toList := by
  obtain ⟨entries, hnodup⟩ := jar
  show ((entries.map fun e => (e.1.val, e.2.val)).filter (·.1 = name.val)).map (·.2) =
    ((entries.dlookup name).map (·.val)).toList
  induction entries with
  | nil => rfl
  | cons e entries ih =>
    obtain ⟨hkey, hrest⟩ := List.nodupKeys_cons.mp hnodup
    rw [List.map_cons]
    by_cases hname : e.1 = name
    · subst hname
      have hlookup : entries.dlookup e.1 = none := List.dlookup_eq_none.mpr hkey
      have hnil := ih hrest
      rw [hlookup] at hnil
      rw [List.filter_cons_of_pos (by simp), List.map_cons, hnil, List.dlookup_cons_eq]
      rfl
    · have hval : e.1.val ≠ name.val := fun heq => hname (Subtype.ext heq)
      rw [List.filter_cons_of_neg (by simpa using hval), ih hrest,
        List.dlookup_cons_ne _ _ (Ne.symm hname)]

/-- A header has no control character. -/
theorem cookieLine_control {b : Byte} (hb : isControl b = true) {pairs : List (Bytes × Bytes)}
    (h : ∀ p ∈ pairs, IsCookieName p.1 ∧ IsCookieValue p.2) : b ∉ cookieLine pairs := by
  have hequals : b ≠ ch '=' := fun heq => absurd (heq ▸ hb) (by decide)
  have hsemi : b ≠ ch ';' := fun heq => absurd (heq ▸ hb) (by decide)
  have hspace : b ≠ ch ' ' := fun heq => absurd (heq ▸ hb) (by decide)
  induction pairs with
  | nil => exact List.not_mem_nil
  | cons p rest ih =>
    obtain ⟨⟨hname, hvalue⟩, hrest⟩ := List.forall_mem_cons.mp h
    have htext : b ∉ cookieText p.1 p.2 := by
      simp [cookieText, not_mem_of_control hname.control hb,
        not_mem_of_control hvalue.control hb, hequals]
    cases rest with
    | nil => exact htext
    | cons q rest =>
      rw [cookieLine]
      · simp [htext, hsemi, hspace, ih hrest]
      · simp

/-- The `Cookie` header of a client, if it has a cookie. -/
def Jar.header (jar : Jar) : Option CStr :=
  if jar.entries = [] then none
  else some ⟨cookieLine jar.pairs, cookieLine_control (by decide) fun _ => jar.sendable⟩

/-! ## What is received -/

/-- The attributes delete the cookie. -/
def isDeleting (attributes : Bytes) : Bool :=
  (attributes.splitOn (ch ';')).any fun a => trimWsp a = bytes "Max-Age=0"

/-- A field is received. -/
def Jar.receive (jar : Jar) (field : Bytes) : Jar :=
  let pair := upTo (ch ';') field
  let name := trimWsp (upTo (ch '=') pair)
  let value := trimWsp (after (ch '=') pair)
  if h : ch '=' ∈ pair ∧ IsCookieName name ∧ IsCookieValue value then
    if isDeleting (after (ch ';') field) then jar.erase ⟨name, h.2.1⟩
    else jar.insert ⟨name, h.2.1⟩ ⟨value, h.2.2⟩
  else jar

/-- The fields of a response. -/
def Jar.receiveAll (jar : Jar) (fields : List Bytes) : Jar := fields.foldl Jar.receive jar

theorem Jar.receiveAll_singleton (jar : Jar) (field : Bytes) :
    jar.receiveAll [field] = jar.receive field := rfl

theorem Jar.receiveAll_cons (jar : Jar) (field : Bytes) (fields : List Bytes) :
    jar.receiveAll (field :: fields) = (jar.receive field).receiveAll fields := rfl

theorem Jar.receiveAll_append (jar : Jar) (front back : List Bytes) :
    jar.receiveAll (front ++ back) = (jar.receiveAll front).receiveAll back := List.foldl_append

section Receive

variable {name value attributes : Bytes}

/-- A pair without a `=` is passed over. -/
theorem Jar.receive_of_not_mem (jar : Jar) {field : Bytes} (h : ch '=' ∉ upTo (ch ';') field) :
    jar.receive field = jar := dif_neg fun hreads => h hreads.1

theorem upTo_pair (hname : ch ';' ∉ name) (hvalue : ch ';' ∉ value) (attributes : Bytes) :
    upTo (ch ';') (name ++ ch '=' :: (value ++ ch ';' :: attributes)) = name ++ ch '=' :: value ∧
      after (ch ';') (name ++ ch '=' :: (value ++ ch ';' :: attributes)) = attributes := by
  have hne : ch ';' ≠ ch '=' := by decide
  have hpair : ch ';' ∉ name ++ ch '=' :: value := by simp [hname, hvalue, hne]
  have hshape : name ++ ch '=' :: (value ++ ch ';' :: attributes) =
      (name ++ ch '=' :: value) ++ ch ';' :: attributes := by
    rw [List.append_assoc, List.cons_append]
  rw [hshape, upTo_append_cons hpair, after_append_cons hpair]
  exact ⟨rfl, rfl⟩

/-- **A field with a name and a value** sets the cookie, or deletes it. -/
theorem Jar.receive_of_pair (jar : Jar) (hname : IsCookieName name) (hvalue : IsCookieValue value)
    {field : Bytes} (hpair : upTo (ch ';') field = name ++ ch '=' :: value) :
    jar.receive field =
      if isDeleting (after (ch ';') field) then jar.erase ⟨name, hname⟩
      else jar.insert ⟨name, hname⟩ ⟨value, hvalue⟩ := by
  have hreads : trimWsp (upTo (ch '=') (name ++ ch '=' :: value)) = name ∧
      trimWsp (after (ch '=') (name ++ ch '=' :: value)) = value := by
    rw [upTo_append_cons hname.equals, after_append_cons hname.equals, hname.trim, hvalue.trim]
    exact ⟨rfl, rfl⟩
  unfold Jar.receive
  simp only [hpair, hreads.1, hreads.2]
  rw [dif_pos ⟨by simp, hname, hvalue⟩]

theorem Jar.receive_pair (jar : Jar) (hname : IsCookieName name) (hvalue : IsCookieValue value)
    (attributes : Bytes) :
    jar.receive (name ++ ch '=' :: (value ++ ch ';' :: attributes)) =
      if isDeleting attributes then jar.erase ⟨name, hname⟩
      else jar.insert ⟨name, hname⟩ ⟨value, hvalue⟩ := by
  obtain ⟨hpair, hattributes⟩ :=
    upTo_pair hname.semicolon hvalue.semicolon attributes
  rw [jar.receive_of_pair hname hvalue hpair, hattributes]

/-- Without attributes it sets the cookie. -/
theorem Jar.receive_bare (jar : Jar) (hname : IsCookieName name) (hvalue : IsCookieValue value) :
    jar.receive (name ++ ch '=' :: value) = jar.insert ⟨name, hname⟩ ⟨value, hvalue⟩ := by
  have hne : ch ';' ≠ ch '=' := by decide
  have hpair : ch ';' ∉ name ++ ch '=' :: value := by
    simp [hname.semicolon, hvalue.semicolon, hne]
  have hkept : isDeleting [] = false := by decide
  rw [jar.receive_of_pair hname hvalue (upTo_of_not_mem hpair), after_of_not_mem hpair,
    if_neg (by simp [hkept])]

end Receive

end CLang
