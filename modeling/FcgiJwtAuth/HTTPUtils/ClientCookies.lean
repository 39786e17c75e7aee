import FcgiJwtAuth.Application.OneToken
import FcgiJwtAuth.CLang.CookieJar

/-!
# The cookies a client sends

The scan of a header that a client makes of its cookies is these cookies, in their order. Each name
stands once in it, so that every reading of the `auth` cookie finds the one the client has.
-/

namespace FcgiJwtAuth

open CLang

namespace HTTPUtils

/-- What the scan skips is a blank or a control character. -/
theorem isBlank_eq_false {b : Byte} (hwsp : isWsp b = false) (hcontrol : isControl b = false) :
    isBlank b = false := by
  by_contra hblank
  simp only [isBlank, Bool.not_eq_false, Bool.or_eq_true, decide_eq_true_eq] at hblank
  rcases hblank with ((rfl | rfl) | rfl) | rfl
  · exact absurd hwsp (by decide)
  · exact absurd hwsp (by decide)
  · exact absurd hcontrol (by decide)
  · exact absurd hcontrol (by decide)

/-- The scan begins a name where the client has. -/
theorem head?_cookieName {name : Bytes} (h : IsCookieName name) :
    (name ++ [ch '=']).head?.all (fun b => !isBlank b) := by
  cases name with
  | nil => exact absurd rfl h.ne_nil
  | cons b name =>
    have hwsp := head?_of_trimWsp h.trim b rfl
    have hcontrol : isControl b = false := by
      simpa using List.all_eq_true.mp h.control b List.mem_cons_self
    simp [isBlank_eq_false hwsp hcontrol]

/-- **The scan of a header** is the cookies it was made of. -/
theorem cookiePairs_cookieLine {pairs : List (Bytes × Bytes)}
    (h : ∀ p ∈ pairs, IsCookieName p.1 ∧ IsCookieValue p.2) {blanks : Bytes}
    (hblanks : ∀ b ∈ blanks, isBlank b) : cookiePairs (blanks ++ cookieLine pairs) = pairs := by
  induction pairs generalizing blanks with
  | nil =>
    have hequals : ch '=' ∉ blanks ++ cookieLine [] := by
      rw [cookieLine, List.append_nil]
      exact fun hmem => absurd (hblanks _ hmem) (by decide)
    exact cookiePairs_of_not_mem hequals
  | cons p rest ih =>
    obtain ⟨⟨hname, hvalue⟩, hrest⟩ := List.forall_mem_cons.mp h
    have hhead := head?_cookieName hname
    cases rest with
    | nil =>
      rw [cookieLine, cookieText, cookiePairs_step hblanks hhead hname.equals,
        upTo_of_not_mem hvalue.semicolon, after_of_not_mem hvalue.semicolon,
        cookiePairs_of_not_mem List.not_mem_nil]
    | cons q rest =>
      have hspace : ∀ b ∈ [ch ' '], isBlank b = true := fun b hb => by
        obtain rfl := List.mem_singleton.mp hb
        rfl
      have hshape : cookieLine (p :: q :: rest) =
          p.1 ++ ch '=' :: (p.2 ++ ch ';' :: ([ch ' '] ++ cookieLine (q :: rest))) := by
        rw [cookieLine, cookieText, List.append_assoc, List.cons_append]
        · rfl
        · simp
      rw [hshape, cookiePairs_step hblanks hhead hname.equals, upTo_append_cons hvalue.semicolon,
        after_append_cons hvalue.semicolon, ih hrest hspace]

theorem header_eq_none_iff (jar : Jar) : jar.header = none ↔ jar.entries = [] := by
  unfold Jar.header
  split_ifs with hempty
  · exact iff_of_true rfl hempty
  · exact iff_of_false (by simp) hempty

/-- What the parser makes of the header of a client. -/
theorem cookiePairs_header {jar : Jar} {header : CStr} (h : jar.header = some header) :
    cookiePairs header.val = jar.pairs := by
  unfold Jar.header at h
  split_ifs at h with hempty
  obtain rfl := Option.some.inj h
  exact cookiePairs_cookieLine (fun _ => jar.sendable) (fun _ hmem => absurd hmem List.not_mem_nil)

end HTTPUtils

open HTTPUtils

/-- The name of the session cookie. -/
def authName : CookieName := ⟨bytes "auth", by decide⟩

/-- **The token that is read** from a client is its `auth` cookie. -/
theorem cookieToken_header (jar : Jar) :
    cookieToken (parseCookies jar.header) = ((jar.lookup authName).map (·.val)).getD [] := by
  have hauth : (jar.pairs.filter (·.1 = bytes "auth")).map (·.2) =
      ((jar.lookup authName).map (·.val)).toList := jar.pairs_filter authName
  cases hheader : jar.header with
  | none =>
    have hempty := (header_eq_none_iff jar).mp hheader
    rw [Jar.pairs, hempty] at hauth
    cases hlookup : jar.lookup authName with
    | none => rfl
    | some value =>
      rw [hlookup] at hauth
      cases hauth
  | some header =>
    rw [cookieToken_parseCookies, authValues, cookiePairs_header hheader, hauth]
    cases jar.lookup authName <;> rfl

end FcgiJwtAuth
