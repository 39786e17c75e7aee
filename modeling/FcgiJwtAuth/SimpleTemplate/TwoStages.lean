import FcgiJwtAuth.AppAuth.TokenPages
import FcgiJwtAuth.SimpleTemplate.SinglePass

/-!
# Rendering in two stages

The pages are rendered with the constants of the site first, and the result once more with what
belongs to the request. That is the same as rendering with both at once, as long as no constant can
become a part of a delimiter.
-/

namespace FcgiJwtAuth

open CLang

/-- Two maps of variables as one. -/
def together (m1 m2 : Bytes → Option Bytes) : Bytes → Option Bytes :=
  fun name => (m1 name).or (m2 name)

/-- What is asked of a constant of the site. -/
structure SiteValue (value : Bytes) : Prop where
  nonempty : value ≠ []
  opening : ¬bytes "<%" <:+: value
  head : value.head? ≠ some (ch '%')
  last : value.getLast? ≠ some (ch '<')

theorem SiteValue.inert {value : Bytes} (h : SiteValue value) : Inert (bytes "<%") value :=
  inert_pair h.nonempty h.opening h.head h.last

/-- What stands for an expression whose name is bound. -/
def boundValue (mVariables : Bytes → Option Bytes) (content : Bytes) : Option Bytes :=
  if isValidVariableName (trim content) then mVariables (trim content) else none

section Stages

variable {m1 m2 : Bytes → Option Bytes}

theorem expand_eq_boundValue (t content : Bytes) :
    (TemplateEngine.mk t m1).expand true content =
      (boundValue m1 content).getD (bytes "<%" ++ (content ++ bytes "%>")) := by
  unfold boundValue
  cases hvalid : isValidVariableName (trim content) with
  | false =>
    rw [TemplateEngine.expand_of_invalid hvalid, if_neg Bool.false_ne_true, Option.getD_none,
      List.append_assoc]
  | true =>
    rw [TemplateEngine.expand_of_valid hvalid, if_pos rfl, if_pos rfl, List.append_assoc]

/-- What the first map does not bind is left to the second one. -/
theorem expand_together (t t' content : Bytes) (leaveUnknown : Bool) :
    (TemplateEngine.mk t (together m1 m2)).expand leaveUnknown content =
      (boundValue m1 content).getD ((TemplateEngine.mk t' m2).expand leaveUnknown content) := by
  unfold boundValue
  cases hvalid : isValidVariableName (trim content) with
  | false =>
    rw [TemplateEngine.expand_of_invalid hvalid, if_neg Bool.false_ne_true, Option.getD_none,
      TemplateEngine.expand_of_invalid hvalid]
  | true =>
    have hboth : (TemplateEngine.mk t (together m1 m2)).mVariables (trim content) =
        (m1 (trim content)).or (m2 (trim content)) := rfl
    rw [TemplateEngine.expand_of_valid hvalid, TemplateEngine.expand_of_valid hvalid, if_pos rfl,
      hboth]
    cases m1 (trim content) <;> rfl

/-- **Two stages are one**: the second pass finds each expression that the first one left. -/
theorem render_two_stages (t : Bytes) (leaveUnknown : Bool)
    (hsite : ∀ name value, m1 name = some value → SiteValue value) :
    (TemplateEngine.mk ((TemplateEngine.mk t m1).render true) m2).render leaveUnknown =
      (TemplateEngine.mk t (together m1 m2)).render leaveUnknown := by
  obtain ⟨es, tail, hcut⟩ := exists_cut t
  have hinert : ∀ content value, boundValue m1 content = some value →
      Inert (bytes "<%") value := by
    intro content value hbound
    unfold boundValue at hbound
    split_ifs at hbound
    exact (hsite _ value hbound).inert
  have hstart : ∀ r, Misses (bytes "<%") [] r := fun _ => misses_nil
  obtain ⟨es', tail', hcut', hfill⟩ := hcut.substitute hinert hstart
  have hfirst : (TemplateEngine.mk t m1).render true =
      fill (fun m => (boundValue m1 m).getD (bytes "<%" ++ (m ++ bytes "%>"))) es tail := by
    rw [← funext (expand_eq_boundValue t)]
    exact TemplateEngine.renderLoop_of_cut hcut
  rw [List.nil_append, ← hfirst] at hcut'
  calc (TemplateEngine.mk ((TemplateEngine.mk t m1).render true) m2).render leaveUnknown
      = fill ((TemplateEngine.mk ((TemplateEngine.mk t m1).render true) m2).expand leaveUnknown)
          es' tail' := TemplateEngine.renderLoop_of_cut hcut'
    _ = fill ((TemplateEngine.mk t (together m1 m2)).expand leaveUnknown) es tail := by
        rw [hfill, List.nil_append, ← funext (expand_together t _ · leaveUnknown)]
    _ = (TemplateEngine.mk t (together m1 m2)).render leaveUnknown :=
        (TemplateEngine.renderLoop_of_cut hcut).symm

end Stages

/-- The map of one variable. -/
def single (name value : Bytes) : Bytes → Option Bytes :=
  fun n => if n = name then some value else none

/-- The second value is not scanned for the first name. -/
theorem render_two_stages_verbatim :
    (TemplateEngine.mk ((TemplateEngine.mk (bytes "<%A%>:<% B %>") (single (bytes "A")
      (bytes "site"))).render true) (single (bytes "B") (bytes "<%A%>"))).render true =
      (TemplateEngine.mk (bytes "<%A%>:<% B %>") (together (single (bytes "A") (bytes "site"))
        (single (bytes "B") (bytes "<%A%>")))).render true := by
  refine render_two_stages _ true fun name value h => ?_
  unfold single at h
  split_ifs at h
  obtain rfl := Option.some.inj h
  exact ⟨by decide, by decide, by decide, by decide⟩

/-! ## The pages of the site -/

section Pages

variable {D : Deployment}

/-- What is asked of `appspecific.h`. -/
structure SiteValues (D : Deployment) : Prop where
  welcomeToCompanyName : SiteValue D.site.welcomeToCompanyName.val
  applicationName : SiteValue D.site.applicationName.val
  privacyPolicyUrl : SiteValue D.site.privacyPolicyUrl.val
  applicationLogoLight : SiteValue D.site.applicationLogoLight.val
  applicationLogoDark : SiteValue D.site.applicationLogoDark.val

theorem siteValue_setVariable {t : TemplateEngine} {name value : Bytes} (hvalue : SiteValue value)
    (ht : ∀ n v, t.mVariables n = some v → SiteValue v) :
    ∀ n v, (t.setVariable name value).mVariables n = some v → SiteValue v := by
  intro n v hv
  unfold TemplateEngine.setVariable at hv
  by_cases hn : n = name
  · simp only [if_pos hn, Option.some.injEq] at hv
    exact hv ▸ hvalue
  · simp only [if_neg hn] at hv
    exact ht n v hv

theorem siteValue_applicationTemplate (h : SiteValues D) (template : Bytes) :
    ∀ n v, (applicationTemplate D template).mVariables n = some v → SiteValue v := by
  unfold applicationTemplate
  refine siteValue_setVariable h.applicationLogoDark ?_
  refine siteValue_setVariable h.applicationLogoLight ?_
  refine siteValue_setVariable h.privacyPolicyUrl ?_
  refine siteValue_setVariable h.applicationName ?_
  refine siteValue_setVariable h.welcomeToCompanyName ?_
  exact fun n v hv => absurd hv (Option.some_ne_none v).symm

/-- A page whose last variable is set when the request is there is rendered with all of them. -/
theorem render_applicationTemplate (h : SiteValues D) (template value : Bytes) {name : Bytes}
    (hname : (applicationTemplate D template).mVariables name = none) :
    ((TemplateEngine.mk ((applicationTemplate D template).render true) fun _ => none).setVariable
      name value).render true =
      ((applicationTemplate D template).setVariable name value).render true := by
  have hboth : ((applicationTemplate D template).setVariable name value).mVariables =
      together (applicationTemplate D template).mVariables (single name value) := by
    funext n
    unfold TemplateEngine.setVariable together single
    by_cases hn : n = name
    · simp only [hn, hname, Option.none_or]
    · simp only [if_neg hn, Option.or_none]
  have hstages : (TemplateEngine.mk ((applicationTemplate D template).render true)
      (single name value)).render true =
      (TemplateEngine.mk template (together (applicationTemplate D template).mVariables
        (single name value))).render true :=
    render_two_stages template true (siteValue_applicationTemplate h template)
  rw [← hboth] at hstages
  exact hstages

/-- **The login form** is its template with the page to return to, verbatim. -/
theorem loginFormPage_one_stage (h : SiteValues D) (returnTo : Bytes) :
    (loginFormPage D returnTo).body =
      (CStr.ofBytes (((applicationTemplate D D.loginTemplate).setVariable
        (bytes "REDIRECT_URL") returnTo).render true)).val :=
  congrArg (fun body => (CStr.ofBytes body).val)
    (render_applicationTemplate h D.loginTemplate returnTo (by rfl))

theorem logoutContent_one_stage (h : SiteValues D) :
    logoutContent D = ((applicationTemplate D D.logoutTemplate).setVariable
      (bytes "APPLICATION_SERVICEPROVIDER_LOGOUT_URL")
      (bytes ("https://login.microsoftonline.com/common/oauth2/v2.0/logout" ++
        "?post_logout_redirect_uri=https%3A%2F%2Fportal.stockval.co.uk%2Fauth%2Fmicrosoft%2Flogout"
        ))).render true :=
  render_applicationTemplate h D.logoutTemplate _ (by rfl)

end Pages

end FcgiJwtAuth
