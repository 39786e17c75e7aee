import FcgiJwtAuth.AppAuth.CodeProvenance
import FcgiJwtAuth.AppAuth.JarLogout

/-!
# Responses that a form splits

The page to return to comes from a form that anyone can post, is signed as it is, and ends up in the
`Location` field of the response that ends the login. Line breaks in it are written like any other
character. So whatever fields the form puts behind a line break become fields of that response, and
a client that takes them has the session that the form has chosen.
-/

namespace FcgiJwtAuth

open CLang HTTPUtils

/-- A text with fields behind it, each on a line of its own. -/
def withFields (text : Bytes) : List (Bytes × Bytes) → Bytes
  | [] => text
  | f :: fields => text ++ crlf ++ f.1 ++ bytes ": " ++ withFields f.2 fields

/-- **A field with such a text** is written as several. -/
theorem fieldLine_withFields (name text : Bytes) (fields : List (Bytes × Bytes)) :
    fieldLine (name, withFields text fields) = ((name, text) :: fields).flatMap fieldLine := by
  induction fields generalizing name text with
  | nil => exact (List.flatMap_singleton fieldLine (name, text)).symm
  | cons f fields ih =>
    have hrest := ih f.1 f.2
    rw [List.flatMap_cons, ← hrest, withFields]
    simp only [fieldLine, crlf_eq, List.append_assoc]

/-- The page with the fields written out. -/
def splitPage (jwtoken : CStr) (before : Bytes) (fields : List (Bytes × Bytes)) (state : CStr) :
    Page :=
  { authenticatedPage jwtoken (withFields before fields) state with
    fields := [authCookie jwtoken, contentType] ++ (bytes "Location", before) :: fields }

/-- The two pages are the same bytes. -/
theorem bytes_splitPage (jwtoken : CStr) (before : Bytes) (fields : List (Bytes × Bytes))
    (state : CStr) :
    (authenticatedPage jwtoken (withFields before fields) state).bytes =
      (splitPage jwtoken before fields state).bytes := by
  have hlines : (authenticatedPage jwtoken (withFields before fields) state).fields.flatMap
      fieldLine = (splitPage jwtoken before fields state).fields.flatMap fieldLine := by
    show _ = ([authCookie jwtoken, contentType] ++ (bytes "Location", before) :: fields).flatMap
      fieldLine
    rw [List.flatMap_append, ← fieldLine_withFields (bytes "Location") before fields]
    simp only [authenticatedPage, List.flatMap_cons, List.flatMap_nil, List.append_nil,
      List.append_assoc]
  rw [Page.bytes, Page.bytes, hlines]
  rfl

section Flow

variable {D : Deployment} {getfield : Bytes → Option (Option Bytes)} {post get : Served}
  {globals₁ globals₂ : Globals} {out : List Event} {before : Bytes}
  {fields : List (Bytes × Bytes)}

/-- The response to the second request. -/
theorem LoginFlow.responds (h : LoginFlow D getfield post get globals₁ globals₂ out)
    (hnul : (0 : Byte) ∉ sendTo getfield) :
    ∃ jwtoken state globals, acceptsToken D globals₂ get jwtoken = true ∧
      serveStep D globals₂ get = some ([.page (authenticatedPage jwtoken (sendTo getfield) state),
        .flush, .close, .finish], globals) := by
  obtain ⟨code, jwtoken, codes, man, hcode, hexchange, hverify⟩ := h.exchanges
  have hstep := serveStep_of_exchange h.gets h.noError hcode h.state
    (openidconnectVerifyString_create _ _) hexchange hverify
  rw [redirectUrl_of_noNul D post.env getfield hnul] at hstep
  refine ⟨jwtoken, _, _, ?_, hstep⟩
  rw [acceptsToken, hverify]
  rfl

/-- A page that was split is read with all of its fields. -/
theorem readFields_split {jwtoken : CStr} (hbreak : ch '\n' ∉ jwtoken.val)
    (hbefore : ch '\n' ∉ before)
    (hfields : ∀ f ∈ fields, ch ':' ∉ f.1 ∧ ch '\n' ∉ f.1 ∧ ch '\n' ∉ f.2) (state : CStr)
    (rest : List Event) :
    readFields (written (.page (authenticatedPage jwtoken (withFields before fields) state) ::
        rest)) =
      ([(bytes "Status", bytes "302"), authCookie jwtoken, contentType,
        (bytes "Location", before)] ++ fields).map readValue := by
  have hunbroken : Unbroken (splitPage jwtoken before fields state) := by
    refine ⟨show ch '\n' ∉ bytes "302" by decide, ?_⟩
    simp only [splitPage, List.cons_append, List.nil_append, List.forall_mem_cons]
    exact ⟨unbroken_authCookie hbreak, unbroken_contentType, unbroken_location hbefore, hfields⟩
  have hwritten : written (.page (authenticatedPage jwtoken (withFields before fields) state) ::
      rest) = (splitPage jwtoken before fields state).bytes ++ written rest :=
    congrArg (· ++ written rest) (bytes_splitPage jwtoken before fields state)
  rw [hwritten, readFields_page hunbroken]
  rfl

/-- The values of the `Set-Cookie` fields among these. -/
def cookieValues (fields : List (Bytes × Bytes)) : List Bytes :=
  ((fields.filter (·.1 = bytes "Set-Cookie")).map readValue).map (·.2)

theorem cookieValues_append (front back : List (Bytes × Bytes)) :
    cookieValues (front ++ back) = cookieValues front ++ cookieValues back := by
  simp only [cookieValues, List.filter_append, List.map_append]

theorem cookieValues_cons_of_cookie {f : Bytes × Bytes} (h : f.1 = bytes "Set-Cookie") :
    cookieValues (f :: fields) = (readValue f).2 :: cookieValues fields := by
  rw [cookieValues, List.filter_cons_of_pos (by simpa using h)]
  rfl

theorem cookieValues_cons_of_other {f : Bytes × Bytes} (h : f.1 ≠ bytes "Set-Cookie") :
    cookieValues (f :: fields) = cookieValues fields := by
  rw [cookieValues, List.filter_cons_of_neg (by simpa using h)]
  rfl

/-- **The cookies of a split page**: that of the token, and those of the form behind it. -/
theorem setCookies_split {jwtoken : CStr} (hbreak : ch '\n' ∉ jwtoken.val)
    (hbefore : ch '\n' ∉ before)
    (hfields : ∀ f ∈ fields, ch ':' ∉ f.1 ∧ ch '\n' ∉ f.1 ∧ ch '\n' ∉ f.2) (state : CStr)
    (rest : List Event) :
    setCookies (.page (authenticatedPage jwtoken (withFields before fields) state) :: rest) =
      (readValue (authCookie jwtoken)).2 :: cookieValues fields := by
  have hstatus : bytes "Status" ≠ bytes "Set-Cookie" := by decide
  have htype : contentType.1 ≠ bytes "Set-Cookie" := by decide
  have hlocation : bytes "Location" ≠ bytes "Set-Cookie" := by decide
  have hread : setCookies (.page (authenticatedPage jwtoken (withFields before fields) state) ::
      rest) = cookieValues ((bytes "Status", bytes "302") :: authCookie jwtoken :: contentType ::
        (bytes "Location", before) :: fields) := by
    rw [setCookies, fieldValues, readFields_split hbreak hbefore hfields, List.filter_map]
    rfl
  rw [hread, cookieValues_cons_of_other hstatus,
    cookieValues_cons_of_cookie (authCookie_fst jwtoken), cookieValues_cons_of_other htype,
    cookieValues_cons_of_other hlocation]

/-- A field that sets the session, with any attributes or none. -/
def sessionField (value : Bytes) (attributes : Option Bytes) : Bytes × Bytes :=
  (bytes "Set-Cookie", bytes "auth" ++ ch '=' :: (value ++ attributes.elim [] (ch ';' :: ·)))

/-- The field sets no session, and takes none away. -/
def LeavesSession (f : Bytes × Bytes) : Prop :=
  f.1 = bytes "Set-Cookie" →
    ∀ jar : Jar, (jar.receive (readValue f).2).lookup authName = jar.lookup authName

theorem readValue_sessionField (value : Bytes) (attributes : Option Bytes) :
    readValue (sessionField value attributes) = sessionField value attributes := by
  have hauth : bytes "auth" = ch 'a' :: bytes "uth" := by decide
  have hne : ch 'a' ≠ ch ' ' := by decide
  rw [readValue, sessionField, hauth]
  simp [hne]

/-- A client that reads the field has its session from it. -/
theorem lookup_sessionField {value : Bytes} {attributes : Option Bytes}
    (hvalue : IsCookieValue value) (hkept : ∀ a ∈ attributes, isDeleting a = false) (jar : Jar) :
    ((jar.receive (sessionField value attributes).2).lookup authName).map (·.val) =
      some value := by
  have hauth : IsCookieName (bytes "auth") := authName.property
  have hlookup : (jar.insert authName ⟨value, hvalue⟩).lookup authName =
      some ⟨value, hvalue⟩ := AList.lookup_insert _
  have hreceive : jar.receive (sessionField value attributes).2 =
      jar.insert authName ⟨value, hvalue⟩ := by
    cases attributes with
    | none =>
      rw [sessionField, Option.elim_none, List.append_nil]
      exact jar.receive_bare hauth hvalue
    | some a =>
      rw [sessionField, Option.elim_some, jar.receive_pair hauth hvalue,
        if_neg (by simp [hkept a rfl])]
      rfl
  rw [hreceive, hlookup]
  rfl

/-- Fields that leave the session alone, one after the other. -/
theorem lookup_cookieValues (hleaves : ∀ f ∈ fields, LeavesSession f) (jar : Jar) :
    (jar.receiveAll (cookieValues fields)).lookup authName = jar.lookup authName := by
  induction fields generalizing jar with
  | nil => rfl
  | cons f fields ih =>
    obtain ⟨hf, hrest⟩ := List.forall_mem_cons.mp hleaves
    by_cases hname : f.1 = bytes "Set-Cookie"
    · rw [cookieValues_cons_of_cookie hname, Jar.receiveAll_cons, ih hrest]
      exact hf hname jar
    · rw [cookieValues_cons_of_other hname]
      exact ih hrest jar

/-- **The last field that touches the session** decides it. -/
theorem lookup_chosen {value : Bytes} {attributes : Option Bytes} (hvalue : IsCookieValue value)
    (hkept : ∀ a ∈ attributes, isDeleting a = false) {front back : List (Bytes × Bytes)}
    (hback : ∀ f ∈ back, LeavesSession f) (jar : Jar) :
    ((jar.receiveAll (cookieValues (front ++ sessionField value attributes :: back))).lookup
      authName).map (·.val) = some value := by
  rw [cookieValues_append, cookieValues_cons_of_cookie rfl, readValue_sessionField,
    Jar.receiveAll_append, Jar.receiveAll_cons, lookup_cookieValues hback]
  exact lookup_sessionField hvalue hkept _

end Flow

/-- **What a form writes into the response of a login.** If the page to return to has fields on
lines of their own, then they are fields of the response that ends the login. A client reads the
cookies among them behind that of the token; and with one that sets the session, and none behind it
that touches the session, it has this session and not the one of the token that was accepted. -/
theorem loginFlow_splits {D : Deployment} {getfield : Bytes → Option (Option Bytes)}
    {post get : Served} {globals₁ globals₂ : Globals} {out : List Event}
    (htokens : ∀ jwtStr jwt, D.jwt.decode jwtStr = .ok jwt → IsCookieValue jwtStr)
    (h : LoginFlow D getfield post get globals₁ globals₂ out) {before : Bytes}
    {fields : List (Bytes × Bytes)} (hsend : sendTo getfield = withFields before fields)
    (hnul : (0 : Byte) ∉ sendTo getfield) (hbefore : ch '\n' ∉ before)
    (hfields : ∀ f ∈ fields, ch ':' ∉ f.1 ∧ ch '\n' ∉ f.1 ∧ ch '\n' ∉ f.2) :
    ∃ jwtoken out₂ globals, acceptsToken D globals₂ get jwtoken = true ∧
      serveStep D globals₂ get = some (out₂, globals) ∧
      readFields (written out₂) = ([(bytes "Status", bytes "302"), authCookie jwtoken, contentType,
        (bytes "Location", before)] ++ fields).map readValue ∧
      setCookies out₂ = (readValue (authCookie jwtoken)).2 :: cookieValues fields ∧
      ∀ front value attributes back, fields = front ++ sessionField value attributes :: back →
        IsCookieValue value → (∀ a ∈ attributes, isDeleting a = false) →
          (∀ f ∈ back, LeavesSession f) → ∀ jar : Jar,
            ((jar.receiveAll (setCookies out₂)).lookup authName).map (·.val) = some value := by
  obtain ⟨jwtoken, state, globals, haccepts, hserve⟩ := h.responds hnul
  obtain ⟨jwt, kid, hdecode, -⟩ := verifyJwks_eq_zero_iff.mp (verifyJwks_of_accepts haccepts)
  have hbreak : ch '\n' ∉ jwtoken.val :=
    not_mem_of_control (htokens _ _ hdecode).control (by decide)
  rw [hsend] at hserve
  have hread := readFields_split hbreak hbefore hfields state [.flush, .close, .finish]
  have hset := setCookies_split hbreak hbefore hfields state [.flush, .close, .finish]
  refine ⟨jwtoken, _, globals, haccepts, hserve, hread, hset, ?_⟩
  rintro front value attributes back rfl hvalue hkept hback jar
  rw [hset, Jar.receiveAll_cons]
  exact lookup_chosen hvalue hkept hback _

/-- The fields of a form that chooses a session, among others. -/
def chosenFields : List (Bytes × Bytes) :=
  [(bytes "X-Before", bytes "1"), sessionField (bytes "chosen") (some (bytes " Path=/; Secure")),
    (bytes "Set-Cookie", bytes "theme=dark"), (bytes "X-Behind", bytes "2")]

/-- A cookie of another name. -/
theorem leavesSession_theme : LeavesSession (bytes "Set-Cookie", bytes "theme=dark") := by
  intro _ jar
  have htheme : IsCookieName (bytes "theme") := by decide
  have hdark : IsCookieValue (bytes "dark") := by decide
  have hval : authName.val ≠ bytes "theme" := by decide
  have hne : authName ≠ ⟨bytes "theme", htheme⟩ := fun heq => hval (congrArg Subtype.val heq)
  have hreceive : jar.receive (bytes "theme=dark") =
      jar.insert ⟨bytes "theme", htheme⟩ ⟨bytes "dark", hdark⟩ := rfl
  exact (congrArg (AList.lookup authName) hreceive).trans (AList.lookup_insert_ne hne)

/-- A form that asks to return to a page with these fields behind it. -/
def splitForm (key : Bytes) : Option (Option Bytes) :=
  if key = bytes "provider" then some (some (bytes "microsoft"))
  else if key = bytes "redirect_to" then
    some (some (withFields (bytes "/") chosenFields))
  else none

/-- The state that is made of it. -/
def splitState : CStr :=
  openidconnectCreateVerifyableString AppSpecific.sample.oauth2DefaultClientSecret
    (stateSalt (withFields (bytes "/") chosenFields) (bytes "20261001T120000Z"))

theorem sendTo_splitForm : sendTo splitForm = withFields (bytes "/") chosenFields := by
  decide

theorem loginFlow_splitForm :
    LoginFlow (signedDeploymentFor splitState) splitForm (postOf splitForm) (getOf splitState)
      signedGlobals signedGlobals (postOut splitForm splitState) := by
  refine loginFlow_of_form (by decide) ?_
  rw [verifyableString, sendTo_splitForm]
  rfl

/-- Behind this login a client has the chosen session. -/
theorem loginFlow_splits_chosen :
    ∃ out₂ globals, serveStep (signedDeploymentFor splitState) signedGlobals (getOf splitState) =
        some (out₂, globals) ∧
      (((∅ : Jar).receiveAll (setCookies out₂)).lookup authName).map (·.val) =
        some (bytes "chosen") := by
  obtain ⟨jwtoken, out₂, globals, -, hserve, -, -, hsession⟩ :=
    loginFlow_splits (fun _ _ => isCookieValue_of_decode (fun _ _ => true)) loginFlow_splitForm
      sendTo_splitForm (by rw [sendTo_splitForm]; decide) (by decide) (by decide)
  refine ⟨out₂, globals, hserve, ?_⟩
  refine hsession [(bytes "X-Before", bytes "1")] (bytes "chosen")
    (some (bytes " Path=/; Secure"))
    [(bytes "Set-Cookie", bytes "theme=dark"), (bytes "X-Behind", bytes "2")] rfl (by decide)
    (by decide) ?_ ∅
  have hbehind : LeavesSession (bytes "X-Behind", bytes "2") := fun hname =>
    absurd hname (by decide)
  simp only [List.forall_mem_cons, List.not_mem_nil, false_implies, implies_true, and_true]
  exact ⟨leavesSession_theme, hbehind⟩

end FcgiJwtAuth
