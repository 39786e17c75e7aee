import FcgiJwtAuth.AppAuth.OneResponse
import FcgiJwtAuth.Application.OneToken
import FcgiJwtAuth.CLang.Numerals

/-!
# The file manager

`appfileman.cpp`: `fileman_process_request` knows two paths, of `GET` alone. Both handlers use the
user of the token without looking at the pointer; the index page is begun before the database is
asked, and the router's `catch` clause begins a second one; any other request is not answered.
-/

namespace FcgiJwtAuth

open CLang HTTPUtils

/-! ## Input -/

/-- An entry of `filesystemex_list`, with the two attributes that are looked at. -/
structure FileItem where
  name : Bytes
  directory : Bool
  symbolicLink : Bool

/-- What a request meets: the query for the groups of a user, and the directories. What these calls
throw derives from `std::exception`. -/
structure FilemanEnv where
  /-- The constructor of the statement. -/
  statement : Except Exn PUnit
  /-- `stmt.BindAll(username)`. -/
  bindAll : CStr → Except Exn PUnit
  /-- The group ids that the loop over the rows meets, and how the rows end. -/
  rows : CStr → List ℤ × Except Exn PUnit
  /-- `filesystemex_list(…, location, location, 1, 64)`: the entries it adds. -/
  list : Bytes → Except Exn (List FileItem)

/-- `RequestContext` of `appfileman.hpp`, as far as it is read. -/
structure FilemanContext where
  requestMethod : Option CStr
  pathInfo : Option CStr
  cookie : Option CStr
  authorisation : Option CStr

/-- The token of the cookie or the authorization. -/
def FilemanContext.token (ctx : FilemanContext) : Bytes :=
  jwtinterfaceGetTokenFromCookieOrAuthorization ctx.cookie ctx.authorisation

/-! ## Output -/

/-- A call on `req->out`, or on the request. -/
def put (e : Event) : Exec (List Event) PUnit := Exec.modify fun out => out ++ [e]

/-- `%d` of an `int64_t`: the low 32 bits, as an `int`. -/
def printedInt (n : ℤ) : Bytes := renderInt (n.bmod (2 ^ 32))

/-- `email_address.c_str()`. -/
def userEmail (user : JwtUserContext) : CStr := CStr.ofBytes user.emailAddress

/-- What the index request writes first. -/
def userPage (user : JwtUserContext) : Page where
  status := "200"
  fields := [(bytes "Content-Type", bytes "text/plain; charset=utf-8")]
  body := lines ["user parsed from jwt ----"] ++
    bytes "email address: [" ++ (userEmail user).val ++ bytes "]\r\n" ++
    bytes "friendly name: " ++ (CStr.ofBytes user.friendlyName).val ++ bytes "\r\n"

/-- The header block of the list. -/
def listPage : Page where
  status := "200 OK"
  fields := [contentType]
  body := []

/-- The page of the `catch` clause. -/
def exceptionPage : Page where
  status := "500"
  fields := [(bytes "Content-Type", bytes "text/plain; charset=utf-8")]
  body := lines ["500 Internal Server Error", "Please see logs"]

/-- One line of the group membership. -/
def groupLine (groupId : ℤ) : Event := .text (printedInt groupId ++ bytes "\r\n")

/-- The link to one file of a group. -/
def fileLink (clientId : ℤ) (file : FileItem) : Bytes :=
  let filename := printedInt clientId ++ bytes "/" ++ (CStr.ofBytes file.name).val
  (if file.directory then bytes "DIR " else []) ++
    (if file.symbolicLink then bytes "SYM " else []) ++
    bytes "<a href=\"" ++ filename ++ bytes "\">" ++ filename ++ bytes "</a><br/>\r\n"

/-- `data/%d/`. -/
def fileLocation (clientId : ℤ) : Bytes := bytes "data/" ++ printedInt clientId ++ bytes "/"

/-! ## The code -/

section Code

variable (J : JwtCpp) (P : Picojson) (env : FilemanEnv)

/-- The loop over the rows of the index request. -/
def putGroups : List ℤ → Exec (List Event) PUnit
  | [] => pure ⟨⟩
  | groupId :: rest => do
    put (groupLine groupId)
    putGroups rest

/-- The index request behind its header block. -/
def putMembership (email : CStr) : Exec (List Event) PUnit := do
  let _ ← Exec.ofExcept env.statement
  let _ ← Exec.ofExcept (env.bindAll email)
  put (.text (bytes "Group membership:\r\n"))
  putGroups (env.rows email).1
  Exec.ofExcept (env.rows email).2

/-- `fileman_process_index_get_request`. -/
def filemanProcessIndexGetRequest (ctx : FilemanContext) : Exec (List Event) ℤ := do
  match ← filemanUserContext J P ctx.cookie ctx.authorisation with
  -- `jwt_user_ctx->email_address`
  | none => Exec.undefined
  | some user =>
    put (.page (userPage user))
    putMembership env (userEmail user)
    put .flush
    put .close
    put .finish
    pure 0

/-- The loop over the rows of the list request. -/
def groupFiles : List ℤ → Except Exn Bytes
  | [] => pure []
  | clientId :: rest => do
    let files ← env.list (fileLocation clientId)
    let fileListingHtml ← groupFiles rest
    pure (files.flatMap (fileLink clientId) ++ fileListingHtml)

/-- The links to all files of a user. -/
def fileListing (email : CStr) : Except Exn Bytes := do
  let _ ← env.bindAll email
  let fileListingHtml ← groupFiles env (env.rows email).1
  let _ ← (env.rows email).2
  pure fileListingHtml

/-- `fileman_process_list_get_request`. There is no `FCGX_FClose`. -/
def filemanProcessListGetRequest (ctx : FilemanContext) : Exec (List Event) ℤ := do
  let jwtUserCtx ← filemanUserContext J P ctx.cookie ctx.authorisation
  let _ ← Exec.ofExcept env.statement
  match jwtUserCtx with
  -- `jwt_user_ctx->email_address`
  | none => Exec.undefined
  | some user =>
    let fileListingHtml ← Exec.ofExcept (fileListing env (userEmail user))
    put (.page listPage)
    put (.text fileListingHtml)
    put .flush
    put .finish
    pure 0

/-- The `try` block of `fileman_process_request`. -/
def filemanTry (ctx : FilemanContext) : Exec (List Event) ℤ :=
  match ctx.requestMethod, ctx.pathInfo with
  | some method, some path =>
    if strEq method.val (bytes "GET") then
      if strEq path.val (bytes "index") then filemanProcessIndexGetRequest J P env ctx
      else if strEq path.val (bytes "list") then filemanProcessListGetRequest J P env ctx
      else pure 0
    -- `POST` has an empty block
    else pure 0
  -- `%s` and `strcmp` of a null pointer
  | _, _ => Exec.undefined

/-- `catch (std::exception &)`. -/
def answerException : Exec (List Event) ℤ := do
  put (.page exceptionPage)
  put .flush
  put .close
  put .finish
  pure 0

/-- `fileman_process_request`; what a handler returns is not looked at, and is 0. -/
def filemanProcessRequest (ctx : FilemanContext) : Exec (List Event) ℤ :=
  (filemanTry J P env ctx).catching fun _ => some answerException

/-- The request is answered: no null pointer is used, the call returns, and it has written one page
and called `FCGX_Finish_r` once. -/
def FilemanAnswers (ctx : FilemanContext) : Prop :=
  ∃ out, (filemanProcessRequest J P env ctx).run [] = (.ret 0, out) ∧ AnsweredOnce out

end Code

/-! ## What the calls do -/

section Runs

variable {J : JwtCpp} {P : Picojson} {env : FilemanEnv} {ctx : FilemanContext} {out : List Event}

@[simp] theorem put_run (e : Event) : (put e).run out = (.ret ⟨⟩, out ++ [e]) := rfl

theorem putGroups_run (ids : List ℤ) :
    (putGroups ids).run out = (.ret ⟨⟩, out ++ ids.map groupLine) := by
  induction ids generalizing out with
  | nil => simp [putGroups]
  | cons groupId rest ih =>
    rw [putGroups, Exec.bind_ret (put_run _), ih]
    simp

/-- The groups of the user can be read from the database. -/
structure GroupsRead (env : FilemanEnv) (email : CStr) : Prop where
  statement : env.statement = .ok ⟨⟩
  bindAll : env.bindAll email = .ok ⟨⟩
  rows : (env.rows email).2 = .ok ⟨⟩

/-- The events of the membership. -/
def membership (env : FilemanEnv) (email : CStr) : List Event :=
  .text (bytes "Group membership:\r\n") :: (env.rows email).1.map groupLine

/-- They are neither a page nor the end of the request. -/
theorem membership_events {email : CStr} {e : Event} (h : e ∈ membership env email) :
    e.page? = none ∧ e.isFinish = false := by
  rcases List.mem_cons.mp h with rfl | hline
  · exact ⟨rfl, rfl⟩
  · obtain ⟨groupId, -, rfl⟩ := List.mem_map.mp hline
    exact ⟨rfl, rfl⟩

/-- A page, the membership, and the end. -/
theorem answeredOnce_membership (page : Page) (email : CStr) :
    AnsweredOnce (.page page :: (membership env email ++ [.flush, .close, .finish])) := by
  refine answeredOnce_of_page (fun e he => ?_) ?_
  · rcases List.mem_append.mp he with hline | hend
    · exact (membership_events hline).1
    · simp only [List.mem_cons, List.not_mem_nil, or_false] at hend
      rcases hend with rfl | rfl | rfl <;> rfl
  · have hnone : (membership env email).countP Event.isFinish = 0 := by
      rw [List.countP_eq_zero]
      intro e he
      simp [(membership_events he).2]
    rw [List.countP_append, hnone]
    rfl

/-- The membership, to its end. -/
theorem putMembership_of_read {email : CStr} (h : GroupsRead env email) :
    (putMembership env email).run out =
      (.ret ⟨⟩, out ++ membership env email) := by
  unfold putMembership
  rw [h.statement, h.bindAll, h.rows]
  simp only [Exec.ofExcept_ok, Exec.pure_bind]
  rw [Exec.bind_ret (put_run _), Exec.bind_ret (putGroups_run _)]
  simp [membership]

/-- An exception on the way. -/
theorem putMembership_of_not_read {email : CStr} (h : ¬ GroupsRead env email) (out : List Event) :
    ∃ e out', (putMembership env email).run out = (.throws e, out ++ out') := by
  unfold putMembership
  cases hstatement : env.statement with
  | error e => exact ⟨e, [], by simp⟩
  | ok u =>
    cases hbind : env.bindAll email with
    | error e => exact ⟨e, [], by simp⟩
    | ok u =>
      cases hrows : (env.rows email).2 with
      | error e =>
        simp only [Exec.ofExcept_ok, Exec.pure_bind]
        rw [Exec.bind_ret (put_run _), Exec.bind_ret (putGroups_run _)]
        exact ⟨e, _, by rw [List.append_assoc]; rfl⟩
      | ok u => exact absurd ⟨hstatement, hbind, hrows⟩ h

/-- The user of the request. -/
theorem filemanUserContext_run (J : JwtCpp) (P : Picojson) (ctx : FilemanContext)
    (out : List Event) : (filemanUserContext J P ctx.cookie ctx.authorisation).run out =
      (.ret (tokenUser J P ctx.token), out) := jwtinterfaceGetUserContext_run J P ctx.token out

/-- The files of a user either can be listed or an exception is thrown, before anything is
written. -/
theorem filemanProcessListGetRequest_run (hstatement : env.statement = .ok ⟨⟩)
    {user : JwtUserContext} (huser : tokenUser J P ctx.token = some user) :
    (∃ html, (filemanProcessListGetRequest J P env ctx).run [] =
      (.ret 0, [.page listPage, .text html, .flush, .finish])) ∨
      ∃ e, (filemanProcessListGetRequest J P env ctx).run [] = (.throws e, []) := by
  have hctx := filemanUserContext_run J P ctx []
  rw [huser] at hctx
  unfold filemanProcessListGetRequest
  rw [Exec.bind_ret hctx, hstatement]
  cases hlisting : fileListing env (userEmail user) with
  | error e => exact Or.inr ⟨e, by simp [hlisting]⟩
  | ok html => exact Or.inl ⟨html, by simp [hlisting, Exec.run_bind]⟩

end Runs

/-! ## Answering -/

/-- The handler is called inside the `try`, and the request is answered. -/
def AnsweredBy (m : Exec (List Event) ℤ) : Prop :=
  ∃ out, (m.catching fun _ => some answerException).run [] = (.ret 0, out) ∧ AnsweredOnce out

section Answering

variable {m : Exec (List Event) ℤ} {out : List Event}

theorem answeredBy_of_ret (h : m.run [] = (.ret 0, out)) : AnsweredBy m ↔ AnsweredOnce out := by
  rw [AnsweredBy, Exec.catching_ret h]
  simp

theorem not_answeredBy_of_undefined (h : m.run [] = (.undefined, out)) : ¬ AnsweredBy m := by
  rw [AnsweredBy, Exec.catching_undefined h]
  simp

/-- Nothing is written. -/
theorem not_answeredBy_pure : ¬ AnsweredBy (pure 0) := by
  have hrun : (pure 0 : Exec (List Event) ℤ).run [] = (.ret 0, []) := rfl
  rw [answeredBy_of_ret hrun]
  rintro ⟨⟨page, rest, hout, -⟩, -⟩
  cases hout

/-- What is written when an exception reaches the router. -/
theorem answeredBy_of_throws {e : Exn} (h : m.run [] = (.throws e, out)) :
    AnsweredBy m ↔ AnsweredOnce (out ++ [.page exceptionPage, .flush, .close, .finish]) := by
  have hrun : answerException.run out =
      (.ret 0, out ++ [.page exceptionPage, .flush, .close, .finish]) := by
    simp [answerException, Exec.run_bind]
  rw [AnsweredBy, Exec.catching_throws h]
  simp only [hrun]
  simp

/-- In front of anything else, one page. -/
theorem answeredBy_of_throws_nil {e : Exn} (h : m.run [] = (.throws e, [])) : AnsweredBy m := by
  rw [answeredBy_of_throws h]
  exact answeredOnce_of_page (by simp [Event.page?]) rfl

/-- Behind a page, a second one. -/
theorem not_answeredBy_of_throws_page {e : Exn} {page : Page}
    (h : m.run [] = (.throws e, .page page :: out)) : ¬ AnsweredBy m := by
  rw [answeredBy_of_throws h]
  rintro ⟨⟨page', rest, hout, hrest⟩, -⟩
  obtain ⟨-, rfl⟩ := List.cons.inj hout
  have hnone := hrest (.page exceptionPage) (by simp)
  cases hnone

end Answering

section Handlers

variable {J : JwtCpp} {P : Picojson} {env : FilemanEnv} {ctx : FilemanContext}

theorem answeredBy_index_iff :
    AnsweredBy (filemanProcessIndexGetRequest J P env ctx) ↔
      ∃ user, tokenUser J P ctx.token = some user ∧ GroupsRead env (userEmail user) := by
  have hctx := filemanUserContext_run J P ctx []
  cases huser : tokenUser J P ctx.token with
  | none =>
    rw [huser] at hctx
    have hrun : (filemanProcessIndexGetRequest J P env ctx).run [] = (.undefined, []) :=
      Exec.bind_ret hctx
    exact iff_of_false (not_answeredBy_of_undefined hrun) (by simp)
  | some user =>
    rw [huser] at hctx
    have hrun : (filemanProcessIndexGetRequest J P env ctx).run [] =
        (do
          put (.page (userPage user))
          putMembership env (userEmail user)
          put .flush
          put .close
          put .finish
          pure 0 : Exec (List Event) ℤ).run [] := Exec.bind_ret hctx
    rw [Exec.bind_ret (put_run _)] at hrun
    simp only [Option.some.injEq, exists_eq_left']
    by_cases hread : GroupsRead env (userEmail user)
    · rw [List.nil_append, Exec.bind_ret (putMembership_of_read hread)] at hrun
      have hend : (filemanProcessIndexGetRequest J P env ctx).run [] = (.ret 0,
          .page (userPage user) :: (membership env (userEmail user) ++
            [.flush, .close, .finish])) := by
        rw [hrun]
        simp [Exec.run_bind]
      exact iff_of_true ((answeredBy_of_ret hend).mpr (answeredOnce_membership _ _)) hread
    · obtain ⟨e, out', hthrows⟩ := putMembership_of_not_read hread [.page (userPage user)]
      rw [List.nil_append, Exec.bind_throws hthrows] at hrun
      exact iff_of_false (not_answeredBy_of_throws_page hrun) hread

theorem answeredBy_list_iff :
    AnsweredBy (filemanProcessListGetRequest J P env ctx) ↔
      (∃ e, env.statement = .error e) ∨ ∃ user, tokenUser J P ctx.token = some user := by
  have hctx := filemanUserContext_run J P ctx []
  cases hstatement : env.statement with
  | error e =>
    refine iff_of_true (answeredBy_of_throws_nil (e := e) ?_) (Or.inl ⟨e, rfl⟩)
    unfold filemanProcessListGetRequest
    rw [Exec.bind_ret hctx, hstatement]
    rfl
  | ok u =>
    cases huser : tokenUser J P ctx.token with
    | none =>
      rw [huser] at hctx
      have hrun : (filemanProcessListGetRequest J P env ctx).run [] = (.undefined, []) := by
        unfold filemanProcessListGetRequest
        rw [Exec.bind_ret hctx, hstatement]
        rfl
      exact iff_of_false (not_answeredBy_of_undefined hrun) (by simp)
    | some user =>
      refine iff_of_true ?_ (Or.inr ⟨user, rfl⟩)
      rcases filemanProcessListGetRequest_run hstatement huser with ⟨html, hrun⟩ | ⟨e, hrun⟩
      · exact (answeredBy_of_ret hrun).mpr (answeredOnce_of_page (by simp [Event.page?]) rfl)
      · exact answeredBy_of_throws_nil hrun

/-- The requests that are answered: `GET index` with a token that names a user whose groups can be
read, and `GET list` with a token that names a user, or without a statement to ask the database. -/
inductive FilemanAnswerable (J : JwtCpp) (P : Picojson) (env : FilemanEnv) (ctx : FilemanContext) :
    Prop
  | index {method path : CStr} (hmethod : ctx.requestMethod = some method)
    (hpath : ctx.pathInfo = some path) (hget : method.val = bytes "GET")
    (hindex : path.val = bytes "index") {user : JwtUserContext}
    (huser : tokenUser J P ctx.token = some user) (hread : GroupsRead env (userEmail user))
  | list {method path : CStr} (hmethod : ctx.requestMethod = some method)
    (hpath : ctx.pathInfo = some path) (hget : method.val = bytes "GET")
    (hlist : path.val = bytes "list")
    (huser : (∃ e, env.statement = .error e) ∨ ∃ user, tokenUser J P ctx.token = some user)

/-- **The requests that the file manager answers once**; no other. -/
theorem filemanAnswers_iff : FilemanAnswers J P env ctx ↔ FilemanAnswerable J P env ctx := by
  unfold FilemanAnswers filemanProcessRequest
  rw [← AnsweredBy]
  constructor
  · intro h
    unfold filemanTry at h
    cases hmethod : ctx.requestMethod with
    | none =>
      simp only [hmethod] at h
      exact absurd h (not_answeredBy_of_undefined rfl)
    | some method =>
      cases hpath : ctx.pathInfo with
      | none =>
        simp only [hmethod, hpath] at h
        exact absurd h (not_answeredBy_of_undefined rfl)
      | some path =>
        simp only [hmethod, hpath, strEq, decide_eq_true_eq] at h
        by_cases hget : method.val = bytes "GET"
        · rw [if_pos hget] at h
          by_cases hindex : path.val = bytes "index"
          · rw [if_pos hindex] at h
            obtain ⟨user, huser, hread⟩ := answeredBy_index_iff.mp h
            exact .index hmethod hpath hget hindex huser hread
          · rw [if_neg hindex] at h
            by_cases hlist : path.val = bytes "list"
            · rw [if_pos hlist] at h
              exact .list hmethod hpath hget hlist (answeredBy_list_iff.mp h)
            · rw [if_neg hlist] at h
              exact absurd h not_answeredBy_pure
        · rw [if_neg hget] at h
          exact absurd h not_answeredBy_pure
  · rintro (⟨hmethod, hpath, hget, hindex, huser, hread⟩ | ⟨hmethod, hpath, hget, hlist, huser⟩)
    · have htry : filemanTry J P env ctx = filemanProcessIndexGetRequest J P env ctx := by
        simp [filemanTry, hmethod, hpath, strEq, hget, hindex]
      rw [htry]
      exact answeredBy_index_iff.mpr ⟨_, huser, hread⟩
    · have htry : filemanTry J P env ctx = filemanProcessListGetRequest J P env ctx := by
        have hne : bytes "list" ≠ bytes "index" := by decide
        simp [filemanTry, hmethod, hpath, strEq, hget, hlist, hne]
      rw [htry]
      exact answeredBy_list_iff.mpr huser

end Handlers

/-- A database without groups. -/
def noGroups : FilemanEnv where
  statement := .ok ⟨⟩
  bindAll _ := .ok ⟨⟩
  rows _ := ([], .ok ⟨⟩)
  list _ := .ok []

/-- `GET index` without a cookie: a null pointer is used. -/
theorem not_filemanAnswers_without_cookie :
    ¬ FilemanAnswers (JwtCpp.ofTable [] fun _ _ => false) (Picojson.ofTable []) noGroups
      { requestMethod := some (CStr.lit "GET"), pathInfo := some (CStr.lit "index"),
        cookie := none, authorisation := none } := by
  rintro ⟨out, hrun, -⟩
  cases hrun

end FcgiJwtAuth
