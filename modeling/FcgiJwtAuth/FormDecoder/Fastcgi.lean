import FcgiJwtAuth.AppAuth.Serving
import FcgiJwtAuth.CLang.Triple
import FcgiJwtAuth.FormDecoder.FieldLaws
import FcgiJwtAuth.FormDecoder.SoundFields

/-!
# Decoding the form of a request

`formdecoder_fastcgi.c`, and the two handlers that call it. The form context, the MIME decoder's and
the read buffer are three blocks of memory: each is there or not, and touching one that is not there
is undefined behaviour, a second `free` included. So a call that returns has freed nothing twice,
and what it leaves behind is seen in the state.

The MIME decoder is libgreen's. What it does with a piece of the body is a program whose calls are
those of the callback, whatever they are; each comes with what the operating system answers in it.
-/

namespace FcgiJwtAuth.FormDecoder

open CLang

/-! ## The surroundings -/

/-- What the MIME decoder does, told after each event what the callback made of it. -/
abbrev Decoder (α : Type) := Prog (CallbackEnv × MimeEvent) (fun _ => ℤ) α

/-- `mimedecoder.h`. -/
structure Mimedecoder where
  Context : Type
  initsimple : Context
  setMaxSize : UInt64 → Context → Context
  setcontenttype : CStr → Context → ℤ × Context
  /-- `state = MIMED_STATE_BODY_LF_SEEN`. -/
  startBody : Context → Context
  decode : Bytes → Context → Decoder (ℤ × Context)
  finalise : Context → Decoder ℤ
  decode_defined : ∀ data mime, (decode data mime).Defined
  finalise_defined : ∀ mime, (finalise mime).Defined

/-- A request for a form: what it says of itself, what `FCGX_GetStr` delivers call by call, and how
the allocations go. -/
structure FormRequest where
  requestMethod : Option CStr
  contentType : Option CStr
  pieces : List Bytes
  mimeAllocated : Bool
  env : UrlencodedEnv

/-! ## The state -/

/-- The blocks of one call, and its result. -/
structure Decoding (M : Mimedecoder) where
  /-- `fd_ctx`, `mi_ctx` and `read_buffer`, while they are allocated. -/
  form : Option Context := none
  mime : Option M.Context := none
  readBuffer : Bool := false
  /-- `*fd_ctx_ptr` points to the form context, and is no longer NULL. -/
  fdCtx : Bool := false
  /-- What the callback was given. -/
  events : List (CallbackEnv × MimeEvent) := []
  /-- What `formdecoder_dispose` has left of the files. -/
  files : Files := {}

variable {M : Mimedecoder}

namespace Decoding

/-- `formdecoder_init`. -/
def init (allocated : Bool) (ctx : Context) : Exec (Decoding M) Bool := do
  if allocated then
    Exec.modify fun s => { s with form := some ctx }
  pure allocated

/-- `formdecoder_dispose`. -/
def dispose : Exec (Decoding M) PUnit := fun s =>
  match s.form with
  | none => (.undefined, s)
  | some ctx => (.ret ⟨⟩, { s with form := none, files := formdecoderDispose ctx })

/-- `mimedecoder_initsimple`. -/
def mimedecoderInitsimple (allocated : Bool) : Exec (Decoding M) Bool := do
  if allocated then
    Exec.modify fun s => { s with mime := some M.initsimple }
  pure allocated

/-- `mimedecoder_dispose`. -/
def mimedecoderDispose : Exec (Decoding M) PUnit := fun s =>
  match s.mime with
  | none => (.undefined, s)
  | some _ => (.ret ⟨⟩, { s with mime := none })

/-- `malloc` of the read buffer. -/
def malloc (allocated : Bool) : Exec (Decoding M) Bool := do
  if allocated then
    Exec.modify fun s => { s with readBuffer := true }
  pure allocated

/-- `free` of the read buffer. -/
def free : Exec (Decoding M) PUnit := fun s =>
  if s.readBuffer then (.ret ⟨⟩, { s with readBuffer := false }) else (.undefined, s)

/-- `formdecoder_mimedecoder_callback`, on the form context that the decoder was given. -/
def callback (call : CallbackEnv × MimeEvent) : Exec (Decoding M) ℤ := fun s =>
  match s.form with
  | none => (.undefined, s)
  | some ctx =>
    let s := { s with events := s.events ++ [call] }
    match formdecoderMimedecoderCallback ctx call with
    | none => (.undefined, s)
    | some (rc, ctx') => (.ret rc, { s with form := some ctx' })

/-- A call that changes the MIME decoder's context. -/
def onMime {α : Type} (f : M.Context → Decoder (α × M.Context)) : Exec (Decoding M) α := fun s =>
  match s.mime with
  | none => (.undefined, s)
  | some mime =>
    (do
      let r ← (f mime).interp callback
      Exec.modify fun s => { s with mime := some r.2 }
      pure r.1 : Exec (Decoding M) α) s

/-- `mimedecoder_decode`, of what is in the read buffer. -/
def mimedecoderDecode (data : Bytes) : Exec (Decoding M) ℤ := fun s =>
  if s.readBuffer then onMime (M.decode data) s else (.undefined, s)

/-- `mimedecoder_finalise`, which frees the context. -/
def mimedecoderFinalise : Exec (Decoding M) ℤ := fun s =>
  match s.mime with
  | none => (.undefined, s)
  | some mime =>
    (do
      let rc ← (M.finalise mime).interp callback
      Exec.modify fun s => { s with mime := none }
      pure rc : Exec (Decoding M) ℤ) s

/-- `*fd_ctx_ptr = fd_ctx`. -/
def handOver : Exec (Decoding M) PUnit := Exec.modify fun s => { s with fdCtx := true }

end Decoding

open Decoding

/-! ## A multipart body -/

/-- `error_fd`. -/
def errorFd : Exec (Decoding M) ℤ := do
  dispose
  pure (-1)

/-- `error_mi`. -/
def errorMi : Exec (Decoding M) ℤ := do
  mimedecoderDispose
  errorFd

/-- `error_rb`. -/
def errorRb : Exec (Decoding M) ℤ := do
  free
  errorMi

/-- The loop: it ends with what `mimedecoder_decode` answered if that is not 0. -/
def decodeLoop : List Bytes → Exec (Decoding M) ℤ
  | [] => pure 0
  | piece :: pieces =>
    -- `bytes_read` is 0
    if piece = [] then pure 0
    else do
      let rc ← mimedecoderDecode piece
      if rc = 0 then decodeLoop pieces else pure rc

/-- The part behind the allocations. -/
def decodeMultipart (pieces : List Bytes) : Exec (Decoding M) ℤ := do
  let rc ← decodeLoop pieces
  if rc ≠ 0 then errorRb
  else
    free
    let rc ← mimedecoderFinalise
    if rc ≠ 0 then errorFd
    else
      handOver
      pure 0

/-- `formdecoder_decodefcgirequest_multipart`. -/
def formdecoderDecodefcgirequestMultipart (req : FormRequest) (contentType : CStr)
    (maxSize : UInt64) : Exec (Decoding M) ℤ := do
  if !(← init req.env.contextAllocated (formdecoderInit true)) then pure (-1)
  else if !(← mimedecoderInitsimple req.mimeAllocated) then errorFd
  else
    let rc ← onMime fun mime => pure (M.setcontenttype contentType (M.setMaxSize maxSize mime))
    if rc ≠ 0 then errorMi
    else
      onMime fun mime => pure (PUnit.unit, M.startBody mime)
      if !(← malloc req.env.bufferAllocated) then errorMi
      else decodeMultipart req.pieces

/-! ## A urlencoded body -/

/-- `error_rb` of the other function. -/
def urlencodedErrorRb : Exec (Decoding M) ℤ := do
  free
  errorFd

/-- `fd_ctx->qsctx` and `fd_ctx->buf`: the buffer goes with the context. -/
def keepBuffer (readBuf : Bytes) : Exec (Decoding M) PUnit := Exec.modify fun s =>
  { s with
    form := s.form.map fun ctx => { ctx with qsctx := some (CStr.ofBytes readBuf) }
    readBuffer := false }

/-- The part behind the loop. -/
def finishUrlencoded (decoded : Bool) (maxSize : UInt64) :
    Option (Bytes × UInt64) → Exec (Decoding M) ℤ
  | none => urlencodedErrorRb
  | some (buf, total) =>
    if maxSize ≤ total then urlencodedErrorRb
    else if decoded then do
      keepBuffer (poke buf total.toNat 0)
      handOver
      pure 0
    else urlencodedErrorRb

/-- `formdecoder_decodefcgirequest_urlencoded`, with its blocks. -/
def Decoding.formdecoderDecodefcgirequestUrlencoded (req : FormRequest) (maxSize : UInt64) :
    Exec (Decoding M) ℤ := do
  if !(← init req.env.contextAllocated { type := .querystring }) then pure (-1)
  else if !(← malloc req.env.bufferAllocated) then errorFd
  else
    let memory := (List.range maxSize.toNat).map req.env.memory
    finishUrlencoded req.env.decoded maxSize (readLoop maxSize req.pieces memory 0).2

/-! ## The callers -/

/-- `formdecoder_decodefcgirequest`. -/
def formdecoderDecodefcgirequest (req : FormRequest) (maxSize : UInt64) : Exec (Decoding M) ℤ :=
  match req.requestMethod with
  | none => pure (-1)
  | some requestMethod =>
    if !strEq (bytes "POST") requestMethod.val then pure (-1)
    else
      match req.contentType with
      | none => pure (-1)
      | some contentType =>
        if strncmp 19 (bytes "multipart/form-data") contentType.val = 0 then
          formdecoderDecodefcgirequestMultipart req contentType maxSize
        else if strncmp 33 (bytes "application/x-www-form-urlencoded") contentType.val = 0 then
          Decoding.formdecoderDecodefcgirequestUrlencoded req maxSize
        else pure (-1)

/-- The form in `process_login_page_post`: what the rest of the handler is given to read, which is
disposed of in the end. -/
def processLoginPagePostForm (L : Libgreen) (req : FormRequest) :
    Exec (Decoding M) FormDecoding := do
  let res ← formdecoderDecodefcgirequest req (1024 * 1024)
  if res ≠ 0 then pure .failed
  else
    let s ← Exec.get
    if !s.fdCtx then pure .null
    else
      match s.form with
      | none => Exec.undefined
      | some ctx =>
        dispose
        pure (.fields fun key => (formdecoderGetfield L (CStr.ofBytes key) ctx).map Prod.snd)

/-- `fileman_process_index_post_request`: a `formdecoder_context_ptr` disposes of what it holds. -/
def filemanProcessIndexPostRequest (req : FormRequest) : Exec (Decoding M) ℤ := do
  let _ ← formdecoderDecodefcgirequest req (1024 * 1024)
  let s ← Exec.get
  if s.fdCtx then
    dispose
  pure 0

/-! ## What the blocks are while a body is decoded -/

/-- The calls so far lead to `ctx`. -/
def Follows (s : Decoding M) (ctx : Context) : Prop :=
  ∃ codes, feed formStep (formdecoderInit true) (callbacks s.events) = some (codes, ctx)

/-- A call of the callback has followed a bad pointer. -/
def Broken (s : Decoding M) : Prop :=
  feed formStep (formdecoderInit true) (callbacks s.events) = none

/-- The form context is there and holds what the calls have made of it. -/
structure Working (mime readBuffer : Bool) (s : Decoding M) : Prop where
  form : ∃ ctx, s.form = some ctx ∧ Follows s ctx
  mime : s.mime.isSome = mime
  readBuffer : s.readBuffer = readBuffer
  fdCtx : s.fdCtx = false

/-- No block is left; the form context, if there was one, was disposed of. -/
structure Abandoned (s : Decoding M) : Prop where
  form : s.form = none
  mime : s.mime = none
  readBuffer : s.readBuffer = false
  fdCtx : s.fdCtx = false
  files : ∃ ctx, Follows s ctx ∧ s.files = formdecoderDispose ctx

/-- The form context is the one block left, and the caller has it. -/
structure HandedOver (ctx : Context) (s : Decoding M) : Prop where
  form : s.form = some ctx
  mime : s.mime = none
  readBuffer : s.readBuffer = false
  fdCtx : s.fdCtx = true

open Exec (Triple triple_pure triple_modify)

variable {mime readBuffer : Bool} {ctx : Context} {s : Decoding M}

/-- One more call of the callback, from what those before have made of the context. -/
theorem feed_callbacks_snoc {codes : List ℤ} {ctx : Context}
    {events : List (CallbackEnv × MimeEvent)} (call : CallbackEnv × MimeEvent)
    (h : feed formStep (formdecoderInit true) (callbacks events) = some (codes, ctx)) :
    feed formStep (formdecoderInit true) (callbacks (events ++ [call])) =
      (formdecoderMimedecoderCallback ctx call).map fun r => (codes ++ [r.1], r.2) := by
  have hstep : formStep ctx (.callback call.1 call.2) =
      formdecoderMimedecoderCallback ctx call := rfl
  rw [callbacks, List.map_append, ← callbacks, List.map_singleton]
  rcases hcall : formdecoderMimedecoderCallback ctx call with _ | ⟨code, ctx'⟩
  · rw [feed_append_none h (feed_cons_of_none (hstep.trans hcall))]
    rfl
  · have hlast : feed formStep ctx [.callback call.1 call.2] = some ([code], ctx') := by
      rw [feed_cons (hstep.trans hcall)]
      rfl
    rw [feed_append h hlast]
    rfl

theorem triple_callback (call : CallbackEnv × MimeEvent) :
    Triple (Working (M := M) mime readBuffer) (callback call) (fun _ => Working mime readBuffer)
      Broken := by
  rintro s ⟨⟨ctx, hform, codes, hfeed⟩, hmime, hbuffer, hfdCtx⟩
  have hnext := feed_callbacks_snoc call hfeed
  have hrun : (callback call).run s =
      match formdecoderMimedecoderCallback ctx call with
      | none => (.undefined, { s with events := s.events ++ [call] })
      | some (rc, ctx') =>
        (.ret rc, { s with events := s.events ++ [call], form := some ctx' }) := by
    show callback call s = _
    simp only [callback, hform]
  rw [hrun]
  rcases hcall : formdecoderMimedecoderCallback ctx call with _ | ⟨rc, ctx'⟩
  · -- the event counts as one of those given, so the events now lead nowhere
    rw [hcall] at hnext
    exact hnext
  · rw [hcall] at hnext
    exact ⟨⟨ctx', rfl, _, hnext⟩, hmime, hbuffer, hfdCtx⟩

/-- The decoder's context is written back, or freed, when the decoder is through. -/
theorem triple_setMime {α : Type} (c : Option M.Context) (a : α) :
    Triple (Working true readBuffer)
      (do
        Exec.modify fun s => { s with mime := c }
        pure a : Exec (Decoding M) α)
      (fun _ => Working c.isSome readBuffer) Broken := by
  refine Triple.bind (R := fun _ => Working c.isSome readBuffer) ?_ fun _ =>
    triple_pure fun _ h => h
  exact triple_modify fun s hs => ⟨hs.form, rfl, hs.readBuffer, hs.fdCtx⟩

theorem triple_onMime {α : Type} {f : M.Context → Decoder (α × M.Context)}
    (hf : ∀ mime, (f mime).Defined) :
    Triple (Working true readBuffer) (onMime f) (fun _ => Working true readBuffer) Broken := by
  intro s hs
  obtain ⟨c, hc⟩ := Option.isSome_iff_exists.mp hs.mime
  show Exec.Post _ _ (onMime f s)
  simp only [onMime, hc]
  exact Triple.bind (Prog.triple_interp (hf c) triple_callback)
    (fun r => triple_setMime (some r.2) r.1) s hs

theorem triple_mimedecoderDecode (data : Bytes) :
    Triple (Working (M := M) true true) (mimedecoderDecode data) (fun _ => Working true true)
      Broken := by
  intro s hs
  have hrun : (mimedecoderDecode data).run s = (onMime (M.decode data)).run s := by
    show mimedecoderDecode data s = _
    simp only [mimedecoderDecode, hs.readBuffer, if_true]
    rfl
  rw [hrun]
  exact triple_onMime (M.decode_defined data) s hs

theorem triple_decodeLoop (pieces : List Bytes) :
    Triple (Working (M := M) true true) (decodeLoop pieces) (fun _ => Working true true)
      Broken := by
  induction pieces with
  | nil => exact triple_pure fun _ h => h
  | cons piece pieces ih =>
    rw [decodeLoop]
    split
    · exact triple_pure fun _ h => h
    · refine (triple_mimedecoderDecode piece).bind fun rc => ?_
      split
      · exact ih
      · exact triple_pure fun _ h => h

/-- The callback can still be called while the decoder is at its end. -/
theorem triple_mimedecoderFinalise :
    Triple (Working (M := M) true readBuffer) mimedecoderFinalise
      (fun _ => Working false readBuffer) Broken := by
  intro s hs
  obtain ⟨c, hc⟩ := Option.isSome_iff_exists.mp hs.mime
  show Exec.Post _ _ (mimedecoderFinalise s)
  simp only [mimedecoderFinalise, hc]
  exact Triple.bind (Prog.triple_interp (M.finalise_defined c) triple_callback)
    (fun rc => triple_setMime none rc) s hs

/-! ## The blocks one by one -/

theorem triple_free :
    Triple (Working (M := M) mime true) free (fun _ => Working mime false) Broken := by
  intro s hs
  show Exec.Post _ _ (free s)
  simp only [free, hs.readBuffer, if_true]
  exact ⟨hs.form, hs.mime, rfl, hs.fdCtx⟩

theorem triple_mimedecoderDispose :
    Triple (Working (M := M) true readBuffer) mimedecoderDispose (fun _ => Working false readBuffer)
      Broken := by
  intro s hs
  obtain ⟨c, hc⟩ := Option.isSome_iff_exists.mp hs.mime
  show Exec.Post _ _ (mimedecoderDispose s)
  simp only [mimedecoderDispose, hc]
  exact ⟨hs.form, rfl, hs.readBuffer, hs.fdCtx⟩

theorem dispose_run (h : s.form = some ctx) :
    dispose.run s = (.ret ⟨⟩, { s with form := none, files := formdecoderDispose ctx }) := by
  show dispose s = _
  simp only [dispose, h]

theorem Working.mime_eq_none (h : Working false readBuffer s) : s.mime = none := by
  rw [← Option.not_isSome_iff_eq_none, h.mime]
  exact Bool.false_ne_true

/-- Every block is given back. -/
def GaveUp (rc : ℤ) (s : Decoding M) : Prop := rc = -1 ∧ Abandoned s

theorem triple_errorFd : Triple (Working (M := M) false false) errorFd GaveUp Broken := by
  intro s hs
  obtain ⟨ctx, hform, hfollows⟩ := hs.form
  rw [errorFd, Exec.bind_ret (dispose_run hform)]
  exact ⟨rfl, rfl, hs.mime_eq_none, hs.readBuffer, hs.fdCtx, ctx, hfollows, rfl⟩

theorem triple_errorMi : Triple (Working (M := M) true false) errorMi GaveUp Broken :=
  triple_mimedecoderDispose.bind fun _ => triple_errorFd

theorem triple_errorRb : Triple (Working (M := M) true true) errorRb GaveUp Broken :=
  triple_free.bind fun _ => triple_errorMi

/-! ## Both kinds of body -/

/-- A call is given up, or its context is handed over. -/
def Settles (made : Context → Decoding M → Prop) (rc : ℤ) (s : Decoding M) : Prop :=
  GaveUp rc s ∨ rc = 0 ∧ ∃ ctx, HandedOver ctx s ∧ made ctx s

variable {made : Context → Decoding M → Prop}

theorem triple_gaveUp {P : Decoding M → Prop} {m : Exec (Decoding M) ℤ}
    (h : Triple P m GaveUp Broken) : Triple P m (Settles made) Broken :=
  h.mono (fun _ hs => hs) fun _ _ => Or.inl

theorem triple_decodeMultipart (pieces : List Bytes) :
    Triple (Working (M := M) true true) (decodeMultipart pieces)
      (Settles fun ctx s => Follows s ctx) Broken := by
  refine (triple_decodeLoop pieces).bind fun rc => ?_
  -- the loop leaves all three blocks in place, whatever it answers
  split
  · exact triple_gaveUp triple_errorRb
  · refine triple_free.bind fun _ => triple_mimedecoderFinalise.bind fun rc => ?_
    split
    · exact triple_gaveUp triple_errorFd
    · intro s hs
      obtain ⟨ctx, hform, hfollows⟩ := hs.form
      exact Or.inr ⟨rfl, ctx, ⟨hform, hs.mime_eq_none, hs.readBuffer, rfl⟩, hfollows⟩

/-! ## The allocations -/

theorem follows_start : Follows ({} : Decoding M) (formdecoderInit true) := ⟨[], rfl⟩

theorem gaveUp_start : GaveUp (-1) ({} : Decoding M) :=
  ⟨rfl, rfl, rfl, rfl, rfl, formdecoderInit true, follows_start, rfl⟩

theorem triple_init (allocated : Bool) :
    Triple (· = ({} : Decoding M)) (init allocated (formdecoderInit true))
      (fun ok s => if ok then Working false false s else s = {}) Broken := by
  rintro s rfl
  cases allocated with
  | true => exact ⟨⟨_, rfl, [], rfl⟩, rfl, rfl, rfl⟩
  | false => rfl

theorem triple_mimedecoderInitsimple (allocated : Bool) :
    Triple (Working (M := M) false readBuffer) (mimedecoderInitsimple allocated)
      (fun ok => Working ok readBuffer) Broken := by
  intro s hs
  cases allocated with
  | true => exact ⟨hs.form, rfl, hs.readBuffer, hs.fdCtx⟩
  | false => exact hs

theorem triple_malloc (allocated : Bool) :
    Triple (Working (M := M) mime false) (malloc allocated) (fun ok => Working mime ok) Broken := by
  intro s hs
  cases allocated with
  | true => exact ⟨hs.form, hs.mime, rfl, hs.fdCtx⟩
  | false => exact hs

/-- **A multipart body**: whatever the decoder does, the blocks are given back or handed over. -/
theorem triple_multipart (req : FormRequest) (contentType : CStr) (maxSize : UInt64) :
    Triple (· = ({} : Decoding M)) (formdecoderDecodefcgirequestMultipart req contentType maxSize)
      (Settles fun ctx s => Follows s ctx) Broken := by
  refine (triple_init _).bind fun formOk => ?_
  cases formOk with
  | false =>
    refine triple_pure ?_
    rintro s rfl
    exact Or.inl gaveUp_start
  | true =>
    refine (triple_mimedecoderInitsimple _).bind fun mimeOk => ?_
    cases mimeOk with
    | false => exact triple_gaveUp triple_errorFd
    | true =>
      refine (triple_onMime fun mime => Prog.defined_pure _).bind fun rc => ?_
      split
      · exact triple_gaveUp triple_errorMi
      refine (triple_onMime fun mime => Prog.defined_pure _).bind fun _ => ?_
      refine (triple_malloc _).bind fun bufferOk => ?_
      cases bufferOk with
      | false => exact triple_gaveUp triple_errorMi
      | true => exact triple_decodeMultipart req.pieces

/-! ## A urlencoded body -/

/-- The form context of a urlencoded body, and perhaps the buffer, are the blocks there are. -/
def Reading (readBuffer : Bool) (s : Decoding M) : Prop :=
  s = { form := some { type := .querystring }, readBuffer := readBuffer }

theorem triple_urlencodedErrorFd : Triple (Reading (M := M) false) errorFd GaveUp Broken := by
  rintro s rfl
  exact ⟨rfl, rfl, rfl, rfl, rfl, _, follows_start, rfl⟩

theorem triple_urlencodedErrorRb :
    Triple (Reading (M := M) true) urlencodedErrorRb GaveUp Broken := by
  refine Triple.bind (R := fun _ => Reading false) ?_ fun _ => triple_urlencodedErrorFd
  rintro s rfl
  rfl

theorem triple_finishUrlencoded (env : UrlencodedEnv) (maxSize : UInt64)
    (r : List Access × Option (Bytes × UInt64)) :
    Triple (Reading (M := M) true) (finishUrlencoded env.decoded maxSize r.2)
      (Settles fun ctx s => s.events = [] ∧ (finishReading env maxSize none r).fdCtx = some ctx)
      Broken := by
  obtain ⟨accesses, _ | ⟨buf, total⟩⟩ := r
  · exact triple_gaveUp triple_urlencodedErrorRb
  by_cases hfull : maxSize ≤ total
  · simp only [finishUrlencoded, if_pos hfull]
    exact triple_gaveUp triple_urlencodedErrorRb
  rcases hdecoded : env.decoded
  · simp only [finishUrlencoded, if_neg hfull]
    exact triple_gaveUp triple_urlencodedErrorRb
  · simp only [finishUrlencoded, finishReading, if_neg hfull, hdecoded]
    rintro s rfl
    exact Or.inr ⟨rfl, _, ⟨rfl, rfl, rfl, rfl⟩, rfl, rfl⟩

/-- **A urlencoded body**: what is handed over is what `formdecoderDecodefcgirequestUrlencoded`
makes of the body. -/
theorem triple_urlencoded (req : FormRequest) (maxSize : UInt64) :
    Triple (· = ({} : Decoding M)) (Decoding.formdecoderDecodefcgirequestUrlencoded req maxSize)
      (Settles fun ctx s => s.events = [] ∧
        (FormDecoder.formdecoderDecodefcgirequestUrlencoded req.env maxSize req.pieces none).fdCtx =
          some ctx) Broken := by
  unfold FormDecoder.formdecoderDecodefcgirequestUrlencoded
  unfold Decoding.formdecoderDecodefcgirequestUrlencoded
  rintro s rfl
  rcases req.env.contextAllocated
  · exact Or.inl gaveUp_start
  rcases req.env.bufferAllocated
  · exact triple_gaveUp triple_urlencodedErrorFd _ rfl
  · exact triple_finishUrlencoded req.env maxSize _ _ rfl

/-! ## The whole call -/

/-- The context is what the decoder's events or a urlencoded body make, as the type of a `POST`
request has it. -/
def MadeFrom (req : FormRequest) (maxSize : UInt64) (ctx : Context) (s : Decoding M) : Prop :=
  ∃ requestMethod contentType, req.requestMethod = some requestMethod ∧
    requestMethod.val = bytes "POST" ∧ req.contentType = some contentType ∧
    (bytes "multipart/form-data" <+: contentType.val ∧ Follows s ctx ∨
      bytes "application/x-www-form-urlencoded" <+: contentType.val ∧ s.events = [] ∧
        (formdecoderDecodefcgirequestUrlencoded req.env maxSize req.pieces none).fdCtx = some ctx)

theorem Settles.mono {made' : Context → Decoding M → Prop} {rc : ℤ} (h : Settles made rc s)
    (hmade : ∀ ctx, made ctx s → made' ctx s) : Settles made' rc s := by
  rcases h with hgave | ⟨hrc, ctx, hhanded, hmade'⟩
  · exact Or.inl hgave
  · exact Or.inr ⟨hrc, ctx, hhanded, hmade ctx hmade'⟩

theorem triple_refused :
    Triple (· = ({} : Decoding M)) (pure (-1) : Exec (Decoding M) ℤ) (Settles made) Broken := by
  refine triple_pure ?_
  rintro s rfl
  exact Or.inl gaveUp_start

theorem triple_decodefcgirequest (req : FormRequest) (maxSize : UInt64) :
    Triple (· = ({} : Decoding M)) (formdecoderDecodefcgirequest req maxSize)
      (Settles (MadeFrom req maxSize)) Broken := by
  unfold formdecoderDecodefcgirequest
  rcases hmethod : req.requestMethod with _ | requestMethod
  · exact triple_refused
  by_cases hpost : bytes "POST" = requestMethod.val
  · simp only [strEq, hpost, decide_true, Bool.not_true, Bool.false_eq_true, if_false]
    rcases htype : req.contentType with _ | contentType
    · exact triple_refused
    have hmultipart : strncmp 19 (bytes "multipart/form-data") contentType.val = 0 ↔ _ :=
      strncmp_literal_iff (a := bytes "multipart/form-data") (by decide) contentType.noNul
    have hurlencoded :
        strncmp 33 (bytes "application/x-www-form-urlencoded") contentType.val = 0 ↔ _ :=
      strncmp_literal_iff (a := bytes "application/x-www-form-urlencoded") (by decide)
        contentType.noNul
    simp only [hmultipart, hurlencoded]
    split
    · rename_i hbegins
      refine (triple_multipart req contentType maxSize).mono (fun _ hs => hs) fun rc s hs => ?_
      exact hs.mono fun ctx hfollows =>
        ⟨requestMethod, contentType, hmethod, hpost.symm, htype, Or.inl ⟨hbegins, hfollows⟩⟩
    split
    · rename_i hbegins
      refine (triple_urlencoded req maxSize).mono (fun _ hs => hs) fun rc s hs => ?_
      exact hs.mono fun ctx hmade =>
        ⟨requestMethod, contentType, hmethod, hpost.symm, htype, Or.inr ⟨hbegins, hmade⟩⟩
    · exact triple_refused
  · simp only [strEq, hpost, decide_false, Bool.not_false, if_true]
    exact triple_refused

/-! ## What comes of it -/

/-- No block is left. -/
def NothingLeft (s : Decoding M) : Prop :=
  s.form = none ∧ s.mime = none ∧ s.readBuffer = false

/-- The files of the context are closed and unlinked if and only if no event dropped one. -/
def FilesFollow (s : Decoding M) : Prop :=
  s.files.Settled ↔ Throughout formStep KeepsFiles (formdecoderInit true) (callbacks s.events)

/-- A call is undefined if and only if some event finds a bad pointer. -/
theorem broken_iff (s : Decoding M) :
    Broken s ↔ ¬ Throughout formStep PointersOk (formdecoderInit true) (callbacks s.events) := by
  have hgoes : (feed formStep (formdecoderInit true) (callbacks s.events)).isSome ↔
      Throughout formStep (fun ctx call => (formStep ctx call).isSome) (formdecoderInit true)
        (callbacks s.events) := feed_isSome_iff
  simp only [formStep_isSome_iff] at hgoes
  rw [← hgoes, Option.not_isSome_iff_eq_none]
  exact Iff.rfl

theorem Follows.not_broken {ctx : Context} {s : Decoding M} (h : Follows s ctx) : ¬ Broken s := by
  obtain ⟨codes, hfeed⟩ := h
  intro hbroken
  cases hfeed.symm.trans hbroken

/-- Where a call is given up, the files are as the events have left them. -/
theorem Abandoned.filesFollow {s : Decoding M} (h : Abandoned s) : FilesFollow s := by
  obtain ⟨ctx, ⟨codes, hfeed⟩, hfiles⟩ := h.files
  rw [FilesFollow, hfiles]
  exact settled_dispose_callbacks_iff hfeed

/-- The context of a urlencoded body has no fields, and comes with a 0. -/
theorem urlencoded_made {env : UrlencodedEnv} {maxSize : UInt64} {pieces : List Bytes}
    {ctx : Context}
    (h : (formdecoderDecodefcgirequestUrlencoded env maxSize pieces none).fdCtx = some ctx) :
    (formdecoderDecodefcgirequestUrlencoded env maxSize pieces none).rc = 0 ∧
      ∃ qsctx, ctx = { type := .querystring, qsctx := qsctx } := by
  unfold formdecoderDecodefcgirequestUrlencoded at h ⊢
  split at h
  · rename_i halloc
    rw [if_pos halloc]
    generalize readLoop maxSize pieces ((List.range maxSize.toNat).map env.memory) 0 = r at h ⊢
    obtain ⟨accesses, _ | ⟨buf, total⟩⟩ := r
    · cases h
    · unfold finishReading at h ⊢
      simp only at h ⊢
      split_ifs at h ⊢
      exact ⟨rfl, _, (Option.some.inj h).symm⟩
  · cases h

/-- A context handed over holds what its events have made of it, or has seen none. -/
theorem MadeFrom.disposed {req : FormRequest} {maxSize : UInt64} {ctx : Context} {s : Decoding M}
    (h : MadeFrom req maxSize ctx s) :
    ¬ Broken s ∧ ((formdecoderDispose ctx).Settled ↔
      Throughout formStep KeepsFiles (formdecoderInit true) (callbacks s.events)) := by
  obtain ⟨-, -, -, -, -, ⟨-, hfollows⟩ | ⟨-, hevents, hmade⟩⟩ := h
  · obtain ⟨codes, hfeed⟩ := hfollows
    exact ⟨Follows.not_broken ⟨codes, hfeed⟩, settled_dispose_callbacks_iff hfeed⟩
  · obtain ⟨-, qsctx, rfl⟩ := urlencoded_made hmade
    rw [Broken, hevents]
    exact ⟨by simp [callbacks], iff_of_true ⟨.nil, .nil⟩ trivial⟩

/-- The events as calls of the callback alone. -/
theorem feed_callbacks (ctx : Context) (events : List (CallbackEnv × MimeEvent)) :
    feed formStep ctx (callbacks events) = feed formdecoderMimedecoderCallback ctx events := by
  induction events generalizing ctx with
  | nil => rfl
  | cons call events ih =>
    have hstep : formStep ctx (.callback call.1 call.2) =
        formdecoderMimedecoderCallback ctx call := rfl
    rcases hcall : formdecoderMimedecoderCallback ctx call with _ | ⟨code, ctx'⟩
    · rw [feed_cons_of_none hcall]
      exact feed_cons_of_none (hstep.trans hcall)
    · rw [feed_cons hcall, ← ih ctx']
      exact feed_cons (hstep.trans hcall)

/-- A context handed over is one of those that the laws of `FieldLaws` are asked of. -/
theorem MadeFrom.built {req : FormRequest} {maxSize : UInt64} {ctx : Context} {s : Decoding M}
    (h : MadeFrom req maxSize ctx s) : Built .multipart ctx ∨ Built .urlencoded ctx := by
  obtain ⟨-, -, -, -, -, ⟨-, codes, hfeed⟩ | ⟨-, -, hmade⟩⟩ := h
  · rw [feed_callbacks] at hfeed
    exact Or.inl (.multipart hfeed)
  · exact Or.inr (.urlencoded (urlencoded_made hmade).1 hmade)

/-- Every event finds the pointers that it follows good. -/
def EventsOk (s : Decoding M) : Prop :=
  Throughout formStep PointersOk (formdecoderInit true) (callbacks s.events)

theorem eventsOk_of_not_broken {s : Decoding M} (h : ¬ Broken s) : EventsOk s :=
  not_not.mp ((broken_iff s).not.mp h)

/-- **Decoding the form of a request**, whatever the MIME decoder does and the operating system
answers. The call returns 0 or -1, unless an event finds a bad pointer. With -1 each block is given
back and `*fd_ctx_ptr` is still NULL; with 0 the one block left is the context it points to. -/
theorem decodefcgirequest_run (M : Mimedecoder) (req : FormRequest) (maxSize : UInt64) :
    let r := (formdecoderDecodefcgirequest req maxSize : Exec (Decoding M) ℤ).run {}
    r.1 = .undefined ∧ ¬ EventsOk r.2 ∨
      EventsOk r.2 ∧
        (r.1 = .ret (-1) ∧ NothingLeft r.2 ∧ r.2.fdCtx = false ∧ FilesFollow r.2 ∨
          r.1 = .ret 0 ∧ ∃ ctx, HandedOver ctx r.2 ∧ MadeFrom req maxSize ctx r.2) := by
  rcases (triple_decodefcgirequest (M := M) req maxSize).ends rfl with
    ⟨rc, s, hrun, hsettles⟩ | ⟨s, hrun, hbroken⟩
  · rw [hrun]
    refine Or.inr ?_
    rcases hsettles with ⟨rfl, hgave⟩ | ⟨rfl, ctx, hhanded, hmade⟩
    · obtain ⟨ctx, hfollows, -⟩ := hgave.files
      exact ⟨eventsOk_of_not_broken hfollows.not_broken, Or.inl ⟨rfl,
        ⟨hgave.form, hgave.mime, hgave.readBuffer⟩, hgave.fdCtx, hgave.filesFollow⟩⟩
    · exact ⟨eventsOk_of_not_broken hmade.disposed.1, Or.inr ⟨rfl, ctx, hhanded, hmade⟩⟩
  · rw [hrun]
    exact Or.inl ⟨rfl, (broken_iff s).mp hbroken⟩

/-! ## The handlers -/

/-- A length answered is the one of the data that come with it. -/
def LengthsAgree (L : Libgreen) (ctx : Context) : Prop :=
  ∀ key len data, formdecoderGetfield L key ctx = some (len, some data) → len = data.length

theorem SoundFields.lengthsAgree {ctx : Context} (h : SoundFields ctx) (L : Libgreen) :
    LengthsAgree L ctx := by
  intro key len data hget
  unfold formdecoderGetfield at hget
  split at hget
  · obtain ⟨v, -, hv⟩ := Option.map_eq_some_iff.mp hget
    obtain ⟨rfl, hdata⟩ := Prod.mk.inj hv
    rw [Option.some.inj hdata]
  · obtain ⟨entry, hfind, hentry⟩ := Option.map_eq_some_iff.mp hget
    obtain ⟨rfl, hdata⟩ := Prod.mk.inj hentry
    exact (h.sound entry (List.mem_of_find?_eq_some hfind)).length data hdata

theorem MadeFrom.lengthsAgree {req : FormRequest} {maxSize : UInt64} {ctx : Context}
    {s : Decoding M} (h : MadeFrom req maxSize ctx s) (L : Libgreen) : LengthsAgree L ctx := by
  obtain ⟨-, -, -, -, -, ⟨-, codes, hfeed⟩ | ⟨-, -, hmade⟩⟩ := h
  · exact ((soundFields_init true).feed hfeed).lengthsAgree L
  · obtain ⟨-, qsctx, rfl⟩ := urlencoded_made hmade
    have hsound : SoundFields ({ type := .querystring, qsctx := qsctx } : Context) :=
      ⟨(soundFields_init true).sound, (soundFields_init true).collecting⟩
    exact hsound.lengthsAgree L

/-- The form of a login: none, or one whose fields can be read. -/
def LoginFormOf (L : Libgreen) (req : FormRequest) (form : FormDecoding) (s : Decoding M) : Prop :=
  form = .failed ∨ ∃ ctx, MadeFrom req (1024 * 1024) ctx s ∧ LengthsAgree L ctx ∧
    form = .fields fun key => (formdecoderGetfield L (CStr.ofBytes key) ctx).map Prod.snd

/-- **The two handlers** give every block back, and settle the files unless an event dropped one,
unless an event finds a bad pointer. A login never meets a context that is NULL behind a 0. -/
theorem formHandlers_run (M : Mimedecoder) (L : Libgreen) (req : FormRequest) :
    let login := (processLoginPagePostForm L req : Exec (Decoding M) FormDecoding).run {}
    let index := (filemanProcessIndexPostRequest req : Exec (Decoding M) ℤ).run {}
    (login.1 = .undefined ∧ ¬ EventsOk login.2 ∨
      EventsOk login.2 ∧ NothingLeft login.2 ∧ FilesFollow login.2 ∧
        ∃ form, login.1 = .ret form ∧ LoginFormOf L req form login.2) ∧
    (index.1 = .undefined ∧ ¬ EventsOk index.2 ∨
      EventsOk index.2 ∧ NothingLeft index.2 ∧ FilesFollow index.2 ∧ index.1 = .ret 0) := by
  rcases (triple_decodefcgirequest (M := M) req (1024 * 1024)).ends rfl with
    ⟨rc, s, hrun, hsettles⟩ | ⟨s, hrun, hbroken⟩
  · simp only [processLoginPagePostForm, filemanProcessIndexPostRequest, Exec.bind_ret hrun]
    rcases hsettles with ⟨rfl, hgave⟩ | ⟨rfl, ctx, hhanded, hmade⟩
    · obtain ⟨ctx, hfollows, -⟩ := hgave.files
      have hnothing : NothingLeft s := ⟨hgave.form, hgave.mime, hgave.readBuffer⟩
      have hok : EventsOk s := eventsOk_of_not_broken hfollows.not_broken
      have hbranch : (-1 : ℤ) ≠ 0 := by decide
      refine ⟨Or.inr ?_, Or.inr ?_⟩
      · rw [if_pos hbranch]
        exact ⟨hok, hnothing, hgave.filesFollow, _, rfl, Or.inl rfl⟩
      · rw [Exec.bind_ret (Exec.run_get s), hgave.fdCtx]
        exact ⟨hok, hnothing, hgave.filesFollow, rfl⟩
    · have hnothing : NothingLeft { s with form := none, files := formdecoderDispose ctx } :=
        ⟨rfl, hhanded.mime, hhanded.readBuffer⟩
      have hok : EventsOk { s with form := none, files := formdecoderDispose ctx } :=
        eventsOk_of_not_broken hmade.disposed.1
      refine ⟨Or.inr ?_, Or.inr ?_⟩
      · rw [if_neg (not_not.mpr rfl), Exec.bind_ret (Exec.run_get s), hhanded.fdCtx]
        simp only [hhanded.form, Bool.not_true, Bool.false_eq_true, if_false,
          Exec.bind_ret (dispose_run hhanded.form)]
        exact ⟨hok, hnothing, hmade.disposed.2, _, rfl,
          Or.inr ⟨ctx, hmade, hmade.lengthsAgree L, rfl⟩⟩
      · rw [Exec.bind_ret (Exec.run_get s), hhanded.fdCtx, if_pos rfl,
          Exec.bind_ret (dispose_run hhanded.form)]
        exact ⟨hok, hnothing, hmade.disposed.2, rfl⟩
  · have hbad := (broken_iff s).mp hbroken
    simp only [processLoginPagePostForm, filemanProcessIndexPostRequest, Exec.bind_undefined hrun]
    exact ⟨Or.inl ⟨trivial, hbad⟩, Or.inl ⟨trivial, hbad⟩⟩

/-! ## A form with a file -/

/-- The events one after the other, up to the first that is not answered 0. -/
def playEvents : List (CallbackEnv × MimeEvent) → Decoder ℤ
  | [] => pure 0
  | call :: calls => do
    let rc ← Prog.perform call
    if rc = 0 then playEvents calls else pure rc

theorem defined_playEvents (calls : List (CallbackEnv × MimeEvent)) :
    (playEvents calls).Defined := by
  induction calls with
  | nil => exact Prog.defined_pure 0
  | cons call calls ih =>
    intro rc
    show (if rc = 0 then playEvents calls else pure rc : Decoder ℤ).Defined
    split
    · exact ih
    · exact Prog.defined_pure rc

/-- The decoder that makes these events of a piece, and none at the end. -/
def decoderOfEvents (events : Bytes → List (CallbackEnv × MimeEvent)) : Mimedecoder where
  Context := Option UInt64
  initsimple := none
  setMaxSize maxSize _ := some maxSize
  setcontenttype _ mime := (0, mime)
  startBody mime := mime
  decode piece mime := do
    let rc ← playEvents (events piece)
    pure (rc, mime)
  finalise _ := pure 0
  decode_defined piece mime :=
    (defined_playEvents (events piece)).bind fun rc => Prog.defined_pure (rc, mime)
  finalise_defined _ := Prog.defined_pure 0

/-- A provider, and a file of four bytes. -/
def uploadBody : Bytes :=
  lines ["--X", "Content-Disposition: form-data; name=\"provider\"", "", "microsoft", "--X",
    "Content-Disposition: form-data; name=\"photo\"; filename=\"me.png\"",
    "Content-Type: image/png", "", "data", "--X--"]

/-- Everything is allocated, and the file can be written. -/
def uploadEnv : CallbackEnv where
  fieldAllocated := true
  strdupAllocated := true
  mkstemp := some (7, CStr.lit "/tmp/formdecoder-a1b2c3")
  written := some 4

def uploadEvents : List (CallbackEnv × MimeEvent) :=
  [.header (bytes "Content-Disposition") (CStr.lit "form-data; name=\"provider\""),
    .elementBegin, .elementChunk (bytes "microsoft"), .elementEnd,
    .header (bytes "Content-Disposition")
      (CStr.lit "form-data; name=\"photo\"; filename=\"me.png\""),
    .header (bytes "Content-Type") (CStr.lit "image/png"),
    .elementBegin, .elementChunk (bytes "data"), .elementEnd].map fun event => (uploadEnv, event)

def uploadDecoder : Mimedecoder :=
  decoderOfEvents fun piece => if piece = uploadBody then uploadEvents else []

def uploadRequest : FormRequest where
  requestMethod := some (CStr.lit "POST")
  contentType := some (CStr.lit "multipart/form-data; boundary=X")
  pieces := [uploadBody]
  mimeAllocated := true
  env :=
    { contextAllocated := true
      bufferAllocated := true
      memory := fun _ => 0
      decoded := true }

/-- It is decoded without an event that goes wrong, and handed over. -/
theorem decodefcgirequest_run_upload :
    let r := (formdecoderDecodefcgirequest uploadRequest (1024 * 1024) :
      Exec (Decoding uploadDecoder) ℤ).run {}
    r.1 = .ret 0 ∧ EventsOk r.2 ∧ r.2.events.length = 9 ∧
      ∃ ctx, HandedOver ctx r.2 ∧ MadeFrom uploadRequest (1024 * 1024) ctx r.2 := by
  have hret : ((formdecoderDecodefcgirequest uploadRequest (1024 * 1024) :
      Exec (Decoding uploadDecoder) ℤ).run {}).1 = .ret 0 := by decide +kernel
  have hevents : ((formdecoderDecodefcgirequest uploadRequest (1024 * 1024) :
      Exec (Decoding uploadDecoder) ℤ).run {}).2.events.length = 9 := by decide +kernel
  have hrun := decodefcgirequest_run uploadDecoder uploadRequest (1024 * 1024)
  -- the facts above are all that is needed of the run
  generalize (formdecoderDecodefcgirequest uploadRequest (1024 * 1024) :
    Exec (Decoding uploadDecoder) ℤ).run {} = r at hret hevents hrun ⊢
  rcases hrun with ⟨hundefined, -⟩ | ⟨hok, ⟨hfailed, -⟩ | ⟨-, hmade⟩⟩
  · exact absurd (hret.symm.trans hundefined) (by simp)
  · exact absurd (hret.symm.trans hfailed) (by simp)
  · exact ⟨hret, hok, hevents, hmade⟩

/-- What a login reads of its form. -/
def formField (key : Bytes) : Outcome FormDecoding → Option (Option Bytes)
  | .ret (.fields getfield) => getfield key
  | _ => none

/-- The provider can be read, and then no block is left, and the file is closed and unlinked. -/
theorem formHandlers_run_upload :
    let login := (processLoginPagePostForm (Libgreen.ofQuery fun _ => none) uploadRequest :
      Exec (Decoding uploadDecoder) FormDecoding).run {}
    let index :=
      (filemanProcessIndexPostRequest uploadRequest : Exec (Decoding uploadDecoder) ℤ).run {}
    formField (bytes "provider") login.1 = some (some (bytes "microsoft")) ∧ NothingLeft login.2 ∧
      login.2.files.closed = [7] ∧ login.2.files.Settled ∧
        index.1 = .ret 0 ∧ NothingLeft index.2 ∧ index.2.files.Settled := by
  intro login index
  have hfield : formField (bytes "provider") login.1 = some (some (bytes "microsoft")) := by
    decide +kernel
  have hclosed : login.2.files.closed = [7] := by decide +kernel
  have hsettled : login.2.files.Settled := by
    unfold Files.Settled
    decide +kernel
  have hsettled' : index.2.files.Settled := by
    unfold Files.Settled
    decide +kernel
  have hret : index.1 = .ret 0 := by decide +kernel
  obtain ⟨hlogin, hindex⟩ :=
    formHandlers_run uploadDecoder (Libgreen.ofQuery fun _ => none) uploadRequest
  rcases hlogin with ⟨hundefined, -⟩ | ⟨-, hnothing, -, -⟩
  · have hnone : formField (bytes "provider") login.1 = none := congrArg (formField _) hundefined
    exact absurd (hfield.symm.trans hnone) (by simp)
  rcases hindex with ⟨hundefined, -⟩ | ⟨-, hnothing', -, -⟩
  · exact absurd (hret.symm.trans hundefined) (by simp)
  exact ⟨hfield, hnothing, hclosed, hsettled, hret, hnothing', hsettled'⟩

end FcgiJwtAuth.FormDecoder
