import FcgiJwtAuth.CLang.Arena
import FcgiJwtAuth.FormDecoder.ContentDisposition
import FcgiJwtAuth.Libraries.Libgreen

/-!
# The form decoder

`formdecoder.c`: a form context, the callback that the MIME decoder feeds with the events of a
multipart body, and the calls that set, read, take and dispose of fields. The MIME decoder itself is
part of libgreen; what the callback is given is one event.

A `simplemap` keeps its entries in the order in which they were appended. Each field is allocated
when its entry is appended and freed when the entry is removed, so the map and the fields are one
arena, and `current_field` is an address in it. A `dynstring` appends exactly; one with a NULL
buffer is empty. `none` is undefined behaviour, after which nothing is promised.
-/

namespace FcgiJwtAuth.FormDecoder

open CLang

/-- `struct formdecoder_context_field`, with what `memset(…, 0, …)` leaves in it. -/
structure Field where
  dataLen : ℕ := 0
  data : Option Bytes := none
  mimeType : Option CStr := none
  filename : Option CStr := none
  tempfilename : Option CStr := none
  fd : ℤ := 0
deriving DecidableEq

/-! ## The files behind a context -/

/-- What a context has asked of the operating system, and what that left. -/
structure Files where
  /-- The descriptors that `mkstemp` returned, and those given to `close`, in order. -/
  opened : List ℤ := []
  closed : List ℤ := []
  /-- The names that `mkstemp` made up, and those given to `unlink`, in order. -/
  created : List CStr := []
  unlinked : List CStr := []
  /-- The file behind a descriptor, and what has been written to a file. -/
  file : ℤ → Option CStr := fun _ => none
  contents : CStr → Bytes := fun _ => []

namespace Files

def mkstemp (os : Files) (fd : ℤ) (name : CStr) : Files :=
  { os with
    opened := os.opened ++ [fd]
    created := os.created ++ [name]
    file := Function.update os.file fd (some name)
    contents := Function.update os.contents name [] }

def write (os : Files) (fd : ℤ) (data : Bytes) : Files :=
  match os.file fd with
  | none => os
  | some name => { os with contents := Function.update os.contents name (os.contents name ++ data) }

def close (os : Files) (fd : ℤ) : Files :=
  { os with closed := os.closed ++ [fd], file := Function.update os.file fd none }

def unlink (os : Files) (name : CStr) : Files := { os with unlinked := os.unlinked ++ [name] }

end Files

/-! ## The context -/

/-- `FORMDECODER_MULTIPART` and `FORMDECODER_QUERYSTRING`. -/
inductive FormType
  | multipart
  | querystring
deriving DecidableEq

/-- `struct formdecoder_context`. The query string stands for `qsctx` and the buffer it points
into. -/
structure Context where
  type : FormType := .multipart
  fields : Arena (CStr × Field) := .empty
  currentField : Option ℕ := none
  currentFieldData : Option Bytes := none
  qsctx : Option CStr := none
  saveFiles : Bool := false
  os : Files := {}

/-- `formdecoder_init`, and what its caller then sets `save_files` to. -/
def formdecoderInit (saveFiles : Bool) : Context := { saveFiles := saveFiles }

/-- The field that `current_field` points to: none through NULL, and none when it was freed. -/
def Context.current? (ctx : Context) : Option Field :=
  ctx.currentField.bind fun a => (ctx.fields.get? a).map Prod.snd

/-- A write to the field that `current_field` points to. -/
def Context.updateCurrent (ctx : Context) (f : Field → Field) : Context :=
  match ctx.currentField with
  | none => ctx
  | some a => { ctx with fields := ctx.fields.modify a fun entry => (entry.1, f entry.2) }

/-! ## The callback -/

/-- What the surroundings answer during one call of the callback. -/
structure CallbackEnv where
  /-- `malloc` of a field succeeds. -/
  fieldAllocated : Bool
  /-- `malloc` in `formdecoder_strdup` succeeds. -/
  strdupAllocated : Bool
  /-- `mkstemp`: the descriptor and the name it made of the template, unless it fails. -/
  mkstemp : Option (ℕ × CStr)
  /-- `write`: how many bytes, unless it fails. -/
  written : Option ℕ

/-- `MIMED_EVENT_…`, with the header or the bytes that come with it. -/
inductive MimeEvent
  | header (name : Bytes) (value : CStr)
  | elementBegin
  | elementChunk (data : Bytes)
  | elementEnd
  | other

/-- `strncmp(header_name.buf, literal, header_name.pos) == 0`. -/
def headerIs (name : Bytes) (literal : String) : Bool :=
  decide (strncmp name.length name (bytes literal) = 0)

/-- The part for a header that names a field; nothing when it returns -1. -/
def openField (env : CallbackEnv) (name : CStr) (ctx : Context) : Option Context :=
  match ctx.currentField with
  | some _ => none
  | none =>
    if env.fieldAllocated then
      some { ctx with
        fields := ctx.fields.alloc (name, { fd := -1 })
        currentField := some ctx.fields.fresh }
    else none

/-- The part for a header that names a file. -/
def saveFile (env : CallbackEnv) (value : CStr) (ctx : Context) : Option (ℤ × Context) :=
  match ctx.currentField, contentdispositionGetfilename value with
  | some _, some filename =>
    if ctx.saveFiles then
      match ctx.current?, env.strdupAllocated with
      | some _, true =>
        match env.mkstemp with
        | none => some (-1, ctx.updateCurrent fun f => { f with filename := some filename })
        | some (fd, tempfilename) =>
          let ctx := ctx.updateCurrent fun f =>
            { f with filename := some filename, tempfilename := some tempfilename, fd := fd }
          some (0, { ctx with os := ctx.os.mkstemp fd tempfilename })
      -- `formdecoder_strdup` copies to NULL, or `current_field` was freed
      | _, _ => none
    else some (0, ctx)
  | _, _ => some (0, ctx)

/-- The branch for a `Content-Disposition` header. -/
def dispositionHeader (env : CallbackEnv) (value : CStr) (ctx : Context) : Option (ℤ × Context) :=
  if strncmp 9 value.val (bytes "form-data") = 0 then
    match contentdispositionGetname value with
    | none => saveFile env value ctx
    | some name =>
      match openField env name ctx with
      | none => some (-1, ctx)
      | some ctx => saveFile env value ctx
  else some (0, ctx)

/-- The branch for a `Content-Type` header: `current_field` is followed unseen. -/
def contentTypeHeader (env : CallbackEnv) (value : CStr) (ctx : Context) : Option (ℤ × Context) :=
  match ctx.current?, env.strdupAllocated with
  | some _, true => some (0, ctx.updateCurrent fun f => { f with mimeType := some value })
  | _, _ => none

/-- The branch for `MIMED_EVENT_ELEMENT_BEGIN`. -/
def elementBegin (ctx : Context) : Option (ℤ × Context) :=
  match ctx.currentField with
  | none => some (-1, ctx)
  | some _ =>
    if ctx.currentFieldData.isSome then some (-1, ctx)
    else
      match ctx.current? with
      | none => none
      | some field =>
        if field.fd = -1 then some (0, { ctx with currentFieldData := some [] })
        else some (0, ctx)

/-- The branch for `MIMED_EVENT_ELEMENT_CHUNK`. -/
def elementChunk (env : CallbackEnv) (data : Bytes) (ctx : Context) : Option (ℤ × Context) :=
  match ctx.currentField with
  | none => some (-1, ctx)
  | some _ =>
    match ctx.current? with
    | none => none
    | some field =>
      let ctx := ctx.updateCurrent fun f => { f with dataLen := f.dataLen + data.length }
      if field.fd = -1 then
        some (0, { ctx with currentFieldData := some (ctx.currentFieldData.getD [] ++ data) })
      else
        let ctx := { ctx with os := ctx.os.write field.fd (data.take (env.written.getD 0)) }
        if env.written = some data.length then some (0, ctx) else some (-1, ctx)

/-- The branch for `MIMED_EVENT_ELEMENT_END`. -/
def elementEnd (ctx : Context) : Option (ℤ × Context) :=
  match ctx.currentField with
  | none => some (0, ctx)
  | some _ =>
    match ctx.current? with
    | none => none
    | some field =>
      if field.fd = -1 then
        let collected := ctx.currentFieldData.getD []
        let ctx := ctx.updateCurrent fun f =>
          { f with dataLen := collected.length, data := some collected }
        some (0, { ctx with currentFieldData := none, currentField := none })
      else
        let ctx := ctx.updateCurrent fun f => { f with fd := -1 }
        some (0, { ctx with os := ctx.os.close field.fd, currentField := none })

/-- `formdecoder_mimedecoder_callback`. -/
def formdecoderMimedecoderCallback (ctx : Context) (call : CallbackEnv × MimeEvent) :
    Option (ℤ × Context) :=
  match call with
  | (env, .header name value) =>
    if headerIs name "Content-Disposition" then dispositionHeader env value ctx
    else if headerIs name "Content-Type" then contentTypeHeader env value ctx
    else some (0, ctx)
  | (_, .elementBegin) => elementBegin ctx
  | (env, .elementChunk data) => elementChunk env data ctx
  | (_, .elementEnd) => elementEnd ctx
  | (_, .other) => some (-1, ctx)

/-! ## The other calls -/

/-- `formdecoder_setfield`, given whether its `malloc` succeeds. -/
def formdecoderSetfield (allocated : Bool) (key : CStr) (dataLen : ℕ) (data : Option Bytes)
    (ctx : Context) : ℤ × Context :=
  match ctx.fields.find? (·.1 = key) with
  | some _ => (-1, ctx)
  | none =>
    if allocated then
      (0, { ctx with fields := ctx.fields.alloc (key, { dataLen := dataLen, data := data }) })
    else (-1, ctx)

/-- `formdecoder_getfield`: `*data_len_ptr` and `*data_ptr`, unless it answers -1. -/
def formdecoderGetfield (L : Libgreen) (key : CStr) (ctx : Context) : Option (ℕ × Option Bytes) :=
  match ctx.type with
  | .querystring => (L.queryGet ctx.qsctx key.val).map fun v => (v.val.length, some v.val)
  | .multipart =>
    (ctx.fields.find? (·.1 = key)).map fun entry => (entry.2.dataLen, entry.2.data)

/-- `formdecoder_takefieldvalue`: `*data_len` and `*data`, unless it answers -1. -/
def formdecoderTakefieldvalue (key : CStr) (ctx : Context) :
    Option (ℕ × Option Bytes) × Context :=
  match ctx.fields.find? (·.1 = key) with
  | none => (none, ctx)
  | some entry =>
    (some (entry.2.dataLen, entry.2.data),
      { ctx with fields := ctx.fields.freeFirst (·.1 = key) })

/-- `formdecoder_dispose_formfield`. -/
def formdecoderDisposeFormfield (field : Field) (os : Files) : Files :=
  let os := if field.fd ≠ -1 then os.close field.fd else os
  match field.tempfilename with
  | some tempfilename => os.unlink tempfilename
  | none => os

/-- `formdecoder_dispose`: what it leaves of the files. -/
def formdecoderDispose (ctx : Context) : Files :=
  ctx.fields.values.foldl (fun os entry => formdecoderDisposeFormfield entry.2 os) ctx.os

end FcgiJwtAuth.FormDecoder
