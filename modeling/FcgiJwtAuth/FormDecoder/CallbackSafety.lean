import FcgiJwtAuth.CLang.Feed
import FcgiJwtAuth.FormDecoder.CurrentField

/-!
# Which event sequences the callback survives

The callback looks at `current_field` before it uses it for every event but a `Content-Type` header.
Whether a field is open can be told from the events alone: a form-data header that names a field
opens one, the end of an element closes it. The callback answers every event of a sequence exactly
when a field is open at each `Content-Type` header, and `formdecoder_strdup` gets its memory.
-/

namespace FcgiJwtAuth.FormDecoder

open CLang

variable {ctx : Context} {f : Field → Field} {env : CallbackEnv} {name value : CStr}
  {data : Bytes} {saveFiles : Bool}

/-! ## No dangling pointer -/

/-- `current_field` is NULL or points to a field. -/
def Live (ctx : Context) : Prop := ctx.current?.isSome = ctx.currentField.isSome

/-- A live context has no current field or one that can be followed. -/
theorem Live.cases (h : Live ctx) :
    ctx.currentField = none ∨ ∃ a field, ctx.currentField = some a ∧ ctx.current? = some field := by
  rcases hfield : ctx.currentField with _ | a
  · exact Or.inl rfl
  · rw [Live, hfield, Option.isSome_some] at h
    obtain ⟨field, hcurrent⟩ := Option.isSome_iff_exists.mp h
    exact Or.inr ⟨a, field, rfl, hcurrent⟩

theorem live_of_null (h : ctx.currentField = none) : Live ctx := by
  rw [Live, current?_of_null h, h]
  rfl

theorem live_of_current {field : Field} (h : ctx.current? = some field) : Live ctx := by
  obtain ⟨a, ha⟩ := currentField_of_current? h
  rw [Live, h, ha]
  rfl

theorem Live.updateCurrent (h : Live ctx) : Live (ctx.updateCurrent f) := by
  rcases h.cases with hnull | ⟨a, field, -, hcurrent⟩
  · rw [updateCurrent_of_null hnull]
    exact h
  · exact live_of_current (current?_updateCurrent hcurrent)

/-! ## What the events tell -/

/-- The value of a header that names a field. -/
def namesField (value : CStr) : Bool :=
  decide (strncmp 9 value.val (bytes "form-data") = 0) && (contentdispositionGetname value).isSome

/-- A field is open after an event, given whether one is before it. -/
def openAfter (isOpen : Bool) : CallbackEnv × MimeEvent → Bool
  | (env, .header name value) =>
    if headerIs name "Content-Disposition" && namesField value then isOpen || env.fieldAllocated
    else isOpen
  | (_, .elementEnd) => false
  | _ => isOpen

/-- The open field after some header of the `Content-Disposition` branch is to be a file: one just
opened, or the open one when the header names no field. -/
def asksForFile (saveFiles isOpen : Bool) (env : CallbackEnv) (value : CStr) : Bool :=
  saveFiles && decide (strncmp 9 value.val (bytes "form-data") = 0) &&
    (contentdispositionGetfilename value).isSome &&
      if namesField value then !isOpen && env.fieldAllocated else isOpen

/-- What an event needs: a field for a `Content-Type` header, and memory wherever a string is
duplicated. -/
def eventOk (saveFiles isOpen : Bool) : CallbackEnv × MimeEvent → Bool
  | (env, .header name value) =>
    if headerIs name "Content-Disposition" then
      !asksForFile saveFiles isOpen env value || env.strdupAllocated
    else if headerIs name "Content-Type" then isOpen && env.strdupAllocated
    else true
  | _ => true

/-- Every event of the sequence finds what it needs. -/
def Guarded (saveFiles : Bool) (events : List (CallbackEnv × MimeEvent)) : Prop :=
  Throughout (fun isOpen event => some ((), openAfter isOpen event))
    (fun isOpen event => eventOk saveFiles isOpen event) false events

/-! ## One event -/

/-- Given what it needs, the callback answers 0 or -1 and leaves a live context with a field open or
not; otherwise its behaviour is undefined. -/
def Answers (saveFiles ok isOpen : Bool) (r : Option (ℤ × Context)) : Prop :=
  if ok then
    ∃ code ctx', r = some (code, ctx') ∧ (code = 0 ∨ code = -1) ∧ Live ctx' ∧
      ctx'.currentField.isSome = isOpen ∧ ctx'.saveFiles = saveFiles
  else r = none

theorem answers_zero {isOpen : Bool} (hlive : Live ctx) (hopen : ctx.currentField.isSome = isOpen)
    (hsave : ctx.saveFiles = saveFiles) : Answers saveFiles true isOpen (some (0, ctx)) :=
  ⟨0, ctx, rfl, Or.inl rfl, hlive, hopen, hsave⟩

theorem answers_fail {isOpen : Bool} (hlive : Live ctx) (hopen : ctx.currentField.isSome = isOpen)
    (hsave : ctx.saveFiles = saveFiles) : Answers saveFiles true isOpen (some (-1, ctx)) :=
  ⟨-1, ctx, rfl, Or.inr rfl, hlive, hopen, hsave⟩

/-- The part for a file name comes to `mkstemp` when files are saved, a field is open and the header
names a file. -/
theorem saveFile_answers (env : CallbackEnv) (value : CStr) (h : Live ctx) :
    Answers ctx.saveFiles
      (!(ctx.saveFiles && (contentdispositionGetfilename value).isSome &&
          ctx.currentField.isSome) ||
        env.strdupAllocated)
      ctx.currentField.isSome (saveFile env value ctx) := by
  have hquiet := answers_zero h rfl rfl
  rcases h.cases with hnull | ⟨a, field, hfield, hcurrent⟩
  · rw [saveFile_of_null hnull]
    simpa [hnull] using hquiet
  rcases hfile : contentdispositionGetfilename value with _ | filename
  · rw [saveFile_of_text hfile]
    simpa using hquiet
  rcases hsave : ctx.saveFiles
  · rw [saveFile_of_unsaved hsave]
    simpa using answers_zero h rfl hsave
  rcases hstrdup : env.strdupAllocated
  · rw [saveFile_of_noMemory hfield hfile hsave hstrdup, hfield]
    rfl
  have hkept : ∀ f, (ctx.updateCurrent f).currentField.isSome = ctx.currentField.isSome :=
    fun f => congrArg Option.isSome updateCurrent_currentField
  rw [Bool.or_true]
  rcases hmkstemp : env.mkstemp with _ | ⟨fd, tempfilename⟩
  · rw [saveFile_of_failed hfield hfile hsave hcurrent hstrdup hmkstemp]
    exact answers_fail h.updateCurrent (hkept _) (updateCurrent_saveFiles.trans hsave)
  · rw [saveFile_of_made hfield hfile hsave hcurrent hstrdup hmkstemp]
    exact answers_zero h.updateCurrent (hkept _) (updateCurrent_saveFiles.trans hsave)

/-- The branch for `Content-Disposition`: the file part sees the field that the header opens. -/
theorem dispositionHeader_answers (env : CallbackEnv) (value : CStr) (h : Live ctx) :
    Answers ctx.saveFiles
      (!asksForFile ctx.saveFiles ctx.currentField.isSome env value || env.strdupAllocated)
      (if namesField value then ctx.currentField.isSome || env.fieldAllocated
        else ctx.currentField.isSome)
      (dispositionHeader env value ctx) := by
  have hfail := answers_fail h rfl rfl
  unfold dispositionHeader
  by_cases hform : strncmp 9 value.val (bytes "form-data") = 0
  · rw [if_pos hform]
    rcases hname : contentdispositionGetname value with _ | name
    · have hnames : namesField value = false := by simp [namesField, hname]
      simpa [asksForFile, hnames, hform] using saveFile_answers env value h
    have hnames : namesField value = true := by simp [namesField, hform, hname]
    -- a second name for an open field is answered with -1
    rcases hfield : ctx.currentField with _ | a
    · rcases halloc : env.fieldAllocated
      · simpa [openField_of_null, hfield, halloc, asksForFile, hnames] using hfail
      · have hlive : Live (ctx.opening name) := live_of_current (current?_opening ctx name)
        have hrest := saveFile_answers env value hlive
        simpa [openField_of_null, hfield, halloc, asksForFile, hnames, hform] using hrest
    · simpa [openField_of_open hfield, asksForFile, hnames, hfield] using hfail
  · have hnames : namesField value = false := by simp [namesField, hform]
    rw [if_neg hform]
    simpa [asksForFile, hnames, hform] using answers_zero h rfl rfl

theorem contentTypeHeader_answers (env : CallbackEnv) (value : CStr) (h : Live ctx) :
    Answers ctx.saveFiles (ctx.currentField.isSome && env.strdupAllocated)
      ctx.currentField.isSome (contentTypeHeader env value ctx) := by
  rcases h.cases with hnull | ⟨a, field, hfield, hcurrent⟩
  · rw [contentTypeHeader_of_freed (current?_of_null hnull), hnull]
    rfl
  rcases hstrdup : env.strdupAllocated
  · rw [contentTypeHeader_of_noMemory hstrdup, hfield]
    rfl
  · rw [contentTypeHeader_of_current hcurrent hstrdup, hfield]
    exact answers_zero h.updateCurrent (by rw [updateCurrent_currentField, hfield])
      updateCurrent_saveFiles

theorem elementBegin_answers (h : Live ctx) :
    Answers ctx.saveFiles true ctx.currentField.isSome (elementBegin ctx) := by
  rcases h.cases with hnull | ⟨a, field, hfield, hcurrent⟩
  · rw [elementBegin_of_null hnull]
    exact answers_fail h rfl rfl
  rcases hdata : ctx.currentFieldData with _ | collected
  · rw [elementBegin_of_current hdata hcurrent]
    split
    · exact answers_zero h rfl rfl
    · exact answers_zero h rfl rfl
  · rw [elementBegin_of_collecting hfield (by rw [hdata]; rfl)]
    exact answers_fail h rfl rfl

theorem elementChunk_answers (env : CallbackEnv) (data : Bytes) (h : Live ctx) :
    Answers ctx.saveFiles true ctx.currentField.isSome (elementChunk env data ctx) := by
  rcases h.cases with hnull | ⟨a, field, hfield, hcurrent⟩
  · rw [elementChunk_of_null hnull]
    exact answers_fail h rfl rfl
  have hkept : ∀ f, (ctx.updateCurrent f).currentField.isSome = ctx.currentField.isSome :=
    fun f => congrArg Option.isSome updateCurrent_currentField
  by_cases hfd : field.fd = -1
  · rw [elementChunk_of_text hcurrent hfd]
    exact answers_zero h.updateCurrent (hkept _) updateCurrent_saveFiles
  · rw [elementChunk_of_file hcurrent hfd]
    split
    · exact answers_zero h.updateCurrent (hkept _) updateCurrent_saveFiles
    · exact answers_fail h.updateCurrent (hkept _) updateCurrent_saveFiles

theorem elementEnd_answers (h : Live ctx) :
    Answers ctx.saveFiles true false (elementEnd ctx) := by
  rcases h.cases with hnull | ⟨a, field, -, hcurrent⟩
  · rw [elementEnd_of_null hnull]
    exact answers_zero h (by rw [hnull]; rfl) rfl
  by_cases hfd : field.fd = -1
  · rw [elementEnd_of_text hcurrent hfd]
    exact answers_zero (live_of_null rfl) rfl updateCurrent_saveFiles
  · rw [elementEnd_of_file hcurrent hfd]
    exact answers_zero (live_of_null rfl) rfl updateCurrent_saveFiles

/-- **One event**: it is answered exactly when it finds what it needs. -/
theorem callback_answers (call : CallbackEnv × MimeEvent) (h : Live ctx) :
    Answers ctx.saveFiles (eventOk ctx.saveFiles ctx.currentField.isSome call)
      (openAfter ctx.currentField.isSome call) (formdecoderMimedecoderCallback ctx call) := by
  obtain ⟨env, event⟩ := call
  cases event with
  | header name value =>
    simp only [eventOk, openAfter, formdecoderMimedecoderCallback]
    rcases hdisposition : headerIs name "Content-Disposition"
    · rcases htype : headerIs name "Content-Type"
      · exact answers_zero h rfl rfl
      · exact contentTypeHeader_answers env value h
    · simpa using dispositionHeader_answers env value h
  | elementBegin => exact elementBegin_answers h
  | elementChunk data => exact elementChunk_answers env data h
  | elementEnd => exact elementEnd_answers h
  | other => exact answers_fail h rfl rfl

/-! ## Whole sequences -/

/-- The callback answers every event of the sequence with 0 or -1. -/
def CallbackSafe (saveFiles : Bool) (events : List (CallbackEnv × MimeEvent)) : Prop :=
  ∃ codes ctx, feed formdecoderMimedecoderCallback (formdecoderInit saveFiles) events =
    some (codes, ctx) ∧ ∀ code ∈ codes, code = 0 ∨ code = -1

/-- **A sequence is answered throughout** exactly when it is guarded. -/
theorem callbackSafe_iff (saveFiles : Bool) (events : List (CallbackEnv × MimeEvent)) :
    CallbackSafe saveFiles events ↔ Guarded saveFiles events := by
  -- one bit follows the events in step with the context
  refine feed_simulated (R := fun ctx isOpen => Live ctx ∧ ctx.currentField.isSome = isOpen ∧
    ctx.saveFiles = saveFiles) ?_ ?_ ⟨live_of_null rfl, rfl, rfl⟩
  · rintro ctx isOpen call ⟨hlive, rfl, rfl⟩ hok
    have hanswers := callback_answers call hlive
    rw [Answers, if_pos hok] at hanswers
    obtain ⟨code, ctx', hrun, hcode, hlive', hopen, hsave⟩ := hanswers
    exact ⟨code, ctx', (), _, hrun, hcode, rfl, hlive', hopen, hsave⟩
  · rintro ctx isOpen call ⟨hlive, rfl, rfl⟩ hbad
    have hanswers := callback_answers call hlive
    rwa [Answers, if_neg hbad] at hanswers

/-! ## A part with nothing but a type -/

/-- Surroundings where memory is to be had; no file is made. -/
def plentiful : CallbackEnv where
  fieldAllocated := true
  strdupAllocated := true
  mkstemp := none
  written := none

/-- The events of a part whose only header is `Content-Type: text/plain`. -/
def typeOnlyPart : List (CallbackEnv × MimeEvent) :=
  [(plentiful, .header (bytes "Content-Type") (CStr.lit "text/plain")), (plentiful, .elementBegin),
    (plentiful, .elementChunk (bytes "x")), (plentiful, .elementEnd)]

/-- `current_field` is NULL when the callback writes `mime_type` through it. -/
theorem callback_typeOnlyPart : ¬ CallbackSafe true typeOnlyPart := by
  rintro ⟨codes, ctx, hrun, -⟩
  cases hrun

end FcgiJwtAuth.FormDecoder
