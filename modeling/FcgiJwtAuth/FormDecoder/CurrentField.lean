import FcgiJwtAuth.FormDecoder.Context

/-!
# What one event does to the current field

The branches of the callback, each by the equation that holds of it in one situation: no current
field, a current field that collects text (its descriptor is -1), and one that is written to a file.
-/

namespace FcgiJwtAuth.FormDecoder

open CLang

variable {ctx : Context} {f : Field → Field} {field : Field} {env : CallbackEnv}
  {name value filename tempfilename : CStr} {a fd : ℕ} {data : Bytes}

/-! ## Reading and writing it -/

theorem updateCurrent_of_some (h : ctx.currentField = some a) :
    ctx.updateCurrent f =
      { ctx with fields := ctx.fields.modify a fun entry => (entry.1, f entry.2) } := by
  rw [Context.updateCurrent, h]

theorem updateCurrent_of_null (h : ctx.currentField = none) : ctx.updateCurrent f = ctx := by
  rw [Context.updateCurrent, h]

@[simp] theorem updateCurrent_currentField :
    (ctx.updateCurrent f).currentField = ctx.currentField := by
  unfold Context.updateCurrent
  split <;> rfl

@[simp] theorem updateCurrent_saveFiles : (ctx.updateCurrent f).saveFiles = ctx.saveFiles := by
  unfold Context.updateCurrent
  split <;> rfl

@[simp] theorem updateCurrent_currentFieldData :
    (ctx.updateCurrent f).currentFieldData = ctx.currentFieldData := by
  unfold Context.updateCurrent
  split <;> rfl

@[simp] theorem updateCurrent_os : (ctx.updateCurrent f).os = ctx.os := by
  unfold Context.updateCurrent
  split <;> rfl

/-- A current field is an entry of the map. -/
theorem current?_eq_some_iff :
    ctx.current? = some field ↔
      ∃ a key, ctx.currentField = some a ∧ ctx.fields.get? a = some (key, field) := by
  unfold Context.current?
  constructor
  · intro h
    obtain ⟨a, ha, hget⟩ := Option.bind_eq_some_iff.mp h
    obtain ⟨⟨key, _⟩, hentry, rfl⟩ := Option.map_eq_some_iff.mp hget
    exact ⟨a, key, ha, hentry⟩
  · rintro ⟨a, key, ha, hget⟩
    rw [ha, Option.bind_some, hget]
    rfl

/-- What is written to the current field is read back. -/
theorem current?_updateCurrent (h : ctx.current? = some field) :
    (ctx.updateCurrent f).current? = some (f field) := by
  obtain ⟨a, key, ha, hget⟩ := current?_eq_some_iff.mp h
  rw [updateCurrent_of_some ha]
  show (ctx.currentField.bind fun a => Option.map Prod.snd _) = _
  rw [ha, Option.bind_some, Arena.get?_modify_self hget]
  rfl

theorem current?_of_null (h : ctx.currentField = none) : ctx.current? = none := by
  rw [Context.current?, h]
  rfl

theorem currentField_of_current? (h : ctx.current? = some field) :
    ∃ a, ctx.currentField = some a := by
  obtain ⟨a, -, ha, -⟩ := current?_eq_some_iff.mp h
  exact ⟨a, ha⟩

/-! ## Opening a field -/

/-- The context with a new field as its current one. -/
def Context.opening (ctx : Context) (name : CStr) : Context :=
  { ctx with
    fields := ctx.fields.alloc (name, { fd := -1 })
    currentField := some ctx.fields.fresh }

@[simp] theorem opening_currentField (ctx : Context) (name : CStr) :
    (ctx.opening name).currentField = some ctx.fields.fresh := rfl

@[simp] theorem opening_saveFiles (ctx : Context) (name : CStr) :
    (ctx.opening name).saveFiles = ctx.saveFiles := rfl

theorem current?_opening (ctx : Context) (name : CStr) :
    (ctx.opening name).current? = some { fd := -1 } := by
  show Option.map Prod.snd ((ctx.fields.alloc _).get? ctx.fields.fresh) = _
  rw [Arena.get?_alloc_self]
  rfl

theorem openField_of_open (h : ctx.currentField = some a) : openField env name ctx = none := by
  rw [openField, h]

theorem openField_of_null (h : ctx.currentField = none) :
    openField env name ctx = if env.fieldAllocated then some (ctx.opening name) else none := by
  rw [openField, h]
  rfl

/-! ## Making it a file -/

theorem saveFile_of_null (h : ctx.currentField = none) :
    saveFile env value ctx = some (0, ctx) := by
  rw [saveFile, h]

theorem saveFile_of_text (h : contentdispositionGetfilename value = none) :
    saveFile env value ctx = some (0, ctx) := by
  rw [saveFile, h]
  split <;> first | rfl | contradiction

theorem saveFile_of_unsaved (h : ctx.saveFiles = false) :
    saveFile env value ctx = some (0, ctx) := by
  unfold saveFile
  split
  · rw [h]
    rfl
  · rfl

section

variable (hfield : ctx.currentField = some a)
  (hfile : contentdispositionGetfilename value = some filename) (hsave : ctx.saveFiles = true)

include hfield hfile hsave

/-- The current field was freed. -/
theorem saveFile_of_freed (h : ctx.current? = none) : saveFile env value ctx = none := by
  simp only [saveFile, hfield, hfile, hsave, h, if_true]

/-- No memory for the template. -/
theorem saveFile_of_noMemory (h : env.strdupAllocated = false) :
    saveFile env value ctx = none := by
  simp only [saveFile, hfield, hfile, hsave, h, if_true]
  split <;> first | rfl | contradiction

theorem saveFile_of_failed (hcurrent : ctx.current? = some field)
    (hstrdup : env.strdupAllocated = true) (h : env.mkstemp = none) :
    saveFile env value ctx =
      some (-1, ctx.updateCurrent fun f => { f with filename := some filename }) := by
  simp only [saveFile, hfield, hfile, hsave, hcurrent, hstrdup, h, if_true]

theorem saveFile_of_made (hcurrent : ctx.current? = some field)
    (hstrdup : env.strdupAllocated = true) (h : env.mkstemp = some (fd, tempfilename)) :
    saveFile env value ctx =
      some (0, { ctx.updateCurrent (fun f =>
          { f with filename := some filename, tempfilename := some tempfilename, fd := fd }) with
        os := ctx.os.mkstemp fd tempfilename }) := by
  simp only [saveFile, hfield, hfile, hsave, hcurrent, hstrdup, h, if_true, updateCurrent_os]

end

/-! ## A `Content-Type` header -/

theorem contentTypeHeader_of_freed (h : ctx.current? = none) :
    contentTypeHeader env value ctx = none := by
  rw [contentTypeHeader, h]

theorem contentTypeHeader_of_noMemory (h : env.strdupAllocated = false) :
    contentTypeHeader env value ctx = none := by
  rw [contentTypeHeader, h]
  split <;> first | rfl | contradiction

theorem contentTypeHeader_of_current (hcurrent : ctx.current? = some field)
    (hstrdup : env.strdupAllocated = true) :
    contentTypeHeader env value ctx =
      some (0, ctx.updateCurrent fun f => { f with mimeType := some value }) := by
  simp only [contentTypeHeader, hcurrent, hstrdup]

/-! ## The events of its body -/

theorem elementBegin_of_null (h : ctx.currentField = none) :
    elementBegin ctx = some (-1, ctx) := by
  rw [elementBegin, h]

theorem elementBegin_of_collecting (h : ctx.currentField = some a)
    (hdata : ctx.currentFieldData.isSome = true) : elementBegin ctx = some (-1, ctx) := by
  simp only [elementBegin, h, hdata, if_true]

theorem elementBegin_of_freed (h : ctx.currentField = some a)
    (hdata : ctx.currentFieldData = none) (hcurrent : ctx.current? = none) :
    elementBegin ctx = none := by
  simp [elementBegin, h, hdata, hcurrent]

theorem elementBegin_of_current (hdata : ctx.currentFieldData = none)
    (hcurrent : ctx.current? = some field) :
    elementBegin ctx =
      if field.fd = -1 then some (0, { ctx with currentFieldData := some [] })
      else some (0, ctx) := by
  obtain ⟨a, ha⟩ := currentField_of_current? hcurrent
  simp [elementBegin, ha, hdata, hcurrent]

theorem elementChunk_of_null (h : ctx.currentField = none) :
    elementChunk env data ctx = some (-1, ctx) := by
  rw [elementChunk, h]

theorem elementChunk_of_freed (h : ctx.currentField = some a) (hcurrent : ctx.current? = none) :
    elementChunk env data ctx = none := by
  simp only [elementChunk, h, hcurrent]

theorem elementChunk_of_text (hcurrent : ctx.current? = some field) (hfd : field.fd = -1) :
    elementChunk env data ctx =
      some (0, { ctx.updateCurrent (fun f => { f with dataLen := f.dataLen + data.length }) with
        currentFieldData := some (ctx.currentFieldData.getD [] ++ data) }) := by
  obtain ⟨a, ha⟩ := currentField_of_current? hcurrent
  simp only [elementChunk, ha, hcurrent, hfd, if_true, updateCurrent_currentFieldData]

theorem elementChunk_of_file (hcurrent : ctx.current? = some field) (hfd : field.fd ≠ -1) :
    elementChunk env data ctx =
      some (if env.written = some data.length then 0 else -1,
        { ctx.updateCurrent (fun f => { f with dataLen := f.dataLen + data.length }) with
          os := ctx.os.write field.fd (data.take (env.written.getD 0)) }) := by
  obtain ⟨a, ha⟩ := currentField_of_current? hcurrent
  simp only [elementChunk, ha, hcurrent, if_neg hfd, updateCurrent_os]
  split <;> rfl

theorem elementEnd_of_null (h : ctx.currentField = none) : elementEnd ctx = some (0, ctx) := by
  rw [elementEnd, h]

theorem elementEnd_of_freed (h : ctx.currentField = some a) (hcurrent : ctx.current? = none) :
    elementEnd ctx = none := by
  simp only [elementEnd, h, hcurrent]

theorem elementEnd_of_text (hcurrent : ctx.current? = some field) (hfd : field.fd = -1) :
    elementEnd ctx =
      some (0, { ctx.updateCurrent (fun f =>
          { f with
            dataLen := (ctx.currentFieldData.getD []).length
            data := some (ctx.currentFieldData.getD []) }) with
        currentFieldData := none
        currentField := none }) := by
  obtain ⟨a, ha⟩ := currentField_of_current? hcurrent
  simp only [elementEnd, ha, hcurrent, hfd, if_true]

theorem elementEnd_of_file (hcurrent : ctx.current? = some field) (hfd : field.fd ≠ -1) :
    elementEnd ctx =
      some (0, { ctx.updateCurrent (fun f => { f with fd := -1 }) with
        os := ctx.os.close field.fd
        currentField := none }) := by
  obtain ⟨a, ha⟩ := currentField_of_current? hcurrent
  simp only [elementEnd, ha, hcurrent, if_neg hfd, updateCurrent_os]

end FcgiJwtAuth.FormDecoder
