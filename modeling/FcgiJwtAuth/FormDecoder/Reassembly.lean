import FcgiJwtAuth.CLang.Feed
import FcgiJwtAuth.FormDecoder.CurrentField

/-!
# Reassembling a multipart body

The events of well-formed parts, in order, leave one field a part: its data, or the temporary file
written for it, is the concatenation of the part's chunks, however the body was split. While a part
is being read, the context is the one before the part with one more field at its end
(`Context.filling`), and every event takes such a context to another.

Memory is granted throughout, `mkstemp` makes a new file and `write` writes everything it is given.
-/

namespace FcgiJwtAuth.FormDecoder

open CLang

/-! ## Parts -/

/-- The callback takes the name for the literal: it compares as many characters as the name has. -/
def PrefixOf (name : Bytes) (literal : String) : Prop :=
  name <+: bytes literal ∨ bytes literal ++ [0] <+: name

/-- A header that means nothing to the callback. -/
def Unrelated (header : Bytes × CStr) : Prop :=
  ¬ PrefixOf header.1 "Content-Disposition" ∧ ¬ PrefixOf header.1 "Content-Type"

/-- A part of a multipart body: one `Content-Disposition` header that names a form field, before any
`Content-Type` header, and a body in chunks. The descriptor and the file name are what `mkstemp`
answers should the part be a file. -/
structure Part where
  name : CStr
  disposition : CStr
  formData : bytes "form-data" <+: disposition.val
  named : contentdispositionGetname disposition = some name
  before : List (Bytes × CStr)
  before_unrelated : ∀ header ∈ before, Unrelated header
  after : List (Bytes × CStr)
  after_ok : ∀ header ∈ after, header.1 = bytes "Content-Type" ∨ Unrelated header
  chunks : List Bytes
  fd : ℕ
  tempfilename : CStr

namespace Part

/-- What the chunks add up to. -/
def body (p : Part) : Bytes := p.chunks.flatten

/-- Surroundings that grant everything, `write` included, which is given `n` bytes. -/
def grants (p : Part) (n : ℕ) : CallbackEnv where
  fieldAllocated := true
  strdupAllocated := true
  mkstemp := some (p.fd, p.tempfilename)
  written := some n

def headerEvent (p : Part) (header : Bytes × CStr) : CallbackEnv × MimeEvent :=
  (p.grants 0, .header header.1 header.2)

def chunkEvent (p : Part) (chunk : Bytes) : CallbackEnv × MimeEvent :=
  (p.grants chunk.length, .elementChunk chunk)

/-- The events of the part. -/
def events (p : Part) : List (CallbackEnv × MimeEvent) :=
  p.before.map p.headerEvent ++
    p.headerEvent (bytes "Content-Disposition", p.disposition) ::
      (p.after.map p.headerEvent ++
        (p.grants 0, .elementBegin) ::
          (p.chunks.map p.chunkEvent ++ [(p.grants 0, .elementEnd)]))

/-- The temporary file of the part, if it gets one. -/
def tempfile (p : Part) (saveFiles : Bool) : Option CStr :=
  if saveFiles && (contentdispositionGetfilename p.disposition).isSome then some p.tempfilename
  else none

end Part

/-- The temporary files of the parts, in order. -/
def tempfiles (saveFiles : Bool) (parts : List Part) : List CStr :=
  parts.filterMap fun p => p.tempfile saveFiles

theorem tempfiles_cons (saveFiles : Bool) (p : Part) (parts : List Part) :
    tempfiles saveFiles (p :: parts) =
      (p.tempfile saveFiles).toList ++ tempfiles saveFiles parts := by
  rw [tempfiles, List.filterMap_cons]
  rcases p.tempfile saveFiles with _ | tempfilename
  · rfl
  · rfl

/-- The entry that a part leaves: its name, the length of its body, and the body itself, in memory
or in the part's own file. -/
structure Reassembled (saveFiles : Bool) (os : Files) (p : Part) (entry : CStr × Field) : Prop where
  key : entry.1 = p.name
  dataLen : entry.2.dataLen = p.body.length
  text : p.tempfile saveFiles = none → entry.2.data = some p.body
  file : ∀ tempfilename, p.tempfile saveFiles = some tempfilename →
    entry.2.tempfilename = some tempfilename ∧ os.contents tempfilename = p.body

variable {ctx ctx' ctx'' : Context} {name value : CStr} {field : Field} {f : Field → Field}
  {data : Option Bytes} {os : Files} {env : CallbackEnv}
  {event : CallbackEnv × MimeEvent} {events events' : List (CallbackEnv × MimeEvent)}

/-! ## Events that are answered with 0 -/

/-- The callback answers 0 to every one of the events. -/
def Passes (ctx : Context) (events : List (CallbackEnv × MimeEvent)) (ctx' : Context) : Prop :=
  feed formdecoderMimedecoderCallback ctx events = some (List.replicate events.length 0, ctx')

theorem Passes.nil (ctx : Context) : Passes ctx [] ctx := rfl

theorem Passes.cons (h : formdecoderMimedecoderCallback ctx event = some (0, ctx'))
    (h' : Passes ctx' events ctx'') : Passes ctx (event :: events) ctx'' :=
  feed_cons_eq_some_iff.mpr ⟨0, ctx', _, h, h', rfl⟩

theorem Passes.append (h : Passes ctx events ctx') (h' : Passes ctx' events' ctx'') :
    Passes ctx (events ++ events') ctx'' := by
  unfold Passes
  rw [feed_append h h', List.length_append, List.replicate_add]

/-- Events that leave the context as it is. -/
theorem passes_of_same (h : ∀ event ∈ events,
    formdecoderMimedecoderCallback ctx event = some (0, ctx)) : Passes ctx events ctx := by
  induction events with
  | nil => exact Passes.nil ctx
  | cons event events ih =>
    obtain ⟨hevent, hevents⟩ := List.forall_mem_cons.mp h
    exact (ih hevents).cons hevent

/-! ## Headers -/

theorem headerIs_iff {literal : String} (h : (0 : Byte) ∉ bytes literal) (name : Bytes) :
    headerIs name literal = true ↔ PrefixOf name literal := by
  rw [headerIs, decide_eq_true_iff]
  exact strncmp_length_eq_zero_iff h

theorem callback_unrelated {header : Bytes × CStr} (h : Unrelated header) :
    formdecoderMimedecoderCallback ctx (env, .header header.1 header.2) = some (0, ctx) := by
  have hdisposition : headerIs header.1 "Content-Disposition" = false :=
    Bool.eq_false_iff.mpr fun his => h.1 ((headerIs_iff (by decide) _).mp his)
  have htype : headerIs header.1 "Content-Type" = false :=
    Bool.eq_false_iff.mpr fun his => h.2 ((headerIs_iff (by decide) _).mp his)
  simp [formdecoderMimedecoderCallback, hdisposition, htype]

/-! ## A context that is reading a part -/

/-- The context with one more field at its end, which is the current one. -/
def Context.filling (ctx : Context) (name : CStr) (field : Field) (data : Option Bytes)
    (os : Files) : Context :=
  { ctx with
    fields := ctx.fields.alloc (name, field)
    currentField := some ctx.fields.fresh
    currentFieldData := data
    os := os }

theorem current?_filling : (ctx.filling name field data os).current? = some field :=
  current?_eq_some_iff.mpr ⟨ctx.fields.fresh, name, rfl, Arena.get?_alloc_self _ _⟩

/-- Writing to the current field writes to the last one. -/
theorem updateCurrent_filling :
    (ctx.filling name field data os).updateCurrent f = ctx.filling name (f field) data os := by
  rw [updateCurrent_of_some (a := ctx.fields.fresh) rfl]
  show Context.mk _ ((ctx.fields.alloc (name, field)).modify ctx.fields.fresh _) _ _ _ _ _ = _
  rw [Arena.modify_alloc]
  rfl

/-- The disposition header opens a field to collect text in. -/
theorem disposition_text (p : Part) (h : ctx.currentField = none)
    (hfile : p.tempfile ctx.saveFiles = none) :
    dispositionHeader (p.grants 0) p.disposition ctx =
      some (0, ctx.filling p.name { fd := -1 } ctx.currentFieldData ctx.os) := by
  have hform : strncmp 9 p.disposition.val (bytes "form-data") = 0 :=
    (strncmp_eq_zero_iff p.disposition.noNul (by decide)).mpr p.formData
  have hopen : openField (p.grants 0) p.name ctx = some (ctx.opening p.name) := openField_of_null h
  have hsave : saveFile (p.grants 0) p.disposition (ctx.opening p.name) =
      some (0, ctx.opening p.name) := by
    rcases hname : contentdispositionGetfilename p.disposition with _ | filename
    · exact saveFile_of_text hname
    · rcases hfiles : ctx.saveFiles
      · exact saveFile_of_unsaved hfiles
      · simp [Part.tempfile, hname, hfiles] at hfile
  simp only [dispositionHeader, hform, p.named, hopen, hsave, if_true]
  rfl

/-- The disposition header opens a field with a file of its own. -/
theorem disposition_file (p : Part) (h : ctx.currentField = none) {tempfilename : CStr}
    (hfile : p.tempfile ctx.saveFiles = some tempfilename) :
    ∃ filename, dispositionHeader (p.grants 0) p.disposition ctx =
      some (0, ctx.filling p.name
        { filename := some filename, tempfilename := some tempfilename, fd := p.fd }
        ctx.currentFieldData (ctx.os.mkstemp p.fd tempfilename)) := by
  have hform : strncmp 9 p.disposition.val (bytes "form-data") = 0 :=
    (strncmp_eq_zero_iff p.disposition.noNul (by decide)).mpr p.formData
  have hopen : openField (p.grants 0) p.name ctx = some (ctx.opening p.name) := openField_of_null h
  rcases hname : contentdispositionGetfilename p.disposition with _ | filename
  · simp [Part.tempfile, hname] at hfile
  rcases hfiles : ctx.saveFiles
  · simp [Part.tempfile, hfiles] at hfile
  have htemp : p.tempfilename = tempfilename := by simpa [Part.tempfile, hname, hfiles] using hfile
  subst htemp
  refine ⟨filename, ?_⟩
  have hopening : ctx.opening p.name =
      ctx.filling p.name { fd := -1 } ctx.currentFieldData ctx.os := rfl
  have hsave : saveFile (p.grants 0) p.disposition (ctx.opening p.name) =
      some (0, ctx.filling p.name
        { filename := some filename, tempfilename := some p.tempfilename, fd := p.fd }
        ctx.currentFieldData (ctx.os.mkstemp p.fd p.tempfilename)) := by
    rw [saveFile_of_made (opening_currentField ctx p.name) hname hfiles
      (current?_opening ctx p.name) rfl rfl, hopening, updateCurrent_filling]
    rfl
  simp only [dispositionHeader, hform, p.named, hopen, hsave, if_true]

/-- The headers after it may set the type, and do nothing else. -/
theorem passes_after (p : Part) {headers : List (Bytes × CStr)} (field : Field)
    (h : ∀ header ∈ headers, header.1 = bytes "Content-Type" ∨ Unrelated header) :
    ∃ mimeType, Passes (ctx.filling name field data os) (headers.map p.headerEvent)
      (ctx.filling name { field with mimeType := mimeType } data os) := by
  induction headers generalizing field with
  | nil => exact ⟨field.mimeType, Passes.nil _⟩
  | cons header headers ih =>
    obtain ⟨hheader, hheaders⟩ := List.forall_mem_cons.mp h
    rcases hheader with htype | hunrelated
    · obtain ⟨mimeType, hrest⟩ := ih { field with mimeType := some header.2 } hheaders
      refine ⟨mimeType, Passes.cons ?_ hrest⟩
      have hdisposition : headerIs header.1 "Content-Disposition" = false := by
        rw [htype]
        decide
      have his : headerIs header.1 "Content-Type" = true := by
        rw [htype]
        decide
      have hcall : formdecoderMimedecoderCallback (ctx.filling name field data os)
          (p.headerEvent header) =
            contentTypeHeader (p.grants 0) header.2 (ctx.filling name field data os) := by
        simp [Part.headerEvent, formdecoderMimedecoderCallback, hdisposition, his]
      rw [hcall, contentTypeHeader_of_current current?_filling rfl, updateCurrent_filling]
    · obtain ⟨mimeType, hrest⟩ := ih field hheaders
      exact ⟨mimeType, Passes.cons (callback_unrelated hunrelated) hrest⟩

/-! ## The body -/

/-- Text is collected in memory. -/
theorem passes_text_chunks (p : Part) (chunks : List Bytes) (field : Field) (collected : Bytes)
    (hfd : field.fd = -1) :
    Passes (ctx.filling name field (some collected) os) (chunks.map p.chunkEvent)
      (ctx.filling name { field with dataLen := field.dataLen + chunks.flatten.length }
        (some (collected ++ chunks.flatten)) os) := by
  induction chunks generalizing field collected with
  | nil =>
    rw [List.flatten_nil, List.append_nil]
    exact Passes.nil _
  | cons chunk chunks ih =>
    have hchunk : elementChunk (p.grants chunk.length) chunk
        (ctx.filling name field (some collected) os) =
          some (0, ctx.filling name { field with dataLen := field.dataLen + chunk.length }
            (some (collected ++ chunk)) os) := by
      rw [elementChunk_of_text current?_filling hfd, updateCurrent_filling]
      rfl
    have hrest := ih { field with dataLen := field.dataLen + chunk.length } (collected ++ chunk) hfd
    rw [List.append_assoc, ← List.flatten_cons, Nat.add_assoc, ← List.length_append,
      ← List.flatten_cons] at hrest
    exact Passes.cons hchunk hrest

/-- The writes of the chunks, one after another. -/
def Files.writeAll (os : Files) (fd : ℤ) (chunks : List Bytes) : Files :=
  chunks.foldl (fun os chunk => os.write fd chunk) os

/-- A file is written to. -/
theorem passes_file_chunks (p : Part) (chunks : List Bytes) (field : Field) (os : Files)
    (hfd : field.fd ≠ -1) :
    Passes (ctx.filling name field data os) (chunks.map p.chunkEvent)
      (ctx.filling name { field with dataLen := field.dataLen + chunks.flatten.length } data
        (os.writeAll field.fd chunks)) := by
  induction chunks generalizing field os with
  | nil => exact Passes.nil _
  | cons chunk chunks ih =>
    have hchunk : elementChunk (p.grants chunk.length) chunk (ctx.filling name field data os) =
        some (0, ctx.filling name { field with dataLen := field.dataLen + chunk.length } data
          (os.write field.fd chunk)) := by
      rw [elementChunk_of_file current?_filling hfd, updateCurrent_filling]
      simp only [Part.grants, if_true, Option.getD_some, List.take_length]
      rfl
    have hrest := ih { field with dataLen := field.dataLen + chunk.length }
      (os.write field.fd chunk) hfd
    rw [Nat.add_assoc, ← List.length_append, ← List.flatten_cons] at hrest
    exact Passes.cons hchunk hrest

/-! ## What is written to a file -/

theorem writeAll_cons (os : Files) (fd : ℤ) (chunk : Bytes) (chunks : List Bytes) :
    os.writeAll fd (chunk :: chunks) = (os.write fd chunk).writeAll fd chunks := rfl

theorem write_file (os : Files) (fd : ℤ) (chunk : Bytes) : (os.write fd chunk).file = os.file := by
  unfold Files.write
  split <;> rfl

theorem contents_write {fd : ℤ} (h : os.file fd = some name) (chunk : Bytes) :
    (os.write fd chunk).contents =
      Function.update os.contents name (os.contents name ++ chunk) := by
  rw [Files.write, h]

/-- The chunks are appended to the file behind the descriptor, and to no other. -/
theorem contents_writeAll {fd : ℤ} (h : os.file fd = some name) (chunks : List Bytes) :
    (os.writeAll fd chunks).contents =
      Function.update os.contents name (os.contents name ++ chunks.flatten) := by
  induction chunks generalizing os with
  | nil =>
    rw [List.flatten_nil, List.append_nil, Function.update_eq_self]
    rfl
  | cons chunk chunks ih =>
    have hfile : (os.write fd chunk).file fd = some name := by rw [write_file, h]
    rw [writeAll_cons, ih hfile, contents_write h, Function.update_self, Function.update_idem,
      List.append_assoc, List.flatten_cons]

/-! ## One part -/

/-- Between two parts nothing is open and nothing has been collected. -/
structure Ready (ctx : Context) : Prop where
  currentField : ctx.currentField = none
  currentFieldData : ctx.currentFieldData = none

/-- The events of a part, stage by stage. -/
theorem passes_events (p : Part) {ctx₁ ctx₂ ctx₃ ctx₄ ctx₅ : Context}
    (hdisposition : dispositionHeader (p.grants 0) p.disposition ctx = some (0, ctx₁))
    (hafter : Passes ctx₁ (p.after.map p.headerEvent) ctx₂)
    (hbegin : elementBegin ctx₂ = some (0, ctx₃))
    (hchunks : Passes ctx₃ (p.chunks.map p.chunkEvent) ctx₄)
    (hend : elementEnd ctx₄ = some (0, ctx₅)) : Passes ctx p.events ctx₅ := by
  have hbefore : Passes ctx (p.before.map p.headerEvent) ctx := by
    apply passes_of_same
    rw [List.forall_mem_map]
    intro header hheader
    exact callback_unrelated (p.before_unrelated header hheader)
  have hcall : formdecoderMimedecoderCallback ctx
      (p.headerEvent (bytes "Content-Disposition", p.disposition)) = some (0, ctx₁) := by
    have his : headerIs (bytes "Content-Disposition") "Content-Disposition" = true := by decide
    simp [Part.headerEvent, formdecoderMimedecoderCallback, his, hdisposition]
  have hbody : Passes ctx₂ ((p.grants 0, .elementBegin) :: (p.chunks.map p.chunkEvent ++
      [(p.grants 0, .elementEnd)])) ctx₅ :=
    Passes.cons hbegin (hchunks.append (Passes.cons hend (Passes.nil _)))
  exact hbefore.append (Passes.cons hcall (hafter.append hbody))

/-- **A text part** leaves its body in memory. -/
theorem passes_text (p : Part) (h : Ready ctx) (htext : p.tempfile ctx.saveFiles = none) :
    ∃ mimeType, Passes ctx p.events
      { ctx with
        fields := ctx.fields.alloc (p.name,
          { dataLen := p.body.length, data := some p.body, mimeType := mimeType, fd := -1 }) } := by
  have hdisposition := disposition_text p h.currentField htext
  rw [h.currentFieldData] at hdisposition
  obtain ⟨mimeType, hafter⟩ := passes_after p _ p.after_ok
  have hbegin : elementBegin (ctx.filling p.name { mimeType := mimeType, fd := -1 } none ctx.os) =
      some (0, ctx.filling p.name { mimeType := mimeType, fd := -1 } (some []) ctx.os) := by
    rw [elementBegin_of_current rfl current?_filling]
    rfl
  refine ⟨mimeType, passes_events p hdisposition hafter hbegin
    (passes_text_chunks p p.chunks _ [] rfl) ?_⟩
  rw [elementEnd_of_text current?_filling rfl, updateCurrent_filling]
  simp [Context.filling, Part.body, h.currentField, h.currentFieldData]

/-- **A file part** leaves its body in its own file. -/
theorem passes_file (p : Part) (h : Ready ctx) {tempfilename : CStr}
    (hfile : p.tempfile ctx.saveFiles = some tempfilename) :
    ∃ filename mimeType, Passes ctx p.events
      { ctx with
        fields := ctx.fields.alloc (p.name,
          { dataLen := p.body.length, mimeType := mimeType, filename := some filename,
            tempfilename := some tempfilename, fd := -1 })
        os := ((ctx.os.mkstemp p.fd tempfilename).writeAll p.fd p.chunks).close p.fd } := by
  obtain ⟨filename, hdisposition⟩ := disposition_file p h.currentField hfile
  rw [h.currentFieldData] at hdisposition
  obtain ⟨mimeType, hafter⟩ := passes_after p _ p.after_ok
  have hfd : ((p.fd : ℕ) : ℤ) ≠ -1 := by omega
  have hbegin : ∀ field : Field, field.fd = p.fd →
      elementBegin (ctx.filling p.name field none (ctx.os.mkstemp p.fd tempfilename)) =
        some (0, ctx.filling p.name field none (ctx.os.mkstemp p.fd tempfilename)) := by
    intro field hfield
    rw [elementBegin_of_current rfl current?_filling]
    exact if_neg (hfield ▸ hfd)
  refine ⟨filename, mimeType, passes_events p hdisposition hafter (hbegin _ rfl)
    (passes_file_chunks p p.chunks _ _ hfd) ?_⟩
  rw [elementEnd_of_file current?_filling hfd, updateCurrent_filling]
  simp [Context.filling, Part.body, h.currentField, h.currentFieldData]

/-- What a part's file holds in the end. -/
theorem contents_ofPart (p : Part) (os : Files) (tempfilename : CStr) :
    (((os.mkstemp p.fd tempfilename).writeAll p.fd p.chunks).close p.fd).contents =
      Function.update os.contents tempfilename p.body := by
  have hopen : (os.mkstemp p.fd tempfilename).file p.fd = some tempfilename :=
    Function.update_self _ _ _
  have hempty : (os.mkstemp p.fd tempfilename).contents =
      Function.update os.contents tempfilename [] := rfl
  show ((os.mkstemp p.fd tempfilename).writeAll p.fd p.chunks).contents = _
  rw [contents_writeAll hopen, hempty, Function.update_self, Function.update_idem, List.nil_append]
  rfl

/-- **One part** adds its entry and touches no file but its own. -/
theorem passes_part (p : Part) (h : Ready ctx) :
    ∃ ctx' entry, Passes ctx p.events ctx' ∧ Ready ctx' ∧ ctx'.saveFiles = ctx.saveFiles ∧
      ctx'.fields.values = ctx.fields.values ++ [entry] ∧
      Reassembled ctx.saveFiles ctx'.os p entry ∧
      ∀ name, p.tempfile ctx.saveFiles ≠ some name →
        ctx'.os.contents name = ctx.os.contents name := by
  rcases htemp : p.tempfile ctx.saveFiles with _ | tempfilename
  · obtain ⟨mimeType, hrun⟩ := passes_text p h htemp
    refine ⟨_, _, hrun, ⟨h.currentField, h.currentFieldData⟩, rfl, Arena.values_alloc _ _,
      ⟨rfl, rfl, fun _ => rfl, ?_⟩, fun _ _ => rfl⟩
    intro tempfilename hsome
    rw [htemp] at hsome
    cases hsome
  · obtain ⟨filename, mimeType, hrun⟩ := passes_file p h htemp
    refine ⟨_, _, hrun, ⟨h.currentField, h.currentFieldData⟩, rfl, Arena.values_alloc _ _,
      ⟨rfl, rfl, ?_, ?_⟩, ?_⟩
    · intro hnone
      rw [htemp] at hnone
      cases hnone
    · intro tempfilename' hsome
      obtain rfl := Option.some.inj (htemp.symm.trans hsome)
      refine ⟨rfl, ?_⟩
      rw [contents_ofPart, Function.update_self]
    · intro name hne
      rw [contents_ofPart, Function.update_of_ne]
      rintro rfl
      exact hne rfl

/-! ## The whole body -/

/-- An entry stays reassembled as long as nothing else is written to its file. -/
theorem Reassembled.of_contents {saveFiles : Bool} {os os' : Files} {p : Part}
    {entry : CStr × Field} (h : Reassembled saveFiles os p entry)
    (hsame : ∀ tempfilename, p.tempfile saveFiles = some tempfilename →
      os'.contents tempfilename = os.contents tempfilename) :
    Reassembled saveFiles os' p entry where
  key := h.key
  dataLen := h.dataLen
  text := h.text
  file tempfilename hfile := by
    rw [hsame tempfilename hfile]
    exact h.file tempfilename hfile

/-- **The parts of a body**, one after another. -/
theorem passes_parts (parts : List Part) (h : Ready ctx)
    (hnames : (tempfiles ctx.saveFiles parts).Nodup) :
    ∃ ctx' entries, Passes ctx (parts.flatMap Part.events) ctx' ∧ Ready ctx' ∧
      ctx'.fields.values = ctx.fields.values ++ entries ∧
      List.Forall₂ (Reassembled ctx.saveFiles ctx'.os) parts entries ∧
      ∀ name ∉ tempfiles ctx.saveFiles parts, ctx'.os.contents name = ctx.os.contents name := by
  induction parts generalizing ctx with
  | nil =>
    exact ⟨ctx, [], Passes.nil ctx, h, (List.append_nil _).symm, List.Forall₂.nil, fun _ _ => rfl⟩
  | cons p parts ih =>
    obtain ⟨ctx₁, entry, hrun, hready, hsave, hvalues, hentry, hothers⟩ := passes_part p h
    rw [tempfiles_cons, List.nodup_append] at hnames
    obtain ⟨-, hrest, hown⟩ := hnames
    rw [← hsave] at hrest
    obtain ⟨ctx', entries, hrun', hready', hvalues', hentries, hothers'⟩ := ih hready hrest
    rw [hsave] at hentries hothers'
    refine ⟨ctx', entry :: entries, hrun.append hrun', hready', ?_, ?_, ?_⟩
    · rw [hvalues', hvalues, List.append_assoc, List.singleton_append]
    · -- the later parts write to files of their own
      refine List.Forall₂.cons (hentry.of_contents ?_) hentries
      intro tempfilename hfile
      apply hothers'
      intro hlater
      exact hown tempfilename (by rw [hfile]; simp) tempfilename hlater rfl
    · intro name hname
      rw [tempfiles_cons, List.mem_append, not_or] at hname
      rw [hothers' name hname.2]
      apply hothers
      intro hfile
      exact hname.1 (by rw [hfile]; simp)

/-- **Multipart reassembly**: from a new context, the parts leave one entry each, in order, and a
context that is ready for a next part. -/
theorem reassembly (saveFiles : Bool) (parts : List Part)
    (hnames : (tempfiles saveFiles parts).Nodup) :
    ∃ ctx, Passes (formdecoderInit saveFiles) (parts.flatMap Part.events) ctx ∧
      List.Forall₂ (Reassembled saveFiles ctx.os) parts ctx.fields.values ∧ Ready ctx := by
  obtain ⟨ctx, entries, hrun, hready, hvalues, hentries, -⟩ := passes_parts parts
    (show Ready (formdecoderInit saveFiles) from ⟨rfl, rfl⟩) hnames
  refine ⟨ctx, hrun, ?_, hready⟩
  rw [hvalues]
  exact hentries

/-! ## A text field and a file -/

/-- A text field in two chunks. -/
def textPart : Part where
  name := CStr.lit "a"
  disposition := CStr.lit "form-data; name=\"a\""
  formData := by decide
  named :=
    (findAttributeValue_of_next
      (show readAttribute _ = ⟨bytes "form-data", [], bytes "; name=\"a\""⟩ from rfl)
      (by decide) (by decide)).trans
    (findAttributeValue_of_match
      (show readAttribute _ = ⟨bytes "name", bytes "a", []⟩ from rfl) (by decide))
  before := []
  before_unrelated := by simp
  after := []
  after_ok := by simp
  chunks := [bytes "x", bytes "yz"]
  fd := 5
  tempfilename := CStr.lit "/tmp/formdecoder.000000"

/-- A file with a type. -/
def filePart : Part where
  name := CStr.lit "f"
  disposition := CStr.lit "form-data; name=f; filename=n"
  formData := by decide
  named :=
    (findAttributeValue_of_next
      (show readAttribute _ = ⟨bytes "form-data", [], bytes "; name=f; filename=n"⟩ from rfl)
      (by decide) (by decide)).trans
    (findAttributeValue_of_match
      (show readAttribute _ = ⟨bytes "name", bytes "f", bytes "; filename=n"⟩ from rfl) (by decide))
  before := []
  before_unrelated := by simp
  after := [(bytes "Content-Type", CStr.lit "text/plain")]
  after_ok := by simp
  chunks := [bytes "file"]
  fd := 5
  tempfilename := CStr.lit "/tmp/formdecoder.000001"

theorem getfilename_textPart : contentdispositionGetfilename textPart.disposition = none :=
  (findAttributeValue_of_next
    (show readAttribute _ = ⟨bytes "form-data", [], bytes "; name=\"a\""⟩ from rfl)
    (by decide) (by decide)).trans
  (findAttributeValue_of_end
    (show readAttribute _ = ⟨bytes "name", bytes "a", []⟩ from rfl) (by decide) rfl)

theorem getfilename_filePart :
    contentdispositionGetfilename filePart.disposition = some (CStr.lit "n") :=
  ((findAttributeValue_of_next
    (show readAttribute _ = ⟨bytes "form-data", [], bytes "; name=f; filename=n"⟩ from rfl)
    (by decide) (by decide)).trans
  (findAttributeValue_of_next
    (show readAttribute _ = ⟨bytes "name", bytes "f", bytes "; filename=n"⟩ from rfl)
    (by decide) (by decide))).trans
  (findAttributeValue_of_match
    (show readAttribute _ = ⟨bytes "filename", bytes "n", []⟩ from rfl) (by decide))

/-- The text in memory and the other part in its file. -/
theorem reassembly_textAndFile :
    ∃ ctx, Passes (formdecoderInit true) ([textPart, filePart].flatMap Part.events) ctx ∧
      List.Forall₂ (Reassembled true ctx.os) [textPart, filePart] ctx.fields.values ∧
        Ready ctx := by
  apply reassembly true [textPart, filePart]
  have htext : textPart.tempfile true = none := by
    rw [Part.tempfile, getfilename_textPart]
    rfl
  have hfile : filePart.tempfile true = some filePart.tempfilename := by
    rw [Part.tempfile, getfilename_filePart]
    rfl
  rw [tempfiles_cons, tempfiles_cons, htext, hfile]
  exact List.nodup_singleton _

end FcgiJwtAuth.FormDecoder
