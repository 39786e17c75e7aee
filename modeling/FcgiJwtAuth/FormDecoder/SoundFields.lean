import FcgiJwtAuth.FormDecoder.Ledger

/-!
# What the callback leaves in the fields

Whatever events the callback is given, in each field the length is that of the data, once there are
data, and a descriptor belongs to a temporary file.
-/

namespace FcgiJwtAuth.FormDecoder

open CLang

variable {ctx ctx' : Context} {field : Field} {f : Field → Field} {env : CallbackEnv}
  {value : CStr}

structure SoundField (field : Field) : Prop where
  descriptor : field.tempfilename = none → field.fd = -1
  length : ∀ data, field.data = some data → field.dataLen = data.length

/-- The current field has no data yet. -/
structure SoundFields (ctx : Context) : Prop where
  sound : ∀ entry ∈ ctx.fields.values, SoundField entry.2
  collecting : ∀ field, ctx.current? = some field → field.data = none

theorem SoundFields.noStray (h : SoundFields ctx) : NoStray ctx :=
  fun entry hentry => (h.sound entry hentry).descriptor

theorem soundFields_init (saveFiles : Bool) : SoundFields (formdecoderInit saveFiles) where
  sound entry hentry := by cases hentry
  collecting field hfield := by cases hfield

/-! ## Writing to the current field -/

theorem SoundFields.current (h : SoundFields ctx) (hcurrent : ctx.current? = some field) :
    SoundField field := by
  obtain ⟨a, key, -, hget⟩ := current?_eq_some_iff.mp hcurrent
  exact h.sound (key, field) (List.mem_map_of_mem (Arena.get?_eq_some_iff.mp hget))

theorem sound_updateCurrent (h : SoundFields ctx) (hcurrent : ctx.current? = some field)
    (hf : SoundField (f field)) :
    ∀ entry ∈ (ctx.updateCurrent f).fields.values, SoundField entry.2 := by
  obtain ⟨a, key, ha, hget⟩ := current?_eq_some_iff.mp hcurrent
  obtain ⟨pre, post, hvalues, hvalues'⟩ :=
    Arena.values_modify (f := fun entry => (entry.1, f entry.2)) hget
  rw [updateCurrent_of_some ha]
  have hsound := h.sound
  rw [hvalues, List.forall_mem_append, List.forall_mem_cons] at hsound
  intro entry hentry
  have hentry : entry ∈ pre ++ (key, f field) :: post := by rwa [← hvalues']
  rcases List.mem_append.mp hentry with hpre | hrest
  · exact hsound.1 entry hpre
  · rcases List.mem_cons.mp hrest with rfl | hpost
    · exact hf
    · exact hsound.2.2 entry hpost

/-- A write that leaves the field without data. -/
theorem SoundFields.updateCurrent (h : SoundFields ctx) (hcurrent : ctx.current? = some field)
    (hdescriptor : (f field).tempfilename = none → (f field).fd = -1)
    (hdata : (f field).data = none) : SoundFields (ctx.updateCurrent f) where
  sound := sound_updateCurrent h hcurrent
    { descriptor := hdescriptor
      length := fun data hsome => by
        rw [hdata] at hsome
        cases hsome }
  collecting field' hfield' := by
    obtain rfl := Option.some.inj ((current?_updateCurrent hcurrent).symm.trans hfield')
    exact hdata

theorem soundFields_opening (h : SoundFields ctx) (name : CStr) :
    SoundFields (ctx.opening name) where
  sound entry hentry := by
    have hentry : entry ∈ (ctx.fields.alloc (name, { fd := -1 })).values := hentry
    rw [Arena.values_alloc, List.mem_append, List.mem_singleton] at hentry
    rcases hentry with hold | rfl
    · exact h.sound entry hold
    · exact ⟨fun _ => rfl, fun _ hdata => by cases hdata⟩
  collecting field hfield := by
    obtain rfl := Option.some.inj ((current?_opening ctx name).symm.trans hfield)
    rfl

/-! ## The branches of the callback -/

/-- What a call leaves, if it goes through, is sound. -/
def LeavesSound (r : Option (ℤ × Context)) : Prop :=
  ∀ code ctx', r = some (code, ctx') → SoundFields ctx'

theorem leavesSound_none : LeavesSound none := by
  intro code ctx' h
  cases h

theorem SoundFields.leaves (h : SoundFields ctx) (code : ℤ) : LeavesSound (some (code, ctx)) := by
  intro code₁ ctx₁ heq
  obtain ⟨rfl, rfl⟩ := Prod.mk.inj (Option.some.inj heq)
  exact h

theorem saveFile_leavesSound (env : CallbackEnv) (value : CStr) (h : SoundFields ctx) :
    LeavesSound (saveFile env value ctx) := by
  rcases hfield : ctx.currentField with _ | a
  · rw [saveFile_of_null hfield]
    exact h.leaves _
  rcases hfile : contentdispositionGetfilename value with _ | filename
  · rw [saveFile_of_text hfile]
    exact h.leaves _
  rcases hsave : ctx.saveFiles
  · rw [saveFile_of_unsaved hsave]
    exact h.leaves _
  rcases hcurrent : ctx.current? with _ | field
  · rw [saveFile_of_freed hfield hfile hsave hcurrent]
    exact leavesSound_none
  rcases hstrdup : env.strdupAllocated
  · rw [saveFile_of_noMemory hfield hfile hsave hstrdup]
    exact leavesSound_none
  have hdata := h.collecting field hcurrent
  rcases hmkstemp : env.mkstemp with _ | ⟨fd, tempfilename⟩
  · rw [saveFile_of_failed hfield hfile hsave hcurrent hstrdup hmkstemp]
    exact (h.updateCurrent (f := fun f => { f with filename := some filename }) hcurrent
      (h.current hcurrent).descriptor hdata).leaves _
  · rw [saveFile_of_made hfield hfile hsave hcurrent hstrdup hmkstemp]
    have hsound := h.updateCurrent (f := fun f =>
      { f with filename := some filename, tempfilename := some tempfilename, fd := fd }) hcurrent
      (by simp) hdata
    refine SoundFields.leaves ?_ _
    exact ⟨hsound.sound, hsound.collecting⟩

theorem dispositionHeader_leavesSound (env : CallbackEnv) (value : CStr) (h : SoundFields ctx) :
    LeavesSound (dispositionHeader env value ctx) := by
  unfold dispositionHeader
  split
  · rcases contentdispositionGetname value with _ | name
    · exact saveFile_leavesSound env value h
    rcases hfield : ctx.currentField with _ | a
    · rcases halloc : env.fieldAllocated
      · simpa [openField_of_null hfield, halloc] using h.leaves (-1)
      · simpa [openField_of_null hfield, halloc] using
          saveFile_leavesSound env value (soundFields_opening h name)
    · simpa [openField_of_open hfield] using h.leaves (-1)
  · exact h.leaves _

theorem contentTypeHeader_leavesSound (env : CallbackEnv) (value : CStr) (h : SoundFields ctx) :
    LeavesSound (contentTypeHeader env value ctx) := by
  rcases hcurrent : ctx.current? with _ | field
  · rw [contentTypeHeader_of_freed hcurrent]
    exact leavesSound_none
  rcases hstrdup : env.strdupAllocated
  · rw [contentTypeHeader_of_noMemory hstrdup]
    exact leavesSound_none
  · rw [contentTypeHeader_of_current hcurrent hstrdup]
    exact (h.updateCurrent (f := fun f => { f with mimeType := some value }) hcurrent
      (h.current hcurrent).descriptor (h.collecting field hcurrent)).leaves _

theorem elementBegin_leavesSound (h : SoundFields ctx) : LeavesSound (elementBegin ctx) := by
  rcases hfield : ctx.currentField with _ | a
  · rw [elementBegin_of_null hfield]
    exact h.leaves _
  rcases hdata : ctx.currentFieldData with _ | collected
  · rcases hcurrent : ctx.current? with _ | field
    · rw [elementBegin_of_freed hfield hdata hcurrent]
      exact leavesSound_none
    · rw [elementBegin_of_current hdata hcurrent]
      split
      · refine SoundFields.leaves ?_ _
        exact ⟨h.sound, h.collecting⟩
      · exact h.leaves _
  · rw [elementBegin_of_collecting hfield (by rw [hdata]; rfl)]
    exact h.leaves _

/-- The length is ahead of the data until the element ends. -/
theorem elementChunk_leavesSound (env : CallbackEnv) (data : Bytes) (h : SoundFields ctx) :
    LeavesSound (elementChunk env data ctx) := by
  rcases hfield : ctx.currentField with _ | a
  · rw [elementChunk_of_null hfield]
    exact h.leaves _
  rcases hcurrent : ctx.current? with _ | field
  · rw [elementChunk_of_freed hfield hcurrent]
    exact leavesSound_none
  have hsound := h.updateCurrent (f := fun f => { f with dataLen := f.dataLen + data.length })
    hcurrent (h.current hcurrent).descriptor (h.collecting field hcurrent)
  by_cases hfd : field.fd = -1
  · rw [elementChunk_of_text hcurrent hfd]
    refine SoundFields.leaves ?_ _
    exact ⟨hsound.sound, hsound.collecting⟩
  · rw [elementChunk_of_file hcurrent hfd]
    refine SoundFields.leaves ?_ _
    exact ⟨hsound.sound, hsound.collecting⟩

theorem elementEnd_leavesSound (h : SoundFields ctx) : LeavesSound (elementEnd ctx) := by
  rcases hfield : ctx.currentField with _ | a
  · rw [elementEnd_of_null hfield]
    exact h.leaves _
  rcases hcurrent : ctx.current? with _ | field
  · rw [elementEnd_of_freed hfield hcurrent]
    exact leavesSound_none
  -- no field is the current one any more
  have hnone : ∀ field, (none : Option Field) = some field → field.data = none := by
    intro field hfield
    cases hfield
  by_cases hfd : field.fd = -1
  · rw [elementEnd_of_text hcurrent hfd]
    refine SoundFields.leaves ?_ _
    refine ⟨?_, hnone⟩
    refine sound_updateCurrent h hcurrent ⟨(h.current hcurrent).descriptor, ?_⟩
    intro data hdata
    rw [← Option.some.inj hdata]
  · rw [elementEnd_of_file hcurrent hfd]
    refine SoundFields.leaves ?_ _
    refine ⟨?_, hnone⟩
    exact sound_updateCurrent h hcurrent ⟨fun _ => rfl, (h.current hcurrent).length⟩

/-- **One event** leaves the fields sound. -/
theorem callback_leavesSound (call : CallbackEnv × MimeEvent) (h : SoundFields ctx) :
    LeavesSound (formdecoderMimedecoderCallback ctx call) := by
  obtain ⟨env, event⟩ := call
  cases event with
  | header name value =>
    simp only [formdecoderMimedecoderCallback]
    split
    · exact dispositionHeader_leavesSound env value h
    split
    · exact contentTypeHeader_leavesSound env value h
    · exact h.leaves _
  | elementBegin => exact elementBegin_leavesSound h
  | elementChunk data => exact elementChunk_leavesSound env data h
  | elementEnd => exact elementEnd_leavesSound h
  | other => exact h.leaves _

/-- The calls that are made of the events. -/
def callbacks (events : List (CallbackEnv × MimeEvent)) : List FormCall :=
  events.map fun call => .callback call.1 call.2

theorem SoundFields.feed {events : List (CallbackEnv × MimeEvent)} {codes : List ℤ}
    (h : SoundFields ctx) (hrun : feed formStep ctx (callbacks events) = some (codes, ctx')) :
    SoundFields ctx' := by
  induction events generalizing ctx codes with
  | nil =>
    obtain ⟨rfl, rfl⟩ := Prod.mk.inj (Option.some.inj hrun)
    exact h
  | cons call events ih =>
    obtain ⟨code, ctx₁, codes', hstep, hrest, rfl⟩ := feed_cons_eq_some_iff.mp hrun
    exact ih (callback_leavesSound call h code ctx₁ hstep) hrest

/-- **The files of a decoded form** are settled by disposing of it exactly when no event dropped
one. -/
theorem settled_dispose_callbacks_iff {saveFiles : Bool}
    {events : List (CallbackEnv × MimeEvent)} {codes : List ℤ}
    (hrun : feed formStep (formdecoderInit saveFiles) (callbacks events) = some (codes, ctx)) :
    (formdecoderDispose ctx).Settled ↔
      Throughout formStep KeepsFiles (formdecoderInit saveFiles) (callbacks events) := by
  have hstrays : strays ctx = 0 :=
    (strays_eq_zero_iff ctx).mpr ((soundFields_init saveFiles).feed hrun).noStray
  have hlost := Ledger.lostOver_eq_zero_iff (L := books) hrun
  simp only [lost_eq_zero_iff] at hlost
  rw [settled_dispose_iff hrun, ← hlost]
  exact and_iff_left hstrays

end FcgiJwtAuth.FormDecoder
