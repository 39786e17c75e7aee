import FcgiJwtAuth.CLang.Feed
import FcgiJwtAuth.FormDecoder.Urlencoded
import Mathlib.Data.Fintype.EquivFin

/-!
# Setting, getting and taking fields

A context of a multipart form keeps its fields in the map; one of a urlencoded form has them in its
query string, which `formdecoder_getfield` reads. `formdecoder_setfield` and
`formdecoder_takefieldvalue` use the map, whatever the type of the context is.
-/

namespace FcgiJwtAuth.FormDecoder

open CLang

/-! ## The laws, and the contexts they are asked of -/

/-- What setting and taking a field does to what getting one reads. -/
structure FieldLaws (L : Libgreen) (ctx : Context) : Prop where
  set_get : ∀ allocated key dataLen data,
    (formdecoderSetfield allocated key dataLen data ctx).1 = 0 →
      formdecoderGetfield L key (formdecoderSetfield allocated key dataLen data ctx).2 =
        some (dataLen, data)
  set_other : ∀ allocated key dataLen data,
    (formdecoderSetfield allocated key dataLen data ctx).1 = 0 → ∀ other, other ≠ key →
      formdecoderGetfield L other (formdecoderSetfield allocated key dataLen data ctx).2 =
        formdecoderGetfield L other ctx
  set_present : ∀ allocated key dataLen data, (formdecoderGetfield L key ctx).isSome = true →
    formdecoderSetfield allocated key dataLen data ctx = (-1, ctx)
  take_value : ∀ key taken, (formdecoderTakefieldvalue key ctx).1 = some taken →
    formdecoderGetfield L key ctx = some taken
  take_other : ∀ key, (formdecoderTakefieldvalue key ctx).1.isSome = true → ∀ other, other ≠ key →
    formdecoderGetfield L other (formdecoderTakefieldvalue key ctx).2 =
      formdecoderGetfield L other ctx

/-- Where a context comes from. -/
inductive Source
  | init
  | multipart
  | urlencoded
deriving DecidableEq

/-- The contexts of `formdecoder_init`, and those of a decode that succeeds: of a multipart form
what any events have made of it, whatever the callback has answered them. -/
inductive Built : Source → Context → Prop
  | init (saveFiles : Bool) : Built .init (formdecoderInit saveFiles)
  | multipart {events : List (CallbackEnv × MimeEvent)} {codes : List ℤ} {ctx : Context}
      (hfeed : feed formdecoderMimedecoderCallback (formdecoderInit true) events =
        some (codes, ctx)) : Built .multipart ctx
  | urlencoded {env : UrlencodedEnv} {maxSize : UInt64} {pieces : List Bytes}
      {fdCtx : Option Context} {ctx : Context}
      (hrc : (formdecoderDecodefcgirequestUrlencoded env maxSize pieces fdCtx).rc = 0)
      (hctx : (formdecoderDecodefcgirequestUrlencoded env maxSize pieces fdCtx).fdCtx = some ctx) :
      Built .urlencoded ctx

/-! ## The type of a context -/

section Types

variable {ctx ctx' : Context} {code : ℤ}

@[simp] theorem updateCurrent_type (f : Field → Field) :
    (ctx.updateCurrent f).type = ctx.type := by
  unfold Context.updateCurrent
  split <;> rfl

theorem type_saveFile {env : CallbackEnv} {value : CStr}
    (h : saveFile env value ctx = some (code, ctx')) : ctx'.type = ctx.type := by
  unfold saveFile at h
  split at h
  · split at h
    · split at h
      · split at h
        · cases h
          exact updateCurrent_type _
        · cases h
          exact updateCurrent_type _
      · cases h
    · cases h
      rfl
  · cases h
    rfl

theorem type_openField {env : CallbackEnv} {name : CStr} (h : openField env name ctx = some ctx') :
    ctx'.type = ctx.type := by
  unfold openField at h
  split at h
  · cases h
  · split_ifs at h
    cases h
    rfl

theorem type_dispositionHeader {env : CallbackEnv} {value : CStr}
    (h : dispositionHeader env value ctx = some (code, ctx')) : ctx'.type = ctx.type := by
  unfold dispositionHeader at h
  split_ifs at h
  · split at h
    · exact type_saveFile h
    · split at h
      · cases h
        rfl
      · rename_i hopen
        exact (type_saveFile h).trans (type_openField hopen)
  · cases h
    rfl

theorem type_contentTypeHeader {env : CallbackEnv} {value : CStr}
    (h : contentTypeHeader env value ctx = some (code, ctx')) : ctx'.type = ctx.type := by
  unfold contentTypeHeader at h
  split at h
  · cases h
    exact updateCurrent_type _
  · cases h

theorem type_elementBegin (h : elementBegin ctx = some (code, ctx')) : ctx'.type = ctx.type := by
  unfold elementBegin at h
  split at h
  · cases h
    rfl
  · split_ifs at h
    · cases h
      rfl
    · split at h
      · cases h
      · split_ifs at h <;> cases h <;> rfl

theorem type_elementChunk {env : CallbackEnv} {data : Bytes}
    (h : elementChunk env data ctx = some (code, ctx')) : ctx'.type = ctx.type := by
  unfold elementChunk at h
  split at h
  · cases h
    rfl
  · split at h
    · cases h
    · simp only at h
      split_ifs at h <;> cases h <;> exact updateCurrent_type _

theorem type_elementEnd (h : elementEnd ctx = some (code, ctx')) : ctx'.type = ctx.type := by
  unfold elementEnd at h
  split at h
  · cases h
    rfl
  · split at h
    · cases h
    · simp only at h
      split_ifs at h <;> cases h <;> exact updateCurrent_type _

/-- **The callback** leaves the type of the context. -/
theorem type_callback {call : CallbackEnv × MimeEvent}
    (h : formdecoderMimedecoderCallback ctx call = some (code, ctx')) : ctx'.type = ctx.type := by
  obtain ⟨env, event⟩ := call
  cases event with
  | header name value =>
    simp only [formdecoderMimedecoderCallback] at h
    split_ifs at h
    · exact type_dispositionHeader h
    · exact type_contentTypeHeader h
    · cases h
      rfl
  | elementBegin => exact type_elementBegin h
  | elementChunk data => exact type_elementChunk h
  | elementEnd => exact type_elementEnd h
  | other =>
    cases h
    rfl

theorem type_feed {events : List (CallbackEnv × MimeEvent)} {codes : List ℤ}
    (h : feed formdecoderMimedecoderCallback ctx events = some (codes, ctx')) :
    ctx'.type = ctx.type := by
  induction events generalizing ctx codes with
  | nil =>
    cases h
    rfl
  | cons event events ih =>
    obtain ⟨code, ctx₁, codes', hstep, hrest, -⟩ := feed_cons_eq_some_iff.mp h
    exact (ih hrest).trans (type_callback hstep)

theorem finishReading_success {env : UrlencodedEnv} {maxSize : UInt64} {fdCtx : Option Context}
    (r : List Access × Option (Bytes × UInt64)) :
    (finishReading env maxSize fdCtx r).rc = 0 →
      ∃ qsctx, (finishReading env maxSize fdCtx r).fdCtx =
        some { type := .querystring, qsctx := qsctx } := by
  have hfailed : (-1 : ℤ) ≠ 0 := by decide
  obtain ⟨accesses, _ | ⟨buf, total⟩⟩ := r
  · exact fun hrc => absurd hrc hfailed
  · unfold finishReading
    simp only
    split_ifs
    · exact fun hrc => absurd hrc hfailed
    · exact fun _ => ⟨_, rfl⟩
    · exact fun hrc => absurd hrc hfailed

/-- A context of a urlencoded form is of that type. -/
theorem type_urlencoded {env : UrlencodedEnv} {maxSize : UInt64} {pieces : List Bytes}
    {fdCtx : Option Context}
    (hrc : (formdecoderDecodefcgirequestUrlencoded env maxSize pieces fdCtx).rc = 0)
    (hctx : (formdecoderDecodefcgirequestUrlencoded env maxSize pieces fdCtx).fdCtx = some ctx) :
    ctx.type = .querystring := by
  unfold formdecoderDecodefcgirequestUrlencoded at hrc hctx
  by_cases halloc : (env.contextAllocated && env.bufferAllocated) = true
  · rw [if_pos halloc] at hrc hctx
    obtain ⟨qsctx, hdone⟩ := finishReading_success _ hrc
    rw [hdone] at hctx
    cases hctx
    rfl
  · rw [if_neg halloc] at hrc
    exact absurd hrc (by decide : (-1 : ℤ) ≠ 0)

/-- **The type** of a context tells a urlencoded form from the rest. -/
theorem Built.type_eq {source : Source} (h : Built source ctx) :
    ctx.type = if source = .urlencoded then .querystring else .multipart := by
  cases h with
  | init saveFiles => rfl
  | multipart hfeed => exact type_feed hfeed
  | urlencoded hrc hctx => exact type_urlencoded hrc hctx

end Types

/-! ## The laws -/

section Laws

variable {L : Libgreen} {ctx : Context} {key other : CStr}

theorem getfield_multipart (h : ctx.type = .multipart) :
    formdecoderGetfield L key ctx =
      (ctx.fields.find? (·.1 = key)).map fun entry => (entry.2.dataLen, entry.2.data) := by
  unfold formdecoderGetfield
  rw [h]

/-- With other fields, it reads these. -/
theorem getfield_multipart_with (h : ctx.type = .multipart) (fields : Arena (CStr × Field)) :
    formdecoderGetfield L key { ctx with fields := fields } =
      (fields.find? (·.1 = key)).map fun entry => (entry.2.dataLen, entry.2.data) := by
  unfold formdecoderGetfield
  rw [h]

/-- Here it does not read them. -/
theorem getfield_querystring_with (h : ctx.type = .querystring) (fields : Arena (CStr × Field)) :
    formdecoderGetfield L key { ctx with fields := fields } = formdecoderGetfield L key ctx := by
  unfold formdecoderGetfield
  rw [h]

theorem setfield_of_some {entry : CStr × Field} (h : ctx.fields.find? (·.1 = key) = some entry)
    (allocated : Bool) (dataLen : ℕ) (data : Option Bytes) :
    formdecoderSetfield allocated key dataLen data ctx = (-1, ctx) := by
  unfold formdecoderSetfield
  rw [h]

/-- The field is appended where its key has none. -/
theorem setfield_success {allocated : Bool} {dataLen : ℕ} {data : Option Bytes}
    (h : (formdecoderSetfield allocated key dataLen data ctx).1 = 0) :
    ctx.fields.find? (·.1 = key) = none ∧
      (formdecoderSetfield allocated key dataLen data ctx).2 =
        { ctx with fields := ctx.fields.alloc (key, { dataLen := dataLen, data := data }) } := by
  cases hfind : ctx.fields.find? (·.1 = key) with
  | some entry =>
    rw [setfield_of_some hfind] at h
    exact absurd h (by decide : (-1 : ℤ) ≠ 0)
  | none =>
    unfold formdecoderSetfield at h ⊢
    simp only [hfind] at h ⊢
    split_ifs at h ⊢
    · exact ⟨trivial, rfl⟩
    · exact absurd h (by decide : (-1 : ℤ) ≠ 0)

theorem takefieldvalue_success {taken : ℕ × Option Bytes}
    (h : (formdecoderTakefieldvalue key ctx).1 = some taken) :
    (ctx.fields.find? (·.1 = key)).map (fun entry => (entry.2.dataLen, entry.2.data)) = some taken ∧
      (formdecoderTakefieldvalue key ctx).2 =
        { ctx with fields := ctx.fields.freeFirst (·.1 = key) } := by
  unfold formdecoderTakefieldvalue at h ⊢
  cases hfind : ctx.fields.find? (·.1 = key) with
  | none =>
    rw [hfind] at h
    cases h
  | some entry =>
    rw [hfind] at h
    exact ⟨h, rfl⟩

/-- **A context with its fields in the map** meets the laws. -/
theorem fieldLaws_of_multipart (h : ctx.type = .multipart) : FieldLaws L ctx where
  set_get := by
    intro allocated key dataLen data hset
    obtain ⟨hnone, hctx⟩ := setfield_success hset
    rw [hctx, getfield_multipart_with h, Arena.find?_alloc, hnone, if_pos (decide_eq_true rfl)]
    rfl
  set_other := by
    intro allocated key dataLen data hset other hne
    obtain ⟨-, hctx⟩ := setfield_success hset
    rw [hctx, getfield_multipart_with h, getfield_multipart h, Arena.find?_alloc,
      if_neg (by simpa using hne.symm), Option.or_none]
  set_present := by
    intro allocated key dataLen data hpresent
    rw [getfield_multipart h, Option.isSome_map, Option.isSome_iff_exists] at hpresent
    obtain ⟨entry, hentry⟩ := hpresent
    exact setfield_of_some hentry allocated dataLen data
  take_value := by
    intro key taken htake
    rw [getfield_multipart h]
    exact (takefieldvalue_success htake).1
  take_other := by
    intro key htake other hne
    obtain ⟨taken, htaken⟩ := Option.isSome_iff_exists.mp htake
    have hkind : ∀ entry : CStr × Field, decide (entry.1 = key) = true →
        decide (entry.1 = other) = false := fun entry hkey =>
      decide_eq_false fun hother => hne (hother.symm.trans (of_decide_eq_true hkey))
    rw [(takefieldvalue_success htaken).2, getfield_multipart_with h, getfield_multipart h,
      Arena.find?_freeFirst _ hkind]

/-- Some key has no field yet. -/
theorem exists_key_not_found (ctx : Context) : ∃ key, ctx.fields.find? (·.1 = key) = none := by
  have hinfinite : Infinite CStr := Infinite.of_injective
    (fun n : ℕ => (⟨List.replicate n (ch 'a'), fun h =>
      absurd (List.eq_of_mem_replicate h) (by decide)⟩ : CStr)) fun m n h => by
        simpa using congrArg (fun s : CStr => s.val.length) h
  obtain ⟨key, hkey⟩ := Infinite.exists_notMem_finset (ctx.fields.values.map Prod.fst).toFinset
  refine ⟨key, List.find?_eq_none.mpr fun entry hentry heq => hkey ?_⟩
  rw [List.mem_toFinset, ← (of_decide_eq_true heq : entry.1 = key)]
  exact List.mem_map_of_mem hentry

/-- **A context with a query string** does not: what is set is not what is read. -/
theorem not_fieldLaws_of_querystring (h : ctx.type = .querystring) : ¬FieldLaws L ctx := by
  intro hlaws
  obtain ⟨key, hnone⟩ := exists_key_not_found ctx
  have hset : ∀ dataLen, (formdecoderSetfield true key dataLen none ctx).1 = 0 := by
    intro dataLen
    unfold formdecoderSetfield
    rw [hnone]
    rfl
  have hget : ∀ dataLen, formdecoderGetfield L key ctx = some (dataLen, none) := by
    intro dataLen
    have hread := hlaws.set_get true key dataLen none (hset dataLen)
    rw [(setfield_success (hset dataLen)).2, getfield_querystring_with h] at hread
    exact hread
  have hlen : (0, none) = ((1, none) : ℕ × Option Bytes) :=
    Option.some.inj ((hget 0).symm.trans (hget 1))
  exact absurd (congrArg Prod.fst hlen) Nat.zero_ne_one

end Laws

/-- **The laws hold** of every context but those of a urlencoded form. -/
theorem fieldLaws_iff (L : Libgreen) {source : Source} {ctx : Context} (h : Built source ctx) :
    FieldLaws L ctx ↔ source ≠ .urlencoded := by
  have htype := h.type_eq
  constructor
  · rintro hlaws rfl
    exact not_fieldLaws_of_querystring htype hlaws
  · intro hsource
    rw [if_neg hsource] at htype
    exact fieldLaws_of_multipart htype

/-- The events of a form with one field. -/
def providerEvents : List (CallbackEnv × MimeEvent) :=
  [.header (bytes "Content-Disposition") (CStr.lit "form-data; name=\"provider\""),
    .elementBegin, .elementChunk (bytes "micro"), .elementChunk (bytes "soft"),
    .elementEnd].map fun event => (⟨true, true, none, none⟩, event)

/-- The laws hold of its context, from which the field can be taken. -/
theorem fieldLaws_providerEvents :
    ∃ codes ctx, feed formdecoderMimedecoderCallback (formdecoderInit true) providerEvents =
        some (codes, ctx) ∧
      (formdecoderTakefieldvalue (CStr.lit "provider") ctx).1 =
        some (9, some (bytes "microsoft")) ∧
      FieldLaws Libgreen.sample ctx := by
  have htaken : (feed formdecoderMimedecoderCallback (formdecoderInit true) providerEvents).map
      (fun r => (formdecoderTakefieldvalue (CStr.lit "provider") r.2).1) =
        some (some (9, some (bytes "microsoft"))) := by
    decide +kernel
  obtain ⟨⟨codes, ctx⟩, hfeed, htake⟩ := Option.map_eq_some_iff.mp htaken
  exact ⟨codes, ctx, hfeed, htake,
    (fieldLaws_iff Libgreen.sample (Built.multipart hfeed)).mpr (by decide)⟩

/-- What `a=1` decodes to. -/
def oneField : Context := { type := .querystring, qsctx := some (CStr.lit "a=1") }

/-- A field that is set in it is not found. -/
theorem not_fieldLaws_oneField :
    ¬∀ (source : Source) (ctx : Context), Built source ctx → FieldLaws Libgreen.sample ctx := by
  intro hall
  have hrc : (formdecoderDecodefcgirequestUrlencoded ⟨true, true, fun _ => 0, true⟩ 16
      [bytes "a=1"] none).rc = 0 := rfl
  have hctx : (formdecoderDecodefcgirequestUrlencoded ⟨true, true, fun _ => 0, true⟩ 16
      [bytes "a=1"] none).fdCtx = some oneField := rfl
  have hlaws := hall _ _ (Built.urlencoded hrc hctx)
  have hset := hlaws.set_get true (CStr.lit "b") 1 (some (bytes "2")) rfl
  cases hset

end FcgiJwtAuth.FormDecoder
