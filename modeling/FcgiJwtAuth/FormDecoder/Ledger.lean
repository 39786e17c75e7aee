import FcgiJwtAuth.FormDecoder.CallbackSafety
import Mathlib.Algebra.Order.BigOperators.Group.List
import Mathlib.Algebra.Order.Monoid.Prod
import Mathlib.Algebra.Order.Group.Multiset
import Mathlib.Data.Multiset.OrderedMonoid

/-!
# Descriptors and temporary files of a context

A field owns a temporary file through `tempfilename` and its descriptor through `fd`, and gives them
back at the end of its element and in `formdecoder_dispose`. The books over a run are kept in pairs
of descriptors and names. Three things upset them: a field taken out of the context drops what it
owns, a second file for the same field drops the first, and `formdecoder_setfield` leaves the
descriptor 0 in a field that has none.
-/

namespace FcgiJwtAuth.FormDecoder

open CLang

variable {ctx ctx' : Context} {field : Field} {f : Field → Field} {env : CallbackEnv}
  {name value key : CStr}

/-! ## Whole runs of a context -/

/-- The calls on a context, between `formdecoder_init` and `formdecoder_dispose`. -/
inductive FormCall
  | callback (env : CallbackEnv) (event : MimeEvent)
  | setfield (allocated : Bool) (key : CStr) (dataLen : ℕ) (data : Option Bytes)
  | takefieldvalue (key : CStr)

/-- One call: what it returns, and the context after it. -/
def formStep (ctx : Context) : FormCall → Option (ℤ × Context)
  | .callback env event => formdecoderMimedecoderCallback ctx (env, event)
  | .setfield allocated key dataLen data =>
    some (formdecoderSetfield allocated key dataLen data ctx)
  | .takefieldvalue key =>
    let r := formdecoderTakefieldvalue key ctx
    some (if r.1.isSome then 0 else -1, r.2)

/-- Every descriptor that `mkstemp` returned was closed once, every file it made was unlinked once,
and nothing else was. -/
def Files.Settled (os : Files) : Prop := os.closed.Perm os.opened ∧ os.unlinked.Perm os.created

/-- The calls go through, and disposing of the context settles its files. -/
def LedgerClean (saveFiles : Bool) (calls : List FormCall) : Prop :=
  ∃ codes ctx, feed formStep (formdecoderInit saveFiles) calls = some (codes, ctx) ∧
    (formdecoderDispose ctx).Settled

/-! ## What a call needs, and what it must not drop -/

/-- The pointers that a call follows lead to a field, and `formdecoder_strdup` gets its memory. -/
def PointersOk (ctx : Context) : FormCall → Prop
  | .callback env (.header name value) =>
    if headerIs name "Content-Disposition" then
      asksForFile ctx.saveFiles ctx.currentField.isSome env value →
        env.strdupAllocated ∧ (namesField value ∨ ctx.current?.isSome)
    else if headerIs name "Content-Type" then ctx.current?.isSome ∧ env.strdupAllocated
    else True
  | .callback _ .elementBegin =>
    ctx.currentField.isSome → ctx.currentFieldData = none → ctx.current?.isSome
  | .callback _ (.elementChunk _) | .callback _ .elementEnd =>
    ctx.currentField.isSome → ctx.current?.isSome
  | _ => True

/-- The field that a header makes a file, if it comes to that. -/
def savedField (env : CallbackEnv) (value : CStr) (ctx : Context) : Option Field :=
  if ctx.saveFiles && (contentdispositionGetfilename value).isSome && env.mkstemp.isSome then
    ctx.current?
  else none

/-- The field whose file a call loses sight of: the one taken out of the context, and the open one
when a form-data header that names no field makes it a file. -/
def droppedField (ctx : Context) : FormCall → Option Field
  | .callback env (.header name value) =>
    if headerIs name "Content-Disposition" &&
        decide (strncmp 9 value.val (bytes "form-data") = 0) && !namesField value then
      savedField env value ctx
    else none
  | .takefieldvalue key => (ctx.fields.find? (·.1 = key)).map Prod.snd
  | _ => none

/-- A call drops no file. -/
def KeepsFiles (ctx : Context) (call : FormCall) : Prop :=
  ∀ field, droppedField ctx call = some field → field.tempfilename = none

/-- No field has a descriptor without a temporary file; `formdecoder_setfield` leaves such
fields. -/
def NoStray (ctx : Context) : Prop :=
  ∀ entry ∈ ctx.fields.values, entry.2.tempfilename = none → entry.2.fd = -1

/-! ## The books -/

/-- Descriptors, and names of files. -/
abbrev Resources := Multiset ℤ × Multiset CStr

/-- The descriptor that disposing of the field closes. -/
def descriptor (field : Field) : Multiset ℤ := if field.fd = -1 then 0 else {field.fd}

/-- What a field with a temporary file owns. -/
def owned (field : Field) : Resources :=
  match field.tempfilename with
  | none => 0
  | some tempfilename => (descriptor field, {tempfilename})

/-- The descriptor in a field that has no temporary file. -/
def stray (field : Field) : Multiset ℤ :=
  match field.tempfilename with
  | none => descriptor field
  | some _ => 0

/-- What goes when a field is dropped. -/
def lostWith (field : Option Field) : Resources := field.elim 0 owned

@[simp] theorem lostWith_none : lostWith none = 0 := rfl

@[simp] theorem lostWith_some (field : Field) : lostWith (some field) = owned field := rfl

/-- What `mkstemp` made. -/
def Files.made (os : Files) : Resources := (os.opened, os.created)

/-- What was closed and unlinked. -/
def Files.released (os : Files) : Resources := (os.closed, os.unlinked)

/-- The books of a context. -/
def books : Ledger Context FormCall Resources where
  gained ctx := ctx.os.made
  spent ctx := ctx.os.released
  held ctx := ctx.fields.total fun entry => owned entry.2
  lost ctx call := lostWith (droppedField ctx call)

/-- The current field is one whose descriptor, if it has one, belongs to a temporary file, and its
address will not be handed out again. -/
structure Owned (ctx : Context) : Prop where
  bounded : ∀ a, ctx.currentField = some a → a < ctx.fields.fresh
  current : ∀ field, ctx.current? = some field → field.tempfilename = none → field.fd = -1

/-- A call that goes through keeps the current field owned and the books balanced. -/
def Accounts (ctx : Context) (lost : Resources) (r : Option (ℤ × Context)) : Prop :=
  ∀ code ctx', r = some (code, ctx') → Owned ctx' ∧
    books.gained ctx' + (books.spent ctx + books.held ctx) =
      books.gained ctx + (books.spent ctx' + books.held ctx' + lost)

@[simp] theorem made_mkstemp (os : Files) (fd : ℤ) (name : CStr) :
    (os.mkstemp fd name).made = os.made + ({fd}, {name}) := by
  simp [Files.made, Files.mkstemp, ← Multiset.coe_add]

@[simp] theorem released_mkstemp (os : Files) (fd : ℤ) (name : CStr) :
    (os.mkstemp fd name).released = os.released := rfl

@[simp] theorem made_close (os : Files) (fd : ℤ) : (os.close fd).made = os.made := rfl

@[simp] theorem released_close (os : Files) (fd : ℤ) :
    (os.close fd).released = os.released + ({fd}, 0) := by
  simp [Files.released, Files.close, ← Multiset.coe_add]

@[simp] theorem made_unlink (os : Files) (name : CStr) : (os.unlink name).made = os.made := rfl

@[simp] theorem released_unlink (os : Files) (name : CStr) :
    (os.unlink name).released = os.released + (0, {name}) := by
  simp [Files.released, Files.unlink, ← Multiset.coe_add]

@[simp] theorem made_write (os : Files) (fd : ℤ) (data : Bytes) :
    (os.write fd data).made = os.made := by
  unfold Files.write
  split <;> rfl

@[simp] theorem released_write (os : Files) (fd : ℤ) (data : Bytes) :
    (os.write fd data).released = os.released := by
  unfold Files.write
  split <;> rfl

theorem accounts_none (ctx : Context) (lost : Resources) : Accounts ctx lost none := by
  intro code ctx' h
  cases h

theorem accounts_of_balance {code : ℤ} {lost : Resources} (howned : Owned ctx')
    (hbalance : books.gained ctx' + (books.spent ctx + books.held ctx) =
      books.gained ctx + (books.spent ctx' + books.held ctx' + lost)) :
    Accounts ctx lost (some (code, ctx')) := by
  intro code₁ ctx₁ h
  obtain ⟨rfl, rfl⟩ := Prod.mk.inj (Option.some.inj h)
  exact ⟨howned, hbalance⟩

/-- A call that asks nothing of the operating system and changes nobody's property. -/
theorem accounts_of_same {code : ℤ} (howned : Owned ctx') (hmade : ctx'.os.made = ctx.os.made)
    (hreleased : ctx'.os.released = ctx.os.released) (hheld : books.held ctx' = books.held ctx) :
    Accounts ctx 0 (some (code, ctx')) := by
  apply accounts_of_balance howned
  show ctx'.os.made + (ctx.os.released + books.held ctx) =
    ctx.os.made + (ctx'.os.released + books.held ctx' + 0)
  rw [hmade, hreleased, hheld, add_zero]

theorem Owned.accounts (h : Owned ctx) {code : ℤ} : Accounts ctx 0 (some (code, ctx)) :=
  accounts_of_same h rfl rfl rfl

/-! ## Writing to the current field -/

theorem owned_of_null (h : ctx.currentField = none) : Owned ctx where
  bounded a ha := by
    rw [h] at ha
    cases ha
  current field hfield := by
    rw [current?_of_null h] at hfield
    cases hfield

theorem Owned.updateCurrent (h : Owned ctx) (hcurrent : ctx.current? = some field)
    (hf : (f field).tempfilename = none → (f field).fd = -1) : Owned (ctx.updateCurrent f) where
  bounded a ha := by
    rw [updateCurrent_currentField] at ha
    rw [updateCurrent_of_some ha]
    exact h.bounded a ha
  current field' hfield' := by
    obtain rfl := Option.some.inj ((current?_updateCurrent hcurrent).symm.trans hfield')
    exact hf

/-- What the current field owns changes with it. -/
theorem held_updateCurrent (hcurrent : ctx.current? = some field) :
    books.held (ctx.updateCurrent f) + owned field = books.held ctx + owned (f field) := by
  obtain ⟨a, key, ha, hget⟩ := current?_eq_some_iff.mp hcurrent
  rw [updateCurrent_of_some ha]
  exact Arena.total_modify (w := fun entry => owned entry.2) hget

theorem held_updateCurrent_of_eq (hcurrent : ctx.current? = some field)
    (hf : owned (f field) = owned field) : books.held (ctx.updateCurrent f) = books.held ctx := by
  obtain ⟨a, key, ha, hget⟩ := current?_eq_some_iff.mp hcurrent
  rw [updateCurrent_of_some ha]
  exact Arena.total_modify_of_eq (w := fun entry => owned entry.2)
    (f := fun entry => (entry.1, f entry.2)) hget hf

/-- A write that touches neither the descriptor nor the name of the temporary file. -/
theorem Owned.updateCurrent_of_same (h : Owned ctx) (hcurrent : ctx.current? = some field)
    (hname : (f field).tempfilename = field.tempfilename) (hfd : (f field).fd = field.fd) :
    Owned (ctx.updateCurrent f) ∧ books.held (ctx.updateCurrent f) = books.held ctx := by
  refine ⟨h.updateCurrent hcurrent ?_, held_updateCurrent_of_eq hcurrent ?_⟩
  · rw [hname, hfd]
    exact h.current field hcurrent
  · simp only [owned, descriptor, hname, hfd]

/-! ## The branches of the callback -/

theorem owned_of_made (field : Field) (filename tempfilename : CStr) (fd : ℕ) :
    owned { field with filename := some filename, tempfilename := some tempfilename, fd := fd } =
      ({(fd : ℤ)}, {tempfilename}) := by
  have hne : ((fd : ℕ) : ℤ) ≠ -1 := by omega
  simp [owned, descriptor, hne]

/-- What was given to `mkstemp` is owned by the current field, and what that field owned is lost. -/
theorem saveFile_accounts (env : CallbackEnv) (value : CStr) (h : Owned ctx) :
    Accounts ctx (lostWith (savedField env value ctx)) (saveFile env value ctx) := by
  unfold savedField
  rcases hfield : ctx.currentField with _ | a
  · rw [saveFile_of_null hfield, current?_of_null hfield, ite_self]
    exact h.accounts
  rcases hfile : contentdispositionGetfilename value with _ | filename
  · rw [saveFile_of_text hfile]
    simpa using h.accounts
  rcases hsave : ctx.saveFiles
  · rw [saveFile_of_unsaved hsave]
    simpa using h.accounts
  rcases hcurrent : ctx.current? with _ | field
  · rw [saveFile_of_freed hfield hfile hsave hcurrent]
    exact accounts_none _ _
  rcases hstrdup : env.strdupAllocated
  · rw [saveFile_of_noMemory hfield hfile hsave hstrdup]
    exact accounts_none _ _
  rcases hmkstemp : env.mkstemp with _ | ⟨fd, tempfilename⟩
  · rw [saveFile_of_failed hfield hfile hsave hcurrent hstrdup hmkstemp]
    obtain ⟨howned, hheld⟩ := h.updateCurrent_of_same (f := fun f =>
      { f with filename := some filename }) hcurrent rfl rfl
    exact accounts_of_same howned (congrArg Files.made updateCurrent_os)
      (congrArg Files.released updateCurrent_os) hheld
  · rw [saveFile_of_made hfield hfile hsave hcurrent hstrdup hmkstemp]
    have howned := h.updateCurrent (f := fun f =>
      { f with filename := some filename, tempfilename := some tempfilename, fd := fd }) hcurrent
      (by simp)
    have hheld := held_updateCurrent (f := fun f =>
      { f with filename := some filename, tempfilename := some tempfilename, fd := fd }) hcurrent
    -- `tempfilename` and `fd` are overwritten, whatever the field owned
    rw [owned_of_made] at hheld
    refine accounts_of_balance ⟨howned.bounded, howned.current⟩ ?_
    show (ctx.os.mkstemp fd tempfilename).made + (ctx.os.released + books.held ctx) =
      ctx.os.made + ((ctx.os.mkstemp fd tempfilename).released +
        books.held (ctx.updateCurrent _) + owned field)
    rw [made_mkstemp, released_mkstemp, add_assoc ctx.os.released, hheld]
    abel

theorem owned_opening (ctx : Context) (name : CStr) : Owned (ctx.opening name) where
  bounded a ha := by
    obtain rfl := Option.some.inj ha
    exact Nat.lt_succ_self _
  current field hfield _ := by
    obtain rfl := Option.some.inj ((current?_opening ctx name).symm.trans hfield)
    rfl

theorem held_opening (ctx : Context) (name : CStr) :
    books.held (ctx.opening name) = books.held ctx := by
  show Arena.total _ (ctx.fields.alloc _) = Arena.total _ ctx.fields
  rw [Arena.total_alloc]
  exact add_zero _

/-- A field that was just opened has nothing to lose. -/
theorem lostWith_opening (ctx : Context) (env : CallbackEnv) (value name : CStr) :
    lostWith (savedField env value (ctx.opening name)) = 0 := by
  unfold savedField
  rw [current?_opening]
  split <;> rfl

theorem dispositionHeader_accounts (env : CallbackEnv) (value : CStr) (h : Owned ctx) :
    Accounts ctx
      (lostWith (if decide (strncmp 9 value.val (bytes "form-data") = 0) && !namesField value then
        savedField env value ctx else none))
      (dispositionHeader env value ctx) := by
  unfold dispositionHeader
  by_cases hform : strncmp 9 value.val (bytes "form-data") = 0
  · rw [if_pos hform]
    rcases hname : contentdispositionGetname value with _ | name
    · simpa [namesField, hname, hform] using saveFile_accounts env value h
    have hnames : namesField value = true := by simp [namesField, hform, hname]
    rw [hnames, Bool.not_true, Bool.and_false, if_neg Bool.false_ne_true]
    rcases hfield : ctx.currentField with _ | a
    · rcases halloc : env.fieldAllocated
      · simpa [openField_of_null hfield, halloc] using h.accounts
      · have hrest := saveFile_accounts env value (owned_opening ctx name)
        rw [lostWith_opening] at hrest
        simp only [openField_of_null hfield, halloc, if_true]
        intro code ctx' hrun
        obtain ⟨howned, hbalance⟩ := hrest code ctx' hrun
        rw [held_opening] at hbalance
        exact ⟨howned, hbalance⟩
    · simpa [openField_of_open hfield] using h.accounts
  · simpa [hform] using h.accounts

theorem contentTypeHeader_accounts (env : CallbackEnv) (value : CStr) (h : Owned ctx) :
    Accounts ctx 0 (contentTypeHeader env value ctx) := by
  rcases hcurrent : ctx.current? with _ | field
  · rw [contentTypeHeader_of_freed hcurrent]
    exact accounts_none _ _
  rcases hstrdup : env.strdupAllocated
  · rw [contentTypeHeader_of_noMemory hstrdup]
    exact accounts_none _ _
  · rw [contentTypeHeader_of_current hcurrent hstrdup]
    obtain ⟨howned, hheld⟩ := h.updateCurrent_of_same (f := fun f =>
      { f with mimeType := some value }) hcurrent rfl rfl
    exact accounts_of_same howned (congrArg Files.made updateCurrent_os)
      (congrArg Files.released updateCurrent_os) hheld

theorem elementBegin_accounts (h : Owned ctx) : Accounts ctx 0 (elementBegin ctx) := by
  rcases hfield : ctx.currentField with _ | a
  · rw [elementBegin_of_null hfield]
    exact h.accounts
  rcases hdata : ctx.currentFieldData with _ | collected
  · rcases hcurrent : ctx.current? with _ | field
    · rw [elementBegin_of_freed hfield hdata hcurrent]
      exact accounts_none _ _
    · rw [elementBegin_of_current hdata hcurrent]
      split
      · exact accounts_of_same ⟨h.bounded, h.current⟩ rfl rfl rfl
      · exact h.accounts
  · rw [elementBegin_of_collecting hfield (by rw [hdata]; rfl)]
    exact h.accounts

theorem elementChunk_accounts (env : CallbackEnv) (data : Bytes) (h : Owned ctx) :
    Accounts ctx 0 (elementChunk env data ctx) := by
  rcases hfield : ctx.currentField with _ | a
  · rw [elementChunk_of_null hfield]
    exact h.accounts
  rcases hcurrent : ctx.current? with _ | field
  · rw [elementChunk_of_freed hfield hcurrent]
    exact accounts_none _ _
  obtain ⟨howned, hheld⟩ := h.updateCurrent_of_same (f := fun f =>
    { f with dataLen := f.dataLen + data.length }) hcurrent rfl rfl
  by_cases hfd : field.fd = -1
  · rw [elementChunk_of_text hcurrent hfd]
    exact accounts_of_same ⟨howned.bounded, howned.current⟩ (congrArg Files.made updateCurrent_os)
      (congrArg Files.released updateCurrent_os) hheld
  · rw [elementChunk_of_file hcurrent hfd]
    exact accounts_of_same ⟨howned.bounded, howned.current⟩ (made_write _ _ _)
      (released_write _ _ _) hheld

/-- The end of a file's element gives its descriptor back. -/
theorem elementEnd_accounts (h : Owned ctx) : Accounts ctx 0 (elementEnd ctx) := by
  rcases hfield : ctx.currentField with _ | a
  · rw [elementEnd_of_null hfield]
    exact h.accounts
  rcases hcurrent : ctx.current? with _ | field
  · rw [elementEnd_of_freed hfield hcurrent]
    exact accounts_none _ _
  by_cases hfd : field.fd = -1
  · rw [elementEnd_of_text hcurrent hfd]
    obtain ⟨howned, hheld⟩ := h.updateCurrent_of_same (f := fun f =>
      { f with
        dataLen := (ctx.currentFieldData.getD []).length
        data := some (ctx.currentFieldData.getD []) }) hcurrent rfl rfl
    exact accounts_of_same (owned_of_null rfl) (congrArg Files.made updateCurrent_os)
      (congrArg Files.released updateCurrent_os) hheld
  · rw [elementEnd_of_file hcurrent hfd]
    rcases hname : field.tempfilename with _ | tempfilename
    · exact absurd (h.current field hcurrent hname) hfd
    have hheld := held_updateCurrent (f := fun f => { f with fd := -1 }) hcurrent
    -- the name of the file stays owned, the descriptor is the one that is closed
    have howns : owned field = ({field.fd}, 0) + owned { field with fd := -1 } := by
      simp [owned, descriptor, hname, hfd]
    rw [howns, ← add_assoc] at hheld
    have hheld := add_right_cancel hheld
    refine accounts_of_balance (owned_of_null rfl) ?_
    show (ctx.os.close field.fd).made + (ctx.os.released + books.held ctx) =
      ctx.os.made + ((ctx.os.close field.fd).released + books.held (ctx.updateCurrent _) + 0)
    rw [made_close, released_close, ← hheld]
    abel

/-- **One event** balances the books. -/
theorem callback_accounts (event : MimeEvent) (h : Owned ctx) :
    Accounts ctx (books.lost ctx (.callback env event))
      (formdecoderMimedecoderCallback ctx (env, event)) := by
  cases event with
  | header name value =>
    simp only [books, droppedField, formdecoderMimedecoderCallback]
    rcases hdisposition : headerIs name "Content-Disposition"
    · rcases htype : headerIs name "Content-Type"
      · exact h.accounts
      · exact contentTypeHeader_accounts env value h
    · exact dispositionHeader_accounts env value h
  | elementBegin => exact elementBegin_accounts h
  | elementChunk data => exact elementChunk_accounts env data h
  | elementEnd => exact elementEnd_accounts h
  | other => exact h.accounts

/-! ## Setting and taking a field -/

/-- A field that is added owns nothing, and no pointer leads to it. -/
theorem setfield_accounts (allocated : Bool) (key : CStr) (dataLen : ℕ) (data : Option Bytes)
    (h : Owned ctx) :
    Accounts ctx 0 (some (formdecoderSetfield allocated key dataLen data ctx)) := by
  unfold formdecoderSetfield
  rcases hfind : ctx.fields.find? (·.1 = key) with _ | entry
  · rcases allocated
    · exact h.accounts
    · refine accounts_of_same ⟨?_, ?_⟩ rfl rfl ?_
      · intro a ha
        exact (h.bounded a ha).trans (Nat.lt_succ_self _)
      · intro field hfield
        obtain ⟨a, key', ha, hget⟩ := current?_eq_some_iff.mp hfield
        have hold : ctx.fields.get? a = some (key', field) :=
          (Arena.get?_alloc_of_lt (h.bounded a ha)).symm.trans hget
        exact h.current field (current?_eq_some_iff.mpr ⟨a, key', ha, hold⟩)
      · show Arena.total _ (ctx.fields.alloc _) = Arena.total _ ctx.fields
        rw [Arena.total_alloc]
        exact add_zero _
  · exact h.accounts

/-- A field that is taken owned what is lost. -/
theorem takefieldvalue_accounts (key : CStr) (h : Owned ctx) {code : ℤ} :
    Accounts ctx (books.lost ctx (.takefieldvalue key))
      (some (code, (formdecoderTakefieldvalue key ctx).2)) := by
  unfold formdecoderTakefieldvalue
  simp only [books, droppedField]
  rcases hfind : ctx.fields.find? (·.1 = key) with _ | entry
  · exact h.accounts
  · refine accounts_of_balance ⟨h.bounded, ?_⟩ ?_
    · intro field hfield
      obtain ⟨a, key', ha, hget⟩ := current?_eq_some_iff.mp hfield
      exact h.current field (current?_eq_some_iff.mpr ⟨a, key', ha, Arena.get?_freeFirst hget⟩)
    · show _ = books.gained ctx + (books.spent ctx +
        (ctx.fields.freeFirst _).total (fun entry => owned entry.2) + owned entry.2)
      rw [add_assoc (books.spent ctx),
        Arena.total_freeFirst (w := fun entry => owned entry.2) hfind]
      rfl

/-- **One call**: the current field stays owned and the books balance. -/
theorem formStep_accounts (call : FormCall) (h : Owned ctx) :
    Accounts ctx (books.lost ctx call) (formStep ctx call) := by
  cases call with
  | callback env event => exact callback_accounts event h
  | setfield allocated key dataLen data => exact setfield_accounts allocated key dataLen data h
  | takefieldvalue key => exact takefieldvalue_accounts key h

/-! ## What a call needs -/

theorem saveFile_isSome_iff (env : CallbackEnv) (value : CStr) (ctx : Context) :
    (saveFile env value ctx).isSome ↔
      (ctx.saveFiles && (contentdispositionGetfilename value).isSome && ctx.currentField.isSome →
        env.strdupAllocated ∧ ctx.current?.isSome) := by
  rcases hfield : ctx.currentField with _ | a
  · simp [saveFile_of_null hfield]
  rcases hfile : contentdispositionGetfilename value with _ | filename
  · simp [saveFile_of_text hfile]
  rcases hsave : ctx.saveFiles
  · simp [saveFile_of_unsaved hsave]
  rcases hcurrent : ctx.current? with _ | field
  · simp [saveFile_of_freed hfield hfile hsave hcurrent]
  rcases hstrdup : env.strdupAllocated
  · simp [saveFile_of_noMemory hfield hfile hsave hstrdup]
  rcases hmkstemp : env.mkstemp with _ | ⟨fd, tempfilename⟩
  · simp [saveFile_of_failed hfield hfile hsave hcurrent hstrdup hmkstemp]
  · simp [saveFile_of_made hfield hfile hsave hcurrent hstrdup hmkstemp]

theorem dispositionHeader_isSome_iff (env : CallbackEnv) (value : CStr) (ctx : Context) :
    (dispositionHeader env value ctx).isSome ↔
      (asksForFile ctx.saveFiles ctx.currentField.isSome env value →
        env.strdupAllocated ∧ (namesField value ∨ ctx.current?.isSome)) := by
  unfold dispositionHeader asksForFile
  by_cases hform : strncmp 9 value.val (bytes "form-data") = 0
  · rw [if_pos hform]
    rcases hname : contentdispositionGetname value with _ | name
    · have hnames : namesField value = false := by simp [namesField, hname]
      simp [saveFile_isSome_iff, hnames, hform]
    have hnames : namesField value = true := by simp [namesField, hform, hname]
    rcases hfield : ctx.currentField with _ | a
    · rcases halloc : env.fieldAllocated
      · simp [openField_of_null hfield, halloc, hnames]
      · simp [openField_of_null hfield, halloc, hnames, hform, saveFile_isSome_iff,
          current?_opening]
    · simp [openField_of_open hfield, hnames]
  · simp [hform]

theorem contentTypeHeader_isSome_iff (env : CallbackEnv) (value : CStr) (ctx : Context) :
    (contentTypeHeader env value ctx).isSome ↔ ctx.current?.isSome ∧ env.strdupAllocated := by
  rcases hcurrent : ctx.current? with _ | field
  · simp [contentTypeHeader_of_freed hcurrent]
  rcases hstrdup : env.strdupAllocated
  · simp [contentTypeHeader_of_noMemory hstrdup]
  · simp [contentTypeHeader_of_current hcurrent hstrdup]

theorem elementBegin_isSome_iff (ctx : Context) :
    (elementBegin ctx).isSome ↔
      (ctx.currentField.isSome → ctx.currentFieldData = none → ctx.current?.isSome) := by
  rcases hfield : ctx.currentField with _ | a
  · simp [elementBegin_of_null hfield]
  rcases hdata : ctx.currentFieldData with _ | collected
  · rcases hcurrent : ctx.current? with _ | field
    · simp [elementBegin_of_freed hfield hdata hcurrent]
    · rw [elementBegin_of_current hdata hcurrent]
      split <;> simp
  · simp [elementBegin_of_collecting hfield (by rw [hdata]; rfl)]

theorem elementChunk_isSome_iff (env : CallbackEnv) (data : Bytes) (ctx : Context) :
    (elementChunk env data ctx).isSome ↔ (ctx.currentField.isSome → ctx.current?.isSome) := by
  rcases hfield : ctx.currentField with _ | a
  · simp [elementChunk_of_null hfield]
  rcases hcurrent : ctx.current? with _ | field
  · simp [elementChunk_of_freed hfield hcurrent]
  by_cases hfd : field.fd = -1
  · simp [elementChunk_of_text hcurrent hfd]
  · simp [elementChunk_of_file hcurrent hfd]

theorem elementEnd_isSome_iff (ctx : Context) :
    (elementEnd ctx).isSome ↔ (ctx.currentField.isSome → ctx.current?.isSome) := by
  rcases hfield : ctx.currentField with _ | a
  · simp [elementEnd_of_null hfield]
  rcases hcurrent : ctx.current? with _ | field
  · simp [elementEnd_of_freed hfield hcurrent]
  by_cases hfd : field.fd = -1
  · simp [elementEnd_of_text hcurrent hfd]
  · simp [elementEnd_of_file hcurrent hfd]

/-- **A call goes through** when the pointers it follows lead to a field. -/
theorem formStep_isSome_iff (ctx : Context) (call : FormCall) :
    (formStep ctx call).isSome ↔ PointersOk ctx call := by
  cases call with
  | setfield allocated key dataLen data => simp [formStep, PointersOk]
  | takefieldvalue key => simp [formStep, PointersOk]
  | callback env event =>
    cases event with
    | header name value =>
      simp only [formStep, PointersOk, formdecoderMimedecoderCallback]
      rcases hdisposition : headerIs name "Content-Disposition"
      · rcases htype : headerIs name "Content-Type"
        · simp
        · exact contentTypeHeader_isSome_iff env value ctx
      · exact dispositionHeader_isSome_iff env value ctx
    | elementBegin => exact elementBegin_isSome_iff ctx
    | elementChunk data => exact elementChunk_isSome_iff env data ctx
    | elementEnd => exact elementEnd_isSome_iff ctx
    | other => simp [formStep, PointersOk, formdecoderMimedecoderCallback]

/-! ## What is lost -/

theorem owned_eq_zero_iff : owned field = 0 ↔ field.tempfilename = none := by
  unfold owned
  split
  · rename_i hname
    simp [hname]
  · rename_i hname
    simp [hname]

/-- Whatever is lost, a file is. -/
theorem lost_eq_zero_of_names (ctx : Context) (call : FormCall)
    (h : (books.lost ctx call).2 = 0) : books.lost ctx call = 0 := by
  change (lostWith (droppedField ctx call)).2 = 0 at h
  show lostWith (droppedField ctx call) = 0
  rcases hdropped : droppedField ctx call with _ | field
  · rfl
  · rw [hdropped, lostWith_some] at h
    rw [lostWith_some, owned_eq_zero_iff]
    rcases hname : field.tempfilename with _ | tempfilename
    · rfl
    · simp [owned, hname] at h

/-- A call loses nothing when it keeps the files. -/
theorem lost_eq_zero_iff (ctx : Context) (call : FormCall) :
    books.lost ctx call = 0 ↔ KeepsFiles ctx call := by
  show lostWith (droppedField ctx call) = 0 ↔ _
  unfold KeepsFiles
  rcases droppedField ctx call with _ | field
  · simp
  · simp [owned_eq_zero_iff]

/-! ## Disposing of the context -/

theorem made_disposeFormfield (field : Field) (os : Files) :
    (formdecoderDisposeFormfield field os).made = os.made := by
  unfold formdecoderDisposeFormfield
  rcases field.tempfilename with _ | tempfilename
  · by_cases hfd : field.fd = -1
    · simp [hfd]
    · simp [hfd]
  · by_cases hfd : field.fd = -1
    · simp [hfd]
    · simp [hfd]

/-- A field gives back what it owns, and the descriptor it has without owning it. -/
theorem released_disposeFormfield (field : Field) (os : Files) :
    (formdecoderDisposeFormfield field os).released =
      os.released + (owned field + (stray field, 0)) := by
  unfold formdecoderDisposeFormfield owned stray descriptor
  rcases field.tempfilename with _ | tempfilename
  · by_cases hfd : field.fd = -1
    · simp [hfd]
    · simp [hfd]
  · by_cases hfd : field.fd = -1
    · simp [hfd]
    · simp [hfd, add_assoc]

/-- The descriptors of all fields that own none. -/
def strays (ctx : Context) : Multiset ℤ := ctx.fields.total fun entry => stray entry.2

theorem made_dispose (ctx : Context) : (formdecoderDispose ctx).made = ctx.os.made := by
  unfold formdecoderDispose
  generalize ctx.os = os
  induction ctx.fields.values generalizing os with
  | nil => rfl
  | cons entry rest ih => rw [List.foldl_cons, ih, made_disposeFormfield]

theorem released_dispose (ctx : Context) :
    (formdecoderDispose ctx).released = ctx.os.released + (books.held ctx + (strays ctx, 0)) := by
  unfold formdecoderDispose
  show _ = ctx.os.released + ((ctx.fields.values.map fun entry => owned entry.2).sum +
    ((ctx.fields.values.map fun entry => stray entry.2).sum, 0))
  generalize ctx.os = os
  induction ctx.fields.values generalizing os with
  | nil => simp
  | cons entry rest ih =>
    rw [List.foldl_cons, ih, released_disposeFormfield]
    simp only [List.map_cons, List.sum_cons]
    have hsplit : ∀ a b : Multiset ℤ, ((a + b, 0) : Resources) = (a, 0) + (b, 0) := by
      intro a b
      rw [Prod.mk_add_mk, add_zero]
    rw [hsplit]
    abel

theorem stray_eq_zero_iff : stray field = 0 ↔ (field.tempfilename = none → field.fd = -1) := by
  unfold stray descriptor
  rcases field.tempfilename with _ | tempfilename
  · by_cases hfd : field.fd = -1
    · simp [hfd]
    · simp [hfd]
  · simp

theorem strays_eq_zero_iff (ctx : Context) : strays ctx = 0 ↔ NoStray ctx := by
  unfold strays Arena.total NoStray
  rw [List.sum_eq_zero_iff, List.forall_mem_map]
  exact forall₂_congr fun entry _ => stray_eq_zero_iff

theorem Files.settled_iff (os : Files) : os.Settled ↔ os.released = os.made := by
  unfold Files.Settled Files.released Files.made
  rw [Prod.mk.injEq, Multiset.coe_eq_coe, Multiset.coe_eq_coe]

/-! ## Clean runs -/

theorem owned_init (saveFiles : Bool) : Owned (formdecoderInit saveFiles) := owned_of_null rfl

theorem formStep_owned {ctx ctx' : Context} {call : FormCall} {code : ℤ} (h : Owned ctx)
    (hstep : formStep ctx call = some (code, ctx')) : Owned ctx' :=
  (formStep_accounts call h code ctx' hstep).1

/-- The books of a run from `formdecoder_init`. -/
theorem books_of_run {saveFiles : Bool} {calls : List FormCall} {codes : List ℤ}
    (hrun : feed formStep (formdecoderInit saveFiles) calls = some (codes, ctx)) :
    ctx.os.made = ctx.os.released + books.held ctx +
      books.lostOver formStep (formdecoderInit saveFiles) calls := by
  have hbalance := Ledger.feed_balances (L := books) (I := Owned) formStep_owned
    (fun h hstep => (formStep_accounts _ h _ _ hstep).2) (owned_init saveFiles) hrun
  have hnothing : books.gained (formdecoderInit saveFiles) = 0 := rfl
  have hspent : books.spent (formdecoderInit saveFiles) = 0 := rfl
  have hheld : books.held (formdecoderInit saveFiles) = 0 := rfl
  rw [hnothing, hspent, hheld, add_zero, add_zero, zero_add] at hbalance
  exact hbalance

/-- What disposing of the context leaves unsettled is what was lost, against the strays closed. -/
theorem settled_dispose_iff {saveFiles : Bool} {calls : List FormCall} {codes : List ℤ}
    (hrun : feed formStep (formdecoderInit saveFiles) calls = some (codes, ctx)) :
    (formdecoderDispose ctx).Settled ↔
      books.lostOver formStep (formdecoderInit saveFiles) calls = 0 ∧ strays ctx = 0 := by
  rw [Files.settled_iff, released_dispose, made_dispose, books_of_run hrun, ← add_assoc,
    add_left_cancel_iff]
  constructor
  · intro h
    -- strays have no names, and every loss has one: they cannot make up for each other
    have hlost : books.lostOver formStep (formdecoderInit saveFiles) calls = 0 := by
      apply Ledger.lostOver_eq_zero_of_map (AddMonoidHom.snd _ _) lost_eq_zero_of_names hrun
      rw [← h]
      rfl
    rw [hlost] at h
    exact ⟨hlost, congrArg Prod.fst h⟩
  · rintro ⟨hlost, hstrays⟩
    rw [hlost, hstrays]
    rfl

/-- **The ledger of a context** comes out even exactly when every call finds its pointers good and
drops no file, and no field of `formdecoder_setfield` is left to dispose of. -/
theorem ledgerClean_iff (saveFiles : Bool) (calls : List FormCall) :
    LedgerClean saveFiles calls ↔
      Throughout formStep (fun ctx call => PointersOk ctx call ∧ KeepsFiles ctx call)
          (formdecoderInit saveFiles) calls ∧
        ∀ codes ctx, feed formStep (formdecoderInit saveFiles) calls = some (codes, ctx) →
          NoStray ctx := by
  have hgoes : (feed formStep (formdecoderInit saveFiles) calls).isSome ↔
      Throughout formStep PointersOk (formdecoderInit saveFiles) calls := by
    simp only [feed_isSome_iff, formStep_isSome_iff]
  rw [throughout_and, ← hgoes]
  rcases hrun : feed formStep (formdecoderInit saveFiles) calls with _ | ⟨codes, ctx⟩
  · simp [LedgerClean, hrun]
  · have hlost := Ledger.lostOver_eq_zero_iff (L := books) hrun
    simp only [lost_eq_zero_iff] at hlost
    rw [← hlost]
    simp [LedgerClean, hrun, settled_dispose_iff hrun, strays_eq_zero_iff]

/-- A field set to the text `v`. -/
def setOneField : List FormCall := [.setfield true (CStr.lit "key") 1 (some (bytes "v"))]

/-- Disposing of a field that was set closes descriptor 0, which `mkstemp` never returned. -/
theorem dispose_setOneField : ¬ LedgerClean true setOneField := by
  rintro ⟨codes, ctx, hrun, hclosed, -⟩
  cases hrun
  exact absurd hclosed.length_eq (by decide)

end FcgiJwtAuth.FormDecoder
