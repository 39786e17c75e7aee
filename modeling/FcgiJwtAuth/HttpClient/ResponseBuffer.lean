import FcgiJwtAuth.CLang.Run
import FcgiJwtAuth.HttpClient
import Mathlib.Data.List.Induction

/-!
# The response buffer

`write_callback` on `struct ResponseBuffer`, with the block that `data` points to and its `length`
apart from each other. The sizes are those of a `size_t`; their product may wrap.
-/

namespace FcgiJwtAuth.HttpClient

open CLang

/-! ## The callback -/

/-- `struct ResponseBuffer`. NULL is an empty block. -/
structure ResponseBuffer where
  data : Bytes
  length : UInt64
deriving DecidableEq

/-- `struct ResponseBuffer buffer = { NULL, 0 }`. -/
def ResponseBuffer.init : ResponseBuffer := ⟨[], 0⟩

/-- One call of the callback: the memory at `ptr`, and what `realloc` answers, with what it leaves
in the part of the block that is new. -/
structure Call where
  ptr : ℕ → Byte
  size : UInt64
  nmemb : UInt64
  realloc : Option (ℕ → Byte)

/-- `size * nmemb`, as a `size_t`. -/
def Call.bytes (call : Call) : UInt64 := call.size * call.nmemb

/-- The bytes that the call delivers. -/
def Call.piece (call : Call) : Bytes := (List.range call.bytes.toNat).map call.ptr

/-- The block that `realloc(data, new_size)` answers. -/
def resized (data : Bytes) (newSize : ℕ) (fresh : ℕ → Byte) : Bytes :=
  data.take newSize ++ (List.range (newSize - data.length)).map fresh

/-- `memcpy(block + offset, ptr, bytes)`. -/
def memcpy (block : Bytes) (offset : ℕ) (piece : Bytes) : Bytes :=
  block.take offset ++ piece ++ block.drop (offset + piece.length)

/-- `write_callback`: the count it returns, and the buffer. -/
def writeCallback (buf : ResponseBuffer) (call : Call) : UInt64 × ResponseBuffer :=
  if call.bytes = 0 then (0, buf)
  else if call.bytes > maxResponseSize - buf.length then (0, buf)
  else
    let newSize := buf.length + call.bytes
    match call.realloc with
    | none => (0, buf)
    | some fresh =>
      let newData := memcpy (resized buf.data newSize.toNat fresh) buf.length.toNat call.piece
      (call.bytes, ⟨newData, newSize⟩)

/-! ## What one call does -/

/-- The block has `length` bytes, and no more than are allowed. -/
structure ResponseBuffer.Sized (buf : ResponseBuffer) : Prop where
  block : buf.data.length = buf.length.toNat
  bounded : buf.length ≤ maxResponseSize

/-- A call is taken, with all its bytes behind the ones before, or it returns 0 and does nothing. -/
inductive Answer (buf : ResponseBuffer) (call : Call) : UInt64 × ResponseBuffer → Prop
  | taken {buf' : ResponseBuffer} (hbytes : call.bytes ≠ 0) (hsized : buf'.Sized)
      (hdata : buf'.data = buf.data ++ call.piece) : Answer buf call (call.bytes, buf')
  | refused : Answer buf call (0, buf)

section Answer

variable {buf : ResponseBuffer} {call : Call}

theorem length_piece (call : Call) : call.piece.length = call.bytes.toNat := by
  rw [Call.piece, List.length_map, List.length_range]

/-- What is written into the block behind its old bytes fills it. -/
theorem memcpy_resized (data piece : Bytes) (fresh : ℕ → Byte) :
    memcpy (resized data (data.length + piece.length) fresh) data.length piece = data ++ piece := by
  have htake : (resized data (data.length + piece.length) fresh).take data.length = data := by
    rw [resized, List.take_of_length_le (Nat.le_add_right _ _), List.take_left]
  have hlen : (resized data (data.length + piece.length) fresh).length =
      data.length + piece.length := by
    rw [resized, List.take_of_length_le (Nat.le_add_right _ _), List.length_append, List.length_map,
      List.length_range, Nat.add_sub_cancel_left]
  rw [memcpy, htake, List.drop_eq_nil_of_le hlen.le, List.append_nil]

/-- A size that passes the test fits, as nothing wraps in it. -/
theorem toNat_newSize (hbuf : buf.length ≤ maxResponseSize)
    (hfits : ¬call.bytes > maxResponseSize - buf.length) :
    (buf.length + call.bytes).toNat = buf.length.toNat + call.bytes.toNat ∧
      buf.length + call.bytes ≤ maxResponseSize := by
  have hle : call.bytes.toNat ≤ maxResponseSize.toNat - buf.length.toNat := by
    rw [← UInt64.toNat_sub_of_le _ _ hbuf, ← UInt64.le_iff_toNat_le]
    exact UInt64.not_lt.mp hfits
  have hlen := UInt64.le_iff_toNat_le.mp hbuf
  have hmax : maxResponseSize.toNat < 2 ^ 64 := maxResponseSize.toNat_lt
  have hsum : (buf.length + call.bytes).toNat = buf.length.toNat + call.bytes.toNat := by
    rw [UInt64.toNat_add]
    exact Nat.mod_eq_of_lt (by omega)
  refine ⟨hsum, ?_⟩
  rw [UInt64.le_iff_toNat_le, hsum]
  omega

/-- The callback on a buffer whose block has the size it says. -/
theorem writeCallback_eq (h : buf.Sized) (call : Call) :
    writeCallback buf call =
      if call.bytes = 0 then (0, buf)
      else if call.bytes > maxResponseSize - buf.length then (0, buf)
      else if call.realloc.isSome then
        (call.bytes, ⟨buf.data ++ call.piece, buf.length + call.bytes⟩)
      else (0, buf) := by
  unfold writeCallback
  by_cases hbytes : call.bytes = 0
  · rw [if_pos hbytes, if_pos hbytes]
  by_cases hfits : call.bytes > maxResponseSize - buf.length
  · rw [if_neg hbytes, if_neg hbytes, if_pos hfits, if_pos hfits]
  rw [if_neg hbytes, if_neg hbytes, if_neg hfits, if_neg hfits]
  cases call.realloc with
  | none => rfl
  | some fresh =>
    have hdata : memcpy (resized buf.data (buf.length + call.bytes).toNat fresh) buf.length.toNat
        call.piece = buf.data ++ call.piece := by
      rw [(toNat_newSize h.bounded hfits).1, ← h.block, ← length_piece]
      exact memcpy_resized buf.data call.piece fresh
    simp only [hdata, Option.isSome_some, if_true]

/-- **One call** is taken as a whole or refused. -/
theorem writeCallback_answer (h : buf.Sized) (call : Call) :
    Answer buf call (writeCallback buf call) := by
  rw [writeCallback_eq h]
  split_ifs with hbytes hfits hrealloc
  · exact .refused
  · exact .refused
  · obtain ⟨hsum, hbounded⟩ := toNat_newSize h.bounded hfits
    refine .taken hbytes ⟨?_, hbounded⟩ rfl
    show List.length (_ ++ _) = _
    rw [List.length_append, length_piece, h.block, hsum]
  · exact .refused

end Answer

/-! ## Runs of calls -/

/-- A step of a transfer. -/
def callback (buf : ResponseBuffer) (call : Call) : Option (UInt64 × ResponseBuffer) :=
  some (writeCallback buf call)

abbrev CallStep := Step ResponseBuffer Call UInt64

/-- The pieces whose call returned a count other than 0, in the order of the calls. -/
def taken (h : List CallStep) : Bytes :=
  (h.reverse.filter (·.output ≠ 0)).flatMap (·.input.piece)

/-- The buffer holds the pieces that were taken, and is not too long. -/
structure Collects (h : List CallStep) (buf : ResponseBuffer) : Prop where
  sized : buf.Sized
  content : buf.data = taken h

/-- No call underflows, leaves a buffer that is too long, or changes a buffer it returns 0 for. -/
structure CallLaw (st : CallStep) : Prop where
  noUnderflow : st.pre.length ≤ maxResponseSize
  bounded : st.post.length ≤ maxResponseSize
  unchanged : st.output = 0 → st.post = st.pre

section Runs

variable {h earlier : List CallStep} {buf buf' : ResponseBuffer} {call : Call} {count : UInt64}

theorem taken_cons (st : CallStep) (h : List CallStep) :
    taken (st :: h) = taken h ++ if st.output ≠ 0 then st.input.piece else [] := by
  unfold taken
  rw [List.reverse_cons, List.filter_append, List.flatMap_append]
  by_cases hout : st.output = 0 <;> simp [hout]

/-- Any calls can be made, one behind the other. -/
theorem exists_run (calls : List Call) :
    ∃ h buf, Run callback .init h buf ∧ h.map (·.input) = calls.reverse := by
  induction calls using List.reverseRecOn with
  | nil => exact ⟨[], .init, .nil, rfl⟩
  | append_singleton calls call ih =>
    obtain ⟨h, buf, hrun, hinputs⟩ := ih
    refine ⟨_, _, .cons (i := call) hrun rfl, ?_⟩
    rw [List.map_cons, hinputs, List.reverse_append]
    rfl

/-- **The step lemma.** -/
theorem Collects.step (hI : Collects earlier buf) (hstep : callback buf call = some (count, buf')) :
    Collects (⟨buf, call, count, buf'⟩ :: earlier) buf' ∧ CallLaw ⟨buf, call, count, buf'⟩ := by
  have hanswer := writeCallback_answer hI.sized call
  rw [Option.some.inj hstep] at hanswer
  cases hanswer with
  | taken hbytes hsized hdata =>
    refine ⟨⟨hsized, ?_⟩, ⟨hI.sized.bounded, hsized.bounded, fun hzero => absurd hzero hbytes⟩⟩
    rw [taken_cons, if_pos hbytes, hdata, hI.content]
  | refused =>
    refine ⟨⟨hI.sized, ?_⟩, ⟨hI.sized.bounded, hI.sized.bounded, fun _ => rfl⟩⟩
    rw [taken_cons, if_neg (not_not.mpr rfl), List.append_nil, hI.content]

theorem collects_init : Collects [] .init :=
  ⟨⟨rfl, UInt64.le_iff_toNat_le.mpr (Nat.zero_le _)⟩, rfl⟩

/-- **The response is collected exactly**, whatever the calls are and whatever `realloc` answers. -/
theorem response_collected (hrun : Run callback .init h buf) :
    Collects h buf ∧ Everywhere (fun _ st => CallLaw st) h := by
  induction hrun with
  | nil => exact ⟨collects_init, trivial⟩
  | cons hearlier hstep ih =>
    obtain ⟨hI, hlaws⟩ := ih
    obtain ⟨hI', hlaw⟩ := hI.step hstep
    exact ⟨hI', hlaw, hlaws⟩

/-- Three bytes are taken, and a product that wraps to 0 is refused. -/
theorem response_collected_wrapped :
    ∃ h buf, Run callback .init h buf ∧ h.map (·.output) = [0, 3] ∧ Collects h buf := by
  have htake : callback .init ⟨fun _ => ch 'a', 1, 3, some fun _ => 0⟩ =
      some (3, ⟨bytes "aaa", 3⟩) := by decide +kernel
  have hrefuse : callback ⟨bytes "aaa", 3⟩ ⟨fun _ => ch 'b', 2 ^ 63, 2, some fun _ => 0⟩ =
      some (0, ⟨bytes "aaa", 3⟩) := by decide +kernel
  have hrun := Run.cons (Run.cons Run.nil htake) hrefuse
  exact ⟨_, _, hrun, rfl, (response_collected hrun).1⟩

end Runs

/-! ## The transfer of `http_post` -/

/-- The call as `http_post` sees it. -/
def Call.toPiece (call : Call) : Piece := ⟨call.piece, call.size, call.nmemb, call.realloc.isSome⟩

section Transfer

variable {buf : ResponseBuffer} {call : Call} {calls : List Call} {data : Bytes}

/-- The callback of `http_post` is this one, on the contents of the buffer. -/
theorem writeCallback_toPiece (h : buf.Sized) (call : Call) :
    FcgiJwtAuth.writeCallback buf.data call.toPiece =
      ((writeCallback buf call).1, (writeCallback buf call).2.data) := by
  have hlength : UInt64.ofNat buf.data.length = buf.length := by
    rw [h.block, UInt64.ofNat_toNat]
  have hpiece : call.piece.take call.bytes.toNat = call.piece :=
    List.take_of_length_le (length_piece call).le
  rw [writeCallback_eq h]
  unfold FcgiJwtAuth.writeCallback
  show (if call.bytes = 0 then _ else if call.bytes > _ then _ else if call.realloc.isSome then
    (call.bytes, buf.data ++ call.piece.take call.bytes.toNat) else _) = _
  rw [hlength, hpiece]
  split_ifs <;> rfl

/-- A transfer that succeeds hands on all the bytes of all its pieces, in order. -/
theorem transfer_content (h : buf.Sized)
    (htransfer : transfer (calls.map Call.toPiece) buf.data = some data) :
    data = buf.data ++ calls.flatMap Call.piece ∧ data.length ≤ maxResponseSize.toNat := by
  induction calls generalizing buf with
  | nil =>
    obtain rfl := Option.some.inj htransfer
    refine ⟨by rw [List.flatMap_nil, List.append_nil], ?_⟩
    rw [h.block]
    exact UInt64.le_iff_toNat_le.mp h.bounded
  | cons call calls ih =>
    rw [List.map_cons, transfer, writeCallback_toPiece h] at htransfer
    have hanswer := writeCallback_answer h call
    generalize writeCallback buf call = answer at hanswer htransfer
    cases hanswer with
    | @taken buf' hbytes hsized hdata =>
      rw [if_pos (show call.bytes = call.toPiece.size * call.toPiece.nmemb from rfl)] at htransfer
      rw [List.flatMap_cons, ← List.append_assoc, ← hdata]
      exact ih hsized htransfer
    | refused =>
      -- 0 is what a call without bytes is to return
      simp only at htransfer
      split_ifs at htransfer with hzero
      have hpiece : call.piece = [] := by
        rw [Call.piece, Call.bytes, show call.size * call.nmemb = 0 from hzero.symm]
        rfl
      rw [List.flatMap_cons, hpiece, List.nil_append]
      exact ih h htransfer

/-- What `http_post` hands out is what its transfer has collected. -/
theorem transfer_of_httpPost {curl : CurlPost} {response : HttpResponse}
    (h : httpPost curl = some response) : transfer curl.pieces [] = some response.data := by
  unfold httpPost at h
  cases htransfer : transfer curl.pieces [] with
  | none =>
    rw [htransfer] at h
    split_ifs at h
  | some data =>
    have hdata : ∀ contentType, some (HttpResponse.mk contentType data) = some response →
        some data = some response.data := by
      rintro contentType heq
      rw [← Option.some.inj heq]
    simp only [htransfer] at h
    cases htype : curl.contentType with
    | none =>
      simp only [htype] at h
      split_ifs at h
      exact hdata none h
    | some contentType =>
      simp only [htype] at h
      split_ifs at h
      · exact hdata (some contentType) h
      · exact hdata none h

/-- **`http_post`** hands out the whole response, or none of it. -/
theorem httpPost_content {curl : CurlPost} {response : HttpResponse}
    (hpieces : curl.pieces = calls.map Call.toPiece) (h : httpPost curl = some response) :
    response.data = calls.flatMap Call.piece ∧ response.data.length ≤ maxResponseSize.toNat := by
  have htransfer := transfer_of_httpPost h
  rw [hpieces] at htransfer
  exact transfer_content collects_init.sized htransfer

end Transfer

end FcgiJwtAuth.HttpClient
