import FcgiJwtAuth.FormDecoder.Context

/-!
# Reading a urlencoded body

`formdecoder_decodefcgirequest_urlencoded` reads the whole body into a buffer of `max_size` bytes.
The stream belongs to libfcgi and is the list of the pieces that `FCGX_GetStr` delivers, one for
each call. What is done with sizes and with the buffer is recorded.
-/

namespace FcgiJwtAuth.FormDecoder

open CLang

/-! ## The function -/

/-- A subtraction of sizes, a write to the buffer, and the call of `querystring_decode_inplace`. -/
inductive Access
  | subtract (a b : UInt64)
  | write (offset len : ℕ)
  | decode (buf : Bytes)
deriving DecidableEq

/-- `data` over what is at `offset`. -/
def overwrite (buf : Bytes) (offset : ℕ) (data : Bytes) : Bytes :=
  buf.take offset ++ data ++ buf.drop (offset + data.length)

/-- The loop: the buffer and `bytes_read_total` behind it, unless the buffer is full. -/
def readLoop (maxSize : UInt64) : List Bytes → Bytes → UInt64 →
    List Access × Option (Bytes × UInt64)
  | [], buf, total =>
    if maxSize - total = 0 then ([.subtract maxSize total], none)
    else ([.subtract maxSize total], some (buf, total))
  | piece :: pieces, buf, total =>
    if maxSize - total = 0 then ([.subtract maxSize total], none)
    -- `bytes_read` is 0
    else if piece = [] then ([.subtract maxSize total], some (buf, total))
    else
      let r := readLoop maxSize pieces (overwrite buf total.toNat piece)
        (total + UInt64.ofNat piece.length)
      (.subtract maxSize total :: .write total.toNat piece.length :: r.1, r.2)

/-- What the surroundings answer. -/
structure UrlencodedEnv where
  contextAllocated : Bool
  bufferAllocated : Bool
  /-- What `malloc` leaves in the buffer. -/
  memory : ℕ → Byte
  /-- `querystring_decode_inplace` does not return NULL. -/
  decoded : Bool

/-- What the call did, what it returns, and `*fd_ctx_ptr` behind it. -/
structure UrlencodedResult where
  accesses : List Access
  rc : ℤ
  fdCtx : Option Context

/-- The part behind the loop. -/
def finishReading (env : UrlencodedEnv) (maxSize : UInt64) (fdCtx : Option Context) :
    List Access × Option (Bytes × UInt64) → UrlencodedResult
  | (accesses, none) => ⟨accesses, -1, fdCtx⟩
  | (accesses, some (buf, total)) =>
    if maxSize ≤ total then ⟨accesses, -1, fdCtx⟩
    else
      let readBuf := poke buf total.toNat 0
      let accesses := accesses ++ [.write total.toNat 1, .decode readBuf]
      if env.decoded then
        ⟨accesses, 0, some { type := .querystring, qsctx := some (CStr.ofBytes readBuf) }⟩
      else ⟨accesses, -1, fdCtx⟩

/-- `formdecoder_decodefcgirequest_urlencoded`. -/
def formdecoderDecodefcgirequestUrlencoded (env : UrlencodedEnv) (maxSize : UInt64)
    (pieces : List Bytes) (fdCtx : Option Context) : UrlencodedResult :=
  if env.contextAllocated && env.bufferAllocated then
    finishReading env maxSize fdCtx
      (readLoop maxSize pieces ((List.range maxSize.toNat).map env.memory) 0)
  else ⟨[], -1, fdCtx⟩

/-! ## What is asked of it -/

/-- The stream delivers pieces that are not empty and not longer than what is asked for. The size
that is asked for is passed as an `int`, which a piece is then no longer than either. -/
def Delivered : ℕ → List Bytes → Prop
  | _, [] => True
  | room, piece :: pieces =>
    room = 0 ∨ piece ≠ [] ∧ piece.length ≤ room ∧ Delivered (room - piece.length) pieces

/-- What the body alone tells of the outcome. -/
def urlencodedOutcome (env : UrlencodedEnv) (maxSize : UInt64) (body : Bytes)
    (fdCtx : Option Context) : ℤ × Option Context :=
  if env.contextAllocated && env.bufferAllocated && env.decoded && body.length < maxSize.toNat then
    (0, some { type := .querystring, qsctx := some (CStr.ofBytes body) })
  else (-1, fdCtx)

/-- No size underflows, and no write leaves the buffer. -/
def Access.InBounds (maxSize : UInt64) : Access → Prop
  | .subtract a b => b ≤ a
  | .write offset len => offset + len ≤ maxSize.toNat
  | .decode _ => True

/-- The body is read as it should be. -/
structure BoundedReading (env : UrlencodedEnv) (maxSize : UInt64) (body : Bytes)
    (fdCtx : Option Context) (r : UrlencodedResult) : Prop where
  inBounds : ∀ access ∈ r.accesses, access.InBounds maxSize
  tooLong : maxSize.toNat ≤ body.length → r.rc = -1 ∧ r.fdCtx = fdCtx
  handed : body.length < maxSize.toNat → env.contextAllocated = true → env.bufferAllocated = true →
    ∃ readBuf, readBuf.take (body.length + 1) = body ++ [0] ∧
      r.accesses.filter (fun access => access matches .decode _) = [.decode readBuf]
  outcome : (r.rc, r.fdCtx) = urlencodedOutcome env maxSize body fdCtx

/-! ## The loop -/

section Overwrite

variable {buf data : Bytes} {offset : ℕ}

theorem length_overwrite (h : offset + data.length ≤ buf.length) :
    (overwrite buf offset data).length = buf.length := by
  unfold overwrite
  simp only [List.length_append, List.length_take, List.length_drop]
  omega

/-- What stands in front of the data stays. -/
theorem take_overwrite (h : offset + data.length ≤ buf.length) :
    (overwrite buf offset data).take (offset + data.length) = buf.take offset ++ data := by
  have hlen : (buf.take offset ++ data).length = offset + data.length := by
    rw [List.length_append, List.length_take, Nat.min_eq_left (by omega)]
  unfold overwrite
  rw [← hlen, List.take_left]

end Overwrite

section Sizes

variable {a b : UInt64}

theorem toNat_sub_of_toNat_le (h : b.toNat ≤ a.toNat) : (a - b).toNat = a.toNat - b.toNat :=
  UInt64.toNat_sub_of_le a b (UInt64.le_iff_toNat_le.mpr h)

theorem sub_eq_zero_iff_toNat (h : b.toNat ≤ a.toNat) : a - b = 0 ↔ a.toNat = b.toNat := by
  rw [← UInt64.toNat_inj, toNat_sub_of_toNat_le h, UInt64.toNat_zero]
  omega

theorem toNat_add_ofNat {n : ℕ} (h : a.toNat + n ≤ b.toNat) :
    (a + UInt64.ofNat n).toNat = a.toNat + n := by
  have hb := b.toNat_lt
  rw [UInt64.toNat_add, UInt64.toNat_ofNat', Nat.mod_eq_of_lt (by omega : n < 2 ^ 64)]
  exact Nat.mod_eq_of_lt (by omega)

end Sizes

/-- What the loop does with a body that is still to come, from a buffer that has been filled up to
`total`. -/
structure Reads (maxSize : UInt64) (buf : Bytes) (total : UInt64) (body : Bytes)
    (r : List Access × Option (Bytes × UInt64)) : Prop where
  inBounds : ∀ access ∈ r.1, access.InBounds maxSize
  noDecode : r.1.filter (fun access => access matches .decode _) = []
  full : maxSize.toNat ≤ total.toNat + body.length → r.2 = none
  finished : total.toNat + body.length < maxSize.toNat →
    ∃ buf' total', r.2 = some (buf', total') ∧ total'.toNat = total.toNat + body.length ∧
      buf'.length = maxSize.toNat ∧ buf'.take total'.toNat = buf.take total.toNat ++ body

section Loop

variable {maxSize : UInt64} {pieces : List Bytes} {buf body : Bytes} {total : UInt64}

/-- A full buffer ends the loop, with something still to come or not. -/
theorem reads_full (heq : maxSize.toNat = total.toNat) :
    Reads maxSize buf total body ([.subtract maxSize total], none) where
  inBounds := List.forall_mem_singleton.mpr (UInt64.le_iff_toNat_le.mpr heq.ge)
  noDecode := rfl
  full := fun _ => rfl
  finished := fun hlt => absurd hlt (by omega)

/-- The end of the stream ends it. -/
theorem reads_end (hbuf : buf.length = maxSize.toNat) (hlt : total.toNat < maxSize.toNat) :
    Reads maxSize buf total [] ([.subtract maxSize total], some (buf, total)) where
  inBounds := List.forall_mem_singleton.mpr (UInt64.le_iff_toNat_le.mpr hlt.le)
  noDecode := rfl
  full := fun hle => absurd hle (by simpa using hlt)
  finished := fun _ => ⟨buf, total, rfl, rfl, hbuf, (List.append_nil _).symm⟩

/-- A piece that fits is written behind the ones before. -/
theorem reads_piece {piece : Bytes} {r : List Access × Option (Bytes × UInt64)}
    (hbuf : buf.length = maxSize.toNat) (hfits : total.toNat + piece.length ≤ maxSize.toNat)
    (h : Reads maxSize (overwrite buf total.toNat piece) (total + UInt64.ofNat piece.length)
      body r) :
    Reads maxSize buf total (piece ++ body)
      (.subtract maxSize total :: .write total.toNat piece.length :: r.1, r.2) := by
  have htotal := toNat_add_ofNat hfits
  have hlen : total.toNat + (piece ++ body).length =
      (total + UInt64.ofNat piece.length).toNat + body.length := by
    rw [List.length_append, htotal, Nat.add_assoc]
  refine ⟨?_, ?_, ?_, ?_⟩
  · refine List.forall_mem_cons.mpr ⟨UInt64.le_iff_toNat_le.mpr (by omega), ?_⟩
    exact List.forall_mem_cons.mpr ⟨hfits, h.inBounds⟩
  · rw [List.filter_cons_of_neg Bool.false_ne_true, List.filter_cons_of_neg Bool.false_ne_true]
    exact h.noDecode
  · rw [hlen]
    exact h.full
  · rw [hlen]
    intro hlt
    obtain ⟨buf', total', hr, htotal', hbuf', htake⟩ := h.finished hlt
    refine ⟨buf', total', hr, htotal', hbuf', ?_⟩
    rw [htake, htotal, take_overwrite (by omega), List.append_assoc]

/-- **The loop** reads the whole body, or finds the buffer full. -/
theorem readLoop_spec (hbuf : buf.length = maxSize.toNat) (htotal : total.toNat ≤ maxSize.toNat)
    (h : Delivered (maxSize.toNat - total.toNat) pieces) :
    Reads maxSize buf total pieces.flatten (readLoop maxSize pieces buf total) := by
  induction pieces generalizing buf total with
  | nil =>
    have hzero := sub_eq_zero_iff_toNat htotal
    by_cases hfull : maxSize - total = 0
    · rw [readLoop, if_pos hfull]
      exact reads_full (hzero.mp hfull)
    · rw [readLoop, if_neg hfull]
      exact reads_end hbuf (by rw [hzero] at hfull; omega)
  | cons piece pieces ih =>
    have hzero := sub_eq_zero_iff_toNat htotal
    by_cases hfull : maxSize - total = 0
    · rw [readLoop, if_pos hfull]
      exact reads_full (hzero.mp hfull)
    · rw [hzero] at hfull
      obtain ⟨hne, hle, hrest⟩ := h.resolve_left (by omega)
      have hfits : total.toNat + piece.length ≤ maxSize.toNat := by omega
      have htotal' := toNat_add_ofNat hfits
      rw [readLoop, if_neg (mt hzero.mp hfull), if_neg hne, List.flatten_cons]
      refine reads_piece hbuf hfits (ih ?_ ?_ ?_)
      · rw [length_overwrite (by omega), hbuf]
      · rw [htotal']
        exact hfits
      · rw [htotal', ← Nat.sub_sub]
        exact hrest

end Loop

/-- A terminator behind a text does not change its C string. -/
theorem ofBytes_append_nul (body post : Bytes) :
    CStr.ofBytes (body ++ 0 :: post) = CStr.ofBytes body := by
  apply CStr.ext
  show upTo 0 (body ++ 0 :: post) = upTo 0 body
  induction body with
  | nil => exact upTo_cons_self 0 post
  | cons b body ih =>
    by_cases hb : b = 0
    · rw [hb, List.cons_append, upTo_cons_self, upTo_cons_self]
    · rw [List.cons_append, upTo_cons_ne hb, upTo_cons_ne hb, ih]

/-- The terminator is written right behind the body. -/
theorem poke_terminator {buf body : Bytes} (htake : buf.take body.length = body)
    (hlt : body.length < buf.length) : ∃ post, poke buf body.length 0 = body ++ 0 :: post := by
  obtain ⟨x, post, hdrop⟩ := List.exists_cons_of_ne_nil (List.drop_eq_nil_iff.not.mpr
    (Nat.not_le.mpr hlt))
  have hbuf : buf = body ++ x :: post := by
    rw [← List.take_append_drop body.length buf, htake, hdrop]
  exact ⟨post, by rw [hbuf, poke_append]⟩

section Finish

variable {env : UrlencodedEnv} {maxSize : UInt64} {body memory : Bytes} {fdCtx : Option Context}
  {r : List Access × Option (Bytes × UInt64)}

/-- A body that fits is handed on with its terminator. -/
theorem boundedReading_fits (halloc : (env.contextAllocated && env.bufferAllocated) = true)
    (h : Reads maxSize memory 0 body r) (hlt : body.length < maxSize.toNat) :
    BoundedReading env maxSize body fdCtx (finishReading env maxSize fdCtx r) := by
  obtain ⟨buf, total, hr, htotal, hlen, htake⟩ := h.finished (by simpa using hlt)
  rw [UInt64.toNat_zero, Nat.zero_add] at htotal
  rw [htotal, UInt64.toNat_zero, List.take_zero, List.nil_append] at htake
  obtain ⟨post, hread⟩ := poke_terminator htake (hlt.trans_eq hlen.symm)
  have hterminated : (body ++ 0 :: post).take (body.length + 1) = body ++ [0] := by
    rw [List.take_append, List.take_of_length_le (Nat.le_succ _), Nat.add_sub_cancel_left]
    rfl
  have hbounds : ∀ access ∈ r.1 ++ [Access.write body.length 1, .decode (body ++ 0 :: post)],
      access.InBounds maxSize := by
    refine List.forall_mem_append.mpr ⟨h.inBounds, List.forall_mem_cons.mpr ⟨hlt, ?_⟩⟩
    exact List.forall_mem_singleton.mpr trivial
  have hdecode : (r.1 ++ [Access.write body.length 1, .decode (body ++ 0 :: post)]).filter
      (fun access => access matches .decode _) = [Access.decode (body ++ 0 :: post)] := by
    rw [List.filter_append, h.noDecode]
    rfl
  have hroom : ¬maxSize ≤ total := by
    rw [UInt64.le_iff_toNat_le, htotal]
    exact Nat.not_le.mpr hlt
  have htooLong : ¬maxSize.toNat ≤ body.length := Nat.not_le.mpr hlt
  obtain ⟨accesses, result⟩ := r
  obtain rfl : result = some (buf, total) := hr
  unfold finishReading
  simp only [if_neg hroom, htotal, hread]
  cases hdecoded : env.decoded with
  | true =>
    have hdone : urlencodedOutcome env maxSize body fdCtx =
        (0, some { type := .querystring, qsctx := some (CStr.ofBytes body) }) :=
      if_pos (by rw [halloc, hdecoded, decide_eq_true hlt]; rfl)
    refine ⟨hbounds, fun hle => absurd hle htooLong, fun _ _ _ => ⟨_, hterminated, hdecode⟩, ?_⟩
    rw [hdone, ← ofBytes_append_nul body post]
    rfl
  | false =>
    have hfailed : urlencodedOutcome env maxSize body fdCtx = (-1, fdCtx) :=
      if_neg (by rw [halloc, hdecoded]; simp)
    exact ⟨hbounds, fun hle => absurd hle htooLong, fun _ _ _ => ⟨_, hterminated, hdecode⟩,
      hfailed.symm⟩

/-- A body that does not fit is refused. -/
theorem boundedReading_tooLong (h : Reads maxSize memory 0 body r)
    (hle : maxSize.toNat ≤ body.length) :
    BoundedReading env maxSize body fdCtx (finishReading env maxSize fdCtx r) := by
  obtain ⟨accesses, result⟩ := r
  obtain rfl : result = none := h.full (by simpa using hle)
  have hlt : ¬body.length < maxSize.toNat := Nat.not_lt.mpr hle
  have hfailed : urlencodedOutcome env maxSize body fdCtx = (-1, fdCtx) :=
    if_neg fun hall => hlt (of_decide_eq_true (Bool.and_eq_true_iff.mp hall).2)
  exact ⟨h.inBounds, fun _ => ⟨rfl, rfl⟩, fun hfits => absurd hfits hlt, hfailed.symm⟩

end Finish

/-- **The body is read within bounds**, and what comes of it does not depend on how it was split. -/
theorem formdecoderDecodefcgirequestUrlencoded_bounded (env : UrlencodedEnv) (maxSize : UInt64)
    {pieces : List Bytes} (fdCtx : Option Context) (h : Delivered maxSize.toNat pieces) :
    BoundedReading env maxSize pieces.flatten fdCtx
      (formdecoderDecodefcgirequestUrlencoded env maxSize pieces fdCtx) := by
  unfold formdecoderDecodefcgirequestUrlencoded
  by_cases halloc : (env.contextAllocated && env.bufferAllocated) = true
  · rw [if_pos halloc]
    have hmemory : ((List.range maxSize.toNat).map env.memory).length = maxSize.toNat := by
      rw [List.length_map, List.length_range]
    have hroom : (0 : UInt64).toNat ≤ maxSize.toNat := Nat.zero_le _
    have hreads := readLoop_spec hmemory hroom h
    rcases Nat.lt_or_ge pieces.flatten.length maxSize.toNat with hlt | hle
    · exact boundedReading_fits halloc hreads hlt
    · exact boundedReading_tooLong hreads hle
  · rw [if_neg halloc]
    have hfailed : urlencodedOutcome env maxSize pieces.flatten fdCtx = (-1, fdCtx) := by
      refine if_neg fun hall => halloc ?_
      rw [Bool.and_eq_true, Bool.and_eq_true] at hall
      exact hall.1.1
    refine ⟨?_, fun _ => ⟨rfl, rfl⟩, fun _ hctx hread => ?_, hfailed.symm⟩
    · exact fun access haccess => absurd haccess List.not_mem_nil
    · exact absurd (by rw [hctx, hread]; rfl) halloc

/-- A body in two pieces that leaves room for its terminator only. -/
theorem urlencoded_bounded_two_pieces :
    BoundedReading ⟨true, true, fun _ => 7, true⟩ 4 (bytes "a=1") none
      (formdecoderDecodefcgirequestUrlencoded ⟨true, true, fun _ => 7, true⟩ 4
        [bytes "a=", bytes "1"] none) :=
  have hdelivered : Delivered (UInt64.toNat 4) [bytes "a=", bytes "1"] :=
    Or.inr ⟨by decide, by decide, Or.inr ⟨by decide, by decide, trivial⟩⟩
  formdecoderDecodefcgirequestUrlencoded_bounded ⟨true, true, fun _ => 7, true⟩ 4 none hdelivered

end FcgiJwtAuth.FormDecoder
