import FcgiJwtAuth.CLang.CString
import Mathlib.Data.List.GetD

/-!
# The SHA-256 of `minisha256.c`

The context holds the block being filled; `datalen < 64` is a field of it, so that every write into
`data[64]` is in bounds by construction. `sha256_buf` is the only function the program calls: its
64 lowercase hexadecimal digits are what `openidconnect.c` cuts the signature from.
-/

namespace FcgiJwtAuth.Sha

open CLang

/-- `SHA256_CTX`. -/
structure Sha256Ctx where
  data : Vector Byte 64
  state : Vector UInt32 8
  bitlen : UInt64
  datalen : ℕ
  datalen_lt : datalen < 64

/-- The round constants. -/
def k : List UInt32 :=
  [0x428a2f98, 0x71374491, 0xb5c0fbcf, 0xe9b5dba5, 0x3956c25b, 0x59f111f1, 0x923f82a4, 0xab1c5ed5,
   0xd807aa98, 0x12835b01, 0x243185be, 0x550c7dc3, 0x72be5d74, 0x80deb1fe, 0x9bdc06a7, 0xc19bf174,
   0xe49b69c1, 0xefbe4786, 0x0fc19dc6, 0x240ca1cc, 0x2de92c6f, 0x4a7484aa, 0x5cb0a9dc, 0x76f988da,
   0x983e5152, 0xa831c66d, 0xb00327c8, 0xbf597fc7, 0xc6e00bf3, 0xd5a79147, 0x06ca6351, 0x14292967,
   0x27b70a85, 0x2e1b2138, 0x4d2c6dfc, 0x53380d13, 0x650a7354, 0x766a0abb, 0x81c2c92e, 0x92722c85,
   0xa2bfe8a1, 0xa81a664b, 0xc24b8b70, 0xc76c51a3, 0xd192e819, 0xd6990624, 0xf40e3585, 0x106aa070,
   0x19a4c116, 0x1e376c08, 0x2748774c, 0x34b0bcb5, 0x391c0cb3, 0x4ed8aa4a, 0x5b9cca4f, 0x682e6ff3,
   0x748f82ee, 0x78a5636f, 0x84c87814, 0x8cc70208, 0x90befffa, 0xa4506ceb, 0xbef9a3f7, 0xc67178f2]

/-! ## The compression function -/

def rotright (x n : UInt32) : UInt32 := (x >>> n) ||| (x <<< (32 - n))
def chf (x y z : UInt32) : UInt32 := (x &&& y) ^^^ (~~~x &&& z)
def maj (x y z : UInt32) : UInt32 := (x &&& y) ^^^ (x &&& z) ^^^ (y &&& z)
def ep0 (x : UInt32) : UInt32 := rotright x 2 ^^^ rotright x 13 ^^^ rotright x 22
def ep1 (x : UInt32) : UInt32 := rotright x 6 ^^^ rotright x 11 ^^^ rotright x 25
def sig0 (x : UInt32) : UInt32 := rotright x 7 ^^^ rotright x 18 ^^^ (x >>> 3)
def sig1 (x : UInt32) : UInt32 := rotright x 17 ^^^ rotright x 19 ^^^ (x >>> 10)

/-- The first loop of `sha256_transform`: sixteen big-endian words. -/
def loadWords : Bytes → List UInt32
  | b0 :: b1 :: b2 :: b3 :: rest =>
    ((b0.toUInt32 <<< 24) ||| (b1.toUInt32 <<< 16) ||| (b2.toUInt32 <<< 8) ||| b3.toUInt32) ::
      loadWords rest
  | _ => []

/-- `m[i]` from the words `m[0..i)` that stand before it. -/
def nextWord (m : List UInt32) : UInt32 :=
  let i := m.length
  sig1 (m.getD (i - 2) 0) + m.getD (i - 7) 0 + sig0 (m.getD (i - 15) 0) + m.getD (i - 16) 0

/-- `n` iterations of the second loop, each of which fills one more word. -/
def extendWords : ℕ → List UInt32 → List UInt32
  | 0, m => m
  | n + 1, m => extendWords n (m ++ [nextWord m])

/-- The working variables. -/
structure Working where
  a : UInt32
  b : UInt32
  c : UInt32
  d : UInt32
  e : UInt32
  f : UInt32
  g : UInt32
  h : UInt32

/-- One iteration of the third loop, with `ki = k[i]` and `mi = m[i]`. -/
def round (w : Working) (ki mi : UInt32) : Working :=
  let t1 := w.h + ep1 w.e + chf w.e w.f w.g + ki + mi
  let t2 := ep0 w.a + maj w.a w.b w.c
  ⟨t1 + t2, w.a, w.b, w.c, w.d + t1, w.e, w.f, w.g⟩

/-- The third loop, over the constants and the words side by side. -/
def rounds : List UInt32 → List UInt32 → Working → Working
  | ki :: ks, mi :: ms, w => rounds ks ms (round w ki mi)
  | _, _, w => w

/-- `sha256_transform`: the new `ctx->state`. -/
def sha256Transform (s : Vector UInt32 8) (data : Vector Byte 64) : Vector UInt32 8 :=
  let m := extendWords 48 (loadWords data.toList)
  let w := rounds k m ⟨s[0], s[1], s[2], s[3], s[4], s[5], s[6], s[7]⟩
  #v[s[0] + w.a, s[1] + w.b, s[2] + w.c, s[3] + w.d,
     s[4] + w.e, s[5] + w.f, s[6] + w.g, s[7] + w.h]

/-! ## Init, update, final -/

/-- `SHA256_Init`. The block buffer is left as it was. -/
def sha256Init (data : Vector Byte 64) : Sha256Ctx where
  data := data
  state := #v[0x6a09e667, 0xbb67ae85, 0x3c6ef372, 0xa54ff53a,
              0x510e527f, 0x9b05688c, 0x1f83d9ab, 0x5be0cd19]
  bitlen := 0
  datalen := 0
  datalen_lt := by decide

/-- The loop body of `SHA256_Update`. -/
def updateByte (ctx : Sha256Ctx) (b : Byte) : Sha256Ctx :=
  let data := ctx.data.set ctx.datalen b ctx.datalen_lt
  if h : ctx.datalen + 1 = 64 then
    { data := data, state := sha256Transform ctx.state data, bitlen := ctx.bitlen + 512,
      datalen := 0, datalen_lt := by decide }
  else
    { ctx with data := data, datalen := ctx.datalen + 1,
               datalen_lt := by have := ctx.datalen_lt; omega }

/-- `SHA256_Update`. -/
def sha256Update (ctx : Sha256Ctx) (buf : Bytes) : Sha256Ctx := buf.foldl updateByte ctx

/-- `while (i < n) data[i++] = 0`. -/
def zeroFill (data : Vector Byte 64) (i n : ℕ) : Vector Byte 64 :=
  Vector.ofFn fun j => if i ≤ j.val ∧ j.val < n then 0 else data[j]

/-- The 64-bit length, big-endian, in the last eight bytes of the block. -/
def putLength (data : Vector Byte 64) (bitlen : UInt64) : Vector Byte 64 :=
  (((((((data.set 63 bitlen.toUInt8).set 62 (bitlen >>> 8).toUInt8).set 61
    (bitlen >>> 16).toUInt8).set 60 (bitlen >>> 24).toUInt8).set 59
    (bitlen >>> 32).toUInt8).set 58 (bitlen >>> 40).toUInt8).set 57
    (bitlen >>> 48).toUInt8).set 56 (bitlen >>> 56).toUInt8

/-- The four bytes of a word, as the digest loop writes them. -/
def wordBytes (w : UInt32) : Bytes :=
  [(w >>> 24).toUInt8, (w >>> 16).toUInt8, (w >>> 8).toUInt8, w.toUInt8]

/-- `SHA256_Final`: the digest. The context is cleared and not used again. -/
def sha256Final (ctx : Sha256Ctx) : Bytes :=
  let i := ctx.datalen
  let data := ctx.data.set i 0x80 ctx.datalen_lt
  let padded :=
    if ctx.datalen < 56 then (zeroFill data (i + 1) 56, ctx.state)
    else
      let full := zeroFill data (i + 1) 64
      (zeroFill full 0 56, sha256Transform ctx.state full)
  let bitlen := ctx.bitlen + ctx.datalen.toUInt64 * 8
  let state := sha256Transform padded.2 (putLength padded.1 bitlen)
  state.toList.flatMap wordBytes

/-! ## Hexadecimal output -/

/-- A digit of `%x`. -/
def hexDigit (n : ℕ) : Byte := (bytes "0123456789abcdef").getD n 0

/-- `sprintf("%02x", b)`. -/
def hexByte (b : Byte) : Bytes := [hexDigit (b.toNat / 16), hexDigit (b.toNat % 16)]

/-- `sha256_hashtostring`. -/
def sha256HashToString (hash : Bytes) : Bytes := hash.flatMap hexByte

/-- `sha256_buf`. The block buffer lies on the stack; what it holds there is overwritten before it
is read. -/
def sha256Buf (buf : Bytes) : Bytes :=
  sha256HashToString (sha256Final (sha256Update (sha256Init (Vector.replicate 64 0)) buf))

theorem hexDigit_mem {n : ℕ} (h : n < 16) : hexDigit n ∈ bytes "0123456789abcdef" := by
  have hlen : (bytes "0123456789abcdef").length = 16 := by decide
  rw [hexDigit, List.getD_eq_getElem _ _ (by omega)]
  exact List.getElem_mem _

/-- Hexadecimal digits are what comes out. -/
theorem mem_sha256Buf {buf : Bytes} {c : Byte} (h : c ∈ sha256Buf buf) :
    c ∈ bytes "0123456789abcdef" := by
  obtain ⟨b, -, hc⟩ := List.mem_flatMap.mp h
  have hb := b.toNat_lt
  rcases List.mem_pair.mp hc with rfl | rfl
  · exact hexDigit_mem (by omega)
  · exact hexDigit_mem (by omega)

theorem length_sha256Buf (buf : Bytes) : (sha256Buf buf).length = 64 := by
  have hstate : ∀ s : Vector UInt32 8, (s.toList.flatMap wordBytes).length = 32 := by
    intro s
    simp [List.length_flatMap, wordBytes]
  have hhash : (sha256Final (sha256Update (sha256Init (Vector.replicate 64 0)) buf)).length = 32 :=
    hstate _
  rw [sha256Buf, sha256HashToString, List.length_flatMap]
  simp [hexByte, hhash]

/-- The digest holds no NUL. -/
theorem noNul_sha256Buf (buf : Bytes) : (0 : Byte) ∉ sha256Buf buf :=
  fun h => absurd (mem_sha256Buf h) (by decide)

/-- The digest holds no dot. -/
theorem noDot_sha256Buf (buf : Bytes) : ch '.' ∉ sha256Buf buf :=
  fun h => absurd (mem_sha256Buf h) (by decide)

end FcgiJwtAuth.Sha
