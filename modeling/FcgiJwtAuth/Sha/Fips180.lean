import Mathlib.Data.Nat.NthRoot.Defs
import Mathlib.NumberTheory.PrimeCounting

/-!
# SHA-256, as FIPS 180-4 defines it

The constants are roots of primes, the message schedule is a recursion on the number of the word,
and the message is padded as a whole and hashed block by block. Messages are strings of bytes.
-/

namespace Fips180

/-- A 32-bit word. -/
abbrev Word := BitVec 32

/-! ## Functions (4.1.2) -/

def Ch (x y z : Word) : Word := (x &&& y) ^^^ (~~~x &&& z)

def Maj (x y z : Word) : Word := (x &&& y) ^^^ (x &&& z) ^^^ (y &&& z)

/-- `Σ₀`. -/
def bigSigma0 (x : Word) : Word := x.rotateRight 2 ^^^ x.rotateRight 13 ^^^ x.rotateRight 22

/-- `Σ₁`. -/
def bigSigma1 (x : Word) : Word := x.rotateRight 6 ^^^ x.rotateRight 11 ^^^ x.rotateRight 25

/-- `σ₀`. -/
def smallSigma0 (x : Word) : Word := x.rotateRight 7 ^^^ x.rotateRight 18 ^^^ x >>> 3

/-- `σ₁`. -/
def smallSigma1 (x : Word) : Word := x.rotateRight 17 ^^^ x.rotateRight 19 ^^^ x >>> 10

/-! ## Constants (4.2.2, 5.3.3) -/

/-- The first 32 bits of the fractional part of the `n`-th root of `p`. -/
def rootBits (n p : ℕ) : Word := BitVec.ofNat 32 (Nat.nthRoot n (p * 2 ^ (32 * n)))

/-- The round constants: cube roots of the first 64 primes. -/
noncomputable def K (t : ℕ) : Word := rootBits 3 (Nat.nth Nat.Prime t)

/-- A hash value, and the working variables. -/
@[ext] structure Hash where
  a : Word
  b : Word
  c : Word
  d : Word
  e : Word
  f : Word
  g : Word
  h : Word

/-- The initial hash value: square roots of the first eight primes. -/
noncomputable def initial : Hash where
  a := rootBits 2 (Nat.nth Nat.Prime 0)
  b := rootBits 2 (Nat.nth Nat.Prime 1)
  c := rootBits 2 (Nat.nth Nat.Prime 2)
  d := rootBits 2 (Nat.nth Nat.Prime 3)
  e := rootBits 2 (Nat.nth Nat.Prime 4)
  f := rootBits 2 (Nat.nth Nat.Prime 5)
  g := rootBits 2 (Nat.nth Nat.Prime 6)
  h := rootBits 2 (Nat.nth Nat.Prime 7)

/-! ## One block (6.2.2) -/

/-- The `t`-th word of a block, big-endian. -/
def word (block : List UInt8) (t : ℕ) : Word :=
  (block.getD (4 * t) 0).toBitVec ++ (block.getD (4 * t + 1) 0).toBitVec ++
    (block.getD (4 * t + 2) 0).toBitVec ++ (block.getD (4 * t + 3) 0).toBitVec

/-- The message schedule. -/
def schedule (block : List UInt8) (t : ℕ) : Word :=
  if t < 16 then word block t
  else
    smallSigma1 (schedule block (t - 2)) + schedule block (t - 7) +
      smallSigma0 (schedule block (t - 15)) + schedule block (t - 16)
termination_by t

/-- One step on the working variables. -/
noncomputable def step (block : List UInt8) (v : Hash) (t : ℕ) : Hash :=
  let T1 := v.h + bigSigma1 v.e + Ch v.e v.f v.g + K t + schedule block t
  let T2 := bigSigma0 v.a + Maj v.a v.b v.c
  ⟨T1 + T2, v.a, v.b, v.c, v.d + T1, v.e, v.f, v.g⟩

/-- The sum of two hash values. -/
def Hash.add (H v : Hash) : Hash :=
  ⟨H.a + v.a, H.b + v.b, H.c + v.c, H.d + v.d, H.e + v.e, H.f + v.f, H.g + v.g, H.h + v.h⟩

/-- The hash value behind one more block. -/
noncomputable def compress (H : Hash) (block : List UInt8) : Hash :=
  H.add ((List.range 64).foldl (step block) H)

/-- The hash value behind the blocks of a string. -/
noncomputable def hashBlocks (H : Hash) (bytes : List UInt8) : Hash :=
  if bytes.length < 64 then H else hashBlocks (compress H (bytes.take 64)) (bytes.drop 64)
termination_by bytes.length
decreasing_by
  rw [List.length_drop]
  omega

/-! ## The message (5.1.1, 6.2.2) -/

/-- How many zero bytes stand between the mark and the length. -/
def zeroBytes (length : ℕ) : ℕ := (119 - length % 64) % 64

/-- The length in bits, as 64 bits, big-endian. -/
def lengthBytes (length : ℕ) : List UInt8 :=
  (List.range 8).map fun i => UInt8.ofNat (8 * length / 256 ^ (7 - i))

/-- The padded message. -/
def pad (message : List UInt8) : List UInt8 :=
  message ++ 0x80 :: (List.replicate (zeroBytes message.length) 0 ++ lengthBytes message.length)

/-- The bytes of a word, big-endian. -/
def wordBytes (w : Word) : List UInt8 :=
  [⟨w.extractLsb' 24 8⟩, ⟨w.extractLsb' 16 8⟩, ⟨w.extractLsb' 8 8⟩, ⟨w.extractLsb' 0 8⟩]

/-- The words of a hash value. -/
def Hash.words (H : Hash) : List Word := [H.a, H.b, H.c, H.d, H.e, H.f, H.g, H.h]

/-- The message digest. -/
noncomputable def sha256 (message : List UInt8) : List UInt8 :=
  (hashBlocks initial (pad message)).words.flatMap wordBytes

/-! ## Padding -/

/-- The zeros are as few as can be. -/
theorem zeroBytes_isLeast (length : ℕ) :
    IsLeast {zeros | (length + 1 + zeros) % 64 = 56} (zeroBytes length) := by
  constructor
  · show (length + 1 + zeroBytes length) % 64 = 56
    unfold zeroBytes
    omega
  · intro zeros (hzeros : (length + 1 + zeros) % 64 = 56)
    unfold zeroBytes
    omega

theorem length_lengthBytes (length : ℕ) : (lengthBytes length).length = 8 := by
  rw [lengthBytes, List.length_map, List.length_range]

/-! ## Schedules -/

theorem schedule_of_lt {block : List UInt8} {t : ℕ} (h : t < 16) :
    schedule block t = word block t := by
  rw [schedule, if_pos h]

theorem schedule_of_ge {block : List UInt8} {t : ℕ} (h : 16 ≤ t) :
    schedule block t = smallSigma1 (schedule block (t - 2)) + schedule block (t - 7) +
      smallSigma0 (schedule block (t - 15)) + schedule block (t - 16) := by
  rw [schedule, if_neg (by omega)]

/-! ## Blocks -/

/-- What is no whole block is not hashed. -/
theorem hashBlocks_of_lt {bytes : List UInt8} (h : bytes.length < 64) (H : Hash) :
    hashBlocks H bytes = H := by
  rw [hashBlocks, if_pos h]

theorem hashBlocks_nil (H : Hash) : hashBlocks H [] = H := hashBlocks_of_lt (by decide) H

theorem hashBlocks_block {block : List UInt8} (h : block.length = 64) (H : Hash)
    (rest : List UInt8) : hashBlocks H (block ++ rest) = hashBlocks (compress H block) rest := by
  have hlong : ¬ (block ++ rest).length < 64 := by
    rw [List.length_append]
    omega
  rw [hashBlocks, if_neg hlong, List.take_left' h, List.drop_left' h]

/-- **Hashing goes on** behind whole blocks. -/
theorem hashBlocks_append {n : ℕ} {front : List UInt8} (h : front.length = 64 * n) (H : Hash)
    (rest : List UInt8) : hashBlocks H (front ++ rest) = hashBlocks (hashBlocks H front) rest := by
  induction n generalizing front H with
  | zero =>
    obtain rfl := List.length_eq_zero_iff.mp h
    rw [List.nil_append, hashBlocks_nil]
  | succ n ih =>
    have htake : (front.take 64).length = 64 := by
      rw [List.length_take]
      omega
    have hdrop : (front.drop 64).length = 64 * n := by
      rw [List.length_drop]
      omega
    have hfront := List.take_append_drop 64 front
    rw [← hfront, List.append_assoc, hashBlocks_block htake, hashBlocks_block htake, ih hdrop]

/-- One more block behind whole ones. -/
theorem hashBlocks_append_block {n : ℕ} {front block : List UInt8} (h : front.length = 64 * n)
    (hblock : block.length = 64) (H : Hash) :
    hashBlocks H (front ++ block) = compress (hashBlocks H front) block := by
  have hone := hashBlocks_block hblock (hashBlocks H front) []
  rw [List.append_nil, hashBlocks_nil] at hone
  rw [hashBlocks_append h, hone]

end Fips180
