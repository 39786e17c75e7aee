import FcgiJwtAuth.Sha.Fips180
import FcgiJwtAuth.Sha.Minisha256

/-!
# `minisha256.c` computes SHA-256

The transformation of a block is the one of FIPS 180-4; the context follows the message byte by
byte, its state being the hash value of the whole blocks and its buffer holding the rest; and the
two ways of `SHA256_Final` pad the message as a whole.
-/

namespace FcgiJwtAuth.Sha

open CLang Fips180

/-! ## Words -/

/-- A byte shifted to its place in a word stays whole. -/
theorem shiftLeft_mod {x n : ℕ} (hx : x < 2 ^ 8) (hn : n ≤ 24) : x <<< n % 2 ^ 32 = x <<< n := by
  refine Nat.mod_eq_of_lt ?_
  rw [Nat.shiftLeft_eq]
  calc x * 2 ^ n < 2 ^ 8 * 2 ^ n := Nat.mul_lt_mul_of_pos_right hx (Nat.two_pow_pos n)
    _ ≤ 2 ^ 8 * 2 ^ 24 := Nat.mul_le_mul_left _ (Nat.pow_le_pow_right (by decide) hn)

theorem toBitVec_loadWord (b0 b1 b2 b3 : Byte) :
    ((b0.toUInt32 <<< 24) ||| (b1.toUInt32 <<< 16) ||| (b2.toUInt32 <<< 8) |||
        b3.toUInt32).toBitVec =
      b0.toBitVec ++ b1.toBitVec ++ b2.toBitVec ++ b3.toBitVec := by
  have happend : ∀ x0 x1 x2 x3 : BitVec 8,
      (x0 ++ x1 ++ x2 ++ x3 : BitVec (8 + 8 + 8 + 8)).toNat =
        x0.toNat <<< 24 ||| x1.toNat <<< 16 ||| x2.toNat <<< 8 ||| x3.toNat := by
    intro x0 x1 x2 x3
    rw [BitVec.toNat_append, BitVec.toNat_append, BitVec.toNat_append]
    simp only [Nat.shiftLeft_or_distrib, ← Nat.shiftLeft_add]
  apply BitVec.eq_of_toNat_eq
  refine Eq.trans ?_ (happend b0.toBitVec b1.toBitVec b2.toBitVec b3.toBitVec).symm
  simp only [UInt32.toBitVec_or, BitVec.toNat_or, UInt32.toNat_toBitVec, UInt32.toNat_shiftLeft,
    UInt8.toNat_toUInt32, UInt8.toNat_toBitVec]
  show b0.toNat <<< 24 % 2 ^ 32 ||| b1.toNat <<< 16 % 2 ^ 32 ||| b2.toNat <<< 8 % 2 ^ 32 ||| _ = _
  rw [shiftLeft_mod b0.toNat_lt (by decide), shiftLeft_mod b1.toNat_lt (by decide),
    shiftLeft_mod b2.toNat_lt (by decide)]

/-! ## Constants -/

/-- The first 64 primes. -/
def primes : List ℕ :=
  [2, 3, 5, 7, 11, 13, 17, 19, 23, 29, 31, 37, 41, 43, 47, 53, 59, 61, 67, 71, 73, 79, 83, 89, 97,
   101, 103, 107, 109, 113, 127, 131, 137, 139, 149, 151, 157, 163, 167, 173, 179, 181, 191, 193,
   197, 199, 211, 223, 227, 229, 233, 239, 241, 251, 257, 263, 269, 271, 277, 281, 283, 293, 307,
   311]

/-- Trial division, which decides below `18 ^ 2`. -/
def passesTrialDivision (n : ℕ) : Bool :=
  2 ≤ n && (List.range 18).all fun m => m < 2 || n < m * m || n % m != 0

theorem passesTrialDivision_iff {n : ℕ} (h : n < 18 ^ 2) :
    passesTrialDivision n = true ↔ Nat.Prime n := by
  have hsqrt : Nat.sqrt n < 18 := Nat.sqrt_lt'.mpr h
  rw [Nat.prime_def_le_sqrt, passesTrialDivision]
  simp only [Bool.and_eq_true, decide_eq_true_eq, List.all_eq_true, List.mem_range,
    Bool.or_eq_true, bne_iff_ne, Nat.dvd_iff_mod_eq_zero]
  refine and_congr_right fun _ => ⟨?_, ?_⟩
  · intro hall m hm hle
    have hsq := Nat.le_sqrt.mp hle
    have hdiv := hall m (by omega)
    omega
  · intro hall m hm
    by_cases hm2 : m < 2
    · exact Or.inl (Or.inl hm2)
    by_cases hlt : n < m * m
    · exact Or.inl (Or.inr hlt)
    · exact Or.inr (hall m (by omega) (Nat.le_sqrt.mpr (by omega)))

/-- The list is the primes in order: each is one, with as many before it as its place says. -/
theorem nth_prime {t : ℕ} (h : t < 64) : Nat.nth Nat.Prime t = primes.getD t 0 := by
  have hall : ∀ t : Fin 64, passesTrialDivision (primes.getD t 0) = true ∧
      Nat.count (fun n => passesTrialDivision n = true) (primes.getD t 0) = t ∧
        primes.getD t 0 < 18 ^ 2 := by decide +kernel
  obtain ⟨hpasses, hcount, hlt⟩ := hall ⟨t, h⟩
  have hcount' : Nat.count Nat.Prime (primes.getD t 0) = t := by
    rw [Nat.count_eq_card_filter_range] at hcount ⊢
    refine Eq.trans ?_ hcount
    refine congrArg Finset.card (Finset.filter_congr fun n hn => ?_)
    exact (passesTrialDivision_iff ((Finset.mem_range.mp hn).trans hlt)).symm
  have hnth := Nat.nth_count ((passesTrialDivision_iff hlt).mp hpasses)
  rwa [hcount'] at hnth

/-- The table of `minisha256.c` holds the round constants. -/
theorem toBitVec_k {t : ℕ} (h : t < 64) : (k.getD t 0).toBitVec = K t := by
  have hall : ∀ t : Fin 64, (k.getD t 0).toBitVec = rootBits 3 (primes.getD t 0) := by
    decide +kernel
  rw [K, nth_prime h]
  exact hall ⟨t, h⟩

/-! ## The transformation of a block -/

/-- `ctx->state`, as a hash value. -/
def toHash (s : Vector UInt32 8) : Hash :=
  ⟨(s.get 0).toBitVec, (s.get 1).toBitVec, (s.get 2).toBitVec, (s.get 3).toBitVec,
    (s.get 4).toBitVec, (s.get 5).toBitVec, (s.get 6).toBitVec, (s.get 7).toBitVec⟩

/-- `SHA256_Init` starts from the initial hash value. -/
theorem toHash_sha256Init (data : Vector Byte 64) : toHash (sha256Init data).state = initial := by
  have hroots : toHash (sha256Init (Vector.replicate 64 0)).state =
      ⟨rootBits 2 2, rootBits 2 3, rootBits 2 5, rootBits 2 7, rootBits 2 11, rootBits 2 13,
        rootBits 2 17, rootBits 2 19⟩ := by
    refine Hash.ext ?_ ?_ ?_ ?_ ?_ ?_ ?_ ?_
    all_goals decide +kernel
  refine Eq.trans hroots ?_
  rw [initial]
  simp only [nth_prime (by decide : 0 < 64), nth_prime (by decide : 1 < 64),
    nth_prime (by decide : 2 < 64), nth_prime (by decide : 3 < 64), nth_prime (by decide : 4 < 64),
    nth_prime (by decide : 5 < 64), nth_prime (by decide : 6 < 64), nth_prime (by decide : 7 < 64)]
  rfl

/-- The first loop loads the words of the block. -/
theorem loadWords_spec (n : ℕ) {block : Bytes} (h : block.length = 4 * n) :
    (loadWords block).length = n ∧
      ∀ t < n, ((loadWords block).getD t 0).toBitVec = word block t := by
  induction n generalizing block with
  | zero =>
    obtain rfl := List.length_eq_zero_iff.mp h
    exact ⟨rfl, fun t ht => absurd ht (Nat.not_lt_zero t)⟩
  | succ n ih =>
    obtain ⟨b0, b1, b2, b3, rest, rfl⟩ :
        ∃ b0 b1 b2 b3 rest, block = b0 :: b1 :: b2 :: b3 :: rest := by
      match block, h with
      | b0 :: b1 :: b2 :: b3 :: rest, _ => exact ⟨b0, b1, b2, b3, rest, rfl⟩
    have hrest : rest.length = 4 * n := by
      simp only [List.length_cons] at h
      omega
    obtain ⟨hlen, hwords⟩ := ih hrest
    refine ⟨congrArg (· + 1) hlen, fun t ht => ?_⟩
    cases t with
    | zero => exact toBitVec_loadWord b0 b1 b2 b3
    | succ t => exact hwords t (by omega)

/-- The second loop extends them to the message schedule. -/
theorem extendWords_spec {block : Bytes} (n : ℕ) {m : List UInt32} (hlen : 16 ≤ m.length)
    (hm : ∀ t < m.length, (m.getD t 0).toBitVec = schedule block t) :
    (extendWords n m).length = m.length + n ∧
      ∀ t < m.length + n, ((extendWords n m).getD t 0).toBitVec = schedule block t := by
  induction n generalizing m with
  | zero => exact ⟨rfl, hm⟩
  | succ n ih =>
    have hnext : (nextWord m).toBitVec = schedule block m.length := by
      rw [schedule_of_ge hlen, ← hm _ (by omega), ← hm _ (by omega), ← hm _ (by omega),
        ← hm _ (by omega)]
      rfl
    have hlen' : (m ++ [nextWord m]).length = m.length + 1 := by
      rw [List.length_append, List.length_singleton]
    have hm' : ∀ t < (m ++ [nextWord m]).length,
        ((m ++ [nextWord m]).getD t 0).toBitVec = schedule block t := by
      intro t ht
      by_cases hlast : t < m.length
      · rw [List.getD_append _ _ _ _ hlast]
        exact hm t hlast
      · obtain rfl : t = m.length := by omega
        rw [List.getD_append_right _ _ _ _ le_rfl, Nat.sub_self]
        exact hnext
    obtain ⟨hlength, hwords⟩ := ih (by omega) hm'
    rw [hlen'] at hlength hwords
    rw [Nat.add_right_comm] at hlength hwords
    exact ⟨hlength, hwords⟩

/-- The working variables, as a hash value. -/
def Working.toHash (w : Working) : Hash :=
  ⟨w.a.toBitVec, w.b.toBitVec, w.c.toBitVec, w.d.toBitVec, w.e.toBitVec, w.f.toBitVec,
    w.g.toBitVec, w.h.toBitVec⟩

/-- One iteration of the third loop is a step. -/
theorem toHash_round {block : Bytes} {t : ℕ} {ki mi : UInt32} (hk : ki.toBitVec = K t)
    (hm : mi.toBitVec = schedule block t) (w : Working) :
    (round w ki mi).toHash = step block w.toHash t := by
  rw [step, ← hk, ← hm]
  rfl

theorem rounds_map (ts : List ℕ) (ks ms : ℕ → UInt32) (w : Working) :
    rounds (ts.map ks) (ts.map ms) w = ts.foldl (fun w t => round w (ks t) (ms t)) w := by
  induction ts generalizing w with
  | nil => rfl
  | cons t ts ih => exact ih _

/-- The third loop is the steps of the schedule. -/
theorem toHash_rounds {block : Bytes} {ts : List ℕ} (ks ms : ℕ → UInt32)
    (h : ∀ t ∈ ts, (ks t).toBitVec = K t ∧ (ms t).toBitVec = schedule block t) (w : Working) :
    (rounds (ts.map ks) (ts.map ms) w).toHash = ts.foldl (step block) w.toHash := by
  rw [rounds_map]
  induction ts generalizing w with
  | nil => rfl
  | cons t ts ih =>
    obtain ⟨⟨hk, hm⟩, hrest⟩ := List.forall_mem_cons.mp h
    rw [List.foldl_cons, List.foldl_cons, ← toHash_round hk hm, ih hrest]

theorem map_getD_range (l : List UInt32) {n : ℕ} (h : l.length = n) :
    (List.range n).map (fun t => l.getD t 0) = l := by
  refine List.ext_getElem (by simp [h]) fun t _ ht => ?_
  rw [List.getElem_map, List.getElem_range, List.getD_eq_getElem _ _ ht]

/-- The words of the schedule. -/
theorem messageSchedule_spec (data : Vector Byte 64) :
    (extendWords 48 (loadWords data.toList)).length = 64 ∧ ∀ t < 64,
      ((extendWords 48 (loadWords data.toList)).getD t 0).toBitVec = schedule data.toList t := by
  obtain ⟨hlen, hwords⟩ := loadWords_spec 16 data.length_toList
  have hfirst : ∀ t < (loadWords data.toList).length,
      ((loadWords data.toList).getD t 0).toBitVec = schedule data.toList t := by
    intro t ht
    rw [schedule_of_lt (by omega)]
    exact hwords t (by omega)
  have hspec := extendWords_spec 48 hlen.ge hfirst
  rwa [hlen] at hspec

theorem toHash_add (s : Vector UInt32 8) (w : Working) :
    toHash #v[s.get 0 + w.a, s.get 1 + w.b, s.get 2 + w.c, s.get 3 + w.d, s.get 4 + w.e,
      s.get 5 + w.f, s.get 6 + w.g, s.get 7 + w.h] = (toHash s).add w.toHash := rfl

/-- **`sha256_transform` is the compression function.** -/
theorem toHash_sha256Transform (s : Vector UInt32 8) (data : Vector Byte 64) :
    toHash (sha256Transform s data) = compress (toHash s) data.toList := by
  obtain ⟨hlen, hwords⟩ := messageSchedule_spec data
  have hrounds := toHash_rounds (fun t => k.getD t 0)
    (fun t => (extendWords 48 (loadWords data.toList)).getD t 0)
    (fun t ht => ⟨toBitVec_k (List.mem_range.mp ht), hwords t (List.mem_range.mp ht)⟩)
    ⟨s[0], s[1], s[2], s[3], s[4], s[5], s[6], s[7]⟩
  have hk : k.length = 64 := by decide
  rw [map_getD_range k hk, map_getD_range _ hlen] at hrounds
  unfold sha256Transform
  extract_lets m w
  rw [compress]
  exact (toHash_add s _).trans (congrArg (toHash s).add hrounds)

/-! ## The context -/

/-- The context has taken `n` whole blocks `front`, and holds what comes behind them. -/
structure Holds (ctx : Sha256Ctx) (n : ℕ) (front rest : Bytes) : Prop where
  front_length : front.length = 64 * n
  rest_length : rest.length = ctx.datalen
  state_eq : toHash ctx.state = hashBlocks initial front
  data_eq : ctx.data.toList.take ctx.datalen = rest
  bitlen_eq : ctx.bitlen = UInt64.ofNat (512 * n)

theorem holds_sha256Init (data : Vector Byte 64) : Holds (sha256Init data) 0 [] [] where
  front_length := rfl
  rest_length := rfl
  state_eq := (toHash_sha256Init data).trans (hashBlocks_nil initial).symm
  data_eq := List.take_zero
  bitlen_eq := rfl

/-- What is written at the end of a buffer stands behind what it holds. -/
theorem take_set {data : Vector Byte 64} {i : ℕ} (h : i < 64) (b : Byte) :
    (data.set i b h).toList.take (i + 1) = data.toList.take i ++ [b] := by
  rw [Vector.toList_set, List.take_succ_eq_append_getElem (by simpa using h),
    List.take_set_of_le le_rfl, List.getElem_set_self]

/-- **One byte** either waits in the buffer or completes a block. -/
theorem Holds.updateByte {ctx : Sha256Ctx} {n : ℕ} {front rest : Bytes}
    (h : Holds ctx n front rest) (b : Byte) :
    Holds (updateByte ctx b) n front (rest ++ [b]) ∨
      Holds (updateByte ctx b) (n + 1) (front ++ (rest ++ [b])) [] := by
  have hlt := ctx.datalen_lt
  have hrest : (rest ++ [b]).length = ctx.datalen + 1 := by
    rw [List.length_append, List.length_singleton, h.rest_length]
  have hdata : (ctx.data.set ctx.datalen b hlt).toList.take (ctx.datalen + 1) = rest ++ [b] := by
    rw [take_set, h.data_eq]
  unfold Sha.updateByte
  by_cases hfull : ctx.datalen + 1 = 64
  · right
    rw [dif_pos hfull]
    have hblock : (ctx.data.set ctx.datalen b hlt).toList = rest ++ [b] := by
      rw [← hdata, hfull, List.take_of_length_le (by simp)]
    refine ⟨?_, rfl, ?_, List.take_zero, ?_⟩
    · rw [List.length_append, h.front_length, hrest]
      omega
    · rw [toHash_sha256Transform, h.state_eq, hblock,
        hashBlocks_append_block h.front_length (hrest.trans hfull)]
    · show ctx.bitlen + 512 = _
      rw [h.bitlen_eq, Nat.mul_succ, UInt64.ofNat_add]
      rfl
  · left
    rw [dif_neg hfull]
    exact ⟨h.front_length, hrest, h.state_eq, hdata, h.bitlen_eq⟩

/-- **Every run of bytes** keeps the context what the message makes it. -/
theorem holds_sha256Update {ctx : Sha256Ctx} {n : ℕ} {front rest : Bytes}
    (h : Holds ctx n front rest) (buf : Bytes) :
    ∃ n' front' rest', Holds (sha256Update ctx buf) n' front' rest' ∧
      front' ++ rest' = front ++ rest ++ buf := by
  induction buf generalizing ctx n front rest with
  | nil => exact ⟨n, front, rest, h, (List.append_nil _).symm⟩
  | cons b buf ih =>
    rcases h.updateByte b with hnext | hnext
    · obtain ⟨n', front', rest', hholds, heq⟩ := ih hnext
      refine ⟨n', front', rest', hholds, heq.trans ?_⟩
      simp only [List.append_assoc, List.singleton_append]
    · obtain ⟨n', front', rest', hholds, heq⟩ := ih hnext
      refine ⟨n', front', rest', hholds, heq.trans ?_⟩
      simp only [List.append_assoc, List.singleton_append]

/-- However the message is fed, the context is what it makes it. -/
theorem holds_chunks (data : Vector Byte 64) (chunks : List Bytes) :
    ∃ n front rest, Holds (chunks.foldl sha256Update (sha256Init data)) n front rest ∧
      front ++ rest = chunks.flatten := by
  have hall : ∀ ctx n front rest, Holds ctx n front rest → ∃ n' front' rest',
      Holds (chunks.foldl sha256Update ctx) n' front' rest' ∧
        front' ++ rest' = front ++ rest ++ chunks.flatten := by
    induction chunks with
    | nil => exact fun ctx n front rest h => ⟨n, front, rest, h, (List.append_nil _).symm⟩
    | cons chunk chunks ih =>
      intro ctx n front rest h
      obtain ⟨n₁, front₁, rest₁, h₁, heq₁⟩ := holds_sha256Update h chunk
      obtain ⟨n₂, front₂, rest₂, h₂, heq₂⟩ := ih _ _ _ _ h₁
      refine ⟨n₂, front₂, rest₂, h₂, ?_⟩
      rw [heq₂, heq₁, List.flatten_cons, List.append_assoc]
  exact hall _ _ _ _ (holds_sha256Init data)

/-- The two counters, from the length of the message. -/
theorem Holds.counters {ctx : Sha256Ctx} {n : ℕ} {front rest : Bytes} (h : Holds ctx n front rest)
    (hlen : (front ++ rest).length < 2 ^ 61) : ctx.datalen = (front ++ rest).length % 64 ∧
      ctx.bitlen.toNat = 512 * ((front ++ rest).length / 64) := by
  have hlt := ctx.datalen_lt
  have hfront := h.front_length
  have hrest := h.rest_length
  rw [List.length_append] at hlen ⊢
  constructor
  · omega
  · rw [h.bitlen_eq, UInt64.toNat_ofNat_of_lt' (by show 512 * n < 2 ^ 64; omega)]
    omega

/-! ## Padding -/

/-- Filling with zeros keeps what stands in front. -/
theorem take_zeroFill {data : Vector Byte 64} {i n : ℕ} (hin : i ≤ n) (hn : n ≤ 64) :
    (zeroFill data i n).toList.take n = data.toList.take i ++ List.replicate (n - i) 0 := by
  have hlen : (zeroFill data i n).toList.length = 64 := Vector.length_toList
  have hlen' : data.toList.length = 64 := Vector.length_toList
  refine List.ext_getElem ?_ fun j hj hj' => ?_
  · rw [List.length_take, List.length_append, List.length_take, List.length_replicate]
    omega
  · have hjn : j < n := by
      rw [List.length_take] at hj
      omega
    have hblock : j < 64 := by omega
    have hfill : (zeroFill data i n)[j] = if i ≤ j ∧ j < n then 0 else data[j] :=
      Vector.getElem_ofFn _
    rw [List.getElem_take, Vector.getElem_toList, hfill]
    by_cases hji : j < i
    · have hfront : j < (data.toList.take i).length := by
        rw [List.length_take]
        omega
      have hkeep : ¬ (i ≤ j ∧ j < n) := by omega
      rw [if_neg hkeep, List.getElem_append_left hfront, List.getElem_take, Vector.getElem_toList]
    · have hback : (data.toList.take i).length ≤ j := by
        rw [List.length_take]
        omega
      have hzero : i ≤ j ∧ j < n := by omega
      rw [if_pos hzero, List.getElem_append_right hback, List.getElem_replicate]

/-- The length goes behind the first 56 bytes. -/
theorem toList_putLength (data : Vector Byte 64) (bitlen : UInt64) :
    (putLength data bitlen).toList = data.toList.take 56 ++
      [(bitlen >>> 56).toUInt8, (bitlen >>> 48).toUInt8, (bitlen >>> 40).toUInt8,
        (bitlen >>> 32).toUInt8, (bitlen >>> 24).toUInt8, (bitlen >>> 16).toUInt8,
        (bitlen >>> 8).toUInt8, bitlen.toUInt8] := by
  have hlen : data.toList.length = 64 := Vector.length_toList
  have hfront : (data.toList.take 56).length = 56 := by
    rw [List.length_take]
    omega
  obtain ⟨x0, x1, x2, x3, x4, x5, x6, x7, hback⟩ : ∃ x0 x1 x2 x3 x4 x5 x6 x7,
      data.toList.drop 56 = [x0, x1, x2, x3, x4, x5, x6, x7] := by
    have hdrop : (data.toList.drop 56).length = 8 := by
      rw [List.length_drop]
      omega
    match data.toList.drop 56, hdrop with
    | [x0, x1, x2, x3, x4, x5, x6, x7], _ => exact ⟨x0, x1, x2, x3, x4, x5, x6, x7, rfl⟩
  have hdata := List.take_append_drop 56 data.toList
  rw [hback] at hdata
  simp only [putLength, Vector.toList_set]
  rw [← hdata]
  simp [hfront]

/-- A byte of the length. -/
theorem toUInt8_shiftRight (bitlen : UInt64) {n : ℕ} (hn : n < 64) :
    (bitlen >>> UInt64.ofNat n).toUInt8 = UInt8.ofNat (bitlen.toNat / 2 ^ n) := by
  have hmod : (UInt64.ofNat n).toNat % 64 = n := by
    rw [UInt64.toNat_ofNat_of_lt' (by show n < 2 ^ 64; omega), Nat.mod_eq_of_lt hn]
  apply UInt8.toNat_inj.mp
  rw [UInt64.toNat_toUInt8, UInt64.toNat_shiftRight, hmod, Nat.shiftRight_eq_div_pow,
    UInt8.toNat_ofNat']

/-- The eight bytes are the length of the message. -/
theorem lengthBytes_eq {bitlen : UInt64} {length : ℕ} (h : bitlen.toNat = 8 * length) :
    [(bitlen >>> 56).toUInt8, (bitlen >>> 48).toUInt8, (bitlen >>> 40).toUInt8,
        (bitlen >>> 32).toUInt8, (bitlen >>> 24).toUInt8, (bitlen >>> 16).toUInt8,
        (bitlen >>> 8).toUInt8, bitlen.toUInt8] = lengthBytes length := by
  have hbytes : lengthBytes length = [56, 48, 40, 32, 24, 16, 8, 0].map fun n =>
      UInt8.ofNat (bitlen.toNat / 2 ^ n) := by
    rw [lengthBytes, h]
    rfl
  have hshift : ∀ n ∈ [56, 48, 40, 32, 24, 16, 8, 0],
      UInt8.ofNat (bitlen.toNat / 2 ^ n) = (bitlen >>> UInt64.ofNat n).toUInt8 := by
    intro n hn
    have hlt : n < 64 := by
      have hall : ∀ n ∈ [56, 48, 40, 32, 24, 16, 8, 0], n < 64 := by decide
      exact hall n hn
    exact (toUInt8_shiftRight bitlen hlt).symm
  rw [hbytes, List.map_congr_left hshift]
  have hzero : bitlen >>> UInt64.ofNat 0 = bitlen := by simp
  simp only [List.map_cons, List.map_nil, hzero]
  rfl

/-! ## The digest -/

theorem wordBytes_eq (w : UInt32) : wordBytes w = Fips180.wordBytes w.toBitVec := rfl

theorem words_toHash (s : Vector UInt32 8) : (toHash s).words = s.toList.map UInt32.toBitVec := by
  refine List.ext_getElem (by simp [Hash.words]) fun i hi hi' => ?_
  rw [List.getElem_map, Vector.getElem_toList]
  have hlt : i < 8 := hi
  match i, hlt with
  | 0, _ | 1, _ | 2, _ | 3, _ | 4, _ | 5, _ | 6, _ | 7, _ => rfl

theorem flatMap_wordBytes (s : Vector UInt32 8) :
    s.toList.flatMap wordBytes = (toHash s).words.flatMap Fips180.wordBytes := by
  rw [words_toHash, List.flatMap_map]
  exact List.flatMap_congr fun w _ => wordBytes_eq w

/-- The digest, where the mark, the zeros and the length fit into the block. -/
theorem sha256Final_short {ctx : Sha256Ctx} (h : ctx.datalen < 56) :
    sha256Final ctx =
      (sha256Transform ctx.state (putLength
        (zeroFill (ctx.data.set ctx.datalen 0x80 ctx.datalen_lt) (ctx.datalen + 1) 56)
        (ctx.bitlen + ctx.datalen.toUInt64 * 8))).toList.flatMap wordBytes := by
  simp only [sha256Final, if_pos h]

/-- The digest, where the mark ends one block and the length another. -/
theorem sha256Final_long {ctx : Sha256Ctx} (h : ¬ ctx.datalen < 56) :
    sha256Final ctx =
      (sha256Transform
        (sha256Transform ctx.state
          (zeroFill (ctx.data.set ctx.datalen 0x80 ctx.datalen_lt) (ctx.datalen + 1) 64))
        (putLength
          (zeroFill
            (zeroFill (ctx.data.set ctx.datalen 0x80 ctx.datalen_lt) (ctx.datalen + 1) 64) 0 56)
          (ctx.bitlen + ctx.datalen.toUInt64 * 8))).toList.flatMap wordBytes := by
  simp only [sha256Final, if_neg h]

section Final

variable {ctx : Sha256Ctx} {n : ℕ} {front rest : Bytes} (h : Holds ctx n front rest)
include h

/-- The buffer behind the mark. -/
theorem Holds.marked :
    (ctx.data.set ctx.datalen 0x80 ctx.datalen_lt).toList.take (ctx.datalen + 1) =
      rest ++ [0x80] := by
  rw [take_set, h.data_eq]

/-- The length that is appended. -/
theorem Holds.bitlen_final (hlen : (front ++ rest).length < 2 ^ 61) :
    (ctx.bitlen + ctx.datalen.toUInt64 * 8).toNat = 8 * (front ++ rest).length := by
  have hlt := ctx.datalen_lt
  have hfront := h.front_length
  have hrest := h.rest_length
  obtain ⟨-, hbitlen⟩ := h.counters hlen
  rw [List.length_append] at hlen hbitlen ⊢
  have hdatalen : ctx.datalen.toUInt64.toNat = ctx.datalen :=
    UInt64.toNat_ofNat_of_lt' (by show ctx.datalen < 2 ^ 64; omega)
  have height : (8 : UInt64).toNat = 8 := rfl
  rw [UInt64.toNat_add, UInt64.toNat_mul, hdatalen, hbitlen, height]
  omega

/-- The last block of a message whose rest is short. -/
theorem Holds.pad_short (hshort : ctx.datalen < 56) : pad (front ++ rest) =
    front ++ (rest ++ [0x80] ++ List.replicate (56 - (ctx.datalen + 1)) 0 ++
      lengthBytes (front ++ rest).length) := by
  have hfront := h.front_length
  have hrest := h.rest_length
  have hzeros : zeroBytes (front ++ rest).length = 56 - (ctx.datalen + 1) := by
    rw [zeroBytes, List.length_append]
    omega
  rw [pad, hzeros]
  simp only [List.append_assoc, List.cons_append, List.nil_append]

/-- The last two blocks of a message whose rest is long. -/
theorem Holds.pad_long (hlong : ¬ ctx.datalen < 56) : pad (front ++ rest) =
    front ++ (rest ++ [0x80] ++ List.replicate (64 - (ctx.datalen + 1)) 0) ++
      (List.replicate 56 0 ++ lengthBytes (front ++ rest).length) := by
  have hlt := ctx.datalen_lt
  have hfront := h.front_length
  have hrest := h.rest_length
  have hzeros : zeroBytes (front ++ rest).length = 64 - (ctx.datalen + 1) + 56 := by
    rw [zeroBytes, List.length_append]
    omega
  rw [pad, hzeros, List.replicate_add]
  simp only [List.append_assoc, List.cons_append, List.nil_append]

/-- **The digest** is that of the message taken. -/
theorem Holds.sha256Final_eq (hlen : (front ++ rest).length < 2 ^ 61) :
    sha256Final ctx = sha256 (front ++ rest) := by
  have hlt := ctx.datalen_lt
  have hlength := lengthBytes_eq (h.bitlen_final hlen)
  have hlen8 := length_lengthBytes (front ++ rest).length
  rw [sha256]
  by_cases hshort : ctx.datalen < 56
  · rw [sha256Final_short hshort, flatMap_wordBytes, toHash_sha256Transform, toList_putLength,
      hlength, take_zeroFill (by omega) (by decide), h.marked, h.state_eq, h.pad_short hshort,
      hashBlocks_append_block h.front_length]
    rw [List.length_append, hlen8, List.length_append, List.length_append, List.length_replicate,
      h.rest_length, List.length_singleton]
    omega
  · have hfull : (zeroFill (ctx.data.set ctx.datalen 0x80 hlt) (ctx.datalen + 1) 64).toList =
        rest ++ [0x80] ++ List.replicate (64 - (ctx.datalen + 1)) 0 := by
      rw [← h.marked, ← take_zeroFill (by omega) le_rfl, List.take_of_length_le (by simp)]
    have hblock : (rest ++ [0x80] ++ List.replicate (64 - (ctx.datalen + 1)) 0).length = 64 :=
      hfull ▸ Vector.length_toList
    have hfront : (front ++ (rest ++ [0x80] ++
        List.replicate (64 - (ctx.datalen + 1)) 0)).length = 64 * (n + 1) := by
      rw [List.length_append, h.front_length, hblock]
      omega
    rw [sha256Final_long hshort, flatMap_wordBytes, toHash_sha256Transform, toList_putLength,
      hlength, take_zeroFill (by decide) (by decide), List.take_zero, List.nil_append,
      toHash_sha256Transform, h.state_eq, hfull, h.pad_long hshort, hashBlocks_append_block hfront,
      hashBlocks_append_block h.front_length hblock]
    rw [List.length_append, List.length_replicate, hlen8]

end Final

/-! ## Every message, however it is fed -/

/-- The context behind some chunks of a message: a byte of the block is free, and the bits of the
whole blocks are counted. -/
structure CountsBlocks (ctx : Sha256Ctx) (taken : Bytes) : Prop where
  datalen_lt : ctx.datalen < 64
  datalen_eq : ctx.datalen = taken.length % 64
  bitlen_eq : ctx.bitlen.toNat = 512 * (taken.length / 64)

/-- What `sha256_buf` writes for a digest: its 64 lower-case hexadecimal digits. -/
structure WritesHex (digest text : Bytes) : Prop where
  text_eq : text = digest.flatMap hexByte
  length_eq : text.length = 64
  lowercase : ∀ c ∈ text, c ∈ bytes "0123456789abcdef"

/-- **SHA-256 is computed correctly**, of every message and for every way of feeding it, whatever
the buffer held before. -/
theorem sha256_correct (data : Vector Byte 64) (chunks : List Bytes)
    (hlen : chunks.flatten.length < 2 ^ 61) :
    (∀ fed left, chunks = fed ++ left →
        CountsBlocks (fed.foldl sha256Update (sha256Init data)) fed.flatten) ∧
      sha256Final (chunks.foldl sha256Update (sha256Init data)) = sha256 chunks.flatten ∧
      WritesHex (sha256 chunks.flatten) (sha256Buf chunks.flatten) := by
  have hfinal : ∀ (data : Vector Byte 64) (chunks : List Bytes),
      chunks.flatten.length < 2 ^ 61 →
        sha256Final (chunks.foldl sha256Update (sha256Init data)) = sha256 chunks.flatten := by
    intro data chunks hlen
    obtain ⟨n, front, rest, hholds, heq⟩ := holds_chunks data chunks
    rw [← heq] at hlen ⊢
    exact hholds.sha256Final_eq hlen
  refine ⟨?_, hfinal data chunks hlen, ?_⟩
  · rintro fed left rfl
    obtain ⟨n, front, rest, hholds, heq⟩ := holds_chunks data fed
    have hfed : (front ++ rest).length < 2 ^ 61 := by
      rw [List.flatten_append, List.length_append] at hlen
      rw [heq]
      omega
    obtain ⟨hdatalen, hbitlen⟩ := hholds.counters hfed
    rw [heq] at hdatalen hbitlen
    exact ⟨Sha256Ctx.datalen_lt _, hdatalen, hbitlen⟩
  · have hone := hfinal (Vector.replicate 64 0) [chunks.flatten] (by simpa using hlen)
    rw [List.flatten_singleton] at hone
    refine ⟨?_, length_sha256Buf _, fun c hc => mem_sha256Buf hc⟩
    rw [← hone]
    rfl

/-- A message fed in two chunks. -/
theorem sha256_correct_abc :
    sha256Final ([bytes "a", bytes "bc"].foldl sha256Update (sha256Init (Vector.replicate 64 0))) =
      sha256 (bytes "abc") :=
  (sha256_correct (Vector.replicate 64 0) [bytes "a", bytes "bc"] (by decide)).2.1

end FcgiJwtAuth.Sha
