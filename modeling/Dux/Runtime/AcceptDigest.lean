import Dux.Logic.Base64
import Dux.Logic.SecureHash
import Dux.Runtime.AcceptKey

/-!
# The digest of a WebSocket handshake

`base64_encode` and `sha1_final` of `src/runtime/ws_rt.c` loop by loop, and what `ws_accept_key`
computes, against the standards for the digest and for the encoding.
-/

namespace Dux.Runtime.WebSocket

open Logic (ascii bigEndian shiftIn)
open Logic.SecureHash (Registers feed blocks rotl zeroBytes)

/-! ## The loops -/

/-- The loop of `base64_encode`: what is read behind the end is zero. -/
def base64Loop : Bytes → Bytes
  | [] => []
  | a :: rest =>
      let b := rest.headD 0
      let c := (rest.drop 1).headD 0
      b64 (a >>> 2) :: b64 ((a &&& 3) <<< 4 ||| b >>> 4) :: b64 ((b &&& 0xF) <<< 2 ||| c >>> 6) ::
        b64 (c &&& 0x3F) :: base64Loop (rest.drop 2)
termination_by input => input.length
decreasing_by
  rw [List.length_drop, List.length_cons]
  omega

/-- The padding of `base64_encode`: the last characters are written over. -/
def base64Pad (len : Nat) (out : Bytes) : Bytes :=
  if len % 3 = 1 then (out.set (out.length - 2) 0x3d).set (out.length - 1) 0x3d
  else if len % 3 = 2 then out.set (out.length - 1) 0x3d
  else out

/-- `base64_encode`: what it writes, with the terminator. -/
def base64EncodeOut (input : Bytes) : Bytes := base64Pad input.length (base64Loop input) ++ [0]

/-- The loop of `sha1_final` that adds zeros. -/
def zeroLoop : Nat → Sha1 → Option Sha1
  | 0, _ => none
  | fuel + 1, s => if s.buf.length = 56 then some s else zeroLoop fuel (sha1Update s [0])

/-- `sha1_final`; `none` when it does not return.  The buffer is filled at most once. -/
def sha1FinalOut (s : Sha1) : Option Bytes := do
  let bitlen := s.len * 8
  let s := sha1Update s [0x80]
  let s ← zeroLoop 65 s
  let s := sha1Update s (bigEndian 8 bitlen.toNat)
  return [s.h.a, s.h.b, s.h.c, s.h.d, s.h.e].flatMap fun h => bigEndian 4 h.toNat

/-- `ws_accept_key`: what it writes into its buffer. -/
def wsAcceptKeyOut (clientKey : Bytes) : Option Bytes := do
  let s := sha1Update sha1Init clientKey
  let s := sha1Update s (ascii "258EAFA5-E914-47DA-95CA-C5AB0DC85B11")
  let digest ← sha1FinalOut s
  return base64EncodeOut digest

/-! ## Base 64 -/

section Base64

theorem base64Pad_append (front : Bytes) {len : Nat} {out : Bytes}
    (group : len % 3 = 0 ∨ 2 ≤ out.length) :
    base64Pad len (front ++ out) = front ++ base64Pad len out := by
  have total : (front ++ out).length = front.length + out.length := List.length_append
  have atEnd (text : Bytes) (k : Nat) (fits : k ≤ out.length) :
      (front ++ text).set ((front ++ out).length - k) 0x3d =
        front ++ text.set (out.length - k) 0x3d := by
    rw [total, Nat.add_sub_assoc fits, List.set_append_right _ _ (Nat.le_add_right _ _),
      Nat.add_sub_cancel_left]
  rw [base64Pad, base64Pad]
  split
  · rw [atEnd out 2 (by omega), atEnd _ 1 (by omega)]
  · split
    · exact atEnd out 1 (by omega)
    · rfl

theorem length_base64Loop (input : Bytes) : input = [] ∨ 4 ≤ (base64Loop input).length := by
  cases input with
  | nil => exact .inl rfl
  | cons a rest =>
    right
    rw [base64Loop]
    simp only [List.length_cons]
    omega

theorem base64EncodeOut_eq (input : Bytes) : base64EncodeOut input = base64Encode input ++ [0] := by
  rw [base64EncodeOut]
  congr 1
  induction input using base64Encode.induct with
  | case1 => simp [base64Loop, base64Pad, base64Encode]
  | case2 a => simp [base64Loop, base64Pad, base64Encode]
  | case3 a b => simp [base64Loop, base64Pad, base64Encode]
  | case4 a b c rest ih =>
    have group : (a :: b :: c :: rest).length % 3 = rest.length % 3 := by
      simp only [List.length_cons]
      omega
    have padded (out : Bytes) : base64Pad (a :: b :: c :: rest).length out =
        base64Pad rest.length out := by
      rw [base64Pad, base64Pad, group]
    have some : rest.length % 3 = 0 ∨ 2 ≤ (base64Loop rest).length := by
      rcases length_base64Loop rest with rfl | long
      · exact .inl rfl
      · right
        omega
    rw [padded, base64Loop, base64Encode, ← ih]
    exact base64Pad_append [_, _, _, _] some

theorem b64_eq {i : UInt8} {n place : Nat} (same : i.toNat = n / 64 ^ place % 64) :
    b64 i = Logic.Base64.character n place := by
  have inside : n / 64 ^ place % 64 < b64Table.length := Nat.mod_lt _ (by decide)
  have sameTable : Logic.Base64.alphabet = b64Table := rfl
  rw [b64, Logic.Base64.character, sameTable, same, List.getD_eq_getElem _ _ inside,
    List.getD_eq_getElem _ _ inside]

theorem toNat_shiftLeft_or {x y : UInt8} (k : Nat) (below : k < 8) (fits : x.toNat * 2 ^ k < 256)
    (low : y.toNat < 2 ^ k) : (x <<< UInt8.ofNat k ||| y).toNat = x.toNat * 2 ^ k + y.toNat := by
  have shift : (UInt8.ofNat k).toNat % 8 = k := by
    rw [UInt8.toNat_ofNat']
    omega
  rw [UInt8.toNat_or, UInt8.toNat_shiftLeft, shift, Nat.shiftLeft_eq, Nat.mod_eq_of_lt fits,
    ← Nat.shiftLeft_eq, Nat.shiftLeft_add_eq_or_of_lt low]

theorem toNat_and_low (x : UInt8) {mask : UInt8} (k : Nat) (isMask : mask.toNat = 2 ^ k - 1) :
    (x &&& mask).toNat = x.toNat % 2 ^ k := by
  rw [UInt8.toNat_and, isMask, Nat.and_two_pow_sub_one_eq_mod]

theorem toNat_shiftRight {x amount : UInt8} {k : Nat} (isAmount : amount.toNat % 8 = k) :
    (x >>> amount).toNat = x.toNat / 2 ^ k := by
  rw [UInt8.toNat_shiftRight, isAmount, Nat.shiftRight_eq_div_pow]

theorem b64_digits (a b c : UInt8) {n : Nat}
    (isNumber : n = a.toNat * 65536 + b.toNat * 256 + c.toNat) :
    b64 (a >>> 2) = Logic.Base64.character n 3 ∧
      b64 ((a &&& 3) <<< 4 ||| b >>> 4) = Logic.Base64.character n 2 ∧
      b64 ((b &&& 0xF) <<< 2 ||| c >>> 6) = Logic.Base64.character n 1 ∧
      b64 (c &&& 0x3F) = Logic.Base64.character n 0 := by
  have boundA := a.toNat_lt
  have boundB := b.toNat_lt
  have boundC := c.toNat_lt
  have lowA : (a &&& 3).toNat = a.toNat % 4 := toNat_and_low a 2 rfl
  have lowB : (b &&& 0xF).toNat = b.toNat % 16 := toNat_and_low b 4 rfl
  have lowC : (c &&& 0x3F).toNat = c.toNat % 64 := toNat_and_low c 6 rfl
  have highA : (a >>> 2).toNat = a.toNat / 4 := toNat_shiftRight rfl
  have highB : (b >>> 4).toNat = b.toNat / 16 := toNat_shiftRight rfl
  have highC : (c >>> 6).toNat = c.toNat / 64 := toNat_shiftRight rfl
  have second := toNat_shiftLeft_or 4 (by decide) (x := a &&& 3) (y := b >>> 4) (by omega) (by omega)
  have third := toNat_shiftLeft_or 2 (by decide) (x := b &&& 0xF) (y := c >>> 6) (by omega)
    (by omega)
  refine ⟨b64_eq ?_, b64_eq ?_, b64_eq ?_, b64_eq ?_⟩
  · omega
  · refine second.trans ?_
    omega
  · refine third.trans ?_
    omega
  · omega

theorem base64Encode_eq (input : Bytes) : base64Encode input = Logic.Base64.encode input := by
  induction input using base64Encode.induct with
  | case1 => rfl
  | case2 a =>
    rcases b64_digits a 0 0 rfl with ⟨first, second, -, -⟩
    have low : (0 : UInt8).toNat = 0 := rfl
    simp only [low, Nat.zero_mul, Nat.add_zero, UInt8.zero_shiftRight, UInt8.or_zero]
      at first second
    rw [base64Encode, Logic.Base64.encode, first, second]
    rfl
  | case3 a b =>
    rcases b64_digits a b 0 rfl with ⟨first, second, third, -⟩
    have low : (0 : UInt8).toNat = 0 := rfl
    simp only [low, Nat.add_zero, UInt8.zero_shiftRight, UInt8.or_zero] at first second third
    rw [base64Encode, Logic.Base64.encode, first, second, third]
    rfl
  | case4 a b c rest ih =>
    rcases b64_digits a b c rfl with ⟨first, second, third, fourth⟩
    rw [base64Encode, Logic.Base64.encode, first, second, third, fourth, ih]

end Base64

/-! ## The block function -/

section Compress

/-- The words as registers of the standard. -/
def Words.registers (w : Words) : Registers := ⟨w.a, w.b, w.c, w.d, w.e⟩

theorem or_eq_choose (x y z : UInt32) :
    x &&& y ||| ~~~x &&& z = Logic.SecureHash.choose x y z := by
  rw [Logic.SecureHash.choose, ← UInt32.toBitVec_inj]
  ext i
  simp only [UInt32.toBitVec_or, UInt32.toBitVec_xor, UInt32.toBitVec_and, UInt32.toBitVec_not,
    BitVec.getElem_or, BitVec.getElem_xor, BitVec.getElem_and, BitVec.getElem_not]
  cases x.toBitVec[i] <;> simp

theorem or_eq_majority (x y z : UInt32) :
    x &&& y ||| x &&& z ||| y &&& z = Logic.SecureHash.majority x y z := by
  rw [Logic.SecureHash.majority, ← UInt32.toBitVec_inj]
  ext i
  simp only [UInt32.toBitVec_or, UInt32.toBitVec_xor, UInt32.toBitVec_and, BitVec.getElem_or,
    BitVec.getElem_xor, BitVec.getElem_and]
  cases x.toBitVec[i] <;> cases y.toBitVec[i] <;> simp

theorem sha1Mix_eq (s : Words) (t : Nat) :
    sha1Mix s t = Logic.SecureHash.mixer t s.b s.c s.d + Logic.SecureHash.constant t := by
  rw [sha1Mix, Logic.SecureHash.mixer, Logic.SecureHash.constant]
  split
  · rw [or_eq_choose]
  · split
    · rfl
    · split
      · rw [or_eq_majority]
      · rfl

theorem shifted_bytes (p q r s : UInt8) :
    p.toUInt32 <<< 24 ||| q.toUInt32 <<< 16 ||| r.toUInt32 <<< 8 ||| s.toUInt32 =
      UInt32.ofNat (shiftIn 0 [p, q, r, s]) := by
  have shifted (b : UInt8) (amount : UInt32) (k : Nat) (isAmount : amount.toNat % 32 = k)
      (low : k ≤ 24) : (b.toUInt32 <<< amount).toNat = b.toNat <<< k := by
    have bound := b.toNat_lt
    have small : b.toNat <<< k < 2 ^ 32 := by
      rw [Nat.shiftLeft_eq]
      calc b.toNat * 2 ^ k < 2 ^ 8 * 2 ^ k := Nat.mul_lt_mul_of_pos_right bound (by positivity)
        _ ≤ 2 ^ 8 * 2 ^ 24 := Nat.mul_le_mul_left _ (Nat.pow_le_pow_right (by decide) low)
        _ = 2 ^ 32 := rfl
    rw [UInt32.toNat_shiftLeft, isAmount, UInt8.toNat_toUInt32, Nat.mod_eq_of_lt small]
  have word : shiftIn 0 [p, q, r, s] =
      p.toNat <<< 24 ||| q.toNat <<< 16 ||| r.toNat <<< 8 ||| s.toNat := by
    simp only [shiftIn, List.foldl_cons, List.foldl_nil, Nat.zero_shiftLeft, Nat.zero_or,
      Nat.shiftLeft_or_distrib, ← Nat.shiftLeft_add]
  have small : shiftIn 0 [p, q, r, s] < 2 ^ 32 :=
    calc shiftIn 0 [p, q, r, s] < 256 ^ 4 := Logic.shiftIn_lt [p, q, r, s]
      _ = 2 ^ 32 := by norm_num
  rw [← UInt32.toNat_inj, UInt32.toNat_ofNat', Nat.mod_eq_of_lt small, word, UInt32.toNat_or,
    UInt32.toNat_or, UInt32.toNat_or, shifted p 24 24 rfl (by decide),
    shifted q 16 16 rfl (by decide), shifted r 8 8 rfl (by decide), UInt8.toNat_toUInt32]

theorem messageWord_eq {block : Bytes} (whole : block.length = 64) {t : Nat} (first : t < 16) :
    (block.getD (t * 4) 0).toUInt32 <<< 24 ||| (block.getD (t * 4 + 1) 0).toUInt32 <<< 16 |||
        (block.getD (t * 4 + 2) 0).toUInt32 <<< 8 ||| (block.getD (t * 4 + 3) 0).toUInt32 =
      Logic.SecureHash.messageWord block t := by
  have fromHere (k : Nat) : block.getD (t * 4 + k) 0 = (block.drop (4 * t)).getD k 0 := by
    rw [List.getD_eq_getElem?_getD, List.getD_eq_getElem?_getD, List.getElem?_drop, Nat.mul_comm]
  have long : 4 ≤ (block.drop (4 * t)).length := by
    rw [List.length_drop]
    omega
  have atZero := fromHere 0
  rw [Nat.add_zero] at atZero
  rw [atZero, fromHere 1, fromHere 2, fromHere 3, Logic.SecureHash.messageWord]
  match block.drop (4 * t), long with
  | p :: q :: r :: s :: rest, _ => exact shifted_bytes p q r s

/-- One more word of the loop of `sha1_compress`. -/
def moreWords (w : List UInt32) (i : Nat) : List UInt32 :=
  w ++ [rotl32 (w.getD (i - 3) 0 ^^^ w.getD (i - 8) 0 ^^^ w.getD (i - 14) 0 ^^^ w.getD (i - 16) 0) 1]

/-- The words up to some place are those of the message schedule. -/
structure Scheduled (block : Bytes) (w : List UInt32) (n : Nat) : Prop where
  length : w.length = n
  words : ∀ t < n, w.getD t 0 = Logic.SecureHash.scheduleWord block t

theorem Scheduled.more {block : Bytes} {w : List UInt32} {n : Nat} (scheduled : Scheduled block w n)
    (behind : 16 ≤ n) : Scheduled block (moreWords w n) (n + 1) := by
  have length := scheduled.length
  constructor
  · rw [moreWords, List.length_append, List.length_singleton, length]
  · intro t inside
    rcases Nat.lt_succ_iff_lt_or_eq.mp inside with earlier | rfl
    · rw [moreWords, List.getD_append _ _ _ _ (by omega), scheduled.words t earlier]
    · rw [moreWords, List.getD_append_right _ _ _ _ (by omega), length, Nat.sub_self,
        scheduled.words _ (by omega), scheduled.words _ (by omega),
        scheduled.words _ (by omega), scheduled.words _ (by omega),
        Logic.SecureHash.scheduleWord_of_le block behind]
      rfl

theorem Scheduled.all {block : Bytes} {w : List UInt32} {n : Nat} (scheduled : Scheduled block w n)
    (behind : 16 ≤ n) (count : Nat) :
    Scheduled block ((List.range' n count).foldl moreWords w) (n + count) := by
  induction count generalizing w n with
  | zero => exact scheduled
  | succ count ih =>
    have rest := ih (scheduled.more behind) (Nat.le_succ_of_le behind)
    rw [List.range'_succ, List.foldl_cons]
    rwa [Nat.add_right_comm] at rest

theorem schedule_getD {block : Bytes} (whole : block.length = 64) {t : Nat} (inside : t < 80) :
    (schedule block).getD t 0 = Logic.SecureHash.scheduleWord block t := by
  have first : Scheduled block ((List.range 16).map fun i =>
      (block.getD (i * 4) 0).toUInt32 <<< 24 ||| (block.getD (i * 4 + 1) 0).toUInt32 <<< 16 |||
        (block.getD (i * 4 + 2) 0).toUInt32 <<< 8 ||| (block.getD (i * 4 + 3) 0).toUInt32) 16 := by
    constructor
    · rw [List.length_map, List.length_range]
    · intro t early
      rw [List.getD_eq_getElem _ _ (by rwa [List.length_map, List.length_range]),
        List.getElem_map, List.getElem_range, messageWord_eq whole early,
        Logic.SecureHash.scheduleWord_of_lt block early]
  exact (first.all (Nat.le_refl 16) 64).words t inside

theorem sha1Round_eq {block : Bytes} (whole : block.length = 64) (s : Words) {t : Nat}
    (inside : t < 80) : (sha1Round (schedule block) s t).registers =
      Logic.SecureHash.round block s.registers t := by
  rw [sha1Round, schedule_getD whole inside, sha1Mix_eq, Logic.SecureHash.round, Words.registers]
  congr 1
  change rotl 5 s.a + (_ + _) + s.e + _ = rotl 5 s.a + _ + s.e + _ + _
  ac_rfl

theorem sha1Compress_eq {block : Bytes} (whole : block.length = 64) (h : Words) :
    (sha1Compress h block).registers = Logic.SecureHash.compress h.registers block := by
  have rounds (n : Nat) (count : n ≤ 80) :
      ((List.range n).foldl (sha1Round (schedule block)) h).registers =
        (List.range n).foldl (Logic.SecureHash.round block) h.registers := by
    induction n with
    | zero => rfl
    | succ n ih =>
      rw [List.range_succ, List.foldl_append, List.foldl_append, ← ih (by omega)]
      exact sha1Round_eq whole _ count
  rw [Logic.SecureHash.compress, ← rounds 80 (Nat.le_refl 80), sha1Compress]
  generalize (List.range 80).foldl (sha1Round (schedule block)) h = s
  rw [UInt32.add_comm h.a, UInt32.add_comm h.b, UInt32.add_comm h.c, UInt32.add_comm h.d,
    UInt32.add_comm h.e]
  rfl

theorem foldl_sha1Compress {parts : List Bytes} (whole : ∀ block ∈ parts, block.length = 64)
    (h : Words) : (parts.foldl sha1Compress h).registers =
      parts.foldl Logic.SecureHash.compress h.registers := by
  induction parts generalizing h with
  | nil => rfl
  | cons block parts ih =>
    have first := sha1Compress_eq (whole block List.mem_cons_self) h
    rw [List.foldl_cons, List.foldl_cons, ← first]
    exact ih (fun other member => whole other (List.mem_cons_of_mem block member)) _

end Compress

/-! ## Feeding -/

section Feeding

/-- `sha1_update` gathers blocks of 64 bytes. -/
theorem sha1Update_eq (s : Sha1) (data : Bytes) :
    sha1Update s data =
      ⟨(data.foldl (feed 64 sha1Compress) (s.h, s.buf)).1, s.len + UInt64.ofNat data.length,
        (data.foldl (feed 64 sha1Compress) (s.h, s.buf)).2⟩ := by
  induction data generalizing s with
  | nil => simp [sha1Update]
  | cons b data ih =>
    have counted : s.len + 1 + UInt64.ofNat data.length =
        s.len + UInt64.ofNat (b :: data).length := by
      rw [List.length_cons, UInt64.ofNat_add, UInt64.add_assoc, UInt64.add_comm 1]
      rfl
    have step : sha1Update s (b :: data) = sha1Update (sha1Update s [b]) data := rfl
    rw [step, ih, List.foldl_cons, ← counted, feed]
    by_cases full : (s.buf ++ [b]).length = 64
    · have one : sha1Update s [b] = ⟨sha1Compress s.h (s.buf ++ [b]), s.len + 1, []⟩ := if_pos full
      rw [one, if_pos full]
    · have one : sha1Update s [b] = ⟨s.h, s.len + 1, s.buf ++ [b]⟩ := if_neg full
      rw [one, if_neg full]

theorem sha1Update_append (s : Sha1) (left right : Bytes) :
    sha1Update s (left ++ right) = sha1Update (sha1Update s left) right :=
  List.foldl_append

/-- How a text is cut into chunks does not matter. -/
theorem foldl_sha1Update (s : Sha1) (chunks : List Bytes) :
    chunks.foldl sha1Update s = sha1Update s chunks.flatten := by
  induction chunks generalizing s with
  | nil => rfl
  | cons chunk chunks ih => rw [List.foldl_cons, ih, List.flatten_cons, sha1Update_append]

theorem length_buf_sha1Update {s : Sha1} (short : s.buf.length < 64) (data : Bytes) :
    (sha1Update s data).buf.length = (s.buf.length + data.length) % 64 := by
  rw [sha1Update_eq]
  exact Logic.SecureHash.length_foldl_feed short

theorem zeroLoop_eq (count : Nat) {s : Sha1} (short : s.buf.length < 64)
    (isCount : (120 - s.buf.length) % 64 = count) {fuel : Nat} (enough : count < fuel) :
    zeroLoop fuel s = some (sha1Update s (List.replicate count 0)) := by
  induction count generalizing s fuel with
  | zero =>
    cases fuel with
    | zero => omega
    | succ fuel => exact if_pos (by omega)
  | succ count ih =>
    cases fuel with
    | zero => omega
    | succ fuel =>
      have length := length_buf_sha1Update short [0]
      rw [List.length_singleton] at length
      rw [zeroLoop, if_neg (by omega), ih (by omega) (by omega) (by omega), List.replicate_succ]
      rfl

theorem sha1Update_padded (message : Bytes) :
    (sha1Update sha1Init (Logic.SecureHash.padded message)).h.registers =
      (blocks 64 (Logic.SecureHash.padded message)).foldl Logic.SecureHash.compress
        Logic.SecureHash.initial := by
  have whole := Logic.SecureHash.length_padded message
  have hashed : (sha1Update sha1Init (Logic.SecureHash.padded message)).h =
      (blocks 64 (Logic.SecureHash.padded message)).foldl sha1Compress sha1Init.h := by
    rw [sha1Update_eq]
    exact congrArg Prod.fst (Logic.SecureHash.foldl_feed_blocks (by decide) whole)
  rw [hashed, foldl_sha1Compress fun block => Logic.SecureHash.length_of_mem_blocks]
  rfl

theorem sha1FinalOut_padded (message : Bytes) :
    sha1FinalOut (sha1Update sha1Init message) =
      (let h := (sha1Update sha1Init (Logic.SecureHash.padded message)).h
      some ([h.a, h.b, h.c, h.d, h.e].flatMap fun w => bigEndian 4 w.toNat)) := by
  have start : sha1Init.buf.length < 64 := by decide
  have length := length_buf_sha1Update start message
  have short : (sha1Update sha1Init message).buf.length < 64 := by omega
  have length' := length_buf_sha1Update short [0x80]
  have empty : sha1Init.buf.length = 0 := rfl
  rw [List.length_singleton] at length'
  have zeros : (120 - (sha1Update (sha1Update sha1Init message) [0x80]).buf.length) % 64 =
      zeroBytes message.length := by
    rw [Logic.SecureHash.zeroBytes_eq]
    omega
  have bits : ((sha1Update sha1Init message).len * 8).toNat = 8 * message.length % 256 ^ 8 := by
    rw [sha1Update_eq]
    simp only [sha1Init, UInt64.zero_add, UInt64.toNat_mul, UInt64.toNat_ofNat', UInt64.toNat_ofNat]
    omega
  have parts : sha1Update sha1Init (Logic.SecureHash.padded message) =
      sha1Update (sha1Update (sha1Update (sha1Update sha1Init message) [0x80])
        (List.replicate (zeroBytes message.length) 0)) (bigEndian 8 (8 * message.length)) := by
    rw [Logic.SecureHash.padded, sha1Update_append, ← List.singleton_append, sha1Update_append,
      sha1Update_append]
  rw [sha1FinalOut, bits, Logic.bigEndian_mod 8 _ (Nat.le_refl 8),
    zeroLoop_eq (zeroBytes message.length) (by omega) zeros (by omega), parts]
  rfl

theorem sha1FinalOut_eq (message : Bytes) :
    sha1FinalOut (sha1Update sha1Init message) = some (Logic.SecureHash.digest message) := by
  rw [sha1FinalOut_padded, Logic.SecureHash.digest, ← sha1Update_padded]
  rfl

end Feeding

/-! ## The handshake -/

/-- The accept value of RFC 6455: the digest of the key and the text behind it, in base 64. -/
def acceptValueOf (clientKey : Bytes) : Bytes :=
  Logic.Base64.encode
    (Logic.SecureHash.digest (clientKey ++ ascii "258EAFA5-E914-47DA-95CA-C5AB0DC85B11"))

/-- Every text has its SHA-1 digest, in whatever chunks it comes; every text is encoded to four
characters for each three bytes or fewer, from which it is decoded again; and every key gives the
accept value. -/
theorem handshake_digest :
    (∀ chunks : List Bytes, sha1FinalOut (chunks.foldl sha1Update sha1Init) =
      some (Logic.SecureHash.digest chunks.flatten)) ∧
    (∀ input : Bytes, ∃ text, base64EncodeOut input = text ++ [0] ∧
      text.length = 4 * ((input.length + 2) / 3) ∧ Logic.Base64.decode text = some input) ∧
    ∀ clientKey : Bytes, wsAcceptKeyOut clientKey = some (acceptValueOf clientKey ++ [0]) := by
  refine ⟨fun chunks => ?_, fun input => ?_, fun clientKey => ?_⟩
  · rw [foldl_sha1Update, sha1FinalOut_eq]
  · refine ⟨Logic.Base64.encode input, ?_, Logic.Base64.length_encode input,
      Logic.Base64.decode_encode input⟩
    rw [base64EncodeOut_eq, base64Encode_eq]
  · rw [wsAcceptKeyOut, ← sha1Update_append, sha1FinalOut_eq, acceptValueOf]
    change some _ = some _
    rw [base64EncodeOut_eq, base64Encode_eq]

end Dux.Runtime.WebSocket
