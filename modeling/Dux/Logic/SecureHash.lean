import Dux.Logic.BigEndian
import Mathlib.Data.Nat.Find
import Mathlib.Data.Nat.ModEq

/-!
# The Secure Hash Standard

SHA-1 of FIPS 180-4 for messages of bytes, and hashes that gather their blocks byte by byte.  The
standard is for lengths below `2 ^ 64` bits; beyond that the length is cut off to 64 bits here.
-/

namespace Dux.Logic.SecureHash

/-! ## Functions and constants -/

def rotl (n x : UInt32) : UInt32 := x <<< n ||| x >>> (32 - n)

/-- `Ch`. -/
def choose (x y z : UInt32) : UInt32 := x &&& y ^^^ ~~~x &&& z

def parity (x y z : UInt32) : UInt32 := x ^^^ y ^^^ z

def majority (x y z : UInt32) : UInt32 := x &&& y ^^^ x &&& z ^^^ y &&& z

/-- The function of a round. -/
def mixer (t : Nat) : UInt32 → UInt32 → UInt32 → UInt32 :=
  if t < 20 then choose else if t < 40 then parity else if t < 60 then majority else parity

/-- The constant of a round. -/
def constant (t : Nat) : UInt32 :=
  if t < 20 then 0x5a827999
  else if t < 40 then 0x6ed9eba1
  else if t < 60 then 0x8f1bbcdc
  else 0xca62c1d6

/-- The working variables, or the words of a hash value. -/
structure Registers where
  a : UInt32
  b : UInt32
  c : UInt32
  d : UInt32
  e : UInt32

def initial : Registers := ⟨0x67452301, 0xefcdab89, 0x98badcfe, 0x10325476, 0xc3d2e1f0⟩

/-! ## Padding -/

theorem exists_zeroBytes (length : Nat) : ∃ k, 8 * length + 1 + (7 + 8 * k) ≡ 448 [MOD 512] :=
  ⟨(119 - length % 64) % 64, by rw [Nat.ModEq]; omega⟩

/-- How many bytes of zeros stand behind the byte of the first added bit: as few as there can. -/
def zeroBytes (length : Nat) : Nat := Nat.find (exists_zeroBytes length)

def padded (message : List UInt8) : List UInt8 :=
  message ++ 0x80 :: (List.replicate (zeroBytes message.length) 0 ++
    bigEndian 8 (8 * message.length))

def blocks {α : Type*} (size : Nat) (text : List α) : List (List α) :=
  (List.range (text.length / size)).map fun i => (text.drop (size * i)).take size

theorem zeroBytes_eq (length : Nat) : zeroBytes length = (119 - length % 64) % 64 := by
  rw [zeroBytes, Nat.find_eq_iff]
  simp only [Nat.ModEq]
  constructor
  · omega
  · intro k less
    omega

theorem length_padded (message : List UInt8) : 64 ∣ (padded message).length := by
  simp only [padded, List.length_append, List.length_cons, List.length_replicate,
    length_bigEndian, zeroBytes_eq]
  omega

/-! ## Hashing -/

def messageWord (block : List UInt8) (t : Nat) : UInt32 :=
  UInt32.ofNat (shiftIn 0 ((block.drop (4 * t)).take 4))

/-- The message schedule. -/
def scheduleWord (block : List UInt8) (t : Nat) : UInt32 :=
  if t < 16 then messageWord block t
  else rotl 1 (scheduleWord block (t - 3) ^^^ scheduleWord block (t - 8) ^^^
    scheduleWord block (t - 14) ^^^ scheduleWord block (t - 16))
termination_by t

theorem scheduleWord_of_lt (block : List UInt8) {t : Nat} (first : t < 16) :
    scheduleWord block t = messageWord block t := by
  rw [scheduleWord, if_pos first]

theorem scheduleWord_of_le (block : List UInt8) {t : Nat} (later : 16 ≤ t) :
    scheduleWord block t = rotl 1 (scheduleWord block (t - 3) ^^^ scheduleWord block (t - 8) ^^^
      scheduleWord block (t - 14) ^^^ scheduleWord block (t - 16)) := by
  rw [scheduleWord, if_neg (Nat.not_lt.mpr later)]

def round (block : List UInt8) (s : Registers) (t : Nat) : Registers :=
  ⟨rotl 5 s.a + mixer t s.b s.c s.d + s.e + constant t + scheduleWord block t, s.a, rotl 30 s.b,
    s.c, s.d⟩

/-- The hash value after one more block. -/
def compress (h : Registers) (block : List UInt8) : Registers :=
  let s := (List.range 80).foldl (round block) h
  ⟨s.a + h.a, s.b + h.b, s.c + h.c, s.d + h.d, s.e + h.e⟩

/-- SHA-1. -/
def digest (message : List UInt8) : List UInt8 :=
  let h := (blocks 64 (padded message)).foldl compress initial
  [h.a, h.b, h.c, h.d, h.e].flatMap fun w => bigEndian 4 w.toNat

/-! ## Gathering blocks -/

section Feeding

variable {σ α : Type*} {size : Nat} {f : σ → List α → σ} {s : σ} {buf xs : List α}

/-- One more value in the buffer; a full buffer is hashed. -/
def feed (size : Nat) (f : σ → List α → σ) (s : σ × List α) (x : α) : σ × List α :=
  if (s.2 ++ [x]).length = size then (f s.1 (s.2 ++ [x]), []) else (s.1, s.2 ++ [x])

theorem foldl_feed_of_lt (short : buf.length + xs.length < size) :
    xs.foldl (feed size f) (s, buf) = (s, buf ++ xs) := by
  induction xs generalizing buf with
  | nil => rw [List.append_nil]; rfl
  | cons x xs ih =>
    rw [List.length_cons] at short
    have more : (buf ++ [x]).length = buf.length + 1 := List.length_append
    have step : feed size f (s, buf) x = (s, buf ++ [x]) := if_neg (by rw [more]; omega)
    rw [List.foldl_cons, step, ih (by omega), List.append_assoc]
    rfl

theorem foldl_feed_of_eq (some : xs ≠ []) (full : buf.length + xs.length = size) :
    xs.foldl (feed size f) (s, buf) = (f s (buf ++ xs), []) := by
  rcases List.eq_nil_or_concat xs with isNil | ⟨front, last, rfl⟩
  · exact absurd isNil some
  · rw [List.concat_eq_append, List.length_append, List.length_singleton] at full
    have fed : front.foldl (feed size f) (s, buf) = (s, buf ++ front) :=
      foldl_feed_of_lt (by omega)
    rw [List.concat_eq_append, List.foldl_append, fed, ← List.append_assoc]
    apply if_pos
    simp only [List.length_append, List.length_singleton]
    omega

theorem blocks_nil (size : Nat) : blocks size ([] : List α) = [] := by
  rw [blocks, List.length_nil, Nat.zero_div]
  rfl

theorem blocks_append (positive : 0 < size) {block : List α} (whole : block.length = size)
    (rest : List α) : blocks size (block ++ rest) = block :: blocks size rest := by
  have count : (block ++ rest).length / size = rest.length / size + 1 := by
    rw [List.length_append, whole, Nat.add_comm, Nat.add_div_right _ positive]
  rw [blocks, count, List.range_succ_eq_map, List.map_cons, List.map_map]
  congr 1
  · rw [Nat.mul_zero, List.drop_zero, ← whole, List.take_left]
  · apply List.map_congr_left
    intro i _
    have shift : size * (i + 1) = block.length + size * i := by
      rw [whole, Nat.mul_succ, Nat.add_comm]
    rw [Function.comp_apply, Nat.succ_eq_add_one, shift, List.drop_length_add_append]

theorem length_of_mem_blocks {block : List α} (member : block ∈ blocks size xs) :
    block.length = size := by
  rcases List.mem_map.mp member with ⟨i, inRange, rfl⟩
  have fits : size * (i + 1) ≤ xs.length :=
    (Nat.mul_le_mul_left size (List.mem_range.mp inRange)).trans (Nat.mul_div_le _ _)
  rw [Nat.mul_succ] at fits
  rw [List.length_take, List.length_drop]
  omega

theorem foldl_feed_blocks (positive : 0 < size) (whole : size ∣ xs.length) :
    xs.foldl (feed size f) (s, []) = ((blocks size xs).foldl f s, []) := by
  rcases whole with ⟨n, isLength⟩
  induction n generalizing xs s with
  | zero =>
    rw [List.length_eq_zero_iff.mp isLength, blocks_nil]
    rfl
  | succ n ih =>
    have front : (xs.take size).length = size := by
      rw [List.length_take, isLength, Nat.mul_succ]
      omega
    have back : (xs.drop size).length = size * n := by
      rw [List.length_drop, isLength, Nat.mul_succ, Nat.add_sub_cancel]
    have some : xs.take size ≠ [] := List.ne_nil_of_length_pos (by omega)
    have first : (xs.take size).foldl (feed size f) (s, []) = (f s ([] ++ xs.take size), []) :=
      foldl_feed_of_eq some (by rw [front, List.length_nil, Nat.zero_add])
    rw [← List.take_append_drop size xs, List.foldl_append, first, List.nil_append,
      blocks_append positive front, ih back]
    rfl

theorem length_foldl_feed (short : buf.length < size) :
    (xs.foldl (feed size f) (s, buf)).2.length = (buf.length + xs.length) % size := by
  induction xs generalizing s buf with
  | nil => exact (Nat.mod_eq_of_lt short).symm
  | cons x xs ih =>
    have more : (buf ++ [x]).length = buf.length + 1 := List.length_append
    rw [List.foldl_cons, feed, List.length_cons]
    split
    · next full =>
      rw [ih (by rw [List.length_nil]; omega), List.length_nil]
      rw [more] at full
      rw [show buf.length + (xs.length + 1) = size + xs.length by omega, Nat.add_mod_left,
        Nat.zero_add]
    · next notFull =>
      rw [more] at notFull
      rw [ih (by rw [more]; omega), more]
      congr 1
      omega

end Feeding

end Dux.Logic.SecureHash
