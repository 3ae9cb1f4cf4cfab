import Mathlib.Algebra.Ring.Int.Defs
import Mathlib.Data.List.Induction
import Mathlib.Data.Nat.Bitwise
import Mathlib.Tactic.NormNum

/-!
# Numbers in bytes

Numbers written with a fixed count of bytes, the highest one first, and read back by shifting
in one byte after the other.
-/

namespace Dux.Logic

/-- The last `k` bytes of a number. -/
def bigEndian : Nat → Nat → List UInt8
  | 0, _ => []
  | k + 1, n => UInt8.ofNat (n >>> (k * 8)) :: bigEndian k n

/-- Shift bytes into a number. -/
def shiftIn (acc : Nat) (bytes : List UInt8) : Nat :=
  bytes.foldl (fun acc b => acc <<< 8 ||| b.toNat) acc

theorem length_bigEndian (k n : Nat) : (bigEndian k n).length = k := by
  induction k with
  | zero => rfl
  | succ k ih => exact congrArg (· + 1) ih

theorem shiftIn_bigEndian_add (acc k n : Nat) :
    shiftIn acc (bigEndian k n) = acc * 256 ^ k + n % 256 ^ k := by
  induction k generalizing acc with
  | zero => simp [bigEndian, shiftIn, Nat.mod_one]
  | succ k ih =>
    have small : (UInt8.ofNat (n >>> (k * 8))).toNat < 2 ^ 8 := UInt8.toNat_lt _
    have shifted : acc <<< 8 ||| (UInt8.ofNat (n >>> (k * 8))).toNat =
        acc * 256 + n / 256 ^ k % 256 := by
      rw [← Nat.shiftLeft_add_eq_or_of_lt small, Nat.shiftLeft_eq, UInt8.toNat_ofNat',
        Nat.shiftRight_eq_div_pow, Nat.mul_comm k 8, Nat.pow_mul]
    rw [bigEndian, shiftIn, List.foldl_cons, ← shiftIn, ih, shifted, Nat.mod_pow_succ,
      Nat.pow_succ, Nat.add_mul, Nat.mul_assoc, Nat.mul_comm 256, Nat.mul_comm (_ % 256),
      Nat.add_assoc, Nat.add_comm (n % _)]

theorem shiftIn_bigEndian {k n : Nat} (fits : n < 256 ^ k) : shiftIn 0 (bigEndian k n) = n := by
  rw [shiftIn_bigEndian_add, Nat.zero_mul, Nat.zero_add, Nat.mod_eq_of_lt fits]

theorem bigEndian_mod (k n : Nat) {j : Nat} (inside : k ≤ j) :
    bigEndian k (n % 256 ^ j) = bigEndian k n := by
  induction k with
  | zero => rfl
  | succ k ih =>
    rw [bigEndian, bigEndian, ih (Nat.le_of_succ_le inside)]
    congr 1
    rw [← UInt8.toNat_inj, UInt8.toNat_ofNat', UInt8.toNat_ofNat', Nat.mul_comm k 8,
      Nat.shiftRight_eq_div_pow, Nat.shiftRight_eq_div_pow, Nat.pow_mul]
    have split : 256 ^ j = 256 ^ k * (256 * 256 ^ (j - (k + 1))) := by
      rw [← Nat.pow_succ', ← Nat.pow_add]
      congr 1
      omega
    rw [split]
    change n % (256 ^ k * (256 * 256 ^ (j - (k + 1)))) / 256 ^ k % 256 = n / 256 ^ k % 256
    rw [Nat.mod_mul_right_div_self, Nat.mod_mul_right_mod]

/-! ## Signed words -/

/-- A byte of a signed word, counted from the lowest one. -/
def byteOf (v : Int) (i : Nat) : UInt8 := UInt8.ofNat ((v >>> (8 * i)) % 256).toNat

/-- The bytes of a word, the lowest one first. -/
def littleBytes (k : Nat) (v : Int) : List UInt8 := (List.range k).map (byteOf v)

/-- Put bytes together, the lowest one first. -/
def orIn (bytes : List UInt8) : Nat :=
  bytes.zipIdx.foldl (fun r b => r ||| b.1.toNat <<< (8 * b.2)) 0

theorem length_littleBytes (k : Nat) (v : Int) : (littleBytes k v).length = k := by
  rw [littleBytes, List.length_map, List.length_range]

theorem ofNat_eq_of_mod_eq {m n : Nat} (same : m % 256 = n % 256) :
    UInt8.ofNat m = UInt8.ofNat n := by
  apply UInt8.toNat_inj.1
  rw [UInt8.toNat_ofNat', UInt8.toNat_ofNat']
  exact same

theorem byteOf_eq (v : Int) {i k : Nat} (inside : i < k) :
    byteOf v i = UInt8.ofNat ((v % 256 ^ k).toNat >>> (i * 8)) := by
  obtain ⟨n, remainder⟩ : ∃ n : Nat, v % 256 ^ k = n :=
    Int.eq_ofNat_of_zero_le (Int.emod_nonneg v (Int.ne_of_gt (Int.pow_pos (by decide))))
  have split : (256 : Int) ^ k = 256 ^ i * (256 * 256 ^ (k - i - 1)) := by
    rw [← Int.pow_succ', ← Int.pow_add]
    congr 1
    omega
  have whole : v = n + 256 ^ i * (256 * (256 ^ (k - i - 1) * (v / 256 ^ k))) := by
    rw [← remainder, ← Int.mul_assoc 256, ← Int.mul_assoc, ← split]
    exact (Int.emod_add_mul_ediv v _).symm
  have shifted : v >>> (8 * i) % 256 = (n / 256 ^ i % 256 : Nat) := by
    have power : ((2 ^ (8 * i) : Nat) : Int) = 256 ^ i := by
      rw [Nat.pow_mul]
      norm_cast
    have positive : (0 : Int) < 256 ^ i := Int.pow_pos (by decide)
    have divided := Int.add_mul_ediv_left n (256 * (256 ^ (k - i - 1) * (v / 256 ^ k)))
      (Int.ne_of_gt positive)
    rw [← whole] at divided
    rw [Int.shiftRight_eq_div_pow, power, divided, Int.add_mul_emod_self_left]
    norm_cast
  rw [byteOf, shifted, Int.toNat_natCast, remainder, Int.toNat_natCast,
    Nat.shiftRight_eq_div_pow, Nat.mul_comm i 8, Nat.pow_mul]
  exact ofNat_eq_of_mod_eq (Nat.mod_mod _ _)

theorem reverse_littleBytes (k : Nat) (v : Int) :
    (littleBytes k v).reverse = bigEndian k (v % 256 ^ k).toNat := by
  suffices ∀ j ≤ k, (littleBytes j v).reverse = bigEndian j (v % 256 ^ k).toNat from
    this k (Nat.le_refl k)
  intro j inside
  induction j with
  | zero => rfl
  | succ j ih =>
    rw [littleBytes, List.range_succ, List.map_append, List.reverse_append, ← littleBytes,
      ih (Nat.le_of_succ_le inside), bigEndian, ← byteOf_eq v inside]
    rfl

theorem shiftIn_littleBytes (k : Nat) (v : Int) :
    shiftIn 0 (littleBytes k v).reverse = (v % 256 ^ k).toNat := by
  have positive : (0 : Int) < 256 ^ k := Int.pow_pos (by decide)
  have upper := Int.emod_lt_of_pos v positive
  rw [reverse_littleBytes, shiftIn_bigEndian]
  rw [Int.toNat_lt (Int.emod_nonneg v (Int.ne_of_gt positive))]
  exact_mod_cast upper

theorem shiftIn_cons (acc : Nat) (b : UInt8) (bytes : List UInt8) :
    shiftIn acc (b :: bytes) = shiftIn (acc * 256 + b.toNat) bytes := by
  rw [shiftIn, List.foldl_cons, ← Nat.shiftLeft_add_eq_or_of_lt b.toNat_lt, Nat.shiftLeft_eq]
  rfl

theorem shiftIn_eq_add (acc : Nat) (bytes : List UInt8) :
    shiftIn acc bytes = acc * 256 ^ bytes.length + shiftIn 0 bytes := by
  induction bytes generalizing acc with
  | nil => simp [shiftIn]
  | cons b bytes ih =>
    rw [shiftIn_cons, shiftIn_cons, ih, ih (0 * 256 + _), List.length_cons, Nat.pow_succ,
      Nat.zero_mul, Nat.zero_add, Nat.add_mul, Nat.mul_assoc, Nat.mul_comm 256, Nat.add_assoc]

theorem shiftIn_lt (bytes : List UInt8) : shiftIn 0 bytes < 256 ^ bytes.length := by
  induction bytes with
  | nil => decide
  | cons b bytes ih =>
    have small := b.toNat_lt
    rw [shiftIn_cons, shiftIn_eq_add, Nat.zero_mul, Nat.zero_add, List.length_cons, Nat.pow_succ,
      Nat.mul_comm]
    calc 256 ^ bytes.length * b.toNat + shiftIn 0 bytes
        < 256 ^ bytes.length * b.toNat + 256 ^ bytes.length := Nat.add_lt_add_left ih _
      _ = 256 ^ bytes.length * (b.toNat + 1) := (Nat.mul_succ _ _).symm
      _ ≤ 256 ^ bytes.length * 256 := Nat.mul_le_mul_left _ small

theorem orIn_eq (bytes : List UInt8) : orIn bytes = shiftIn 0 bytes.reverse := by
  induction bytes using List.reverseRecOn with
  | nil => rfl
  | append_singleton bytes b ih =>
    have small := shiftIn_lt bytes.reverse
    have power : 256 ^ bytes.reverse.length = 2 ^ (8 * bytes.length) := by
      rw [List.length_reverse, Nat.pow_mul]
    rw [power] at small
    have step : orIn (bytes ++ [b]) = orIn bytes ||| b.toNat <<< (8 * bytes.length) := by
      rw [orIn, List.zipIdx_append, List.foldl_append, Nat.zero_add]
      rfl
    rw [step, ih, List.reverse_append, List.reverse_singleton, List.singleton_append, shiftIn_cons,
      Nat.zero_mul, Nat.zero_add, shiftIn_eq_add b.toNat, power, Nat.or_comm,
      ← Nat.shiftLeft_add_eq_or_of_lt small, Nat.shiftLeft_eq]

end Dux.Logic
