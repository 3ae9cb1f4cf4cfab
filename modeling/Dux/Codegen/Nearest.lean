import Dux.Codegen.Floats
import Dux.Logic.Rounding

/-!
# The nearest number of a format

The conversions of integers that code generation emits or folds round to the nearest number of a
floating-point format.
-/

namespace Dux.Codegen.Payload.FloatFormat

open Logic (roundBits)

variable {f : FloatFormat} {m : Nat}

/-- The nearest number of the format, as far as its exponents go. -/
def nearest (f : FloatFormat) (m : Nat) : Nat := roundBits f.fraction m

theorem fits_nearest (f : FloatFormat) (m : Nat) : f.Fits (f.nearest m) := by
  rw [Fits, Int.natAbs_natCast]
  rcases Nat.lt_or_ge f.fraction m.log2 with long | short
  · obtain ⟨d, -, high, isRounded, -⟩ := Logic.exists_roundBits long
    rcases Nat.lt_or_eq_of_le high with below | rfl
    · exact ⟨d, _, isRounded, below⟩
    · refine ⟨2 ^ f.fraction, m.log2 - f.fraction + 1, ?_, ?_⟩
      · rw [nearest, isRounded]
        ring
      · exact Nat.pow_lt_pow_right (by decide) (Nat.lt_succ_self _)
  · refine ⟨m, 0, ?_, ?_⟩
    · rw [nearest, Logic.roundBits_of_log2_le short, Nat.pow_zero, Nat.mul_one]
    · exact Nat.lt_log2_self.trans_le (Nat.pow_le_pow_right (by decide) (by omega))

theorem roundNat_nearest (f : FloatFormat) (m : Nat) : f.roundNat (f.nearest m) = f.roundNat m := by
  rcases Nat.lt_or_ge f.fraction m.log2 with long | short
  · obtain ⟨d, low, high, isRounded, isDigits⟩ := Logic.exists_roundBits long
    have once : f.roundNat m = (m.log2 + (2 ^ (f.exponent - 1) - 1)) * 2 ^ f.fraction +
        (d - 2 ^ f.fraction) := by
      rw [roundNat, isDigits]
      simp only [if_neg (Nat.not_le_of_lt long), gt_iff_lt]
    have exactly {e d : Nat} (beyond : f.fraction < e)
        (isLog : (d * 2 ^ (e - f.fraction)).log2 = e) :
        f.roundNat (d * 2 ^ (e - f.fraction)) =
          (e + (2 ^ (f.exponent - 1) - 1)) * 2 ^ f.fraction + (d - 2 ^ f.fraction) := by
      have unit : 0 < 2 ^ (e - f.fraction) := Nat.two_pow_pos _
      simp only [roundNat, isLog, if_neg (Nat.not_le_of_lt beyond), Nat.mul_mod_left,
        Nat.mul_div_cancel _ unit, Nat.mul_zero, gt_iff_lt, Nat.not_lt_zero, unit.ne, false_and,
        or_self, if_false]
    rw [once, nearest]
    rcases Logic.log2_roundBits long with same | next
    · rw [isRounded] at same ⊢
      exact exactly long same
    · have isPower : 2 ^ (m.log2 + 1) = 2 ^ f.fraction * 2 ^ (m.log2 + 1 - f.fraction) := by
        rw [← Nat.pow_add]
        congr 1
        omega
      have carried : d = 2 * 2 ^ f.fraction := by
        rw [isRounded] at next
        have isPower' : 2 ^ (m.log2 + 1) = 2 * 2 ^ f.fraction * 2 ^ (m.log2 - f.fraction) := by
          rw [← Nat.pow_succ', ← Nat.pow_add]
          congr 1
          omega
        exact Nat.eq_of_mul_eq_mul_right (Nat.two_pow_pos _) (next.trans isPower')
      rw [next, isPower, exactly (by omega) (by rw [← isPower, Nat.log2_two_pow]), carried]
      have twice : 2 * 2 ^ f.fraction - 2 ^ f.fraction = 2 ^ f.fraction := by omega
      rw [twice, Nat.sub_self]
      ring
  · rw [nearest, Logic.roundBits_of_log2_le short]

theorem nearest_eq_zero_iff : f.nearest m = 0 ↔ m = 0 := by
  constructor
  · intro isZero
    by_contra positive
    have large : 2 ^ 0 ≤ f.nearest m :=
      Logic.two_pow_le_roundBits (Nat.pos_of_ne_zero positive)
    rw [isZero] at large
    exact absurd large (by decide)
  · rintro rfl
    exact Logic.roundBits_of_lt (Nat.two_pow_pos _)

theorem nearest_le_two_pow {j : Nat} (small : m ≤ 2 ^ j) : f.nearest m ≤ 2 ^ j := by
  rcases Nat.lt_or_ge f.fraction m.log2 with long | short
  · rcases Nat.lt_or_eq_of_le small with below | rfl
    · have positive : m ≠ 0 := by
        rintro rfl
        exact absurd long (by simp)
      obtain ⟨d, -, high, isRounded, -⟩ := Logic.exists_roundBits long
      calc f.nearest m = d * 2 ^ (m.log2 - f.fraction) := isRounded
        _ ≤ 2 ^ (f.fraction + 1) * 2 ^ (m.log2 - f.fraction) := Nat.mul_le_mul_right _ high
        _ = 2 ^ (m.log2 + 1) := by
          rw [← Nat.pow_add]
          congr 1
          omega
        _ ≤ 2 ^ j := Nat.pow_le_pow_right (by decide) ((Nat.log2_lt positive).2 below)
    · rw [Nat.log2_two_pow] at long
      rw [nearest, Logic.roundBits, Nat.log2_two_pow, Logic.roundTo_two_pow (Nat.sub_le j _)]
  · rwa [nearest, Logic.roundBits_of_log2_le short]

/-- The nearest number of the format to an integer with a sign. -/
def nearestInt (f : FloatFormat) (n : Int) : Int :=
  if n < 0 then -(f.nearest n.natAbs : Int) else f.nearest n.natAbs

theorem nearestInt_natCast (f : FloatFormat) (m : Nat) : f.nearestInt m = f.nearest m :=
  if_neg (Int.not_lt.2 (Int.natCast_nonneg m))

theorem natAbs_nearestInt (f : FloatFormat) (n : Int) :
    (f.nearestInt n).natAbs = f.nearest n.natAbs := by
  unfold nearestInt
  split
  · rw [Int.natAbs_neg, Int.natAbs_natCast]
  · exact Int.natAbs_natCast _

theorem fits_nearestInt (f : FloatFormat) (n : Int) : f.Fits (f.nearestInt n) := by
  have fits := f.fits_nearest n.natAbs
  rw [Fits, Int.natAbs_natCast] at fits
  rwa [Fits, natAbs_nearestInt]

theorem nearestInt_neg_iff {n : Int} : f.nearestInt n < 0 ↔ n < 0 := by
  unfold nearestInt
  constructor
  · intro negative
    by_contra nonneg
    rw [if_neg nonneg] at negative
    omega
  · intro negative
    have positive : f.nearest n.natAbs ≠ 0 := fun isZero => by
      have := nearest_eq_zero_iff.1 isZero
      omega
    rw [if_pos negative]
    omega

theorem ofInt_nearestInt (f : FloatFormat) (n : Int) : f.ofInt (f.nearestInt n) = f.ofInt n := by
  have zero : f.nearestInt n = 0 ↔ n = 0 := by
    rw [← Int.natAbs_eq_zero, natAbs_nearestInt, nearest_eq_zero_iff, Int.natAbs_eq_zero]
  simp only [ofInt, zero, natAbs_nearestInt, roundNat_nearest, nearestInt_neg_iff]

theorem nearest_eq_iff : f.nearest m = m ↔ f.Fits m := by
  constructor
  · intro same
    rw [← same]
    exact f.fits_nearest m
  · rintro ⟨d, k, isMultiple, small⟩
    rw [Int.natAbs_natCast] at isMultiple
    rw [isMultiple]
    exact Logic.roundBits_mul_two_pow small k

/-! ## Integers cut to the width of a float -/

/-- A positive number with an exponent beyond its fraction differs from its bits, also where both
are cut to 32 bits. -/
theorem bits_ne_of_large {d k : Nat} (small : d < 2 ^ 23) (positive : 0 < k) (inRange : k < 106) :
    (2 ^ 23 + d) * 2 ^ k % 2 ^ 32 ≠ (150 + k) * 2 ^ 23 + d := by
  intro same
  -- the lower 23 bits of both sides leave no digits behind the first one
  have isZero : d = 0 := by
    have split := Nat.div_add_mod ((2 ^ 23 + d) * 2 ^ k) (2 ^ 32)
    obtain ⟨n, isSucc⟩ : ∃ n, 2 ^ k = n + 1 := Nat.exists_eq_add_one.2 (Nat.two_pow_pos k)
    have isEven : 2 ∣ n + 1 := isSucc ▸ dvd_pow_self 2 positive.ne'
    have isOdd : Nat.Coprime (2 ^ 23) n :=
      Nat.Coprime.pow_left 23 (Nat.coprime_two_left.2 (by rw [Nat.odd_iff]; omega))
    rw [same, isSucc, Nat.mul_add, Nat.mul_one] at split
    have divides : 2 ^ 23 ∣ d * n := by
      generalize ((2 ^ 23 + d) * n + (2 ^ 23 + d)) / 2 ^ 32 = q at split
      have expand : (2 ^ 23 + d) * n = 2 ^ 23 * n + d * n := Nat.add_mul _ _ _
      omega
    exact Nat.eq_zero_of_dvd_of_lt (isOdd.dvd_of_dvd_mul_right divides) small
  subst isZero
  by_cases short : k < 9
  · interval_cases k <;> simp at same
  · have isMultiple : 2 ^ 32 ∣ (2 ^ 23 + 0) * 2 ^ k := by
      rw [Nat.add_zero, ← Nat.pow_add]
      exact Nat.pow_dvd_pow 2 (by omega)
    rw [Nat.mod_eq_zero_of_dvd isMultiple] at same
    omega

/-- The lower 32 bits of an integer mean that integer in the format only if it is zero. -/
theorem decode_single_iff : single.decode (BitVec.ofInt 32 (m : Int)).toNat = some (.ofInt m) ↔
    m = 0 := by
  constructor
  · intro decodes
    obtain ⟨negative, exponent, fraction, small, inRange, packed⟩ :=
      exists_pack (f := single) (BitVec.isLt (BitVec.ofInt 32 (m : Int)))
    have bits : (BitVec.ofInt 32 (m : Int)).toNat = m % 2 ^ 32 := by simp
    have eq := decodes
    rw [packed, decode_pack_eq_ofInt_iff small inRange] at eq
    rw [packed] at bits
    obtain ⟨-, eq⟩ := eq
    have isOffset : single.offset = 150 := rfl
    have range : exponent < 256 := inRange
    have room : fraction < 2 ^ 23 := small
    rw [isOffset] at eq
    cases negative with
    | true =>
      rw [digits, if_pos rfl] at eq
      by_contra positive
      have left : 0 ≤ (single.significand exponent fraction : Int) * 2 ^ max exponent 1 := by
        positivity
      have right : 0 < (m : Int) * 2 ^ 150 := by
        have : 0 < m := Nat.pos_of_ne_zero positive
        positivity
      rw [Int.neg_mul] at eq
      omega
    | false =>
      rw [digits, if_neg Bool.false_ne_true] at eq
      have eq : single.significand exponent fraction * 2 ^ max exponent 1 = m * 2 ^ 150 := by
        exact_mod_cast eq
      have bits : exponent * 2 ^ 23 + fraction = m % 2 ^ 32 := by
        rw [← bits]
        simp [pack, single]
      rcases Nat.lt_or_ge 150 exponent with large | atMost
      · exfalso
        obtain ⟨k, rfl⟩ := Nat.exists_eq_add_of_lt large
        have isNormal : single.significand (150 + k + 1) fraction = 2 ^ 23 + fraction := rfl
        rw [isNormal, Nat.max_eq_left (by omega), Nat.add_assoc, Nat.pow_add, ← Nat.mul_assoc,
          Nat.mul_right_comm] at eq
        have isValue := Nat.eq_of_mul_eq_mul_right (Nat.two_pow_pos 150) eq
        rw [← isValue] at bits
        exact bits_ne_of_large room (Nat.succ_pos k) (by omega) bits.symm
      · have short : single.significand exponent fraction < 2 ^ 24 := by
          have isFraction : single.significand exponent fraction ≤ 2 ^ 23 + fraction := by
            unfold significand
            split
            · exact Nat.le_add_left _ _
            · exact le_rfl
          omega
        have atMostDigits : m ≤ single.significand exponent fraction := by
          refine Nat.le_of_mul_le_mul_right (eq.symm.trans_le ?_) (Nat.two_pow_pos 150)
          exact Nat.mul_le_mul_left _ (Nat.pow_le_pow_right (by decide) (by omega))
        have same : (BitVec.ofInt 32 (m : Int)).toInt = m :=
          BitVec.toInt_ofInt_eq_self (by decide) (by omega) (by omega)
        have itself : single.decode (BitVec.ofInt 32 (m : Int)).toNat =
            some (.ofInt (BitVec.ofInt 32 (m : Int)).toInt) := by
          rw [decodes, same]
        have isZero := eq_zero_of_decode_toInt apart_single rfl itself
        exact Int.natCast_eq_zero.1 (same.symm.trans isZero)
  · rintro rfl
    exact decode_zero single (by decide)

end Dux.Codegen.Payload.FloatFormat
