import Dux.Codegen.Numbers
import Mathlib.Algebra.Order.Field.Rat
import Mathlib.Data.Nat.Prime.Basic
import Mathlib.Tactic.Positivity
import Mathlib.Tactic.Ring

/-!
# Integers in floating-point formats

Rounding an integer to a floating-point format keeps it if its digits fit into the fraction.  Its
bits taken for those of a floating-point number mean another number, unless it is zero.
-/

namespace Dux.Codegen.Payload

/-! ## Dyadic numbers -/

theorem ofIntWithPrec_inj {s s' k : Int} :
    Dyadic.ofIntWithPrec s k = Dyadic.ofIntWithPrec s' k ↔ s = s' := by
  refine ⟨fun eq => ?_, fun eq => by rw [eq]⟩
  have eq := congrArg Dyadic.toRat eq
  rw [Dyadic.toRat_ofIntWithPrec_eq_mul_two_pow, Dyadic.toRat_ofIntWithPrec_eq_mul_two_pow] at eq
  have pos : (2 : Rat) ^ (-k) ≠ 0 := by positivity
  exact Int.cast_injective (mul_right_cancel₀ pos eq)

theorem ofIntWithPrec_shift (s k : Int) (n : Nat) :
    Dyadic.ofIntWithPrec s k = Dyadic.ofIntWithPrec (s * 2 ^ n) (k + n) := by
  rw [← Int.shiftLeft_eq, Dyadic.ofIntWithPrec_shiftLeft_add]

theorem ofIntWithPrec_eq_ofInt_iff {s n : Int} {a b : Nat} :
    Dyadic.ofIntWithPrec s (a - b) = Dyadic.ofInt n ↔ s * 2 ^ b = n * 2 ^ a := by
  rw [Dyadic.ofInt, ofIntWithPrec_shift s (a - b) b, ofIntWithPrec_shift n 0 a, Int.sub_add_cancel,
    Int.zero_add, ofIntWithPrec_inj]

theorem ofInt_inj {n n' : Int} : Dyadic.ofInt n = Dyadic.ofInt n' ↔ n = n' := ofIntWithPrec_inj

namespace FloatFormat

/-! ## The fields of a number -/

/-- What is added to the exponent so that the fraction counts as an integer. -/
def offset (f : FloatFormat) : Nat := 2 ^ (f.exponent - 1) - 1 + f.fraction

/-- The bits with the given fields. -/
def pack (f : FloatFormat) (negative : Bool) (exponent fraction : Nat) : Nat :=
  (negative.toNat * 2 ^ f.exponent + exponent) * 2 ^ f.fraction + fraction

/-- The integer that the digits are. -/
def significand (f : FloatFormat) (exponent fraction : Nat) : Nat :=
  if exponent = 0 then fraction else 2 ^ f.fraction + fraction

/-- The integer that the digits are, with the sign. -/
def digits (f : FloatFormat) (negative : Bool) (exponent fraction : Nat) : Int :=
  if negative then -(f.significand exponent fraction : Int) else f.significand exponent fraction

variable {f : FloatFormat} {negative : Bool} {exponent fraction bits m : Nat} {n : Int}

theorem decode_pack (small : fraction < 2 ^ f.fraction) (inRange : exponent < 2 ^ f.exponent) :
    f.decode (f.pack negative exponent fraction) =
      if exponent = 2 ^ f.exponent - 1 then none
      else some (.ofIntWithPrec (f.digits negative exponent fraction)
        (f.offset - (max exponent 1 : Nat))) := by
  have pos : 0 < 2 ^ f.fraction := Nat.two_pow_pos _
  have isFraction : f.pack negative exponent fraction % 2 ^ f.fraction = fraction := by
    rw [pack, Nat.mul_add_mod_of_lt small]
  have upper : f.pack negative exponent fraction / 2 ^ f.fraction =
      negative.toNat * 2 ^ f.exponent + exponent := by
    rw [pack, Nat.add_comm, Nat.add_mul_div_right _ _ pos, Nat.div_eq_of_lt small, Nat.zero_add]
  have isExponent : f.pack negative exponent fraction / 2 ^ f.fraction % 2 ^ f.exponent =
      exponent := by
    rw [upper, Nat.mul_add_mod_of_lt inRange]
  have isSign : f.pack negative exponent fraction / 2 ^ (f.fraction + f.exponent) % 2 =
      negative.toNat := by
    rw [Nat.pow_add, ← Nat.div_div_eq_div_mul, upper, Nat.add_comm,
      Nat.add_mul_div_right _ _ (Nat.two_pow_pos _), Nat.div_eq_of_lt inRange, Nat.zero_add,
      Nat.mod_eq_of_lt negative.toNat_lt]
  have isDigits : (if negative.toNat = 1 then
        -(if exponent = 0 then (fraction : Int) else 2 ^ f.fraction + fraction)
      else if exponent = 0 then (fraction : Int) else 2 ^ f.fraction + fraction) =
      f.digits negative exponent fraction := by
    cases negative with
    | false | true => simp [digits, significand, apply_ite (Nat.cast (R := Int))]
  simp only [decode, isFraction, isExponent, isSign, isDigits, offset]

theorem exists_pack (inRange : bits < 2 ^ (f.fraction + f.exponent + 1)) :
    ∃ negative exponent fraction, fraction < 2 ^ f.fraction ∧ exponent < 2 ^ f.exponent ∧
      bits = f.pack negative exponent fraction := by
  have sign : bits / 2 ^ f.fraction / 2 ^ f.exponent < 2 := by
    rw [Nat.div_div_eq_div_mul, ← Nat.pow_add, Nat.div_lt_iff_lt_mul (Nat.two_pow_pos _)]
    rwa [Nat.pow_succ, Nat.mul_comm] at inRange
  refine ⟨bits / 2 ^ f.fraction / 2 ^ f.exponent = 1, bits / 2 ^ f.fraction % 2 ^ f.exponent,
    bits % 2 ^ f.fraction, Nat.mod_lt _ (Nat.two_pow_pos _), Nat.mod_lt _ (Nat.two_pow_pos _), ?_⟩
  have isSign : (decide (bits / 2 ^ f.fraction / 2 ^ f.exponent = 1)).toNat =
      bits / 2 ^ f.fraction / 2 ^ f.exponent := by
    generalize bits / 2 ^ f.fraction / 2 ^ f.exponent = q at sign
    match q, sign with
    | 0, _ | 1, _ => rfl
  rw [pack, isSign, Nat.div_add_mod', Nat.div_add_mod']

theorem decode_pack_eq_ofInt_iff (small : fraction < 2 ^ f.fraction)
    (inRange : exponent < 2 ^ f.exponent) :
    f.decode (f.pack negative exponent fraction) = some (.ofInt n) ↔
      exponent ≠ 2 ^ f.exponent - 1 ∧
        f.digits negative exponent fraction * 2 ^ max exponent 1 = n * 2 ^ f.offset := by
  rw [decode_pack small inRange]
  by_cases last : exponent = 2 ^ f.exponent - 1
  · simp [last]
  · rw [if_neg last, Option.some.injEq, ofIntWithPrec_eq_ofInt_iff]
    exact (and_iff_right last).symm

theorem decode_zero (f : FloatFormat) (wide : 1 < f.exponent) : f.decode 0 = some (.ofInt 0) := by
  have least : 2 ≤ 2 ^ f.exponent := Nat.le_self_pow (by omega) 2
  have zero : f.pack false 0 0 = 0 := by simp [pack]
  rw [← zero, decode_pack_eq_ofInt_iff (Nat.two_pow_pos _) (Nat.two_pow_pos _)]
  refine ⟨by omega, ?_⟩
  simp [digits, significand]

/-! ## Rounding an integer -/

def Fits (f : FloatFormat) (n : Int) : Prop :=
  ∃ m k, n.natAbs = m * 2 ^ k ∧ m < 2 ^ (f.fraction + 1)

theorem roundNat_eq (pos : 0 < m) (fits : f.Fits m) :
    ∃ s, 2 ^ f.fraction ≤ s ∧ s < 2 * 2 ^ f.fraction ∧ s * 2 ^ m.log2 = m * 2 ^ f.fraction ∧
      f.roundNat m =
        (m.log2 + (2 ^ (f.exponent - 1) - 1)) * 2 ^ f.fraction + (s - 2 ^ f.fraction) := by
  have notZero : m ≠ 0 := Nat.ne_of_gt pos
  have low : 2 ^ m.log2 ≤ m := Nat.log2_self_le notZero
  have high : m < 2 ^ (m.log2 + 1) := Nat.lt_log2_self
  unfold roundNat
  by_cases short : m.log2 ≤ f.fraction
  · have split : 2 ^ f.fraction = 2 ^ (f.fraction - m.log2) * 2 ^ m.log2 := by
      rw [← Nat.pow_add, Nat.sub_add_cancel short]
    refine ⟨m * 2 ^ (f.fraction - m.log2), ?_, ?_, ?_, by simp only [if_pos short]⟩
    · rw [split, Nat.mul_comm]
      exact Nat.mul_le_mul_right _ low
    · rw [split, ← Nat.mul_assoc, Nat.mul_comm, Nat.mul_comm 2, Nat.mul_assoc, Nat.mul_comm 2,
        ← Nat.pow_succ]
      exact (Nat.mul_lt_mul_left (Nat.two_pow_pos _)).2 high
    · rw [Nat.mul_assoc, ← split]
  · have long : f.fraction ≤ m.log2 := Nat.le_of_not_le short
    have split : 2 ^ m.log2 = 2 ^ f.fraction * 2 ^ (m.log2 - f.fraction) := by
      rw [← Nat.pow_add, Nat.add_sub_cancel' long]
    obtain ⟨q, k, eq, few⟩ := fits
    rw [Int.natAbs_natCast] at eq
    have below : 2 ^ m.log2 < 2 ^ (f.fraction + 1 + k) := by
      rw [Nat.pow_add]
      exact low.trans_lt (eq ▸ (Nat.mul_lt_mul_right (Nat.two_pow_pos k)).2 few)
    have exponents : m.log2 - f.fraction ≤ k := by
      have := (Nat.pow_lt_pow_iff_right (by decide)).1 below
      omega
    have divides : 2 ^ (m.log2 - f.fraction) ∣ m :=
      (Nat.pow_dvd_pow 2 exponents).trans ⟨q, by rw [Nat.mul_comm, eq]⟩
    obtain ⟨s, isMultiple⟩ := divides
    have unitPos : 0 < 2 ^ (m.log2 - f.fraction) := Nat.two_pow_pos _
    have isDown : m / 2 ^ (m.log2 - f.fraction) = s :=
      Nat.div_eq_of_eq_mul_right unitPos isMultiple
    have noRest : m % 2 ^ (m.log2 - f.fraction) = 0 := Nat.mod_eq_zero_of_dvd ⟨s, isMultiple⟩
    refine ⟨s, ?_, ?_, ?_, ?_⟩
    · rw [split] at low
      refine Nat.le_of_mul_le_mul_left ?_ unitPos
      rwa [← isMultiple, Nat.mul_comm]
    · rw [Nat.pow_succ, split] at high
      refine Nat.lt_of_mul_lt_mul_left (a := 2 ^ (m.log2 - f.fraction)) ?_
      rw [← isMultiple]
      exact high.trans_eq (by ring)
    · rw [split]
      conv => rhs; rw [isMultiple]
      ring
    · simp [if_neg short, isDown, noRest, unitPos.ne]

theorem pack_lt (small : fraction < 2 ^ f.fraction) (inRange : exponent < 2 ^ f.exponent) :
    f.pack negative exponent fraction < 2 ^ (f.fraction + f.exponent + 1) := by
  have upper : negative.toNat * 2 ^ f.exponent + exponent < 2 * 2 ^ f.exponent := by
    have sign := Nat.mul_le_mul_right (2 ^ f.exponent) (Nat.le_of_lt_succ negative.toNat_lt)
    omega
  have whole := Nat.mul_le_mul_right (2 ^ f.fraction) (Nat.succ_le_of_lt upper)
  rw [Nat.succ_mul] at whole
  calc f.pack negative exponent fraction
      < 2 * 2 ^ f.exponent * 2 ^ f.fraction := by
        rw [pack]
        omega
    _ = 2 ^ (f.fraction + f.exponent + 1) := by ring

theorem ofInt_eq_pack (notZero : n ≠ 0) (fits : f.Fits n) :
    ∃ s, 2 ^ f.fraction ≤ s ∧ s < 2 * 2 ^ f.fraction ∧
      s * 2 ^ n.natAbs.log2 = n.natAbs * 2 ^ f.fraction ∧
      f.ofInt n = f.pack (decide (n < 0)) (n.natAbs.log2 + (2 ^ (f.exponent - 1) - 1))
        (s - 2 ^ f.fraction) := by
  obtain ⟨s, low, high, eq, rounded⟩ := roundNat_eq (Int.natAbs_pos.2 notZero)
    (show f.Fits (n.natAbs : Int) from fits)
  refine ⟨s, low, high, eq, ?_⟩
  rw [ofInt, if_neg notZero, rounded, pack]
  by_cases negative : n < 0
  · simp only [if_pos negative, decide_eq_true negative, Bool.toNat_true]
    ring
  · simp only [if_neg negative, decide_eq_false negative, Bool.toNat_false]
    ring

theorem decode_ofInt (wide : 1 < f.exponent) (fits : f.Fits n)
    (inRange : n.natAbs.log2 + 2 ^ (f.exponent - 1) < 2 ^ f.exponent) :
    f.decode (f.ofInt n) = some (.ofInt n) ∧ f.ofInt n < 2 ^ (f.fraction + f.exponent + 1) := by
  have bias : 2 ≤ 2 ^ (f.exponent - 1) := Nat.le_self_pow (by omega) 2
  by_cases isZero : n = 0
  · rw [isZero, ofInt, if_pos rfl]
    exact ⟨decode_zero f wide, Nat.two_pow_pos _⟩
  · obtain ⟨s, low, high, eq, packed⟩ := ofInt_eq_pack isZero fits
    have small : s - 2 ^ f.fraction < 2 ^ f.fraction := by omega
    have below : n.natAbs.log2 + (2 ^ (f.exponent - 1) - 1) < 2 ^ f.exponent := by omega
    rw [packed]
    refine ⟨(decode_pack_eq_ofInt_iff small below).2 ⟨?_, ?_⟩, pack_lt small below⟩
    · omega
    · have normal : n.natAbs.log2 + (2 ^ (f.exponent - 1) - 1) ≠ 0 := by omega
      have isSignificand : f.significand (n.natAbs.log2 + (2 ^ (f.exponent - 1) - 1))
          (s - 2 ^ f.fraction) = s := by
        rw [significand, if_neg normal]
        omega
      have scaled : s * 2 ^ (n.natAbs.log2 + (2 ^ (f.exponent - 1) - 1)) =
          n.natAbs * 2 ^ f.offset := by
        rw [Nat.pow_add, ← Nat.mul_assoc, eq, offset]
        ring
      have scaled : (s : Int) * 2 ^ (n.natAbs.log2 + (2 ^ (f.exponent - 1) - 1)) =
          n.natAbs * 2 ^ f.offset := by exact_mod_cast scaled
      rw [digits, isSignificand, Nat.max_eq_left (Nat.pos_of_ne_zero normal)]
      by_cases negative : n < 0
      · have isNeg : n = -(n.natAbs : Int) := by omega
        rw [if_pos (decide_eq_true negative), Int.neg_mul, scaled, ← Int.neg_mul, ← isNeg]
      · have isPos : (n.natAbs : Int) = n := by omega
        rw [if_neg (by simpa using negative), scaled, isPos]

/-! ## The bits of an integer -/

theorem eq_zero_of_decode_of_lt (wide : f.fraction < f.offset)
    (small : bits < 2 ^ f.fraction) (decodes : f.decode bits = some (.ofInt n)) : n = 0 := by
  have least : 0 < 2 ^ f.exponent := Nat.two_pow_pos _
  have packed : bits = f.pack false 0 bits := by simp [pack]
  rw [packed] at decodes
  obtain ⟨-, eq⟩ := (decode_pack_eq_ofInt_iff small least).1 decodes
  have eq : (bits : Int) * 2 = n * 2 ^ f.offset := by simpa [digits, significand] using eq
  have unit : 2 * 2 ^ f.fraction ≤ 2 ^ f.offset := by
    rw [← Nat.pow_succ']
    exact Nat.pow_le_pow_right (by decide) wide
  have unit : (2 : Int) * 2 ^ f.fraction ≤ 2 ^ f.offset := by exact_mod_cast unit
  have small : (bits : Int) < 2 ^ f.fraction := by exact_mod_cast small
  rcases lt_trichotomy n 0 with negative | isZero | positive
  · nlinarith
  · exact isZero
  · nlinarith

/-- A format whose exponents are far from what they would have to be for the bits of an integer
to mean that integer. -/
structure Apart (f : FloatFormat) : Prop where
  low : 2 ≤ f.offset
  high : f.offset + 3 ≤ 2 ^ f.exponent
  positive : ∀ d, 2 ^ d ≠ f.offset + d
  negative : ∀ d, 2 ^ d + f.offset + d ≠ 2 ^ f.exponent

theorem eq_zero_of_dvd {a c k : Nat} (odd : c % 2 = 1) (small : a < 2 ^ k)
    (divides : 2 ^ k ∣ a * c) : a = 0 := by
  have coprime : Nat.Coprime (2 ^ k) c :=
    Nat.Coprime.pow_left k (Nat.coprime_two_left.2 (Nat.odd_iff.2 odd))
  exact Nat.eq_zero_of_dvd_of_lt (coprime.dvd_of_dvd_mul_right divides) small

theorem four_le_of_apart (apart : f.Apart) : 4 ≤ 2 ^ f.offset :=
  Nat.pow_le_pow_right (n := 2) (by decide) apart.low

theorem cancel_pow {a b e k : Nat} (eq : a * 2 ^ (k + e) = b * 2 ^ k) : a * 2 ^ e = b := by
  refine Nat.eq_of_mul_eq_mul_right (Nat.two_pow_pos k) ?_
  rw [← eq, Nat.pow_add]
  ring

theorem fields_of_positive (apart : f.Apart) (small : fraction < 2 ^ f.fraction)
    (eq : f.significand exponent fraction * 2 ^ max exponent 1 =
      (exponent * 2 ^ f.fraction + fraction) * 2 ^ f.offset) :
    exponent = 0 ∧ fraction = 0 := by
  have four := four_le_of_apart apart
  have pos : 0 < 2 ^ f.fraction := Nat.two_pow_pos _
  rcases Nat.eq_zero_or_pos exponent with rfl | normal
  · have eq : fraction * 2 = fraction * 2 ^ f.offset := by simpa [significand] using eq
    refine ⟨rfl, ?_⟩
    by_contra notZero
    have := Nat.eq_of_mul_eq_mul_left (Nat.pos_of_ne_zero notZero) eq
    omega
  · exfalso
    rw [significand, if_neg normal.ne', Nat.max_eq_left normal] at eq
    rcases Nat.le_total exponent f.offset with below | beyond
    · obtain ⟨e, atOffset⟩ := Nat.exists_eq_add_of_le below
      have eq : (exponent * 2 ^ f.fraction + fraction) * 2 ^ e = 2 ^ f.fraction + fraction :=
        cancel_pow (atOffset ▸ eq).symm
      have more : 2 ^ f.fraction ≤ exponent * 2 ^ f.fraction := Nat.le_mul_of_pos_left _ normal
      have exact : e = 0 := by
        by_contra notZero
        have two : 2 ≤ 2 ^ e := Nat.le_self_pow notZero 2
        have doubled := Nat.mul_le_mul_left (exponent * 2 ^ f.fraction + fraction) two
        omega
      subst exact
      have isOne : exponent * 2 ^ f.fraction = 1 * 2 ^ f.fraction := by omega
      have isOne := Nat.eq_of_mul_eq_mul_right pos isOne
      have low := apart.low
      omega
    · obtain ⟨d, rfl⟩ := Nat.exists_eq_add_of_le beyond
      have eq := cancel_pow eq
      have odd : 2 ^ d ≠ 1 → (2 ^ d - 1) % 2 = 1 := by
        cases d with
        | zero => exact fun notOne => absurd rfl notOne
        | succ d =>
          have := Nat.two_pow_pos d
          rw [Nat.pow_succ]
          omega
      have split : fraction * (2 ^ d - 1) + 2 ^ d * 2 ^ f.fraction =
          (f.offset + d) * 2 ^ f.fraction := by
        have whole : fraction * 2 ^ d = fraction * (2 ^ d - 1) + fraction := by
          rw [← Nat.mul_succ, Nat.succ_eq_add_one, Nat.sub_add_cancel (Nat.two_pow_pos d)]
        rw [Nat.add_mul, whole, Nat.mul_comm (2 ^ f.fraction)] at eq
        omega
      have divides : 2 ^ f.fraction ∣ fraction * (2 ^ d - 1) :=
        (Nat.dvd_add_left ⟨2 ^ d, Nat.mul_comm _ _⟩).1 ⟨f.offset + d, by rw [split, Nat.mul_comm]⟩
      have rest : fraction * (2 ^ d - 1) = 0 := by
        by_cases isOne : 2 ^ d = 1
        · rw [isOne, Nat.sub_self, Nat.mul_zero]
        · rw [eq_zero_of_dvd (odd isOne) small divides, Nat.zero_mul]
      rw [rest, Nat.zero_add] at split
      exact apart.positive d (Nat.eq_of_mul_eq_mul_right pos split)

theorem fields_of_negative (apart : f.Apart) (small : fraction < 2 ^ f.fraction) {k : Nat}
    (lower : k + (exponent * 2 ^ f.fraction + fraction) = 2 ^ f.exponent * 2 ^ f.fraction)
    (eq : f.significand exponent fraction * 2 ^ max exponent 1 = k * 2 ^ f.offset) : False := by
  have four := four_le_of_apart apart
  have pos : 0 < 2 ^ f.fraction := Nat.two_pow_pos _
  have room := Nat.mul_le_mul_right (2 ^ f.fraction) apart.high
  rw [Nat.add_mul] at room
  rcases Nat.eq_zero_or_pos exponent with rfl | normal
  · have eq : fraction * 2 = k * 2 ^ f.offset := by simpa [significand] using eq
    have more := Nat.mul_le_mul_left k four
    omega
  · rw [significand, if_neg normal.ne', Nat.max_eq_left normal] at eq
    rcases Nat.le_total exponent f.offset with below | beyond
    · obtain ⟨e, atOffset⟩ := Nat.exists_eq_add_of_le below
      have eq : k * 2 ^ e = 2 ^ f.fraction + fraction := cancel_pow (atOffset ▸ eq).symm
      have more : k ≤ k * 2 ^ e := Nat.le_mul_of_pos_right _ (Nat.two_pow_pos e)
      have under := Nat.mul_le_mul_right (2 ^ f.fraction) below
      omega
    · obtain ⟨d, rfl⟩ := Nat.exists_eq_add_of_le beyond
      have eq := cancel_pow eq
      rw [Nat.add_mul (2 ^ f.fraction)] at eq
      rcases Nat.eq_zero_or_pos d with rfl | larger
      · simp only [Nat.pow_zero, Nat.mul_one, Nat.add_zero] at eq lower
        omega
      have odd : (2 ^ d + 1) % 2 = 1 := by
        obtain ⟨c, rfl⟩ := Nat.exists_eq_add_of_le' larger
        rw [Nat.pow_succ]
        omega
      have split : fraction * (2 ^ d + 1) + (2 ^ d + f.offset + d) * 2 ^ f.fraction =
          2 ^ f.exponent * 2 ^ f.fraction := by
        rw [← lower, ← eq]
        ring
      have divides : 2 ^ f.fraction ∣ fraction * (2 ^ d + 1) :=
        (Nat.dvd_add_left ⟨2 ^ d + f.offset + d, Nat.mul_comm _ _⟩).1
          ⟨2 ^ f.exponent, by rw [split, Nat.mul_comm]⟩
      rw [eq_zero_of_dvd odd small divides, Nat.zero_mul, Nat.zero_add] at split
      exact apart.negative d (Nat.eq_of_mul_eq_mul_right pos split)

theorem eq_zero_of_decode_toInt {w : Nat} (apart : f.Apart)
    (width : w = f.fraction + f.exponent + 1) {b : BitVec w}
    (decodes : f.decode b.toNat = some (.ofInt b.toInt)) : b.toInt = 0 := by
  subst width
  obtain ⟨negative, exponent, fraction, small, inRange, packed⟩ := exists_pack b.isLt
  have lower : exponent * 2 ^ f.fraction + fraction < 2 ^ f.exponent * 2 ^ f.fraction := by
    have room := Nat.mul_le_mul_right (2 ^ f.fraction) (Nat.succ_le_of_lt inRange)
    rw [Nat.succ_mul] at room
    omega
  have whole : 2 ^ (f.fraction + f.exponent + 1) = 2 * (2 ^ f.exponent * 2 ^ f.fraction) := by ring
  rw [packed, decode_pack_eq_ofInt_iff small inRange] at decodes
  have value := BitVec.toInt_eq_toNat_cond b
  cases negative with
  | false =>
    have isLower : b.toNat = exponent * 2 ^ f.fraction + fraction := by simp [packed, pack]
    rw [if_pos (by omega), isLower] at value
    have eq := decodes.2
    rw [value, digits, if_neg Bool.false_ne_true] at eq
    have eq : f.significand exponent fraction * 2 ^ max exponent 1 =
        (exponent * 2 ^ f.fraction + fraction) * 2 ^ f.offset := by exact_mod_cast eq
    obtain ⟨rfl, rfl⟩ := fields_of_positive apart small eq
    simpa using value
  | true =>
    exfalso
    obtain ⟨k, gap⟩ := Nat.exists_eq_add_of_lt lower
    have isLower : b.toNat = 2 ^ f.exponent * 2 ^ f.fraction +
        (exponent * 2 ^ f.fraction + fraction) := by
      rw [packed, pack, Bool.toNat_true]
      ring
    rw [if_neg (by omega), isLower, whole] at value
    have isGap : b.toInt = -((k + 1 : Nat) : Int) := by omega
    have eq := decodes.2
    rw [isGap, digits, if_pos rfl, Int.neg_mul, Int.neg_mul, Int.neg_inj] at eq
    have rest : k + 1 + (exponent * 2 ^ f.fraction + fraction) =
        2 ^ f.exponent * 2 ^ f.fraction := by omega
    exact fields_of_negative apart small rest (by exact_mod_cast eq)

theorem lt_two_pow {c k d : Nat} (start : c + k < 2 ^ k) (past : k ≤ d) : c + d < 2 ^ d := by
  induction d, past using Nat.le_induction with
  | base => exact start
  | succ d _ ih =>
    rw [Nat.pow_succ]
    omega

theorem apart_single : single.Apart where
  low := by decide
  high := by decide
  positive d := by
    by_cases small : d < 8
    · revert d
      decide
    · exact (lt_two_pow (by decide) (Nat.le_of_not_lt small)).ne'
  negative d := by
    by_cases small : d < 7
    · revert d
      decide
    · have large := Nat.pow_le_pow_right (n := 2) (by decide) (Nat.le_of_not_lt small)
      change 2 ^ d + 150 + d ≠ 256
      omega

theorem apart_double : double.Apart where
  low := by decide
  high := by decide
  positive d := by
    by_cases small : d < 11
    · revert d
      decide
    · exact (lt_two_pow (by decide) (Nat.le_of_not_lt small)).ne'
  negative d := by
    by_cases small : d < 10
    · revert d
      decide
    · have large := Nat.pow_le_pow_right (n := 2) (by decide) (Nat.le_of_not_lt small)
      change 2 ^ d + 1075 + d ≠ 2048
      omega

end FloatFormat

end Dux.Codegen.Payload
