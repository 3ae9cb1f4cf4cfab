import Mathlib.Algebra.Order.Ring.Nat
import Mathlib.Data.Nat.Log
import Mathlib.Tactic.Linarith
import Mathlib.Tactic.Positivity
import Mathlib.Tactic.Ring

/-!
# Rounding integers

A natural number is rounded to the nearest multiple of a unit, to the even one of two, and to a
number of binary digits.  Rounding it to fewer digits after it has been rounded to more of them is
not the same as doing so at once.
-/

namespace Dux.Logic

/-- The nearest multiple of a unit, the even one of two. -/
def roundTo (unit m : Nat) : Nat :=
  (if unit < 2 * (m % unit) ∨ 2 * (m % unit) = unit ∧ m / unit % 2 = 1 then m / unit + 1
    else m / unit) * unit

/-- The number rounded to its first binary digit and so many behind it. -/
def roundBits (digits m : Nat) : Nat := roundTo (2 ^ (m.log2 - digits)) m

/-- Rounded to the smaller unit, the number becomes the middle of two multiples of the larger one,
of which the even one is on the other side. -/
def Slips (unit small m : Nat) : Prop :=
  ∃ q, 2 * roundTo small m = (2 * q + 1) * unit ∧
    (q % 2 = 0 → roundTo small m < m) ∧ (q % 2 = 1 → m < roundTo small m)

variable {unit small m d r : Nat}

/-! ## Multiples of a unit -/

theorem roundTo_add (isRest : r < unit) : roundTo unit (d * unit + r) =
    (if unit < 2 * r ∨ 2 * r = unit ∧ d % 2 = 1 then d + 1 else d) * unit := by
  have pos : 0 < unit := Nat.zero_lt_of_lt isRest
  have quotient : (d * unit + r) / unit = d := by
    rw [Nat.add_comm, Nat.add_mul_div_right _ _ pos, Nat.div_eq_of_lt isRest, Nat.zero_add]
  have remainder : (d * unit + r) % unit = r := by
    rw [Nat.mul_add_mod_of_lt isRest]
  rw [roundTo, quotient, remainder]

theorem roundTo_mul (pos : 0 < unit) (d : Nat) : roundTo unit (d * unit) = d * unit := by
  have noRest := roundTo_add (d := d) pos
  rwa [Nat.add_zero, if_neg (by omega)] at noRest

theorem roundTo_one (m : Nat) : roundTo 1 m = m := by
  have noUnit := roundTo_mul Nat.one_pos m
  rwa [Nat.mul_one] at noUnit

theorem div_mul_le_roundTo (unit m : Nat) : m / unit * unit ≤ roundTo unit m := by
  rw [roundTo]
  split
  · exact Nat.mul_le_mul_right _ (Nat.le_succ _)
  · exact le_rfl

/-! ## Rounding twice -/

section Twice

variable {a b c k w s : Nat}

theorem mul_add_lt_mul (less : b < k) (isRest : s < w) : b * w + s < k * w := by
  have next := Nat.mul_le_mul_right w (Nat.succ_le_of_lt less)
  rw [Nat.succ_mul] at next
  omega

theorem half_lt_iff (isRest : s < w) :
    2 * k * w < 2 * (b * w + s) ↔ k < b ∨ b = k ∧ 0 < s := by
  rw [Nat.mul_assoc, Nat.mul_lt_mul_left Nat.two_pos]
  rcases Nat.lt_trichotomy b k with less | rfl | more
  · have below := mul_add_lt_mul less isRest
    omega
  · omega
  · have beyond := mul_add_lt_mul more (Nat.zero_lt_of_lt isRest)
    omega

theorem eq_half_iff (isRest : s < w) : 2 * (b * w + s) = 2 * k * w ↔ b = k ∧ s = 0 := by
  rw [Nat.mul_assoc, Nat.mul_right_inj two_ne_zero]
  rcases Nat.lt_trichotomy b k with less | rfl | more
  · have below := mul_add_lt_mul less isRest
    omega
  · omega
  · have beyond := mul_add_lt_mul more (Nat.zero_lt_of_lt isRest)
    omega

theorem middle_iff (half : 0 < k) (pos : 0 < w) (few : c ≤ 2 * k) (q : Nat) :
    2 * ((a * (2 * k) + c) * w) = (2 * q + 1) * (2 * k * w) ↔ q = a ∧ c = k := by
  have units : 2 * ((a * (2 * k) + c) * w) = (2 * q + 1) * (2 * k * w) ↔
      a * (2 * k) + c = (2 * q + 1) * k := by
    have left : 2 * ((a * (2 * k) + c) * w) = 2 * w * (a * (2 * k) + c) := by ring
    have right : (2 * q + 1) * (2 * k * w) = 2 * w * ((2 * q + 1) * k) := by ring
    rw [left, right, Nat.mul_right_inj (by omega)]
  rw [units]
  constructor
  · intro same
    rcases Nat.lt_trichotomy q a with less | rfl | more
    · obtain ⟨e, rfl⟩ := Nat.exists_eq_add_of_lt less
      have apart : 2 * (q * k) + 2 * (e * k) + 2 * k + c = 2 * (q * k) + k := by linarith
      omega
    · refine ⟨rfl, ?_⟩
      have same : 2 * (q * k) + c = 2 * (q * k) + k := by linarith
      omega
    · obtain ⟨e, rfl⟩ := Nat.exists_eq_add_of_lt more
      have apart : 2 * (a * k) + c = 2 * (a * k) + 2 * (e * k) + 3 * k := by linarith
      omega
  · rintro ⟨rfl, rfl⟩
    ring

theorem slips_iff (half : 0 < k) (pos : 0 < w) (few : c ≤ 2 * k) (m : Nat)
    (rounded : roundTo w m = (a * (2 * k) + c) * w) :
    Slips (2 * k * w) w m ↔
      c = k ∧ (a % 2 = 0 → roundTo w m < m) ∧ (a % 2 = 1 → m < roundTo w m) := by
  rw [Slips]
  constructor
  · rintro ⟨q, isMiddle, even, odd⟩
    rw [rounded, middle_iff half pos few] at isMiddle
    obtain ⟨rfl, isHalf⟩ := isMiddle
    exact ⟨isHalf, even, odd⟩
  · rintro ⟨isHalf, even, odd⟩
    exact ⟨a, by rw [rounded, middle_iff half pos few]; exact ⟨rfl, isHalf⟩, even, odd⟩

/-- Rounding to the smaller unit in between changes the result exactly if the number slips over
the middle. -/
theorem roundTo_roundTo_iff (half : 0 < k) (pos : 0 < w) (m : Nat) :
    roundTo (2 * k * w) (roundTo w m) = roundTo (2 * k * w) m ↔ ¬Slips (2 * k * w) w m := by
  have unit : 0 < 2 * k * w := by positivity
  obtain ⟨a, b, s, less, isRest, rfl⟩ :
      ∃ a b s, b < 2 * k ∧ s < w ∧ m = (a * (2 * k) + b) * w + s := by
    refine ⟨m / w / (2 * k), m / w % (2 * k), m % w, Nat.mod_lt _ (by positivity),
      Nat.mod_lt _ pos, ?_⟩
    rw [Nat.div_add_mod', Nat.div_add_mod']
  have isSum : (a * (2 * k) + b) * w + s = a * (2 * k * w) + (b * w + s) := by ring
  have rest : b * w + s < 2 * k * w := mul_add_lt_mul less isRest
  have parity : (a * (2 * k) + b) % 2 = b % 2 := by
    rw [Nat.mul_left_comm]
    omega
  have once : roundTo (2 * k * w) ((a * (2 * k) + b) * w + s) =
      (if (k < b ∨ b = k ∧ 0 < s) ∨ (b = k ∧ s = 0) ∧ a % 2 = 1 then a + 1 else a) *
        (2 * k * w) := by
    rw [isSum, roundTo_add rest]
    simp only [half_lt_iff isRest, eq_half_iff isRest]
  have first := roundTo_add (d := a * (2 * k) + b) isRest
  rw [parity] at first
  -- the number rounded first, below the next multiple of the larger unit or there
  have twice {c : Nat} (below : c < 2 * k) : roundTo (2 * k * w) ((a * (2 * k) + c) * w) =
      (if k < c ∨ c = k ∧ a % 2 = 1 then a + 1 else a) * (2 * k * w) := by
    have isSum : (a * (2 * k) + c) * w = a * (2 * k * w) + (c * w + 0) := by ring
    rw [isSum, roundTo_add (mul_add_lt_mul below pos)]
    simp only [half_lt_iff pos, eq_half_iff pos, Nat.lt_irrefl, and_false, or_false, and_true]
  by_cases up : w < 2 * s ∨ 2 * s = w ∧ b % 2 = 1
  · rw [if_pos up] at first
    have first : roundTo w ((a * (2 * k) + b) * w + s) = (a * (2 * k) + (b + 1)) * w := first
    have more : (a * (2 * k) + b) * w + s < (a * (2 * k) + (b + 1)) * w :=
      mul_add_lt_mul (Nat.lt_succ_self _) isRest
    rw [slips_iff half pos (Nat.succ_le_of_lt less) _ first, first, once]
    by_cases carry : b + 1 = 2 * k
    · have isNext : (a * (2 * k) + (b + 1)) * w = (a + 1) * (2 * k * w) := by
        rw [carry]
        ring
      rw [isNext, roundTo_mul unit, if_pos (.inl (by omega))]
      refine iff_of_true rfl fun slips => ?_
      omega
    · rw [twice (by omega), Nat.mul_left_inj unit.ne']
      split_ifs <;> omega
  · rw [if_neg up] at first
    rw [slips_iff half pos less.le _ first, first, once, twice less, Nat.mul_left_inj unit.ne']
    split_ifs <;> omega

end Twice

/-! ## Binary digits -/

section Digits

variable {digits fewer j : Nat}

theorem roundBits_of_log2_le (short : m.log2 ≤ digits) : roundBits digits m = m := by
  rw [roundBits, Nat.sub_eq_zero_of_le short]
  exact roundTo_one m

theorem roundBits_of_lt (small : m < 2 ^ (digits + 1)) : roundBits digits m = m := by
  by_cases isZero : m = 0
  · rw [isZero]
    exact roundBits_of_log2_le (Nat.zero_le _)
  · exact roundBits_of_log2_le (Nat.le_of_lt_succ ((Nat.log2_lt isZero).2 small))

theorem roundBits_mul_two_pow (small : m < 2 ^ (digits + 1)) (k : Nat) :
    roundBits digits (m * 2 ^ k) = m * 2 ^ k := by
  by_cases isZero : m = 0
  · rw [isZero, Nat.zero_mul]
    exact roundBits_of_lt (Nat.two_pow_pos _)
  · have short : (m * 2 ^ k).log2 - digits ≤ k := by
      have positive : m * 2 ^ k ≠ 0 := Nat.mul_ne_zero isZero (Nat.two_pow_pos k).ne'
      have below : (m * 2 ^ k).log2 < digits + 1 + k := by
        rw [Nat.log2_lt positive, Nat.pow_add]
        exact (Nat.mul_lt_mul_right (Nat.two_pow_pos k)).2 small
      omega
    have isMultiple : m * 2 ^ k =
        m * 2 ^ (k - ((m * 2 ^ k).log2 - digits)) * 2 ^ ((m * 2 ^ k).log2 - digits) := by
      rw [Nat.mul_assoc, ← Nat.pow_add, Nat.sub_add_cancel short]
    rw [roundBits]
    generalize (m * 2 ^ k).log2 - digits = unit at isMultiple
    rw [isMultiple]
    exact roundTo_mul (Nat.two_pow_pos unit) _

theorem two_pow_le_roundBits (large : 2 ^ j ≤ m) : 2 ^ j ≤ roundBits digits m := by
  have positive : m ≠ 0 := (Nat.lt_of_lt_of_le (Nat.two_pow_pos j) large).ne'
  rcases Nat.le_total m.log2 digits with short | long
  · rwa [roundBits_of_log2_le short]
  · have first : 2 ^ m.log2 = 2 ^ digits * 2 ^ (m.log2 - digits) := by
      rw [← Nat.pow_add, Nat.add_sub_cancel' long]
    have down : 2 ^ digits ≤ m / 2 ^ (m.log2 - digits) := by
      rw [Nat.le_div_iff_mul_le (Nat.two_pow_pos _), ← first]
      exact Nat.log2_self_le positive
    calc 2 ^ j ≤ 2 ^ m.log2 := Nat.pow_le_pow_right (by decide) ((Nat.le_log2 positive).2 large)
      _ ≤ m / 2 ^ (m.log2 - digits) * 2 ^ (m.log2 - digits) := by
        rw [first]
        exact Nat.mul_le_mul_right _ down
      _ ≤ roundBits digits m := div_mul_le_roundTo _ _

theorem exists_roundBits (long : digits < m.log2) :
    ∃ d, 2 ^ digits ≤ d ∧ d ≤ 2 ^ (digits + 1) ∧ roundBits digits m = d * 2 ^ (m.log2 - digits) ∧
      d = if 2 ^ (m.log2 - digits) < 2 * (m % 2 ^ (m.log2 - digits)) ∨
          2 * (m % 2 ^ (m.log2 - digits)) = 2 ^ (m.log2 - digits) ∧
            m / 2 ^ (m.log2 - digits) % 2 = 1
        then m / 2 ^ (m.log2 - digits) + 1 else m / 2 ^ (m.log2 - digits) := by
  have positive : m ≠ 0 := by
    rintro rfl
    exact absurd long (by simp)
  have first : 2 ^ m.log2 = 2 ^ digits * 2 ^ (m.log2 - digits) := by
    rw [← Nat.pow_add, Nat.add_sub_cancel' long.le]
  have low : 2 ^ digits ≤ m / 2 ^ (m.log2 - digits) := by
    rw [Nat.le_div_iff_mul_le (Nat.two_pow_pos _), ← first]
    exact Nat.log2_self_le positive
  have high : m / 2 ^ (m.log2 - digits) < 2 ^ (digits + 1) := by
    rw [Nat.div_lt_iff_lt_mul (Nat.two_pow_pos _), Nat.pow_succ, Nat.mul_right_comm, ← first]
    exact Nat.lt_log2_self
  refine ⟨_, ?_, ?_, rfl, rfl⟩
  · split
    · exact low.trans (Nat.le_succ _)
    · exact low
  · split
    · exact high
    · exact high.le

theorem log2_roundBits (long : digits < m.log2) :
    (roundBits digits m).log2 = m.log2 ∨ roundBits digits m = 2 ^ (m.log2 + 1) := by
  have positive : m ≠ 0 := by
    rintro rfl
    exact absurd long (by simp)
  obtain ⟨d, -, high, isRounded, -⟩ := exists_roundBits long
  have next : 2 ^ (m.log2 + 1) = 2 ^ (digits + 1) * 2 ^ (m.log2 - digits) := by
    rw [← Nat.pow_add]
    congr 1
    omega
  rcases Nat.lt_or_eq_of_le high with below | rfl
  · left
    have low : 2 ^ m.log2 ≤ roundBits digits m := two_pow_le_roundBits (Nat.log2_self_le positive)
    have notZero : roundBits digits m ≠ 0 :=
      (Nat.lt_of_lt_of_le (Nat.two_pow_pos _) low).ne'
    rw [Nat.log2_eq_iff notZero]
    refine ⟨low, ?_⟩
    rw [isRounded, next]
    exact (Nat.mul_lt_mul_right (Nat.two_pow_pos _)).2 below
  · right
    rw [isRounded, next]

theorem roundTo_two_pow {i : Nat} (less : i ≤ j) : roundTo (2 ^ i) (2 ^ j) = 2 ^ j := by
  have isMultiple : 2 ^ j = 2 ^ (j - i) * 2 ^ i := by rw [← Nat.pow_add, Nat.sub_add_cancel less]
  rw [isMultiple]
  exact roundTo_mul (Nat.two_pow_pos i) _

/-- Rounding to more digits first changes the result exactly if the number slips over the middle of
two numbers of fewer digits. -/
theorem roundBits_roundBits_iff {fewer digits : Nat} (less : fewer < digits) (m : Nat) :
    roundBits fewer (roundBits digits m) = roundBits fewer m ↔
      ¬Slips (2 ^ (m.log2 - fewer)) (2 ^ (m.log2 - digits)) m := by
  rcases Nat.lt_or_ge digits m.log2 with long | short
  · have units : 2 ^ (m.log2 - fewer) = 2 * 2 ^ (digits - fewer - 1) * 2 ^ (m.log2 - digits) := by
      rw [← Nat.pow_succ', ← Nat.pow_add]
      congr 1
      omega
    have twice := roundTo_roundTo_iff (Nat.two_pow_pos (digits - fewer - 1))
      (Nat.two_pow_pos (m.log2 - digits)) m
    rw [← units] at twice
    have sameUnit : roundBits fewer (roundBits digits m) =
        roundTo (2 ^ (m.log2 - fewer)) (roundBits digits m) := by
      rcases log2_roundBits long with same | next
      · rw [roundBits, same]
      · rw [next, roundBits, Nat.log2_two_pow, roundTo_two_pow (by omega),
          roundTo_two_pow (by omega)]
    rw [sameUnit]
    exact twice
  · rw [roundBits_of_log2_le short, Nat.sub_eq_zero_of_le short]
    refine iff_of_true rfl ?_
    rintro ⟨q, -, even, odd⟩
    rw [Nat.pow_zero, roundTo_one] at even odd
    rcases Nat.mod_two_eq_zero_or_one q with isEven | isOdd
    · exact Nat.lt_irrefl _ (even isEven)
    · exact Nat.lt_irrefl _ (odd isOdd)

end Digits

end Dux.Logic
