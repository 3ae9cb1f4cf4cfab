import Mathlib.Algebra.Group.Nat.Defs
import Mathlib.Algebra.Ring.Int.Defs
import Mathlib.Data.Int.Basic

/-!
# Loops over ranges

`gen_for_in` (`src/codegen/codegen.cpp`) for `lo..<hi`, `lo..=hi` and `range(n)`.  The loop
variable is a machine integer of 32 or 64 bits; both bounds are cast to its width before the
first round, and it is incremented after every round, also the last one.
-/

namespace Dux.Codegen.Ranges

/-- The types a loop variable has here. -/
inductive VarType
  | int
  | long
  deriving DecidableEq, Repr

def VarType.width : VarType → Nat
  | .int => 32
  | .long => 64

/-- A bound: a value of an integral type by its bits. -/
inductive Bound
  | bool (bits : BitVec 1)
  | int (bits : BitVec 32)
  | long (bits : BitVec 64)
  deriving DecidableEq, Repr

/-- The integer a bound is; `true` is one. -/
def Bound.value : Bound → Int
  | .bool bits => bits.toNat
  | .int bits => bits.toInt
  | .long bits => bits.toInt

/-- `CreateIntCast` with a sign. -/
def Bound.cast (w : Nat) : Bound → BitVec w
  | .bool bits => bits.signExtend w
  | .int bits => bits.signExtend w
  | .long bits => bits.signExtend w

/-- What a loop iterates over. -/
inductive Form
  | excl (lo hi : Bound)
  | incl (lo hi : Bound)
  | range (n : Bound)

namespace Form

def inclusive : Form → Bool
  | .excl _ _ => false
  | .incl _ _ => true
  | .range _ => false

def hi : Form → Bound
  | .excl _ hi => hi
  | .incl _ hi => hi
  | .range n => n

def start (w : Nat) : Form → BitVec w
  | .excl lo _ => lo.cast w
  | .incl lo _ => lo.cast w
  | .range _ => 0

def first : Form → Int
  | .excl lo _ => lo.value
  | .incl lo _ => lo.value
  | .range _ => 0

def count (f : Form) : Nat := (f.hi.value - f.first + if f.inclusive then 1 else 0).toNat

end Form

section Loop

variable {w : Nat} {σ : Type}

/-- Where control goes after the body: on to the increment, at its end or by `continue`, or out
of the loop. -/
inductive Exit
  | next
  | leave
  deriving DecidableEq, Repr

/-- What a body makes of the loop variable and of the rest of the state. -/
abbrev Body (w : Nat) (σ : Type) := BitVec w → σ → Exit × BitVec w × σ

/-- The values the body was entered with, the last state, and whether the body has left the
loop. -/
structure Outcome (σ : Type) where
  visited : List Int
  state : σ
  left : Bool

/-- Another round in front. -/
def Outcome.after (x : Int) (o : Outcome σ) : Outcome σ := { o with visited := x :: o.visited }

/-- The blocks `for.cond`, `for.body` and `for.incr`; `none` when the fuel runs out. -/
def rangeLoop (body : Body w σ) (inclusive : Bool) (hi : BitVec w) :
    Nat → BitVec w → σ → Option (Outcome σ)
  | 0, _, _ => none
  | fuel + 1, i, s =>
      if (if inclusive then i.sle hi else i.slt hi) then
        match body i s with
        | (.leave, _, s') => some ⟨[i.toInt], s', true⟩
        | (.next, i', s') => (rangeLoop body inclusive hi fuel (i' + 1) s').map (·.after i.toInt)
      else some ⟨[], s, false⟩

/-- `gen_for_in` over a range. -/
def genForIn (ty : VarType) (f : Form) (body : Body ty.width σ) (fuel : Nat) (s : σ) :
    Option (Outcome σ) :=
  rangeLoop body f.inclusive (f.hi.cast ty.width) fuel (f.start ty.width) s

/-! ## What the loop stands for -/

/-- The body run once for each of `n` integers in increasing order, until it leaves. -/
def overRange (body : Body w σ) : Nat → Int → σ → Outcome σ
  | 0, _, s => ⟨[], s, false⟩
  | n + 1, x, s =>
      match body (BitVec.ofInt w x) s with
      | (.leave, _, s') => ⟨[x], s', true⟩
      | (.next, _, s') => (overRange body n (x + 1) s').after x

def KeepsVar (body : Body w σ) : Prop := ∀ i s, (body i s).2.1 = i

end Loop

def VarType.Holds (ty : VarType) (x : Int) : Prop :=
  -2 ^ (ty.width - 1) ≤ x ∧ x < 2 ^ (ty.width - 1)

/-- No bound is changed by its cast, and every body is run once for each integer of the range
in increasing order, until it leaves; then the loop ends. -/
structure Exact (ty : VarType) (f : Form) : Prop where
  lo : (f.start ty.width).toInt = f.first
  hi : (f.hi.cast ty.width).toInt = f.hi.value
  covers : ∀ (σ : Type) (body : Body ty.width σ), KeepsVar body → ∀ s, ∃ fuel,
    genForIn ty f body fuel s = some (overRange body f.count f.first s)

instance (ty : VarType) (x : Int) : Decidable (ty.Holds x) := inferInstanceAs (Decidable (_ ∧ _))

/-- A bound means itself: it is not `true` and the loop variable can hold it. -/
def Bound.Fits (ty : VarType) (b : Bound) : Prop := b ≠ .bool 1 ∧ ty.Holds b.value

instance (ty : VarType) (b : Bound) : Decidable (b.Fits ty) := inferInstanceAs (Decidable (_ ∧ _))

/-- The last integer of an inclusive range is not the largest one. -/
def Form.StopsBelow (ty : VarType) : Form → Prop
  | .excl lo hi => lo.Fits ty ∧ hi.Fits ty
  | .incl lo hi => lo.Fits ty ∧ hi.Fits ty ∧ hi.value ≠ 2 ^ (ty.width - 1) - 1
  | .range n => n.Fits ty

/-! ## Casts -/

theorem VarType.holds_iff (ty : VarType) (x : Int) :
    ty.Holds x ↔ x.bmod (2 ^ ty.width) = x := by
  cases ty <;> simp only [Holds, width, Int.bmod_def] <;> constructor <;> intro fits <;> omega

theorem VarType.holds_toInt (ty : VarType) (i : BitVec ty.width) : ty.Holds i.toInt := by
  have above := BitVec.two_mul_toInt_lt (x := i)
  have below := BitVec.le_two_mul_toInt (x := i)
  cases ty <;> simp only [Holds, width] at * <;> omega

theorem Bound.toInt_cast_iff (ty : VarType) (b : Bound) :
    (b.cast ty.width).toInt = b.value ↔ b.Fits ty := by
  cases b with
  | bool bits =>
    rcases BitVec.eq_zero_or_eq_one bits with rfl | rfl
    · cases ty <;> decide
    · cases ty <;> decide
  | int bits =>
    have holds : VarType.int.Holds bits.toInt := VarType.int.holds_toInt bits
    rw [Fits, cast, value, BitVec.toInt_signExtend]
    cases ty with
    | int => simpa [VarType.width, holds] using (VarType.int.holds_iff _).1 holds
    | long =>
      have wider : VarType.long.Holds bits.toInt := by
        simp only [VarType.Holds, VarType.width] at *
        omega
      simpa [VarType.width, wider] using (VarType.int.holds_iff _).1 holds
  | long bits =>
    rw [Fits, cast, value, BitVec.toInt_signExtend]
    cases ty with
    | int => simp [VarType.width, VarType.holds_iff]
    | long => simp [VarType.width, VarType.holds_iff]

theorem Form.start_iff (ty : VarType) (f : Form) :
    ((f.start ty.width).toInt = f.first ∧ (f.hi.cast ty.width).toInt = f.hi.value) ∧
      (f.inclusive = true → f.hi.value ≠ 2 ^ (ty.width - 1) - 1) ↔ f.StopsBelow ty := by
  cases f with
  | excl lo hi =>
    simp [start, first, Form.hi, inclusive, StopsBelow, Bound.toInt_cast_iff]
  | incl lo hi =>
    simp [start, first, Form.hi, inclusive, StopsBelow, Bound.toInt_cast_iff, and_assoc]
  | range n =>
    simp [start, first, Form.hi, inclusive, StopsBelow, Bound.toInt_cast_iff]

/-! ## Rounds -/

section Rounds

variable {ty : VarType} {σ : Type} {body : Body ty.width σ} {inclusive : Bool}
  {hi i : BitVec ty.width}

def left (inclusive : Bool) (hi i : BitVec ty.width) : Nat :=
  (hi.toInt - i.toInt + if inclusive then 1 else 0).toNat

theorem cond_iff : (if inclusive then i.sle hi else i.slt hi) = true ↔
    0 < left inclusive hi i := by
  cases inclusive with
  | false =>
    simp only [left, Bool.false_eq_true, if_false, BitVec.slt_iff_toInt_lt]
    omega
  | true =>
    simp only [left, if_true, BitVec.sle_iff_toInt_le]
    omega

theorem toInt_succ (below : i.toInt < 2 ^ (ty.width - 1) - 1) :
    (i + 1).toInt = i.toInt + 1 := by
  have holds := ty.holds_toInt i
  have one : (1 : BitVec ty.width).toInt = 1 := by cases ty <;> rfl
  have fits : ty.Holds (i.toInt + 1) := by
    cases ty <;> simp only [VarType.Holds, VarType.width] at * <;> omega
  rw [BitVec.toInt_add, one]
  exact (ty.holds_iff _).1 fits

theorem left_succ (more : 0 < left inclusive hi i)
    (below : inclusive = true → hi.toInt ≠ 2 ^ (ty.width - 1) - 1) :
    (i + 1).toInt = i.toInt + 1 ∧ left inclusive hi i = left inclusive hi (i + 1) + 1 := by
  have holds := ty.holds_toInt hi
  have succ : (i + 1).toInt = i.toInt + 1 := by
    refine toInt_succ ?_
    simp only [left] at more
    cases inclusive with
    | false =>
      rw [VarType.Holds] at holds
      simp only [Bool.false_eq_true, if_false] at more
      omega
    | true =>
      rw [VarType.Holds] at holds
      have below := below rfl
      simp only [if_true] at more
      omega
  refine ⟨succ, ?_⟩
  simp only [left, succ] at *
  omega

theorem rangeLoop_covers (keeps : KeepsVar body)
    (below : inclusive = true → hi.toInt ≠ 2 ^ (ty.width - 1) - 1) (n : Nat) (s : σ)
    (count : left inclusive hi i = n) :
    ∃ fuel, rangeLoop body inclusive hi fuel i s = some (overRange body n i.toInt s) := by
  induction n generalizing i s with
  | zero =>
    refine ⟨1, ?_⟩
    have ends : ¬(if inclusive then i.sle hi else i.slt hi) = true := by
      rw [cond_iff]
      omega
    rw [rangeLoop, if_neg ends, overRange]
  | succ n ih =>
    have more : 0 < left inclusive hi i := by omega
    obtain ⟨succ, next⟩ := left_succ more below
    have kept := keeps i s
    cases run : body i s with
    | mk exit rest =>
      obtain ⟨i', s'⟩ := rest
      obtain rfl : i' = i := by simpa [run] using kept
      cases exit with
      | leave =>
        refine ⟨1, ?_⟩
        simp only [rangeLoop, cond_iff.2 more, if_true, run, overRange, BitVec.ofInt_toInt]
      | next =>
        obtain ⟨fuel, loop⟩ := ih s' (i := i' + 1) (by omega)
        refine ⟨fuel + 1, ?_⟩
        simp only [rangeLoop, cond_iff.2 more, if_true, run, overRange, BitVec.ofInt_toInt, loop,
          succ, Option.map_some]

theorem rangeLoop_diverges (max : hi.toInt = 2 ^ (ty.width - 1) - 1) (fuel : Nat)
    (i : BitVec ty.width) :
    rangeLoop (fun i (s : Unit) => (.next, i, s)) true hi fuel i () = none := by
  induction fuel generalizing i with
  | zero => rfl
  | succ fuel ih =>
    have holds := ty.holds_toInt i
    have more : 0 < left true hi i := by
      rw [VarType.Holds] at holds
      simp only [left, if_true]
      omega
    have cond : (if true = true then i.sle hi else i.slt hi) = true := cond_iff.2 more
    rw [if_pos rfl] at cond
    simp only [rangeLoop, cond, if_true, ih, Option.map_none]

end Rounds

/-- A range loop is exact if and only if the loop variable's type holds both bounds, none of
them is `true`, and the range does not include the largest integer of the type. -/
theorem exact_iff_stopsBelow (ty : VarType) (f : Form) : Exact ty f ↔ f.StopsBelow ty := by
  rw [← Form.start_iff]
  constructor
  · intro exact
    refine ⟨⟨exact.lo, exact.hi⟩, fun inclusive max => ?_⟩
    obtain ⟨fuel, loop⟩ :=
      exact.covers Unit (fun i s => (.next, i, s)) (fun _ _ => rfl) ()
    rw [genForIn, inclusive, rangeLoop_diverges (exact.hi.trans max)] at loop
    cases loop
  · rintro ⟨⟨lo, hi⟩, below⟩
    refine ⟨lo, hi, fun σ body keeps s => ?_⟩
    have count : left f.inclusive (f.hi.cast ty.width) (f.start ty.width) = f.count := by
      rw [left, lo, hi, Form.count]
    rw [← hi] at below
    obtain ⟨fuel, loop⟩ := rangeLoop_covers keeps below f.count s count
    exact ⟨fuel, by rw [genForIn, loop, lo]⟩

/-- `for int i in 2147483646..=2147483647` does not end. -/
theorem not_exact_inclusive : ¬∀ ty f, Exact ty f := by
  intro always
  obtain ⟨fuel, loop⟩ := (always .int (.incl (.int 2147483646) (.int 2147483647))).covers Unit
    (fun i s => (.next, i, s)) (fun _ _ => rfl) ()
  have max : (Bound.cast VarType.int.width (.int 2147483647)).toInt =
      2 ^ (VarType.int.width - 1) - 1 := by decide
  cases loop.symm.trans (rangeLoop_diverges max fuel _)

end Dux.Codegen.Ranges
