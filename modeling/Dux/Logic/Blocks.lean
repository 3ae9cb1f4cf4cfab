import Mathlib.Algebra.Group.Nat.Defs
import Mathlib.Algebra.Ring.Int.Defs
import Mathlib.Data.List.Basic
import Mathlib.Order.Lattice

/-!
# Blocks of memory

A block is what `malloc` returns: a number of bytes, none of which can be read before it is
written.  A run ends early when the program aborts, when it raises an exception, at a fault,
which is an access outside of a block, or when a loop never ends.  Positions are signed words,
so a sum that wraps is a position as any other.
-/

namespace Dux.Logic

/-- How a run ends early. -/
inductive Stop
  | abort
  | thrown
  | fault
  | hang
  deriving DecidableEq, Repr

section Runs

variable {ε α β : Type}

@[simp]
theorem ok_bind (a : α) (f : α → Except ε β) : Except.ok a >>= f = f a :=
  rfl

@[simp]
theorem error_bind (stop : ε) (f : α → Except ε β) : Except.error stop >>= f = .error stop :=
  rfl

@[simp]
theorem pure_eq_ok (a : α) : (pure a : Except ε α) = .ok a :=
  rfl

theorem bind_eq_ok_iff {run : Except ε α} {f : α → Except ε β} {b : β} :
    run >>= f = .ok b ↔ ∃ a, run = .ok a ∧ f a = .ok b := by
  cases run <;> simp

end Runs

/-- A sum or product of signed 64-bit words, which wraps. -/
def int64 (x : Int) : Int := x.bmod (2 ^ 64)

theorem int64_eq_self_iff {x : Int} : int64 x = x ↔ -2 ^ 63 ≤ x ∧ x < 2 ^ 63 := by
  rw [int64, Int.bmod_def]
  omega

theorem int64_of_natCast {n : Nat} (small : n < 2 ^ 63) : int64 n = n :=
  int64_eq_self_iff.2 (by omega)

theorem int64_int64_add (x y : Int) : int64 (int64 x + y) = int64 (x + y) :=
  Int.bmod_add_bmod

theorem int64_lt (x : Int) : int64 x < 2 ^ 63 := Int.bmod_lt (by decide)

/-! ## Capacities -/

/-- `while (cap < needed) cap *= 2`.  A capacity that has wrapped to zero stays there. -/
def double (needed : Int) : Nat → Int → Except Stop Int
  | 0, _ => .error .hang
  | fuel + 1, cap => if cap < needed then double needed fuel (int64 (cap * 2)) else .ok cap

/-- The loop, with a round for every doubling up to zero. -/
def doubled (cap needed : Int) : Except Stop Int := double needed 65 cap

theorem double_of_le {needed cap : Int} {fuel : Nat} (positive : 0 < cap)
    (small : needed ≤ 2 ^ 62) (enough : needed ≤ cap * 2 ^ fuel) :
    ∃ cap', double needed (fuel + 1) cap = .ok cap' ∧ cap ≤ cap' ∧ needed ≤ cap' ∧
      (cap' = cap ∨ cap' < 2 * needed) := by
  induction fuel generalizing cap with
  | zero =>
    rw [Int.pow_zero, Int.mul_one] at enough
    exact ⟨cap, if_neg (Int.not_lt.2 enough), Int.le_refl _, enough, .inl rfl⟩
  | succ fuel ih =>
    by_cases short : cap < needed
    · have exact' : int64 (cap * 2) = cap * 2 := int64_eq_self_iff.2 (by omega)
      obtain ⟨cap', runs, above, holds, bound⟩ := @ih (cap * 2) (by omega) (by
        rw [Int.pow_succ', ← Int.mul_assoc] at enough
        exact enough)
      rw [double, if_pos short, exact']
      exact ⟨cap', runs, by omega, holds, .inr (by omega)⟩
    · exact ⟨cap, if_neg short, Int.le_refl _, Int.not_lt.1 short, .inl rfl⟩

theorem doubled_of_le {cap : Int} (needed : Int) (positive : 0 < cap) (small : needed ≤ 2 ^ 62) :
    ∃ cap', doubled cap needed = .ok cap' ∧ cap ≤ cap' ∧ needed ≤ cap' ∧
      (cap' = cap ∨ cap' < 2 * needed) :=
  double_of_le positive small (by omega)

/-! ## Blocks -/

abbrev Block := List (Option UInt8)

namespace Block

/-- `malloc`. -/
def fresh (size : Nat) : Block := List.replicate size none

/-- `realloc`. -/
def resize (b : Block) (size : Nat) : Block := b.take size ++ fresh (size - b.length)

def write (b : Block) (pos : Int) (data : List UInt8) : Except Stop Block :=
  if 0 ≤ pos ∧ pos + data.length ≤ b.length then
    .ok (b.take pos.toNat ++ (data.map some ++ b.drop (pos.toNat + data.length)))
  else .error .fault

def read (b : Block) (pos : Int) (size : Nat) : Except Stop (List UInt8) :=
  if 0 ≤ pos ∧ pos + size ≤ b.length then
    match ((b.drop pos.toNat).take size).mapM id with
    | some data => .ok data
    | none => .error .fault
  else .error .fault

/-- `memcpy` from a pointer to the bytes that follow it. -/
def memcpy (dst : Block) (pos : Int) (src : List UInt8) (n : Int) : Except Stop Block :=
  if 0 ≤ n ∧ n ≤ src.length then dst.write pos (src.take n.toNat) else .error .fault

/-- What the block begins with. -/
def Holds (b : Block) (data : List UInt8) : Prop := data.map some <+: b

variable {b : Block} {data src : List UInt8}

@[simp] theorem length_fresh (size : Nat) : (fresh size).length = size := List.length_replicate

@[simp] theorem length_resize (b : Block) (size : Nat) : (b.resize size).length = size := by
  rw [resize, List.length_append, List.length_take, length_fresh]
  omega

theorem holds_nil (b : Block) : b.Holds [] := List.nil_prefix

theorem Holds.of_append (holds : b.Holds (data ++ src)) : b.Holds data := by
  rw [Holds, List.map_append] at holds
  exact (List.prefix_append _ _).trans holds

theorem Holds.length_le (holds : b.Holds data) : data.length ≤ b.length := by
  simpa using List.IsPrefix.length_le holds

theorem Holds.eq (holds : b.Holds data) (filled : b.length = data.length) : b = data.map some :=
  (List.IsPrefix.eq_of_length holds (by rw [List.length_map, filled])).symm

theorem Holds.resize (holds : b.Holds data) {size : Nat} (fits : data.length ≤ size) :
    (b.resize size).Holds data := by
  obtain ⟨rest, rfl⟩ := holds
  rw [Block.resize, List.take_append, List.length_map,
    List.take_of_length_le (by rw [List.length_map]; exact fits), List.append_assoc]
  exact List.prefix_append _ _

theorem Holds.write (holds : b.Holds data) (src : List UInt8)
    (fits : data.length + src.length ≤ b.length) :
    ∃ b', b.write data.length src = .ok b' ∧ b'.Holds (data ++ src) ∧ b'.length = b.length := by
  obtain ⟨rest, rfl⟩ := holds
  rw [List.length_append, List.length_map] at fits
  rw [Block.write, if_pos (by rw [List.length_append, List.length_map]; omega), Int.toNat_natCast,
    List.take_left' (List.length_map _)]
  refine ⟨_, rfl, ?_, ?_⟩
  · rw [Holds, List.map_append, ← List.append_assoc]
    exact List.prefix_append _ _
  · simp only [List.length_append, List.length_map, List.length_drop]
    omega

theorem write_fault {pos : Int} (outside : pos < 0 ∨ b.length < pos + data.length) :
    b.write pos data = .error .fault :=
  if_neg (by omega)

theorem memcpy_of_le (b : Block) (pos : Int) {n : Nat} (fits : n ≤ src.length) :
    b.memcpy pos src n = b.write pos (src.take n) := by
  rw [memcpy, if_pos (by omega), Int.toNat_natCast]

theorem write_cases (b : Block) (pos : Int) (data : List UInt8) :
    b.write pos data = .error .fault ∨
      ∃ b', b.write pos data = .ok b' ∧ b'.length = b.length ∧ 0 ≤ pos ∧
        pos + data.length ≤ b.length := by
  by_cases inside : 0 ≤ pos ∧ pos + data.length ≤ b.length
  · refine .inr ⟨_, if_pos inside, ?_, inside⟩
    simp only [List.length_append, List.length_take, List.length_map, List.length_drop]
    omega
  · exact .inl (if_neg inside)

theorem memcpy_self (b : Block) (pos : Int) (src : List UInt8) :
    b.memcpy pos src src.length = b.write pos src := by
  rw [memcpy_of_le b pos (Nat.le_refl _), List.take_length]

theorem length_write {b' : Block} {pos : Int} (written : b.write pos data = .ok b') :
    b'.length = b.length := by
  rcases write_cases b pos data with fault | ⟨b'', written', length, -⟩
  · rw [fault] at written
    cases written
  · rw [written'] at written
    cases written
    exact length

theorem mapM_id_map_some (data : List UInt8) : (data.map some).mapM id = some data := by
  induction data with
  | nil => rfl
  | cons c data ih => simp [ih]

theorem Holds.read (front mid back : List UInt8)
    (holds : b.Holds (front ++ (mid ++ back))) :
    b.read front.length mid.length = .ok mid := by
  have fits := holds.length_le
  obtain ⟨rest, rfl⟩ := holds
  simp only [List.length_append, List.length_map] at fits
  rw [Block.read, if_pos (by simp only [List.length_append, List.length_map]; omega),
    Int.toNat_natCast, List.map_append, List.append_assoc,
    List.drop_left' (List.length_map _), List.map_append, List.append_assoc,
    List.take_left' (List.length_map _), mapM_id_map_some]

/-- A block of a given size that is filled from its front on. -/
structure Filling (b : Block) (size : Nat) (data : List UInt8) : Prop where
  holds : b.Holds data
  length : b.length = size

theorem filling_fresh (size : Nat) : (fresh size).Filling size [] :=
  ⟨holds_nil _, length_fresh size⟩

namespace Filling

variable {size : Nat}

theorem write (filling : b.Filling size data) (src : List UInt8)
    (fits : data.length + src.length ≤ size) :
    ∃ b', b.write data.length src = .ok b' ∧ b'.Filling size (data ++ src) := by
  obtain ⟨b', written, holds, length⟩ := filling.holds.write src (by
    rw [filling.length]
    exact fits)
  exact ⟨b', written, holds, length.trans filling.length⟩

theorem memcpy (filling : b.Filling size data) (src : List UInt8)
    (fits : data.length + src.length ≤ size) :
    ∃ b', b.memcpy data.length src src.length = .ok b' ∧ b'.Filling size (data ++ src) := by
  rw [memcpy_self]
  exact filling.write src fits

theorem write_last (filling : b.Filling (data.length + 1) data) (c : UInt8) :
    b.write data.length [c] = .ok ((data ++ [c]).map some) := by
  obtain ⟨b', written, filling'⟩ := filling.write [c] (Nat.le_refl _)
  rw [written, filling'.holds.eq (by rw [filling'.length, List.length_append]; rfl)]

end Filling

theorem read_fault {pos : Int} {size : Nat} (outside : pos < 0 ∨ b.length < pos + size) :
    b.read pos size = .error .fault :=
  if_neg (by omega)

end Block

end Dux.Logic
