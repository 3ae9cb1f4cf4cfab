import Mathlib.Data.Finset.Card
import Mathlib.Logic.Relation

/-!
# Chains of partial steps

Going on from an element by a partial function ends unless a step leads back to an
element from which one came.  Where there is no such loop, as many steps as there are
elements in reach are enough.
-/

namespace Dux.Logic

open Relation (TransGen ReflTransGen)

universe u

variable {α : Type u} {next : α → Option α}

def Steps (next : α → Option α) (a b : α) : Prop := next a = some b

/-- The chain from an element ends within that many steps. -/
def ends (next : α → Option α) : Nat → α → Bool
  | 0, _ => false
  | n + 1, a =>
      match next a with
      | none => true
      | some b => ends next n b

theorem ends_succ {n : Nat} {a b : α} (step : next a = some b) :
    ends next (n + 1) a = ends next n b := by
  rw [ends, step]

theorem ends_of_none {n : Nat} {a : α} (last : next a = none) : ends next (n + 1) a = true := by
  rw [ends, last]

theorem ends_of_finite {n : Nat} {a : α} (within : Finset α)
    (inside : ∀ b, ReflTransGen (Steps next) a b → b ∈ within)
    (unlooped : ∀ b, ¬TransGen (Steps next) b b) (enough : within.card ≤ n) :
    ends next n a = true := by
  classical
  induction n generalizing a within with
  | zero =>
    rw [Finset.card_eq_zero.1 (Nat.le_zero.1 enough)] at inside
    exact absurd (inside a .refl) (Finset.notMem_empty a)
  | succ n ih =>
    cases step : next a with
    | none => exact ends_of_none step
    | some b =>
      rw [ends_succ step]
      -- what is in reach of `b` does not come back to `a`
      apply ih (within.erase a)
      · intro c reached
        rw [Finset.mem_erase]
        constructor
        · rintro rfl
          exact unlooped c (TransGen.head' step reached)
        · exact inside c (.head step reached)
      · rw [Finset.card_erase_of_mem (inside a .refl)]
        omega

/-- On a loop, one relation can be exchanged for another that holds between the elements
of loops. -/
theorem loop_mono {R R' : α → α → Prop} {a : α} (loop : TransGen R a a)
    (mono : ∀ b c, TransGen R b b → R b c → R' b c) : TransGen R' a a := by
  have onWay : ∀ c, TransGen R a c → ReflTransGen R c a → TransGen R' a c := by
    intro c path
    induction path with
    | single step => exact fun back => .single (mono _ _ (.head' step back) step)
    | @tail b c path step ih =>
      intro back
      have around : TransGen R b b := (TransGen.head' step back).trans path
      exact (ih (.head step back)).tail (mono b c around step)
  exact onWay a loop .refl

/-- A walk along the steps that gives no answer on a loop does not end. -/
theorem eq_none_of_loop {R : α → α → Prop} {β : Type*} {walk : Nat → α → Option β}
    (start : ∀ a, walk 0 a = none)
    (goes : ∀ n a b, TransGen R a a → R a b → walk (n + 1) a = walk n b) {a : α}
    (loop : TransGen R a a) (n : Nat) : walk n a = none := by
  induction n generalizing a with
  | zero => exact start a
  | succ n ih =>
    obtain ⟨b, step, back⟩ := TransGen.head'_iff.1 loop
    rw [goes n a b loop step]
    exact ih (TransGen.tail' back step)

end Dux.Logic
