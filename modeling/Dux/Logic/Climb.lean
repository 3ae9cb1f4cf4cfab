import Mathlib.Data.Finset.Card
import Mathlib.Logic.Function.Iterate

/-!
# Climbing links

A walk that goes from an element to the one it is linked to until a test answers.
Links may be cyclic; a walk that is allowed as many steps as there are elements
finds an affirmative answer wherever there is one.
-/

namespace Dux.Logic

universe u

variable {α : Type u} [DecidableEq α] (stop : α → Option Bool) (up : α → α)

/-- At most that many tests.  An element linked to itself ends the walk. -/
def climb : Nat → α → Option Bool
  | 0, _ => none
  | n + 1, a =>
      match stop a with
      | some answer => some answer
      | none => if up a = a then some false else climb n (up a)

/-- The first test that answers on the way from an element is affirmative. -/
inductive Climbs : α → Prop
  | here {a : α} (yes : stop a = some true) : Climbs a
  | up {a : α} (open' : stop a = none) (above : Climbs (up a)) : Climbs a

variable {stop up}

theorem climbs_of_climb {n : Nat} {a : α} (found : climb stop up n a = some true) :
    Climbs stop up a := by
  induction n generalizing a with
  | zero => cases found
  | succ n ih =>
    rw [climb] at found
    cases answered : stop a with
    | some answer =>
      rw [answered] at found
      cases found
      exact .here answered
    | none =>
      rw [answered] at found
      by_cases loops : up a = a
      · simp [loops] at found
      · rw [if_neg loops] at found
        exact .up answered (ih found)

omit [DecidableEq α] in
theorem Climbs.exists_iterate {a : α} (climbs : Climbs stop up a) : ∃ k,
    stop (up^[k] a) = some true ∧ ∀ j < k, stop (up^[j] a) = none := by
  induction climbs with
  | here yes => exact ⟨0, yes, fun j before => absurd before (Nat.not_lt_zero j)⟩
  | @up a open' above ih =>
    obtain ⟨k, yes, before⟩ := ih
    refine ⟨k + 1, yes, ?_⟩
    intro j bound
    cases j with
    | zero => exact open'
    | succ j => exact before j (Nat.lt_of_succ_lt_succ bound)

theorem climb_of_iterate {n k : Nat} {a : α} (yes : stop (up^[k] a) = some true)
    (before : ∀ j < k, stop (up^[j] a) = none) (enough : k < n) :
    climb stop up n a = some true := by
  induction k generalizing n a with
  | zero =>
    obtain ⟨n, rfl⟩ := Nat.exists_eq_succ_of_ne_zero (Nat.ne_of_gt enough)
    have answered : stop a = some true := yes
    rw [climb, answered]
  | succ k ih =>
    obtain ⟨n, rfl⟩ := Nat.exists_eq_succ_of_ne_zero (Nat.ne_of_gt (Nat.zero_lt_of_lt enough))
    have unanswered : stop a = none := before 0 (Nat.succ_pos k)
    have moves : up a ≠ a := by
      intro loops
      rw [Function.iterate_fixed loops] at yes
      rw [yes] at unanswered
      cases unanswered
    rw [climb, unanswered]
    simp only [if_neg moves]
    exact ih yes (fun j bound => before (j + 1) (Nat.succ_lt_succ bound))
      (Nat.lt_of_succ_lt_succ enough)

omit [DecidableEq α] in
theorem injOn_iterate {k : Nat} {a : α} (yes : stop (up^[k] a) = some true)
    (before : ∀ j < k, stop (up^[j] a) = none) :
    Set.InjOn (fun j => up^[j] a) (Finset.range (k + 1)) := by
  have ordered {i j : Nat} (less : i < j) (bound : j ≤ k) : up^[i] a ≠ up^[j] a := by
    intro same
    have repeated : up^[k - j + i] a = up^[k] a := by
      rw [Function.iterate_add_apply, same, ← Function.iterate_add_apply, Nat.sub_add_cancel bound]
    have answered := before (k - j + i) (by omega)
    rw [repeated, yes] at answered
    cases answered
  intro i inRange j inRange' same
  have bound := Nat.le_of_lt_succ (Finset.mem_range.1 inRange)
  have bound' := Nat.le_of_lt_succ (Finset.mem_range.1 inRange')
  rcases Nat.lt_trichotomy i j with less | equal | greater
  · exact absurd same (ordered less bound')
  · exact equal
  · exact absurd same.symm (ordered greater bound)

/-- In a set that links do not leave, as many tests as it has elements are enough. -/
theorem climb_eq_some_true_iff {n : Nat} {a : α} (within : Finset α) (start : a ∈ within)
    (closed : ∀ b ∈ within, stop b = none → up b ∈ within) (enough : within.card ≤ n) :
    climb stop up n a = some true ↔ Climbs stop up a := by
  constructor
  · exact climbs_of_climb
  · intro climbs
    obtain ⟨k, yes, before⟩ := climbs.exists_iterate
    have inside : ∀ j ≤ k, up^[j] a ∈ within := by
      intro j
      induction j with
      | zero => exact fun _ => start
      | succ j ih =>
        intro bound
        rw [Function.iterate_succ_apply']
        exact closed _ (ih (Nat.le_of_succ_le bound)) (before j bound)
    have room : k + 1 ≤ within.card := by
      rw [← Finset.card_range (k + 1)]
      apply Finset.card_le_card_of_injOn _ _ (injOn_iterate yes before)
      intro j inRange
      exact inside j (Nat.le_of_lt_succ (Finset.mem_range.1 inRange))
    exact climb_of_iterate yes before (by omega)

end Dux.Logic
