import Mathlib.Data.List.Basic
import Mathlib.Data.Nat.ModEq

/-!
# Ring buffers

A queue in an array: its first item stands at the tail, the others behind it, and behind the
end of the array its beginning goes on.
-/

namespace Dux.Logic.Ring

universe u

variable {α : Type u} {buf : List α} {tail : Nat} {items : List α}

/-- The items that stand in the array from the tail on. -/
structure Holds (buf : List α) (tail : Nat) (items : List α) : Prop where
  inside : tail < buf.length
  fits : items.length ≤ buf.length
  slots : ∀ i, i < items.length → buf[(tail + i) % buf.length]? = items[i]?

theorem holds_nil (inside : tail < buf.length) : Holds buf tail [] :=
  ⟨inside, Nat.zero_le _, fun _ none => absurd none (Nat.not_lt_zero _)⟩

theorem slot_inj {n i j : Nat} (hi : i < n) (hj : j < n)
    (same : (tail + i) % n = (tail + j) % n) : i = j := by
  have cancelled : i ≡ j [MOD n] := Nat.ModEq.add_left_cancel' tail same
  rwa [Nat.ModEq, Nat.mod_eq_of_lt hi, Nat.mod_eq_of_lt hj] at cancelled

theorem Holds.push (holds : Holds buf tail items) (room : items.length < buf.length) (v : α) :
    Holds (buf.set ((tail + items.length) % buf.length) v) tail (items ++ [v]) := by
  have slot : (tail + items.length) % buf.length < buf.length :=
    Nat.mod_lt _ (Nat.zero_lt_of_lt room)
  constructor
  · rw [List.length_set]
    exact holds.inside
  · rw [List.length_set, List.length_append]
    exact room
  · intro i inside
    rw [List.length_append, List.length_singleton] at inside
    rw [List.length_set]
    rcases Nat.lt_succ_iff_lt_or_eq.1 inside with before | rfl
    · have other : (tail + items.length) % buf.length ≠ (tail + i) % buf.length := fun same =>
        absurd (slot_inj room (before.trans room) same) (Nat.ne_of_gt before)
      rw [List.getElem?_set_ne other, holds.slots i before, List.getElem?_append_left before]
    · rw [List.getElem?_set_self slot, List.getElem?_concat_length]

theorem Holds.first {v : α} {rest : List α} (holds : Holds buf tail (v :: rest)) :
    buf[tail]? = some v := by
  have first := holds.slots 0 (Nat.succ_pos _)
  rwa [Nat.add_zero, Nat.mod_eq_of_lt holds.inside] at first

theorem Holds.pop {v : α} {rest : List α} (holds : Holds buf tail (v :: rest)) :
    Holds buf ((tail + 1) % buf.length) rest := by
  constructor
  · exact Nat.mod_lt _ (Nat.zero_lt_of_lt holds.inside)
  · exact (Nat.le_succ _).trans holds.fits
  · intro i inside
    have behind := holds.slots (i + 1) (Nat.succ_lt_succ inside)
    rw [Nat.mod_add_mod, Nat.add_assoc, Nat.add_comm 1 i, behind]
    rfl

end Dux.Logic.Ring
