import Mathlib.Order.Lattice
import Mathlib.Order.Monotone.Basic

/-!
# Comparison operators

The six comparisons of a linear order, and what holds of any six relations that compare by a
value in such an order.
-/

namespace Dux.Logic

inductive Comparison
  | eq | ne | lt | gt | le | ge
  deriving DecidableEq, Repr

namespace Comparison

variable {α β : Type*} [LinearOrder α] [LinearOrder β]

/-- Whether a comparison asks for equality only. -/
def isEquality : Comparison → Bool
  | .eq | .ne => true
  | .lt | .gt | .le | .ge => false

def holds : Comparison → α → α → Bool
  | .eq, a, b => a = b
  | .ne, a, b => a ≠ b
  | .lt, a, b => a < b
  | .gt, a, b => b < a
  | .le, a, b => a ≤ b
  | .ge, a, b => b ≤ a

theorem holds_of_strictMono {f : α → β} (mono : StrictMono f) (op : Comparison) (a b : α) :
    op.holds (f a) (f b) = op.holds a b := by
  cases op with
  | eq => exact decide_eq_decide.2 mono.injective.eq_iff
  | ne => exact decide_eq_decide.2 mono.injective.ne_iff
  | lt | gt => exact decide_eq_decide.2 mono.lt_iff_lt
  | le | ge => exact decide_eq_decide.2 mono.le_iff_le

/-- Six relations of which one is an equivalence, one its negation, and the others a total
preorder with that equivalence, its strict part and their converses. -/
structure Lawful {γ : Type*} (r : Comparison → γ → γ → Bool) : Prop where
  equivalence : Equivalence fun a b => r .eq a b = true
  ne : ∀ a b, r .ne a b = !r .eq a b
  trans : ∀ a b c, r .le a b = true → r .le b c = true → r .le a c = true
  total : ∀ a b, r .le a b = true ∨ r .le b a = true
  eq : ∀ a b, r .eq a b = true ↔ r .le a b = true ∧ r .le b a = true
  le : ∀ a b, r .le a b = !r .lt b a
  gt : ∀ a b, r .gt a b = r .lt b a
  ge : ∀ a b, r .ge a b = r .le b a

theorem lawful_of_value {γ : Type*} {r : Comparison → γ → γ → Bool} (value : γ → α)
    (agrees : ∀ op a b, r op a b = op.holds (value a) (value b)) : Lawful r where
  equivalence := by
    simp only [agrees, holds, decide_eq_true_eq]
    exact ⟨fun a => rfl, Eq.symm, Eq.trans⟩
  ne a b := by simp [agrees, holds]
  trans a b c := by
    simp only [agrees, holds, decide_eq_true_eq]
    exact le_trans
  total a b := by
    simp only [agrees, holds, decide_eq_true_eq]
    exact le_total _ _
  eq a b := by
    simp only [agrees, holds, decide_eq_true_eq]
    exact le_antisymm_iff
  le a b := by
    simp only [agrees, holds, ← decide_not, not_lt]
  gt a b := by rw [agrees, agrees, holds, holds]
  ge a b := by rw [agrees, agrees, holds, holds]

end Comparison

end Dux.Logic
