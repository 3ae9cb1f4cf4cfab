import Mathlib.Algebra.Order.Group.Multiset

/-!
# Ledgers of counted references

What happens to things that are shared by counting: every reference taken and
every one given up, in no order.  A ledger covers the references still owed if
giving them all up never gives up one more than was taken.
-/

namespace Dux.Logic

universe u

/-- The references taken and given up so far. -/
structure Ledger (α : Type u) where
  acquired : Multiset α := 0
  released : Multiset α := 0

namespace Ledger

variable {α : Type u} {l : Ledger α} {a : α} {owed owed' : Multiset α}

def acquire (l : Ledger α) (refs : Multiset α) : Ledger α :=
  { l with acquired := refs + l.acquired }

def release (l : Ledger α) (refs : Multiset α) : Ledger α :=
  { l with released := refs + l.released }

/-- Nothing is released more often than it was acquired. -/
def Sound (l : Ledger α) : Prop := l.released ≤ l.acquired

/-- The references owed can all be given up. -/
def Covers (l : Ledger α) (owed : Multiset α) : Prop := l.released + owed ≤ l.acquired

/-- The references owed are the ones not given up yet. -/
def Balanced (l : Ledger α) (owed : Multiset α) : Prop := l.released + owed = l.acquired

theorem acquire_acquire (l : Ledger α) (refs more : Multiset α) :
    (l.acquire refs).acquire more = l.acquire (more + refs) := by
  simp only [acquire, add_assoc]

theorem Covers.sound (covers : l.Covers owed) : l.Sound :=
  (Multiset.le_add_right _ _).trans covers

theorem Covers.mono (covers : l.Covers owed) (fewer : owed' ≤ owed) : l.Covers owed' :=
  (add_le_add_right fewer l.released).trans covers

theorem Covers.release {refs : Multiset α} (covers : l.Covers (refs + owed)) :
    (l.release refs).Covers owed := by
  unfold Covers Ledger.release
  calc
    refs + l.released + owed = l.released + (refs + owed) := by
      rw [add_comm refs, add_assoc]
    _ ≤ l.acquired := covers

theorem Balanced.acquire (balanced : l.Balanced owed) (refs : Multiset α) :
    (l.acquire refs).Balanced (refs + owed) := by
  unfold Balanced Ledger.acquire
  rw [add_left_comm]
  exact congrArg (refs + ·) balanced

theorem Balanced.release {refs : Multiset α} (balanced : l.Balanced (refs + owed)) :
    (l.release refs).Balanced owed := by
  unfold Balanced Ledger.release
  rw [add_comm refs, add_assoc]
  exact balanced

theorem balanced_zero : l.Balanced 0 ↔ l.released = l.acquired := by
  simp [Balanced]

end Ledger

end Dux.Logic
