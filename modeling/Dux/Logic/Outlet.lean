import Mathlib.Data.List.Basic

/-!
# Outlets

An outlet takes what it is given or only a beginning of it, as it pleases, or fails.  Whatever
is given to it in pieces has been taken as a whole exactly if each piece has.
-/

namespace Dux.Logic

universe u

/-- An outlet, the calls made of it and what it has taken.  A call takes at most one item more
than `accepts` says, and fails if that says nothing. -/
structure Outlet (α : Type u) where
  accepts : Nat → Option Nat
  calls : Nat
  wire : List α

namespace Outlet

variable {α : Type u}

/-- Give items to the outlet, which says how many it takes. -/
def send (o : Outlet α) (data : List α) : Option Nat × Outlet α :=
  match o.accepts o.calls with
  | none => (none, { o with calls := o.calls + 1 })
  | some k =>
      (some (min (k + 1) data.length),
        { o with calls := o.calls + 1, wire := o.wire ++ data.take (k + 1) })

/-- The next call fails. -/
def Fails (o : Outlet α) : Prop := o.accepts o.calls = none

/-- The next call takes all of the items. -/
def Takes (o : Outlet α) (data : List α) : Prop :=
  ∃ k, o.accepts o.calls = some k ∧ data.length ≤ k + 1

variable {o : Outlet α} {data : List α}

theorem send_cases (o : Outlet α) (data : List α) :
    (o.Fails ∧ (o.send data).1 = none ∧ (o.send data).2.wire = o.wire) ∨
      ∃ k, o.accepts o.calls = some k ∧ (o.send data).1.isSome ∧
        (o.send data).2.wire = o.wire ++ data.take (k + 1) := by
  unfold send Fails
  cases o.accepts o.calls with
  | none => exact .inl ⟨rfl, rfl, rfl⟩
  | some k => exact .inr ⟨k, rfl, rfl, rfl⟩

theorem send_isNone_iff (o : Outlet α) (data : List α) :
    (o.send data).1.isNone = true ↔ o.Fails := by
  rcases send_cases o data with ⟨fails, nothing, -⟩ | ⟨k, accepted, something, -⟩
  · simp only [nothing, fails, Option.isNone_none]
  · constructor
    · intro nothing
      rw [Option.isNone_iff_eq_none] at nothing
      rw [nothing] at something
      cases something
    · intro fails
      rw [fails] at accepted
      cases accepted

theorem exists_taken (o : Outlet α) (data : List α) (works : ¬o.Fails) :
    ∃ taken, (o.send data).2.wire = o.wire ++ taken ∧ taken.length ≤ data.length ∧
      (taken.length = data.length ↔ o.Takes data) ∧ (o.Takes data → taken = data) := by
  rcases send_cases o data with ⟨fails, -, -⟩ | ⟨k, accepted, -, wire⟩
  · exact absurd fails works
  · have same : o.Takes data ↔ data.length ≤ k + 1 := by
      constructor
      · rintro ⟨k', accepted', fits⟩
        rw [accepted, Option.some.injEq] at accepted'
        omega
      · intro fits
        exact ⟨k, accepted, fits⟩
    refine ⟨data.take (k + 1), wire, ?_, ?_, ?_⟩
    · rw [List.length_take]
      omega
    · rw [List.length_take, same]
      omega
    · intro takes
      exact List.take_of_length_le (same.1 takes)

theorem send_wire_iff {wanted : List α} (works : ¬o.Fails)
    (atLeast : data.length ≤ wanted.length) :
    (o.send data).2.wire = o.wire ++ wanted ↔ data = wanted ∧ o.Takes data := by
  obtain ⟨taken, wire, atMost, length, whole⟩ := exists_taken o data works
  rw [wire, List.append_cancel_left_eq]
  constructor
  · rintro rfl
    have takes : o.Takes data := length.1 (by omega)
    exact ⟨(whole takes).symm, takes⟩
  · rintro ⟨rfl, takes⟩
    exact whole takes

theorem send_send_wire_iff {more : List α} (works : ¬o.Fails)
    (works' : ¬(o.send data).2.Fails) :
    ((o.send data).2.send more).2.wire = o.wire ++ (data ++ more) ↔
      o.Takes data ∧ (o.send data).2.Takes more := by
  obtain ⟨taken, wire, atMost, length, whole⟩ := exists_taken o data works
  obtain ⟨taken', wire', atMost', length', whole'⟩ := exists_taken (o.send data).2 more works'
  rw [wire', wire, List.append_assoc, List.append_cancel_left_eq]
  constructor
  · intro same
    have total := congrArg List.length same
    rw [List.length_append, List.length_append] at total
    exact ⟨length.1 (by omega), length'.1 (by omega)⟩
  · rintro ⟨takes, takes'⟩
    rw [whole takes, whole' takes']

end Outlet

end Dux.Logic
