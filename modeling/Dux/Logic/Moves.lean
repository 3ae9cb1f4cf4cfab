import Mathlib.Order.Defs.Unbundled

/-!
# What a stateful partial computation does to its state

A computation over a state that may fail to return moves within a relation when
every run that returns relates the states before and after.  For a preorder the
property composes, so that it can be read off the text of a computation.
-/

namespace Dux.Logic

universe u

variable {σ α β : Type u}

/-- Every run of `m` that returns goes from a state to a related one. -/
def Moves (R : σ → σ → Prop) (m : StateT σ Option α) : Prop :=
  ∀ s a s', m.run s = some (a, s') → R s s'

variable {R : σ → σ → Prop} {m : StateT σ Option α} {f : α → StateT σ Option β}

theorem run_bind_eq_some_iff {s : σ} {b : β} {s'' : σ} :
    (m >>= f).run s = some (b, s'') ↔
      ∃ a s', m.run s = some (a, s') ∧ (f a).run s' = some (b, s'') := by
  rw [StateT.run_bind, Option.bind_eq_bind, Option.bind_eq_some_iff]
  constructor
  · rintro ⟨⟨a, s'⟩, first, second⟩
    exact ⟨a, s', first, second⟩
  · rintro ⟨a, s', first, second⟩
    exact ⟨(a, s'), first, second⟩

theorem run_pure_eq_some_iff {a a' : α} {s s' : σ} :
    (pure a : StateT σ Option α).run s = some (a', s') ↔ a = a' ∧ s = s' := by
  rw [StateT.run_pure]
  constructor
  · intro same
    cases same
    exact ⟨rfl, rfl⟩
  · rintro ⟨rfl, rfl⟩
    rfl

theorem run_modify_eq_some_iff {g : σ → σ} {a : PUnit} {s s' : σ} :
    (modify g : StateT σ Option PUnit).run s = some (a, s') ↔ g s = s' := by
  constructor
  · intro same
    cases same
    rfl
  · rintro rfl
    rfl

theorem run_get_eq_some_iff {a s s' : σ} :
    (get : StateT σ Option σ).run s = some (a, s') ↔ s = a ∧ s = s' := by
  constructor
  · intro same
    cases same
    exact ⟨rfl, rfl⟩
  · rintro ⟨rfl, rfl⟩
    rfl

theorem Moves.mono {Q : σ → σ → Prop} (moves : Moves Q m) (weaker : ∀ s s', Q s s' → R s s') :
    Moves R m := fun s a s' run => weaker s s' (moves s a s' run)

theorem Moves.modify {g : σ → σ} (step : ∀ s, R s (g s)) :
    Moves R (modify g : StateT σ Option PUnit) := by
  intro s a s' run
  rw [run_modify_eq_some_iff] at run
  rw [← run]
  exact step s

theorem Moves.ite {c : Prop} [Decidable c] {m' : StateT σ Option α} (yes : c → Moves R m)
    (no : ¬c → Moves R m') : Moves R (if c then m else m') := by
  by_cases holds : c
  · rw [if_pos holds]
    exact yes holds
  · rw [if_neg holds]
    exact no holds

/-- The general rule for sequences: relations that compose. -/
theorem Moves.comp {Q Q' : σ → σ → Prop} (step : ∀ a b c, Q a b → Q' b c → R a c)
    (first : Moves Q m) (second : ∀ a, Moves Q' (f a)) : Moves R (m >>= f) := by
  intro s b s'' run
  obtain ⟨a, s', run₁, run₂⟩ := run_bind_eq_some_iff.1 run
  exact step _ _ _ (first s a s' run₁) (second a s' b s'' run₂)

/-- Every run of `m` returns. -/
def Returns (m : StateT σ Option α) : Prop := ∀ s, ∃ a s', m.run s = some (a, s')

theorem Returns.pure (a : α) : Returns (pure a : StateT σ Option α) := fun s => ⟨a, s, rfl⟩

theorem Returns.modify (g : σ → σ) : Returns (modify g : StateT σ Option PUnit) :=
  fun s => ⟨⟨⟩, g s, rfl⟩

theorem Returns.bind (first : Returns m) (second : ∀ a, Returns (f a)) : Returns (m >>= f) := by
  intro s
  obtain ⟨a, s', run⟩ := first s
  obtain ⟨b, s'', run'⟩ := second a s'
  exact ⟨b, s'', run_bind_eq_some_iff.2 ⟨a, s', run, run'⟩⟩

theorem Returns.read {f : σ → StateT σ Option β} (each : ∀ s, Returns (f s)) :
    Returns (get >>= f) := by
  intro s
  obtain ⟨b, s', run⟩ := each s s
  exact ⟨b, s', run_bind_eq_some_iff.2 ⟨s, s, rfl, run⟩⟩

theorem Returns.ite {c : Prop} [Decidable c] {m' : StateT σ Option α} (yes : c → Returns m)
    (no : ¬c → Returns m') : Returns (if c then m else m') := by
  by_cases holds : c
  · rw [if_pos holds]
    exact yes holds
  · rw [if_neg holds]
    exact no holds

variable [IsPreorder σ R]

theorem Moves.pure (a : α) : Moves R (pure a : StateT σ Option α) := by
  intro s a' s' run
  rw [(run_pure_eq_some_iff.1 run).2]
  exact Std.Refl.refl s'

theorem Moves.get : Moves R (get : StateT σ Option σ) := by
  intro s a s' run
  rw [(run_get_eq_some_iff.1 run).2]
  exact Std.Refl.refl s'

theorem Moves.lift (x : Option α) : Moves R (liftM x : StateT σ Option α) := by
  intro s a s' run
  cases x with
  | none => cases run
  | some a =>
      cases run
      exact Std.Refl.refl s

theorem Moves.bind (first : Moves R m) (second : ∀ a, Moves R (f a)) : Moves R (m >>= f) :=
  .comp (fun a b c => IsTrans.trans a b c) first second

end Dux.Logic
