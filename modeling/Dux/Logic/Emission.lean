import Mathlib.Data.List.Basic

/-!
# Machines that emit results

A step of the machine may emit a result or not.  A run is a number of steps with the results that
they emit.  What holds of the states of a run, or relates them to those of another machine, may
depend on the results so far.
-/

namespace Dux.Logic

universe u v w

/-- Some steps of a machine, with the results that they emit. -/
inductive Emits {σ : Type u} {ρ : Type v} (next : σ → Option ρ × σ) : σ → List ρ → σ → Prop
  | refl (s : σ) : Emits next s [] s
  | step {s s' : σ} {results : List ρ} (rest : Emits next (next s).2 results s') :
      Emits next s ((next s).1.toList ++ results) s'

namespace Emits

variable {σ : Type u} {ρ : Type v} {τ : Type w} {next : σ → Option ρ × σ}
  {next' : τ → Option ρ × τ} {s s' s'' : σ} {results results' : List ρ} {r : ρ}

theorem single (s : σ) : Emits next s (next s).1.toList (next s).2 := by
  have step : Emits next s ((next s).1.toList ++ []) (next s).2 := .step (.refl _)
  rwa [List.append_nil] at step

theorem of_some (emits : next s = (some r, s')) : Emits next s [r] s' := by
  have step : Emits next s (next s).1.toList (next s).2 := single s
  rwa [emits] at step

theorem of_none (quiet : next s = (none, s')) : Emits next s [] s' := by
  have step : Emits next s (next s).1.toList (next s).2 := single s
  rwa [quiet] at step

theorem trans (first : Emits next s results s') (second : Emits next s' results' s'') :
    Emits next s (results ++ results') s'' := by
  induction first with
  | refl _ => exact second
  | step _ ih =>
      rw [List.append_assoc]
      exact .step (ih second)

theorem cons (emits : next s = (some r, s')) (rest : Emits next s' results s'') :
    Emits next s (r :: results) s'' := (of_some emits).trans rest

theorem invariant {I : List ρ → σ → Prop}
    (preserved : ∀ results s, I results s → I (results ++ (next s).1.toList) (next s).2)
    (run : Emits next s results s') {before : List ρ} (start : I before s) :
    I (before ++ results) s' := by
  induction run generalizing before with
  | refl _ => rwa [List.append_nil]
  | step _ ih =>
      rw [← List.append_assoc]
      exact ih (preserved _ _ start)

theorem exists_last (run : Emits next s (results ++ [r]) s') :
    ∃ m, Emits next s results m ∧ (next m).1 = some r := by
  generalize whole : results ++ [r] = all at run
  induction run generalizing results with
  | refl _ => exact absurd whole (by simp)
  | @step s s' more rest ih =>
      cases emitted : (next s).1 with
      | none =>
          rw [emitted] at whole
          obtain ⟨m, run, last⟩ := ih whole
          have first : Emits next s [] (next s).2 := of_none (Prod.ext emitted rfl)
          exact ⟨m, first.trans run, last⟩
      | some first =>
          rw [emitted] at whole
          have begins : Emits next s [first] (next s).2 := of_some (Prod.ext emitted rfl)
          cases results with
          | nil =>
              obtain ⟨rfl, -⟩ := List.cons.inj whole
              exact ⟨s, .refl s, emitted⟩
          | cons r' results =>
              obtain ⟨rfl, rest'⟩ := List.cons.inj whole
              obtain ⟨m, run, last⟩ := ih rest'
              exact ⟨m, begins.trans run, last⟩

/-- Another machine that stays related, as long as the results are allowed, emits the same. -/
theorem simulate {R : List ρ → σ → τ → Prop} {A : List ρ → Prop}
    (related : ∀ results s t, R results s t → A (results ++ (next s).1.toList) →
      (next' t).1 = (next s).1 ∧ R (results ++ (next s).1.toList) (next s).2 (next' t).2)
    (run : Emits next s results s') {before : List ρ} {t : τ} (start : R before s t)
    (allowed : ∀ front, front <+: results → A (before ++ front)) :
    ∃ t', Emits next' t results t' ∧ R (before ++ results) s' t' := by
  induction run generalizing before t with
  | refl _ =>
      rw [List.append_nil]
      exact ⟨t, .refl t, start⟩
  | @step s s' results rest ih =>
      have here := allowed (next s).1.toList (List.prefix_append _ _)
      obtain ⟨same, start'⟩ := related before s t start here
      obtain ⟨t', run', finish⟩ := ih start' fun front isFront => by
        rw [List.append_assoc]
        exact allowed _ (List.prefix_append_right_inj _ |>.2 isFront)
      rw [← List.append_assoc]
      refine ⟨t', ?_, finish⟩
      rw [← same]
      exact .step run'

end Emits

end Dux.Logic
