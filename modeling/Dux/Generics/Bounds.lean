import Dux.Generics.Complete

/-!
# Bounds of type parameters

`expand_generics` checks the bounds of a template whenever it takes up an instance, and
reports a violation to the driver, which gives up at its twentieth report.
-/

namespace Dux.Generics

/-- `Driver::kMaxErrors`: this many reports end a pass. -/
def kMaxErrors : Nat := 20

/-- The loop of `expand_generics`, ended by the driver when there are too many reports. -/
def limitedLoop (ts : Templates) (decls : List GenericDecl) : Nat → WorkState → Option WorkState
  | 0, _ => none
  | fuel + 1, s =>
      if kMaxErrors ≤ s.errors.length then some s
      else
        match workStep ts decls s with
        | none => some s
        | some s => limitedLoop ts decls fuel s

/-- `expand_generics` up to the report that ends it. -/
def expandLimited (fuel : Nat) (prog : GenericProgram) : Option Expansion :=
  let ts := prog.templates
  if ts.isEmpty then some ⟨[], prog.decls, prog.stmts, []⟩
  else
    let decls := (fixDecls true prog.decls).1
    (limitedLoop ts decls fuel prog.start).map fun s =>
      ⟨s.newDecls, keptDecls decls, (fixStmts prog.stmts).1, s.errors⟩

namespace GenericProgram

variable (prog : GenericProgram)

/-- What is reported about the bounds when an instance is taken up. -/
def violations (key : InstKey) : List String :=
  match prog.templates.find key with
  | none => []
  | some t =>
      boundErrors (fixDecls true prog.decls).1 (substMap [] t.typeParams key.typeArgs) t.typeBounds

/-- Every instance that is taken up keeps the bounds of its template. -/
def BoundsKept : Prop :=
  ∀ s, prog.Reaches s → ∀ key, s.next = some key → prog.violations key = []

variable {prog} {s s' f : WorkState}

theorem errors_of_step (run : prog.step s = some s') :
    s'.errors = s.errors ++ (s.next.map prog.violations).getD [] := by
  unfold step workStep at run
  unfold WorkState.next
  cases pending : s.pending with
  | nil => simp [pending] at run
  | cons key rest =>
    simp only [pending] at run ⊢
    by_cases done : key.mangled ∈ s.done
    · rw [if_pos done] at run ⊢
      cases run
      simp
    · rw [if_neg done] at run ⊢
      cases run
      cases found : prog.templates.find key <;>
        simp [takeUp, violations, WorkState.push, found]

theorem Later.errors (later : prog.Later s s') : s.errors <+: s'.errors := by
  induction later with
  | refl => exact List.prefix_refl _
  | tail _ run ih =>
    rw [errors_of_step run]
    exact ih.trans (List.prefix_append _ _)

/-- A run without reports took up no instance that violates a bound. -/
theorem Later.violations_eq_nil (later : prog.Later s f) (silent : f.errors = []) {key : InstKey}
    (next : s.next = some key) (finished : f.pending = []) : prog.violations key = [] := by
  cases later using Relation.ReflTransGen.head_induction_on with
  | refl =>
    rw [WorkState.next, finished] at next
    cases next
  | head run later =>
    have reported := Later.errors later
    rw [errors_of_step run, next, silent, List.prefix_nil, List.append_eq_nil_iff] at reported
    exact reported.2

theorem errors_of_kept (reached : prog.Reaches f) (kept : prog.BoundsKept) :
    f.errors = [] := by
  have reports {s : WorkState} (later : prog.Later prog.start s) : s.errors = [] := by
    induction later with
    | refl => rfl
    | @tail s s' before run ih =>
      rw [errors_of_step run, ih, List.nil_append]
      cases next : s.next with
      | none => rfl
      | some key => exact kept s before key next
  exact reports reached

/-- The loop ends in a reachable state, with nothing left to do or too many reports. -/
theorem limitedLoop_reaches {fuel : Nat}
    (loop : limitedLoop prog.templates (fixDecls true prog.decls).1 fuel s = some f) :
    prog.Later s f ∧ (f.errors.length < kMaxErrors → f.pending = []) := by
  induction fuel generalizing s with
  | zero => cases loop
  | succ fuel ih =>
    rw [limitedLoop] at loop
    by_cases many : kMaxErrors ≤ s.errors.length
    · rw [if_pos many] at loop
      cases loop
      exact ⟨.refl, fun few => absurd many (Nat.not_le_of_lt few)⟩
    · rw [if_neg many] at loop
      cases run : workStep prog.templates (fixDecls true prog.decls).1 s with
      | some s' =>
        rw [run] at loop
        obtain ⟨later, finished⟩ := ih loop
        exact ⟨later.head run, finished⟩
      | none =>
        rw [run] at loop
        cases loop
        exact ⟨.refl, fun _ => pending_of_stop run⟩

end GenericProgram

theorem workLoop_of_limitedLoop {ts : Templates} {decls : List GenericDecl} {fuel : Nat}
    {s f : WorkState} (loop : limitedLoop ts decls fuel s = some f)
    (few : f.errors.length < kMaxErrors) : workLoop ts decls fuel s = some f := by
  induction fuel generalizing s with
  | zero => cases loop
  | succ fuel ih =>
    rw [limitedLoop] at loop
    rw [workLoop]
    by_cases many : kMaxErrors ≤ s.errors.length
    · rw [if_pos many] at loop
      cases loop
      exact absurd many (Nat.not_le_of_lt few)
    · rw [if_neg many] at loop
      cases run : workStep ts decls s with
      | none =>
        rw [run] at loop
        exact loop
      | some s' =>
        rw [run] at loop
        exact ih loop

/-- Nothing is reported exactly if all bounds are kept. -/
theorem errors_eq_nil_iff {fuel : Nat} {prog : GenericProgram} {x : Expansion}
    (returns : expandLimited fuel prog = some x) (few : x.errors.length < kMaxErrors) :
    x.errors = [] ↔ prog.BoundsKept := by
  unfold expandLimited at returns
  by_cases empty : prog.templates.isEmpty
  · simp only [empty, if_true, Option.some.injEq] at returns
    subst returns
    have none (key : InstKey) : prog.violations key = [] := by
      simp only [Templates.isEmpty, Bool.and_eq_true, List.isEmpty_iff] at empty
      simp [GenericProgram.violations, Templates.find, empty.1, empty.2]
    exact ⟨fun _ s _ key _ => none key, fun _ => rfl⟩
  · simp only [empty] at returns
    obtain ⟨f, loop, rfl⟩ := Option.map_eq_some_iff.1 returns
    obtain ⟨reached, finished⟩ := GenericProgram.limitedLoop_reaches loop
    constructor
    · intro silent s reached' key next
      have later := GenericProgram.later_of_finished (finished few) reached' reached
      exact later.violations_eq_nil silent next (finished few)
    · exact GenericProgram.errors_of_kept reached

end Dux.Generics
