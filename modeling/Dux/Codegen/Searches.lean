import Dux.Codegen.Namespaces
import Dux.Sema.Moments

/-!
# Walks that end

Nothing keeps the declarations of a program from making a class its own ancestor, and no
walk looks out for that: those of the analysis stop at a type that is its own parent, the
search of `gen_call` (`src/codegen/codegen.cpp`) for an inherited method at a class without
a parent only.
-/

namespace Dux.Codegen

open Relation (TransGen ReflTransGen)
open Logic (Steps ends)

namespace Module

variable {m : Module}

/-- The class in which the search for an inherited method goes on. -/
def parentClass (m : Module) (cls : String) : Option String :=
  if cls = "" then none
  else (m.ls.layouts.lookup cls).bind fun layout =>
    if layout.parentName = "" then none else some layout.parentName

/-- No class is its own ancestor. -/
def Unlooped (m : Module) : Prop := ∀ cls, ¬TransGen (Steps m.parentClass) cls cls

/-- The search for a method ends, whatever it is looked for in. -/
def SearchesEnd (m : Module) : Prop :=
  ∀ method cls, ∃ fuel, (m.inheritedMethod method fuel cls).isSome = true

theorem parentClass_eq_some {cls base : String} : m.parentClass cls = some base ↔
    cls ≠ "" ∧ base ≠ "" ∧ ∃ layout, m.ls.layouts.lookup cls = some layout ∧
      layout.parentName = base := by
  unfold parentClass
  by_cases named : cls = ""
  · rw [if_pos named]
    constructor
    · exact fun none => by cases none
    · exact fun same => absurd named same.1
  · rw [if_neg named, Option.bind_eq_some_iff]
    constructor
    · rintro ⟨layout, found, same⟩
      split at same
      · cases same
      · next baseNamed =>
        cases same
        exact ⟨named, baseNamed, layout, found, rfl⟩
    · rintro ⟨-, baseNamed, layout, found, rfl⟩
      exact ⟨layout, found, if_neg baseNamed⟩

theorem inheritedMethod_step {cls base : String} (method : String) (fuel : Nat)
    (step : m.parentClass cls = some base) :
    m.inheritedMethod method (fuel + 1) cls = m.findMethod method fuel base := by
  obtain ⟨named, baseNamed, layout, found, behind⟩ := parentClass_eq_some.1 step
  exact inheritedMethod_succ fuel named found behind baseNamed

theorem inheritedMethod_last {cls : String} (method : String) (fuel : Nat)
    (last : m.parentClass cls = none) : m.inheritedMethod method (fuel + 1) cls = some none := by
  unfold inheritedMethod
  split
  · rfl
  · next named =>
    split
    · rfl
    · next layout found =>
      split
      · rfl
      · next baseNamed =>
        rw [parentClass_eq_some.2 ⟨named, baseNamed, layout, found, rfl⟩] at last
        cases last

theorem isSome_inheritedMethod (method : String) {fuel : Nat} {cls : String}
    (enough : ends m.parentClass fuel cls = true) :
    (m.inheritedMethod method fuel cls).isSome = true := by
  induction fuel generalizing cls with
  | zero => cases enough
  | succ fuel ih =>
    cases step : m.parentClass cls with
    | none =>
      rw [inheritedMethod_last method fuel step]
      rfl
    | some base =>
      rw [inheritedMethod_step method fuel step, findMethod]
      rw [Logic.ends_succ step] at enough
      split
      · rfl
      · exact ih enough

def ancestors (m : Module) : List String := m.ls.layouts.map (·.2.parentName)

theorem mem_ancestors {cls base : String} (step : m.parentClass cls = some base) :
    base ∈ m.ancestors := by
  obtain ⟨-, -, layout, found, rfl⟩ := parentClass_eq_some.1 step
  obtain ⟨before, after, isTable, -⟩ := List.lookup_eq_some_iff.1 found
  exact List.mem_map.2 ⟨(cls, layout), by simp [isTable], rfl⟩

theorem Unlooped.ends (unlooped : m.Unlooped) (cls : String) :
    Logic.ends m.parentClass (m.ls.layouts.length + 1) cls = true := by
  apply Logic.ends_of_finite (insert cls m.ancestors.toFinset) _ unlooped
  · calc
      _ ≤ m.ancestors.toFinset.card + 1 := Finset.card_insert_le _ _
      _ ≤ m.ancestors.length + 1 := Nat.add_le_add_right (List.toFinset_card_le _) 1
      _ = m.ls.layouts.length + 1 := by rw [ancestors, List.length_map]
  · intro base reached
    cases reached with
    | refl => exact Finset.mem_insert_self _ _
    | tail _ step => exact Finset.mem_insert_of_mem (List.mem_toFinset.2 (mem_ancestors step))

theorem exists_undeclared (symbols : Symbols) :
    ∃ method, ∀ cls, symbols.lookup (mangle cls method) = none := by
  have longer : ∃ method : String, ∀ entry ∈ symbols, entry.1.length < method.length := by
    induction symbols with
    | nil => exact ⟨"", fun _ member => by cases member⟩
    | cons entry symbols ih =>
      obtain ⟨method, longer⟩ := ih
      refine ⟨method ++ entry.1 ++ "m", fun entry' member => ?_⟩
      have one : "m".length = 1 := rfl
      rw [String.length_append, String.length_append, one]
      rcases List.mem_cons.1 member with rfl | member
      · omega
      · have := longer entry' member
        omega
  obtain ⟨method, longer⟩ := longer
  refine ⟨method, fun cls => List.lookup_eq_none_iff.2 fun entry member => ?_⟩
  have atLeast : method.length ≤ (mangle cls method).length := by
    unfold mangle
    split
    · exact Nat.le_refl _
    · rw [String.length_append]
      omega
  have shorter := longer entry member
  rw [bne_iff_ne]
  intro same
  rw [same] at atLeast
  omega

/-- The search ends for all methods exactly if no class is its own ancestor. -/
theorem searchesEnd_iff (m : Module) : m.SearchesEnd ↔ m.Unlooped := by
  constructor
  · intro searches cls loop
    obtain ⟨method, undeclared⟩ := exists_undeclared m.functions
    obtain ⟨fuel, answer⟩ := searches method cls
    have none : m.inheritedMethod method fuel cls = none := by
      apply Logic.eq_none_of_loop (fun _ => rfl) _ loop
      intro fuel a b _ step
      rw [inheritedMethod_step method fuel step, findMethod, undeclared b]
    rw [none] at answer
    cases answer
  · exact fun unlooped method cls =>
      ⟨m.ls.layouts.length + 1, isSome_inheritedMethod method (unlooped.ends cls)⟩

end Module

/-! ## Whole programs -/

/-- Of what is generated from a program, all modules have the property. -/
def Throughout (prog : Program) (P : Module → Prop) : Prop :=
  ∀ ops, Generates prog.decls ops → ∀ ops', ops' <+: ops →
    P ((linkedModuleOf prog).after ops').toModule

/-- The analysis of a program ends with all its walks, and so do the searches of
generating it, if the program is accepted. -/
def WalksTerminate (prog : Program) : Prop :=
  Sema.AnalysisEnds prog ∧
    ∀ prog' s, Sema.Accepts prog prog' s → Throughout prog' Module.SearchesEnd

/-- Neither the parents that the declarations make at the moments of the analysis nor those
of the layouts come back. -/
def Acyclic (prog : Program) : Prop :=
  Sema.Never TypeRegistry.initial.parentOf (Sema.momentsOf prog) ∧
    ∀ prog' s, Sema.Accepts prog prog' s → Throughout prog' Module.Unlooped

theorem walksTerminate_iff (prog : Program) : WalksTerminate prog ↔ Acyclic prog := by
  unfold WalksTerminate Acyclic Throughout
  simp only [Sema.analysisEnds_iff, Module.searchesEnd_iff]

/-- `class A : B { }  class B : A { }  int i = new A()`. -/
def cyclic : Program where
  decls :=
    [.cls { name := "A", bases := ["B"], members := [] },
      .cls { name := "B", bases := ["A"], members := [] }]
  stmts :=
    [.varDecl ⟨3, 1⟩ { name := "int" } false false [.mk "i" (some (.new (-1) { name := "A" } []))]]

/-- Whether a class of a loop can be an `int` is never answered. -/
theorem not_walksTerminate : ¬∀ prog, WalksTerminate prog := by
  intro always
  obtain ⟨⟨prog', s, returns⟩, -⟩ := (always cyclic).1
  have none : ((Sema.run cyclic).run .initial).isNone = true := by decide +kernel
  rw [returns] at none
  cases none

/-- `namespace N { class A : B, object { }  class B : A, object { } }`: the analysis takes
`object` for the parent of both. -/
def crossed : Program where
  decls :=
    [.namespaceDecl "N"
      [.cls { name := "A", bases := ["B", "object"], members := [] },
        .cls { name := "B", bases := ["A", "object"], members := [] }] []]
  stmts := []

/-- The layouts that the namespace is given once more make a loop all the same. -/
theorem searches_crossed : ∃ prog' s, Sema.Accepts crossed prog' s ∧
    ¬Throughout prog' Module.SearchesEnd := by
  obtain ⟨prog', s, accepts, looped⟩ := Sema.exists_accepts crossed
    (fun prog' _ =>
      let m := (linkedModuleOf prog').after (entersOf (namespacesOf prog'.decls))
      m.parentClass "A" = some "B" ∧ m.parentClass "B" = some "A") (by decide +kernel)
  obtain ⟨toB, toA⟩ := of_decide_eq_true looped
  refine ⟨prog', s, accepts, fun searches => ?_⟩
  have atEnd := searches _ (generates_entersOf prog'.decls) _ List.prefix_rfl
  exact (Module.searchesEnd_iff _).1 atEnd "A" (.tail (.single toB) toA)

end Dux.Codegen
