import Dux.Sema.Contracts
import Dux.Sema.Growth
import Mathlib.Data.List.Forall2

/-!
# The stack of scopes

What analysis does to the scopes: a body adds names to the innermost scope only and leaves it at
its end, hoisting adds names to the global scope too, and a name that is there keeps its symbol.
-/

namespace Dux.Sema

open Logic (Moves)

/-! ## Scopes that gain names -/

/-- A scope with new names behind those it had. -/
structure Scope.Widens (sc sc' : Scope) : Prop where
  kept : sc <+: sc'
  distinct : (sc.map Prod.fst).Nodup → (sc'.map Prod.fst).Nodup

variable {s s' : State} {sc sc' : Scope}

theorem Scope.Widens.refl (sc : Scope) : sc.Widens sc := ⟨List.prefix_rfl, id⟩

theorem Scope.Widens.trans {sc'' : Scope} (first : sc.Widens sc') (second : sc'.Widens sc'') :
    sc.Widens sc'' :=
  ⟨first.kept.trans second.kept, second.distinct ∘ first.distinct⟩

theorem widens_define (sc : Scope) (name : String) (sym : Symbol) :
    sc.Widens (sc.define name sym).1 := by
  unfold Scope.define
  cases found : sc.lookupLocal name with
  | some old => exact .refl sc
  | none =>
    refine ⟨List.prefix_append _ _, fun distinct => ?_⟩
    rw [List.map_append, List.map_singleton, ← List.concat_eq_append, List.nodup_concat]
    refine ⟨?_, distinct⟩
    intro mem
    obtain ⟨entry, isEntry, same⟩ := List.mem_map.1 mem
    simpa [same] using List.lookup_eq_none_iff.1 found entry isEntry

/-- The innermost scope gains names, and the others are as they were. -/
def Deepens (s s' : State) : Prop :=
  ∀ sc outer, s.scopes = sc :: outer → ∃ sc', s'.scopes = sc' :: outer ∧ sc.Widens sc'

/-- All scopes are as they were. -/
def Confined (s s' : State) : Prop := s.scopes ≠ [] → s'.scopes = s.scopes

/-- Each of the scopes may gain names. -/
def Layered (s s' : State) : Prop :=
  s.scopes ≠ [] → List.Forall₂ Scope.Widens s.scopes s'.scopes

theorem deepens_of_eq (same : s'.scopes = s.scopes) : Deepens s s' :=
  fun sc _ isStack => ⟨sc, same.trans isStack, .refl sc⟩

theorem Confined.deepens (confined : Confined s s') : Deepens s s' := fun sc _ isStack =>
  ⟨sc, (confined (isStack ▸ List.cons_ne_nil _ _)).trans isStack, .refl sc⟩

theorem Deepens.layered (deepens : Deepens s s') : Layered s s' := by
  intro nonempty
  obtain ⟨sc, outer, isStack⟩ := List.exists_cons_of_ne_nil nonempty
  obtain ⟨sc', isStack', widens⟩ := deepens sc outer isStack
  rw [isStack, isStack']
  exact .cons widens (List.forall₂_same.2 fun sc _ => .refl sc)

instance : IsPreorder State Deepens where
  refl _ := deepens_of_eq rfl
  trans s₁ s₂ s₃ first second sc outer isStack := by
    obtain ⟨sc', isStack', widens⟩ := first sc outer isStack
    obtain ⟨sc'', isStack'', widens'⟩ := second sc' outer isStack'
    exact ⟨sc'', isStack'', widens.trans widens'⟩

theorem forall₂_widens_trans {scs scs' scs'' : List Scope}
    (first : List.Forall₂ Scope.Widens scs scs') (second : List.Forall₂ Scope.Widens scs' scs'') :
    List.Forall₂ Scope.Widens scs scs'' := by
  induction first generalizing scs'' with
  | nil => exact second
  | cons widens _ ih =>
    cases second with
    | cons widens' more => exact .cons (widens.trans widens') (ih more)

instance : IsPreorder State Layered where
  refl _ := (deepens_of_eq rfl).layered
  trans s₁ s₂ s₃ first second nonempty := by
    have more := first nonempty
    apply forall₂_widens_trans more (second _)
    intro empty
    rw [empty, List.forall₂_nil_right_iff] at more
    exact nonempty more

/-! ## Checks in a scope of their own -/

variable {α : Type} {m : M α}

theorem run_inScope_scopes {a : α} (run : (inScope m).run s = some (a, s')) :
    ∃ s₁, m.run { s with scopes := [] :: s.scopes } = some (a, s₁) ∧
      ∀ sc outer, outer ≠ [] → s₁.scopes = sc :: outer → s'.scopes = outer := by
  obtain ⟨_, s₀, pushed, run⟩ := Logic.run_bind_eq_some_iff.1 run
  obtain ⟨_, s₁, checked, run⟩ := Logic.run_bind_eq_some_iff.1 run
  obtain ⟨_, s₂, popped, run⟩ := Logic.run_bind_eq_some_iff.1 run
  obtain ⟨rfl, rfl⟩ := Logic.run_pure_eq_some_iff.1 run
  rw [push, Logic.run_modify_eq_some_iff] at pushed
  rw [pop, Logic.run_modify_eq_some_iff] at popped
  subst pushed popped
  refine ⟨s₁, checked, fun sc outer nonempty isStack => ?_⟩
  obtain ⟨sc', outer', rfl⟩ := List.exists_cons_of_ne_nil nonempty
  rw [isStack]

theorem confined_inScope (deepens : Moves Deepens m) : Moves Confined (inScope m) := by
  intro s a s' run nonempty
  obtain ⟨s₁, checked, left⟩ := run_inScope_scopes run
  obtain ⟨sc', isStack, -⟩ := deepens _ _ _ checked [] s.scopes rfl
  exact left sc' s.scopes nonempty isStack

theorem layered_inScope (layered : Moves Layered m) : Moves Layered (inScope m) := by
  intro s a s' run nonempty
  obtain ⟨s₁, checked, left⟩ := run_inScope_scopes run
  obtain ⟨sc', outer, -, more, isStack⟩ :=
    List.forall₂_cons_left_iff.1 (layered _ _ _ checked (List.cons_ne_nil _ _))
  rwa [left sc' outer _ isStack]
  rintro rfl
  exact nonempty (List.forall₂_nil_right_iff.1 more)

instance : Nested Deepens where
  err _ _ := deepens_of_eq rfl
  warn _ _ := deepens_of_eq rfl
  types _ _ _ := deepens_of_eq rfl
  define s sc outer name sym isStack _ _ sc₀ outer₀ isStack₀ := by
    cases isStack.symm.trans isStack₀
    exact ⟨_, rfl, widens_define _ _ _⟩
  inScope deepens := (confined_inScope deepens).mono fun _ _ => Confined.deepens
  flags _ _ flagged := deepens_of_eq flagged.2.1

instance : Hoists Layered where
  err _ _ := (deepens_of_eq rfl).layered
  warn _ _ := (deepens_of_eq rfl).layered
  types _ _ _ := (deepens_of_eq rfl).layered
  define s sc outer name sym isStack notClass notInterface :=
    Deepens.layered (Mild.define s sc outer name sym isStack notClass notInterface)
  defineAny name sym s isNew s' run := by
    rcases run_define_cases run with rfl | ⟨sc, outer, isStack, rfl⟩
    · exact (deepens_of_eq rfl).layered
    · intro _
      rw [isStack]
      exact .cons (widens_define _ _ _) (List.forall₂_same.2 fun sc _ => .refl sc)
  defineGlobal name sym := by
    refine .modify fun s nonempty => ?_
    dsimp only
    obtain ⟨front, sc, isStack⟩ := List.eq_nil_or_concat s.scopes |>.resolve_left nonempty
    rw [isStack, List.concat_eq_append, List.dropLast_concat, List.getLast?_concat]
    exact List.rel_append (List.forall₂_same.2 fun sc _ => .refl sc)
      (.cons (widens_define sc name sym) .nil)
  withTypes f s a s' run := by
    cases run
    exact (deepens_of_eq rfl).layered
  inScope := layered_inScope

/-! ## The whole analysis -/

instance : IsPreorder State Confined where
  refl _ _ := rfl
  trans s₁ s₂ s₃ first second nonempty := by
    have same := first nonempty
    exact (second (same ▸ nonempty)).trans same

theorem confined_typeFromTe (te : TypeExpr) : Moves Confined (typeFromTe te) := by
  have withTypes {β : Type} (f : TypeRegistry → β × TypeRegistry) :
      Moves Confined (withTypes f) := by
    intro s a s' run
    cases run
    exact fun _ => rfl
  refine .ite (fun _ => .pure _) fun _ => .ite (fun _ => ?_) fun _ => .bind .get fun _ => .pure _
  refine .bind (withTypes _) fun id => .bind .get fun s => ?_
  exact .ite (fun _ => .bind (withTypes _) fun _ => .pure _) fun _ => .pure _

theorem confined_checkFunc (f : FunctionDecl) : Moves Confined (checkFunc f) := by
  refine .bind (confined_typeFromTe _) fun ret => confined_inScope (.bind .get fun s => ?_)
  refine .ite (fun _ => .bind checks_defineThis.moves fun _ => ?_) fun _ => ?_ <;>
    exact .bind (checks_defineParams (.inr rfl) _).moves fun _ =>
      .bind ((nested_visits Deepens).body f ret) fun _ => .pure _

theorem confined_checkContract (c : ClassDecl) (base : String) (members : List FunctionDecl) :
    Moves Confined (checkContract c base members) := by
  induction members with
  | nil => exact .pure _
  | cons f fs ih =>
    exact .ite (fun _ => .bind (.modify fun s _ => rfl) fun _ => ih) fun _ => ih

theorem confined_checkContracts (c : ClassDecl) (bases : List String) :
    Moves Confined (checkContracts c bases) := by
  induction bases with
  | nil => exact .pure _
  | cons base rest ih =>
    refine .bind (.bind .get fun _ => .pure _) fun found => ?_
    dsimp only
    split
    · exact .bind (confined_checkContract _ _ _) fun _ => ih
    · exact ih

theorem confined_checkBases (type : TypeId) (bases : List String) :
    Moves Confined (checkBases type bases) := by
  intro s a s' run nonempty
  obtain ⟨s'', run', same, -⟩ := run_checkBases_total type bases s
  cases run.symm.trans run'
  exact same

theorem confined_checkClass (c : ClassDecl) : Moves Confined (checkClass c) := by
  refine .bind .get fun s => .bind (confined_checkBases _ _) fun _ => ?_
  refine .bind (confined_checkContracts _ _) fun _ => ?_
  refine .bind .get fun saved => .bind (.modify fun s _ => rfl) fun _ => .bind ?_ fun _ =>
    .bind (.modify fun s _ => rfl) fun _ => .pure _
  exact confined_inScope (.bind (checks_defineMembers _).moves fun _ =>
    .bind ((nested_visits Deepens).members c.members) fun _ => .pure _)

mutual

theorem layered_checkDecl : ∀ d : Decl, Moves Layered (checkDecl d)
  | .func f => .bind (.mono (confined_checkFunc f) fun _ _ confined => confined.deepens.layered)
      fun _ => .pure _
  | .cls c => .bind (.mono (confined_checkClass c) fun _ _ confined => confined.deepens.layered)
      fun _ => .pure _
  | .iface i => .bind (checks_checkInterface i.members).moves fun _ => .pure _
  | .namespaceDecl _ decls stmts =>
      layered_inScope (.bind (free_hoistTop decls) fun _ => .bind (layered_checkDecls decls)
        fun _ => .bind (.mono (nested_checkStmts stmts) fun _ _ => Deepens.layered)
          fun _ => .pure _)
  | .importDecl i => .bind (checks_checkImport i).moves fun _ => .pure _
  | .enum _ => .pure _
  | .packageDecl _ => .pure _
  | .externDecl _ => .pure _

theorem layered_checkDecls : ∀ ds : List Decl, Moves Layered (checkDecls ds)
  | [] => .pure _
  | d :: ds => .bind (layered_checkDecl d) fun _ => .bind (layered_checkDecls ds) fun _ => .pure _

end

/-- Statements, to any depth, add names to the innermost scope only; a function and a class leave
all scopes as they were. -/
theorem bodies_are_local (ss : List Stmt) (f : FunctionDecl) (c : ClassDecl) :
    Moves Deepens (checkStmts ss) ∧ Moves Confined (checkFunc f) ∧ Moves Confined (checkClass c) :=
  ⟨nested_checkStmts ss, confined_checkFunc f, confined_checkClass c⟩

/-- At the end of an analysis only the global scope is left.  In it the built-in names come first,
and no name is there twice. -/
theorem scopes_of_run {prog prog' : Program} (returns : (run prog).run .initial = some (prog', s)) :
    ∃ added, s.scopes = [builtinSymbols ++ added] ∧
      ((builtinSymbols ++ added).map Prod.fst).Nodup := by
  have layered : Moves Layered (run prog) :=
    .bind (free_hoistTop _) fun _ => .bind (layered_checkDecls _) fun _ =>
      .bind (.mono (nested_checkStmts _) fun _ _ => Deepens.layered) fun _ => .pure _
  obtain ⟨sc, outer, widens, more, isStack⟩ :=
    List.forall₂_cons_left_iff.1 (layered _ _ _ returns (List.cons_ne_nil _ _))
  obtain ⟨added, rfl⟩ := widens.kept
  rw [List.forall₂_nil_left_iff.1 more] at isStack
  exact ⟨added, isStack, widens.distinct (by decide +kernel)⟩

/-- `namespace n { class A { } }  void f(int x) { }`. -/
def declaring : Program where
  decls :=
    [.namespaceDecl "n" [.cls { name := "A", members := [] }] [],
      .func { loc := ⟨1, 1⟩, name := "f", returnType := { name := "void" },
              params := [{ name := "x", type := { name := "int" } }], body := some [] }]
  stmts := []

theorem scopes_of_declaring : ∃ prog' s, (run declaring).run .initial = some (prog', s) ∧
    ∃ added, s.scopes = [builtinSymbols ++ added] ∧
      ((builtinSymbols ++ added).map Prod.fst).Nodup := by
  obtain ⟨prog', s, accepts, -⟩ := exists_accepts declaring (fun _ _ => true) (by decide +kernel)
  exact ⟨prog', s, accepts.1, scopes_of_run accepts.1⟩

end Dux.Sema
