import Dux.Sema.Bodies

/-!
# The checking pass only adds function types

The checking pass meets the declarations that were hoisted, so that the names
it asks for are there already; what it adds to the registry are the types of
functions and lambdas.
-/

namespace Dux.Sema

open Logic (keys Moves)

theorem signatureRequest_function (te : TypeExpr) :
    ∀ entry ∈ signatureRequest te, entry.2 = .function := by
  intro entry member
  unfold signatureRequest at member
  split at member
  · cases member
  · split at member
    · rw [List.mem_singleton.1 member]
    · cases member

theorem signatureRequests_function (ret : TypeExpr) (params : List Param) :
    ∀ entry ∈ signatureRequests ret params, entry.2 = .function := by
  intro entry member
  rcases List.mem_append.1 member with inRet | inParams
  · exact signatureRequest_function ret entry inRet
  · obtain ⟨p, _, inSignature⟩ := List.mem_flatMap.1 inParams
    exact signatureRequest_function p.type entry inSignature

instance : Nested Grows where
  inScope nested := .bind tame_push fun _ => .bind nested fun _ =>
    .bind tame_pop fun _ => .pure _
  flags s s' flagged := by
    refine ⟨[], ?_, fun _ member => by cases member⟩
    rw [flagged.1, List.append_nil]

/-! ## Declarations -/

section Declarations

/-- Growth, given that these names are in the registry already. -/
def GrowsIf (names : List String) (s s' : State) : Prop :=
  names ⊆ keys s.types.entries → Grows s s'

instance (names : List String) : IsPreorder State (GrowsIf names) where
  refl s _ := Std.Refl.refl s
  trans _ _ _ first second known :=
    IsTrans.trans _ _ _ (first known)
      (second fun _ member => (first known).keys_subset (known member))

variable {α : Type} {names : List String}

theorem growsIf_of_grows {m : M α} (grows : Moves Grows m) : Moves (GrowsIf names) m :=
  grows.mono fun _ _ step _ => step

theorem growsIf_mono {names' : List String} {m : M α} (fewer : names' ⊆ names)
    (grows : Moves (GrowsIf names') m) : Moves (GrowsIf names) m :=
  grows.mono fun _ _ step known => step fun _ member => known (fewer member)

theorem growsIf_inScope {check : M α} (grows : Moves (GrowsIf names) check) :
    Moves (GrowsIf names) (inScope check) :=
  .bind (growsIf_of_grows tame_push) fun _ => .bind grows fun _ =>
    .bind (growsIf_of_grows tame_pop) fun _ => .pure _

theorem growsIf_hoistTop (ds : List Decl) :
    Moves (GrowsIf (keys (typeRequestsAll ds))) (hoistTop ds) :=
  (moves_hoistTop ds).mono fun _ _ interns known => interns.grows fun entry member =>
    Or.inr (known (List.mem_map.2 ⟨entry, member, rfl⟩))

theorem grows_checkClass (c : ClassDecl) : Moves Grows (checkClass c) :=
  .bind .get fun _ => .bind (tame_checkBases _ _) fun _ =>
    .bind (checks_checkContracts _ _).moves fun _ => nested_checkClassBody _ _

mutual

theorem growsIf_checkDecl : ∀ d : Decl, Moves (GrowsIf (keys (typeRequests d))) (checkDecl d)
  | .func f => growsIf_of_grows (.bind (nested_checkFunc f) fun _ => .pure _)
  | .cls c => growsIf_of_grows (.bind (grows_checkClass c) fun _ => .pure _)
  | .iface i =>
      growsIf_of_grows (.bind (checks_checkInterface i.members).moves fun _ => .pure _)
  | .namespaceDecl _ decls stmts =>
      growsIf_inScope (.bind (growsIf_hoistTop decls) fun _ =>
        .bind (growsIf_checkDecls decls) fun _ =>
          .bind (growsIf_of_grows (nested_checkStmts stmts)) fun _ => .pure _)
  | .importDecl i =>
      growsIf_of_grows (.bind (checks_checkImport i).moves fun _ => .pure _)
  | .enum _ => .pure _
  | .packageDecl _ => .pure _
  | .externDecl _ => .pure _

theorem growsIf_checkDecls : ∀ ds : List Decl,
    Moves (GrowsIf (keys (typeRequestsAll ds))) (checkDecls ds)
  | [] => .pure _
  | d :: ds =>
      .bind
        (growsIf_mono (fun _ member => by
          rw [typeRequestsAll, Logic.keys_append]
          exact List.mem_append_left _ member) (growsIf_checkDecl d))
        fun _ => .bind
          (growsIf_mono (fun _ member => by
            rw [typeRequestsAll, Logic.keys_append]
            exact List.mem_append_right _ member) (growsIf_checkDecls ds))
          fun _ => .pure _

end

end Declarations

/-- The registry after analysis: what the declarations request, interned in
order, and function types behind it. -/
theorem entries_of_run {prog prog' : Program} {s : State}
    (returns : (run prog).run .initial = some (prog', s)) :
    ∃ functions, s.types.entries =
        Logic.internAll TypeRegistry.initial.entries (typeRequestsAll prog.decls) ++ functions ∧
      ∀ entry ∈ functions, entry.2 = .function := by
  unfold run at returns
  obtain ⟨_, hoisted, hoist, returns⟩ := Logic.run_bind_eq_some_iff.1 returns
  have interned := moves_hoistTop prog.decls _ _ _ hoist
  have known : keys (typeRequestsAll prog.decls) ⊆ keys hoisted.types.entries := by
    intro name member
    rw [interned, Logic.mem_keys_internAll]
    exact Or.inr member
  have checks : Moves (GrowsIf (keys (typeRequestsAll prog.decls))) (do
      let decls ← checkDecls prog.decls
      return (⟨decls, ← checkStmts prog.stmts⟩ : Program)) :=
    .bind (growsIf_checkDecls prog.decls) fun _ =>
      .bind (growsIf_of_grows (nested_checkStmts prog.stmts)) fun _ => .pure _
  obtain ⟨functions, appended, kinds⟩ := checks _ _ _ returns known
  exact ⟨functions, by rw [appended, interned]; rfl, kinds⟩

end Dux.Sema
