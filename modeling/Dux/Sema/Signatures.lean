import Dux.Sema.Heritage

/-!
# The return types of function types

`check_lambda` (`src/sema/sema.cpp`) records the return type of a lambda with the type it
interns for it.  What follows leaves it there: `type_from_te` fills in a return type only where
none is known.
-/

namespace Dux

namespace TypeRegistry

/-! ## Descriptions in the table -/

variable {r : TypeRegistry} {id t : TypeId}

theorem info_modifyInfo (f : TypeInfo → TypeInfo) (hasId : r.Has id) (has : r.Has t) :
    (r.modifyInfo id f).info t = if id = t then f (r.info t) else r.info t := by
  obtain ⟨i, rfl⟩ := Int.eq_ofNat_of_zero_le hasId.1
  obtain ⟨j, rfl⟩ := Int.eq_ofNat_of_zero_le has.1
  have before : i < r.types.length := Int.ofNat_lt.1 hasId.2
  have inside : j < r.types.length := Int.ofNat_lt.1 has.2
  have known : ¬((i : Int) < 0 ∨ r.types.length ≤ (i : Int).toNat) :=
    not_or.2 ⟨Int.not_lt.2 hasId.1, Nat.not_le.2 before⟩
  rw [modifyInfo, if_neg known, info, info, if_neg (Int.not_lt.2 has.1),
    if_neg (Int.not_lt.2 has.1), Int.toNat_natCast, Int.toNat_natCast,
    List.getD_eq_getElem?_getD, List.getD_eq_getElem?_getD, List.getElem?_modify,
    List.getElem?_eq_getElem inside]
  by_cases here : i = j
  · simp [here]
  · simp [here]

theorem info_intern (name : String) (kind : TypeKind) (has : r.Has t) :
    (r.intern name kind).2.info t = r.info t := by
  have inside : t.toNat < r.types.length := (Int.toNat_lt has.1).2 has.2
  unfold TypeRegistry.intern
  split
  · rfl
  · rw [info, info, if_neg (Int.not_lt.2 has.1), if_neg (Int.not_lt.2 has.1),
      List.getD_eq_getElem?_getD, List.getD_eq_getElem?_getD, List.getElem?_append_left inside,
      List.getElem?_eq_getElem inside]
    rfl

theorem Has.intern (name : String) (kind : TypeKind) (has : r.Has t) :
    (r.intern name kind).2.Has t := by
  unfold TypeRegistry.intern
  split
  · exact has
  · refine ⟨has.1, lt_of_lt_of_le has.2 ?_⟩
    exact Int.ofNat_le.2 (by simp)

theorem Has.modifyInfo (id : TypeId) (f : TypeInfo → TypeInfo) (has : r.Has t) :
    (r.modifyInfo id f).Has t := by
  unfold TypeRegistry.modifyInfo
  split <;> exact ⟨has.1, by rw [List.length_modify]; exact has.2⟩

end TypeRegistry

namespace Sema

open TypeRegistry Logic

variable {s s' : State} {t ret : TypeId}

/-- A function type of the table has a return type that is known. -/
structure Records (t ret : TypeId) (s : State) : Prop where
  has : s.types.Has t
  known : 0 ≤ ret
  returnType : (s.types.info t).returnType = ret

/-- What is recorded stays recorded. -/
def Stays (t ret : TypeId) (s s' : State) : Prop := Records t ret s → Records t ret s'

instance : IsPreorder State (Stays t ret) where
  refl _ := id
  trans _ _ _ first second := second ∘ first

theorem stays_intern (name : String) (kind : TypeKind) :
    Moves (Stays t ret) (Sema.intern name kind) := by
  intro s a s' run recorded
  cases run
  exact ⟨recorded.has.intern name kind, recorded.known,
    (congrArg TypeInfo.returnType (info_intern name kind recorded.has)).trans recorded.returnType⟩

theorem stays_modifyInfo {f : TypeInfo → TypeInfo} {id : TypeId} (hasId : s.types.Has id)
    (keeps : 0 ≤ (s.types.info id).returnType →
      (f (s.types.info id)).returnType = (s.types.info id).returnType)
    (recorded : Records t ret s) : Records t ret { s with types := s.types.modifyInfo id f } := by
  refine ⟨recorded.has.modifyInfo id f, recorded.known, ?_⟩
  rw [info_modifyInfo f hasId recorded.has]
  by_cases here : id = t
  · rw [if_pos here]
    subst here
    rw [keeps (recorded.returnType ▸ recorded.known)]
    exact recorded.returnType
  · rw [if_neg here]
    exact recorded.returnType

theorem stays_typeFromTe (te : TypeExpr) : Moves (Stays t ret) (typeFromTe te) := by
  unfold typeFromTe
  refine .ite (fun _ => .pure _) fun _ => .ite (fun _ => ?_) fun _ =>
    .bind .get fun _ => .pure _
  intro s a s' run recorded
  obtain ⟨id, s₁, interned, run⟩ := run_bind_eq_some_iff.1 run
  have kept := stays_intern _ _ _ _ _ interned recorded
  have hasId : s₁.types.Has id := by
    cases interned
    exact has_intern _ _ _
  obtain ⟨_, _, got, run⟩ := run_bind_eq_some_iff.1 run
  obtain ⟨rfl, rfl⟩ := run_get_eq_some_iff.1 got
  by_cases unknown : (s₁.types.info id).returnType < 0
  · rw [if_pos unknown] at run
    obtain ⟨_, _, modified, run⟩ := run_bind_eq_some_iff.1 run
    obtain ⟨-, rfl⟩ := run_pure_eq_some_iff.1 run
    cases modified
    exact stays_modifyInfo hasId (fun known => absurd unknown (Int.not_lt.2 known)) kept
  · rw [if_neg unknown] at run
    obtain ⟨-, rfl⟩ := run_pure_eq_some_iff.1 run
    exact kept

theorem stays_typesOfParams (params : List Param) :
    Moves (Stays t ret) (typesOfParams params) := by
  induction params with
  | nil => exact .pure _
  | cons p ps ih =>
      exact .bind (stays_typeFromTe _) fun _ => .bind ih fun _ => .pure _

/-- The type that an annotation names to `type_from_te`. -/
def denoted (types : TypeRegistry) (te : TypeExpr) : TypeId :=
  if te.name = "ptr" then TID_OBJECT
  else if te.name = "__fn" then
    (types.intern (fnSignature te.fnParams te.fnRet) .function).1
  else types.fromTypeExpr te

theorem typeFromTe_eq_denoted {te : TypeExpr} (run : (typeFromTe te).run s = some (t, s')) :
    t = denoted s.types te := by
  by_cases isPtr : te.name = "ptr"
  · rw [typeFromTe, if_pos isPtr] at run
    rw [denoted, if_pos isPtr]
    exact (run_pure_eq_some_iff.1 run).1.symm
  · rw [denoted, if_neg isPtr]
    by_cases isFn : te.name = "__fn"
    · obtain ⟨s₁, returns⟩ := typeFromTe_fn isFn s
      rw [if_pos isFn]
      exact (congrArg Prod.fst (Option.some.inj (returns.symm.trans run))).symm
    · rw [typeFromTe, if_neg isPtr, if_neg isFn] at run
      rw [if_neg isFn]
      cases run
      rfl

/-- The return type of a lambda to `check_lambda`. -/
def returnTid (types : TypeRegistry) (explicitRet : Option TypeExpr) (body : List Stmt) : TypeId :=
  (explicitRet.map (denoted types)).getD (inferRet body)

theorem records_checkLambda {params : List Param} {body : List Stmt}
    {explicitRet : Option TypeExpr} {name : String}
    (run : (checkLambda params body explicitRet).run s = some ((t, name), s'))
    (known : 0 ≤ returnTid s.types explicitRet body) :
    Records t (returnTid s.types explicitRet body) s' := by
  have finish : ∀ ret s₀, 0 ≤ ret → (do
      let retName := (← get).types.nameOf ret
      let id ← Sema.intern (fnSignature (params.map (·.type)) retName) .function
      modifyInfo id fun ti => { ti with returnType := ret }
      if ((← get).types.info id).paramTypes = [] then
        let paramTypes ← typesOfParams params
        modifyInfo id fun ti => { ti with paramTypes := paramTypes.map (·.2) }
      return (id, retName) : M (TypeId × String)).run s₀ = some ((t, name), s') →
      Records t ret s' := by
    intro ret s₀ known run
    obtain ⟨_, _, got, run⟩ := run_bind_eq_some_iff.1 run
    obtain ⟨rfl, rfl⟩ := run_get_eq_some_iff.1 got
    obtain ⟨id, s₂, interned, run⟩ := run_bind_eq_some_iff.1 run
    have hasId : s₂.types.Has id := by
      cases interned
      exact has_intern _ _ _
    obtain ⟨_, s₃, modified, run⟩ := run_bind_eq_some_iff.1 run
    have recorded : Records id ret s₃ := by
      cases modified
      refine ⟨hasId.modifyInfo _ _, known, ?_⟩
      rw [info_modifyInfo _ hasId hasId, if_pos rfl]
    obtain ⟨_, _, got, run⟩ := run_bind_eq_some_iff.1 run
    obtain ⟨rfl, rfl⟩ := run_get_eq_some_iff.1 got
    by_cases first : (s₃.types.info id).paramTypes = []
    · rw [if_pos first] at run
      obtain ⟨paramTypes, s₄, typed, run⟩ := run_bind_eq_some_iff.1 run
      obtain ⟨_, s₅, given, run⟩ := run_bind_eq_some_iff.1 run
      obtain ⟨same, rfl⟩ := run_pure_eq_some_iff.1 run
      cases same
      have kept := stays_typesOfParams params _ _ _ typed recorded
      cases given
      exact stays_modifyInfo kept.has (fun _ => rfl) kept
    · rw [if_neg first] at run
      obtain ⟨same, rfl⟩ := run_pure_eq_some_iff.1 run
      cases same
      exact recorded
  unfold checkLambda at run
  cases explicitRet with
  | none => exact finish _ _ known run
  | some te =>
      obtain ⟨ret, s₁, resolved, run⟩ := run_bind_eq_some_iff.1 run
      have isRet : ret = returnTid s.types (some te) body := typeFromTe_eq_denoted resolved
      exact isRet ▸ finish _ _ (isRet ▸ known) run

end Sema

end Dux
