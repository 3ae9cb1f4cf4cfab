import Dux.Codegen.Numbers
import Dux.Codegen.WellTyped
import Dux.Sema.Signatures

/-!
# The return type of a lambda

`check_lambda` (`src/sema/sema.cpp`) takes the annotation, or the type of the first typed
`return` that stands in the body itself; `gen_lambda` (`src/codegen/codegen.cpp`) takes the first
such `return` whatever the annotation says, and a call takes what `fn_var_types_` has for the
called name.  What `gen_return` makes of a value depends on the second of the three.
-/

namespace Dux.Codegen.LambdaReturns

open TypeRegistry
open Sema (inferRet checkLambda denoted returnTid)
open Typing (Builder Gen Value typeIdOf lambdaRet enterLambda closureFn closureOf declareLocal)
open Logic (Moves run_bind_eq_some_iff)

/-! ## The returns of a body -/

/-- A `return` of a lambda, and whether it is part of a deferred block. -/
structure Return where
  value : Option Expr
  deferred : Bool

mutual

/-- The `return`s of a statement.  Those of a lambda in it are not among them. -/
def returnsStmt (deferred : Bool) : Stmt → List Return
  | .block body => returnsStmts deferred body
  | .expr _ => []
  | .varDecl _ _ _ _ _ => []
  | .ifStmt _ thenBr elseBr => returnsStmts deferred thenBr ++ returnsElse deferred elseBr
  | .whileStmt _ _ body => returnsStmts deferred body
  | .doWhile body _ => returnsStmts deferred body
  | .forIn _ _ _ body => returnsStmts deferred body
  | .forC _ _ _ _ _ body => returnsStmts deferred body
  | .switchStmt _ cases => returnsCases deferred cases
  | .matchStmt _ arms => returnsArms deferred arms
  | .tryCatch tryBody _ _ _ catchBody =>
      returnsStmts deferred tryBody ++ returnsStmts deferred catchBody
  | .returnStmt value => [⟨value, deferred⟩]
  | .breakStmt _ => []
  | .continueStmt _ => []
  | .assertStmt _ => []
  | .deleteStmt _ => []
  | .defer _ body => returnsStmts true body
  | .throwStmt _ => []
  | .unsafeStmt body => returnsStmts deferred body

def returnsStmts (deferred : Bool) : List Stmt → List Return
  | [] => []
  | s :: ss => returnsStmt deferred s ++ returnsStmts deferred ss

def returnsElse (deferred : Bool) : ElseBr → List Return
  | .none => []
  | .block body => returnsStmts deferred body
  | .elif _ thenBr elseBr => returnsStmts deferred thenBr ++ returnsElse deferred elseBr

def returnsCase (deferred : Bool) : SwitchCase → List Return
  | .mk _ body => returnsStmts deferred body

def returnsCases (deferred : Bool) : List SwitchCase → List Return
  | [] => []
  | c :: cs => returnsCase deferred c ++ returnsCases deferred cs

def returnsArm (deferred : Bool) : MatchArm → List Return
  | .mk _ body => returnsStmts deferred body

def returnsArms (deferred : Bool) : List MatchArm → List Return
  | [] => []
  | a :: as => returnsArm deferred a ++ returnsArms deferred as

end

def returnsOf (body : List Stmt) : List Return := returnsStmts false body

theorem mem_returnsStmts {value : Option Expr} {deferred : Bool} {body : List Stmt}
    (direct : .returnStmt value ∈ body) : ⟨value, deferred⟩ ∈ returnsStmts deferred body := by
  induction body with
  | nil => cases direct
  | cons s ss ih =>
      rw [returnsStmts, List.mem_append]
      rcases List.mem_cons.1 direct with rfl | direct
      · exact .inl (List.mem_singleton_self _)
      · exact .inr (ih direct)

/-- The first `return` that stands in the body itself and whose value has a type. -/
structure First (body : List Stmt) (e : Expr) : Prop where
  typed : 0 ≤ e.tid
  first : ∃ before after, body = before ++ .returnStmt (some e) :: after ∧
    ∀ e', .returnStmt (some e') ∈ before → e'.tid < 0

/-! ## Generated code -/

/-- The return type that a call of a variable takes its closure to have. -/
def assumedRet (call : Builder) (callee : String) : Option LlvmType :=
  ((closureOf callee).run call).bind fun result => result.1.map (·.ret)

/-- What `gen_return` hands to `ret`, `v` being the value of `e`.  In a lambda of an async
function it sets the future of that function instead, which is a value of another function. -/
def returned (inside : Builder) (e : Expr) (v : LlvmValue) : Option LlvmValue :=
  if inside.inAsync then none else Numbers.coerce (typeIdOf e) inside.retType v

/-- What a call gives when the function returns `w`; `ret` takes values of the function's type
only, and a call through another type is undefined. -/
def received (inside : Builder) (assumed : Option LlvmType) (w : LlvmValue) : Option LlvmValue :=
  if w.type ≠ .void ∧ w.type = inside.fnRet ∧ assumed = some inside.fnRet then some w else none

section Consistency

-- the registry of sema, and the LLVM types of the values that `gen_expr` gives
variable (types : TypeRegistry) (T : Expr → LlvmType)

/-- A `return` yields a value of the type, which the call gives.  One in a deferred block does
not: `gen_return` emits that block before `ret`, and so itself, for ever. -/
structure Return.Yields (inside : Builder) (assumed : Option LlvmType) (ret : TypeId)
    (r : Return) : Prop where
  emitted : r.deferred = false ∧ inside.inAsync = false
  none : r.value = none → ret = TID_VOID
  some : ∀ e, r.value = some e → e.tid ≠ TID_VOID ∧ types.assignable e.tid ret = some true ∧
    ∀ v : LlvmValue, v.type = T e → ∃ w, returned inside e v = some w ∧
      w.type = lowerType types ret ∧ received inside assumed w = some w

/-- The return type of a lambda is recorded with its type, and is the one of its function and of
a call; every `return` yields a value of it, and the call gives that value. -/
structure Consistent (inside : Builder) (assumed : Option LlvmType) (t ret : TypeId)
    (body : List Stmt) : Prop where
  known : 0 ≤ ret
  recorded : (types.info t).returnType = ret
  generated : inside.fnRet = lowerType types ret
  called : assumed = some (lowerType types ret)
  yields : ∀ r ∈ returnsOf body, r.Yields types T inside assumed ret

/-- A `return` of a value whose type is one of the wanted type, and which `coerce` brings from
there to the LLVM type of the wanted one by way of the type of the first `return`, without
making an integer of a floating-point number. -/
def Return.Suits (first : Expr) (ret : TypeId) (r : Return) : Prop :=
  ∃ e, r.value = some e ∧ e.tid ≠ TID_VOID ∧ types.assignable e.tid ret = some true ∧
    Typing.coerce (typeIdOf e) first.tid (T e) = lowerType types ret ∧
    ¬((T e).isFp = true ∧ (lowerType types ret).isInt = true)

/-- The lambda returns nothing, and says nothing else. -/
def Silent (annotated : Option TypeId) (name : TypeId) (body : List Stmt) : Prop :=
  annotated.getD TID_VOID = TID_VOID ∧ name ≤ TID_VOID ∧ ∀ r ∈ returnsOf body, r.value = none

/-- The lambda returns a value everywhere, once in the body itself, and the first type is not
another than the annotation for LLVM; nor is the one with the name that the call has. -/
def Agreed (made call : TypeRegistry) (annotated : Option TypeId) (name : TypeId)
    (body : List Stmt) : Prop :=
  ∃ first ret, First body first ∧ annotated.getD first.tid = ret ∧ TID_VOID < ret ∧
    lowerType made first.tid = lowerType types ret ∧
    0 ≤ name ∧ lowerType call name = lowerType types ret ∧
    ∀ r ∈ returnsOf body, r.Suits types T first ret

/-- The `return`s are in no deferred block and no async function, the called name is that of a
closure in scope, and the lambda returns nothing at all or agrees about its value. -/
def Settled (made call : Builder) (callee : String) (annotated : Option TypeId)
    (body : List Stmt) : Prop :=
  (∀ r ∈ returnsOf body, r.deferred = false ∧ made.inAsync = false) ∧
    ∃ te, call.fnVars.lookup callee = some te ∧ (call.find callee).isSome = true ∧
      (Silent annotated (call.m.ls.types.fromName te.fnRet) body ∨
        Agreed types T made.m.ls.types call.m.ls.types annotated
          (call.m.ls.types.fromName te.fnRet) body)

end Consistency

/-! ## What is found -/

section Found

variable {body : List Stmt} {e : Expr}

theorem inferRet_cons_of {s : Stmt} (skipped : ∀ e, s = .returnStmt (some e) → e.tid < 0)
    (rest : List Stmt) : inferRet (s :: rest) = inferRet rest := by
  cases s with
  | returnStmt value =>
      cases value with
      | none => rfl
      | some e => exact if_neg (Int.not_le.2 (skipped e rfl))
  | _ => rfl

theorem inferRet_of_first (isFirst : First body e) : inferRet body = e.tid := by
  obtain ⟨typed, before, after, rfl, untyped⟩ := isFirst
  induction before with
  | nil => exact if_pos typed
  | cons s before ih =>
      rw [List.cons_append, inferRet_cons_of]
      · exact ih fun e' member => untyped e' (List.mem_cons_of_mem s member)
      · rintro e' rfl
        exact untyped e' List.mem_cons_self

theorem exists_first (found : inferRet body ≠ TID_VOID) : ∃ e, First body e := by
  induction body with
  | nil => exact absurd rfl found
  | cons s rest ih =>
      by_cases here : ∃ e, s = .returnStmt (some e) ∧ 0 ≤ e.tid
      · obtain ⟨e, rfl, typed⟩ := here
        exact ⟨e, typed, [], rest, rfl, fun _ member => by cases member⟩
      · have skipped : ∀ e, s = .returnStmt (some e) → e.tid < 0 := fun e isReturn =>
          Int.not_le.1 fun typed => here ⟨e, isReturn, typed⟩
        rw [inferRet_cons_of skipped] at found
        obtain ⟨e, typed, before, after, rfl, untyped⟩ := ih found
        refine ⟨e, typed, s :: before, after, rfl, fun e' member => ?_⟩
        rcases List.mem_cons.1 member with isReturn | member
        · exact skipped e' isReturn.symm
        · exact untyped e' member

theorem lambdaRet_eq_inferRet (valued : ∀ e, .returnStmt (some e) ∈ body → e.tid ≠ TID_VOID) :
    lambdaRet body = inferRet body := by
  induction body with
  | nil => rfl
  | cons s rest ih =>
      have same := ih fun e member => valued e (List.mem_cons_of_mem s member)
      cases s with
      | returnStmt value =>
          cases value with
          | none => exact same
          | some e =>
              rw [lambdaRet, inferRet, same]
              simp [valued e List.mem_cons_self]
      | _ => exact same

theorem assumedRet_of_lookup {call : Builder} {callee : String} {te : TypeExpr} {slot : LlvmType}
    (registered : call.fnVars.lookup callee = some te) (inScope : call.find callee = some slot) :
    assumedRet call callee = some (if call.m.ls.types.fromName te.fnRet < 0 then .void
      else lowerType call.m.ls.types (call.m.ls.types.fromName te.fnRet)) := by
  by_cases isVoid : call.m.ls.types.fromName te.fnRet = TID_VOID
  · simp [assumedRet, closureOf, closureFn, registered, inScope, isVoid, lowerType]
  · simp [assumedRet, closureOf, closureFn, registered, inScope, isVoid]

theorem assumedRet_eq_some_iff {call : Builder} {callee : String} {t : LlvmType} :
    assumedRet call callee = some t ↔
      ∃ te, call.fnVars.lookup callee = some te ∧ (call.find callee).isSome = true ∧
        (if call.m.ls.types.fromName te.fnRet < 0 then .void
          else lowerType call.m.ls.types (call.m.ls.types.fromName te.fnRet)) = t := by
  cases registered : call.fnVars.lookup callee with
  | none => simp [assumedRet, closureOf, registered]
  | some te =>
      cases inScope : call.find callee with
      | none => simp [assumedRet, closureOf, registered, inScope]
      | some slot => simp [assumedRet_of_lookup registered inScope]

theorem lowerType_eq_void_iff {types : TypeRegistry} {t : TypeId} :
    lowerType types t = .void ↔ t = TID_VOID := by
  constructor
  · intro isVoid
    by_contra other
    rw [lowerType, if_neg other] at isVoid
    unfold lowerUserType at isVoid
    split_ifs at isVoid
  · rintro rfl
    rfl

end Found

/-! ## The declaration of a variable of a lambda -/

section Declaration

/-- `fn_var_types_` is left as it is. -/
def KeepsFnVars (b b' : Builder) : Prop := b'.fnVars = b.fnVars

instance : IsPreorder Builder KeepsFnVars where
  refl _ := rfl
  trans _ _ _ first second := second.trans first

theorem lookup_declareLocal {type : TypeExpr} {var inferred : String} {t : TypeId}
    {params : List Param} {body : List Stmt} {ret : Option TypeExpr} {v : Value}
    {b b' : Builder} {u : Unit}
    (run : (declareLocal type var (some (.lambda t params body ret inferred, v))).run b =
      some (u, b')) :
    b'.fnVars.lookup var =
      some { name := "__fn", fnParams := params.map (·.type), fnRet := inferred } := by
  unfold declareLocal at run
  obtain ⟨_, _, -, run⟩ := run_bind_eq_some_iff.1 run
  obtain ⟨_, _, -, run⟩ := run_bind_eq_some_iff.1 run
  obtain ⟨_, _, -, run⟩ := run_bind_eq_some_iff.1 run
  obtain ⟨_, _, -, run⟩ := run_bind_eq_some_iff.1 run
  obtain ⟨_, _, written, run⟩ := run_bind_eq_some_iff.1 run
  obtain ⟨_, b₁, cleaned, run⟩ := run_bind_eq_some_iff.1 run
  have tail : KeepsFnVars b₁ b' := by
    refine Moves.ite (R := KeepsFnVars) (fun _ => ?_) (fun _ => ?_) _ _ _ run
    · refine Moves.bind (Moves.modify fun _ => rfl) fun _ => ?_
      refine .ite (fun _ => .modify fun _ => ?_) fun _ => .pure _
      split <;> rfl
    · refine .ite (fun _ => .modify fun _ => ?_) fun _ => .pure _
      split <;> rfl
  rw [tail]
  cases cleaned
  cases written
  exact List.lookup_cons_self

/-- A call of the variable goes by the name that was recorded with the lambda. -/
theorem assumedRet_of_declareLocal {type : TypeExpr} {var inferred : String} {t : TypeId}
    {params : List Param} {body : List Stmt} {ret : Option TypeExpr} {v : Value}
    {b call : Builder} {u : Unit} {slot : LlvmType}
    (run : (declareLocal type var (some (.lambda t params body ret inferred, v))).run b =
      some (u, call)) (inScope : call.find var = some slot) :
    assumedRet call var = some (if call.m.ls.types.fromName inferred < 0 then .void
      else lowerType call.m.ls.types (call.m.ls.types.fromName inferred)) :=
  assumedRet_of_lookup (lookup_declareLocal run) inScope

end Declaration

/-! ## Agreement -/

section Agreement

variable {types : TypeRegistry} {T : Expr → LlvmType} {made call : Builder} {callee : String}
  {params : List Param} {body : List Stmt} {ret : TypeId} {r : Return} {e : Expr}

theorem yields_iff_suits {assumed : Option LlvmType} (inside : Builder) {first : Expr}
    (ret_ne : ret ≠ TID_VOID) (own : inside.retType = first.tid)
    (generated : inside.fnRet = lowerType types ret)
    (called : assumed = some (lowerType types ret)) :
    r.Yields types T inside assumed ret ↔
      (r.deferred = false ∧ inside.inAsync = false) ∧ r.Suits types T first ret := by
  have notVoid : lowerType types ret ≠ .void := mt lowerType_eq_void_iff.1 ret_ne
  constructor
  · intro yields
    refine ⟨yields.emitted, ?_⟩
    cases isValue : r.value with
    | none => exact absurd (yields.none isValue) ret_ne
    | some e =>
        obtain ⟨valued, assignable, brings⟩ := yields.some e isValue
        have comes : ∀ v : LlvmValue, v.type = T e →
            ∃ w, Numbers.coerce (typeIdOf e) first.tid v = some w ∧
              w.type = lowerType types ret := by
          intro v isOf
          obtain ⟨w, given, typed, -⟩ := brings v isOf
          rw [returned, yields.emitted.2, if_neg Bool.false_ne_true, own] at given
          exact ⟨w, given, typed⟩
        exact ⟨e, isValue, valued, assignable, Numbers.forall_coerce_iff.1 comes⟩
  · rintro ⟨emitted, e, isValue, valued, assignable, suits⟩
    refine ⟨emitted, fun isNone => ?_, fun e' isValue' => ?_⟩
    · rw [isValue] at isNone
      cases isNone
    · cases isValue.symm.trans isValue'
      refine ⟨valued, assignable, fun v isOf => ?_⟩
      obtain ⟨w, comes, typed⟩ := Numbers.forall_coerce_iff.2 suits v isOf
      refine ⟨w, ?_, typed, ?_⟩
      · rw [returned, emitted.2, if_neg Bool.false_ne_true, own]
        exact comes
      · exact if_pos ⟨typed ▸ notVoid, typed.trans generated.symm, by rw [called, generated]⟩

theorem yields_void_iff {assumed : Option LlvmType} (inside : Builder) :
    r.Yields types T inside assumed TID_VOID ↔
      (r.deferred = false ∧ inside.inAsync = false) ∧ r.value = none := by
  constructor
  · intro yields
    refine ⟨yields.emitted, ?_⟩
    cases isValue : r.value with
    | none => rfl
    | some e =>
        obtain ⟨-, -, brings⟩ := yields.some e isValue
        obtain ⟨w, -, isVoid, given⟩ := brings (T e).null (type_null _)
        rw [received, if_neg fun fits => fits.1 isVoid] at given
        cases given
  · rintro ⟨emitted, isNone⟩
    refine ⟨emitted, fun _ => rfl, fun e isValue => ?_⟩
    rw [isNone] at isValue
    cases isValue

/-- Where every value has a type, the function has the type of the first `return`. -/
theorem lambdaRet_of_first (isFirst : First body e)
    (valued : ∀ e, .returnStmt (some e) ∈ body → e.tid ≠ TID_VOID) : lambdaRet body = e.tid := by
  rw [lambdaRet_eq_inferRet valued, inferRet_of_first isFirst]

theorem valued_of_suits {first : Expr} (suits : ∀ r ∈ returnsOf body, r.Suits types T first ret)
    (e : Expr) (direct : .returnStmt (some e) ∈ body) : e.tid ≠ TID_VOID := by
  obtain ⟨e', isValue, valued, -⟩ := suits _ (mem_returnsStmts direct)
  cases isValue
  exact valued

theorem inferRet_of_silent (silent : ∀ r ∈ returnsOf body, r.value = none) :
    inferRet body = TID_VOID ∧ lambdaRet body = TID_VOID := by
  have noDirect : ∀ e, .returnStmt (some e) ∉ body := by
    intro e direct
    cases silent _ (mem_returnsStmts direct)
  have infers : inferRet body = TID_VOID := by
    by_contra found
    obtain ⟨e, -, before, after, rfl, -⟩ := exists_first found
    exact noDirect e (List.mem_append_right _ List.mem_cons_self)
  refine ⟨infers, ?_⟩
  rw [lambdaRet_eq_inferRet fun e direct => absurd direct (noDirect e), infers]

/-- What a call of a name takes its closure to return is the wanted type exactly if the name
is unknown or `void`, or known and lowered to the wanted type. -/
theorem named_iff {types : TypeRegistry} {name : TypeId} {t : LlvmType} :
    (if name < 0 then .void else lowerType types name) = t ↔
      if t = .void then name ≤ TID_VOID else 0 ≤ name ∧ lowerType types name = t := by
  by_cases unknown : name < 0
  · have below : name ≤ TID_VOID := Int.le_of_lt unknown
    by_cases isVoid : t = .void
    · simp [unknown, isVoid, below]
    · simp [unknown, isVoid, Ne.symm isVoid]
  · have above : 0 ≤ name := Int.not_lt.1 unknown
    by_cases isVoid : t = .void
    · rw [if_neg unknown, if_pos isVoid, isVoid, lowerType_eq_void_iff]
      exact ⟨fun same => Int.le_of_eq same, fun below => Int.le_antisymm below above⟩
    · simp [unknown, isVoid, above]

/-- The return type of a lambda is one and the same, and every `return` yields a value of it,
exactly if the lambda returns nothing and says so, or returns values everywhere, once in the body
itself, that suit the first one, whose type is the annotation to LLVM. -/
theorem consistent_iff_settled {s s' : Sema.State} {t : TypeId} {name : String}
    {explicitRet : Option TypeExpr}
    (checked : (checkLambda params body explicitRet).run s = some ((t, name), s')) :
    Consistent s'.types T (enterLambda params body made) (assumedRet call callee) t
        (returnTid s.types explicitRet body) body ↔
      Settled s'.types T made call callee (explicitRet.map (denoted s.types)) body := by
  constructor
  · intro consistent
    refine ⟨fun r member => (consistent.yields r member).emitted, ?_⟩
    obtain ⟨te, registered, inScope, assumed⟩ := assumedRet_eq_some_iff.1 consistent.called
    refine ⟨te, registered, inScope, ?_⟩
    rw [named_iff] at assumed
    by_cases isVoid : returnTid s.types explicitRet body = TID_VOID
    · left
      rw [if_pos (lowerType_eq_void_iff.2 isVoid)] at assumed
      refine ⟨?_, assumed, fun r member => ?_⟩
      · cases explicitRet with
        | none => rfl
        | some te => exact isVoid
      · exact ((yields_void_iff _).1 (isVoid ▸ consistent.yields r member)).2
    · right
      have notVoid : lowerType s'.types (returnTid s.types explicitRet body) ≠ .void :=
        mt lowerType_eq_void_iff.1 isVoid
      rw [if_neg notVoid] at assumed
      have valued : ∀ e, .returnStmt (some e) ∈ body → e.tid ≠ TID_VOID := fun e direct =>
        ((consistent.yields _ (mem_returnsStmts direct)).some e rfl).1
      have generated : lowerType made.m.ls.types (lambdaRet body) =
          lowerType s'.types (returnTid s.types explicitRet body) := consistent.generated
      have found : inferRet body ≠ TID_VOID := by
        intro none
        rw [lambdaRet_eq_inferRet valued, none] at generated
        exact notVoid generated.symm
      obtain ⟨first, isFirst⟩ := exists_first found
      have own := lambdaRet_of_first isFirst valued
      refine ⟨first, returnTid s.types explicitRet body, isFirst, ?_, ?_, own ▸ generated,
        assumed.1, assumed.2, fun r member => ?_⟩
      · rw [returnTid, inferRet_of_first isFirst]
      · exact lt_of_le_of_ne consistent.known (Ne.symm isVoid)
      · exact ((yields_iff_suits _ isVoid own generated consistent.called).1
          (consistent.yields r member)).2
  · rintro ⟨emitted, te, registered, inScope, settled⟩
    have called {ret : TypeId} (assumed : if lowerType s'.types ret = .void then
          call.m.ls.types.fromName te.fnRet ≤ TID_VOID
        else 0 ≤ call.m.ls.types.fromName te.fnRet ∧
          lowerType call.m.ls.types (call.m.ls.types.fromName te.fnRet) =
            lowerType s'.types ret) :
        assumedRet call callee = some (lowerType s'.types ret) :=
      assumedRet_eq_some_iff.2 ⟨te, registered, inScope, named_iff.2 assumed⟩
    rcases settled with ⟨annotated, named, silent⟩ |
      ⟨first, ret, isFirst, annotated, isValue, lowered, known, named, suits⟩
    · obtain ⟨infers, own⟩ := inferRet_of_silent silent
      have isVoid : returnTid s.types explicitRet body = TID_VOID := by
        rw [returnTid, infers]
        exact annotated
      have records := Sema.records_checkLambda checked (Int.le_of_eq isVoid.symm)
      rw [isVoid] at records ⊢
      exact {
        known := Int.le_refl 0
        recorded := records.returnType
        generated := congrArg (lowerType made.m.ls.types) own
        called := called named
        yields := fun r member => (yields_void_iff _).2 ⟨emitted r member, silent r member⟩ }
    · have own := lambdaRet_of_first isFirst (valued_of_suits suits)
      have isRet : returnTid s.types explicitRet body = ret := by
        rw [returnTid, inferRet_of_first isFirst]
        exact annotated
      have ret_ne : ret ≠ TID_VOID := Int.ne_of_gt isValue
      have generated : (enterLambda params body made).fnRet = lowerType s'.types ret := by
        rw [← lowered, ← own]
        rfl
      have calls : assumedRet call callee = some (lowerType s'.types ret) := by
        apply called
        rw [if_neg (mt lowerType_eq_void_iff.1 ret_ne)]
        exact ⟨known, named⟩
      have records := Sema.records_checkLambda checked (isRet ▸ Int.le_of_lt isValue)
      rw [isRet] at records ⊢
      exact {
        known := records.known
        recorded := records.returnType
        generated := generated
        called := calls
        yields := fun r member =>
          (yields_iff_suits _ ret_ne own generated calls).2
            ⟨emitted r member, suits r member⟩ }

end Agreement

/-- A lambda that says `double`, gives an `int` in a branch and a `double` at the end. -/
def halves : List Stmt := [
  .ifStmt (.boolLit TID_BOOL true) [.returnStmt (some (.intLit TID_INT 1))] .none,
  .returnStmt (some (.floatLit TID_DOUBLE 0))]

theorem returnsOf_halves : returnsOf halves =
    [⟨some (.intLit TID_INT 1), false⟩, ⟨some (.floatLit TID_DOUBLE 0), false⟩] := rfl

/-- The builder at a call of `f`, with the name of a return type for it. -/
def callsF (fnRet : String) : Builder :=
  { m := {}, declared := .initial, levels := [{ vars := [("f", .ptr)] }]
    fnVars := [("f", { name := "__fn", fnRet := fnRet })] }

theorem consistent_iff_settled_halves : ∃ t name s',
    (checkLambda [] halves (some { name := "double" })).run .initial = some ((t, name), s') ∧
      Consistent s'.types (fun e => lowerType .initial e.tid)
        (enterLambda [] halves { m := {}, declared := .initial })
        (assumedRet (callsF name) "f") t TID_DOUBLE halves := by
  have evaluates : ((checkLambda [] halves (some { name := "double" })).run .initial).any
      (fun result => decide (result.1.2 = "double")) = true := by decide +kernel
  obtain ⟨⟨⟨t, name⟩, s'⟩, checked, isDouble⟩ := (Option.any_eq_true _ _).1 evaluates
  obtain rfl : name = "double" := of_decide_eq_true isDouble
  refine ⟨t, "double", s', checked, (consistent_iff_settled checked).2 ⟨?_, ?_⟩⟩
  · intro r member
    rw [returnsOf_halves, List.mem_pair] at member
    rcases member with rfl | rfl <;> exact ⟨rfl, rfl⟩
  · have named : TypeRegistry.initial.fromName "double" = TID_DOUBLE := by decide +kernel
    refine ⟨_, rfl, rfl, .inr ⟨.floatLit TID_DOUBLE 0, TID_DOUBLE, ?_, rfl, by decide, rfl,
      named ▸ by decide, congrArg (lowerType .initial) named, ?_⟩⟩
    · refine ⟨by decide, [_], [], rfl, fun e' member => ?_⟩
      cases List.mem_singleton.1 member
    · intro r member
      rw [returnsOf_halves, List.mem_pair] at member
      rcases member with rfl | rfl
      · exact ⟨_, rfl, by decide, rfl, rfl, fun whole => Bool.false_ne_true whole.2⟩
      · exact ⟨_, rfl, by decide, rfl, rfl, fun whole => Bool.false_ne_true whole.2⟩

/-- A `main` with the declaration `auto half = fn(int x) -> double => x`. -/
def halving : Program where
  decls := [.func {
    loc := ⟨1, 1⟩, returnType := { name := "int" }, name := "main", params := []
    body := some [
      .varDecl ⟨2, 1⟩ { name := "auto" } false false
        [.mk "half" (some (.lambda 0 [{ type := { name := "int" }, name := "x" }]
          [.returnStmt (some (.ident 0 "x"))] (some { name := "double" }) ""))],
      .returnStmt (some (.intLit 0 0))] }]
  stmts := []

/-- The lambda that the first statement of the only function declares a variable with. -/
def declaredLambda : Program → Option (TypeId × List Param × List Stmt)
  | ⟨[.func { body := some (.varDecl _ _ _ _ [.mk _ (some (.lambda t params body _ _))] :: _),
      .. }], _⟩ => some (t, params, body)
  | _ => none

/-- Analysis records `double`, the function is one of `int`. -/
theorem not_consistent_halving : ∃ prog' s, Sema.Accepts halving prog' s ∧
    ∃ t params body, declaredLambda prog' = some (t, params, body) ∧
      ∀ T made assumed ret,
        ¬Consistent s.types T (enterLambda params body made) assumed t ret body := by
  obtain ⟨prog', s, accepts, shows⟩ := Sema.exists_accepts halving
    (fun prog' s => (declaredLambda prog').any fun l =>
      (s.types.info l.1).returnType = TID_DOUBLE ∧ lambdaRet l.2.2 = TID_INT)
    (by decide +kernel)
  obtain ⟨⟨t, params, body⟩, isLambda, differ⟩ := (Option.any_eq_true _ _).1 shows
  obtain ⟨isDouble, isInt⟩ := of_decide_eq_true differ
  refine ⟨prog', s, accepts, t, params, body, isLambda, fun T made assumed ret consistent => ?_⟩
  have ret_eq : ret = TID_DOUBLE := consistent.recorded.symm.trans isDouble
  have generated : lowerType made.m.ls.types (lambdaRet body) = lowerType s.types ret :=
    consistent.generated
  rw [isInt, ret_eq] at generated
  cases generated

end Dux.Codegen.LambdaReturns
