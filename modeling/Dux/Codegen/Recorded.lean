import Dux.Codegen.Operators
import Dux.Sema.Guards

/-!
# The recorded types

What `check_expr` (`src/sema/sema.cpp`) writes into a node, by the form of the expression.  A
member of anything but `this`, and what is called through one, has no type, but for the functions
of the standard modules that are listed by name.
-/

namespace Dux.Codegen.Rendering

open TypeRegistry
open Sema hiding State
open Logic (run_bind_eq_some_iff run_pure_eq_some_iff run_get_eq_some_iff run_modify_eq_some_iff)
open Typing (Denotes overload_pure)

def literalType : Expr → Option TypeId
  | .intLit .. => some TID_INT
  | .longLit .. => some TID_LONG
  | .floatLit .. => some TID_DOUBLE
  | .realLit .. => some TID_REAL
  | .stringLit .. => some TID_STR
  | .boolLit .. => some TID_BOOL
  | .nullLit .. => some TID_NULL
  | _ => none

/-- The type of a built-in operator on operands of these types. -/
def builtinType (types : TypeRegistry) (op : BinOp) (l r : TypeId) : Option TypeId :=
  match op with
  | .add | .sub | .mul | .div | .mod =>
      if op = .add ∧ (l = TID_STR ∨ r = TID_STR) then some TID_STR
      else if op = .add ∧ (l = TID_LIST ∨ r = TID_LIST) then some TID_LIST
      else types.unify l r
  | .eq | .ne | .lt | .gt | .le | .ge | .and | .or => some TID_BOOL
  | .rangeExcl | .rangeIncl => some TID_OBJECT

/-- The expressions that build an object, or that assign: what they have is read off the run. -/
def isBuilding : Expr → Bool
  | .this _ | .super _ | .assign .. | .new .. | .list .. | .dict .. | .lambda .. => true
  | _ => false

/-- The type that is recorded for an expression whose analysis leads from one state to another. -/
inductive Records : Sema.State → Expr → Sema.State → TypeId → Prop
  | literal {s s' : Sema.State} {e : Expr} {t : TypeId} (isLiteral : literalType e = some t) :
      Records s e s' t
  /-- A variable or a parameter. -/
  | name {s s' : Sema.State} {k : TypeId} {x : String} {sym : Symbol}
      (found : lookupScopes s.scopes x = some sym) : Records s (.ident k x) s' sym.type
  | noName {s s' : Sema.State} {k : TypeId} {x : String} (missing : lookupScopes s.scopes x = none) :
      Records s (.ident k x) s' TID_UNKNOWN
  /-- A member of `this` that is in scope. -/
  | own {s s' : Sema.State} {k k' : TypeId} {m : String} {sym : Symbol}
      (found : lookupScopes s.scopes m = some sym) :
      Records s (.member k (.this k') m) s' sym.type
  | noOwn {s s' : Sema.State} {k k' : TypeId} {m : String}
      (missing : lookupScopes s.scopes m = none) :
      Records s (.member k (.this k') m) s' TID_UNKNOWN
  | variant {s s' : Sema.State} {k t : TypeId} {object : Expr} {m : String}
      (isVariant : (checkEnumMember object m).run s = some (some t, s')) :
      Records s (.member k object m) s' t
  /-- A field or a property of another object. -/
  | member {s s' : Sema.State} {k : TypeId} {object : Expr} {m : String}
      (notThis : isThis object = false)
      (noVariant : (checkEnumMember object m).run s = some (none, s)) :
      Records s (.member k object m) s' TID_UNKNOWN
  | function {s s' : Sema.State} {k k' : TypeId} {f : String} {args : List Expr} {sym : Symbol}
      (found : lookupScopes s.scopes f = some sym)
      (isFunction : sym.kind = .function ∨ sym.kind = .builtIn) :
      Records s (.call k (.ident k' f) args) s' sym.returnType
  | constructor {s s' : Sema.State} {k k' : TypeId} {f : String} {args : List Expr} {sym : Symbol}
      (found : lookupScopes s.scopes f = some sym) (isClass : sym.kind = .cls) :
      Records s (.call k (.ident k' f) args) s' sym.type
  /-- A variable of a function type, seen behind the arguments. -/
  | closure {s s₁ s' : Sema.State} {k k' t : TypeId} {f : String} {args args' : List Expr} {sym : Symbol}
      (found : lookupScopes s.scopes f = some sym)
      (noFunction : ¬(sym.kind = .function ∨ sym.kind = .builtIn)) (noClass : sym.kind ≠ .cls)
      (checked : (checkExprs args).run s = some (args', s₁))
      (isClosure : (closureType f).run s₁ = some (some t, s₁)) :
      Records s (.call k (.ident k' f) args) s' (s'.types.info t).returnType
  /-- Another variable, as is a parameter that is declared as a function. -/
  | noClosure {s s₁ s' : Sema.State} {k k' : TypeId} {f : String} {args args' : List Expr} {sym : Symbol}
      (found : lookupScopes s.scopes f = some sym)
      (noFunction : ¬(sym.kind = .function ∨ sym.kind = .builtIn)) (noClass : sym.kind ≠ .cls)
      (checked : (checkExprs args).run s = some (args', s₁))
      (noClosure : (closureType f).run s₁ = some (none, s₁)) :
      Records s (.call k (.ident k' f) args) s' TID_UNKNOWN
  | noFunction {s s' : Sema.State} {k k' : TypeId} {f : String} {args : List Expr}
      (missing : lookupScopes s.scopes f = none) :
      Records s (.call k (.ident k' f) args) s' TID_UNKNOWN
  /-- A listed function of a standard module. -/
  | library {s s' : Sema.State} {k t : TypeId} {callee : Expr} {args : List Expr}
      (listed : stdlibCall callee = some t) : Records s (.call k callee args) s' t
  /-- A method, or a function of another namespace. -/
  | method {s s' : Sema.State} {k : TypeId} {callee : Expr} {args : List Expr}
      (noName : identName callee = none) (notListed : stdlibCall callee = none) :
      Records s (.call k callee args) s' TID_UNKNOWN
  | await {s s₁ s' : Sema.State} {k t : TypeId} {operand operand' : Expr}
      (checked : (checkExpr operand).run { s with inAwait := true } = some (operand', s₁))
      (awaited : Records { s with inAwait := true } operand s₁ t) :
      Records s (.await k operand) s' t
  | not {s s' : Sema.State} {k : TypeId} {operand : Expr} {isPrefix : Bool} :
      Records s (.unary k .not operand isPrefix) s' TID_BOOL
  | unary {s s₁ s' : Sema.State} {k : TypeId} {op : UnOp} {operand operand' : Expr} {isPrefix : Bool}
      (notNot : op ≠ .not) (checked : (checkExpr operand).run s = some (operand', s₁)) :
      Records s (.unary k op operand isPrefix) s' operand'.tid
  | builtin {s s₁ s₂ s' : Sema.State} {k t : TypeId} {op : BinOp} {left left' right right' : Expr}
      (first : (checkExpr left).run s = some (left', s₁))
      (second : (checkExpr right).run s₁ = some (right', s₂))
      (noMethod : ∀ m, opMethod op = some m → (overload left' m).run s₂ = some (none, s₂))
      (result : builtinType s₂.types op left'.tid right'.tid = some t) :
      Records s (.binary k op left right) s' t
  | overloaded {s s₁ s₂ s' : Sema.State} {k t : TypeId} {op : BinOp} {left left' right right' : Expr}
      {m : String} {f : FunctionDecl}
      (first : (checkExpr left).run s = some (left', s₁))
      (second : (checkExpr right).run s₁ = some (right', s₂))
      (isMethod : opMethod op = some m) (finds : (overload left' m).run s₂ = some (some f, s₂))
      (result : Denotes s₂ f.returnType t) : Records s (.binary k op left right) s' t
  | index {s s₁ s₂ s' : Sema.State} {k t : TypeId} {object object' index index' : Expr}
      (first : (checkExpr object).run s = some (object', s₁))
      (second : (checkExpr index).run s₁ = some (index', s₂))
      (result : (checkIndex object' index').run s₂ = some (t, s')) :
      Records s (.index k object index) s' t
  | builds {s s' : Sema.State} {e e' : Expr} (building : isBuilding e = true)
      (checked : (checkExpr e).run s = some (e', s')) : Records s e s' e'.tid

section Runs

variable {s s' : Sema.State} {e e' : Expr} {t : TypeId}

theorem run_lookup (x : String) (s : Sema.State) :
    (lookup x).run s = some (lookupScopes s.scopes x, s) := rfl

theorem closureType_pure (f : String) (s : Sema.State) :
    ∃ found, (closureType f).run s = some (found, s) := by
  unfold closureType
  rw [StateT.run_bind, run_lookup]
  cases lookupScopes s.scopes f with
  | none => exact ⟨none, rfl⟩
  | some sym =>
    by_cases isFunction : (sym.kind = .var ∨ sym.kind = .param) ∧ 0 ≤ sym.type ∧
        (s.types.info sym.type).kind = .function
    · exact ⟨some sym.type, congrFun (if_pos isFunction) s⟩
    · exact ⟨none, congrFun (if_neg isFunction) s⟩

theorem state_of_checkEnumMember {object : Expr} {m : String}
    (run : (checkEnumMember object m).run s = some (none, s')) : s' = s := by
  unfold checkEnumMember at run
  cases named : identName object with
  | none =>
    rw [named] at run
    cases run
    rfl
  | some name =>
    rw [named] at run
    obtain ⟨found, s₁, looked, run⟩ := run_bind_eq_some_iff.1 run
    cases looked
    cases isFound : lookupScopes s.scopes name with
    | none =>
      rw [isFound] at run
      cases run
      rfl
    | some sym =>
      rw [isFound] at run
      obtain ⟨s₂, s₂', got, run⟩ := run_bind_eq_some_iff.1 run
      cases got
      dsimp only at run
      split_ifs at run
      · cases run
      · obtain ⟨_, s₃, reported, run⟩ := run_bind_eq_some_iff.1 run
        cases run
      · cases run
        rfl

/-- Every run that returns gives such a value. -/
def Yields {α : Type} (P : α → Prop) (m : M α) : Prop := ∀ s a s', m.run s = some (a, s') → P a

section Yields

variable {α β : Type} {P : α → Prop}

theorem Yields.pure {a : α} (holds : P a) : Yields P (pure a : M α) := by
  rintro s a' s' ⟨⟩
  exact holds

theorem Yields.lift {x : Option α} (each : ∀ a, x = some a → P a) :
    Yields P (liftM x : M α) := by
  intro s a s' run
  cases x with
  | none => cases run
  | some b =>
    cases run
    exact each _ rfl

theorem Yields.bind {m : M β} {f : β → M α} (next : ∀ b, Yields P (f b)) : Yields P (m >>= f) := by
  intro s a s' run
  obtain ⟨b, s₁, -, run⟩ := run_bind_eq_some_iff.1 run
  exact next b s₁ a s' run

theorem Yields.ite {c : Prop} [Decidable c] {m m' : M α} (yes : c → Yields P m)
    (no : ¬c → Yields P m') : Yields P (if c then m else m') := by
  by_cases holds : c
  · rw [if_pos holds]
    exact yes holds
  · rw [if_neg holds]
    exact no holds

end Yields

theorem builtinType_of_run {op : BinOp} {l r : TypeId}
    (run : (checkPrimitiveBinary op l r).run s = some (t, s')) :
    builtinType s.types op l r = some t := by
  unfold checkPrimitiveBinary at run
  obtain ⟨s₁, s₁', got, run⟩ := run_bind_eq_some_iff.1 run
  cases got
  refine (?_ : Yields (fun t => builtinType s.types op l r = some t) _) s t s' run
  dsimp only
  have warned : ∀ {c c' : Prop} [Decidable c] [Decidable c'] (msg msg' : String) {t : TypeId},
      builtinType s.types op l r = some t →
        Yields (fun t => builtinType s.types op l r = some t) (do
          if c then warn msg
          if c' then warn msg'
          return t) := fun _ _ _ result =>
    .ite (fun _ => .bind fun _ => .ite (fun _ => .bind fun _ => .pure result)
      fun _ => .pure result) fun _ => .ite (fun _ => .bind fun _ => .pure result)
      fun _ => .pure result
  cases op with
  | add | sub | mul | div | mod =>
    apply Yields.ite
    · intro isStr
      exact warned _ _ (if_pos isStr)
    · intro notStr
      apply Yields.ite
      · intro isList
        exact warned _ _ (by rw [builtinType, if_neg notStr, if_pos isList])
      · intro notList
        refine .bind fun _ => .bind fun _ => .lift fun t unified => ?_
        rw [builtinType, if_neg notStr, if_neg notList, unified]
  | eq | ne | lt | gt | le | ge =>
    refine .ite (fun _ => .bind fun _ => ?_) fun _ => .pure rfl
    refine .ite (fun _ => .bind fun _ => ?_) fun _ => .pure rfl
    exact .ite (fun _ => .bind fun _ => .pure rfl) fun _ => .pure rfl
  | and | or => exact .bind fun _ => .bind fun _ => .pure rfl
  | rangeExcl | rangeIncl => exact .bind fun _ => .bind fun _ => .pure rfl

theorem checkUnary_of_ne {op : UnOp} {operand : Expr} (notNot : op ≠ .not)
    (run : (checkUnary op operand).run s = some (t, s')) : t = operand.tid := by
  refine (?_ : Yields (fun t => t = operand.tid) (checkUnary op operand)) s t s' run
  cases op with
  | not => exact absurd rfl notNot
  | neg | plus | inc | dec => exact .bind fun _ => .pure rfl
  | bitNot => exact .ite (fun _ => .bind fun _ => .bind fun _ => .pure rfl) fun _ => .pure rfl

theorem checkUnary_not {operand : Expr} (run : (checkUnary .not operand).run s = some (t, s')) :
    t = TID_BOOL := by
  refine (?_ : Yields (fun t => t = TID_BOOL) (checkUnary .not operand)) s t s' run
  exact .bind fun _ => .pure rfl

theorem checkMember_of_ne {object : Expr} {m : String} (notThis : isThis object = false)
    (run : (checkMember object m).run s = some (t, s')) : t = TID_UNKNOWN := by
  refine (?_ : Yields (fun t => t = TID_UNKNOWN) (checkMember object m)) s t s' run
  unfold checkMember
  refine .bind fun s₁ => ?_
  rw [notThis, if_neg Bool.false_ne_true]
  exact .ite (fun _ => .bind fun _ => .ite (fun _ => .bind fun _ => .pure rfl) fun _ => .pure rfl)
    fun _ => .pure rfl

theorem checkMember_this {k : TypeId} {m : String}
    (run : (checkMember (.this k) m).run s = some (t, s')) :
    t = (lookupScopes s.scopes m).elim TID_UNKNOWN Symbol.type := by
  unfold checkMember at run
  obtain ⟨s₁, s₁', got, run⟩ := run_bind_eq_some_iff.1 run
  cases got
  rw [isThis, if_pos rfl] at run
  cases found : lookupScopes s.scopes m with
  | some sym =>
    rw [found] at run
    cases run
    rfl
  | none =>
    rw [found] at run
    refine (?_ : Yields (fun t => t = TID_UNKNOWN) _) s t s' run
    exact .ite (fun _ => .bind fun _ => .ite (fun _ => .bind fun _ => .pure rfl)
      fun _ => .pure rfl) fun _ => .pure rfl

def isAwait : Expr → Bool
  | .await .. => true
  | _ => false

theorem form_of_run (run : (checkExpr e).run s = some (e', s')) :
    isThis e' = isThis e ∧ isAwait e' = isAwait e := by
  refine (?_ : Yields (fun e' => isThis e' = isThis e ∧ isAwait e' = isAwait e) (checkExpr e))
    s e' s' run
  cases e with
  | intLit | longLit | floatLit | realLit | stringLit | boolLit | nullLit => exact .pure ⟨rfl, rfl⟩
  | ident | this | super | list | dict | await => exact .bind fun _ => .pure ⟨rfl, rfl⟩
  | unary | new | lambda => exact .bind fun _ => .bind fun _ => .pure ⟨rfl, rfl⟩
  | binary | index => exact .bind fun _ => .bind fun _ => .bind fun _ => .pure ⟨rfl, rfl⟩
  | assign =>
    refine .bind fun _ => .bind fun found => ?_
    cases found with
    | some found => exact .pure ⟨rfl, rfl⟩
    | none => exact .bind fun _ => .bind fun _ => .pure ⟨rfl, rfl⟩
  | member =>
    refine .bind fun found => ?_
    cases found with
    | some found => exact .pure ⟨rfl, rfl⟩
    | none => exact .bind fun _ => .bind fun _ => .pure ⟨rfl, rfl⟩
  | call k callee args =>
    rw [checkExpr]
    cases identName callee with
    | none =>
      cases stdlibCall callee with
      | some t => exact .bind fun _ => .pure ⟨rfl, rfl⟩
      | none => exact .bind fun _ => .bind fun _ => .pure ⟨rfl, rfl⟩
    | some name =>
      refine .bind fun found => ?_
      cases found with
      | none => exact .bind fun _ => .bind fun _ => .pure ⟨rfl, rfl⟩
      | some sym =>
        refine .ite (fun _ => .bind fun _ => .bind fun _ => .pure ⟨rfl, rfl⟩) fun _ => .bind fun _ => ?_
        refine .ite (fun _ => .pure ⟨rfl, rfl⟩) fun _ => .bind fun closure => ?_
        cases closure with
        | some t => exact .bind fun _ => .bind fun _ => .pure ⟨rfl, rfl⟩
        | none => exact .pure ⟨rfl, rfl⟩

theorem scopes_of_this {k : TypeId} (run : (checkExpr (.this k)).run s = some (e', s')) :
    s'.scopes = s.scopes := by
  rw [checkExpr] at run
  obtain ⟨t, s₁, checked, run⟩ := run_bind_eq_some_iff.1 run
  cases run
  unfold checkThis at checked
  obtain ⟨found, s₂, looked, checked⟩ := run_bind_eq_some_iff.1 checked
  cases looked
  split at checked
  · obtain ⟨_, s₃, reported, checked⟩ := run_bind_eq_some_iff.1 checked
    cases reported
    cases checked
    rfl
  · cases checked
    rfl

theorem eq_this_of_isThis (this : isThis e = true) : ∃ k, e = .this k := by
  cases e with
  | this k => exact ⟨k, rfl⟩
  | _ => cases this

theorem eq_ident_of_identName {x : String} (named : identName e = some x) : ∃ k, e = .ident k x := by
  cases e with
  | ident k y =>
    cases named
    exact ⟨k, rfl⟩
  | _ => cases named

/-- The rules are complete. -/
theorem records_of_run : ∀ {e : Expr} {s s' : Sema.State} {e' : Expr},
    (checkExpr e).run s = some (e', s') → Records s e s' e'.tid
  | .intLit .., _, _, _, run | .longLit .., _, _, _, run | .floatLit .., _, _, _, run
  | .realLit .., _, _, _, run | .stringLit .., _, _, _, run | .boolLit .., _, _, _, run
  | .nullLit .., _, _, _, run => by
    cases run
    exact .literal rfl
  | .this _, _, _, _, run | .super _, _, _, _, run | .assign .., _, _, _, run
  | .new .., _, _, _, run | .list .., _, _, _, run | .dict .., _, _, _, run
  | .lambda .., _, _, _, run => .builds rfl run
  | .ident _ x, s, s', e', run => by
    rw [checkExpr] at run
    obtain ⟨t, s₁, checked, run⟩ := run_bind_eq_some_iff.1 run
    cases run
    obtain ⟨found, s₂, looked, checked⟩ := run_bind_eq_some_iff.1 checked
    cases looked
    cases isFound : lookupScopes s.scopes x with
    | none =>
      rw [isFound] at checked
      cases checked
      exact .noName isFound
    | some sym =>
      rw [isFound] at checked
      cases checked
      exact .name isFound
  | .binary k op left right, s, s', e', run => by
    rw [checkExpr] at run
    obtain ⟨left', s₁, first, run⟩ := run_bind_eq_some_iff.1 run
    obtain ⟨right', s₂, second, run⟩ := run_bind_eq_some_iff.1 run
    obtain ⟨t, s₃, result, run⟩ := run_bind_eq_some_iff.1 run
    cases run
    rw [checkBinary.eq_def] at result
    cases isMethod : opMethod op with
    | none =>
      rw [isMethod] at result
      refine .builtin first second ?_ (builtinType_of_run result)
      intro m isMethod'
      cases isMethod.symm.trans isMethod'
    | some m =>
      rw [isMethod] at result
      obtain ⟨found, finds⟩ := overload_pure left' m s₂
      obtain ⟨found', s₄, finds', result⟩ := run_bind_eq_some_iff.1 result
      cases finds.symm.trans finds'
      cases found with
      | none =>
        refine .builtin first second ?_ (builtinType_of_run result)
        intro m' isMethod'
        cases isMethod.symm.trans isMethod'
        exact finds
      | some f => exact .overloaded first second isMethod finds ⟨_, result⟩
  | .unary k op operand isPrefix, s, s', e', run => by
    rw [checkExpr] at run
    obtain ⟨operand', s₁, checked, run⟩ := run_bind_eq_some_iff.1 run
    obtain ⟨t, s₂, result, run⟩ := run_bind_eq_some_iff.1 run
    cases run
    by_cases isNot : op = .not
    · subst isNot
      rw [Expr.tid, checkUnary_not result]
      exact .not
    · rw [Expr.tid, checkUnary_of_ne isNot result]
      exact .unary isNot checked
  | .index k object index, s, s', e', run => by
    rw [checkExpr] at run
    obtain ⟨object', s₁, first, run⟩ := run_bind_eq_some_iff.1 run
    obtain ⟨index', s₂, second, run⟩ := run_bind_eq_some_iff.1 run
    obtain ⟨t, s₃, result, run⟩ := run_bind_eq_some_iff.1 run
    cases run
    exact .index first second result
  | .await k operand, s, s', e', run => by
    rw [checkExpr] at run
    obtain ⟨operand', s₁, checked, run⟩ := run_bind_eq_some_iff.1 run
    cases run
    obtain ⟨s₂, inside, rfl⟩ := run_bracket_eq_some_iff.1 checked
    have awaited := records_of_run inside
    exact .await inside awaited
  | .member k object m, s, s', e', run => by
    rw [checkExpr] at run
    obtain ⟨found, s₁, isVariant, run⟩ := run_bind_eq_some_iff.1 run
    cases found with
    | some t =>
      cases run
      exact .variant isVariant
    | none =>
      cases state_of_checkEnumMember isVariant
      obtain ⟨object', s₂, checked, run⟩ := run_bind_eq_some_iff.1 run
      obtain ⟨t, s₃, result, run⟩ := run_bind_eq_some_iff.1 run
      cases run
      cases this : isThis object with
      | false =>
        rw [Expr.tid, checkMember_of_ne ((form_of_run checked).1.trans this) result]
        exact .member this isVariant
      | true =>
        obtain ⟨k', rfl⟩ := eq_this_of_isThis this
        obtain ⟨k'', rfl⟩ := eq_this_of_isThis ((form_of_run checked).1.trans this)
        rw [Expr.tid, checkMember_this result, scopes_of_this checked]
        cases found : lookupScopes s.scopes m with
        | none => exact .noOwn found
        | some sym => exact .own found
  | .call k callee args, s, s', e', run => by
    rw [checkExpr] at run
    cases named : identName callee with
    | none =>
      rw [named] at run
      cases listed : stdlibCall callee with
      | some t =>
        rw [listed] at run
        obtain ⟨args', s₁, checked, run⟩ := run_bind_eq_some_iff.1 run
        cases run
        exact .library listed
      | none =>
        rw [listed] at run
        obtain ⟨callee', s₁, first, run⟩ := run_bind_eq_some_iff.1 run
        obtain ⟨args', s₂, checked, run⟩ := run_bind_eq_some_iff.1 run
        cases run
        exact .method named listed
    | some f =>
      obtain ⟨k', rfl⟩ := eq_ident_of_identName named
      rw [named] at run
      obtain ⟨found, s₁, looked, run⟩ := run_bind_eq_some_iff.1 run
      cases looked
      cases isFound : lookupScopes s.scopes f with
      | none =>
        rw [isFound] at run
        obtain ⟨_, s₂, reported, run⟩ := run_bind_eq_some_iff.1 run
        obtain ⟨args', s₃, checked, run⟩ := run_bind_eq_some_iff.1 run
        cases run
        exact .noFunction isFound
      | some sym =>
        rw [isFound] at run
        dsimp only at run
        by_cases isFunction : sym.kind = .function ∨ sym.kind = .builtIn
        · rw [if_pos isFunction] at run
          obtain ⟨_, s₂, callable, run⟩ := run_bind_eq_some_iff.1 run
          obtain ⟨args', s₃, checked, run⟩ := run_bind_eq_some_iff.1 run
          cases run
          exact .function isFound isFunction
        · rw [if_neg isFunction] at run
          obtain ⟨args', s₂, checked, run⟩ := run_bind_eq_some_iff.1 run
          by_cases isClass : sym.kind = .cls
          · rw [if_pos isClass] at run
            cases run
            exact .constructor isFound isClass
          · rw [if_neg isClass] at run
            obtain ⟨closure, typed⟩ := closureType_pure f s₂
            obtain ⟨closure', s₃, typed', run⟩ := run_bind_eq_some_iff.1 run
            cases typed.symm.trans typed'
            cases closure with
            | none =>
              cases run
              exact .noClosure isFound isFunction isClass checked typed
            | some t =>
              obtain ⟨args'', s₄, again, run⟩ := run_bind_eq_some_iff.1 run
              obtain ⟨s₅, s₅', got, run⟩ := run_bind_eq_some_iff.1 run
              cases got
              cases run
              exact .closure isFound isFunction isClass checked typed

theorem isBuilding_of_literalType (isLiteral : literalType e = some t) : isBuilding e = false := by
  cases e with
  | intLit | longLit | floatLit | realLit | stringLit | boolLit | nullLit => rfl
  | _ => cases isLiteral

theorem Records.unique {t' : TypeId} (first : Records s e s' t) (second : Records s e s' t') :
    t = t' := by
  induction first generalizing t' with
  | literal isLiteral =>
    cases second with
    | literal isLiteral' => exact Option.some.inj (isLiteral.symm.trans isLiteral')
    | builds building _ =>
      rw [isBuilding_of_literalType isLiteral] at building
      cases building
    | _ => cases isLiteral
  | builds building checked =>
    cases second with
    | literal isLiteral =>
      rw [isBuilding_of_literalType isLiteral] at building
      cases building
    | builds _ checked' =>
      cases checked.symm.trans checked'
      rfl
    | _ => cases building
  | name found | noName missing | own found | noOwn missing | variant isVariant
  | member notThis noVariant =>
    cases second with
    | literal isLiteral => cases isLiteral
    | builds building _ => cases building
    | _ => grind [isThis, checkEnumMember, identName]
  | function | constructor | closure | noClosure | noFunction | library | method =>
    cases second with
    | literal isLiteral => cases isLiteral
    | builds building _ => cases building
    | _ => grind [identName, stdlibCall]
  | await checked awaited ih =>
    cases second with
    | literal isLiteral => cases isLiteral
    | builds building _ => cases building
    | await checked' awaited' =>
      cases checked.symm.trans checked'
      exact ih awaited'
  | not | unary | builtin | index =>
    cases second with
    | literal isLiteral => cases isLiteral
    | builds building _ => cases building
    | _ => grind
  | overloaded first second' isMethod finds result =>
    cases second with
    | literal isLiteral => cases isLiteral
    | builds building _ => cases building
    | builtin => grind
    | overloaded first' second'' isMethod' finds' result' =>
      cases first.symm.trans first'
      cases second'.symm.trans second''
      cases isMethod.symm.trans isMethod'
      cases finds.symm.trans finds'
      exact result.unique result'

/-- The rules are sound: they give the type that is in the node. -/
theorem tid_of_records (records : Records s e s' t) (run : (checkExpr e).run s = some (e', s')) :
    e'.tid = t :=
  (records_of_run run).unique records

/-- The rules give the type that is in the node, and no other. -/
theorem records_iff (run : (checkExpr e).run s = some (e', s')) :
    Records s e s' t ↔ e'.tid = t := by
  constructor
  · exact fun records => tid_of_records records run
  · rintro rfl
    exact records_of_run run

/-- A number and a string, added. -/
def numberAndText : Expr := .binary (-1) .add (.intLit (-1) 1) (.stringLit (-1) "a")

theorem records_iff_sum : ∃ e' s', (checkExpr numberAndText).run .initial = some (e', s') ∧
    Records .initial numberAndText s' TID_STR := by
  have isStr : ((checkExpr numberAndText).run .initial).map (·.1.tid) = some TID_STR := by
    decide +kernel
  obtain ⟨⟨e', s'⟩, run, tid⟩ := Option.map_eq_some_iff.1 isStr
  exact ⟨e', s', run, (records_iff run).2 tid⟩

end Runs

end Dux.Codegen.Rendering
