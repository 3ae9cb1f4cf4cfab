import Dux.Codegen.Async
import Dux.Codegen.Captures
import Dux.Codegen.Operands

/-!
# The builder

What `Codegen` (`src/codegen/codegen.cpp`) knows while it generates a function,
as far as the types of values depend on it: the functions of the module, the
scopes with the types of their variables, and the sites it has left behind.
-/

namespace Dux.Codegen.Typing

open TypeRegistry

/-- `FunctionType`, with the names of the arguments. -/
structure FnType where
  ret : LlvmType
  params : List (String × LlvmType)

/-- Where a value comes from: a constant of the builder, a string literal, a
`CallInst` or any other instruction. -/
inductive Origin
  | const | literal | call | other
  deriving DecidableEq, Repr

/-- `llvm::Value`. -/
structure Value where
  type : LlvmType
  origin : Origin := .other

/-- `ScopeCleanup`. -/
inductive Cleanup
  | dtor (className : String)
  | release (releaseSym : String)
  | deferBody (body : List Stmt)
  | call (fn : String)

/-- One level of `env_`, `cleanup_scopes_` and `str_scopes_`. -/
structure Level where
  vars : List (String × LlvmType) := []
  cleanups : List Cleanup := []
  strs : Nat := 0

/-- The members of `Codegen` that types depend on.  The types of functions are
those of the registry they were declared with. -/
structure Builder where
  m : Module
  declared : TypeRegistry
  runtime : List (String × FnType) := []
  methodFns : List ((String × String × String) × FnType) := []
  globals : List (String × LlvmType) := []
  generated : List String := []
  levels : List Level := [{}]
  loops : List String := []
  tries : Nat := 0
  fnVars : List (String × TypeExpr) := []
  varClass : List (String × String) := []
  typedLists : List String := []
  lastListTyped : Bool := false
  currentClass : String := ""
  currentNamespace : String := ""
  retType : TypeId := TID_VOID
  fnRet : LlvmType := .void
  inAsync : Bool := false
  asyncCount : Nat := 0
  live : Bool := true
  sites : List Site := []

abbrev Gen := StateT Builder Option

def site (s : Site) : Gen Unit := modify fun b => { b with sites := s :: b.sites }

def newBlock : Gen Unit := modify fun b => { b with live := true }

def endBlock : Gen Unit := modify fun b => { b with live := false }

/-! ## Functions -/

/-- The type a function is declared with: `declare_function`,
`declare_class_methods` and the external declarations of `declare_functions`. -/
def declaredType (types : TypeRegistry) (runtime : List (String × FnType)) : Declared → FnType
  | .func f =>
      { ret := if f.isAsync then .ptr else returnType types f
        params := (plainNames (.func f) f).zip (launcherParams types (.func f) f) }
  | .member cls f =>
      { ret := returnType types f
        params := (plainNames (.member cls f) f).zip (launcherParams types (.member cls f) f) }
  | .external e =>
      { ret := lowerTypeExpr types e.ret
        params := e.params.map fun p => ("", lowerTypeExpr types p.type) }
  | .runtime symbol _ => (runtime.lookup symbol).getD ⟨.void, []⟩

def Builder.typeOf (b : Builder) (d : Declared) : FnType := declaredType b.declared b.runtime d

def getFunction (symbol : String) : Gen (Option FnType) := do
  let b ← get
  return (b.m.functions.lookup symbol).map b.typeOf

/-- `Function::Create`: another function of that name keeps it. -/
def createFunction (symbol : String) (ft : FnType) : Gen Unit :=
  modify fun b =>
    match b.m.functions.lookup symbol with
    | some _ => b
    | none =>
        { b with
          m := { b.m with
            functions := b.m.functions.declare symbol (.runtime symbol ft.params.length) }
          runtime := (symbol, ft) :: b.runtime }

def getOrDeclareRt (symbol : String) (ret : LlvmType) (params : List LlvmType) : Gen FnType := do
  createFunction symbol ⟨ret, params.map fun t => ("", t)⟩
  return ((← getFunction symbol).getD ⟨ret, []⟩)

def createCall (fn : FnType) (args : List Arg) : Gen Value := do
  site (.call (fn.params.map (·.2)) args)
  return ⟨fn.ret, .call⟩

/-- `emit_call`: inside `try` the result is no `CallInst`. -/
def emitCall (fn : FnType) (args : List Arg) : Gen Value := do
  let v ← createCall fn args
  return if (← get).tries = 0 then v else { v with origin := .other }

def asIs (v : Value) : Arg := ⟨v.type, .asIs⟩

def runtimeCall (symbol : String) (ret : LlvmType) (params : List LlvmType)
    (args : List LlvmType) : Gen Value := do
  createCall (← getOrDeclareRt symbol ret params) (args.map fun t => ⟨t, .asIs⟩)

def rtMalloc : Gen Value := runtimeCall "malloc" .ptr [.i64] [.i64]

/-! ## Variables -/

/-- `env_lookup`. -/
def Builder.find (b : Builder) (name : String) : Option LlvmType :=
  b.levels.findSome? (·.vars.lookup name)

/-- `lower_type`. -/
def lower (tid : TypeId) : Gen LlvmType := return lowerType (← get).m.ls.types tid

/-- `from_type_expr`, with another type for an unknown one. -/
def typeOr (te : TypeExpr) (unknown : TypeId) : Gen TypeId := do
  let tid := (← get).m.ls.types.fromTypeExpr te
  return if tid = TID_UNKNOWN then unknown else tid

def putVar (name : String) (t : LlvmType) : Gen Unit :=
  modify fun b => { b with
    levels := b.levels.modifyHead fun level => { level with vars := (name, t) :: level.vars } }

def register (c : Cleanup) : Gen Unit :=
  modify fun b => { b with
    levels := b.levels.modifyHead fun level =>
      { level with cleanups := level.cleanups ++ [c] } }

def envDefine (name : String) (t : LlvmType) (tid : TypeId) : Gen Unit := do
  putVar name t
  let ls := (← get).m.ls
  if tid = TID_STR then
    modify fun b => { b with
      levels := b.levels.modifyHead fun level => { level with strs := level.strs + 1 } }
  else if tid = TID_LIST then register (.release "duxrt_list_release")
  else if tid = TID_DICT then register (.release "duxrt_dict_release")
  else if TID_NULL < tid ∧ ls.types.nameOf tid ≠ "" ∧ hasLayout ls (ls.types.nameOf tid) then
    register (.dtor (ls.types.nameOf tid))

/-- The field of the current class that a name stands for inside a method. -/
def Builder.ownField (b : Builder) (name : String) : Option LlvmType :=
  if b.currentClass ≠ "" ∧ (b.find "this").isSome then
    (b.m.ls.layouts.lookup b.currentClass).bind fun layout =>
      (layout.fields.find? (·.name = name)).map fun f => lowerType b.m.ls.types f.type
  else none

/-- `load_var`: a name that is no variable is a function or null. -/
def loadVar (name : String) : Gen Value := do
  let b ← get
  match b.find name with
  | some t => return ⟨t, .other⟩
  | none => return ⟨(b.ownField name).getD .ptr, .other⟩

def classOf (obj : Expr) : Gen String := do
  let b ← get
  return b.m.resolveClassName b.currentClass b.varClass obj obj.tid

/-- The method of that name and modifier that a class has in its layout. -/
def layoutMethod (cls name modifier : String) : Gen (Option FnType) := do
  let b ← get
  return if hasLayout b.m.ls cls then b.methodFns.lookup (cls, name, modifier) else none

/-! ## Values -/

def const (t : LlvmType) : Value := ⟨t, .const⟩

def literalValue : Expr → Option Value
  | .intLit _ _ => some (const .i32)
  | .longLit _ _ => some (const .i64)
  | .floatLit _ _ => some (const .double)
  | .realLit _ _ => some (const .float)
  | .boolLit _ _ => some (const .i1)
  | .stringLit _ _ => some ⟨.ptr, .literal⟩
  | .nullLit _ => some ⟨.ptr, .other⟩
  | _ => none

/-- A pointer that is no result of a call: `ConstantPointerNull`, or a boxed value. -/
def nullValue : Value := ⟨.ptr, .other⟩

/-- The origin of what the builder makes of two values: constants are folded. -/
def folded (l r : Value) : Origin :=
  if l.origin = .const ∧ r.origin = .const then .const else .other

def toBool (v : Value) : Gen Value := do
  site (.test v.type)
  return ⟨.i1, if v.origin = .const ∨ v.type = .void then .const else .other⟩

/-- `emit_str_release` of a variable. -/
def emitStrRelease (t : LlvmType) : Gen Unit := do
  let _ ← runtimeCall "duxrt_str_release" .void [.ptr] [t]

/-- `maybe_retain_str`, `maybe_retain_list` and `maybe_retain_dict`. -/
def maybeRetain (tid : TypeId) (v : Value) : Gen Value := do
  if tid = TID_STR then
    if v.origin = .call ∨ v.origin = .literal then return v
    else runtimeCall "duxrt_str_retain" .ptr [.ptr] [v.type]
  else if tid = TID_LIST then
    if v.origin = .call then return v
    else runtimeCall "duxrt_list_retain" .ptr [.ptr] [v.type]
  else if tid = TID_DICT then
    if v.origin = .call then return v
    else runtimeCall "duxrt_dict_retain" .ptr [.ptr] [v.type]
  else return v

def emitDtor (cls : String) : Gen Unit := do
  if (← get).live then
    match ← getFunction (cls ++ "___dtor") with
    | some dtor =>
        let _ ← emitCall dtor [⟨.ptr, .asIs⟩]
    | none => pure ()
    let _ ← runtimeCall "free" .void [.ptr] [.ptr]

def emitRcRelease (symbol : String) : Gen Unit := do
  if (← get).live then
    let _ ← runtimeCall symbol .void [.ptr] [.ptr]

def rtPrintln (v : Value) (tid : TypeId) : Gen Value := do
  let t :=
    if tid < 0 then
      if v.type.isInt then TID_INT else if v.type.isFp then TID_DOUBLE else TID_STR
    else tid
  if t = TID_INT ∨ t = TID_LONG then runtimeCall "duxrt_println_int" .void [.i64] [.i64]
  else if t = TID_DOUBLE ∨ t = TID_REAL then
    runtimeCall "duxrt_println_double" .void [.double] [.double]
  else runtimeCall "duxrt_println_str" .void [.ptr] [.ptr]

def fstrToStr (v : Value) (tid : TypeId) : Gen Value := do
  let t :=
    if tid < 0 then
      if v.type.isInt then TID_INT else if v.type.isFp then TID_DOUBLE else TID_STR
    else tid
  if t = TID_STR then return v
  else if t = TID_BOOL then return ⟨.ptr, .other⟩
  else if t = TID_INT ∨ t = TID_LONG then
    let _ ← runtimeCall "duxrt_fmt_int" .i32 [.i64, .ptr] [.i64, .ptr]
    return ⟨.ptr, .other⟩
  else if t = TID_DOUBLE ∨ t = TID_REAL then
    runtimeCall "duxrt_str_from_double" .ptr [.double] [.double]
  else return v

def lenOf (v : Value) (tid : TypeId) : Gen Value := do
  let symbol :=
    if tid = TID_LIST then "duxrt_list_len"
    else if tid = TID_DICT then "duxrt_dict_len"
    else "duxrt_str_length"
  let _ ← runtimeCall symbol .i64 [.ptr] [v.type]
  return ⟨.i32, .other⟩

end Dux.Codegen.Typing
