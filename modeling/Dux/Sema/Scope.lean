import Dux.Types

/-!
# Symbols, scopes and the state of semantic analysis

`src/sema/symbol.cpp` and the members of `Sema` (`src/sema/sema.hpp`).  The
scope stack is a list with the innermost scope first; the last one is the
global scope.

A walk along a cyclic chain of parent links does not end in the C++ code, so
the analysis monad is partial: `none` stands for a pass that never returns.
-/

namespace Dux.Sema

open TypeRegistry

/-- `sema::SymKind`. -/
inductive SymKind
  | var | param | function | cls | interface | namespace | builtIn
  deriving DecidableEq, Repr

/-- The declarations a symbol's `decl` back-pointer is tested for. -/
inductive DeclRef
  | none
  | cls (c : ClassDecl)
  | iface (i : InterfaceDecl)
  | other

/-- `sema::Symbol`. -/
structure Symbol where
  name : String
  kind : SymKind := .var
  type : TypeId := TID_UNKNOWN
  returnType : TypeId := TID_UNKNOWN
  params : List (String × TypeId) := []
  decl : DeclRef := .none
  isConst : Bool := false
  isAsync : Bool := false

/-- `sema::Scope`: the symbols of one scope, in the order of definition. -/
abbrev Scope := List (String × Symbol)

def Scope.lookupLocal (sc : Scope) (name : String) : Option Symbol := List.lookup name sc

/-- `Scope::define`: the scope afterwards and whether the name was new. -/
def Scope.define (sc : Scope) (name : String) (sym : Symbol) : Scope × Bool :=
  match sc.lookupLocal name with
  | some _ => (sc, false)
  | none => (sc ++ [(name, sym)], true)

/-- `Scope::lookup` along the parent links. -/
def lookupScopes : List Scope → String → Option Symbol
  | [], _ => none
  | sc :: rest, name =>
      match sc.lookupLocal name with
      | some sym => some sym
      | none => lookupScopes rest name

structure State where
  types : TypeRegistry
  scopes : List Scope
  currentReturnType : TypeId := TID_VOID
  currentClassName : String := ""
  currentClassType : TypeId := TID_UNKNOWN
  inLoop : Bool := false
  inUnsafe : Bool := false
  inAwait : Bool := false
  errors : List String := []
  warnings : List String := []

/-- Analysis over the state; `none` when a walk never ends. -/
abbrev M := StateT State Option

def err (msg : String) : M Unit := modify fun s => { s with errors := s.errors ++ [msg] }

def warn (msg : String) : M Unit := modify fun s => { s with warnings := s.warnings ++ [msg] }

def push : M Unit := modify fun s => { s with scopes := [] :: s.scopes }

/-- `ScopeStack::pop`: the global scope stays. -/
def pop : M Unit := modify fun s =>
  match s.scopes with
  | _ :: sc :: rest => { s with scopes := sc :: rest }
  | _ => s

/-- `ScopeStack::define` in the current scope. -/
def define (name : String) (sym : Symbol) : M Bool := do
  let s ← get
  match s.scopes with
  | [] => return false
  | sc :: rest =>
      let (sc', isNew) := sc.define name sym
      set { s with scopes := sc' :: rest }
      return isNew

/-- `global_scope().define`. -/
def defineGlobal (name : String) (sym : Symbol) : M Unit := modify fun s =>
  { s with scopes := s.scopes.dropLast ++
      (s.scopes.getLast?.toList.map fun sc => (sc.define name sym).1) }

def lookup (name : String) : M (Option Symbol) := do
  return lookupScopes (← get).scopes name

/-- `global_scope().lookup`. -/
def lookupGlobal (name : String) : M (Option Symbol) := do
  match (← get).scopes.getLast? with
  | some sc => return sc.lookupLocal name
  | none => return none

/-- Run a piece of the analysis on the type registry alone. -/
def withTypes {α : Type} (f : TypeRegistry → α × TypeRegistry) : M α := do
  let s ← get
  let (a, types) := f s.types
  set { s with types := types }
  return a

def intern (name : String) (kind : TypeKind) : M TypeId := withTypes (·.intern name kind)

def setParent (child parent : TypeId) : M Unit :=
  withTypes fun r => ((), r.setParent child parent)

def addInterface (cls iface : TypeId) : M Unit :=
  withTypes fun r => ((), r.addInterface cls iface)

/-- Writing through `types_.info(id)`. -/
def modifyInfo (id : TypeId) (f : TypeInfo → TypeInfo) : M Unit :=
  withTypes fun r => ((), r.modifyInfo id f)

/-- The signature text under which a function type is interned. -/
def fnSignature (params : List TypeExpr) (ret : String) : String :=
  "__fn(" ++ ",".intercalate (params.map (·.name)) ++ ")->" ++ ret

def typeFromTe (te : TypeExpr) : M TypeId := do
  if te.name = "ptr" then
    return TID_OBJECT
  else if te.name = "__fn" then
    let id ← intern (fnSignature te.fnParams te.fnRet) .function
    let types := (← get).types
    if (types.info id).returnType < 0 then
      modifyInfo id fun ti =>
        { ti with
          returnType := types.fromName te.fnRet
          paramTypes := ti.paramTypes ++ te.fnParams.map fun p => types.fromName p.name }
    return id
  else
    return (← get).types.fromTypeExpr te

theorem typeFromTe_fn {te : TypeExpr} (isFn : te.name = "__fn") (s : State) : ∃ s',
    typeFromTe te s =
      some ((s.types.intern (fnSignature te.fnParams te.fnRet) .function).1, s') := by
  have notPtr : te.name ≠ "ptr" := by
    rw [isFn]
    decide
  rw [typeFromTe, if_neg notPtr, if_pos isFn]
  by_cases told : ((s.types.intern (fnSignature te.fnParams te.fnRet) .function).2.info
      (s.types.intern (fnSignature te.fnParams te.fnRet) .function).1).returnType < 0
  · exact ⟨_, (congrFun (if_pos told) _).trans rfl⟩
  · exact ⟨_, (congrFun (if_neg told) _).trans rfl⟩

def requireAssignable (src dst : TypeId) (ctx : String) : M Unit := do
  let s ← get
  if ← s.types.assignable src dst then return
  if s.inUnsafe ∧ (src = TID_OBJECT ∨ dst = TID_OBJECT) then return
  err (ctx ++ ": cannot assign '" ++ s.types.nameOf src ++ "' to '" ++ s.types.nameOf dst ++ "'")

def requireNumeric (t : TypeId) (ctx : String) : M Unit := do
  if t = TID_UNKNOWN ∨ isNumeric t then return
  err (ctx ++ ": expected numeric type, got '" ++ (← get).types.nameOf t ++ "'")

/-- `Sema::require_bool`: any type is let through, some with a warning. -/
def requireBool (t : TypeId) (ctx : String) : M Unit := do
  let types := (← get).types
  if t = TID_UNKNOWN ∨ t = TID_BOOL then return
  if ← types.assignable t TID_BOOL then return
  warn (ctx ++ ": condition is '" ++ types.nameOf t ++ "', expected 'bool'")

/-- The built-in functions and root classes the constructor of `Sema` puts into
the global scope. -/
def builtinSymbols : Scope :=
  let fn (name : String) (ret : TypeId) (params : List (String × TypeId)) : String × Symbol :=
    (name, { name := name, kind := .builtIn, type := ret, returnType := ret, params := params })
  let cls (name : String) (tid : TypeId) : String × Symbol :=
    (name, { name := name, kind := .cls, type := tid })
  [ fn "println" TID_VOID [("value", TID_OBJECT)],
    fn "print" TID_VOID [("value", TID_OBJECT)],
    fn "readline" TID_STR [],
    fn "len" TID_INT [("x", TID_OBJECT)],
    fn "str" TID_STR [("x", TID_OBJECT)],
    fn "int" TID_INT [("x", TID_OBJECT)],
    fn "double" TID_DOUBLE [("x", TID_OBJECT)],
    fn "range" TID_LIST [("end", TID_INT)],
    fn "assert" TID_VOID [("cond", TID_BOOL)],
    fn "__fstr_to_str" TID_STR [("x", TID_OBJECT)],
    cls "object" TID_OBJECT,
    cls "any" TID_OBJECT ]

def State.initial : State := { types := .initial, scopes := [builtinSymbols] }

end Dux.Sema
