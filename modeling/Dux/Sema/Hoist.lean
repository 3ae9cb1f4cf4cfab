import Dux.Sema.Scope

/-!
# Hoisting

The first pass of `Sema` (`src/sema/sema.cpp`): every top-level declaration
enters its name into the scope and its type into the registry before any body
is looked at.  Namespace members are checked in a scope of their own and then
promoted to the global scope, once under their qualified and once under their
bare name.
-/

namespace Dux.Sema

open TypeRegistry

def typesOfParams : List Param → M (List (String × TypeId))
  | [] => return []
  | p :: ps => do
      let t ← typeFromTe p.type
      return (p.name, t) :: (← typesOfParams ps)

/-- The symbol `hoist_top` makes of a function. -/
def hoistFunction (f : FunctionDecl) : M Unit := do
  let ret ← typeFromTe f.returnType
  let params ← typesOfParams f.params
  let isNew ← define f.name
    { name := f.name, kind := .function, type := ret, returnType := ret, params := params,
      decl := .other, isAsync := f.isAsync }
  if !isNew then
    err ("function '" ++ f.name ++ "' already declared in this scope")

/-- The variants of an enum with their tags, counted from `tag`. -/
def enumVariants (types : TypeRegistry) : Nat → List EnumVariant → List EnumVariantInfo
  | _, [] => []
  | tag, v :: vs =>
      { name := v.name, tag := tag, payload := v.payload.map types.fromTypeExpr } ::
        enumVariants types (tag + 1) vs

/-- Every variant becomes a constant `Enum.Variant` of the global scope. -/
def defineVariants (enumName : String) (id : TypeId) : List EnumVariant → M Unit
  | [] => return
  | v :: vs => do
      let name := enumName ++ "." ++ v.name
      defineGlobal name { name := name, kind := .var, type := id, isConst := true }
      defineVariants enumName id vs

def hoistEnum (e : EnumDecl) : M Unit := do
  let id ← intern e.name .enum
  let types := (← get).types
  modifyInfo id fun ti => { ti with variants := enumVariants types 0 e.variants }
  defineVariants e.name id e.variants
  let isNew ← define e.name { name := e.name, kind := .cls, type := id, decl := .other }
  if !isNew then err ("enum '" ++ e.name ++ "' already declared")

/-- `Sema::hoist_extern`: a second declaration is let through. -/
def hoistExtern (e : ExternDecl) : M Unit := do
  let ret ← typeFromTe e.ret
  let params ← typesOfParams e.params
  let _ ← define e.name
    { name := e.name, kind := .function, type := ret, returnType := ret, params := params }

/-- The interfaces among the bases of a class that are known so far. -/
def addInterfaces (id : TypeId) : List String → M Unit
  | [] => return
  | base :: bases => do
      let types := (← get).types
      let baseId := types.fromName base
      if baseId ≠ TID_UNKNOWN ∧ (types.info baseId).kind = .interface then
        addInterface id baseId
      addInterfaces id bases

def hoistClass (c : ClassDecl) : M Unit := do
  let id ← intern c.name .cls
  match c.bases with
  | [] => pure ()
  | base :: _ =>
      let parent := (← get).types.fromName base
      setParent id (if parent = TID_UNKNOWN then TID_OBJECT else parent)
      addInterfaces id c.bases
  let isNew ← define c.name { name := c.name, kind := .cls, type := id, decl := .cls c }
  if !isNew then err ("class '" ++ c.name ++ "' already declared")

def hoistInterface (i : InterfaceDecl) : M Unit := do
  let id ← intern i.name .interface
  let isNew ← define i.name { name := i.name, kind := .interface, type := id, decl := .iface i }
  if !isNew then err ("interface '" ++ i.name ++ "' already declared")

/-- The promotion loop of `hoist_namespace`. -/
def promote (ns : String) : Scope → M Unit
  | [] => return
  | (name, sym) :: rest => do
      let qualified := ns ++ "." ++ name
      defineGlobal qualified { sym with name := qualified }
      defineGlobal name sym
      promote ns rest

/-- The symbols of the innermost scope. -/
def currentScope : M Scope := do return (← get).scopes.headD []

mutual

/-- `Sema::hoist_top`, one declaration. -/
def hoistDecl : Decl → M Unit
  | .cls c => hoistClass c
  | .iface i => hoistInterface i
  | .enum e => hoistEnum e
  | .namespaceDecl name decls _ => do
      let _ ← define name { name := name, kind := .namespace, decl := .other }
      push
      hoistTop decls
      promote name (← currentScope)
      pop
  | .func f => hoistFunction f
  | .externDecl e => hoistExtern e
  | .importDecl _ => return
  | .packageDecl _ => return

def hoistTop : List Decl → M Unit
  | [] => return
  | d :: ds => do
      hoistDecl d
      hoistTop ds

end

end Dux.Sema
