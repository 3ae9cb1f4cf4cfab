import Dux.Generics.Instance
import Mathlib.Logic.Relation

/-!
# Expanding generics

`expand_generics` (`src/sema/generics.cpp`): the walk that replaces every
instantiated type by the name of its instance, and the work list that adds the
instances.

A walk returns the changed node together with the instances it asks for, in the
order in which it meets them.
-/

namespace Dux.Generics

inductive GenericDecl
  | func (f : FuncTemplate)
  | cls (c : ClassTemplate)
  | iface (i : InterfaceDecl)
  | enum (e : EnumDecl)
  | importDecl (i : ImportDecl)
  | namespaceDecl (name : String) (decls : List GenericDecl) (stmts : List Stmt)
  | packageDecl (name : String)
  | externDecl (e : ExternDecl)

structure GenericProgram where
  decls : List GenericDecl
  stmts : List Stmt

/-- `InstKey` without the location. -/
structure InstKey where
  genericName : String
  typeArgs : List TypeExpr
  mangled : String

/-! ## The walk -/

mutual

def fixTe : TypeExpr → TypeExpr × List InstKey
  | ⟨name, isConst, fnParams, fnRet, typeArgs⟩ =>
      let (args, argKeys) := fixTes typeArgs
      let (params, paramKeys) := fixTes fnParams
      if typeArgs.isEmpty then (⟨name, isConst, params, fnRet, args⟩, argKeys ++ paramKeys)
      else
        let mangled := mangleGeneric name args
        (⟨mangled, isConst, params, fnRet, []⟩, argKeys ++ paramKeys ++ [⟨name, args, mangled⟩])

def fixTes : List TypeExpr → List TypeExpr × List InstKey
  | [] => ([], [])
  | te :: tes =>
      let (te, keys) := fixTe te
      let (tes, keys') := fixTes tes
      (te :: tes, keys ++ keys')

end

def fixOptTe : Option TypeExpr → Option TypeExpr × List InstKey
  | none => (none, [])
  | some te =>
      let (te, keys) := fixTe te
      (some te, keys)

def fixParams : List Param → List Param × List InstKey
  | [] => ([], [])
  | p :: ps =>
      let (te, keys) := fixTe p.type
      let (ps, keys') := fixParams ps
      (⟨te, p.name⟩ :: ps, keys ++ keys')

mutual

/-- `fix_expr`.  It does not look into an `await` or at the explicit return type
of a lambda. -/
def fixExpr : Expr → Expr × List InstKey
  | .new t type args =>
      let (type, keys) := fixTe type
      let (args, keys') := fixExprs args
      (.new t type args, keys ++ keys')
  | .binary t op left right =>
      let (left, keys) := fixExpr left
      let (right, keys') := fixExpr right
      (.binary t op left right, keys ++ keys')
  | .unary t op operand isPrefix =>
      let (operand, keys) := fixExpr operand
      (.unary t op operand isPrefix, keys)
  | .assign t op target value =>
      let (target, keys) := fixExpr target
      let (value, keys') := fixExpr value
      (.assign t op target value, keys ++ keys')
  | .call t callee args =>
      let (callee, keys) := fixExpr callee
      let (args, keys') := fixExprs args
      (.call t callee args, keys ++ keys')
  | .member t object member =>
      let (object, keys) := fixExpr object
      (.member t object member, keys)
  | .index t object index =>
      let (object, keys) := fixExpr object
      let (index, keys') := fixExpr index
      (.index t object index, keys ++ keys')
  | .list t elements =>
      let (elements, keys) := fixExprs elements
      (.list t elements, keys)
  | .dict t pairs =>
      let (pairs, keys) := fixPairs pairs
      (.dict t pairs, keys)
  | .lambda t params body explicitRet inferredRet =>
      let (params, keys) := fixParams params
      let (body, keys') := fixStmts body
      (.lambda t params body explicitRet inferredRet, keys ++ keys')
  | .await t operand => (.await t operand, [])
  | .intLit t v => (.intLit t v, [])
  | .longLit t v => (.longLit t v, [])
  | .floatLit t v => (.floatLit t v, [])
  | .realLit t v => (.realLit t v, [])
  | .stringLit t v => (.stringLit t v, [])
  | .boolLit t v => (.boolLit t v, [])
  | .nullLit t => (.nullLit t, [])
  | .ident t name => (.ident t name, [])
  | .this t => (.this t, [])
  | .super t => (.super t, [])

def fixExprs : List Expr → List Expr × List InstKey
  | [] => ([], [])
  | e :: es =>
      let (e, keys) := fixExpr e
      let (es, keys') := fixExprs es
      (e :: es, keys ++ keys')

def fixOpt : Option Expr → Option Expr × List InstKey
  | none => (none, [])
  | some e =>
      let (e, keys) := fixExpr e
      (some e, keys)

def fixPairs : List DictPair → List DictPair × List InstKey
  | [] => ([], [])
  | .mk key value :: ps =>
      let (key, keys) := fixExpr key
      let (value, keys') := fixExpr value
      let (ps, keys'') := fixPairs ps
      (.mk key value :: ps, keys ++ keys' ++ keys'')

def fixItems : List VarItem → List VarItem × List InstKey
  | [] => ([], [])
  | .mk name init :: ds =>
      let (init, keys) := fixOpt init
      let (ds, keys') := fixItems ds
      (.mk name init :: ds, keys ++ keys')

def fixCases : List SwitchCase → List SwitchCase × List InstKey
  | [] => ([], [])
  | .mk value body :: cs =>
      let (value, keys) := fixOpt value
      let (body, keys') := fixStmts body
      let (cs, keys'') := fixCases cs
      (.mk value body :: cs, keys ++ keys' ++ keys'')

def fixElse : ElseBr → ElseBr × List InstKey
  | .none => (.none, [])
  | .block body =>
      let (body, keys) := fixStmts body
      (.block body, keys)
  | .elif cond thenBr elseBr =>
      let (cond, keys) := fixExpr cond
      let (thenBr, keys') := fixStmts thenBr
      let (elseBr, keys'') := fixElse elseBr
      (.elif cond thenBr elseBr, keys ++ keys' ++ keys'')

/-- `fix_stmt`.  It does not look into a `match`. -/
def fixStmt : Stmt → Stmt × List InstKey
  | .block body =>
      let (body, keys) := fixStmts body
      (.block body, keys)
  | .expr e =>
      let (e, keys) := fixExpr e
      (.expr e, keys)
  | .varDecl loc type isStatic isThreadLocal decls =>
      let (type, keys) := fixTe type
      let (decls, keys') := fixItems decls
      (.varDecl loc type isStatic isThreadLocal decls, keys ++ keys')
  | .ifStmt cond thenBr elseBr =>
      let (cond, keys) := fixExpr cond
      let (thenBr, keys') := fixStmts thenBr
      let (elseBr, keys'') := fixElse elseBr
      (.ifStmt cond thenBr elseBr, keys ++ keys' ++ keys'')
  | .whileStmt label cond body =>
      let (cond, keys) := fixExpr cond
      let (body, keys') := fixStmts body
      (.whileStmt label cond body, keys ++ keys')
  | .doWhile body cond =>
      let (body, keys) := fixStmts body
      let (cond, keys') := fixExpr cond
      (.doWhile body cond, keys ++ keys')
  | .forIn varType varName iterable body =>
      let (varType, keys) := fixTe varType
      let (iterable, keys') := fixExpr iterable
      let (body, keys'') := fixStmts body
      (.forIn varType varName iterable body, keys ++ keys' ++ keys'')
  | .forC varType varName init cond incr body =>
      let (varType, keys₁) := fixTe varType
      let (init, keys₂) := fixExpr init
      let (cond, keys₃) := fixExpr cond
      let (incr, keys₄) := fixExpr incr
      let (body, keys₅) := fixStmts body
      (.forC varType varName init cond incr body, keys₁ ++ keys₂ ++ keys₃ ++ keys₄ ++ keys₅)
  | .switchStmt e cases =>
      let (e, keys) := fixExpr e
      let (cases, keys') := fixCases cases
      (.switchStmt e cases, keys ++ keys')
  | .matchStmt e arms => (.matchStmt e arms, [])
  | .tryCatch tryBody catchAll catchType catchVar catchBody =>
      let (tryBody, keys) := fixStmts tryBody
      let (catchType, keys') := fixOptTe catchType
      let (catchBody, keys'') := fixStmts catchBody
      (.tryCatch tryBody catchAll catchType catchVar catchBody, keys ++ keys' ++ keys'')
  | .returnStmt value =>
      let (value, keys) := fixOpt value
      (.returnStmt value, keys)
  | .breakStmt label => (.breakStmt label, [])
  | .continueStmt label => (.continueStmt label, [])
  | .assertStmt cond =>
      let (cond, keys) := fixExpr cond
      (.assertStmt cond, keys)
  | .deleteStmt e =>
      let (e, keys) := fixExpr e
      (.deleteStmt e, keys)
  | .defer loc body =>
      let (body, keys) := fixStmts body
      (.defer loc body, keys)
  | .throwStmt e =>
      let (e, keys) := fixExpr e
      (.throwStmt e, keys)
  | .unsafeStmt body =>
      let (body, keys) := fixStmts body
      (.unsafeStmt body, keys)

def fixStmts : List Stmt → List Stmt × List InstKey
  | [] => ([], [])
  | st :: sts =>
      let (st, keys) := fixStmt st
      let (sts, keys') := fixStmts sts
      (st :: sts, keys ++ keys')

end

def fixBody : Option (List Stmt) → Option (List Stmt) × List InstKey
  | none => (none, [])
  | some body =>
      let (body, keys) := fixStmts body
      (some body, keys)

/-- `fix_func_decl`.  It does not look at the initialiser list. -/
def fixFuncDecl (f : FuncTemplate) : FuncTemplate × List InstKey :=
  let (returnType, keys) := fixTe f.decl.returnType
  let (params, keys') := fixParams f.decl.params
  let (body, keys'') := fixBody f.decl.body
  ({ f with decl := { f.decl with returnType := returnType, params := params, body := body } },
    keys ++ keys' ++ keys'')

/-- `fix_decl` on the members of a class.  It does not look at the initialiser
of a field. -/
def fixMembers : List MemberTemplate → List MemberTemplate × List InstKey
  | [] => ([], [])
  | .func f :: ms =>
      let (f, keys) := fixFuncDecl f
      let (ms, keys') := fixMembers ms
      (.func f :: ms, keys ++ keys')
  | .field f :: ms =>
      let (type, keys) := fixTe f.type
      let (ms, keys') := fixMembers ms
      (.field { f with type := type } :: ms, keys ++ keys')

mutual

/-- `fix_decl`.  Interfaces, enums and externs are left as they are. -/
def fixDecl (skipGeneric : Bool) : GenericDecl → GenericDecl × List InstKey
  | .cls c =>
      if skipGeneric && !c.typeParams.isEmpty then (.cls c, [])
      else
        let (members, keys) := fixMembers c.members
        (.cls { c with members := members }, keys)
  | .func f =>
      if skipGeneric && !f.typeParams.isEmpty then (.func f, [])
      else
        let (f, keys) := fixFuncDecl f
        (.func f, keys)
  | .namespaceDecl name decls stmts =>
      let (decls, keys) := fixDecls skipGeneric decls
      let (stmts, keys') := fixStmts stmts
      (.namespaceDecl name decls stmts, keys ++ keys')
  | .iface i => (.iface i, [])
  | .enum e => (.enum e, [])
  | .importDecl i => (.importDecl i, [])
  | .packageDecl name => (.packageDecl name, [])
  | .externDecl e => (.externDecl e, [])

def fixDecls (skipGeneric : Bool) : List GenericDecl → List GenericDecl × List InstKey
  | [] => ([], [])
  | d :: ds =>
      let (d, keys) := fixDecl skipGeneric d
      let (ds, keys') := fixDecls skipGeneric ds
      (d :: ds, keys ++ keys')

end

/-! ## The work list -/

/-- `generic_classes` and `generic_funcs`; newer entries stand in front. -/
structure Templates where
  classes : List (String × ClassTemplate) := []
  funcs : List (String × FuncTemplate) := []

mutual

/-- `collect_templates`, one declaration. -/
def collectTemplate (ts : Templates) : GenericDecl → Templates
  | .cls c =>
      if c.typeParams.isEmpty then ts else { ts with classes := (c.name, c) :: ts.classes }
  | .func f =>
      if f.typeParams.isEmpty then ts else { ts with funcs := (f.decl.name, f) :: ts.funcs }
  | .namespaceDecl _ decls _ => collectTemplates ts decls
  | .iface _ => ts
  | .enum _ => ts
  | .importDecl _ => ts
  | .packageDecl _ => ts
  | .externDecl _ => ts

def collectTemplates (ts : Templates) : List GenericDecl → Templates
  | [] => ts
  | d :: ds => collectTemplates (collectTemplate ts d) ds

end

/-- `ast_satisfies_bound`: a class that the program does not declare passes. -/
def astSatisfiesBound (concreteType interfaceName : String) : List GenericDecl → Bool
  | [] => true
  | .cls c :: ds =>
      interfaceName = "" ||
        (if c.name = concreteType then c.bases.any (· = interfaceName)
         else astSatisfiesBound concreteType interfaceName ds)
  | _ :: ds => interfaceName = "" || astSatisfiesBound concreteType interfaceName ds

def boundErrors (decls : List GenericDecl) (s : SubstMap) (bounds : List TypeBound) :
    List String :=
  bounds.filterMap fun bound =>
    match s.lookup bound.param with
    | none => none
    | some te =>
        if astSatisfiesBound te.name bound.interfaceName decls then none
        else some ("type '" ++ te.name ++ "' does not implement '" ++ bound.interfaceName ++
          "' (required by generic parameter '" ++ bound.param ++ "')")

/-- What the loop of `expand_generics` works on.  The back of the vector
`pending` is the head of the list. -/
structure WorkState where
  done : List String := []
  pending : List InstKey := []
  newDecls : List GenericDecl := []
  errors : List String := []

/-- The template of an instance and its substitution, if the numbers of
parameters and arguments agree. -/
def Templates.find (ts : Templates) (key : InstKey) : Option Template :=
  match ts.classes.lookup key.genericName with
  | some c => if c.typeParams.length = key.typeArgs.length then some (.cls c) else none
  | none =>
      match ts.funcs.lookup key.genericName with
      | some f => if f.typeParams.length = key.typeArgs.length then some (.func f) else none
      | none => none

def Template.typeBounds : Template → List TypeBound
  | .cls c => c.typeBounds
  | .func f => f.typeBounds

def Template.toDecl : Template → GenericDecl
  | .cls c => .cls c
  | .func f => .func f

/-- Push the instances a walk asks for, unless they are done. -/
def WorkState.push (s : WorkState) (keys : List InstKey) : WorkState :=
  { s with pending := (keys.filter (·.mangled ∉ s.done)).reverse ++ s.pending }

/-- Take up an instance: add its clone, if it has a template, and walk it. -/
def takeUp (ts : Templates) (decls : List GenericDecl) (key : InstKey) (s : WorkState) :
    WorkState :=
  match ts.find key with
  | none => s
  | some t =>
      let errors := boundErrors decls (substMap [] t.typeParams key.typeArgs) t.typeBounds
      let (concrete, keys) := fixDecl false (t.clone key.mangled key.typeArgs).toDecl
      let s := s.push keys
      { s with newDecls := s.newDecls ++ [concrete], errors := s.errors ++ errors }

/-- One round of the loop of `expand_generics`. -/
def workStep (ts : Templates) (decls : List GenericDecl) (s : WorkState) : Option WorkState :=
  match s.pending with
  | [] => none
  | key :: rest =>
      if key.mangled ∈ s.done then some { s with pending := rest }
      else some (takeUp ts decls key { s with done := key.mangled :: s.done, pending := rest })

/-- The loop of `expand_generics`; `none` when the fuel runs out. -/
def workLoop (ts : Templates) (decls : List GenericDecl) : Nat → WorkState → Option WorkState
  | 0, _ => none
  | fuel + 1, s =>
      match workStep ts decls s with
      | none => some s
      | some s => workLoop ts decls fuel s

def GenericDecl.isGeneric : GenericDecl → Bool
  | .cls c => !c.typeParams.isEmpty
  | .func f => !f.typeParams.isEmpty
  | _ => false

/-- Drop the templates right inside a namespace. -/
def GenericDecl.stripNamespace : GenericDecl → GenericDecl
  | .namespaceDecl name decls stmts => .namespaceDecl name (decls.filter (!·.isGeneric)) stmts
  | d => d

def keptDecls (decls : List GenericDecl) : List GenericDecl :=
  (decls.filter (!·.isGeneric)).map (·.stripNamespace)

/-- What `expand_generics` leaves: the declarations it has generated, those it
has kept, the statements and the errors. -/
structure Expansion where
  generated : List GenericDecl
  kept : List GenericDecl
  stmts : List Stmt
  errors : List String

def GenericProgram.templates (prog : GenericProgram) : Templates :=
  collectTemplates {} prog.decls

/-- Whether there is nothing to expand. -/
def Templates.isEmpty (ts : Templates) : Bool := ts.classes.isEmpty && ts.funcs.isEmpty

/-- The work list before its first round. -/
def GenericProgram.start (prog : GenericProgram) : WorkState :=
  WorkState.push {} ((fixDecls true prog.decls).2 ++ (fixStmts prog.stmts).2)

def expandGenerics (fuel : Nat) (prog : GenericProgram) : Option Expansion :=
  let ts := prog.templates
  if ts.isEmpty then some ⟨[], prog.decls, prog.stmts, []⟩
  else do
    let decls := (fixDecls true prog.decls).1
    let s ← workLoop ts decls fuel prog.start
    return ⟨s.newDecls, keptDecls decls, (fixStmts prog.stmts).1, s.errors⟩

end Dux.Generics
