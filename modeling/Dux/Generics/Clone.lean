import Dux.Ast

/-!
# Templates and their clones

The syntax of generic declarations, and the copy that `expand_generics` makes of
a template for one list of type arguments (`src/sema/generics.cpp`).

The trees of `Dux.Ast` have no null pointers, but the copy can contain some.  A
null pointer is shown as a node that the parser never builds, an identifier of
type id `-2` without a name.  Access modifiers, decorators and the locations of
type expressions are left out; no later pass reads them.
-/

namespace Dux.Generics

/-- `ast::TypeBound`. -/
structure TypeBound where
  param : String
  interfaceName : String

/-- `ast::FunctionDecl` with its type parameters. -/
structure FuncTemplate where
  typeParams : List String := []
  typeBounds : List TypeBound := []
  decl : FunctionDecl

/-- A member of a class template. -/
inductive MemberTemplate
  | func (f : FuncTemplate)
  | field (f : FieldDecl)

/-- `ast::ClassDecl` with its type parameters. -/
structure ClassTemplate where
  name : String
  typeParams : List String := []
  typeBounds : List TypeBound := []
  bases : List String := []
  members : List MemberTemplate

/-- A null `ExprPtr`. -/
def nullExpr : Expr := .ident (-2) ""

/-- A null `StmtPtr`. -/
def nullStmt : Stmt := .expr nullExpr

/-- `SubstMap`: newer entries in front. -/
abbrev SubstMap := List (String × TypeExpr)

/-- The substitution of one instance. -/
def substMap : SubstMap → List String → List TypeExpr → SubstMap
  | s, p :: ps, a :: as => substMap ((p, a) :: s) ps as
  | s, _, _ => s

mutual

def mangleGeneric (name : String) (args : List TypeExpr) : String := name ++ mangleArgs args

def mangleArgs : List TypeExpr → String
  | [] => ""
  | a :: as => "__" ++ mangleArg a ++ mangleArgs as

def mangleArg : TypeExpr → String
  | ⟨name, _, _, _, typeArgs⟩ =>
      if typeArgs.isEmpty then name else name ++ mangleArgs typeArgs

end

/-! ## Copies of types -/

mutual

def substTe (s : SubstMap) : TypeExpr → TypeExpr
  | ⟨name, isConst, fnParams, fnRet, typeArgs⟩ =>
      let r : TypeExpr := ⟨name, isConst, substTes s fnParams, fnRet, substTes s typeArgs⟩
      if name ≠ "__fn" ∧ typeArgs.isEmpty then
        match s.lookup name with
        | some arg => { arg with isConst := arg.isConst || isConst }
        | none => r
      else r

def substTes (s : SubstMap) : List TypeExpr → List TypeExpr
  | [] => []
  | te :: tes => substTe s te :: substTes s tes

end

def cloneParams (s : SubstMap) (params : List Param) : List Param :=
  params.map fun p => ⟨substTe s p.type, p.name⟩

/-! ## Copies of expressions and statements -/

mutual

/-- `clone_expr`.  A copied node is not resolved.  Of a lambda the explicit
return type is not copied, and an `await` becomes a null pointer. -/
def cloneExpr (s : SubstMap) : Expr → Expr
  | .intLit _ v => .intLit (-1) v
  | .longLit _ v => .longLit (-1) v
  | .floatLit _ v => .floatLit (-1) v
  | .realLit _ v => .realLit (-1) v
  | .stringLit _ v => .stringLit (-1) v
  | .boolLit _ v => .boolLit (-1) v
  | .nullLit _ => .nullLit (-1)
  | .ident _ name => .ident (-1) name
  | .this _ => .this (-1)
  | .super _ => .super (-1)
  | .binary _ op left right => .binary (-1) op (cloneExpr s left) (cloneExpr s right)
  | .unary _ op operand isPrefix => .unary (-1) op (cloneExpr s operand) isPrefix
  | .assign _ op target value => .assign (-1) op (cloneExpr s target) (cloneExpr s value)
  | .call _ callee args => .call (-1) (cloneExpr s callee) (cloneExprs s args)
  | .member _ object member => .member (-1) (cloneExpr s object) member
  | .index _ object index => .index (-1) (cloneExpr s object) (cloneExpr s index)
  | .new _ type args => .new (-1) (substTe s type) (cloneExprs s args)
  | .list _ elements => .list (-1) (cloneExprs s elements)
  | .dict _ pairs => .dict (-1) (clonePairs s pairs)
  | .lambda _ params body _ _ => .lambda (-1) (cloneParams s params) (cloneStmts s body) none ""
  | .await _ _ => nullExpr

def cloneExprs (s : SubstMap) : List Expr → List Expr
  | [] => []
  | e :: es => cloneExpr s e :: cloneExprs s es

def cloneOpt (s : SubstMap) : Option Expr → Option Expr
  | none => none
  | some e => some (cloneExpr s e)

def clonePairs (s : SubstMap) : List DictPair → List DictPair
  | [] => []
  | .mk key value :: ps => .mk (cloneExpr s key) (cloneExpr s value) :: clonePairs s ps

def cloneItems (s : SubstMap) : List VarItem → List VarItem
  | [] => []
  | .mk name init :: ds => .mk name (cloneOpt s init) :: cloneItems s ds

def cloneCases (s : SubstMap) : List SwitchCase → List SwitchCase
  | [] => []
  | .mk value body :: cs => .mk (cloneOpt s value) (cloneStmts s body) :: cloneCases s cs

def cloneElse (s : SubstMap) : ElseBr → ElseBr
  | .none => .none
  | .block body => .block (cloneStmts s body)
  | .elif cond thenBr elseBr =>
      .elif (cloneExpr s cond) (cloneStmts s thenBr) (cloneElse s elseBr)

/-- `clone_stmt`.  The flags `static` and `thread_local` of a declaration are
not copied, and a `match` becomes a null pointer. -/
def cloneStmt (s : SubstMap) : Stmt → Stmt
  | .block body => .block (cloneStmts s body)
  | .expr e => .expr (cloneExpr s e)
  | .varDecl loc type _ _ decls => .varDecl loc (substTe s type) false false (cloneItems s decls)
  | .ifStmt cond thenBr elseBr =>
      .ifStmt (cloneExpr s cond) (cloneStmts s thenBr) (cloneElse s elseBr)
  | .whileStmt label cond body => .whileStmt label (cloneExpr s cond) (cloneStmts s body)
  | .doWhile body cond => .doWhile (cloneStmts s body) (cloneExpr s cond)
  | .forIn varType varName iterable body =>
      .forIn (substTe s varType) varName (cloneExpr s iterable) (cloneStmts s body)
  | .forC varType varName init cond incr body =>
      .forC (substTe s varType) varName (cloneExpr s init) (cloneExpr s cond) (cloneExpr s incr)
        (cloneStmts s body)
  | .switchStmt e cases => .switchStmt (cloneExpr s e) (cloneCases s cases)
  | .matchStmt _ _ => nullStmt
  | .tryCatch tryBody catchAll catchType catchVar catchBody =>
      .tryCatch (cloneStmts s tryBody) catchAll (catchType.map (substTe s)) catchVar
        (cloneStmts s catchBody)
  | .returnStmt value => .returnStmt (cloneOpt s value)
  | .breakStmt label => .breakStmt label
  | .continueStmt label => .continueStmt label
  | .assertStmt cond => .assertStmt (cloneExpr s cond)
  | .deleteStmt e => .deleteStmt (cloneExpr s e)
  | .defer loc body => .defer loc (cloneStmts s body)
  | .throwStmt e => .throwStmt (cloneExpr s e)
  | .unsafeStmt body => .unsafeStmt (cloneStmts s body)

def cloneStmts (s : SubstMap) : List Stmt → List Stmt
  | [] => []
  | st :: sts => cloneStmt s st :: cloneStmts s sts

end

/-! ## Copies of declarations -/

/-- `clone_func_decl`.  The flags `static` and `async` are not copied, nor are
the type parameters of a method. -/
def cloneFuncDecl (s : SubstMap) (f : FuncTemplate) : FuncTemplate :=
  { decl :=
      { loc := f.decl.loc
        returnType := substTe s f.decl.returnType
        name := f.decl.name
        params := cloneParams s f.decl.params
        modifier := f.decl.modifier
        body := f.decl.body.map (cloneStmts s)
        isCtor := f.decl.isCtor
        isDtor := f.decl.isDtor
        initList := f.decl.initList.map fun ie => ⟨ie.field, cloneExprs s ie.args⟩ } }

/-- `clone_field_decl`.  The flag `static` is not copied. -/
def cloneFieldDecl (s : SubstMap) (f : FieldDecl) : FieldDecl :=
  { type := substTe s f.type
    name := f.name
    init := cloneOpt s f.init }

/-- Constructors and destructors take the name of the instance. -/
def renameSpecial (newName : String) (f : FuncTemplate) : FuncTemplate :=
  if f.decl.isCtor || f.decl.isDtor then { f with decl := { f.decl with name := newName } } else f

def cloneMember (newName : String) (s : SubstMap) : MemberTemplate → MemberTemplate
  | .func f => .func (renameSpecial newName (cloneFuncDecl s f))
  | .field f => .field (cloneFieldDecl s f)

def cloneClassDecl (c : ClassTemplate) (newName : String) (s : SubstMap) : ClassTemplate :=
  { name := newName
    bases := c.bases
    members := c.members.map (cloneMember newName s) }

def cloneGenericFunc (f : FuncTemplate) (newName : String) (s : SubstMap) : FuncTemplate :=
  let r := cloneFuncDecl s f
  { decl := { r.decl with name := newName } }

end Dux.Generics
