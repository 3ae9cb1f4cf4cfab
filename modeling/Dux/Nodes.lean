import Dux.Ast

/-!
# The nodes of a program

Every expression and every statement of a program, wherever it stands: in the
bodies of functions, methods and lambdas, in initialisers, and in deferred
blocks.
-/

namespace Dux

inductive Node
  | expr (e : Expr)
  | stmt (s : Stmt)

mutual

def nodesExpr : Expr → List Node
  | .binary t op left right =>
      .expr (.binary t op left right) :: (nodesExpr left ++ nodesExpr right)
  | .unary t op operand p => .expr (.unary t op operand p) :: nodesExpr operand
  | .assign t op target value =>
      .expr (.assign t op target value) :: (nodesExpr target ++ nodesExpr value)
  | .call t callee args => .expr (.call t callee args) :: (nodesExpr callee ++ nodesExprs args)
  | .member t object member => .expr (.member t object member) :: nodesExpr object
  | .index t object index => .expr (.index t object index) :: (nodesExpr object ++ nodesExpr index)
  | .new t type args => .expr (.new t type args) :: nodesExprs args
  | .list t elements => .expr (.list t elements) :: nodesExprs elements
  | .dict t pairs => .expr (.dict t pairs) :: nodesPairs pairs
  | .lambda t params body ret inferred =>
      .expr (.lambda t params body ret inferred) :: nodesStmts body
  | .await t operand => .expr (.await t operand) :: nodesExpr operand
  | .intLit t v => [.expr (.intLit t v)]
  | .longLit t v => [.expr (.longLit t v)]
  | .floatLit t v => [.expr (.floatLit t v)]
  | .realLit t v => [.expr (.realLit t v)]
  | .stringLit t v => [.expr (.stringLit t v)]
  | .boolLit t v => [.expr (.boolLit t v)]
  | .nullLit t => [.expr (.nullLit t)]
  | .ident t name => [.expr (.ident t name)]
  | .this t => [.expr (.this t)]
  | .super t => [.expr (.super t)]

def nodesExprs : List Expr → List Node
  | [] => []
  | e :: es => nodesExpr e ++ nodesExprs es

def nodesPair : DictPair → List Node
  | .mk key value => nodesExpr key ++ nodesExpr value

def nodesPairs : List DictPair → List Node
  | [] => []
  | p :: ps => nodesPair p ++ nodesPairs ps

def nodesOpt : Option Expr → List Node
  | none => []
  | some e => nodesExpr e

def nodesStmt : Stmt → List Node
  | .block body => .stmt (.block body) :: nodesStmts body
  | .expr e => .stmt (.expr e) :: nodesExpr e
  | .varDecl loc type isStatic isThreadLocal decls =>
      .stmt (.varDecl loc type isStatic isThreadLocal decls) :: nodesItems decls
  | .ifStmt cond thenBr elseBr =>
      .stmt (.ifStmt cond thenBr elseBr) ::
        (nodesExpr cond ++ (nodesStmts thenBr ++ nodesElse elseBr))
  | .whileStmt label cond body =>
      .stmt (.whileStmt label cond body) :: (nodesExpr cond ++ nodesStmts body)
  | .doWhile body cond => .stmt (.doWhile body cond) :: (nodesStmts body ++ nodesExpr cond)
  | .forIn varType varName iterable body =>
      .stmt (.forIn varType varName iterable body) :: (nodesExpr iterable ++ nodesStmts body)
  | .forC varType varName init cond incr body =>
      .stmt (.forC varType varName init cond incr body) ::
        (nodesExpr init ++ (nodesExpr cond ++ (nodesExpr incr ++ nodesStmts body)))
  | .switchStmt e cases => .stmt (.switchStmt e cases) :: (nodesExpr e ++ nodesCases cases)
  | .matchStmt e arms => .stmt (.matchStmt e arms) :: (nodesExpr e ++ nodesArms arms)
  | .tryCatch tryBody catchAll catchType catchVar catchBody =>
      .stmt (.tryCatch tryBody catchAll catchType catchVar catchBody) ::
        (nodesStmts tryBody ++ nodesStmts catchBody)
  | .returnStmt value => .stmt (.returnStmt value) :: nodesOpt value
  | .breakStmt label => [.stmt (.breakStmt label)]
  | .continueStmt label => [.stmt (.continueStmt label)]
  | .assertStmt cond => .stmt (.assertStmt cond) :: nodesExpr cond
  | .deleteStmt e => .stmt (.deleteStmt e) :: nodesExpr e
  | .defer loc body => .stmt (.defer loc body) :: nodesStmts body
  | .throwStmt e => .stmt (.throwStmt e) :: nodesExpr e
  | .unsafeStmt body => .stmt (.unsafeStmt body) :: nodesStmts body

def nodesStmts : List Stmt → List Node
  | [] => []
  | s :: ss => nodesStmt s ++ nodesStmts ss

def nodesElse : ElseBr → List Node
  | .none => []
  | .block body => nodesStmts body
  | .elif cond thenBr elseBr => nodesExpr cond ++ (nodesStmts thenBr ++ nodesElse elseBr)

def nodesItem : VarItem → List Node
  | .mk _ init => nodesOpt init

def nodesItems : List VarItem → List Node
  | [] => []
  | d :: ds => nodesItem d ++ nodesItems ds

def nodesCase : SwitchCase → List Node
  | .mk value body => nodesOpt value ++ nodesStmts body

def nodesCases : List SwitchCase → List Node
  | [] => []
  | c :: cs => nodesCase c ++ nodesCases cs

def nodesArm : MatchArm → List Node
  | .mk _ body => nodesStmts body

def nodesArms : List MatchArm → List Node
  | [] => []
  | a :: as => nodesArm a ++ nodesArms as

end

/-- The nodes of a function: its body and the arguments of its initialiser list. -/
def nodesFunction (f : FunctionDecl) : List Node :=
  f.initList.flatMap (fun entry => nodesExprs entry.args) ++ nodesStmts (f.body.getD [])

def nodesMember : ClassMember → List Node
  | .func f => nodesFunction f
  | .field f => nodesOpt f.init

mutual

def nodesDecl : Decl → List Node
  | .func f => nodesFunction f
  | .cls c => c.members.flatMap nodesMember
  | .namespaceDecl _ decls stmts => nodesDecls decls ++ nodesStmts stmts
  | .iface _ => []
  | .enum _ => []
  | .importDecl _ => []
  | .packageDecl _ => []
  | .externDecl _ => []

def nodesDecls : List Decl → List Node
  | [] => []
  | d :: ds => nodesDecl d ++ nodesDecls ds

end

def nodesOf (prog : Program) : List Node := nodesDecls prog.decls ++ nodesStmts prog.stmts

end Dux
