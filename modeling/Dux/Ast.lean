/-!
# Abstract syntax

The tree the parser hands to the two passes (`src/ast/ast.hpp`).  Semantic
analysis fills the `type_id` of every expression in place; here each expression
carries it as its first field and analysis returns the annotated tree.

Two shapes that the grammar guarantees are part of the types: the bodies of
compound statements are statement lists (the parser only ever builds a
`BlockStmt` there), and the branch after `else` is a block or another `if`.
`LabeledStmt` is left out: the parser puts a label on the `while` itself.
Source positions are kept on the nodes whose identity matters, namely the
declarations of local variables and deferred blocks.
-/

namespace Dux

/-- `sema::TypeId`: a bare index into a `TypeRegistry`, `-1` when unresolved. -/
abbrev TypeId := Int

/-- `ast::SourceLoc` without the file name. -/
structure SourceLoc where
  line : Nat
  col : Nat
  deriving DecidableEq, Repr

/-- `ast::TypeExpr`. -/
structure TypeExpr where
  name : String
  isConst : Bool := false
  fnParams : List TypeExpr := []
  fnRet : String := ""
  typeArgs : List TypeExpr := []

/-- `ast::Param`. -/
structure Param where
  type : TypeExpr
  name : String

/-- The operator strings of `ast::BinaryExpr`. -/
inductive BinOp
  | add | sub | mul | div | mod
  | eq | ne | lt | gt | le | ge
  | and | or
  | rangeExcl | rangeIncl
  deriving DecidableEq, Repr

/-- The operator strings of `ast::UnaryExpr`. -/
inductive UnOp
  | neg | plus | not | bitNot | inc | dec
  deriving DecidableEq, Repr

/-- The operator strings of `ast::AssignExpr`. -/
inductive AssignOp
  | assign | add | sub | mul | div | mod
  deriving DecidableEq, Repr

/-- `ast::MatchPattern`. -/
inductive MatchPattern
  | wildcard
  | enumVariant (enumName variantName : String) (bindings : List String)
  | intLit (value : Int)
  | boolLit (value : Bool)
  | strLit (value : String)

mutual

/-- `ast::Expr` and its subclasses.  Floating literals are kept as the bits of
the `double` the lexer read. -/
inductive Expr
  | intLit (tid : TypeId) (value : Int)
  | longLit (tid : TypeId) (value : Int)
  | floatLit (tid : TypeId) (value : BitVec 64)
  | realLit (tid : TypeId) (value : BitVec 64)
  | stringLit (tid : TypeId) (value : String)
  | boolLit (tid : TypeId) (value : Bool)
  | nullLit (tid : TypeId)
  | ident (tid : TypeId) (name : String)
  | this (tid : TypeId)
  | super (tid : TypeId)
  | binary (tid : TypeId) (op : BinOp) (left right : Expr)
  | unary (tid : TypeId) (op : UnOp) (operand : Expr) (isPrefix : Bool)
  | assign (tid : TypeId) (op : AssignOp) (target value : Expr)
  | call (tid : TypeId) (callee : Expr) (args : List Expr)
  | member (tid : TypeId) (object : Expr) (member : String)
  | index (tid : TypeId) (object index : Expr)
  | new (tid : TypeId) (type : TypeExpr) (args : List Expr)
  | list (tid : TypeId) (elements : List Expr)
  | dict (tid : TypeId) (pairs : List DictPair)
  | lambda (tid : TypeId) (params : List Param) (body : List Stmt)
      (explicitRet : Option TypeExpr) (inferredRet : String)
  | await (tid : TypeId) (operand : Expr)

/-- One `key : value` entry of an `ast::DictExpr`. -/
inductive DictPair
  | mk (key value : Expr)

/-- One declarator of an `ast::VarDeclStmt`; the initialiser may be absent. -/
inductive VarItem
  | mk (name : String) (init : Option Expr)

/-- `ast::SwitchCase`; no value means `default`. -/
inductive SwitchCase
  | mk (value : Option Expr) (body : List Stmt)

/-- `ast::MatchArm`. -/
inductive MatchArm
  | mk (pattern : MatchPattern) (body : List Stmt)

/-- What may follow `else`. -/
inductive ElseBr
  | none
  | block (body : List Stmt)
  | elif (cond : Expr) (thenBr : List Stmt) (elseBr : ElseBr)

/-- `ast::Stmt` and its subclasses. -/
inductive Stmt
  | block (body : List Stmt)
  | expr (e : Expr)
  | varDecl (loc : SourceLoc) (type : TypeExpr) (isStatic isThreadLocal : Bool)
      (decls : List VarItem)
  | ifStmt (cond : Expr) (thenBr : List Stmt) (elseBr : ElseBr)
  | whileStmt (label : Option String) (cond : Expr) (body : List Stmt)
  | doWhile (body : List Stmt) (cond : Expr)
  | forIn (varType : TypeExpr) (varName : String) (iterable : Expr) (body : List Stmt)
  | forC (varType : TypeExpr) (varName : String) (init cond incr : Expr) (body : List Stmt)
  | switchStmt (e : Expr) (cases : List SwitchCase)
  | matchStmt (e : Expr) (arms : List MatchArm)
  | tryCatch (tryBody : List Stmt) (catchAll : Bool) (catchType : Option TypeExpr)
      (catchVar : Option String) (catchBody : List Stmt)
  | returnStmt (value : Option Expr)
  | breakStmt (label : Option String)
  | continueStmt (label : Option String)
  | assertStmt (cond : Expr)
  | deleteStmt (e : Expr)
  | defer (loc : SourceLoc) (body : List Stmt)
  | throwStmt (e : Expr)
  | unsafeStmt (body : List Stmt)

end

namespace Expr

/-- The `type_id` stored on the node. -/
def tid : Expr → TypeId
  | intLit t _ | longLit t _ | floatLit t _ | realLit t _ | stringLit t _
  | boolLit t _ | nullLit t | ident t _ | this t | super t
  | binary t _ _ _ | unary t _ _ _ | assign t _ _ _ | call t _ _ | member t _ _
  | index t _ _ | new t _ _ | list t _ | dict t _ | lambda t _ _ _ _
  | await t _ => t

/-- Overwrite the `type_id` of a node. -/
def setTid (t : TypeId) : Expr → Expr
  | intLit _ v => intLit t v
  | longLit _ v => longLit t v
  | floatLit _ v => floatLit t v
  | realLit _ v => realLit t v
  | stringLit _ v => stringLit t v
  | boolLit _ v => boolLit t v
  | nullLit _ => nullLit t
  | ident _ n => ident t n
  | this _ => this t
  | super _ => super t
  | binary _ o l r => binary t o l r
  | unary _ o e p => unary t o e p
  | assign _ o l r => assign t o l r
  | call _ c as => call t c as
  | member _ o m => member t o m
  | index _ o i => index t o i
  | new _ te as => new t te as
  | list _ es => list t es
  | dict _ ps => dict t ps
  | lambda _ ps b er ir => lambda t ps b er ir
  | await _ e => await t e

@[simp]
theorem tid_setTid (t : TypeId) (e : Expr) : (e.setTid t).tid = t := by
  cases e <;> rfl

end Expr

/-- `ast::InitEntry`: one entry of a constructor's initialiser list. -/
structure InitEntry where
  field : String
  args : List Expr

/-- `ast::FunctionDecl`.  Type parameters are gone after `expand_generics`. -/
structure FunctionDecl where
  loc : SourceLoc
  returnType : TypeExpr
  name : String
  params : List Param
  modifier : Option String := none
  body : Option (List Stmt)
  isCtor : Bool := false
  isDtor : Bool := false
  isStatic : Bool := false
  isAsync : Bool := false
  initList : List InitEntry := []

/-- `ast::FieldDecl`. -/
structure FieldDecl where
  type : TypeExpr
  name : String
  init : Option Expr := none
  isStatic : Bool := false

/-- The declarations a class or interface member can hold. -/
inductive ClassMember
  | func (f : FunctionDecl)
  | field (f : FieldDecl)

/-- `ast::ClassDecl`; access modifiers play no part after parsing. -/
structure ClassDecl where
  name : String
  bases : List String := []
  members : List ClassMember

/-- `ast::InterfaceDecl`. -/
structure InterfaceDecl where
  name : String
  members : List FunctionDecl

/-- `ast::EnumVariant`. -/
structure EnumVariant where
  name : String
  payload : List TypeExpr := []

/-- `ast::EnumDecl`. -/
structure EnumDecl where
  name : String
  variants : List EnumVariant

/-- `ast::ImportDecl`. -/
structure ImportDecl where
  path : String
  symbols : List String := []
  aliasName : String := ""
  globalScope : Bool := false

/-- `ast::ExternDecl`. -/
structure ExternDecl where
  ret : TypeExpr
  name : String
  params : List Param

/-- `ast::Decl` and its subclasses.  A file-level `namespace foo;` has neither
declarations nor statements and is a constructor of its own. -/
inductive Decl
  | func (f : FunctionDecl)
  | cls (c : ClassDecl)
  | iface (i : InterfaceDecl)
  | enum (e : EnumDecl)
  | importDecl (i : ImportDecl)
  | namespaceDecl (name : String) (decls : List Decl) (stmts : List Stmt)
  | packageDecl (name : String)
  | externDecl (e : ExternDecl)

/-- `ast::Program`. -/
structure Program where
  decls : List Decl
  stmts : List Stmt

end Dux
