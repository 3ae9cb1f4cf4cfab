import Dux.Sema.Helpers

/-!
# The places that the checking pass comes to

The calls, the assignments and the increments of a program, in the order in which
`check_expr` and `check_stmt` (`src/sema/sema.cpp`) come to them, each with what the
analysis knows there.
-/

namespace Dux.Sema

open TypeRegistry

/-- Where an expression stands: under no `await`, as the operand of one, or elsewhere
below one, be it in a lambda. -/
inductive Place
  | outside
  | operand
  | below
  deriving DecidableEq, Repr

/-- Where the parts of an expression stand. -/
def Place.inner : Place → Place
  | .outside => .outside
  | .operand => .below
  | .below => .below

/-- Whether there is an `await` around. -/
def Place.awaits : Place → Bool
  | .outside => false
  | .operand => true
  | .below => true

/-- What is around: besides the place, whether the function is a constructor, and for each
scope of the function the names that its header declares constant, innermost first. -/
structure Context where
  place : Place := .outside
  inCtor : Bool := false
  headers : List (List String) := []

namespace Context

/-- Outside of functions. -/
def outside : Context := {}

/-- Around the parts of an expression. -/
def inner (ctx : Context) : Context := { ctx with place := ctx.place.inner }

/-- Around the operand of an `await`. -/
def awaited (ctx : Context) : Context := { ctx with place := .operand }

/-- In a scope with these constants in its header. -/
def enter (ctx : Context) (names : List String) : Context :=
  { ctx with headers := names :: ctx.headers }

/-- In a scope without a header. -/
def nested (ctx : Context) : Context := ctx.enter []

end Context

/-- The constant that a header declares with one variable. -/
def constHeader (type : TypeExpr) (name : String) : List String :=
  if type.isConst then [name] else []

/-- The constants that parameters declare. -/
def constParams (params : List Param) : List String :=
  params.flatMap fun p => constHeader p.type p.name

/-- The constant that a `catch` declares. -/
def constCatch : Option TypeExpr → Option String → List String
  | some type, some name => constHeader type name
  | _, _ => []

/-- A place of the program with what is around and the state there: a function that is
called by its name, another callee, the target of an assignment before and after it is
checked itself, and an operand of a unary operator. -/
inductive Site
  | named (ctx : Context) (sym : Symbol) (s : State)
  | called (ctx : Context) (callee : Expr) (s : State)
  | target (ctx : Context) (op : AssignOp) (e : Expr) (s : State)
  | assigned (ctx : Context) (op : AssignOp) (e : Expr) (s : State)
  | operand (ctx : Context) (op : UnOp) (e : Expr) (s : State)

/-- The sites at which the analysis only passes by. -/
def Site.isPassed : Site → Bool
  | .named .. => false
  | .called .. => true
  | .target .. => false
  | .assigned .. => true
  | .operand .. => true

/-- What a part of the analysis comes to from a state. -/
abbrev Trail := State → List Site

namespace Trail

def nothing : Trail := fun _ => []

/-- A site before others. -/
def cons (site : State → Site) (trail : Trail) : Trail := fun s => site s :: trail s

def one (site : State → Site) : Trail := nothing.cons site

/-- What comes behind a computation. -/
def after {α : Type} (m : M α) (next : α → Trail) : Trail := fun s =>
  match m.run s with
  | some (a, s') => next a s'
  | .none => []

/-- What a computation comes to, and what comes behind it. -/
def seq {α : Type} (trail : Trail) (m : M α) (next : α → Trail) : Trail := fun s =>
  trail s ++ after m next s

/-- From another state. -/
def enter (trail : Trail) (enter : State → State) : Trail := fun s => trail (enter s)

/-- In a scope of its own. -/
def inScope (trail : Trail) : Trail := trail.enter fun s => { s with scopes := [] :: s.scopes }

def looped (trail : Trail) : Trail := trail.enter fun s => { s with inLoop := true }

/-- Where another type is to be returned. -/
def returning (ret : TypeId) (trail : Trail) : Trail :=
  trail.enter fun s => { s with currentReturnType := ret }

end Trail

open Trail (after one)

mutual

def sitesExpr (ctx : Context) : Expr → Trail
  | .intLit .. | .longLit .. | .floatLit .. | .realLit .. | .stringLit .. | .boolLit ..
  | .nullLit _ | .ident .. | .this _ | .super _ => .nothing
  | .binary _ _ left right =>
      (sitesExpr ctx.inner left).seq (checkExpr left) fun _ => sitesExpr ctx.inner right
  | .unary _ op operand _ =>
      (sitesExpr ctx.inner operand).seq (checkExpr operand) fun operand =>
        one (.operand ctx op operand)
  | .assign _ op target value =>
      (sitesExpr ctx.inner value).seq (checkExpr value) fun value =>
        (one (.target ctx op target)).seq (checkAssignIdent op target value.tid) fun
          | some _ => .nothing
          | none =>
              (sitesExpr ctx.inner target).seq (checkExpr target) fun target =>
                one (.assigned ctx op target)
  | .call _ callee args =>
      match identName callee with
      | some name =>
          after (lookup name) fun
            | none =>
                after (err ("undefined function '" ++ name ++ "'")) fun _ =>
                  sitesExprs ctx.inner args
            | some sym =>
                if sym.kind = .function ∨ sym.kind = .builtIn then
                  (one (.named ctx sym)).seq (checkCallable sym args.length) fun _ =>
                    sitesArgs ctx.inner sym 0 args
                else
                  (sitesExprs ctx.inner args).seq (checkExprs args) fun _ =>
                    if sym.kind = .cls then .nothing
                    else
                      after (closureType name) fun
                        | some _ => sitesExprs ctx.inner args
                        | none => .nothing
      | none =>
          match stdlibCall callee with
          | some _ => (sitesExprs ctx.inner args).cons (.called ctx callee)
          | none =>
              (sitesExpr ctx.inner callee).seq (checkExpr callee) fun callee =>
                (sitesExprs ctx.inner args).cons (.called ctx callee)
  | .member _ object member =>
      after (checkEnumMember object member) fun
        | some _ => .nothing
        | none => sitesExpr ctx.inner object
  | .index _ object index =>
      (sitesExpr ctx.inner object).seq (checkExpr object) fun _ => sitesExpr ctx.inner index
  | .new _ type args => after (checkNew type) fun _ => sitesExprs ctx.inner args
  | .list _ elements => sitesExprs ctx.inner elements
  | .dict _ pairs => sitesPairs ctx.inner pairs
  | .lambda _ params body _ _ =>
      (after (defineParams .var params) fun _ =>
        (sitesStmts (ctx.inner.enter (constParams params)) body).returning TID_UNKNOWN).inScope
  | .await _ operand => (sitesExpr ctx.awaited operand).enter fun s => { s with inAwait := true }

def sitesExprs (ctx : Context) : List Expr → Trail
  | [] => .nothing
  | e :: es => (sitesExpr ctx e).seq (checkExpr e) fun _ => sitesExprs ctx es

/-- The sites of the arguments of a callable symbol. -/
def sitesArgs (ctx : Context) (sym : Symbol) (i : Nat) : List Expr → Trail
  | [] => .nothing
  | e :: es =>
      (sitesExpr ctx e).seq (checkExpr e) fun e =>
        after (checkArg sym i e) fun _ => sitesArgs ctx sym (i + 1) es

def sitesPair (ctx : Context) : DictPair → Trail
  | .mk key value => (sitesExpr ctx key).seq (checkExpr key) fun _ => sitesExpr ctx value

def sitesPairs (ctx : Context) : List DictPair → Trail
  | [] => .nothing
  | p :: ps => (sitesPair ctx p).seq (checkPair p) fun _ => sitesPairs ctx ps

def sitesOpt (ctx : Context) : Option Expr → Trail
  | none => .nothing
  | some e => sitesExpr ctx e

/-- The sites of a statement; it stands in a lambda below an `await`, or outside. -/
def sitesStmt (ctx : Context) : Stmt → Trail
  | .block body => (sitesStmts ctx.nested body).inScope
  | .expr e => sitesExpr ctx e
  | .varDecl _ type _ isThreadLocal decls =>
      if type.name = "__fn" then .nothing
      else
        after (typeFromTe type) fun declType =>
          after (checkThreadLocal isThreadLocal) fun _ =>
            sitesItems ctx type.isConst isThreadLocal declType decls
  | .ifStmt cond thenBr elseBr =>
      (sitesExpr ctx cond).seq (checkExpr cond) fun cond =>
        after (requireBool cond.tid "if condition") fun _ =>
          (sitesStmts ctx.nested thenBr).inScope.seq (inScope (checkStmts thenBr)) fun _ =>
            sitesElse ctx elseBr
  | .whileStmt _ cond body =>
      (sitesExpr ctx cond).seq (checkExpr cond) fun cond =>
        after (requireBool cond.tid "while condition") fun _ =>
          (sitesStmts ctx.nested body).inScope.looped
  | .doWhile body cond =>
      (sitesStmts ctx.nested body).inScope.looped.seq
        (insideLoop (inScope (checkStmts body))) fun _ => sitesExpr ctx cond
  | .forIn varType varName iterable body =>
      (sitesExpr ctx iterable).seq (checkExpr iterable) fun iterable =>
        after (checkIterable iterable.tid) fun _ =>
          (after (defineLoopVar varType varName) fun _ =>
            (sitesStmts (ctx.enter (constHeader varType varName)).nested
              body).inScope.looped).inScope
  | .forC varType varName init cond incr body =>
      let ctx := ctx.enter (constHeader varType varName)
      (after (defineLoopVar varType varName) fun t =>
        (sitesExpr ctx init).seq (checkExpr init) fun init =>
          after (requireAssignable init.tid t "for init") fun _ =>
            (sitesExpr ctx cond).seq (checkExpr cond) fun _ =>
              (sitesExpr ctx incr).seq (checkExpr incr) fun _ =>
                (sitesStmts ctx.nested body).inScope.looped).inScope
  | .switchStmt e cases =>
      (sitesExpr ctx e).seq (checkExpr e) fun _ => (sitesCases ctx cases).looped
  | .matchStmt e arms => (sitesExpr ctx e).seq (checkExpr e) fun _ => sitesArms ctx arms
  | .tryCatch tryBody catchAll catchType catchVar catchBody =>
      (sitesStmts ctx.nested tryBody).inScope.seq (inScope (checkStmts tryBody)) fun _ =>
        (after (defineCatchVar catchAll catchType catchVar) fun _ =>
          (sitesStmts (ctx.enter (constCatch catchType catchVar)).nested catchBody).inScope).inScope
  | .returnStmt value => sitesOpt ctx value
  | .breakStmt _ | .continueStmt _ => .nothing
  | .assertStmt cond => sitesExpr ctx cond
  | .deleteStmt e => sitesExpr ctx e
  | .defer _ body => sitesStmts ctx body
  | .throwStmt e => sitesExpr ctx e
  | .unsafeStmt body => (sitesStmts ctx body).enter fun s => { s with inUnsafe := true }

def sitesStmts (ctx : Context) : List Stmt → Trail
  | [] => .nothing
  | s :: ss => (sitesStmt ctx s).seq (checkStmt s) fun _ => sitesStmts ctx ss

def sitesElse (ctx : Context) : ElseBr → Trail
  | .none => .nothing
  | .block body => (sitesStmts ctx.nested body).inScope
  | .elif cond thenBr elseBr =>
      (sitesExpr ctx cond).seq (checkExpr cond) fun cond =>
        after (requireBool cond.tid "if condition") fun _ =>
          (sitesStmts ctx.nested thenBr).inScope.seq (inScope (checkStmts thenBr)) fun _ =>
            sitesElse ctx elseBr

def sitesItem (ctx : Context) (isConst isThreadLocal : Bool) : VarItem → Trail
  | .mk name init =>
      after (checkDeclarator isConst isThreadLocal name init) fun _ => sitesOpt ctx init

def sitesItems (ctx : Context) (isConst isThreadLocal : Bool) (declType : TypeId) :
    List VarItem → Trail
  | [] => .nothing
  | d :: ds =>
      (sitesItem ctx isConst isThreadLocal d).seq
        (checkVarItem isConst isThreadLocal declType d) fun _ =>
          sitesItems ctx isConst isThreadLocal declType ds

def sitesCase (ctx : Context) : SwitchCase → Trail
  | .mk value body =>
      (sitesOpt ctx value).seq (checkOpt value) fun _ => (sitesStmts ctx.nested body).inScope

def sitesCases (ctx : Context) : List SwitchCase → Trail
  | [] => .nothing
  | c :: cs => (sitesCase ctx c).seq (checkCase c) fun _ => sitesCases ctx cs

def sitesArm (ctx : Context) : MatchArm → Trail
  | .mk pattern body =>
      after (checkPattern pattern) fun _ =>
        (after (definePattern pattern) fun _ => sitesStmts ctx.nested body).inScope

def sitesArms (ctx : Context) : List MatchArm → Trail
  | [] => .nothing
  | a :: as => (sitesArm ctx a).seq (checkArm a) fun _ => sitesArms ctx as

end

/-! ## Declarations -/

/-- What is collected of a function, of a field and of the statements of a namespace or
program. -/
structure Collector where
  func : FunctionDecl → TypeId → Trail
  field : FieldDecl → Trail
  stmts : List Stmt → Trail

/-- Around the body of a function. -/
def around (f : FunctionDecl) : Context where
  inCtor := f.isCtor
  headers := [constParams f.params]

def sitesBody (f : FunctionDecl) (ret : TypeId) : Trail :=
  match f.body with
  | some body => (sitesStmts (around f) body).returning ret
  | none => .nothing

/-- What the analysis comes to. -/
def Collector.checked : Collector where
  func := sitesBody
  field f := sitesOpt .outside f.init
  stmts := sitesStmts .outside

/-- What it would come to in the initialiser lists of constructors, where it does not
look. -/
def Collector.initialisers : Collector where
  func f _ := sitesExprs (around f) (f.initList.flatMap (·.args))
  field _ := .nothing
  stmts _ := .nothing

/-- The start of `check_func` in the scope of the function. -/
def bindThis (f : FunctionDecl) : M Unit := do
  if (← get).currentClassName ≠ "" ∧ !f.isStatic then defineThis

variable (collect : Collector)

def sitesFunc (f : FunctionDecl) : Trail :=
  after (typeFromTe f.returnType) fun ret =>
    (after (bindThis f) fun _ => after (defineParams .param f.params) fun _ =>
      collect.func f ret).inScope

def sitesMembers : List ClassMember → Trail
  | [] => .nothing
  | .func f :: ms => (sitesFunc collect f).seq (checkFunc f) fun _ => sitesMembers ms
  | .field f :: ms => (collect.field f).seq (checkField f) fun _ => sitesMembers ms

def sitesClass (c : ClassDecl) : Trail :=
  after get fun s =>
    after (checkBases (s.types.fromName c.name) c.bases) fun _ =>
      after (checkContracts c c.bases) fun _ =>
        (after (defineMembers c.members) fun _ => sitesMembers collect c.members).inScope.enter
          fun s' => { s' with currentClassName := c.name
                              currentClassType := s.types.fromName c.name }

mutual

def sitesDecl : Decl → Trail
  | .func f => sitesFunc collect f
  | .cls c => sitesClass collect c
  | .namespaceDecl _ decls stmts =>
      (after (hoistTop decls) fun _ =>
        (sitesDecls decls).seq (checkDecls decls) fun _ => collect.stmts stmts).inScope
  | .iface _ | .importDecl _ | .enum _ | .packageDecl _ | .externDecl _ => .nothing

def sitesDecls : List Decl → Trail
  | [] => .nothing
  | d :: ds => (sitesDecl d).seq (checkDecl d) fun _ => sitesDecls ds

end

def sitesOf (prog : Program) : List Site :=
  after (hoistTop prog.decls) (fun _ =>
    (sitesDecls collect prog.decls).seq (checkDecls prog.decls) fun _ =>
      collect.stmts prog.stmts) .initial

end Dux.Sema
