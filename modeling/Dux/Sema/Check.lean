import Dux.Sema.Expr

/-!
# The checking pass

`check_expr`, `check_stmt` and `check_decl` of `src/sema/sema.cpp`.  The C++
functions write the type of an expression into its node; here they return the
annotated tree.
-/

namespace Dux.Sema

open TypeRegistry

section Brackets

variable {α : Type}

def inScope (check : M α) : M α := do
  push
  let a ← check
  pop
  return a

/-- Run a check in a changed state and put back what was changed. -/
def bracket (enter : State → State) (leave : State → State → State) (check : M α) : M α := do
  let saved ← get
  modify enter
  let a ← check
  modify (leave saved)
  return a

def insideLoop (check : M α) : M α :=
  bracket (fun s => { s with inLoop := true })
    (fun saved s => { s with inLoop := saved.inLoop }) check

def insideUnsafe (check : M α) : M α :=
  bracket (fun s => { s with inUnsafe := true })
    (fun saved s => { s with inUnsafe := saved.inUnsafe }) check

def insideAwait (check : M α) : M α :=
  bracket (fun s => { s with inAwait := true })
    (fun saved s => { s with inAwait := saved.inAwait }) check

/-- Run a check with another expected return type. -/
def returning (ret : TypeId) (check : M α) : M α :=
  bracket (fun s => { s with currentReturnType := ret })
    (fun saved s => { s with currentReturnType := saved.currentReturnType }) check

def insideClass (name : String) (type : TypeId) (check : M α) : M α :=
  bracket (fun s => { s with currentClassName := name, currentClassType := type })
    (fun saved s =>
      { s with currentClassName := saved.currentClassName,
               currentClassType := saved.currentClassType }) check

end Brackets

/-! ## Statements, the parts that do not recurse -/

/-- `Sema::check_return` once the value is checked. -/
def checkReturn (value : Option Expr) : M Unit := do
  let ret := (← get).currentReturnType
  match value with
  | some e => requireAssignable e.tid ret "return value"
  | none =>
      if ret ≠ TID_VOID ∧ ret ≠ TID_UNKNOWN then
        warn "missing return value in non-void function"

/-- The check of `check_var_decl` on the specifiers of a declaration. -/
def checkThreadLocal (isThreadLocal : Bool) : M Unit := do
  if isThreadLocal ∧ 1 < (← get).scopes.length then
    err "thread_local is only valid at module scope"

/-- The checks of `check_var_decl` on a declarator before its initialiser. -/
def checkDeclarator (isConst isThreadLocal : Bool) (name : String) (init : Option Expr) :
    M Unit := do
  if isConst ∧ init.isNone then
    err ("const variable '" ++ name ++ "' must have an initializer")
  if isThreadLocal ∧ init.any (!isLiteral ·) then
    err "thread_local initializer must be a compile-time constant"

/-- The type of a declarator and its entry in the scope, once the initialiser
is checked.  A lambda's own type replaces the declared one. -/
def defineVar (isConst : Bool) (declType : TypeId) (name : String) (init : Option Expr) :
    M Unit := do
  let varType ← match init with
    | some e =>
        if declType = TID_UNKNOWN ∨ isLambda e then pure e.tid
        else do
          requireAssignable e.tid declType ("variable '" ++ name ++ "' initialiser")
          pure declType
    | none => pure declType
  let isNew ← define name { name := name, kind := .var, type := varType, isConst := isConst }
  if !isNew then err ("variable '" ++ name ++ "' already declared in this scope")

/-- `Sema::check_for_in` between the iterable and the body. -/
def checkIterable (t : TypeId) : M Unit := do
  if t = TID_DICT ∨ t = TID_TUPLE ∨ t = TID_STR then
    err ("for-in requires a list or range; got '" ++ (← get).types.nameOf t ++ "'")

/-- Enter a loop variable. -/
def defineLoopVar (type : TypeExpr) (name : String) : M TypeId := do
  let t ← typeFromTe type
  let _ ← define name { name := name, kind := .var, type := t }
  return t

/-- The variants of the enum a pattern names. -/
def patternEnum (enumName : String) : M (Option (TypeId × List EnumVariantInfo)) := do
  match ← lookup enumName with
  | some sym =>
      let info := (← get).types.info sym.type
      return if info.kind = .enum then some (sym.type, info.variants) else none
  | none => return none

/-- The check of `check_match` on a pattern. -/
def checkPattern : MatchPattern → M Unit
  | .enumVariant enumName variantName _ => do
      match ← patternEnum enumName with
      | none => err ("'" ++ enumName ++ "' is not an enum type")
      | some (_, variants) =>
          if !variants.any (·.name = variantName) then
            err ("enum '" ++ enumName ++ "' has no variant '" ++ variantName ++ "'")
  | _ => return

/-- The payload bindings of a pattern, typed from position `i` on. -/
def defineBindings (payload : List TypeId) : Nat → List String → M Unit
  | _, [] => return
  | i, b :: bs => do
      let _ ← define b { name := b, kind := .var, type := payload.getD i TID_OBJECT }
      defineBindings payload (i + 1) bs

def definePattern : MatchPattern → M Unit
  | .enumVariant _ _ [] => return
  | .enumVariant enumName variantName bindings => do
      let variants := (← patternEnum enumName).elim [] (·.2)
      let payload := ((variants.find? (·.name = variantName)).map (·.payload)).getD []
      defineBindings payload 0 bindings
  | _ => return

/-- Types that can hold neither an enum value nor a bool. -/
def isNonEnum (t : TypeId) : Bool :=
  t = TID_STR ∨ t = TID_DOUBLE ∨ t = TID_REAL ∨ t = TID_LIST ∨ t = TID_DICT

/-- An arm whose enum is not the scrutinee's. -/
def checkPatternEnum (t : TypeId) : MatchPattern → M Unit
  | .enumVariant enumName _ _ => do
      match ← patternEnum enumName with
      | some (t', _) =>
          if t' ≠ t then
            err ("pattern enum '" ++ enumName ++ "' does not match scrutinee enum type")
      | none => return
  | _ => return

/-- Whether a pattern names an enum variant. -/
def isEnumPattern : MatchPattern → Bool
  | .enumVariant .. => true
  | _ => false

/-- Whether a pattern is a boolean literal. -/
def isBoolPattern : MatchPattern → Bool
  | .boolLit _ => true
  | _ => false

def armPattern : MatchArm → MatchPattern
  | .mk pattern _ => pattern

/-- The end of `check_match`: the scrutinee's type against the patterns. -/
def checkScrutinee (t : TypeId) (patterns : List MatchPattern) : M Unit := do
  if t ≠ TID_UNKNOWN then
    if patterns.any isEnumPattern ∧ isNonEnum t then
      err ("match expression type cannot hold an enum value " ++
        "but patterns use enum variants")
    if patterns.any isBoolPattern ∧ isNonEnum t then
      err ("match expression type cannot hold a bool " ++
        "but patterns use boolean literals")
    if patterns.any isEnumPattern ∧ ((← get).types.info t).kind = .enum then
      patterns.forM (checkPatternEnum t)

/-- Enter the variable of a `catch` clause. -/
def defineCatchVar (catchAll : Bool) (catchType : Option TypeExpr) (catchVar : Option String) :
    M Unit := do
  match catchAll, catchVar with
  | false, some name =>
      let t ← match catchType with
        | some te => typeFromTe te
        | none => pure TID_OBJECT
      let _ ← define name { name := name, kind := .var, type := t }
  | _, _ => return

/-! ## Expressions and statements -/

mutual

def checkExpr : Expr → M Expr
  | .intLit _ v => return .intLit TID_INT v
  | .longLit _ v => return .longLit TID_LONG v
  | .floatLit _ v => return .floatLit TID_DOUBLE v
  | .realLit _ v => return .realLit TID_REAL v
  | .stringLit _ v => return .stringLit TID_STR v
  | .boolLit _ v => return .boolLit TID_BOOL v
  | .nullLit _ => return .nullLit TID_NULL
  | .ident _ name => return .ident (← checkIdent name) name
  | .this _ => return .this (← checkThis)
  | .super _ => return .super (← checkSuper)
  | .binary _ op left right => do
      let left ← checkExpr left
      let right ← checkExpr right
      return .binary (← checkBinary op left right) op left right
  | .unary _ op operand isPrefix => do
      let operand ← checkExpr operand
      return .unary (← checkUnary op operand) op operand isPrefix
  | .assign _ op target value => do
      let value ← checkExpr value
      match ← checkAssignIdent op target value.tid with
      | some (target, t) => return .assign t op target value
      | none =>
          let target ← checkExpr target
          return .assign (← checkAssign op target.tid value.tid) op target value
  | .call _ callee args => do
      match identName callee with
      | some name =>
          match ← lookup name with
          | none =>
              err ("undefined function '" ++ name ++ "'")
              return .call TID_UNKNOWN callee (← checkExprs args)
          | some sym =>
              let callee' := callee.setTid sym.type
              if sym.kind = .function ∨ sym.kind = .builtIn then
                checkCallable sym args.length
                return .call sym.returnType callee' (← checkArgs sym 0 args)
              else
                let args' ← checkExprs args
                if sym.kind = .cls then return .call sym.type callee' args'
                else match ← closureType name with
                  | some t =>
                      -- the source checks the arguments a second time here
                      let args'' ← checkExprs args
                      return .call ((← get).types.info t).returnType callee' args''
                  | none => return .call TID_UNKNOWN callee' args'
      | none =>
          match stdlibCall callee with
          | some t => return .call t callee (← checkExprs args)
          | none =>
              let callee ← checkExpr callee
              return .call TID_UNKNOWN callee (← checkExprs args)
  | .member _ object member => do
      match ← checkEnumMember object member with
      | some t =>
          return .member t (if t = TID_UNKNOWN then object else object.setTid t) member
      | none =>
          let object ← checkExpr object
          return .member (← checkMember object member) object member
  | .index _ object index => do
      let object ← checkExpr object
      let index ← checkExpr index
      return .index (← checkIndex object index) object index
  | .new _ type args => do
      let t ← checkNew type
      return .new t type (← checkExprs args)
  | .list _ elements => return .list TID_LIST (← checkExprs elements)
  | .dict _ pairs => return .dict TID_DICT (← checkPairs pairs)
  | .lambda _ params body explicitRet _ => do
      let body ← inScope do
        defineParams .var params
        returning TID_UNKNOWN (checkStmts body)
      let (t, inferredRet) ← checkLambda params body explicitRet
      return .lambda t params body explicitRet inferredRet
  | .await _ operand => do
      let operand ← insideAwait (checkExpr operand)
      return .await operand.tid operand

def checkExprs : List Expr → M (List Expr)
  | [] => return []
  | e :: es => do
      let e ← checkExpr e
      return e :: (← checkExprs es)

/-- The arguments of a callable symbol, from position `i` on. -/
def checkArgs (sym : Symbol) (i : Nat) : List Expr → M (List Expr)
  | [] => return []
  | e :: es => do
      let e ← checkExpr e
      checkArg sym i e
      return e :: (← checkArgs sym (i + 1) es)

/-- `Sema::check_dict`, one entry. -/
def checkPair : DictPair → M DictPair
  | .mk key value => do
      let key ← checkExpr key
      return .mk key (← checkExpr value)

/-- `Sema::check_dict`. -/
def checkPairs : List DictPair → M (List DictPair)
  | [] => return []
  | p :: ps => do
      let p ← checkPair p
      return p :: (← checkPairs ps)

/-- A subexpression that may be absent. -/
def checkOpt : Option Expr → M (Option Expr)
  | none => return none
  | some e => return some (← checkExpr e)

def checkStmt : Stmt → M Stmt
  | .block body => return .block (← inScope (checkStmts body))
  | .expr e => return .expr (← checkExpr e)
  | .varDecl loc type isStatic isThreadLocal decls => do
      if type.name = "__fn" then
        err ("fn type cannot be used as a variable type; " ++
          "use: auto name = fn(params) -> type => ...")
        return .varDecl loc type isStatic isThreadLocal decls
      else
        let declType ← typeFromTe type
        checkThreadLocal isThreadLocal
        return .varDecl loc type isStatic isThreadLocal
          (← checkVarItems type.isConst isThreadLocal declType decls)
  | .ifStmt cond thenBr elseBr => do
      let cond ← checkExpr cond
      requireBool cond.tid "if condition"
      let thenBr ← inScope (checkStmts thenBr)
      return .ifStmt cond thenBr (← checkElse elseBr)
  | .whileStmt label cond body => do
      let cond ← checkExpr cond
      requireBool cond.tid "while condition"
      return .whileStmt label cond (← insideLoop (inScope (checkStmts body)))
  | .doWhile body cond => do
      let body ← insideLoop (inScope (checkStmts body))
      let cond ← checkExpr cond
      requireBool cond.tid "do-while condition"
      return .doWhile body cond
  | .forIn varType varName iterable body => do
      let iterable ← checkExpr iterable
      checkIterable iterable.tid
      let body ← inScope do
        let _ ← defineLoopVar varType varName
        insideLoop (inScope (checkStmts body))
      return .forIn varType varName iterable body
  | .forC varType varName init cond incr body => inScope do
      let t ← defineLoopVar varType varName
      let init ← checkExpr init
      requireAssignable init.tid t "for init"
      let cond ← checkExpr cond
      let incr ← checkExpr incr
      return .forC varType varName init cond incr (← insideLoop (inScope (checkStmts body)))
  | .switchStmt e cases => do
      let e ← checkExpr e
      return .switchStmt e (← insideLoop (checkCases cases))
  | .matchStmt e arms => do
      let e ← checkExpr e
      let arms' ← checkArms arms
      checkScrutinee e.tid (arms.map armPattern)
      return .matchStmt e arms'
  | .tryCatch tryBody catchAll catchType catchVar catchBody => do
      let tryBody ← inScope (checkStmts tryBody)
      let catchBody ← inScope do
        defineCatchVar catchAll catchType catchVar
        inScope (checkStmts catchBody)
      return .tryCatch tryBody catchAll catchType catchVar catchBody
  | .returnStmt value => do
      let value ← checkOpt value
      checkReturn value
      return .returnStmt value
  | .breakStmt label => do
      if !(← get).inLoop then err "'break' outside of loop"
      return .breakStmt label
  | .continueStmt label => do
      if !(← get).inLoop then err "'continue' outside of loop"
      return .continueStmt label
  | .assertStmt cond => do
      let cond ← checkExpr cond
      requireBool cond.tid "assert"
      return .assertStmt cond
  | .deleteStmt e => do
      let e ← checkExpr e
      if e.tid ≠ TID_UNKNOWN ∧ isNumeric e.tid then
        warn "'delete' on numeric value — did you mean a pointer?"
      return .deleteStmt e
  | .defer loc body => return .defer loc (← checkStmts body)
  | .throwStmt e => return .throwStmt (← checkExpr e)
  | .unsafeStmt body => return .unsafeStmt (← insideUnsafe (checkStmts body))

def checkStmts : List Stmt → M (List Stmt)
  | [] => return []
  | s :: ss => do
      let s ← checkStmt s
      return s :: (← checkStmts ss)

def checkElse : ElseBr → M ElseBr
  | .none => return .none
  | .block body => return .block (← inScope (checkStmts body))
  | .elif cond thenBr elseBr => do
      let cond ← checkExpr cond
      requireBool cond.tid "if condition"
      let thenBr ← inScope (checkStmts thenBr)
      return .elif cond thenBr (← checkElse elseBr)

/-- One declarator of `Sema::check_var_decl`. -/
def checkVarItem (isConst isThreadLocal : Bool) (declType : TypeId) : VarItem → M VarItem
  | .mk name init => do
      checkDeclarator isConst isThreadLocal name init
      let init ← checkOpt init
      defineVar isConst declType name init
      return .mk name init

/-- The loop of `Sema::check_var_decl`. -/
def checkVarItems (isConst isThreadLocal : Bool) (declType : TypeId) :
    List VarItem → M (List VarItem)
  | [] => return []
  | d :: ds => do
      let d ← checkVarItem isConst isThreadLocal declType d
      return d :: (← checkVarItems isConst isThreadLocal declType ds)

def checkCase : SwitchCase → M SwitchCase
  | .mk value body => do
      let value ← checkOpt value
      return .mk value (← inScope (checkStmts body))

def checkCases : List SwitchCase → M (List SwitchCase)
  | [] => return []
  | c :: cs => do
      let c ← checkCase c
      return c :: (← checkCases cs)

def checkArm : MatchArm → M MatchArm
  | .mk pattern body => do
      checkPattern pattern
      let body ← inScope do
        definePattern pattern
        checkStmts body
      return .mk pattern body

def checkArms : List MatchArm → M (List MatchArm)
  | [] => return []
  | a :: as => do
      let a ← checkArm a
      return a :: (← checkArms as)

end

/-! ## Declarations -/

/-- The symbols `this` and `super` of an instance method. -/
def defineThis : M Unit := do
  let s ← get
  let _ ← define "this" { name := "this", kind := .var, type := s.currentClassType }
  let parent := (s.types.info s.currentClassType).parent
  if parent ≠ TID_UNKNOWN ∧ 0 ≤ parent then
    let _ ← define "super" { name := "super", kind := .var, type := parent }

/-- `Sema::check_func`.  Initialiser lists are not checked. -/
def checkFunc (f : FunctionDecl) : M FunctionDecl := do
  let ret ← typeFromTe f.returnType
  inScope do
    if (← get).currentClassName ≠ "" ∧ !f.isStatic then defineThis
    defineParams .param f.params
    let body ← returning ret do
      match f.body with
      | some body => return some (← checkStmts body)
      | none => return none
    return { f with body := body }

/-- The first loop of `check_class`: known bases become the parent in turn. -/
def checkBases (type : TypeId) : List String → M Unit
  | [] => return
  | base :: bases => do
      match ← lookup base with
      | none => warn ("unknown base class '" ++ base ++ "', treating as object")
      | some sym =>
          if sym.kind ≠ .cls ∧ sym.kind ≠ .interface then
            warn ("'" ++ base ++ "' is not a class or interface")
          else setParent type sym.type
      checkBases type bases

/-- Whether a class defines a method of that name itself. -/
def definesMethod (c : ClassDecl) (name : String) : Bool :=
  c.members.any fun
    | .func f => !f.isCtor && !f.isDtor && f.name = name
    | .field _ => false

/-- Every interface method must be defined by the class itself. -/
def checkContract (c : ClassDecl) (base : String) : List FunctionDecl → M Unit
  | [] => return
  | f :: fs => do
      if !definesMethod c f.name then
        err ("class '" ++ c.name ++ "' implements interface '" ++ base ++
          "' but does not define method '" ++ f.name ++ "'")
      checkContract c base fs

/-- The second loop of `check_class` over the bases. -/
def checkContracts (c : ClassDecl) : List String → M Unit
  | [] => return
  | base :: bases => do
      match ← lookup base with
      | some { kind := .interface, decl := .iface i, .. } => checkContract c base i.members
      | _ => pure ()
      checkContracts c bases

/-- Enter the members of a class into its scope. -/
def defineMembers : List ClassMember → M Unit
  | [] => return
  | .func f :: ms => do
      let ret ← typeFromTe f.returnType
      let params ← typesOfParams f.params
      let _ ← define f.name
        { name := f.name, kind := .function, type := ret, returnType := ret, params := params,
          decl := .other }
      defineMembers ms
  | .field f :: ms => do
      let t ← typeFromTe f.type
      let _ ← define f.name { name := f.name, kind := .var, type := t, decl := .other }
      defineMembers ms

def checkField (f : FieldDecl) : M FieldDecl := do
  match f.init with
  | none => return f
  | some init =>
      let init ← checkExpr init
      let t ← typeFromTe f.type
      requireAssignable init.tid t ("field '" ++ f.name ++ "' initialiser")
      return { f with init := some init }

/-- The last loop of `check_class`. -/
def checkMembers : List ClassMember → M (List ClassMember)
  | [] => return []
  | .func f :: ms => do
      let f ← checkFunc f
      return .func f :: (← checkMembers ms)
  | .field f :: ms => do
      let f ← checkField f
      return .field f :: (← checkMembers ms)

def checkClass (c : ClassDecl) : M ClassDecl := do
  let type := (← get).types.fromName c.name
  checkBases type c.bases
  checkContracts c c.bases
  insideClass c.name type do
    inScope do
      defineMembers c.members
      return { c with members := ← checkMembers c.members }

def checkInterface : List FunctionDecl → M Unit
  | [] => return
  | f :: fs => do
      let ret ← typeFromTe f.returnType
      if ret = TID_UNKNOWN ∧ f.returnType.name ≠ "" then
        warn ("interface method '" ++ f.name ++ "': unknown return type '" ++
          f.returnType.name ++ "'")
      checkInterface fs

/-- The part of a dotted path after its last dot. -/
def lastComponent (path : String) : String := (path.splitOn ".").getLastD path

/-- `Sema::check_import`: a standard module gets a namespace symbol. -/
def checkImport (imp : ImportDecl) : M Unit := do
  let last := lastComponent imp.path
  if last ∈ ["math", "str", "io"] then
    let name := if imp.aliasName = "" then last else imp.aliasName
    if (← lookup name).isNone then
      let _ ← define name { name := name, kind := .namespace, type := TID_OBJECT }

mutual

/-- `Sema::check_decl`.  Enums and externs were finished by hoisting. -/
def checkDecl : Decl → M Decl
  | .func f => return .func (← checkFunc f)
  | .cls c => return .cls (← checkClass c)
  | .iface i => do
      checkInterface i.members
      return .iface i
  | .namespaceDecl name decls stmts => inScope do
      hoistTop decls
      let decls ← checkDecls decls
      return .namespaceDecl name decls (← checkStmts stmts)
  | .importDecl i => do
      checkImport i
      return .importDecl i
  | .enum e => return .enum e
  | .packageDecl name => return .packageDecl name
  | .externDecl e => return .externDecl e

def checkDecls : List Decl → M (List Decl)
  | [] => return []
  | d :: ds => do
      let d ← checkDecl d
      return d :: (← checkDecls ds)

end

/-- `Sema::run`, from the state the constructor leaves. -/
def run (prog : Program) : M Program := do
  hoistTop prog.decls
  let decls ← checkDecls prog.decls
  return ⟨decls, ← checkStmts prog.stmts⟩

/-- Analysis lets a program through as `prog'`, in the final state `s`. -/
def Accepts (prog prog' : Program) (s : State) : Prop :=
  (run prog).run .initial = some (prog', s) ∧ s.errors = []

theorem exists_accepts (prog : Program) (holds : Program → State → Bool)
    (evaluates : ((run prog).run .initial).any
      (fun result => result.2.errors = [] && holds result.1 result.2) = true) :
    ∃ prog' s, Accepts prog prog' s ∧ holds prog' s = true := by
  obtain ⟨⟨prog', s⟩, returns, passes⟩ := Option.any_eq_true _ _ |>.1 evaluates
  rw [Bool.and_eq_true, decide_eq_true_iff] at passes
  exact ⟨prog', s, ⟨returns, passes.1⟩, passes.2⟩

end Dux.Sema
