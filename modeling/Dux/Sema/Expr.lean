import Dux.Sema.Hoist

/-!
# Checks on expressions

The parts of `check_expr` that do not recurse (`src/sema/sema.cpp`).  Each is
given the checked subexpressions and returns the type of the node.
-/

namespace Dux.Sema

open TypeRegistry

/-- The text of a binary operator. -/
def opText : BinOp → String
  | .add => "+" | .sub => "-" | .mul => "*" | .div => "/" | .mod => "%"
  | .eq => "==" | .ne => "!=" | .lt => "<" | .gt => ">" | .le => "<=" | .ge => ">="
  | .and => "&&" | .or => "||" | .rangeExcl => "..<" | .rangeIncl => "..="

/-- `op_methods`: the methods that overload binary operators. -/
def opMethod : BinOp → Option String
  | .add => some "operator__add" | .sub => some "operator__sub"
  | .mul => some "operator__mul" | .div => some "operator__div"
  | .eq => some "operator__eq" | .ne => some "operator__ne"
  | .lt => some "operator__lt" | .le => some "operator__le"
  | .gt => some "operator__gt" | .ge => some "operator__ge"
  | _ => none

/-- The method of that name a class itself declares. -/
def ownMethod (c : ClassDecl) (name : String) : Option FunctionDecl :=
  c.members.findSome? fun
    | .func f => if f.name = name then some f else none
    | .field _ => none

def classHasMember (c : ClassDecl) (member : String) : Bool :=
  c.members.any fun
    | .func f => f.name = member
    | .field f => f.name = member

/-- The name of an identifier expression. -/
def identName : Expr → Option String
  | .ident _ name => some name
  | _ => none

/-- Whether an expression is `this`. -/
def isThis : Expr → Bool
  | .this _ => true
  | _ => false

/-- Whether an expression is a lambda. -/
def isLambda : Expr → Bool
  | .lambda .. => true
  | _ => false

/-- Whether an expression is a literal, as `thread_local` initialisers must be. -/
def isLiteral : Expr → Bool
  | .intLit .. | .longLit .. | .floatLit .. | .realLit .. | .stringLit ..
  | .boolLit .. | .nullLit .. => true
  | _ => false

/-- The method an operator on `obj` is dispatched to, looked up through the
name of the operand's type. -/
def overload (obj : Expr) (method : String) : M (Option FunctionDecl) := do
  let s ← get
  let cls :=
    if s.types.nameOf obj.tid = "" then
      match (identName obj).bind (lookupScopes s.scopes) with
      | some sym => s.types.nameOf sym.type
      | none => ""
    else s.types.nameOf obj.tid
  if cls = "" then return none
  match lookupScopes s.scopes cls with
  | some { kind := .cls, decl := .cls c, .. } => return ownMethod c method
  | _ => return none

/-- `check_binary` once no operator method applies. -/
def checkPrimitiveBinary (op : BinOp) (l r : TypeId) : M TypeId := do
  let types := (← get).types
  match op with
  | .add | .sub | .mul | .div | .mod =>
      if op = .add ∧ (l = TID_STR ∨ r = TID_STR) then
        if l ≠ TID_STR ∧ l ≠ TID_OBJECT then
          warn ("'+' with str: left operand is '" ++ types.nameOf l ++ "'")
        if r ≠ TID_STR ∧ r ≠ TID_OBJECT then
          warn ("'+' with str: right operand is '" ++ types.nameOf r ++ "'")
        return TID_STR
      else if op = .add ∧ (l = TID_LIST ∨ r = TID_LIST) then
        if l ≠ TID_LIST then
          warn ("'+' with list: left operand is '" ++ types.nameOf l ++ "'")
        if r ≠ TID_LIST then
          warn ("'+' with list: right operand is '" ++ types.nameOf r ++ "'")
        return TID_LIST
      else
        requireNumeric l ("'" ++ opText op ++ "' left operand")
        requireNumeric r ("'" ++ opText op ++ "' right operand")
        types.unify l r
  | .eq | .ne | .lt | .gt | .le | .ge =>
      if l ≠ TID_UNKNOWN ∧ r ≠ TID_UNKNOWN then
        if !(← types.assignable l r) then
          if !(← types.assignable r l) then
            warn ("comparing '" ++ types.nameOf l ++ "' with '" ++ types.nameOf r ++ "'")
      return TID_BOOL
  | .and | .or =>
      requireBool l ("'" ++ opText op ++ "' left operand")
      requireBool r ("'" ++ opText op ++ "' right operand")
      return TID_BOOL
  | .rangeExcl | .rangeIncl =>
      requireNumeric l "range start"
      requireNumeric r "range end"
      return TID_OBJECT

def checkBinary (op : BinOp) (left right : Expr) : M TypeId := do
  match opMethod op with
  | some method =>
      match ← overload left method with
      | some f => typeFromTe f.returnType
      | none => checkPrimitiveBinary op left.tid right.tid
  | none => checkPrimitiveBinary op left.tid right.tid

def checkUnary (op : UnOp) (operand : Expr) : M TypeId := do
  let t := operand.tid
  match op with
  | .not =>
      requireBool t "'!' operand"
      return TID_BOOL
  | .neg =>
      requireNumeric t "'-' operand"
      return t
  | .plus =>
      requireNumeric t "'+' operand"
      return t
  | .bitNot =>
      if !isIntegral t ∧ t ≠ TID_UNKNOWN then
        err ("'~' requires integral operand, got '" ++ (← get).types.nameOf t ++ "'")
      return t
  | .inc =>
      requireNumeric t "'++' operand"
      return t
  | .dec =>
      requireNumeric t "'--' operand"
      return t

/-- The cases of `check_assign` that do not look into the target: an implicit
declaration, and the guard on constants. -/
def checkAssignIdent (op : AssignOp) (target : Expr) (rhs : TypeId) :
    M (Option (Expr × TypeId)) := do
  match identName target with
  | none => return none
  | some name =>
      match ← lookup name with
      | none =>
          if op = .assign then
            let _ ← define name { name := name, kind := .var, type := rhs }
            return some (target.setTid rhs, rhs)
          else return none
      | some sym =>
          if sym.isConst then
            err ("cannot assign to const variable '" ++ name ++ "'")
            return some (target, sym.type)
          else return none

/-- `Sema::check_assign` once the target is checked. -/
def checkAssign (op : AssignOp) (lhs rhs : TypeId) : M TypeId := do
  if op ≠ .assign then
    if op = .add ∧ lhs = TID_STR then
      requireAssignable rhs TID_STR "'+=' on str"
    else
      requireNumeric lhs "compound assignment target"
      requireNumeric rhs "compound assignment value"
    return lhs
  else
    requireAssignable rhs lhs "assignment"
    return lhs

/-- `kStdlibRet`. -/
def stdlibRet : List (String × List (String × TypeId)) :=
  [ ("math",
      [ ("sqrt", TID_DOUBLE), ("pow", TID_DOUBLE), ("abs", TID_DOUBLE), ("floor", TID_DOUBLE),
        ("ceil", TID_DOUBLE), ("log", TID_DOUBLE), ("log2", TID_DOUBLE), ("sin", TID_DOUBLE),
        ("cos", TID_DOUBLE), ("tan", TID_DOUBLE), ("min", TID_DOUBLE), ("max", TID_DOUBLE),
        ("abs_i", TID_LONG), ("min_i", TID_LONG), ("max_i", TID_LONG) ]),
    ("str",
      [ ("concat", TID_STR), ("from_int", TID_STR), ("from_double", TID_STR),
        ("length", TID_LONG), ("slice", TID_STR), ("index", TID_STR), ("eq", TID_BOOL),
        ("ord", TID_LONG), ("chr", TID_STR), ("cmp", TID_INT), ("contains", TID_BOOL),
        ("find", TID_LONG), ("rfind", TID_LONG), ("starts_with", TID_BOOL),
        ("ends_with", TID_BOOL), ("replace", TID_STR), ("replace_all", TID_STR),
        ("to_upper", TID_STR), ("to_lower", TID_STR), ("trim", TID_STR),
        ("trim_start", TID_STR), ("trim_end", TID_STR), ("repeat", TID_STR),
        ("split", TID_LIST) ]),
    ("io", [("readline", TID_STR)]) ]

/-- The return type of a call into a standard module, for a callee of that shape. -/
def stdlibCall : Expr → Option TypeId
  | .member _ (.ident _ ns) member => (stdlibRet.lookup ns).bind (·.lookup member)
  | _ => none

/-- The checks of `check_call` on a callable symbol that precede its arguments. -/
def checkCallable (sym : Symbol) (argCount : Nat) : M Unit := do
  if sym.isAsync ∧ !(← get).inAwait then
    err ("async function '" ++ sym.name ++ "' must be called with 'await'")
  if sym.params ≠ [] ∧ sym.params.length ≠ argCount then
    err ("'" ++ sym.name ++ "' expects " ++ toString sym.params.length ++
      " argument(s), got " ++ toString argCount)

/-- The check of argument `i` of a callable symbol. -/
def checkArg (sym : Symbol) (i : Nat) (arg : Expr) : M Unit :=
  match sym.params[i]? with
  | some (_, t) =>
      requireAssignable arg.tid t ("argument " ++ toString (i + 1) ++ " to '" ++ sym.name ++ "'")
  | none => return

/-- The function type of a variable that is called. -/
def closureType (name : String) : M (Option TypeId) := do
  match ← lookup name with
  | some sym =>
      if (sym.kind = .var ∨ sym.kind = .param) ∧ 0 ≤ sym.type ∧
          ((← get).types.info sym.type).kind = .function then
        return some sym.type
      else return none
  | none => return none

/-- The first case of `check_member`: a variant of an enum named by the object. -/
def checkEnumMember (object : Expr) (member : String) : M (Option TypeId) := do
  match identName object with
  | none => return none
  | some name =>
      match ← lookup name with
      | some sym =>
          let types := (← get).types
          if sym.kind = .cls ∧ (types.info sym.type).kind = .enum then
            if (types.info sym.type).variants.any (·.name = member) then
              return some sym.type
            else
              err ("enum '" ++ name ++ "' has no variant '" ++ member ++ "'")
              return some TID_UNKNOWN
          else return none
      | none => return none

/-- The loop of `check_member` up the class hierarchy. -/
def memberFound (types : TypeRegistry) (globals : Scope) (member : String) :
    Nat → TypeId → Option Bool
  | 0, _ => none
  | n + 1, cur =>
      if cur = TID_UNKNOWN ∨ cur < 0 ∨ cur = TID_OBJECT then some false
      else match globals.lookupLocal (types.info cur).name with
        | some { kind := .cls, decl := .cls c, .. } =>
            if classHasMember c member then some true
            else if (types.info cur).parent = cur then some false
            else memberFound types globals member n (types.info cur).parent
        | _ => some false

/-- `Sema::check_member` once the object is checked. -/
def checkMember (object : Expr) (member : String) : M TypeId := do
  let s ← get
  match (if isThis object then lookupScopes s.scopes member else none) with
  | some sym => return sym.type
  | none =>
      let t := object.tid
      if t ≠ TID_UNKNOWN ∧ t ≠ TID_OBJECT ∧ 0 ≤ t ∧ (s.types.info t).kind = .cls then
        if !(← memberFound s.types (s.scopes.getLastD []) member
            (s.types.types.length + 1) t) then
          err ("type '" ++ (s.types.info t).name ++ "' has no member '" ++ member ++ "'")
      return TID_UNKNOWN

def checkIndex (object index : Expr) : M TypeId := do
  match ← overload object "operator__index" with
  | some f => typeFromTe f.returnType
  | none =>
      if object.tid = TID_LIST then
        if !isIntegral index.tid ∧ index.tid ≠ TID_UNKNOWN then
          err ("list index must be integral, got '" ++ (← get).types.nameOf index.tid ++ "'")
        return TID_UNKNOWN
      else if object.tid = TID_STR then return TID_STR
      else return TID_UNKNOWN

/-- `Sema::check_new` before the arguments. -/
def checkNew (type : TypeExpr) : M TypeId := do
  let t ← typeFromTe type
  if t = TID_UNKNOWN then err ("unknown type '" ++ type.name ++ "' in 'new'")
  return t

/-- The symbol and type of an identifier that is read. -/
def checkIdent (name : String) : M TypeId := do
  match ← lookup name with
  | some sym => return sym.type
  | none =>
      err ("undefined identifier '" ++ name ++ "'")
      return TID_UNKNOWN

/-- `this`: not available in static methods. -/
def checkThis : M TypeId := do
  if (← lookup "this").isNone then err "'this' cannot be used in a static method"
  return (← get).currentClassType

/-- `super`: the parent of the current class. -/
def checkSuper : M TypeId := do
  let s ← get
  let parent := (s.types.info s.currentClassType).parent
  return if parent < 0 then TID_OBJECT else parent

/-- Enter the parameters of a function or lambda into the innermost scope. -/
def defineParams (kind : SymKind) : List Param → M Unit
  | [] => return
  | p :: ps => do
      let t ← typeFromTe p.type
      let isNew ← define p.name { name := p.name, kind := kind, type := t }
      if kind = .param ∧ !isNew then err ("duplicate parameter '" ++ p.name ++ "'")
      defineParams kind ps

/-- The type of the first direct `return` whose value has one. -/
def inferRet : List Stmt → TypeId
  | [] => TID_VOID
  | .returnStmt (some e) :: rest => if 0 ≤ e.tid then e.tid else inferRet rest
  | _ :: rest => inferRet rest

/-- `Sema::check_lambda` after the body: intern the function type. -/
def checkLambda (params : List Param) (body : List Stmt) (explicitRet : Option TypeExpr) :
    M (TypeId × String) := do
  let ret ← match explicitRet with
    | some te => typeFromTe te
    | none => pure (inferRet body)
  let retName := (← get).types.nameOf ret
  let id ← intern (fnSignature (params.map (·.type)) retName) .function
  modifyInfo id fun ti => { ti with returnType := ret }
  if ((← get).types.info id).paramTypes = [] then
    let paramTypes ← typesOfParams params
    modifyInfo id fun ti => { ti with paramTypes := paramTypes.map (·.2) }
  return (id, retName)

end Dux.Sema
