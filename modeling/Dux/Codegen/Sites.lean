import Dux.Codegen.Builder
import Mathlib.Algebra.GroupWithZero.Nat

/-!
# Generating with types

`gen_expr`, `gen_stmt` and `gen_decl` (`src/codegen/codegen.cpp`) once more, this
time for the types of the values: which instructions are made out of which
operands.  Blocks, branches, loads and stores are left out, and so are the
comparisons and calls on nothing but pointers and counters of the generated code
itself, except where a function of the program can stand in the place of one of
the runtime.

`none` means that the compiler does not come to an end, or crashes.
-/

namespace Dux.Codegen.Typing

open TypeRegistry

def typeIdOf (e : Expr) : TypeId := if 0 ≤ e.tid then e.tid else TID_UNKNOWN

def isEnumType (types : TypeRegistry) (tid : TypeId) : Bool :=
  tid ≠ TID_UNKNOWN ∧ (types.info tid).kind = .enum

/-- Whether values of an enum live on the heap. -/
def hasPayload (info : TypeInfo) : Bool := info.variants.any fun v => !v.payload.isEmpty

/-! ## Binary operators -/

/-- The function an operator is dispatched to. -/
def overloadOf (left : Expr) : Option String → Gen (Option FnType)
  | none => return none
  | some method => do
      let cls ← classOf left
      if cls = "" then return none else getFunction (mangle cls method)

/-- `extract_enum_tag` on a value of type `t`. -/
def enumTag (types : TypeRegistry) (tid : TypeId) (t : LlvmType) : LlvmType :=
  if hasPayload (types.info tid) then .i32 else t

def stringEquality (l r : LlvmType) : Gen Value := do
  let eq ← runtimeCall "duxrt_str_eq" .i32 [.ptr, .ptr] [l, r]
  if eq.type = .i1 then site (.unary .bitNot .i1) else site (.isZero eq.type)
  return ⟨.i1, .other⟩

/-- The end of `gen_binary`: an operation on the promoted operands. -/
def primitiveBinary (op : BinOp) (fp : Bool) (left right : Value) : Gen Value := do
  site (.binary op fp left.type right.type)
  let l := (promote fp left.type right.type).1
  if isArithmetic op then return ⟨l, folded left right⟩
  else if isComparison op then
    return ⟨.i1, if left.type = .ptr then .other else folded left right⟩
  else return ⟨l, if l = left.type then left.origin else folded left left⟩

/-- `gen_binary` on two values, other than for `&&` and `||`. -/
def genBinary (op : BinOp) (left right : Expr) (lv rv : Value) : Gen Value := do
  match ← overloadOf left (Sema.opMethod op) with
  | some fn => emitCall fn [asIs lv, asIs rv]
  | none => do
      let types := (← get).m.ls.types
      let lt := typeIdOf left
      let rt := typeIdOf right
      let fp := isFpOperation lt rt lv.type rv.type
      let (l, r) := promote fp lv.type rv.type
      let equality := op = .eq ∨ op = .ne
      if op = .add ∧ (lt = TID_STR ∨ rt = TID_STR) then
        runtimeCall "duxrt_str_concat" .ptr [.ptr, .ptr] [l, r]
      else if equality ∧ lt = rt ∧ isEnumType types lt then
        site (.binary op false (enumTag types lt l) (enumTag types lt r))
        return ⟨.i1, folded lv rv⟩
      else if equality ∧ lt ≠ rt ∧ (isEnumType types lt ∨ isEnumType types rt) then
        site (.binary op false .i32 .i32)
        return ⟨.i1, folded lv rv⟩
      else if equality ∧ (lt = TID_STR ∨ rt = TID_STR) then stringEquality l r
      else if op = .add ∧ (lt = TID_LIST ∨ rt = TID_LIST) then
        runtimeCall "duxrt_list_concat" .ptr [.ptr, .ptr] [l, r]
      else primitiveBinary op fp lv rv

/-! ## Assignments -/

/-- What an assignment does to a variable of a counted type before it stores. -/
def replaceCounted (tid : TypeId) (slot : Option LlvmType) (v : Value) : Gen Value := do
  if slot = some .ptr then
    if tid = TID_STR then emitStrRelease .ptr
    else if tid = TID_LIST then
      let _ ← runtimeCall "duxrt_list_release" .void [.ptr] [.ptr]
    else if tid = TID_DICT then
      let _ ← runtimeCall "duxrt_dict_release" .void [.ptr] [.ptr]
  maybeRetain tid v

/-- The key of a dict: a string gives its characters, anything else is boxed, which
is a pointer whatever its type. -/
def dictKey (key : Value) (tid : TypeId) : Gen Value := do
  if tid = TID_STR then runtimeCall "duxrt_str_cstr" .ptr [.ptr] [key.type]
  else return nullValue

/-- `gen_assign` once slot and value are there.  A target without a slot becomes
a variable. -/
def storeInto (op : AssignOp) (target value : Expr) (slot : Option (Option LlvmType))
    (rhs : Value) : Gen Value := do
  let slotType ← match slot, target with
    | some t, _ => pure t
    | none, .ident _ name => do
        putVar name rhs.type
        pure (some rhs.type)
    | none, _ => pure (some rhs.type)
  if op = .assign then replaceCounted (typeIdOf value) slotType rhs
  else
    let lhs := typeIdOf target
    let cur ← if lhs = TID_UNKNOWN then pure rhs.type else lower lhs
    site (.compound op cur rhs.type)
    return ⟨cur, .other⟩

/-- What `gen_assign` takes a target for: a property with a setter, an element of
a list, an entry of a dict, or something with a slot. -/
inductive AssignTarget
  | setter (fn : FnType)
  | element
  | entry (keyTid : TypeId)
  | slot

/-- The cases of `gen_assign`. -/
def assignTarget : Expr → Gen AssignTarget
  | .member _ obj member => do
      match ← layoutMethod (← classOf obj) member "set" with
      | some fn => return .setter fn
      | none => return .slot
  | .index _ obj index =>
      if obj.tid = TID_LIST then return .element
      else if obj.tid = TID_DICT then return .entry index.tid
      else return .slot
  | _ => return .slot

/-! ## Members -/

/-- `gen_member` on the name of an enum. -/
def enumMember (name member : String) : Gen (Option Value) := do
  let b ← get
  match b.m.ls.enumTypes.lookup name with
  | none => return none
  | some tid =>
      let info := b.m.ls.types.info tid
      match info.variants.find? (·.name = member) with
      | some v =>
          if !hasPayload info then return some (const .i32)
          else if !v.payload.isEmpty then return some nullValue
          else return some (← rtMalloc)
      | none => return some (if hasPayload info then nullValue else const .i32)

/-- A static field, once its class has been generated. -/
def staticField (name member : String) : Gen (Option LlvmType) := do
  let b ← get
  return if (b.find name).isNone ∧ hasLayout b.m.ls name then
    b.globals.lookup (name ++ "._" ++ member)
  else none

/-- The members that `gen_member` finds without evaluating the object. -/
def memberOfName (obj : Expr) (member : String) : Gen (Option Value) := do
  match Sema.identName obj with
  | none => return none
  | some name =>
      match ← enumMember name member with
      | some v => return some v
      | none => return (← staticField name member).map fun t => ⟨t, .other⟩

/-- `gen_member` once the object is there. -/
def memberOf (obj : Expr) (v : Value) (member : String) : Gen Value := do
  let cls ← classOf obj
  match ← layoutMethod cls member "get" with
  | some getter => emitCall getter [asIs v]
  | none => do
      let b ← get
      match (b.m.ls.layouts.lookup cls).bind (·.fields.find? (·.name = member)) with
      | some f => return ⟨lowerType b.m.ls.types f.type, .other⟩
      | none => return nullValue

/-- `lvalue_of` on a member once the object is there: properties have no slot. -/
def memberSlot (obj : Expr) (member : String) : Gen (Option (Option LlvmType)) := do
  let b ← get
  match b.m.ls.layouts.lookup (← classOf obj) with
  | none => return none
  | some layout =>
      if layout.methods.any fun mi => mi.name = member ∧ mi.modifier ≠ "" then return none
      else if layout.fields.any (·.name = member) then return some none
      else return none

/-- `gen_index` once object and index are there. -/
def indexOf (obj index : Expr) (v i : Value) : Gen Value := do
  let cls ← classOf obj
  let method ← if cls = "" then pure none else getFunction (mangle cls "operator__index")
  match method with
  | some fn => emitCall fn [asIs v, asIs i]
  | none =>
      if obj.tid = TID_LIST then runtimeCall "duxrt_list_get" .ptr [.ptr, .i64] [v.type, .i64]
      else if obj.tid = TID_DICT then do
        let key ← if index.tid = TID_STR then dictKey i TID_STR else pure i
        runtimeCall "duxrt_dict_get" .ptr [.ptr, .ptr] [v.type, key.type]
      else if obj.tid = TID_STR then
        runtimeCall "duxrt_str_index" .ptr [.ptr, .i64] [v.type, .i64]
      else return nullValue

/-! ## Calls -/

/-- How the arguments of a call `mod.fn(…)` are handed over, and whether those
behind the last parameter are left out. -/
def Builder.modulePassing (b : Builder) (mod fn : String) : Passing × Bool :=
  if mod ∈ b.m.userModuleImports then (.coerced, true)
  else if ((stdlibTable.lookup mod).bind (·.lookup fn)).isSome then (.stdlib, true)
  else (.coerced, false)

/-- Arguments that are converted to the types of the parameters. -/
def coercedArgs (vs : List Value) : List Arg := vs.map fun v => ⟨v.type, .coerced⟩

/-- The type of a variable that holds a closure, as a function on its closure. -/
def closureFn (te : TypeExpr) : Gen FnType := do
  let types := (← get).m.ls.types
  let ret := types.fromName te.fnRet
  return {
    ret := if ret = TID_VOID ∨ ret < 0 then .void else lowerType types ret
    params := ("", .ptr) :: te.fnParams.map fun p => ("", lowerTypeExpr types p) }

/-- The closure that a call of a name goes to. -/
def closureOf (name : String) : Gen (Option FnType) := do
  let b ← get
  match b.fnVars.lookup name, b.find name with
  | some te, some _ => return some (← closureFn te)
  | _, _ => return none

/-- The function that a call of a name goes to, in the current namespace if not
in the module. -/
def functionOf (name : String) : Gen (Option FnType) := do
  match ← getFunction name with
  | some fn => return some fn
  | none =>
      let ns := (← get).currentNamespace
      if ns = "" then return none else getFunction (mangle ns name)

/-- The function that a method call goes to; `none` inside when there is none. -/
def methodFn (obj : Expr) (member : String) : Gen (Option FnType) := do
  let cls ← classOf obj
  let b ← get
  let found ← b.m.findMethod member (b.m.ls.layouts.length + 1) cls
  return found.map b.typeOf

/-- What a call `name.member(…)` goes to before the object is evaluated; a limit
is the number of arguments that are looked at. -/
inductive NameCallee
  | null
  | function (fn : FnType) (passing : Passing) (limit : Option Nat)
  | enumCtor (payload : Nat)

/-- The part of `gen_call` that takes the object for a module, a namespace or an
enum. -/
def calleeOfName (obj : Expr) (member : String) (n : Nat) : Gen (Option NameCallee) := do
  match Sema.identName obj with
  | none => return none
  | some name => do
      let b ← get
      match b.m.stdlibRoute name member n with
      | some (.plain d) =>
          let (passing, truncated) := b.modulePassing name member
          let fn := b.typeOf d
          return some (.function fn passing (if truncated then some fn.params.length else none))
      | some _ => return some .null
      | none =>
          match ← getFunction (mangle name member) with
          | some fn => return some (.function fn .coerced none)
          | none =>
              match b.m.enumRoute name member, b.m.ls.enumTypes.lookup name with
              | some _, some tid =>
                  let variant := (b.m.ls.types.info tid).variants.find? (·.name = member)
                  return some (.enumCtor ((variant.map (·.payload.length)).getD 0))
              | _, _ => return none

/-- The return type `gen_lambda` finds among the statements of the body. -/
def lambdaRet : List Stmt → TypeId
  | [] => TID_VOID
  | .returnStmt (some e) :: rest =>
      if 0 ≤ e.tid ∧ e.tid ≠ TID_VOID then e.tid else lambdaRet rest
  | _ :: rest => lambdaRet rest

/-- The parameters of function type among a list of parameters. -/
def fnParamsOf (params : List Param) : List (String × TypeExpr) :=
  (params.filter (·.type.name = "__fn")).map fun p => (p.name, p.type)

/-- The state in which the body of a lambda is generated. -/
def enterLambda (params : List Param) (body : List Stmt) (b : Builder) : Builder :=
  let types := b.m.ls.types
  let captured := (captures (fun name => (b.find name).isSome) params body).filterMap fun name =>
    (b.find name).map fun t => (name, t)
  { b with
    levels := [{ vars := (params.map fun p => (p.name, lowerTypeExpr types p.type)).reverse ++
      captured }]
    tries := 0
    fnVars := (fnParamsOf params).reverse ++ b.fnVars
    varClass := []
    currentClass := ""
    retType := lambdaRet body
    fnRet := lowerType types (lambdaRet body)
    live := true }

/-- The state behind a lambda. -/
def leaveLambda (outer b : Builder) : Builder :=
  { b with
    levels := outer.levels
    tries := outer.tries
    varClass := outer.varClass
    currentClass := outer.currentClass
    retType := outer.retType
    fnRet := outer.fnRet
    live := true }

/-! ## Clean-ups -/

section Cleanups

-- how the statements of a deferred block are generated
variable (D : List Stmt → Gen Unit)

def emitScopeCleanup (c : Cleanup) : Gen Unit := do
  if (← get).live then
    match c with
    | .call fn =>
        match ← getFunction fn with
        | some ft =>
            let _ ← emitCall ft []
        | none => pure ()
    | .deferBody body => D body
    | .release symbol => emitRcRelease symbol
    | .dtor cls => emitDtor cls

def emitScopeCleanups : List Cleanup → Gen Unit
  | [] => return
  | c :: cs => do
      emitScopeCleanup D c
      emitScopeCleanups cs

def emitStrReleases : Nat → Gen Unit
  | 0 => return
  | n + 1 => do
      emitStrRelease .ptr
      emitStrReleases n

/-- `emit_all_scope_cleanups` and `emit_all_str_releases`. -/
def emitAll : Gen Unit := do
  if (← get).live then
    emitScopeCleanups D ((← get).levels.flatMap (·.cleanups.reverse))
  if (← get).live then
    emitStrReleases ((← get).levels.map (·.strs)).sum

def envPush : Gen Unit := modify fun b => { b with levels := {} :: b.levels }

def envPop : Gen Unit := do
  let b ← get
  let top := b.levels.headD {}
  if b.live then
    emitScopeCleanups D top.cleanups.reverse
    emitStrReleases ((← get).levels.headD {}).strs
  modify fun b => { b with levels := b.levels.tail }

/-- `CreateRet` and `CreateRetVoid`. -/
def createRet (src dst : TypeId) (value : Option LlvmType) : Gen Unit := do
  site (.ret (← get).fnRet src dst value)
  endBlock

/-- The return at the end of a body that falls through. -/
def implicitReturn (value : Option LlvmType) : Gen Unit := do
  if (← get).live then
    emitAll D
    createRet TID_VOID TID_VOID value

/-- `duxrt_future_set`. -/
def setFuture : Gen Unit := do
  let _ ← runtimeCall "duxrt_future_set" .void [.ptr, .ptr] [.ptr, .ptr]

/-- `gen_return` once the value is there.  What reaches a future is boxed. -/
def genReturn (value : Option (Expr × Value)) : Gen Unit := do
  let b ← get
  match value with
  | none =>
      if b.inAsync then setFuture
      emitAll D
      createRet TID_VOID TID_VOID none
  | some (e, v) =>
      let src := typeIdOf e
      let t := coerce src b.retType v.type
      let v' ← maybeRetain b.retType { v with type := t }
      let counted := b.retType = TID_STR ∨ b.retType = TID_LIST ∨ b.retType = TID_DICT
      if b.inAsync then
        setFuture
        emitAll D
        createRet TID_VOID TID_VOID none
      else
        emitAll D
        if counted then createRet TID_VOID TID_VOID (some v'.type)
        else createRet src b.retType (some v.type)

end Cleanups


/-! ## Statements, the parts that do not recurse -/

/-- `gen_var_decl` behind the initialiser of a local variable. -/
def declareLocal (type : TypeExpr) (name : String) (init : Option (Expr × Value)) :
    Gen Unit := do
  let declared := (← get).m.ls.types.fromTypeExpr type
  let initTid := (init.map fun i => typeIdOf i.1).getD TID_UNKNOWN
  let tid := if declared = TID_UNKNOWN then initTid else declared
  let tid := if tid = TID_UNKNOWN then TID_INT else tid
  let t ← lower tid
  match init with
  | some (_, v) =>
      let _ ← maybeRetain tid { v with type := coerce initTid tid v.type }
  | none => pure ()
  envDefine name t tid
  match init with
  | some (.lambda _ params _ _ inferredRet, _) =>
      modify fun b => { b with
        fnVars :=
          (name, { name := "__fn", fnParams := params.map (·.type), fnRet := inferredRet }) ::
            b.fnVars }
      register (.dtor "__closure")
  | _ => pure ()
  if tid = TID_LIST ∨ initTid = TID_LIST then
    modify fun b =>
      let fromName := match init with
        | some (.ident _ source, _) => decide (source ∈ b.typedLists)
        | _ => false
      { b with
        typedLists :=
          if b.lastListTyped || fromName then name :: b.typedLists
          else b.typedLists.filter (· ≠ name) }
  if type.name ≠ "" then
    modify fun b =>
      if hasLayout b.m.ls type.name then
        { b with varClass := (name, type.name) :: b.varClass }
      else b

def declareLoopVar (type : TypeExpr) (name : String) : Gen LlvmType := do
  let t ← lower (← typeOr type TID_INT)
  envDefine name t TID_UNKNOWN
  return t

/-- Whether the elements of an iterable are read from the array itself. -/
def isTypedList (iterable : Expr) : Gen Bool := do
  let b ← get
  return match iterable with
    | .ident _ name => decide (name ∈ b.typedLists)
    | _ => false

def insideLoop (label : String) (body : Gen Unit) : Gen Unit := do
  modify fun b => { b with loops := label :: b.loops }
  body
  modify fun b => { b with loops := b.loops.tail }

def caseTypes (values : List (Option Value)) : List LlvmType :=
  values.filterMap fun
    | some v => if v.origin = .const ∧ v.type.isInt then some v.type else none
    | none => none

/-- The value `gen_match` switches on. -/
def matchType (t : LlvmType) : LlvmType := if t = .i1 then .i1 else .i32

/-- The payload that a pattern binds. -/
def bindPayload (subject : LlvmType) : MatchPattern → Gen Unit
  | .enumVariant enumName variantName bindings => do
      if subject = .ptr then
        let ls := (← get).m.ls
        let payload := (ls.enumTypes.lookup enumName).bind fun tid =>
          ((ls.types.info tid).variants.find? (·.name = variantName)).map (·.payload)
        bindings.zipIdx.forM fun (name, i) =>
          envDefine name (((payload.getD [])[i]?.map (lowerType ls.types)).getD .ptr) TID_UNKNOWN
  | _ => return

/-- The releases that `delete` makes of a slot of a counted type, or of a value
without a slot. -/
def deleteCounted (tid : TypeId) (t : LlvmType) : Gen Unit := do
  if tid = TID_STR then emitStrRelease t
  else
    let symbol := if tid = TID_LIST then "duxrt_list_release" else "duxrt_dict_release"
    let _ ← runtimeCall symbol .void [.ptr] [t]

/-- `gen_delete` of an object with a slot: a plain call of the destructor. -/
def deleteObject (e : Expr) : Gen Unit := do
  let cls ← classOf e
  if cls ≠ "" then
    match ← getFunction (cls ++ "___dtor") with
    | some dtor =>
        let _ ← createCall dtor [⟨.ptr, .asIs⟩]
    | none => pure ()
  let _ ← runtimeCall "free" .void [.ptr] [.ptr]

/-- `gen_throw` once the value is there. -/
def raise : Gen Unit := do
  let storage ← runtimeCall "__cxa_allocate_exception" .ptr [.i64] [.i64]
  let _ ← runtimeCall "__cxa_throw" .void [.ptr, .ptr, .ptr] [storage.type, .ptr, .ptr]
  endBlock

/-- The check of a typed `catch` clause. -/
def checkCatchType : Option TypeExpr → Gen Unit
  | none => return
  | some te => do
      if te.name ≠ "" ∧ te.name ≠ "Exception" then
        let cmp ← runtimeCall "strcmp" .i32 [.ptr, .ptr] [.ptr, .ptr]
        site (.isZero cmp.type)
        let _ ← runtimeCall "__cxa_rethrow" .void [] []

/-! ## Expressions and statements -/

section Generating

variable (D : List Stmt → Gen Unit)

def inScope (body : Gen Unit) : Gen Unit := do
  envPush
  body
  envPop D

/-- `break` and `continue`: an unknown label is an error and leaves nothing
behind. -/
def genJump (label : Option String) : Gen Unit := do
  let loops := (← get).loops
  if loops ≠ [] ∧ label.all (· ∈ loops) then
    emitAll D
    endBlock

-- how the initialiser of a field is generated
variable (I : Expr → Gen Value)

def genDefaults : List FieldInfo → Gen Unit
  | [] => return
  | fi :: fis => do
      match fi.decl.init with
      | some e =>
          let _ ← I e
      | none => pure ()
      genDefaults fis

mutual

def genExpr : Expr → Gen Value
  | .ident _ name => loadVar name
  | .this _ => loadVar "this"
  | .super _ => loadVar "this"
  | .binary _ op left right => do
      let lv ← genExpr left
      if op = .and ∨ op = .or then
        let _ ← toBool lv
        let rv ← genExpr right
        let _ ← toBool rv
        return ⟨.i1, .other⟩
      else
        let rv ← genExpr right
        genBinary op left right lv rv
  | .unary _ op operand _ => do
      if op = .inc ∨ op = .dec then
        match ← lvalueOf operand with
        | some _ => do
            let tid := typeIdOf operand
            let t ← lower (if tid = TID_UNKNOWN then TID_INT else tid)
            site (.unary op t)
            return ⟨t, .other⟩
        | none => failure
      else
        let v ← genExpr operand
        site (.unary op v.type)
        match op with
        | .not => return ⟨.i1, folded v v⟩
        | .plus => return v
        | _ => return ⟨v.type, folded v v⟩
  | .assign _ op target value => do
      match ← assignTarget target with
      | .setter fn => do
          let v ← genObject target
          let rhs ← genExpr value
          emitCall fn [asIs v, asIs rhs]
      | .element => do
          let (v, _) ← genIndexed target
          let rhs ← genExpr value
          let _ ← runtimeCall "duxrt_list_set" .void [.ptr, .i64, .ptr] [v.type, .i64, .ptr]
          return rhs
      | .entry keyTid => do
          let (v, key) ← genIndexed target
          let rhs ← genExpr value
          let key ← dictKey key keyTid
          let _ ← runtimeCall "duxrt_dict_set" .void [.ptr, .ptr, .ptr] [v.type, key.type, .ptr]
          return rhs
      | .slot => do
          let slot ← lvalueOf target
          let rhs ← genExpr value
          storeInto op target value slot rhs
  | .call _ (.ident _ name) args => genNamedCall name args
  | .call _ (.member _ obj member) args => do
      match ← calleeOfName obj member args.length with
      | some .null => return nullValue
      | some (.function fn passing limit) => do
          let vs ← match limit with
            | some n => genTake n args
            | none => genExprs args
          createCall fn (vs.map fun v => ⟨v.type, passing⟩)
      | some (.enumCtor payload) => do
          let mem ← rtMalloc
          genPayload payload args
          return mem
      | none => do
          let v ← genExpr obj
          match ← methodFn obj member with
          | some fn => do
              let vs ← genExprs args
              emitCall fn (asIs v :: coercedArgs vs)
          | none => return nullValue
  | .call _ callee _ => do
      let _ ← genExpr callee
      return nullValue
  | .member _ obj member => do
      match ← memberOfName obj member with
      | some v => return v
      | none => do
          let v ← genExpr obj
          memberOf obj v member
  | .index _ obj index => do
      let v ← genExpr obj
      let i ← genExpr index
      indexOf obj index v i
  | .new _ type args => do
      match (← get).m.ls.layouts.lookup type.name with
      | none => return nullValue
      | some layout => do
          let raw ← rtMalloc
          genDefaults I layout.fields
          match ← getFunction (mangle type.name type.name) with
          | some ctor => do
              let vs ← genExprs args
              let _ ← emitCall ctor (asIs raw :: vs.map asIs)
              return raw
          | none => return raw
  | .list _ elements => do
      if elements ≠ [] ∧ elements.all (fun e => e.tid = TID_INT ∨ e.tid = TID_BOOL) then
        let list ← runtimeCall "duxrt_list_new_i32" .ptr [] []
        genElements "duxrt_list_push_i32" .i32 list elements
        modify fun b => { b with lastListTyped := true }
        return list
      else
        modify fun b => { b with lastListTyped := false }
        let list ← runtimeCall "duxrt_list_new" .ptr [] []
        genElements "duxrt_list_push" .ptr list elements
        return list
  | .dict _ pairs => do
      let dict ← runtimeCall "duxrt_dict_new" .ptr [] []
      genPairs dict pairs
      return dict
  | .lambda _ params body _ _ => do
      let outer ← get
      set (enterLambda params body outer)
      genStmts body
      let ret := (← get).fnRet
      implicitReturn D (if ret = .void then none else some ret)
      modify (leaveLambda outer)
      rtMalloc
  | .await tid operand => do
      let future ← genExpr operand
      let raw ← emitCall (← getOrDeclareRt "duxrt_future_await" .ptr [.ptr]) [asIs future]
      let _ ← emitCall (← getOrDeclareRt "duxrt_future_free" .void [.ptr]) [asIs future]
      if unboxedType tid = .ptr then return raw else return ⟨unboxedType tid, .other⟩
  | e => return (literalValue e).getD nullValue

def genObject : Expr → Gen Value
  | .member _ obj _ => genExpr obj
  | _ => return nullValue

def genIndexed : Expr → Gen (Value × Value)
  | .index _ obj index => do
      let v ← genExpr obj
      return (v, ← genExpr index)
  | _ => return (nullValue, nullValue)

/-- `lvalue_of`: the slot, with its type where that is on record. -/
def lvalueOf : Expr → Gen (Option (Option LlvmType))
  | .ident _ name => do
      let b ← get
      match b.find name with
      | some t => return some (some t)
      | none => return if (b.ownField name).isSome then some none else none
  | .member _ obj member => do
      let field ← match Sema.identName obj with
        | some name => staticField name member
        | none => pure none
      match field with
      | some t => return some (some t)
      | none => do
          let _ ← genExpr obj
          memberSlot obj member
  | .index _ obj index => do
      let _ ← genExpr obj
      let _ ← genExpr index
      return none
  | _ => return none

def genExprs : List Expr → Gen (List Value)
  | [] => return []
  | e :: es => do
      let v ← genExpr e
      return v :: (← genExprs es)

/-- The arguments of a call that takes no more than `n`. -/
def genTake : Nat → List Expr → Gen (List Value)
  | 0, _ => return []
  | _ + 1, [] => return []
  | n + 1, e :: es => do
      let v ← genExpr e
      return v :: (← genTake n es)

def genNamedCall (name : String) : List Expr → Gen Value
  | [] => do
      if name = "println" ∨ name = "print" then rtPrintln ⟨.ptr, .literal⟩ TID_STR
      else if name = "__fstr_to_str" then fstrToStr ⟨.ptr, .literal⟩ TID_STR
      else if name = "assert" then return nullValue
      else if name = "len" then return const .i32
      else match ← closureOf name with
        | some fn => createCall fn [⟨.ptr, .asIs⟩]
        | none =>
            match ← functionOf name with
            | some fn => emitCall fn []
            | none => return nullValue
  | e :: es => do
      if name = "println" ∨ name = "print" then
        let v ← genExpr e
        rtPrintln v (typeIdOf e)
      else if name = "__fstr_to_str" then
        let v ← genExpr e
        fstrToStr v (typeIdOf e)
      else if name = "assert" then
        let v ← genExpr e
        let _ ← toBool v
        let _ ← runtimeCall "abort" .void [] []
        return nullValue
      else if name = "len" then
        let v ← genExpr e
        lenOf v (typeIdOf e)
      else match ← closureOf name with
        | some fn => do
            let v ← genExpr e
            let vs ← genExprs es
            createCall fn (⟨.ptr, .asIs⟩ :: coercedArgs (v :: vs))
        | none =>
            match ← functionOf name with
            | some fn => do
                let v ← genExpr e
                let vs ← genExprs es
                emitCall fn (coercedArgs (v :: vs))
            | none => return nullValue

/-- The arguments of `gen_enum_ctor`, no more than the variant has fields. -/
def genPayload : Nat → List Expr → Gen Unit
  | 0, _ => return
  | _ + 1, [] => return
  | n + 1, e :: es => do
      let v ← genExpr e
      if typeIdOf e = TID_STR ∧ v.type = .ptr then
        let _ ← runtimeCall "duxrt_str_retain" .ptr [.ptr] [.ptr]
      genPayload n es

/-- The elements of `gen_list`, which become numbers or are boxed. -/
def genElements (push : String) (element : LlvmType) (list : Value) : List Expr → Gen Unit
  | [] => return
  | e :: es => do
      let _ ← genExpr e
      let _ ← runtimeCall push .void [.ptr, element] [list.type, element]
      genElements push element list es

def genPairs (dict : Value) : List DictPair → Gen Unit
  | [] => return
  | p :: ps => do
      genPair dict p
      genPairs dict ps

def genPair (dict : Value) : DictPair → Gen Unit
  | .mk key value => do
      let k ← genExpr key
      let _ ← genExpr value
      let k ← dictKey k key.tid
      let _ ← runtimeCall "duxrt_dict_set" .void [.ptr, .ptr, .ptr] [dict.type, k.type, .ptr]

def genOpt : Option Expr → Gen (Option (Expr × Value))
  | none => return none
  | some e => do
      let v ← genExpr e
      return some (e, v)

def genStmt : Stmt → Gen Unit
  | .block body => inScope D (genStmts body)
  | .expr e => do
      let _ ← genExpr e
  | .varDecl _ type isStatic isThreadLocal decls =>
      if isThreadLocal then return else genVarItems type isStatic decls
  | .ifStmt cond thenBr elseBr => do
      let v ← genExpr cond
      let _ ← toBool v
      newBlock
      inScope D (genStmts thenBr)
      newBlock
      genElse elseBr
      newBlock
  | .whileStmt label cond body => do
      newBlock
      let v ← genExpr cond
      let _ ← toBool v
      newBlock
      insideLoop (label.getD "") (inScope D (genStmts body))
      newBlock
  | .doWhile body cond => do
      newBlock
      insideLoop "" (inScope D (genStmts body))
      newBlock
      let v ← genExpr cond
      let _ ← toBool v
      newBlock
  | .forIn varType varName iterable body => do
      envPush
      let t ← declareLoopVar varType varName
      match iteration iterable with
      | .range _ => do
          genBounds iterable
          site (.count t)
      | .list => do
          let v ← genExpr iterable
          let _ ← runtimeCall "duxrt_list_len" .i64 [.ptr] [v.type]
          if !(← isTypedList iterable) then
            let _ ← runtimeCall "duxrt_list_get" .ptr [.ptr, .i64] [.ptr, .i64]
      | .nothing => pure ()
      newBlock
      insideLoop "" (inScope D (genStmts body))
      newBlock
      envPop D
  | .forC varType varName init cond incr body => do
      envPush
      let _ ← declareLoopVar varType varName
      let _ ← genExpr init
      newBlock
      let v ← genExpr cond
      let _ ← toBool v
      newBlock
      insideLoop "" (inScope D (genStmts body))
      newBlock
      let _ ← genExpr incr
      newBlock
      envPop D
  | .switchStmt e cases => do
      let values ← genCaseValues cases
      let v ← genExpr e
      site (.switch v.type (caseTypes values))
      insideLoop "" (genCases cases)
      newBlock
  | .matchStmt e arms => do
      let v ← genExpr e
      if isStrMatch (arms.map Sema.armPattern) then
        genStrArms v arms
        genLastWildcard arms
      else
        let ls := (← get).m.ls
        site (.switch (matchType v.type)
          ((arms.filter fun a => hasCase ls false (Sema.armPattern a)).map fun _ =>
            matchType v.type))
        genArms v.type arms
        genLastWildcard arms
      newBlock
  | .tryCatch tryBody _ catchType catchVar catchBody => do
      newBlock
      envPush
      modify fun b => { b with tries := b.tries + 1 }
      genStmts tryBody
      let exit := (← get).live
      newBlock
      emitAll D
      modify fun b => { b with tries := b.tries - 1 }
      let _ ← runtimeCall "__cxa_begin_catch" .ptr [.ptr] [.ptr]
      modify fun b => { b with live := exit }
      envPop D
      newBlock
      envPush
      checkCatchType catchType
      match catchVar with
      | some name => envDefine name .ptr TID_UNKNOWN
      | none => pure ()
      let _ ← getOrDeclareRt "__cxa_end_catch" .void []
      register (.call "__cxa_end_catch")
      inScope D (genStmts catchBody)
      envPop D
      newBlock
  | .returnStmt value => do
      let v ← genOpt value
      genReturn D v
  | .breakStmt label => genJump D label
  | .continueStmt label => genJump D label
  | .assertStmt cond => do
      let v ← genExpr cond
      let _ ← toBool v
      let _ ← runtimeCall "abort" .void [] []
  | .deleteStmt e => do
      let tid := typeIdOf e
      match ← lvalueOf e with
      | some _ =>
          if tid = TID_STR ∨ tid = TID_LIST ∨ tid = TID_DICT then deleteCounted tid .ptr
          else deleteObject e
      | none => do
          let v ← genExpr e
          if tid = TID_STR ∨ tid = TID_LIST ∨ tid = TID_DICT then deleteCounted tid v.type
          else
            let _ ← runtimeCall "free" .void [.ptr] [v.type]
  | .defer _ body => register (.deferBody body)
  | .throwStmt e => do
      let _ ← genExpr e
      raise
  | .unsafeStmt body => genStmts body

/-- `gen_stmts`: nothing is generated behind the end of a block. -/
def genStmts : List Stmt → Gen Unit
  | [] => return
  | s :: ss => do
      if (← get).live then genStmt s
      genStmts ss

def genElse : ElseBr → Gen Unit
  | .none => return
  | .block body => inScope D (genStmts body)
  | .elif cond thenBr elseBr => do
      let v ← genExpr cond
      let _ ← toBool v
      newBlock
      inScope D (genStmts thenBr)
      newBlock
      genElse elseBr
      newBlock

/-- `gen_var_decl`, one declarator. -/
def genVarItem (type : TypeExpr) (isStatic : Bool) : VarItem → Gen Unit
  | .mk name init => do
      if isStatic then
        let _ ← genOpt init
        let tid ← typeOr type TID_INT
        envDefine name (← lower tid) tid
      else
        modify fun b => { b with lastListTyped := if init.isSome then false else b.lastListTyped }
        let v ← genOpt init
        declareLocal type name v

/-- `gen_var_decl`. -/
def genVarItems (type : TypeExpr) (isStatic : Bool) : List VarItem → Gen Unit
  | [] => return
  | d :: ds => do
      genVarItem type isStatic d
      genVarItems type isStatic ds

/-- The bounds of a range in `gen_for_in`. -/
def genBounds : Expr → Gen Unit
  | .binary _ _ lo hi => do
      let _ ← genExpr lo
      let _ ← genExpr hi
  | .call _ _ [hi] => do
      let _ ← genExpr hi
  | _ => return

def genCaseValues : List SwitchCase → Gen (List (Option Value))
  | [] => return []
  | c :: cs => do
      let v ← genCaseValue c
      return v :: (← genCaseValues cs)

def genCaseValue : SwitchCase → Gen (Option Value)
  | .mk value _ => do
      return (← genOpt value).map (·.2)

def genCases : List SwitchCase → Gen Unit
  | [] => return
  | c :: cs => do
      genCase c
      genCases cs

def genCase : SwitchCase → Gen Unit
  | .mk _ body => do
      newBlock
      inScope D (genStmts body)

/-- The arms of `gen_match` on numbers and enums, but for wildcards. -/
def genArms (subject : LlvmType) : List MatchArm → Gen Unit
  | [] => return
  | a :: as => do
      genArm subject a
      genArms subject as

/-- One arm of `gen_match` on numbers and enums. -/
def genArm (subject : LlvmType) : MatchArm → Gen Unit
  | .mk pattern body => do
      if hasCase (← get).m.ls false pattern then
        newBlock
        envPush
        bindPayload subject pattern
        genStmts body
        envPop D

/-- The arms of `gen_match` on strings, but for wildcards. -/
def genStrArms (subject : Value) : List MatchArm → Gen Unit
  | [] => return
  | a :: as => do
      genStrArm subject a
      genStrArms subject as

/-- One arm of `gen_match` on strings. -/
def genStrArm (subject : Value) : MatchArm → Gen Unit
  | .mk pattern body => do
      if hasCase (← get).m.ls true pattern then
        let cmp ← runtimeCall "duxrt_str_eq" .i32 [.ptr, .ptr] [subject.type, .ptr]
        site (.isZero cmp.type)
        newBlock
        inScope D (genStmts body)
        newBlock

/-- The last wildcard among the arms of `gen_match`. -/
def genLastWildcard : List MatchArm → Gen Unit
  | [] => return
  | a :: as => do
      if as.any fun a => isWildcard (Sema.armPattern a) then genLastWildcard as
      else
        genWildcard a
        genLastWildcard as

def genWildcard : MatchArm → Gen Unit
  | .mk pattern body => do
      if isWildcard pattern then
        newBlock
        inScope D (genStmts body)

end

end Generating

end Dux.Codegen.Typing
