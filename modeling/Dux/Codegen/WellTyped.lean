import Dux.Codegen.Sites

/-!
# Well-typed instructions

Functions, classes and whole programs (`Codegen::run` in `src/codegen/codegen.cpp`)
for the types of the values, and the question whether every instruction gets
operands of the types it requires.  Semantic analysis lets mixtures of types
through that the conversions of code generation do not bring together.
-/

namespace Dux.Codegen.Typing

open TypeRegistry

/-! ## Functions -/

/-- Deferred blocks and field initialisers nested at most `n` deep into each
other at the places where they are generated. -/
def genLevel : Nat → (List Stmt → Gen Unit) × (Expr → Gen Value)
  | 0 => (fun _ => failure, fun _ => failure)
  | n + 1 =>
      (genStmts (genLevel n).1 (genLevel n).2, genExpr (genLevel n).1 (genLevel n).2)

section Functions

variable (nest : Nat)

/-- Arguments of an initialiser list, no more than `n`. -/
def genInitArgs : Nat → List Expr → Gen (List Value)
  | 0, _ => return []
  | _ + 1, [] => return []
  | n + 1, e :: es => do
      let v ← (genLevel (nest + 1)).2 e
      return v :: (← genInitArgs n es)

/-- `gen_func` on an entry of an initialiser list. -/
def genInitEntry (ie : InitEntry) : Gen Unit := do
  match ← getFunction (mangle ie.field ie.field) with
  | none => return
  | some base =>
      let vs ← genInitArgs nest (base.params.length - 1) ie.args
      let _ ← emitCall base (⟨.ptr, .asIs⟩ :: coercedArgs vs)

/-- `gen_func` on the fields of a destructor, the last one first. -/
def genFieldDtors : List FieldInfo → Gen Unit
  | [] => return
  | fi :: fis => do
      genFieldDtors fis
      let cls := (← get).m.ls.types.nameOf fi.type
      if cls ≠ "" ∧ cls ≠ "<unknown>" ∧ cls ≠ "<invalid>" then
        if (← getFunction (cls ++ "___dtor")).isSome then emitDtor cls

/-- The function that a body is generated into. -/
def functionFor (mangled : String) (f : FunctionDecl) : Gen FnType := do
  match ← getFunction mangled with
  | some fn => return fn
  | none => do
      let ft := (← get).typeOf (.func f)
      createFunction mangled ft
      return ft

/-- The state at the start of a body: the arguments are in scope, `this` under
that name in a method. -/
def enterFunction (mangled : String) (fn : FnType) (f : FunctionDecl) (isMember : Bool)
    (b : Builder) : Builder :=
  let hasThis := isMember && !f.isStatic
  let receiver : List (String × LlvmType) := if hasThis then [("this", .ptr)] else []
  let rest := if hasThis then fn.params.tail else fn.params
  { b with
    generated := mangled :: b.generated
    varClass := []
    fnVars := (fnParamsOf f.params).reverse
    levels := { vars := (receiver ++ rest).reverse } :: b.levels
    live := true }

/-- The async body between launcher and thunk: its own scopes, and a future that
takes what is returned. -/
def enterAsync (f : FunctionDecl) (b : Builder) : Builder :=
  let types := b.m.ls.types
  { b with
    levels := [{ vars := (f.params.map fun p => (p.name, lowerTypeExpr types p.type)).reverse }]
    tries := 0
    varClass := []
    fnVars := (fnParamsOf f.params).reverse
    currentClass := ""
    retType := types.fromTypeExpr f.returnType
    fnRet := .void
    inAsync := true
    asyncCount := b.asyncCount + 1
    live := true }

def leaveFunction (outer b : Builder) : Builder :=
  { b with
    levels := outer.levels
    tries := outer.tries
    varClass := outer.varClass
    fnVars := outer.fnVars
    currentClass := outer.currentClass
    retType := outer.retType
    fnRet := outer.fnRet
    inAsync := outer.inAsync }

/-- What the thunk of `gen_async_func` makes of a slot of its block. -/
def unboxedSlot (t : LlvmType) : LlvmType := if t.isInt ∨ t = .double then t else .ptr

def genAsyncFunc (mangled : String) (f : FunctionDecl) (body : List Stmt) : Gen Unit := do
  let outer ← get
  let bodyName := "__async_body_" ++ toString outer.asyncCount
  let thunkName := "__async_thunk_" ++ toString outer.asyncCount
  let params := paramTypes outer.m.ls.types f
  createFunction bodyName ⟨.void, ("__fut", .ptr) :: params.map fun t => ("", t)⟩
  modify (enterAsync f)
  (genLevel (nest + 1)).1 body
  if (← get).live then
    setFuture
    implicitReturn (genLevel nest).1 none
  modify (leaveFunction outer)
  createFunction thunkName ⟨.ptr, [("env", .ptr)]⟩
  match ← getFunction bodyName with
  | some bodyFn =>
      let _ ← createCall bodyFn ((.ptr :: params.map unboxedSlot).map fun t => ⟨t, .asIs⟩)
  | none => pure ()
  let _ ← runtimeCall "free" .void [.ptr] [.ptr]
  let launcher ← functionFor mangled f
  if mangled ∉ (← get).generated then
    modify fun b => { b with generated := mangled :: b.generated }
    let future ← runtimeCall "duxrt_future_new" .ptr [] []
    let _ ← rtMalloc
    let _ ← runtimeCall "duxrt_future_spawn_detached" .void [.ptr, .ptr] [.ptr, .ptr]
    site (.ret launcher.ret TID_VOID TID_VOID (some future.type))

/-- `gen_func` on a function that is not asynchronous. -/
def genPlainFunc (mangled : String) (f : FunctionDecl) (body : List Stmt) (isMember : Bool) :
    Gen Unit := do
  let fn ← functionFor mangled f
  if mangled ∉ (← get).generated then
    let outer ← get
    modify (enterFunction mangled fn f isMember)
    if f.isCtor ∧ ((← get).find "this").isSome then f.initList.forM (genInitEntry nest)
    let ret ← typeOr f.returnType TID_VOID
    modify fun b => { b with retType := ret, fnRet := fn.ret }
    (genLevel (nest + 1)).1 body
    let b ← get
    if f.isDtor ∧ b.live ∧ (b.find "this").isSome then
      genFieldDtors ((b.m.ls.layouts.lookup b.currentClass).elim [] (·.fields))
    let t ← lower ret
    implicitReturn (genLevel nest).1 (if ret = TID_VOID then none else some t)
    modify fun b => { leaveFunction outer b with varClass := b.varClass, fnVars := b.fnVars }

def genFunc (mangled : String) (f : FunctionDecl) (isMember : Bool) : Gen Unit := do
  match f.body with
  | none => return
  | some body =>
      if f.isAsync then genAsyncFunc nest mangled f body
      else genPlainFunc nest mangled f body isMember

/-- `gen_class` on the static fields, which become globals. -/
def genStaticFields (cls : String) : List ClassMember → Gen Unit
  | [] => return
  | .func _ :: ms => genStaticFields cls ms
  | .field f :: ms => do
      if f.isStatic then
        let t ← lower (← typeOr f.type TID_INT)
        let name := cls ++ "._" ++ f.name
        modify fun b =>
          match b.globals.lookup name with
          | some _ => b
          | none => { b with globals := (name, t) :: b.globals }
      genStaticFields cls ms

/-- `gen_class` on the methods. -/
def genMethods (cls : String) : List ClassMember → Gen Unit
  | [] => return
  | .field _ :: ms => genMethods cls ms
  | .func f :: ms => do
      if !isTrivialDtor f then genFunc nest (mangleClassMember cls f) f true
      genMethods cls ms

def genClass (c : ClassDecl) : Gen Unit := do
  let outer := (← get).currentClass
  modify fun b => { b with currentClass := c.name }
  genStaticFields c.name c.members
  genMethods nest c.name c.members
  modify fun b => { b with currentClass := outer }

/-- The start of `gen_namespace`: the classes are laid out once more, and the new
layouts do not know the functions of their methods. -/
def enterNamespace (name : String) (decls : List Decl) (b : Builder) : Builder :=
  let classes := (classesOf decls).map (·.name)
  { b with
    m := b.m.declare name decls
    methodFns := b.methodFns.filter fun entry => entry.1.1 ∉ classes
    currentNamespace := name }

mutual

/-- `gen_decl`.  The statements of a namespace come behind the end of a block. -/
def genDecl (namePrefix : String) : Decl → Gen Unit
  | .func f => do
      if !f.isCtor ∧ !f.isDtor then genFunc nest (mangle namePrefix f.name) f false
  | .cls c => genClass nest c
  | .namespaceDecl name decls _ => do
      let outer := (← get).currentNamespace
      modify (enterNamespace name decls)
      genDecls name decls
      modify fun b => { b with currentNamespace := outer }
  | .iface _ => return
  | .enum _ => return
  | .importDecl _ => return
  | .packageDecl _ => return
  | .externDecl _ => return

def genDecls (namePrefix : String) : List Decl → Gen Unit
  | [] => return
  | d :: ds => do
      genDecl namePrefix d
      genDecls namePrefix ds

end

end Functions

/-! ## Programs -/

/-- The types that `stdlib_table` gives the functions of the runtime. -/
def stdlibTypes : List (String × TypeId × List TypeId) :=
  [ ("duxrt_math_sqrt", TID_DOUBLE, [TID_DOUBLE]),
    ("duxrt_math_pow", TID_DOUBLE, [TID_DOUBLE, TID_DOUBLE]),
    ("duxrt_math_floor", TID_DOUBLE, [TID_DOUBLE]),
    ("duxrt_math_ceil", TID_DOUBLE, [TID_DOUBLE]),
    ("duxrt_math_abs_d", TID_DOUBLE, [TID_DOUBLE]),
    ("duxrt_math_log", TID_DOUBLE, [TID_DOUBLE]),
    ("duxrt_math_log2", TID_DOUBLE, [TID_DOUBLE]),
    ("duxrt_math_sin", TID_DOUBLE, [TID_DOUBLE]),
    ("duxrt_math_cos", TID_DOUBLE, [TID_DOUBLE]),
    ("duxrt_math_min_d", TID_DOUBLE, [TID_DOUBLE, TID_DOUBLE]),
    ("duxrt_math_max_d", TID_DOUBLE, [TID_DOUBLE, TID_DOUBLE]),
    ("duxrt_math_abs_i", TID_LONG, [TID_LONG]),
    ("duxrt_math_min_i", TID_LONG, [TID_LONG, TID_LONG]),
    ("duxrt_math_max_i", TID_LONG, [TID_LONG, TID_LONG]),
    ("duxrt_str_concat", TID_STR, [TID_STR, TID_STR]),
    ("duxrt_str_from_int", TID_STR, [TID_LONG]),
    ("duxrt_str_from_double", TID_STR, [TID_DOUBLE]),
    ("duxrt_str_length", TID_LONG, [TID_STR]),
    ("duxrt_str_slice", TID_STR, [TID_STR, TID_LONG, TID_LONG]),
    ("duxrt_str_index", TID_STR, [TID_STR, TID_LONG]),
    ("duxrt_str_eq", TID_INT, [TID_STR, TID_STR]),
    ("duxrt_str_ord", TID_LONG, [TID_STR]),
    ("duxrt_str_chr", TID_STR, [TID_LONG]),
    ("duxrt_str_cmp", TID_INT, [TID_STR, TID_STR]),
    ("duxrt_str_contains", TID_INT, [TID_STR, TID_STR]),
    ("duxrt_str_find", TID_LONG, [TID_STR, TID_STR]),
    ("duxrt_str_rfind", TID_LONG, [TID_STR, TID_STR]),
    ("duxrt_str_starts_with", TID_INT, [TID_STR, TID_STR]),
    ("duxrt_str_ends_with", TID_INT, [TID_STR, TID_STR]),
    ("duxrt_str_replace", TID_STR, [TID_STR, TID_STR, TID_STR]),
    ("duxrt_str_replace_all", TID_STR, [TID_STR, TID_STR, TID_STR]),
    ("duxrt_str_to_upper", TID_STR, [TID_STR]),
    ("duxrt_str_to_lower", TID_STR, [TID_STR]),
    ("duxrt_str_trim", TID_STR, [TID_STR]),
    ("duxrt_str_trim_start", TID_STR, [TID_STR]),
    ("duxrt_str_trim_end", TID_STR, [TID_STR]),
    ("duxrt_str_repeat", TID_STR, [TID_STR, TID_LONG]),
    ("duxrt_str_split", TID_LIST, [TID_STR, TID_STR]),
    ("duxrt_println_str", TID_VOID, [TID_STR]),
    ("duxrt_print_str", TID_VOID, [TID_STR]),
    ("duxrt_readline", TID_STR, []) ]

/-- The functions of the runtime, as an import declares them. -/
def importedTypes (types : TypeRegistry) : List (String × FnType) :=
  stdlibTypes.map fun (symbol, ret, params) =>
    (symbol, ⟨lowerType types ret, params.map fun t => ("", lowerType types t)⟩)

/-- The functions `declare_class_methods` enters into the layouts: those it has
just declared. -/
def methodFnsOf (types : TypeRegistry) (symbols : Symbols) (classes : List ClassDecl) :
    List ((String × String × String) × FnType) :=
  classes.flatMap fun c => c.members.filterMap fun
    | .field _ => none
    | .func f =>
        if f.isCtor || f.isDtor || f.isStatic then none
        else match symbols.lookup (mangleClassMember c.name f) with
          | some (.member cls g) =>
              if cls = c.name ∧ g.loc = f.loc then
                some ((c.name, f.name, f.modifier.getD ""), declaredType types [] (.member cls g))
              else none
          | _ => none

def Builder.start (prog : Program) : Builder :=
  let m := moduleOf prog
  { m := m
    declared := m.ls.types
    runtime := importedTypes m.ls.types
    methodFns := methodFnsOf m.ls.types m.functions (classesOf prog.decls) }

/-- Pass 3.5: the `thread_local` variables of the module. -/
def genThreadLocals : List Stmt → Gen Unit
  | [] => return
  | .varDecl _ type _ true decls :: ss => do
      let tid ← typeOr type TID_INT
      let t ← lower tid
      decls.forM fun | .mk name _ => envDefine name t tid
      genThreadLocals ss
  | _ :: ss => genThreadLocals ss

/-- The function that `emit_main_wrapper` wraps. -/
def userMain : Gen (Option FnType) := do
  match ← getFunction "main" with
  | some fn => return some fn
  | none =>
      let b ← get
      return (b.m.functions.reverse.find? fun (symbol, d) =>
        symbol.endsWith "__main" && (b.typeOf d).params.isEmpty).map fun (_, d) => b.typeOf d

/-- `emit_main_wrapper`: it calls the function without arguments. -/
def emitMainWrapper : Gen Unit := do
  match ← userMain with
  | some fn =>
      if fn.ret = .void ∨ fn.ret = .i32 ∨ fn.ret = .i64 then
        let _ ← createCall fn []
        site (.ret .i32 TID_VOID TID_VOID (some .i32))
  | none => return

/-- `Codegen::run`.  The statements of the module come behind the end of a
block. -/
def generate (nest : Nat) (prog : Program) : Gen Unit := do
  genThreadLocals prog.stmts
  genDecls nest "" prog.decls
  emitMainWrapper

def lowered (nest : Nat) (prog : Program) : Option (List Site) :=
  ((generate nest prog).run (Builder.start prog)).map fun result => result.2.sites.reverse

/-- Every instruction made for an accepted program is well typed. -/
def WellTypedLowering (prog : Program) : Prop :=
  ∀ prog' s, Sema.Accepts prog prog' s → ∀ nest sites, lowered nest prog' = some sites →
    ∀ i ∈ sites.flatMap (·.code), i.WellTyped

/-- Everywhere in an accepted program the operands are ones that the conversions
bring together. -/
def Convertible (prog : Program) : Prop :=
  ∀ prog' s, Sema.Accepts prog prog' s → ∀ nest sites, lowered nest prog' = some sites →
    ∀ site ∈ sites, site.Fits

theorem wellTypedLowering_iff_convertible (prog : Program) :
    WellTypedLowering prog ↔ Convertible prog := by
  have everywhere (sites : List Site) :
      (∀ i ∈ sites.flatMap (·.code), i.WellTyped) ↔ ∀ site ∈ sites, site.Fits := by
    simp only [List.mem_flatMap, forall_exists_index, and_imp]
    constructor
    · intro wellTyped site member
      exact (wellTyped_code_iff site).1 fun i inCode => wellTyped i site member inCode
    · intro fits i site member inCode
      exact (wellTyped_code_iff site).2 (fits site member) i inCode
  simp only [WellTypedLowering, Convertible, everywhere]

/-- `double scale(real factor, int count) { return factor * count; }`. -/
def realTimesInt : Program where
  decls := [.func {
    loc := ⟨1, 1⟩, returnType := { name := "double" }, name := "scale"
    params := [⟨{ name := "real" }, "factor"⟩, ⟨{ name := "int" }, "count"⟩]
    body := some [.returnStmt (some (.binary 0 .mul (.ident 0 "factor") (.ident 0 "count")))] }]
  stmts := []

/-- The `int` becomes a `double`, and the `real` stays a `float`. -/
theorem not_wellTypedLowering : ¬ ∀ prog, WellTypedLowering prog := by
  intro always
  obtain ⟨prog', s, accepts, shows⟩ := Sema.exists_accepts realTimesInt
    (fun prog' _ => (lowered 0 prog').any fun (sites : List Site) =>
      decide (Instr.fpOp .float .double ∈ sites.flatMap (·.code)))
    (by decide +kernel)
  obtain ⟨sites, lowers, member⟩ := Option.any_eq_true _ _ |>.1 shows
  have wellTyped := always realTimesInt prog' s accepts 0 sites lowers _ (of_decide_eq_true member)
  cases wellTyped.1

end Dux.Codegen.Typing
