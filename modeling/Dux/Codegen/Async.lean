import Dux.Codegen.Tasks

/-!
# Asynchronous functions

`gen_async_func` (`src/codegen/codegen.cpp`) makes three functions of one: the
launcher boxes its arguments into a block and hands it to a pool thread, the
thunk unboxes the block and calls the body, and the body gives its result to a
future, for which `await` waits (`src/runtime/future_rt.c`).
-/

namespace Dux.Codegen

open TypeRegistry

/-! ## Lambdas in the body -/

mutual

/-- The bodies of the lambdas that are generated with an expression, without
those inside these bodies. -/
def lambdasOf : Expr → List (List Stmt)
  | .lambda _ _ body _ _ => [body]
  | .binary _ _ left right => lambdasOf left ++ lambdasOf right
  | .unary _ _ operand _ => lambdasOf operand
  | .assign _ _ target value => lambdasOf target ++ lambdasOf value
  | .call _ callee args => lambdasOf callee ++ lambdasOfAll args
  | .member _ object _ => lambdasOf object
  | .index _ object index => lambdasOf object ++ lambdasOf index
  | .new _ _ args => lambdasOfAll args
  | .list _ elements => lambdasOfAll elements
  | .dict _ pairs => lambdasOfPairs pairs
  | .await _ operand => lambdasOf operand
  | .intLit _ _ | .longLit _ _ | .floatLit _ _ | .realLit _ _ | .stringLit _ _ | .boolLit _ _
  | .nullLit _ | .ident _ _ | .this _ | .super _ => []

def lambdasOfAll : List Expr → List (List Stmt)
  | [] => []
  | e :: es => lambdasOf e ++ lambdasOfAll es

def lambdasOfPairs : List DictPair → List (List Stmt)
  | [] => []
  | .mk key value :: ps => lambdasOf key ++ lambdasOf value ++ lambdasOfPairs ps

end

def lambdaBodies (is : List Instr) : List (List Stmt) :=
  (opsOf is).flatMap fun
    | .eval e | .delete e => lambdasOf e
    | _ => []

mutual

def Instr.returns : Instr → Bool
  | .ret => true
  | .branch _ arms => armsReturn arms
  | .loop _ test _ body next => codeReturns test || codeReturns body || codeReturns next
  | .switch _ cases => armsReturn cases
  | .tryCatch body _ pad exit handler =>
      codeReturns body || codeReturns pad || codeReturns exit || codeReturns handler
  | .op _ | .mark _ | .br _ _ | .raise | .escape | .abort => false

def codeReturns : List Instr → Bool
  | [] => false
  | i :: is => i.returns || codeReturns is

def armsReturn : List (List Instr) → Bool
  | [] => false
  | is :: arms => codeReturns is || armsReturn arms

end

/-- Whether the lambdas in the body of an asynchronous function can be generated,
nested at most `depth` deep.  `gen_lambda` leaves `current_async_future_` as it
is, so a `return` in a lambda refers to a value of another function. -/
def lambdasLower (ls : Layouts) (nest : Nat) : Nat → List Instr → Bool
  | 0, is => (lambdaBodies is).isEmpty
  | depth + 1, is => (lambdaBodies is).all fun body =>
      match genLevel ls (nest + 1) body ⟨[{}], []⟩ with
      | some r => !codeReturns r.code && lambdasLower ls nest depth r.code
      | none => false

/-- The body function of `gen_async_func`, which starts with empty scopes. -/
def Module.asyncBody (m : Module) (nest depth : Nat) (f : FunctionDecl) : Option (List Instr) := do
  let body ← f.body
  let is ← genFunction m.ls nest [] body
  if lambdasLower m.ls nest depth is then return asyncCode is else none

/-! ## Launcher and thunk -/

section Signature

variable (types : TypeRegistry)

def paramTypes (f : FunctionDecl) : List LlvmType :=
  f.params.map fun p => lowerTypeExpr types p.type

def returnType (f : FunctionDecl) : LlvmType :=
  let tid := types.fromTypeExpr f.returnType
  lowerType types (if tid = TID_UNKNOWN then TID_VOID else tid)

/-- Whether a method has a receiver. -/
def Declared.hasReceiver : Declared → Bool
  | .member _ f => !f.isStatic
  | .func _ | .external _ | .runtime _ _ => false

/-- The parameters the launcher was declared with. -/
def launcherParams (d : Declared) (f : FunctionDecl) : List LlvmType :=
  (if d.hasReceiver then [.ptr] else []) ++ paramTypes types f

/-- What the launcher was declared to return: `declare_function` knows about
asynchronous functions, `declare_class_methods` does not. -/
def launcherReturn (d : Declared) (f : FunctionDecl) : LlvmType :=
  match d with
  | .member _ _ => returnType types f
  | .func _ | .external _ | .runtime _ _ => .ptr

def Declared.function? : Declared → Option FunctionDecl
  | .func f | .member _ f => some f
  | .external _ | .runtime _ _ => none

/-- The names a plain function knows its arguments by. -/
def plainNames (d : Declared) (f : FunctionDecl) : List String :=
  (if d.hasReceiver then ["this"] else []) ++ f.params.map (·.name)

/-- The slots of the argument block behind the future. -/
def boxParams : List LlvmValue → Option (List LlvmValue)
  | [] => some []
  | v :: vs => do
      let raw ← boxParam v
      return raw :: (← boxParams vs)

/-- The launcher boxes as many of its own arguments as the function has
parameters. -/
def argumentBlock (f : FunctionDecl) (args : List LlvmValue) : Option (List LlvmValue) :=
  boxParams (args.take f.params.length)

/-- The arguments of the call of the body; the call has to fit. -/
def unboxParams : List LlvmType → List LlvmValue → Option (List LlvmValue)
  | [], _ => some []
  | _ :: _, [] => none
  | t :: ts, raw :: block => do
      let v ← unboxParam t raw
      if v.type = t then return v :: (← unboxParams ts block) else none

def taskBindings (f : FunctionDecl) (args : List LlvmValue) : Option (List (String × LlvmValue)) :=
  do
    let block ← argumentBlock f args
    let vs ← unboxParams (paramTypes types f) block
    return (f.params.map (·.name)).zip vs

end Signature

/-- The values that an `await` of this type may find, one for each call of
`duxrt_future_set`. -/
def awaited (expected : TypeId) (results : List (Option LlvmValue)) : List (Option LlvmValue) :=
  results.map fun v => (boxResult v).bind (unboxResult expected)

/-- An id that semantic analysis gives the calls of the function. -/
def CallType (f : FunctionDecl) (tid : TypeId) : Prop :=
  ∃ s s' : Sema.State, s.types.HasBuiltins ∧ Sema.typeFromTe f.returnType s = some (tid, s')

/-- An `await` of a call is the function itself.  The body starts with the
receiver and the arguments of the call; whatever it returns comes through the
future; and where it returns, it has set the future once, to what a plain
function would have returned. -/
structure Transparent (m : Module) (nest depth : Nat) (d : Declared) (f : FunctionDecl) :
    Prop where
  lowered : launcherReturn m.ls.types d f = .ptr ∧ (m.asyncBody nest depth f).isSome = true
  arguments : ∀ args, args.map (·.type) = launcherParams m.ls.types d f →
    taskBindings m.ls.types f args = some ((plainNames d f).zip args)
  result : returnType m.ls.types f ≠ .void → ∀ tid, CallType f tid →
    ∀ v, v.type = returnType m.ls.types f → awaited tid [some v] = [some v]
  once : ∀ is, m.asyncBody nest depth f = some is → ∀ {σ : Type} (W : World σ)
    (value : σ → LlvmValue), (∀ w, (value w).type = returnType m.ls.types f) →
      ∀ N w, Calm (runTask W value N is w) → (runTask W value N is w).1 = .ret →
        ∃ v, (runTask W value N is w).2.world.results = [v] ∧
          (returnType m.ls.types f ≠ .void → ∀ tid, CallType f tid →
            awaited tid [v] = [some (v.getD (returnType m.ls.types f).null)])

/-- The function is no method with a receiver, no value of it is a `real` or an
enum without payloads that is returned, and no lambda in it has a `return`. -/
structure Carried (m : Module) (nest depth : Nat) (d : Declared) (f : FunctionDecl) : Prop where
  receiver : d.hasReceiver = false
  launcher : launcherReturn m.ls.types d f = .ptr
  params : ∀ t ∈ paramTypes m.ls.types f, t ≠ .float ∧ t ≠ .void
  notReal : returnType m.ls.types f ≠ .float
  notEnum : returnType m.ls.types f = .i32 → m.ls.types.fromTypeExpr f.returnType = TID_INT
  lambdas : ∀ body is, f.body = some body → genFunction m.ls nest [] body = some is →
    lambdasLower m.ls nest depth is = true

/-! ## Types in the two passes -/

theorem Generating.hasBuiltins {prog : Program} {m : Module} (generating : Generating prog m) :
    m.ls.types.HasBuiltins := by
  induction generating with
  | passes =>
      rw [HasBuiltins, moduleOf, Module.declare, entries_buildLayouts, processImports_ls]
      exact Logic.prefix_internAll
  | enter _ _ ih =>
      rw [HasBuiltins, Module.declare, entries_buildLayouts]
      exact ih.trans Logic.prefix_internAll
  | body _ _ _ ih => exact ih

theorem fromName_initial_of_head {name : String} (head : name.toList.head? = some '_') :
    initial.fromName name = TID_UNKNOWN := by
  have builtin : ∀ ti ∈ initial.types, ti.name.toList.head? ≠ some '_' := by decide
  unfold fromName
  rw [if_neg]
  · have absent : initial.byName name = none := by
      rw [byName, List.findIdx?_eq_none_iff]
      intro ti member
      exact decide_eq_false fun same => builtin ti member (same ▸ head)
    rw [absent]
  · rintro rfl
    cases head

theorem head_fnSignature (params : List TypeExpr) (ret : String) :
    (Sema.fnSignature params ret).toList.head? = some '_' := by
  simp [Sema.fnSignature]

theorem user_intern {r : TypeRegistry} (start : r.HasBuiltins) {name : String}
    (head : name.toList.head? = some '_') (kind : TypeKind) :
    (builtins.length : TypeId) ≤ (r.intern name kind).1 := by
  have length : builtins.length ≤ r.types.length := by
    have inTable := start.length_le
    rwa [entries, entries, List.length_map, List.length_map] at inTable
  have unknown := fromName_initial_of_head head
  have notPtr : name ≠ "ptr" := by
    rintro rfl
    cases head
  unfold intern
  cases found : r.byName name with
  | none => exact Int.ofNat_le.2 length
  | some i =>
      rcases fromName_of_hasBuiltins start name with same | ⟨_, user⟩
      · rw [unknown, fromName, if_neg notPtr, found] at same
        cases same
      · rw [fromName, if_neg notPtr, found] at user
        exact user

theorem unboxedType_of_callType {types : TypeRegistry} (start : types.HasBuiltins)
    {f : FunctionDecl} {tid : TypeId} (called : CallType f tid) :
    unboxedType tid = unboxedType (types.fromTypeExpr f.returnType) := by
  obtain ⟨s, s', start', ran⟩ := called
  by_cases isFn : f.returnType.name = "__fn"
  · have interned : tid = (s.types.intern
        (Sema.fnSignature f.returnType.fnParams f.returnType.fnRet) .function).1 := by
      obtain ⟨_, interns⟩ := Sema.typeFromTe_fn isFn s
      exact congrArg Prod.fst (Option.some.inj (ran.symm.trans interns))
    rw [interned, unboxedType_of_user (user_intern start' (head_fnSignature _ _) _), fromTypeExpr,
      isFn, unboxedType_fromName start]
    rfl
  · unfold Sema.typeFromTe at ran
    split_ifs at ran with isPtr
    · cases ran
      rw [fromTypeExpr, isPtr]
      rfl
    · cases ran
      rw [fromTypeExpr, fromTypeExpr, unboxedType_fromName start, unboxedType_fromName start']

theorem exists_callType (f : FunctionDecl) : ∃ tid, CallType f tid := by
  have total : ∃ r, Sema.typeFromTe f.returnType Sema.State.initial = some r := by
    by_cases isFn : f.returnType.name = "__fn"
    · obtain ⟨_, interns⟩ := Sema.typeFromTe_fn isFn Sema.State.initial
      exact ⟨_, interns⟩
    · unfold Sema.typeFromTe
      split_ifs
      · exact ⟨_, rfl⟩
      · exact ⟨_, rfl⟩
  obtain ⟨⟨tid, s'⟩, ran⟩ := total
  exact ⟨tid, Sema.State.initial, s', List.prefix_refl _, ran⟩

theorem lowerType_cases (types : TypeRegistry) (t : TypeId) :
    lowerType types t = .void ∨ lowerType types t = unboxedType t ∨
      lowerType types t = .float ∨ lowerType types t = .i32 ∧ t ≠ TID_INT := by
  unfold lowerType
  split_ifs with isVoid isBool isInt isLong isReal isDouble isPtr
  · exact .inl rfl
  · exact .inr (.inl (isBool ▸ rfl))
  · exact .inr (.inl (isInt ▸ rfl))
  · exact .inr (.inl (isLong ▸ rfl))
  · exact .inr (.inr (.inl rfl))
  · exact .inr (.inl (isDouble ▸ rfl))
  · exact .inr (.inl (by simp [unboxedType, isBool, isInt, isLong, isDouble]))
  · unfold lowerUserType
    split_ifs
    · exact .inr (.inl (by simp [unboxedType, isBool, isInt, isLong, isDouble]))
    · exact .inr (.inr (.inr ⟨rfl, isInt⟩))
    · exact .inr (.inl (by simp [unboxedType, isBool, isInt, isLong, isDouble]))

/-! ## Arguments -/

section Arguments

variable {types : TypeRegistry}

theorem map_type_null (ts : List LlvmType) : (ts.map LlvmType.null).map (·.type) = ts := by
  rw [List.map_map]
  exact (List.map_congr_left fun t _ => type_null t).trans (List.map_id ts)

theorem exists_ptr_of_boxParam {v raw : LlvmValue} (boxes : boxParam v = some raw) :
    ∃ b, raw = .ptr b := by
  cases v with
  | void | i1 | i32 | i64 | float | double | ptr =>
      cases boxes
      exact ⟨_, rfl⟩

theorem fits_of_unboxParams {ts : List LlvmType} {args block vs : List LlvmValue}
    (boxes : boxParams args = some block) (unboxes : unboxParams ts block = some vs) :
    vs.length = ts.length ∧ ∀ t ∈ ts, t ≠ .float ∧ t ≠ .void := by
  induction args generalizing ts block vs with
  | nil =>
      cases boxes
      cases ts with
      | nil =>
          cases unboxes
          exact ⟨rfl, nofun⟩
      | cons t ts => cases unboxes
  | cons arg args ih =>
      obtain ⟨raw, boxed, rest⟩ := Option.bind_eq_some_iff.1 boxes
      obtain ⟨block', boxes', same⟩ := Option.bind_eq_some_iff.1 rest
      cases same
      cases ts with
      | nil =>
          cases unboxes
          exact ⟨rfl, nofun⟩
      | cons t ts =>
          obtain ⟨v, unboxed, rest⟩ := Option.bind_eq_some_iff.1 unboxes
          split at rest
          next fits =>
            obtain ⟨vs', unboxes', same⟩ := Option.bind_eq_some_iff.1 rest
            cases same
            obtain ⟨length, each⟩ := ih boxes' unboxes'
            refine ⟨by rw [List.length_cons, List.length_cons, length],
              List.forall_mem_cons.2 ⟨?_, each⟩⟩
            obtain ⟨b, rfl⟩ := exists_ptr_of_boxParam boxed
            constructor
            · rintro rfl
              cases unboxed
              cases fits
            · rintro rfl
              cases unboxed
              cases fits
          next => cases rest

theorem unboxParams_boxParams {args : List LlvmValue}
    (fits : ∀ v ∈ args, v.type ≠ .float ∧ v.type ≠ .void) :
    (boxParams args).bind (unboxParams (args.map (·.type))) = some args := by
  induction args with
  | nil => rfl
  | cons v args ih =>
      obtain ⟨here, rest⟩ := List.forall_mem_cons.1 fits
      obtain ⟨raw, boxed, unboxed⟩ :=
        Option.bind_eq_some_iff.1 ((unboxParam_boxParam_iff v).2 here)
      obtain ⟨block, boxes, unboxes⟩ := Option.bind_eq_some_iff.1 (ih rest)
      simp [boxParams, unboxParams, boxed, unboxed, boxes, unboxes]

end Arguments

/-! ## Transparency -/

section Transparency

variable {prog : Program} {m : Module} {nest depth : Nat} {d : Declared} {f : FunctionDecl}

theorem asyncBody_eq_some {body : List Stmt} {is js : List Instr} (hasBody : f.body = some body)
    (emits : genFunction m.ls nest [] body = some is) :
    m.asyncBody nest depth f = some js ↔
      lambdasLower m.ls nest depth is = true ∧ js = asyncCode is := by
  simp only [Module.asyncBody, hasBody, emits, Option.bind_eq_bind, Option.bind_some]
  split
  · next lowers => simp [lowers, eq_comm]
  · next lowers => simp [lowers]

theorem awaited_some_iff {types : TypeRegistry} (start : types.HasBuiltins) {tid : TypeId}
    (called : CallType f tid) (v : LlvmValue) :
    awaited tid [some v] = [some v] ↔
      v.type = unboxedType (types.fromTypeExpr f.returnType) := by
  rw [← unboxedType_of_callType start called, ← unboxResult_boxResult_iff]
  simp [awaited]

theorem Carried.returnType_eq (carried : Carried m nest depth d f)
    (notVoid : returnType m.ls.types f ≠ .void) :
    returnType m.ls.types f = unboxedType (m.ls.types.fromTypeExpr f.returnType) := by
  have notReal := carried.notReal
  have notEnum := carried.notEnum
  simp only [returnType] at notVoid notReal notEnum ⊢
  by_cases unknown : m.ls.types.fromTypeExpr f.returnType = TID_UNKNOWN
  · rw [if_pos unknown] at notVoid
    exact absurd rfl notVoid
  · rw [if_neg unknown] at notVoid notReal notEnum ⊢
    rcases lowerType_cases m.ls.types (m.ls.types.fromTypeExpr f.returnType) with
      isVoid | same | isFloat | ⟨isI32, notInt⟩
    · exact absurd isVoid notVoid
    · exact same
    · exact absurd isFloat notReal
    · exact absurd (notEnum isI32) notInt

theorem Carried.transparent (carried : Carried m nest depth d f)
    (generating : Generating prog m) {body : List Stmt} {is : List Instr}
    (hasBody : f.body = some body) (emits : genFunction m.ls nest [] body = some is) :
    Transparent m nest depth d f := by
  have start := generating.hasBuiltins
  have result : returnType m.ls.types f ≠ .void → ∀ tid, CallType f tid →
      ∀ v, v.type = returnType m.ls.types f → awaited tid [some v] = [some v] :=
    fun notVoid tid called v typed =>
      (awaited_some_iff start called v).2 (typed.trans (carried.returnType_eq notVoid))
  constructor
  · refine ⟨carried.launcher, ?_⟩
    rw [(asyncBody_eq_some hasBody emits).2 ⟨carried.lambdas body is hasBody emits, rfl⟩]
    rfl
  · intro args typed
    have noReceiver := carried.receiver
    simp only [launcherParams, noReceiver, Bool.false_eq_true, if_false, List.nil_append] at typed
    have length : args.length = f.params.length := by
      simpa [paramTypes] using congrArg List.length typed
    have fits : ∀ v ∈ args, v.type ≠ .float ∧ v.type ≠ .void := fun v member =>
      carried.params _ (typed ▸ List.mem_map_of_mem member)
    have arrives := unboxParams_boxParams fits
    rw [typed] at arrives
    obtain ⟨block, boxes, unboxes⟩ := Option.bind_eq_some_iff.1 arrives
    simp [taskBindings, argumentBlock, plainNames, noReceiver, ← length, boxes, unboxes]
  · exact result
  · intro js lowered σ W value typed N w calm returned
    obtain ⟨_, rfl⟩ := (asyncBody_eq_some hasBody emits).1 lowered
    obtain ⟨v, results⟩ := (exists_results_iff emits returned).2 calm.2.2
    refine ⟨v, results, fun notVoid tid called => ?_⟩
    cases v with
    | some v =>
        have inResults := type_of_mem_results typed (asyncCode is) w (some v)
          (results ▸ List.mem_singleton_self _) v rfl
        exact result notVoid tid called v inResults
    | none =>
        rw [awaited, List.map_cons, unboxResult_boxResult_none,
          unboxedType_of_callType start called, ← carried.returnType_eq notVoid]
        rfl

theorem Transparent.carried (transparent : Transparent m nest depth d f)
    (generating : Generating prog m) : Carried m nest depth d f := by
  have start := generating.hasBuiltins
  have typed := map_type_null (launcherParams m.ls.types d f)
  have arrives := transparent.arguments _ typed
  simp only [taskBindings, Option.bind_eq_bind] at arrives
  obtain ⟨block, boxes, rest⟩ := Option.bind_eq_some_iff.1 arrives
  obtain ⟨vs, unboxes, bound⟩ := Option.bind_eq_some_iff.1 rest
  obtain ⟨length, params⟩ := fits_of_unboxParams boxes unboxes
  obtain ⟨tid, called⟩ := exists_callType f
  have result : returnType m.ls.types f ≠ .void →
      returnType m.ls.types f = unboxedType (m.ls.types.fromTypeExpr f.returnType) := by
    intro notVoid
    have survives := transparent.result notVoid tid called _ (type_null _)
    exact (type_null _).symm.trans ((awaited_some_iff start called _).1 survives)
  constructor
  · by_contra receiver
    rw [Bool.not_eq_false] at receiver
    have lengths := congrArg List.length (Option.some.inj bound)
    simp [plainNames, launcherParams, paramTypes, receiver, length] at lengths
  · exact transparent.lowered.1
  · exact params
  · intro isFloat
    have same := result (by rw [isFloat]; simp)
    exact (unboxedType_ne _).1 (same.symm.trans isFloat)
  · intro isI32
    have same := result (by rw [isI32]; simp)
    rw [isI32] at same
    by_contra notInt
    unfold unboxedType at same
    rw [if_neg notInt] at same
    split_ifs at same
  · intro body is hasBody emits
    obtain ⟨js, lowered⟩ := Option.isSome_iff_exists.1 transparent.lowered.2
    exact ((asyncBody_eq_some hasBody emits).1 lowered).1

end Transparency

/-- `async int twice(int x) { return x + x; }`. -/
def asyncTwice : Program where
  decls := [.func {
    loc := ⟨1, 1⟩, returnType := { name := "int" }, name := "twice"
    params := [⟨{ name := "int" }, "x"⟩], isAsync := true
    body := some [.returnStmt (some (.binary 0 .add (.ident 0 "x") (.ident 0 "x")))] }]
  stmts := []

def checkTwice (m : Module) : Bool :=
  match m.functions.lookup "twice" with
  | some (.func f) =>
      match f.body with
      | some body =>
          match genFunction m.ls 0 [] body with
          | some is => lambdasLower m.ls 0 0 is && paramTypes m.ls.types f = [.i32] &&
              m.ls.types.fromTypeExpr f.returnType = TID_INT
          | none => false
      | none => false
  | _ => false

/-- `class Box { async str echo(str s) { return s; } }`. -/
def asyncMethod : Program where
  decls := [.cls {
    name := "Box"
    members := [.func {
      loc := ⟨1, 1⟩, returnType := { name := "str" }, name := "echo"
      params := [⟨{ name := "str" }, "s"⟩], isAsync := true
      body := some [.returnStmt (some (.ident 0 "s"))] }] }]
  stmts := []

def checkEcho (m : Module) : Bool :=
  match m.functions.lookup "Box__echo" with
  | some (.member cls f) => f.isAsync &&
      f.body.any (fun body => (genFunction m.ls 0 [] body).isSome) &&
      launcherParams m.ls.types (.member cls f) f = [.ptr, .ptr] &&
      taskBindings m.ls.types f [.ptr 1, .ptr 2] ≠
        some ((plainNames (.member cls f) f).zip [.ptr 1, .ptr 2])
  | _ => false

end Dux.Codegen
