import Dux.Codegen.Dispatch
import Dux.Codegen.Sites

/-!
# Overloaded operators

`check_binary` and `check_index` (`src/sema/sema.cpp`) look for an operator method among the members
of one class, found by the name of the operand's type.  `gen_binary` and `gen_index`
(`src/codegen/codegen.cpp`) look for a function by the name of the class that the operand is
resolved to.  Neither goes on to a base.
-/

namespace Dux.Codegen.Typing

open TypeRegistry

/-! ## The two passes -/

/-- An expression with an operator that a class may declare. -/
inductive Operation
  | binary (op : BinOp)
  | index

namespace Operation

def method : Operation → Option String
  | binary op => Sema.opMethod op
  | index => some "operator__index"

/-- What analysis makes of it once the operands are checked. -/
def check (o : Operation) (left right : Expr) : Sema.M TypeId :=
  match o with
  | binary op => Sema.checkBinary op left right
  | index => Sema.checkIndex left right

/-- The rule for operands that are no instances, as for those without such a method. -/
def builtin (o : Operation) (left right : Expr) : Sema.M TypeId :=
  match o with
  | binary op => Sema.checkPrimitiveBinary op left.tid right.tid
  | index => do
      if left.tid = TID_LIST then
        if !isIntegral right.tid ∧ right.tid ≠ TID_UNKNOWN then
          Sema.err ("list index must be integral, got '" ++
            (← get).types.nameOf right.tid ++ "'")
        return TID_UNKNOWN
      else if left.tid = TID_STR then return TID_STR
      else return TID_UNKNOWN

/-- What is generated for it once the operands are there. -/
def generate (o : Operation) (left right : Expr) (lv rv : Value) : Gen Value :=
  match o with
  | binary op => genBinary op left right lv rv
  | index => indexOf left right lv rv

end Operation

def Builder.classOf (b : Builder) (obj : Expr) : String :=
  b.m.resolveClassName b.currentClass b.varClass obj obj.tid

/-- The function that an operator on an operand is dispatched to. -/
def Builder.operatorCallee (b : Builder) (obj : Expr) (method : String) : Option Declared :=
  if b.classOf obj = "" then none else b.m.functions.lookup (mangle (b.classOf obj) method)

section Passes

variable {o : Operation} {method : String} {left right : Expr}

theorem check_eq (isMethod : o.method = some method) :
    o.check left right = Sema.overload left method >>= fun found =>
      found.elim (o.builtin left right) fun f => Sema.typeFromTe f.returnType := by
  cases o with
  | binary op =>
      simp only [Operation.check, Sema.checkBinary, Operation.builtin]
      rw [show Sema.opMethod op = some method from isMethod]
      refine congrArg (Sema.overload left method >>= ·) (funext fun found => ?_)
      cases found with
      | none => rfl
      | some f => rfl
  | index =>
      cases isMethod
      refine congrArg (Sema.overload left "operator__index" >>= ·) (funext fun found => ?_)
      cases found with
      | none => rfl
      | some f => rfl

theorem generate_of_callee (isMethod : o.method = some method) {lv rv : Value} {b : Builder}
    {d : Declared} (callee : b.operatorCallee left method = some d) :
    (o.generate left right lv rv).run b =
      (emitCall (b.typeOf d) [asIs lv, asIs rv]).run b := by
  unfold Builder.operatorCallee at callee
  split_ifs at callee with resolved
  have found : (getFunction (mangle (b.classOf left) method)).run b =
      some (some (b.typeOf d), b) := by
    simp [getFunction, callee]
  cases o with
  | binary op =>
      have dispatched : (overloadOf left (Sema.opMethod op)).run b =
          some (some (b.typeOf d), b) := by
        rw [show Sema.opMethod op = some method from isMethod]
        exact (congrFun (if_neg resolved) b).trans found
      rw [Operation.generate, genBinary, StateT.run_bind, dispatched]
      rfl
  | index =>
      cases isMethod
      rw [Operation.generate, indexOf]
      refine (congrFun (if_neg resolved) b).trans ?_
      change (getFunction (mangle (b.classOf left) "operator__index") >>= _).run b = _
      rw [StateT.run_bind, found]
      rfl

end Passes

/-! ## What is to happen -/

/-- Analysis accepts the expression and records this type. -/
def Accepts (s : Sema.State) (o : Operation) (left right : Expr) (t : TypeId) : Prop :=
  ∃ s', (o.check left right).run s = some (t, s') ∧ s'.errors = s.errors

/-- The type that a type expression stands for in a state of analysis. -/
def Denotes (s : Sema.State) (te : TypeExpr) (t : TypeId) : Prop :=
  ∃ s', (Sema.typeFromTe te).run s = some (t, s')

/-- The method nearest to the class of `a` is called with `a` and with `b` as a value of the type of
the parameter, and analysis has recorded the type that the method returns. -/
def Resolved (classes : List ClassDecl) (o : Operation) (method : String) (s : Sema.State)
    (b : Builder) (left right : Expr) (lv rv : Value) (cls : String) (t : TypeId) : Prop :=
  ∃ c f, Nearest classes method cls (.member c f) ∧
    b.operatorCallee left method = some (.member c f) ∧
    (o.generate left right lv rv).run b =
      (emitCall (b.typeOf (.member c f)) [asIs lv, asIs rv]).run b ∧
    (b.typeOf (.member c f)).params.map (·.2) = [lv.type, rv.type] ∧ Denotes s f.returnType t

/-- Analysis finds an operator method that returns this type, or finds none and the rule for other
operands gives it. -/
def Finds (s : Sema.State) (o : Operation) (method : String) (left right : Expr)
    (t : TypeId) : Prop :=
  (∃ g, (Sema.overload left method).run s = some (some g, s) ∧ Denotes s g.returnType t) ∨
    (Sema.overload left method).run s = some (none, s) ∧
      ∃ s', (o.builtin left right).run s = some (t, s')

/-- The class that the operand is resolved to declares the operator itself, with its symbol and
with a parameter of the type that `b` has already, and is the nearest to the class of `a` to do so;
and analysis comes to the type that the method returns. -/
def Direct (classes : List ClassDecl) (o : Operation) (method : String) (s : Sema.State)
    (b : Builder) (left right : Expr) (lv rv : Value) (cls : String) : Prop :=
  ∃ c ∈ classes, ∃ f, methodOf method c.members = some f ∧
    Nearest classes method cls (.member c.name f) ∧ b.classOf left = c.name ∧
    b.m.functions.lookup (mangle c.name method) = some (.member c.name f) ∧
    lv.type = .ptr ∧ paramTypes b.declared f = [rv.type] ∧
    ∃ t, Denotes s f.returnType t ∧ Finds s o method left right t

/-! ## When it does -/

theorem overload_pure (obj : Expr) (method : String) (s : Sema.State) :
    ∃ found, (Sema.overload obj method).run s = some (found, s) := by
  unfold Sema.overload
  rw [StateT.run_bind, StateT.run_get]
  dsimp only [Option.pure_def, Option.bind_eq_bind, Option.bind_some]
  split_ifs
  all_goals first
    | exact ⟨none, rfl⟩
    | split
      · exact ⟨_, rfl⟩
      · exact ⟨none, rfl⟩

theorem typeOf_member_params (b : Builder) (cls : String) {f : FunctionDecl}
    (ordinary : isMethod f = true) :
    (b.typeOf (.member cls f)).params.map (·.2) = .ptr :: paramTypes b.declared f := by
  have receiver : (Declared.member cls f).hasReceiver = true := by
    simp only [isMethod, Bool.and_eq_true] at ordinary
    exact ordinary.1.2
  have lengths : (plainNames (.member cls f) f).length =
      (launcherParams b.declared (.member cls f) f).length := by
    simp [plainNames, launcherParams, paramTypes, receiver]
  change ((plainNames (.member cls f) f).zip
    (launcherParams b.declared (.member cls f) f)).map Prod.snd = _
  rw [List.map_snd_zip (Nat.le_of_eq lengths.symm), launcherParams, if_pos receiver]
  rfl

section Meets

variable {prog : Program} {s : Sema.State} {b : Builder} {o : Operation} {method : String}
  {left right : Expr} {lv rv : Value} {t : TypeId}

theorem finds_of_check (isMethod : o.method = some method) {s' : Sema.State}
    (checked : (o.check left right).run s = some (t, s')) : Finds s o method left right t := by
  rw [check_eq isMethod] at checked
  obtain ⟨found, overloads⟩ := overload_pure left method s
  rw [StateT.run_bind, overloads] at checked
  cases found with
  | some g => exact .inl ⟨g, overloads, s', checked⟩
  | none => exact .inr ⟨overloads, s', checked⟩

theorem Denotes.unique {te : TypeExpr} {t' : TypeId} (denotes : Denotes s te t)
    (denotes' : Denotes s te t') : t = t' := by
  obtain ⟨s₁, run⟩ := denotes
  obtain ⟨s₂, run'⟩ := denotes'
  rw [run] at run'
  cases run'
  rfl

theorem Finds.unique {t' : TypeId} (finds : Finds s o method left right t)
    (finds' : Finds s o method left right t') : t = t' := by
  rcases finds with ⟨g, overloads, denotes⟩ | ⟨overloads, s₁, run⟩ <;>
    rcases finds' with ⟨g', overloads', denotes'⟩ | ⟨overloads', s₂, run'⟩ <;>
    rw [overloads] at overloads' <;> cases overloads'
  · exact denotes.unique denotes'
  · rw [run] at run'
    cases run'
    rfl

/-- The symbol of a method belongs to the class that declares it. -/
theorem operatorCallee_eq_iff (generating : Generating prog b.m) {c : ClassDecl} {f : FunctionDecl}
    (named : c.name ≠ "") (declares : methodOf method c.members = some f) :
    b.operatorCallee left method = some (.member c.name f) ↔
      b.classOf left = c.name ∧
        b.m.functions.lookup (mangle c.name method) = some (.member c.name f) := by
  obtain ⟨-, ordinary, isName⟩ := methodOf_spec declares
  unfold Builder.operatorCallee
  constructor
  · intro callee
    split_ifs at callee with resolved
    have symbol := generating.sound _ _ _ callee
    rw [mangleClassMember_of_isMethod _ ordinary, isName] at symbol
    have same := mangle_inj symbol
    exact ⟨same, same ▸ callee⟩
  · rintro ⟨same, untaken⟩
    rw [same, if_neg named]
    exact untaken

/-- An accepted operator on an instance is resolved exactly if it is direct. -/
theorem resolved_iff_direct (generating : Generating prog b.m)
    (named : ∀ c ∈ classesOf prog.decls, c.name ≠ "") (isMethod : o.method = some method)
    (accepts : Accepts s o left right t) (cls : String) :
    Resolved (classesOf prog.decls) o method s b left right lv rv cls t ↔
      Direct (classesOf prog.decls) o method s b left right lv rv cls := by
  obtain ⟨s', checked, -⟩ := accepts
  have finds := finds_of_check isMethod checked
  constructor
  · rintro ⟨c, f, nearest, callee, -, handed, denotes⟩
    obtain ⟨decl, isClass, f', declares, same⟩ := nearest.declared
    cases same
    obtain ⟨resolved, untaken⟩ :=
      (operatorCallee_eq_iff generating (named decl isClass) declares).1 callee
    rw [typeOf_member_params b _ (methodOf_spec declares).2.1, List.cons.injEq] at handed
    exact ⟨decl, isClass, f, declares, nearest, resolved, untaken, handed.1.symm, handed.2, t,
      denotes, finds⟩
  · rintro ⟨c, isClass, f, declares, nearest, resolved, untaken, receiver, params, t', denotes,
      finds'⟩
    obtain rfl := finds.unique finds'
    have callee : b.operatorCallee left method = some (.member c.name f) :=
      (operatorCallee_eq_iff generating (named c isClass) declares).2 ⟨resolved, untaken⟩
    refine ⟨c.name, f, nearest, callee, generate_of_callee isMethod callee, ?_, denotes⟩
    rw [typeOf_member_params b _ (methodOf_spec declares).2.1, receiver, params]

end Meets

/-! ## A hierarchy -/

/-- A comparison. -/
def lessThan : FunctionDecl :=
  { loc := ⟨1, 1⟩, returnType := { name := "bool" }, name := "operator__lt",
    params := [{ type := { name := "Money" }, name := "other" }],
    body := some [.returnStmt (some (.boolLit (-1) true))] }

/-- A class with a comparison, and one that inherits it. -/
def coins : Program where
  decls :=
    [.cls { name := "Money", members := [.func lessThan] },
     .cls { name := "Coin", bases := ["Money"], members := [] }]
  stmts := []

/-- Analysis behind the declarations. -/
def coinState : Sema.State :=
  (((Sema.hoistTop coins.decls).run .initial).map (·.2)).getD .initial

/-- The builder before any body. -/
def coinBuilder : Builder := { m := moduleOf coins, declared := (moduleOf coins).ls.types }

theorem coins_named : ∀ c ∈ classesOf coins.decls, c.name ≠ "" := by
  simp [coins, classesOf, classesOfDecl]

/-- `a < b` for a `Money` and a `Coin`. -/
theorem resolved_money :
    Resolved (classesOf coins.decls) (.binary .lt) "operator__lt" coinState coinBuilder
      (.ident 12 "a") (.ident 13 "b") ⟨.ptr, .other⟩ ⟨.ptr, .other⟩ "Money" TID_BOOL := by
  have accepts : Accepts coinState (.binary .lt) (.ident 12 "a") (.ident 13 "b") TID_BOOL :=
    ⟨coinState, rfl, rfl⟩
  have isClass : ({ name := "Money", members := [.func lessThan] } : ClassDecl) ∈
      classesOf coins.decls := by
    simp [coins, classesOf, classesOfDecl]
  apply (resolved_iff_direct .passes coins_named rfl accepts "Money").2
  exact ⟨_, isClass, lessThan, rfl, .own isClass rfl, rfl, rfl, rfl, rfl, TID_BOOL,
    ⟨coinState, rfl⟩, .inl ⟨lessThan, rfl, coinState, rfl⟩⟩

/-- Two `Coin`s are compared by their addresses. -/
theorem not_resolved :
    ¬ ∀ prog (b : Builder) s o method left right lv rv t,
      Generating prog b.m → (∀ c ∈ classesOf prog.decls, c.name ≠ "") →
        Operation.method o = some method → s.types.nameOf left.tid ∈
            (classesOf prog.decls).map (·.name) →
          Accepts s o left right t →
            Resolved (classesOf prog.decls) o method s b left right lv rv
              (s.types.nameOf left.tid) t := by
  intro always
  have isClass : coinState.types.nameOf 13 ∈ (classesOf coins.decls).map (·.name) := by
    decide +kernel
  obtain ⟨c, f, -, callee, -⟩ := always coins coinBuilder coinState (.binary .lt) _
    (.ident 13 "a") (.ident 13 "b") ⟨.ptr, .other⟩ ⟨.ptr, .other⟩ TID_BOOL .passes coins_named rfl
    isClass ⟨coinState, rfl, rfl⟩
  have none' : coinBuilder.operatorCallee (.ident 13 "a") "operator__lt" = none := rfl
  rw [none'] at callee
  cases callee

end Dux.Codegen.Typing
