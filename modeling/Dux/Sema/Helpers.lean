import Dux.Sema.Interning

/-!
# Checks that do not recurse

What the parts of the checking pass that do not recurse do to the state: they
give messages, define symbols other than those of types, and add to the registry
nothing but the types of functions.  A relation that allows these three holds
across each of them, so that a property of the whole pass needs an argument for
the recursion only.
-/

namespace Dux

open TypeRegistry
open Logic (keys Moves)

/-- A description without the signature of a function. -/
def TypeInfo.unsigned (ti : TypeInfo) : TypeInfo := { ti with returnType := -1, paramTypes := [] }

namespace TypeRegistry

/-- A change to a description that leaves all but the signature alone. -/
def KeepsRest (f : TypeInfo → TypeInfo) : Prop := ∀ ti, (f ti).unsigned = ti.unsigned

/-- A function type as it is interned. -/
def functionInfo (name : String) : TypeInfo :=
  { kind := .function, name := name, parent := TID_OBJECT }

/-- One registry is another with more function types, and with signatures filled in. -/
def Extends (r r' : TypeRegistry) : Prop :=
  ∃ names : List String,
    r'.types.map TypeInfo.unsigned = r.types.map TypeInfo.unsigned ++ names.map functionInfo

theorem extends_refl (r : TypeRegistry) : Extends r r := ⟨[], (List.append_nil _).symm⟩

theorem extends_intern (r : TypeRegistry) (name : String) :
    Extends r (r.intern name .function).2 := by
  unfold TypeRegistry.intern
  split
  · exact extends_refl r
  · exact ⟨[name], List.map_append⟩

theorem extends_modifyInfo (r : TypeRegistry) (id : TypeId) {f : TypeInfo → TypeInfo}
    (keeps : KeepsRest f) : Extends r (r.modifyInfo id f) := by
  refine ⟨[], ?_⟩
  rw [List.map_nil, List.append_nil]
  unfold modifyInfo
  split <;> exact map_modify _ _ keeps

end TypeRegistry

end Dux

namespace Dux.Sema

open TypeRegistry
open Logic (keys Moves)

theorem grows_of_extends {s : State} {types : TypeRegistry} (extends' : Extends s.types types) :
    Grows s { s with types := types } := by
  obtain ⟨names, added⟩ := extends'
  have onEntries := congrArg (List.map fun ti : TypeInfo => (ti.name, ti.kind)) added
  rw [List.map_append, List.map_map, List.map_map, List.map_map] at onEntries
  refine ⟨_, onEntries, ?_⟩
  intro entry member
  obtain ⟨name, -, rfl⟩ := List.mem_map.1 member
  rfl

/-- A relation across which messages, definitions of other symbols than those of
types, and new function types are allowed. -/
class Mild (R : State → State → Prop) : Prop extends IsPreorder State R where
  err : ∀ s msg, R s { s with errors := s.errors ++ [msg] }
  warn : ∀ s msg, R s { s with warnings := s.warnings ++ [msg] }
  define : ∀ s sc rest name (sym : Symbol), s.scopes = sc :: rest → sym.kind ≠ .cls →
    sym.kind ≠ .interface → R s { s with scopes := (sc.define name sym).1 :: rest }
  types : ∀ s types, Extends s.types types → R s { s with types := types }

/-- A relation across which messages, changes of the scopes and new function types are
allowed, and links between types. -/
class Tame (R : State → State → Prop) : Prop extends IsPreorder State R where
  err : ∀ s msg, R s { s with errors := s.errors ++ [msg] }
  warn : ∀ s msg, R s { s with warnings := s.warnings ++ [msg] }
  scopes : ∀ s scopes, R s { s with scopes := scopes }
  types : ∀ s types, Grows s { s with types := types } → R s { s with types := types }

instance {R : State → State → Prop} [Tame R] : Mild R where
  err := Tame.err
  warn := Tame.warn
  define s _ _ _ _ _ _ _ := Tame.scopes s _
  types s types extends' := Tame.types s types (grows_of_extends extends')

/-- A relation across which any change of the scopes and of the registry is allowed,
and messages. -/
class Free (R : State → State → Prop) : Prop extends IsPreorder State R where
  err : ∀ s msg, R s { s with errors := s.errors ++ [msg] }
  warn : ∀ s msg, R s { s with warnings := s.warnings ++ [msg] }
  scopes : ∀ s scopes, R s { s with scopes := scopes }
  types : ∀ s types, R s { s with types := types }

instance {R : State → State → Prop} [Free R] : Tame R where
  err := Free.err
  warn := Free.warn
  scopes := Free.scopes
  types s types _ := Free.types s types

instance : Tame Grows where
  err _ _ := ⟨[], (List.append_nil _).symm, fun _ member => by cases member⟩
  warn _ _ := ⟨[], (List.append_nil _).symm, fun _ member => by cases member⟩
  scopes _ _ := ⟨[], (List.append_nil _).symm, fun _ member => by cases member⟩
  types _ _ grows := grows

theorem run_define_cases {name : String} {sym : Symbol} {s s' : State} {isNew : Bool}
    (run : (define name sym).run s = some (isNew, s')) :
    s' = s ∨ ∃ sc rest, s.scopes = sc :: rest ∧
      s' = { s with scopes := (sc.define name sym).1 :: rest } := by
  unfold define at run
  rw [Logic.run_bind_eq_some_iff] at run
  obtain ⟨_, _, got, run⟩ := run
  obtain ⟨rfl, rfl⟩ := Logic.run_get_eq_some_iff.1 got
  split at run
  · exact .inl (Logic.run_pure_eq_some_iff.1 run).2.symm
  · next sc rest isStack =>
    cases run
    exact .inr ⟨sc, rest, isStack, rfl⟩

section Scopes

variable {R : State → State → Prop} [Tame R]

theorem tame_push : Moves R push := .modify fun s => Tame.scopes s _

theorem tame_pop : Moves R pop := by
  refine .modify (R := R) fun s => ?_
  split
  · exact Tame.scopes s _
  · exact IsPreorder.toRefl.refl s

theorem tame_defineAny (name : String) (sym : Symbol) : Moves R (define name sym) := by
  intro s isNew s' run
  rcases run_define_cases run with rfl | ⟨sc, rest, -, rfl⟩
  · exact IsPreorder.toRefl.refl _
  · exact Tame.scopes s _

theorem tame_setParent (child parent : TypeId) : Moves R (setParent child parent) := by
  intro s a s' run
  cases run
  have interns : Interns [] s { s with types := s.types.setParent child parent } :=
    s.types.entries_setParent child parent
  exact Tame.types s _ (interns.grows fun _ member => by cases member)

end Scopes

/-! ## What a check is made of -/

/-- A computation made of messages, of definitions of other symbols than those of
types, of new function types, of reads of the state, and of walks along the parents in a
state that is read, if walks are allowed. -/
inductive Checks (known : State → Prop) (walks : Prop) : {α : Type} → M α → Prop
  | pure {α : Type} (a : α) : Checks known walks (pure a : M α)
  | bind {α β : Type} {m : M α} {f : α → M β} (first : Checks known walks m)
      (second : ∀ a, Checks known walks (f a)) : Checks known walks (m >>= f)
  | read {α : Type} {f : State → M α} (each : ∀ s, known s → Checks known walks (f s)) :
      Checks known walks (get >>= f)
  | err (msg : String) : Checks known walks (err msg)
  | warn (msg : String) : Checks known walks (warn msg)
  | define (name : String) (sym : Symbol) (notClass : sym.kind ≠ .cls)
      (notInterface : sym.kind ≠ .interface) : Checks known walks (define name sym)
  | types {α : Type} {f : TypeRegistry → α × TypeRegistry}
      (step : ∀ r : TypeRegistry, Extends r (f r).2) : Checks known walks (withTypes f)
  | assignable (allowed : walks) {s : State} (is : known s) (src dst : TypeId) :
      Checks known walks (liftM (s.types.assignable src dst) : M Bool)
  | unify (allowed : walks) {s : State} (is : known s) (a b : TypeId) :
      Checks known walks (liftM (s.types.unify a b) : M TypeId)
  | memberFound (allowed : walks) {s : State} (is : known s) (member : String) (t : TypeId) :
      Checks known walks (liftM (memberFound s.types (s.scopes.getLastD []) member
        (s.types.types.length + 1) t) : M Bool)

theorem Checks.moves {α : Type} {m : M α} {R : State → State → Prop} [Mild R]
    (checks : Checks (fun _ => True) True m) : Moves R m := by
  induction checks with
  | pure a => exact .pure a
  | bind _ _ first second => exact .bind first second
  | read _ each => exact .bind .get fun s => each s trivial
  | err msg => exact .modify fun s => Mild.err s msg
  | warn msg => exact .modify fun s => Mild.warn s msg
  | define name sym notClass notInterface =>
    intro s isNew s' run
    rcases run_define_cases run with rfl | ⟨sc, rest, isStack, rfl⟩
    · exact IsPreorder.toRefl.refl _
    · exact Mild.define s sc rest name sym isStack notClass notInterface
  | types step =>
    intro s a s' run
    cases run
    exact Mild.types s _ (step s.types)
  | assignable | unify | memberFound => exact .lift _

section Checking

variable {α : Type} {known : State → Prop} {walks : Prop}

theorem Checks.ite {c : Prop} [Decidable c] {m m' : M α} (yes : c → Checks known walks m)
    (no : ¬c → Checks known walks m') : Checks known walks (if c then m else m') := by
  by_cases holds : c
  · rw [if_pos holds]
    exact yes holds
  · rw [if_neg holds]
    exact no holds

theorem checks_lookup (name : String) : Checks known walks (lookup name) :=
  .read fun _ _ => .pure _

theorem checks_intern_function (name : String) : Checks known walks (Sema.intern name .function) :=
  .types fun r => extends_intern r name

theorem checks_modifyInfo (id : TypeId) {f : TypeInfo → TypeInfo} (keeps : KeepsRest f) :
    Checks known walks (modifyInfo id f) := .types fun r => extends_modifyInfo r id keeps

theorem checks_typeFromTe (te : TypeExpr) : Checks known walks (typeFromTe te) := by
  unfold typeFromTe
  refine .ite (fun _ => .pure _) fun _ => .ite (fun _ => ?_) fun _ => ?_
  · refine .bind (checks_intern_function _) fun id => .read fun s _ => ?_
    refine .ite (fun _ => ?_) fun _ => .pure _
    exact .bind (checks_modifyInfo _ fun _ => rfl) fun _ => .pure _
  · exact .read fun _ _ => .pure _

theorem checks_typesOfParams (params : List Param) : Checks known walks (typesOfParams params) := by
  induction params with
  | nil => exact .pure _
  | cons p ps ih =>
      exact .bind (checks_typeFromTe _) fun _ => .bind ih fun _ => .pure _

theorem checks_when {c : Prop} [Decidable c] {m : M PUnit} (first : Checks known walks m) :
    Checks known walks (if c then m else pure ()) :=
  .ite (fun _ => first) fun _ => .pure _

theorem checks_whenThen {c : Prop} [Decidable c] {m : M PUnit} {next : PUnit → M α}
    (first : Checks known walks m) (rest : Checks known walks (next ())) :
    Checks known walks (if c then m >>= next else next ()) :=
  .ite (fun _ => .bind first fun _ => rest) fun _ => rest

theorem checks_requireAssignable (src dst : TypeId) (ctx : String) :
    Checks known True (requireAssignable src dst ctx) := by
  refine .read fun s is => .bind (.assignable trivial is _ _) fun ok => ?_
  refine .ite (fun _ => .pure _) fun _ => ?_
  exact .ite (fun _ => .pure _) fun _ => .err _

theorem checks_requireNumeric (t : TypeId) (ctx : String) :
    Checks known walks (requireNumeric t ctx) :=
  .ite (fun _ => .pure _) fun _ => .read fun _ _ => .err _

theorem checks_requireBool (t : TypeId) (ctx : String) : Checks known True (requireBool t ctx) := by
  refine .read fun s is => .ite (fun _ => .pure _) fun _ => ?_
  refine .bind (.assignable trivial is _ _) fun _ => ?_
  exact .ite (fun _ => .pure _) fun _ => .warn _

end Checking

/-! ## Expressions -/

section Expressions

variable {known : State → Prop} {walks : Prop}

theorem checks_overload (obj : Expr) (method : String) :
    Checks known walks (overload obj method) := by
  refine .read fun s _ => ?_
  dsimp only
  refine .ite (fun _ => .pure _) fun _ => ?_
  split <;> exact .pure _

theorem checks_checkPrimitiveBinary (op : BinOp) (l r : TypeId) :
    Checks known True (checkPrimitiveBinary op l r) := by
  refine .read fun s is => ?_
  dsimp only
  have numeric : ∀ {α : Type} (ctx ctx' : String) {next : M α}, Checks known True next →
      Checks known True (do
        requireNumeric l ctx
        requireNumeric r ctx'
        next) := fun _ _ _ rest =>
    .bind (checks_requireNumeric _ _) fun _ =>
      .bind (checks_requireNumeric _ _) fun _ => rest
  have warned : ∀ {c c' : Prop} [Decidable c] [Decidable c'] (msg msg' : String) (t : TypeId),
      Checks known True (do
        if c then warn msg
        if c' then warn msg'
        return t) := fun _ _ _ =>
    checks_whenThen (.warn _) (checks_whenThen (.warn _) (.pure _))
  cases op with
  | add | sub | mul | div | mod =>
      apply Checks.ite (fun _ => warned _ _ _)
      intro
      apply Checks.ite (fun _ => warned _ _ _)
      intro
      exact numeric _ _ (.unify trivial is _ _)
  | eq | ne | lt | gt | le | ge =>
      refine .ite (fun _ => ?_) fun _ => .pure _
      refine .bind (.assignable trivial is _ _) fun _ => ?_
      refine .ite (fun _ => ?_) fun _ => .pure _
      refine .bind (.assignable trivial is _ _) fun _ => ?_
      refine .ite (fun _ => ?_) fun _ => .pure _
      exact .bind (.warn _) fun _ => .pure _
  | and | or =>
      exact .bind (checks_requireBool _ _) fun _ =>
        .bind (checks_requireBool _ _) fun _ => .pure _
  | rangeExcl | rangeIncl => exact numeric _ _ (.pure _)

theorem checks_checkBinary (op : BinOp) (left right : Expr) :
    Checks known True (checkBinary op left right) := by
  unfold checkBinary
  cases opMethod op with
  | none => exact checks_checkPrimitiveBinary _ _ _
  | some method =>
      refine .bind (checks_overload _ _) fun found => ?_
      cases found with
      | none => exact checks_checkPrimitiveBinary _ _ _
      | some f => exact checks_typeFromTe _

theorem checks_checkUnary (op : UnOp) (operand : Expr) :
    Checks known True (checkUnary op operand) := by
  cases op with
  | not => exact .bind (checks_requireBool _ _) fun _ => .pure _
  | neg | plus | inc | dec => exact .bind (checks_requireNumeric _ _) fun _ => .pure _
  | bitNot =>
      refine .ite (fun _ => .read fun _ _ => ?_) fun _ => .pure _
      exact .bind (.err _) fun _ => .pure _

theorem checks_checkAssignIdent (op : AssignOp) (target : Expr) (rhs : TypeId) :
    Checks known walks (checkAssignIdent op target rhs) := by
  unfold checkAssignIdent
  cases identName target with
  | none => exact .pure _
  | some name =>
      refine .bind (checks_lookup _) fun found => ?_
      cases found with
      | none =>
          refine .ite (fun _ => ?_) fun _ => .pure _
          exact .bind (.define _ _ nofun nofun) fun _ => .pure _
      | some sym =>
          refine .ite (fun _ => ?_) fun _ => .pure _
          exact .bind (.err _) fun _ => .pure _

theorem checks_checkAssign (op : AssignOp) (lhs rhs : TypeId) :
    Checks known True (checkAssign op lhs rhs) := by
  unfold checkAssign
  refine .ite (fun _ => .ite (fun _ => ?_) fun _ => ?_) fun _ => ?_
  · exact .bind (checks_requireAssignable _ _ _) fun _ => .pure _
  · exact .bind (checks_requireNumeric _ _) fun _ =>
      .bind (checks_requireNumeric _ _) fun _ => .pure _
  · exact .bind (checks_requireAssignable _ _ _) fun _ => .pure _

theorem checks_checkCallable (sym : Symbol) (argCount : Nat) :
    Checks known walks (checkCallable sym argCount) :=
  .read fun _ _ => checks_whenThen (.err _) (checks_when (.err _))

theorem checks_checkArg (sym : Symbol) (i : Nat) (arg : Expr) :
    Checks known True (checkArg sym i arg) := by
  unfold checkArg
  cases sym.params[i]? with
  | none => exact .pure _
  | some param => exact checks_requireAssignable _ _ _

theorem checks_closureType (name : String) : Checks known walks (closureType name) := by
  refine .bind (checks_lookup _) fun found => ?_
  cases found with
  | none => exact .pure _
  | some sym =>
      exact .read fun _ _ => .ite (fun _ => .pure _) fun _ => .pure _

theorem checks_checkEnumMember (object : Expr) (member : String) :
    Checks known walks (checkEnumMember object member) := by
  unfold checkEnumMember
  cases identName object with
  | none => exact .pure _
  | some name =>
      refine .bind (checks_lookup _) fun found => ?_
      cases found with
      | none => exact .pure _
      | some sym =>
          refine .read fun s _ => .ite (fun _ => ?_) fun _ => .pure _
          refine .ite (fun _ => .pure _) fun _ => ?_
          exact .bind (.err _) fun _ => .pure _

theorem checks_checkMember (object : Expr) (member : String) :
    Checks known True (checkMember object member) := by
  refine .read fun s is => ?_
  split
  · exact .pure _
  · refine .ite (fun _ => ?_) fun _ => .pure _
    refine .bind (.memberFound trivial is _ _) fun _ => ?_
    exact checks_whenThen (.err _) (.pure _)

theorem checks_checkIndex (object index : Expr) : Checks known walks (checkIndex object index) := by
  refine .bind (checks_overload _ _) fun found => ?_
  cases found with
  | some f => exact checks_typeFromTe _
  | none =>
      refine .ite (fun _ => .ite (fun _ => ?_) fun _ => .pure _) fun _ => ?_
      · exact .read fun _ _ => .bind (.err _) fun _ => .pure _
      · exact .ite (fun _ => .pure _) fun _ => .pure _

theorem checks_checkNew (type : TypeExpr) : Checks known walks (checkNew type) :=
  .bind (checks_typeFromTe _) fun _ => checks_whenThen (.err _) (.pure _)

theorem checks_checkIdent (name : String) : Checks known walks (checkIdent name) := by
  refine .bind (checks_lookup _) fun found => ?_
  cases found with
  | none => exact .bind (.err _) fun _ => .pure _
  | some sym => exact .pure _

theorem checks_checkThis : Checks known walks checkThis :=
  .bind (checks_lookup _) fun _ =>
    checks_whenThen (.err _) (.read fun _ _ => .pure _)

theorem checks_checkSuper : Checks known walks checkSuper := .read fun _ _ => .pure _

theorem checks_defineParams {kind : SymKind} (isVar : kind = .var ∨ kind = .param)
    (params : List Param) : Checks known walks (defineParams kind params) := by
  have notClass : kind ≠ .cls := by
    rcases isVar with rfl | rfl <;> nofun
  have notInterface : kind ≠ .interface := by
    rcases isVar with rfl | rfl <;> nofun
  induction params with
  | nil => exact .pure _
  | cons p ps ih =>
      exact .bind (checks_typeFromTe _) fun _ =>
        .bind (.define _ _ notClass notInterface) fun _ =>
          checks_whenThen (.err _) ih

theorem checks_checkLambda (params : List Param) (body : List Stmt)
    (explicitRet : Option TypeExpr) : Checks known walks (checkLambda params body explicitRet) := by
  unfold checkLambda
  have finish : ∀ ret : TypeId, Checks known walks (do
      let retName := (← get).types.nameOf ret
      let id ← Sema.intern (fnSignature (params.map (·.type)) retName) .function
      modifyInfo id fun ti => { ti with returnType := ret }
      if ((← get).types.info id).paramTypes = [] then
        let paramTypes ← typesOfParams params
        modifyInfo id fun ti => { ti with paramTypes := paramTypes.map (·.2) }
      return (id, retName)) := by
    intro ret
    refine .read fun _ _ => .bind (checks_intern_function _) fun id => ?_
    refine .bind (checks_modifyInfo _ fun _ => rfl) fun _ => ?_
    refine .read fun _ _ => .ite (fun _ => ?_) fun _ => .pure _
    refine .bind (checks_typesOfParams _) fun _ => ?_
    exact .bind (checks_modifyInfo _ fun _ => rfl) fun _ => .pure _
  cases explicitRet with
  | none => exact finish _
  | some te => exact .bind (checks_typeFromTe _) finish

end Expressions

/-! ## Statements -/

section Statements

variable {known : State → Prop} {walks : Prop}

theorem checks_checkReturn (value : Option Expr) : Checks known True (checkReturn value) := by
  refine .read fun s _ => ?_
  cases value with
  | none => exact checks_when (.warn _)
  | some e => exact checks_requireAssignable _ _ _

theorem checks_checkThreadLocal (isThreadLocal : Bool) :
    Checks known walks (checkThreadLocal isThreadLocal) :=
  .read fun _ _ => checks_when (.err _)

theorem checks_checkDeclarator (isConst isThreadLocal : Bool) (name : String)
    (init : Option Expr) : Checks known walks (checkDeclarator isConst isThreadLocal name init) :=
  .ite (fun _ => .bind (.err _) fun _ => checks_when (.err _)) fun _ =>
    checks_when (.err _)

theorem checks_defineVar (isConst : Bool) (declType : TypeId) (name : String)
    (init : Option Expr) : Checks known True (defineVar isConst declType name init) := by
  unfold defineVar
  have enter : ∀ varType : TypeId, Checks known True (do
      let isNew ← define name { name := name, kind := .var, type := varType, isConst := isConst }
      if !isNew then err ("variable '" ++ name ++ "' already declared in this scope")) :=
    fun _ => .bind (.define _ _ nofun nofun) fun _ => checks_when (.err _)
  cases init with
  | none => exact enter _
  | some e =>
      exact .ite (fun _ => enter _) fun _ =>
        .bind (checks_requireAssignable _ _ _) fun _ => enter _

theorem checks_checkIterable (t : TypeId) : Checks known walks (checkIterable t) :=
  .ite (fun _ => .read fun _ _ => .err _) fun _ => .pure _

theorem checks_defineLoopVar (type : TypeExpr) (name : String) :
    Checks known walks (defineLoopVar type name) :=
  .bind (checks_typeFromTe _) fun _ =>
    .bind (.define _ _ nofun nofun) fun _ => .pure _

theorem checks_patternEnum (enumName : String) : Checks known walks (patternEnum enumName) := by
  refine .bind (checks_lookup _) fun found => ?_
  cases found with
  | none => exact .pure _
  | some sym => exact .read fun _ _ => .pure _

theorem checks_checkPattern (pattern : MatchPattern) :
    Checks known walks (checkPattern pattern) := by
  cases pattern with
  | enumVariant enumName variantName bindings =>
      refine .bind (checks_patternEnum _) fun found => ?_
      cases found with
      | none => exact .err _
      | some variants => exact checks_when (.err _)
  | wildcard | intLit | boolLit | strLit => exact .pure _

theorem checks_defineBindings (payload : List TypeId) (i : Nat) (bindings : List String) :
    Checks known walks (defineBindings payload i bindings) := by
  induction bindings generalizing i with
  | nil => exact .pure _
  | cons b bs ih => exact .bind (.define _ _ nofun nofun) fun _ => ih _

theorem checks_definePattern (pattern : MatchPattern) :
    Checks known walks (definePattern pattern) := by
  cases pattern with
  | enumVariant enumName variantName bindings =>
      cases bindings with
      | nil => exact .pure _
      | cons b bs => exact .bind (checks_patternEnum _) fun _ => checks_defineBindings _ _ _
  | wildcard | intLit | boolLit | strLit => exact .pure _

theorem checks_checkPatternEnum (t : TypeId) (pattern : MatchPattern) :
    Checks known walks (checkPatternEnum t pattern) := by
  cases pattern with
  | enumVariant enumName variantName bindings =>
      refine .bind (checks_patternEnum _) fun found => ?_
      cases found with
      | none => exact .pure _
      | some variants => exact checks_when (.err _)
  | wildcard | intLit | boolLit | strLit => exact .pure _

theorem checks_forM {γ : Type} {f : γ → M PUnit} (each : ∀ a, Checks known walks (f a))
    (as : List γ) : Checks known walks (as.forM f) := by
  induction as with
  | nil => exact .pure _
  | cons a as ih => exact .bind (each a) fun _ => ih

theorem checks_checkScrutinee (t : TypeId) (patterns : List MatchPattern) :
    Checks known walks (checkScrutinee t patterns) := by
  refine .ite (fun _ => ?_) fun _ => .pure _
  have enums : Checks known walks (do
      if patterns.any isEnumPattern ∧ ((← get).types.info t).kind = .enum then
        patterns.forM (checkPatternEnum t)) :=
    .read fun _ _ => checks_when (checks_forM (checks_checkPatternEnum t) _)
  exact checks_whenThen (.err _) (checks_whenThen (.err _) enums)

theorem checks_defineCatchVar (catchAll : Bool) (catchType : Option TypeExpr)
    (catchVar : Option String) :
    Checks known walks (defineCatchVar catchAll catchType catchVar) := by
  unfold defineCatchVar
  have enter : ∀ (name : String) (t : TypeId), Checks known walks (do
      let _ ← define name { name := name, kind := .var, type := t }) :=
    fun _ _ => .bind (.define _ _ nofun nofun) fun _ => .pure _
  split
  · cases catchType with
    | none => exact .bind (.pure _) fun _ => enter _ _
    | some te => exact .bind (checks_typeFromTe _) fun _ => enter _ _
  · exact .pure _

end Statements

/-! ## Declarations -/

section Declarations

variable {known : State → Prop} {walks : Prop}

theorem checks_defineThis : Checks known walks defineThis :=
  .read fun _ _ => .bind (.define _ _ nofun nofun) fun _ =>
    .ite (fun _ => .bind (.define _ _ nofun nofun) fun _ => .pure _)
      fun _ => .pure _

theorem tame_checkBases {R : State → State → Prop} [Tame R] (type : TypeId) (bases : List String) :
    Moves R (checkBases type bases) := by
  induction bases with
  | nil => exact .pure _
  | cons base rest ih =>
      refine .bind (checks_lookup _).moves fun found => ?_
      cases found with
      | none => exact .bind (Checks.warn _).moves fun _ => ih
      | some sym =>
          refine .ite (fun _ => .bind (Checks.warn _).moves fun _ => ih) fun _ => ?_
          exact .bind (tame_setParent _ _) fun _ => ih

theorem checks_checkContract (c : ClassDecl) (base : String) (members : List FunctionDecl) :
    Checks known walks (checkContract c base members) := by
  induction members with
  | nil => exact .pure _
  | cons f fs ih =>
      exact .ite (fun _ => .bind (.err _) fun _ => ih) fun _ => ih

theorem checks_checkContracts (c : ClassDecl) (bases : List String) :
    Checks known walks (checkContracts c bases) := by
  induction bases with
  | nil => exact .pure _
  | cons base rest ih =>
      refine .bind (checks_lookup _) fun found => ?_
      split
      · exact .bind (checks_checkContract _ _ _) fun _ => ih
      · exact ih

theorem checks_defineMembers (members : List ClassMember) :
    Checks known walks (defineMembers members) := by
  induction members with
  | nil => exact .pure _
  | cons m ms ih =>
      cases m with
      | func f =>
          exact .bind (checks_typeFromTe _) fun _ =>
            .bind (checks_typesOfParams _) fun _ =>
              .bind (.define _ _ nofun nofun) fun _ => ih
      | field f =>
          exact .bind (checks_typeFromTe _) fun _ =>
            .bind (.define _ _ nofun nofun) fun _ => ih

theorem checks_checkInterface (members : List FunctionDecl) :
    Checks known walks (checkInterface members) := by
  induction members with
  | nil => exact .pure _
  | cons f fs ih =>
      exact .bind (checks_typeFromTe _) fun _ => checks_whenThen (.warn _) ih

theorem checks_checkImport (imp : ImportDecl) : Checks known walks (checkImport imp) :=
  .ite
    (fun _ => .bind (checks_lookup _) fun _ => .ite
      (fun _ => .bind (.define _ _ nofun nofun) fun _ => .pure _)
      fun _ => .pure _)
    fun _ => .pure _

end Declarations

/-! ## Hoisting -/

/-- A relation across which hoisting is allowed: symbols of any kind in the innermost and in the
global scope, any change of the registry, and a scope for the members of a namespace. -/
class Hoists (R : State → State → Prop) : Prop extends Mild R where
  defineAny : ∀ name sym, Moves R (Sema.define name sym)
  defineGlobal : ∀ name sym, Moves R (Sema.defineGlobal name sym)
  withTypes : ∀ {α : Type} (f : TypeRegistry → α × TypeRegistry), Moves R (Sema.withTypes f)
  inScope : ∀ {m : M Unit}, Moves R m → Moves R (Sema.inScope m)

instance {R : State → State → Prop} [Free R] : Hoists R where
  defineAny := tame_defineAny
  defineGlobal _ _ := .modify fun s => Free.scopes s _
  withTypes f s a s' run := by
    cases run
    exact Free.types s _
  inScope moves := .bind tame_push fun _ => .bind moves fun _ => .bind tame_pop fun _ => .pure _

section Hoisting

variable {R : State → State → Prop} [Hoists R]

theorem free_hoistFunction (f : FunctionDecl) : Moves R (hoistFunction f) := by
  refine .bind (checks_typeFromTe _).moves fun _ =>
    .bind (checks_typesOfParams _).moves fun _ => ?_
  exact .bind (Hoists.defineAny _ _) fun _ => (checks_when (.err _)).moves

theorem free_defineVariants (enumName : String) (id : TypeId) (variants : List EnumVariant) :
    Moves R (defineVariants enumName id variants) := by
  induction variants with
  | nil => exact .pure _
  | cons v vs ih => exact .bind (Hoists.defineGlobal _ _) fun _ => ih

theorem free_hoistEnum (e : EnumDecl) : Moves R (hoistEnum e) := by
  refine .bind (Hoists.withTypes _) fun _ => .bind .get fun _ => ?_
  refine .bind (Hoists.withTypes _) fun _ => .bind (free_defineVariants _ _ _) fun _ => ?_
  exact .bind (Hoists.defineAny _ _) fun _ => (checks_when (.err _)).moves

theorem free_hoistExtern (e : ExternDecl) : Moves R (hoistExtern e) := by
  refine .bind (checks_typeFromTe _).moves fun _ =>
    .bind (checks_typesOfParams _).moves fun _ => ?_
  exact .bind (Hoists.defineAny _ _) fun _ => .pure _

theorem free_addInterfaces (id : TypeId) (bases : List String) :
    Moves R (addInterfaces id bases) := by
  induction bases with
  | nil => exact .pure _
  | cons base rest ih =>
      refine .bind .get fun s => ?_
      exact .ite (fun _ => .bind (Hoists.withTypes _) fun _ => ih) fun _ => ih

theorem free_hoistClass (c : ClassDecl) : Moves R (hoistClass c) := by
  refine .bind (Hoists.withTypes _) fun id => ?_
  have register : Moves R (do
      let isNew ← define c.name { name := c.name, kind := .cls, type := id, decl := .cls c }
      if !isNew then err ("class '" ++ c.name ++ "' already declared")) :=
    .bind (Hoists.defineAny _ _) fun _ => (checks_when (.err _)).moves
  dsimp only
  cases c.bases with
  | nil => exact register
  | cons base rest =>
      refine .bind .get fun s => .bind (Hoists.withTypes _) fun _ => ?_
      exact .bind (free_addInterfaces _ _) fun _ => register

theorem free_hoistInterface (i : InterfaceDecl) : Moves R (hoistInterface i) := by
  refine .bind (Hoists.withTypes _) fun _ => .bind (Hoists.defineAny _ _) fun _ => ?_
  exact (checks_when (.err _)).moves

theorem free_promote (ns : String) (sc : Scope) : Moves R (promote ns sc) := by
  induction sc with
  | nil => exact .pure _
  | cons entry rest ih =>
      exact .bind (Hoists.defineGlobal _ _) fun _ =>
        .bind (Hoists.defineGlobal _ _) fun _ => ih

mutual

theorem free_hoistDecl : ∀ d : Decl, Moves R (hoistDecl d)
  | .cls c => free_hoistClass c
  | .iface i => free_hoistInterface i
  | .enum e => free_hoistEnum e
  | .func f => free_hoistFunction f
  | .externDecl e => free_hoistExtern e
  | .importDecl _ => .pure _
  | .packageDecl _ => .pure _
  | .namespaceDecl name decls _ => by
      have members : Moves R (inScope do
          hoistTop decls
          promote name (← currentScope)) :=
        Hoists.inScope (.bind (free_hoistTop decls) fun _ =>
          .bind (.bind .get fun _ => .pure _) fun _ => free_promote _ _)
      have leave (a : Unit) : (do pop; return a) = pop := bind_pure pop
      simp only [inScope, bind_assoc, leave] at members
      exact .bind (Hoists.defineAny _ _) fun _ => members

theorem free_hoistTop : ∀ ds : List Decl, Moves R (hoistTop ds)
  | [] => .pure _
  | d :: ds => .bind (free_hoistDecl d) fun _ => free_hoistTop ds

end

end Hoisting

end Dux.Sema
