import Dux.Sema.Check

/-!
# What a closure captures

`collect_fv_stmt`, `collect_fv_expr` and the filter at the start of `gen_lambda`
(`src/codegen/codegen.cpp`), beside the scoping that semantic analysis gives the
body of a lambda.  The collector looks into some statements and expressions
only.  Every use of a name in the body is listed here with the names bound
around it and with whether the collector gets to see it.
-/

namespace Dux.Codegen

/-! ## The collector -/

mutual

/-- `collect_fv_expr`: the names found so far and those of an expression. -/
def collectFvExpr (locals result : List String) : Expr → List String
  | .ident _ name => if name ∈ locals ∨ name ∈ result then result else result ++ [name]
  | .binary _ _ left right => collectFvExpr locals (collectFvExpr locals result left) right
  | .unary _ _ operand _ => collectFvExpr locals result operand
  | .call _ callee args => collectFvExprs locals (collectFvExpr locals result callee) args
  | .member _ object _ => collectFvExpr locals result object
  | .index _ object index => collectFvExpr locals (collectFvExpr locals result object) index
  | .assign _ _ target value => collectFvExpr locals (collectFvExpr locals result target) value
  | .new _ _ args => collectFvExprs locals result args
  | .intLit .. | .longLit .. | .floatLit .. | .realLit .. | .stringLit .. | .boolLit ..
  | .nullLit _ | .this _ | .super _ | .list .. | .dict .. | .lambda .. | .await .. => result

def collectFvExprs (locals result : List String) : List Expr → List String
  | [] => result
  | e :: es => collectFvExprs locals (collectFvExpr locals result e) es

end

def collectFvOpt (locals result : List String) : Option Expr → List String
  | none => result
  | some e => collectFvExpr locals result e

/-- The loop over the declarators of a `VarDeclStmt`: locals and names found. -/
def collectFvItems (locals result : List String) : List VarItem → List String × List String
  | [] => (locals, result)
  | .mk name init :: ds => collectFvItems (name :: locals) (collectFvOpt locals result init) ds

mutual

/-- `collect_fv_stmt`: the locals after the statement and the names found.  A
block works on a copy of the locals. -/
def collectFvStmt (locals result : List String) : Stmt → List String × List String
  | .block body => (locals, (collectFvStmts locals result body).2)
  | .expr e => (locals, collectFvExpr locals result e)
  | .returnStmt value => (locals, collectFvOpt locals result value)
  | .varDecl _ _ _ _ decls => collectFvItems locals result decls
  | .ifStmt cond thenBr elseBr =>
      (locals, collectFvElse locals
        (collectFvStmts locals (collectFvExpr locals result cond) thenBr).2 elseBr)
  | .whileStmt _ cond body =>
      (locals, (collectFvStmts locals (collectFvExpr locals result cond) body).2)
  | .doWhile .. | .forIn .. | .forC .. | .switchStmt .. | .matchStmt .. | .tryCatch ..
  | .breakStmt _ | .continueStmt _ | .assertStmt _ | .deleteStmt _ | .defer .. | .throwStmt _
  | .unsafeStmt _ => (locals, result)

def collectFvStmts (locals result : List String) : List Stmt → List String × List String
  | [] => (locals, result)
  | s :: ss =>
      let (locals, result) := collectFvStmt locals result s
      collectFvStmts locals result ss

def collectFvElse (locals result : List String) : ElseBr → List String
  | .none => result
  | .block body => (collectFvStmts locals result body).2
  | .elif cond thenBr elseBr =>
      collectFvElse locals
        (collectFvStmts locals (collectFvExpr locals result cond) thenBr).2 elseBr

end

/-- The captures of `gen_lambda`: the names found that `env_lookup` knows. -/
def captures (env : String → Bool) (params : List Param) (body : List Stmt) : List String :=
  (collectFvStmts (params.map (·.name)) [] body).2.filter env

/-! ## Uses of names -/

/-- The names bound inside a lambda at some place, and whether the collector has
noted the binding. -/
abbrev Binders := List (String × Bool)

structure Use where
  name : String
  binders : Binders
  hidden : Bool := false

/-- The name is bound inside the lambda. -/
def Use.bound (u : Use) : Bool := u.binders.any (·.1 = u.name)

/-- The collector takes the name for one bound inside the lambda. -/
def Use.noted (u : Use) : Bool := u.binders.any fun b => b.1 = u.name && b.2

/-- Uses the collector does not come to. -/
def hide (uses : List Use) : List Use := uses.map fun u => { u with hidden := true }

/-- Names bound in addition. -/
def bind (seen : Bool) (names : List String) (b : Binders) : Binders :=
  names.map (·, seen) ++ b

def patternNames : MatchPattern → List String
  | .enumVariant _ _ bindings => bindings
  | _ => []

def catchName (catchAll : Bool) (catchVar : Option String) : List String :=
  if catchAll then [] else catchVar.toList

mutual

/-- The uses of names in an expression.  `this` and `super` both read the
variable `this`. -/
def usesExpr (b : Binders) : Expr → List Use
  | .intLit .. | .longLit .. | .floatLit .. | .realLit .. | .stringLit .. | .boolLit ..
  | .nullLit _ => []
  | .ident _ name => [{ name := name, binders := b }]
  | .this _ => hide [{ name := "this", binders := b }]
  | .super _ => hide [{ name := "this", binders := b }]
  | .binary _ _ left right => usesExpr b left ++ usesExpr b right
  | .unary _ _ operand _ => usesExpr b operand
  | .assign _ _ target value => usesExpr b target ++ usesExpr b value
  | .call _ callee args => usesExpr b callee ++ usesExprs b args
  | .member _ object _ => usesExpr b object
  | .index _ object index => usesExpr b object ++ usesExpr b index
  | .new _ _ args => usesExprs b args
  | .list _ elements => hide (usesExprs b elements)
  | .dict _ pairs => hide (usesPairs b pairs)
  | .lambda _ params body _ _ =>
      hide (usesStmts false (bind false (params.map (·.name)) b) body).1
  | .await _ operand => hide (usesExpr b operand)

def usesExprs (b : Binders) : List Expr → List Use
  | [] => []
  | e :: es => usesExpr b e ++ usesExprs b es

def usesPair (b : Binders) : DictPair → List Use
  | .mk key value => usesExpr b key ++ usesExpr b value

def usesPairs (b : Binders) : List DictPair → List Use
  | [] => []
  | p :: ps => usesPair b p ++ usesPairs b ps

def usesOpt (b : Binders) : Option Expr → List Use
  | none => []
  | some e => usesExpr b e

/-- The uses of names in a statement, and the names bound behind it.  `seen`
tells whether the collector comes to the statement.  As in semantic analysis,
deferred and unsafe blocks have no scope of their own. -/
def usesStmt (seen : Bool) (b : Binders) : Stmt → List Use × Binders
  | .block body => ((usesStmts seen b body).1, b)
  | .expr e => (usesExpr b e, b)
  | .varDecl _ _ _ _ decls => usesItems seen b decls
  | .ifStmt cond thenBr elseBr =>
      (usesExpr b cond ++ (usesStmts seen b thenBr).1 ++ usesElse seen b elseBr, b)
  | .whileStmt _ cond body => (usesExpr b cond ++ (usesStmts seen b body).1, b)
  | .doWhile body cond => (hide ((usesStmts false b body).1 ++ usesExpr b cond), b)
  | .forIn _ varName iterable body =>
      (hide (usesExpr b iterable ++ (usesStmts false (bind false [varName] b) body).1), b)
  | .forC _ varName init cond incr body =>
      let b' := bind false [varName] b
      (hide (usesExpr b' init ++ usesExpr b' cond ++ usesExpr b' incr ++
        (usesStmts false b' body).1), b)
  | .switchStmt e cases => (hide (usesExpr b e ++ usesCases b cases), b)
  | .matchStmt e arms => (hide (usesExpr b e ++ usesArms b arms), b)
  | .tryCatch tryBody catchAll _ catchVar catchBody =>
      (hide ((usesStmts false b tryBody).1 ++
        (usesStmts false (bind false (catchName catchAll catchVar) b) catchBody).1), b)
  | .returnStmt value => (usesOpt b value, b)
  | .breakStmt _ => ([], b)
  | .continueStmt _ => ([], b)
  | .assertStmt cond => (hide (usesExpr b cond), b)
  | .deleteStmt e => (hide (usesExpr b e), b)
  | .defer _ body => (hide (usesStmts false b body).1, (usesStmts false b body).2)
  | .throwStmt e => (hide (usesExpr b e), b)
  | .unsafeStmt body => (hide (usesStmts false b body).1, (usesStmts false b body).2)

/-- `usesStmt` on statements one after the other. -/
def usesStmts (seen : Bool) (b : Binders) : List Stmt → List Use × Binders
  | [] => ([], b)
  | s :: ss =>
      ((usesStmt seen b s).1 ++ (usesStmts seen (usesStmt seen b s).2 ss).1,
        (usesStmts seen (usesStmt seen b s).2 ss).2)

def usesElse (seen : Bool) (b : Binders) : ElseBr → List Use
  | .none => []
  | .block body => (usesStmts seen b body).1
  | .elif cond thenBr elseBr =>
      usesExpr b cond ++ (usesStmts seen b thenBr).1 ++ usesElse seen b elseBr

/-- A declarator binds its name behind its initialiser. -/
def usesItems (seen : Bool) (b : Binders) : List VarItem → List Use × Binders
  | [] => ([], b)
  | .mk name init :: ds =>
      (usesOpt b init ++ (usesItems seen (bind seen [name] b) ds).1,
        (usesItems seen (bind seen [name] b) ds).2)

def usesCase (b : Binders) : SwitchCase → List Use
  | .mk value body => usesOpt b value ++ (usesStmts false b body).1

def usesCases (b : Binders) : List SwitchCase → List Use
  | [] => []
  | c :: cs => usesCase b c ++ usesCases b cs

def usesArm (b : Binders) : MatchArm → List Use
  | .mk pattern body => (usesStmts false (bind false (patternNames pattern) b) body).1

def usesArms (b : Binders) : List MatchArm → List Use
  | [] => []
  | a :: as => usesArm b a ++ usesArms b as

end

def lambdaUses (params : List Param) (body : List Stmt) : List Use :=
  (usesStmts true (bind true (params.map (·.name)) []) body).1

/-- A name has a free use in a lambda. -/
def FreeIn (params : List Param) (body : List Stmt) (name : String) : Prop :=
  ∃ u ∈ lambdaUses params body, u.name = name ∧ u.bound = false

/-- The captures are the variables of the enclosing scopes that are free in the
lambda. -/
def CaptureComplete (env : String → Bool) (params : List Param) (body : List Stmt) : Prop :=
  ∀ name, name ∈ captures env params body ↔ env name = true ∧ FreeIn params body name

/-! ## What the collector finds -/

section Collector

variable {locals result : List String} {b : Binders} {name : String}

/-- The collector's locals are the bindings it has noted. -/
def Agrees (locals : List String) (b : Binders) : Prop :=
  ∀ name, name ∈ locals ↔ b.any (fun e => e.1 = name && e.2) = true

/-- A use the collector comes to and takes for free. -/
def Finds (uses : List Use) (name : String) : Prop :=
  ∃ u ∈ uses, u.name = name ∧ u.hidden = false ∧ u.noted = false

@[simp]
theorem finds_nil : ¬Finds [] name := by
  rintro ⟨u, member, _⟩
  cases member

@[simp]
theorem finds_append {left right : List Use} :
    Finds (left ++ right) name ↔ Finds left name ∨ Finds right name := by
  constructor
  · rintro ⟨u, member, found⟩
    rcases List.mem_append.1 member with inLeft | inRight
    · exact Or.inl ⟨u, inLeft, found⟩
    · exact Or.inr ⟨u, inRight, found⟩
  · rintro (⟨u, member, found⟩ | ⟨u, member, found⟩)
    · exact ⟨u, List.mem_append_left _ member, found⟩
    · exact ⟨u, List.mem_append_right _ member, found⟩

@[simp]
theorem finds_hide {uses : List Use} : ¬Finds (hide uses) name := by
  rintro ⟨u, member, _, visible, _⟩
  obtain ⟨u', _, rfl⟩ := List.mem_map.1 member
  cases visible

theorem agrees_bind (agrees : Agrees locals b) (names : List String) :
    Agrees (names ++ locals) (bind true names b) := by
  intro name
  rw [List.mem_append, agrees name, bind, List.any_append, Bool.or_eq_true, List.any_map]
  simp

theorem finds_ident (agrees : Agrees locals b) {x : String} :
    Finds [{ name := x, binders := b }] name ↔ x = name ∧ x ∉ locals := by
  constructor
  · rintro ⟨u, member, here, _, free⟩
    rw [List.mem_singleton.1 member] at here free
    exact ⟨here, fun inLocals => by
      rw [Use.noted, (agrees x).1 inLocals] at free
      cases free⟩
  · rintro ⟨rfl, free⟩
    refine ⟨_, List.mem_cons_self, rfl, rfl, ?_⟩
    rw [Use.noted, Bool.eq_false_iff]
    exact mt (agrees x).2 free

mutual

theorem mem_collectFvExpr (agrees : Agrees locals b) : ∀ (e : Expr) (result : List String),
    name ∈ collectFvExpr locals result e ↔ name ∈ result ∨ Finds (usesExpr b e) name
  | .ident _ x, result => by
      rw [collectFvExpr, usesExpr, finds_ident agrees]
      by_cases known : x ∈ locals ∨ x ∈ result
      · rw [if_pos known]
        refine (or_iff_left_of_imp ?_).symm
        rintro ⟨rfl, free⟩
        exact known.resolve_left free
      · rw [if_neg known, List.mem_append, List.mem_singleton]
        rw [not_or] at known
        exact or_congr Iff.rfl ⟨fun same => ⟨same.symm, known.1⟩, fun here => here.1.symm⟩
  | .binary _ _ left right, result => by
      rw [collectFvExpr, mem_collectFvExpr agrees right, mem_collectFvExpr agrees left, usesExpr,
        finds_append, or_assoc]
  | .unary _ _ operand _, result => mem_collectFvExpr agrees operand result
  | .call _ callee args, result => by
      rw [collectFvExpr, mem_collectFvExprs agrees args, mem_collectFvExpr agrees callee, usesExpr,
        finds_append, or_assoc]
  | .member _ object _, result => mem_collectFvExpr agrees object result
  | .index _ object index, result => by
      rw [collectFvExpr, mem_collectFvExpr agrees index, mem_collectFvExpr agrees object, usesExpr,
        finds_append, or_assoc]
  | .assign _ _ target value, result => by
      rw [collectFvExpr, mem_collectFvExpr agrees value, mem_collectFvExpr agrees target, usesExpr,
        finds_append, or_assoc]
  | .new _ _ args, result => mem_collectFvExprs agrees args result
  | .intLit .., _ | .longLit .., _ | .floatLit .., _ | .realLit .., _ | .stringLit .., _
  | .boolLit .., _ | .nullLit _, _ => by simp [collectFvExpr, usesExpr]
  | .this _, _ | .super _, _ => by simp [collectFvExpr, usesExpr]
  | .list .., _ | .dict .., _ | .lambda .., _ | .await .., _ => by simp [collectFvExpr, usesExpr]

theorem mem_collectFvExprs (agrees : Agrees locals b) : ∀ (es : List Expr) (result : List String),
    name ∈ collectFvExprs locals result es ↔ name ∈ result ∨ Finds (usesExprs b es) name
  | [], result => by simp [collectFvExprs, usesExprs]
  | e :: es, result => by
      rw [collectFvExprs, mem_collectFvExprs agrees es, mem_collectFvExpr agrees e, usesExprs,
        finds_append, or_assoc]

end

theorem mem_collectFvOpt (agrees : Agrees locals b) (e : Option Expr) (result : List String) :
    name ∈ collectFvOpt locals result e ↔ name ∈ result ∨ Finds (usesOpt b e) name := by
  cases e with
  | none => simp [collectFvOpt, usesOpt]
  | some e => exact mem_collectFvExpr agrees e result

theorem collectFvItems_spec (agrees : Agrees locals b) (ds : List VarItem)
    (result : List String) :
    Agrees (collectFvItems locals result ds).1 (usesItems true b ds).2 ∧
      ∀ name, name ∈ (collectFvItems locals result ds).2 ↔
        name ∈ result ∨ Finds (usesItems true b ds).1 name := by
  induction ds generalizing locals result b with
  | nil => exact ⟨agrees, fun name => by simp [collectFvItems, usesItems]⟩
  | cons d ds ih =>
      cases d with
      | mk x init =>
          obtain ⟨after, found⟩ := ih (agrees_bind agrees [x]) (collectFvOpt locals result init)
          refine ⟨after, fun name => ?_⟩
          rw [usesItems, finds_append, ← or_assoc, ← mem_collectFvOpt agrees]
          exact found name

/-- What is noted, name by name. -/
def notes (b : Binders) (name : String) : Bool := b.any fun e => e.1 = name && e.2

@[simp]
theorem notes_bind_false (names : List String) (b : Binders) :
    notes (bind false names b) = notes b := by
  funext name
  rw [notes, bind, List.any_append, List.any_map]
  simp [notes]

theorem notes_usesItems (b : Binders) (ds : List VarItem) :
    notes (usesItems false b ds).2 = notes b := by
  induction ds generalizing b with
  | nil => rfl
  | cons d ds ih =>
      cases d with
      | mk x init => exact (ih _).trans (notes_bind_false [x] b)

mutual

theorem notes_usesStmt (b : Binders) : ∀ s : Stmt, notes (usesStmt false b s).2 = notes b
  | .varDecl _ _ _ _ decls => notes_usesItems b decls
  | .defer _ body => notes_usesStmts b body
  | .unsafeStmt body => notes_usesStmts b body
  | .block _ | .expr _ | .ifStmt .. | .whileStmt .. | .doWhile .. | .forIn .. | .forC ..
  | .switchStmt .. | .matchStmt .. | .tryCatch .. | .returnStmt _ | .breakStmt _
  | .continueStmt _ | .assertStmt _ | .deleteStmt _ | .throwStmt _ => rfl

theorem notes_usesStmts (b : Binders) : ∀ ss : List Stmt, notes (usesStmts false b ss).2 = notes b
  | [] => rfl
  | s :: ss => (notes_usesStmts _ ss).trans (notes_usesStmt b s)

end

theorem agrees_of_notes {b' : Binders} (agrees : Agrees locals b) (same : notes b' = notes b) :
    Agrees locals b' := by
  intro name
  rw [agrees name]
  exact iff_of_eq (congrArg (· = true) (congrFun same name).symm)

mutual

/-- The collector finds what it comes to and takes for free, and leaves the
locals in agreement with what it has noted. -/
theorem collectFvStmt_spec : ∀ (s : Stmt) {locals : List String} {b : Binders},
    Agrees locals b → ∀ result : List String,
      Agrees (collectFvStmt locals result s).1 (usesStmt true b s).2 ∧
        ∀ name, name ∈ (collectFvStmt locals result s).2 ↔
          name ∈ result ∨ Finds (usesStmt true b s).1 name
  | .block body, _, _, agrees, result => ⟨agrees, (collectFvStmts_spec body agrees result).2⟩
  | .expr e, _, _, agrees, result => ⟨agrees, fun _ => mem_collectFvExpr agrees e result⟩
  | .returnStmt value, _, _, agrees, result =>
      ⟨agrees, fun _ => mem_collectFvOpt agrees value result⟩
  | .varDecl _ _ _ _ decls, _, _, agrees, result => collectFvItems_spec agrees decls result
  | .ifStmt cond thenBr elseBr, _, _, agrees, result => by
      refine ⟨agrees, fun name => ?_⟩
      rw [collectFvStmt, usesStmt, collectFvElse_spec elseBr agrees,
        (collectFvStmts_spec thenBr agrees _).2, mem_collectFvExpr agrees, finds_append,
        finds_append, or_assoc, or_assoc, or_assoc]
  | .whileStmt _ cond body, _, _, agrees, result => by
      refine ⟨agrees, fun name => ?_⟩
      rw [collectFvStmt, usesStmt, (collectFvStmts_spec body agrees _).2, mem_collectFvExpr agrees,
        finds_append, or_assoc]
  | .defer _ body, _, _, agrees, result =>
      ⟨agrees_of_notes agrees (notes_usesStmts _ body), fun name => by
        simp [collectFvStmt, usesStmt]⟩
  | .unsafeStmt body, _, _, agrees, result =>
      ⟨agrees_of_notes agrees (notes_usesStmts _ body), fun name => by
        simp [collectFvStmt, usesStmt]⟩
  | .breakStmt _, _, _, agrees, result | .continueStmt _, _, _, agrees, result =>
      ⟨agrees, fun name => by simp [collectFvStmt, usesStmt]⟩
  | .doWhile .., _, _, agrees, result | .forIn .., _, _, agrees, result
  | .forC .., _, _, agrees, result | .switchStmt .., _, _, agrees, result
  | .matchStmt .., _, _, agrees, result | .tryCatch .., _, _, agrees, result
  | .assertStmt _, _, _, agrees, result | .deleteStmt _, _, _, agrees, result
  | .throwStmt _, _, _, agrees, result =>
      ⟨agrees, fun name => by simp [collectFvStmt, usesStmt]⟩

theorem collectFvStmts_spec : ∀ (ss : List Stmt) {locals : List String} {b : Binders},
    Agrees locals b → ∀ result : List String,
      Agrees (collectFvStmts locals result ss).1 (usesStmts true b ss).2 ∧
        ∀ name, name ∈ (collectFvStmts locals result ss).2 ↔
          name ∈ result ∨ Finds (usesStmts true b ss).1 name
  | [], _, _, agrees, result => ⟨agrees, fun name => by simp [collectFvStmts, usesStmts]⟩
  | s :: ss, _, _, agrees, result => by
      obtain ⟨after, found⟩ := collectFvStmt_spec s agrees result
      obtain ⟨last, foundAll⟩ := collectFvStmts_spec ss after (collectFvStmt _ result s).2
      refine ⟨last, fun name => ?_⟩
      rw [usesStmts, finds_append, ← or_assoc, ← found]
      exact foundAll name

theorem collectFvElse_spec : ∀ (br : ElseBr) {locals : List String} {b : Binders},
    Agrees locals b → ∀ {result : List String} {name : String},
      name ∈ collectFvElse locals result br ↔ name ∈ result ∨ Finds (usesElse true b br) name
  | .none, _, _, _, _, _ => by simp [collectFvElse, usesElse]
  | .block body, _, _, agrees, result, name => (collectFvStmts_spec body agrees result).2 name
  | .elif cond thenBr elseBr, _, _, agrees, result, name => by
      rw [collectFvElse, usesElse, collectFvElse_spec elseBr agrees,
        (collectFvStmts_spec thenBr agrees _).2, mem_collectFvExpr agrees, finds_append,
        finds_append, or_assoc, or_assoc, or_assoc]

end

/-- The captures are the enclosing variables with a use the collector comes to
and takes for free. -/
theorem mem_captures {env : String → Bool} {params : List Param} {body : List Stmt} :
    name ∈ captures env params body ↔ env name = true ∧ Finds (lambdaUses params body) name := by
  have agrees : Agrees (params.map (·.name)) (bind true (params.map (·.name)) []) := by
    have none : Agrees [] [] := fun name => by simp
    have all := agrees_bind none (params.map (·.name))
    rwa [List.append_nil] at all
  rw [captures, List.mem_filter, (collectFvStmts_spec body agrees []).2, and_comm]
  simp [lambdaUses]

end Collector

/-! ## When nothing is lost -/

section Complete

variable (env : String → Bool) (params : List Param) (body : List Stmt)

/-- Every enclosing variable that is used freely where the collector does not
come is also used where it does, and a name that the lambda declares in a
deferred or unsafe block is not taken for an enclosing variable. -/
structure NothingLost : Prop where
  hidden : ∀ u ∈ lambdaUses params body, u.hidden = true → u.bound = false → env u.name = true →
    ∃ u' ∈ lambdaUses params body, u'.name = u.name ∧ u'.hidden = false ∧ u'.noted = false
  declared : ∀ u ∈ lambdaUses params body, u.hidden = false → u.noted = false → u.bound = true →
    env u.name = true → FreeIn params body u.name

theorem Use.bound_of_noted {u : Use} (noted : u.noted = true) : u.bound = true := by
  obtain ⟨e, member, here⟩ := List.any_eq_true.1 noted
  exact List.any_eq_true.2 ⟨e, member, (Bool.and_eq_true _ _ ▸ here).1⟩

end Complete

/-- A lambda that puts a variable of its function into a list. -/
def listOfOuter : Program where
  decls := [.func {
    loc := ⟨1, 1⟩, returnType := { name := "int" }, name := "main", params := []
    body := some [
      .varDecl ⟨2, 1⟩ { name := "int" } false false [.mk "n" (some (.intLit 0 1))],
      .varDecl ⟨3, 1⟩ { name := "auto" } false false
        [.mk "f" (some (.lambda 0 [] [.returnStmt (some (.list 0 [.ident 0 "n"]))] none ""))],
      .returnStmt (some (.intLit 0 0))] }]
  stmts := []

/-- The lambda of the second declaration in a program of that shape. -/
def secondLambda : Program → Option (List Param × List Stmt)
  | ⟨[.func { body := some (_ :: .varDecl _ _ _ _ [.mk _ (some (.lambda _ params body _ _))] :: _),
      .. }], _⟩ => some (params, body)
  | _ => none

end Dux.Codegen
