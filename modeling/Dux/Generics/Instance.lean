import Dux.Generics.Clone

/-!
# Instances of templates

What an instance of a template is: its tree with every type parameter replaced
by its argument at every type position, and every other part as it was.  The
clone of a template is its instance exactly if the template uses none of the
constructs that the copy loses.
-/

namespace Dux.Generics

/-! ## Type positions -/

/-- The type name that a parameter stands for. -/
def instName (s : SubstMap) (name : String) : String :=
  match s.lookup name with
  | some arg => arg.name
  | none => name

mutual

/-- A type expression with its parameters replaced.  A function type keeps the
name of its result, which is replaced as well. -/
def instTe (s : SubstMap) : TypeExpr → TypeExpr
  | ⟨name, isConst, fnParams, fnRet, typeArgs⟩ =>
      if name = "__fn" then
        ⟨name, isConst, instTes s fnParams, instName s fnRet, instTes s typeArgs⟩
      else match typeArgs.isEmpty, s.lookup name with
        | true, some arg => { arg with isConst := arg.isConst || isConst }
        | _, _ => ⟨name, isConst, instTes s fnParams, fnRet, instTes s typeArgs⟩

/-- Type expressions with their parameters replaced. -/
def instTes (s : SubstMap) : List TypeExpr → List TypeExpr
  | [] => []
  | te :: tes => instTe s te :: instTes s tes

end

mutual

/-- No function type inside, up to the parameters themselves, has a result that
is a parameter and stands for another name. -/
def keptTe (s : SubstMap) : TypeExpr → Bool
  | ⟨name, _, fnParams, fnRet, typeArgs⟩ =>
      if name = "__fn" then instName s fnRet = fnRet && keptTes s fnParams && keptTes s typeArgs
      else match typeArgs.isEmpty, s.lookup name with
        | true, some _ => true
        | _, _ => keptTes s fnParams && keptTes s typeArgs

/-- `keptTe` of several type expressions. -/
def keptTes (s : SubstMap) : List TypeExpr → Bool
  | [] => true
  | te :: tes => keptTe s te && keptTes s tes

end

section Trees

-- what becomes of a type position
variable (f : TypeExpr → TypeExpr)

def mapParams (params : List Param) : List Param := params.map fun p => ⟨f p.type, p.name⟩

mutual

/-- An expression with `f` applied at every type position, not resolved. -/
def mapExpr : Expr → Expr
  | .intLit _ v => .intLit (-1) v
  | .longLit _ v => .longLit (-1) v
  | .floatLit _ v => .floatLit (-1) v
  | .realLit _ v => .realLit (-1) v
  | .stringLit _ v => .stringLit (-1) v
  | .boolLit _ v => .boolLit (-1) v
  | .nullLit _ => .nullLit (-1)
  | .ident _ name => .ident (-1) name
  | .this _ => .this (-1)
  | .super _ => .super (-1)
  | .binary _ op left right => .binary (-1) op (mapExpr left) (mapExpr right)
  | .unary _ op operand isPrefix => .unary (-1) op (mapExpr operand) isPrefix
  | .assign _ op target value => .assign (-1) op (mapExpr target) (mapExpr value)
  | .call _ callee args => .call (-1) (mapExpr callee) (mapExprs args)
  | .member _ object member => .member (-1) (mapExpr object) member
  | .index _ object index => .index (-1) (mapExpr object) (mapExpr index)
  | .new _ type args => .new (-1) (f type) (mapExprs args)
  | .list _ elements => .list (-1) (mapExprs elements)
  | .dict _ pairs => .dict (-1) (mapPairs pairs)
  | .lambda _ params body explicitRet _ =>
      .lambda (-1) (mapParams f params) (mapStmts body) (explicitRet.map f) ""
  | .await _ operand => .await (-1) (mapExpr operand)

def mapExprs : List Expr → List Expr
  | [] => []
  | e :: es => mapExpr e :: mapExprs es

def mapOpt : Option Expr → Option Expr
  | none => none
  | some e => some (mapExpr e)

def mapPairs : List DictPair → List DictPair
  | [] => []
  | .mk key value :: ps => .mk (mapExpr key) (mapExpr value) :: mapPairs ps

def mapItems : List VarItem → List VarItem
  | [] => []
  | .mk name init :: ds => .mk name (mapOpt init) :: mapItems ds

def mapCases : List SwitchCase → List SwitchCase
  | [] => []
  | .mk value body :: cs => .mk (mapOpt value) (mapStmts body) :: mapCases cs

def mapArms : List MatchArm → List MatchArm
  | [] => []
  | .mk pattern body :: as => .mk pattern (mapStmts body) :: mapArms as

def mapElse : ElseBr → ElseBr
  | .none => .none
  | .block body => .block (mapStmts body)
  | .elif cond thenBr elseBr => .elif (mapExpr cond) (mapStmts thenBr) (mapElse elseBr)

def mapStmt : Stmt → Stmt
  | .block body => .block (mapStmts body)
  | .expr e => .expr (mapExpr e)
  | .varDecl loc type isStatic isThreadLocal decls =>
      .varDecl loc (f type) isStatic isThreadLocal (mapItems decls)
  | .ifStmt cond thenBr elseBr => .ifStmt (mapExpr cond) (mapStmts thenBr) (mapElse elseBr)
  | .whileStmt label cond body => .whileStmt label (mapExpr cond) (mapStmts body)
  | .doWhile body cond => .doWhile (mapStmts body) (mapExpr cond)
  | .forIn varType varName iterable body =>
      .forIn (f varType) varName (mapExpr iterable) (mapStmts body)
  | .forC varType varName init cond incr body =>
      .forC (f varType) varName (mapExpr init) (mapExpr cond) (mapExpr incr) (mapStmts body)
  | .switchStmt e cases => .switchStmt (mapExpr e) (mapCases cases)
  | .matchStmt e arms => .matchStmt (mapExpr e) (mapArms arms)
  | .tryCatch tryBody catchAll catchType catchVar catchBody =>
      .tryCatch (mapStmts tryBody) catchAll (catchType.map f) catchVar (mapStmts catchBody)
  | .returnStmt value => .returnStmt (mapOpt value)
  | .breakStmt label => .breakStmt label
  | .continueStmt label => .continueStmt label
  | .assertStmt cond => .assertStmt (mapExpr cond)
  | .deleteStmt e => .deleteStmt (mapExpr e)
  | .defer loc body => .defer loc (mapStmts body)
  | .throwStmt e => .throwStmt (mapExpr e)
  | .unsafeStmt body => .unsafeStmt (mapStmts body)

def mapStmts : List Stmt → List Stmt
  | [] => []
  | st :: sts => mapStmt st :: mapStmts sts

end

def mapFunc (t : FuncTemplate) : FuncTemplate :=
  { t with
    decl :=
      { t.decl with
        returnType := f t.decl.returnType
        params := mapParams f t.decl.params
        body := t.decl.body.map (mapStmts f)
        initList := t.decl.initList.map fun ie => ⟨ie.field, mapExprs f ie.args⟩ } }

def mapField (t : FieldDecl) : FieldDecl :=
  { t with type := f t.type, init := mapOpt f t.init }

end Trees

/-! ## Instances -/

/-- The instance of a class template: its members with the parameters replaced.
It has no parameters of its own, and constructors and destructors bear its
name. -/
def instClass (c : ClassTemplate) (newName : String) (s : SubstMap) : ClassTemplate :=
  { name := newName
    bases := c.bases
    members := c.members.map fun
      | .func m => .func (renameSpecial newName (mapFunc (instTe s) m))
      | .field m => .field (mapField (instTe s) m) }

def instFunc (t : FuncTemplate) (newName : String) (s : SubstMap) : FuncTemplate :=
  let r := mapFunc (instTe s) t
  { decl := { r.decl with name := newName } }

/-! ## What the copy keeps -/

section Kept

variable (s : SubstMap)

mutual

/-- An expression that is copied without loss: no `await`, no lambda with an
explicit return type. -/
def keptExpr : Expr → Bool
  | .binary _ _ left right => keptExpr left && keptExpr right
  | .unary _ _ operand _ => keptExpr operand
  | .assign _ _ target value => keptExpr target && keptExpr value
  | .call _ callee args => keptExpr callee && keptExprs args
  | .member _ object _ => keptExpr object
  | .index _ object index => keptExpr object && keptExpr index
  | .new _ type args => keptTe s type && keptExprs args
  | .list _ elements => keptExprs elements
  | .dict _ pairs => keptPairs pairs
  | .lambda _ params body explicitRet _ =>
      params.all (fun p => keptTe s p.type) && keptStmts body && explicitRet.isNone
  | .await _ _ => false
  | .intLit .. | .longLit .. | .floatLit .. | .realLit .. | .stringLit .. | .boolLit ..
  | .nullLit .. | .ident .. | .this .. | .super .. => true

def keptExprs : List Expr → Bool
  | [] => true
  | e :: es => keptExpr e && keptExprs es

def keptOpt : Option Expr → Bool
  | none => true
  | some e => keptExpr e

def keptPairs : List DictPair → Bool
  | [] => true
  | .mk key value :: ps => keptExpr key && keptExpr value && keptPairs ps

def keptItems : List VarItem → Bool
  | [] => true
  | .mk _ init :: ds => keptOpt init && keptItems ds

def keptCases : List SwitchCase → Bool
  | [] => true
  | .mk value body :: cs => keptOpt value && keptStmts body && keptCases cs

def keptElse : ElseBr → Bool
  | .none => true
  | .block body => keptStmts body
  | .elif cond thenBr elseBr => keptExpr cond && keptStmts thenBr && keptElse elseBr

/-- A statement that is copied without loss: no `match`, no `static` or
`thread_local` declaration. -/
def keptStmt : Stmt → Bool
  | .block body => keptStmts body
  | .expr e => keptExpr e
  | .varDecl _ type isStatic isThreadLocal decls =>
      keptTe s type && !isStatic && !isThreadLocal && keptItems decls
  | .ifStmt cond thenBr elseBr => keptExpr cond && keptStmts thenBr && keptElse elseBr
  | .whileStmt _ cond body => keptExpr cond && keptStmts body
  | .doWhile body cond => keptStmts body && keptExpr cond
  | .forIn varType _ iterable body => keptTe s varType && keptExpr iterable && keptStmts body
  | .forC varType _ init cond incr body =>
      keptTe s varType && keptExpr init && keptExpr cond && keptExpr incr && keptStmts body
  | .switchStmt e cases => keptExpr e && keptCases cases
  | .matchStmt _ _ => false
  | .tryCatch tryBody _ catchType _ catchBody =>
      keptStmts tryBody && catchType.all (keptTe s) && keptStmts catchBody
  | .returnStmt value => keptOpt value
  | .breakStmt _ => true
  | .continueStmt _ => true
  | .assertStmt cond => keptExpr cond
  | .deleteStmt e => keptExpr e
  | .defer _ body => keptStmts body
  | .throwStmt e => keptExpr e
  | .unsafeStmt body => keptStmts body

def keptStmts : List Stmt → Bool
  | [] => true
  | st :: sts => keptStmt st && keptStmts sts

end

/-- A function that is copied without loss: neither `static` nor `async`. -/
def keptFunc (t : FuncTemplate) : Bool :=
  keptTe s t.decl.returnType && t.decl.params.all (fun p => keptTe s p.type) &&
    t.decl.body.all (keptStmts s) && t.decl.initList.all (fun ie => keptExprs s ie.args) &&
    !t.decl.isStatic && !t.decl.isAsync

/-- A member that is copied without loss: a method without type parameters of
its own, or a field that is not `static`. -/
def keptMember : MemberTemplate → Bool
  | .func m => keptFunc s m && m.typeParams.isEmpty && m.typeBounds.isEmpty
  | .field m => keptTe s m.type && keptOpt s m.init && !m.isStatic

end Kept

/-! ## Clones and instances -/

section Types

variable (s : SubstMap)

mutual

theorem substTe_eq_iff : ∀ te : TypeExpr, substTe s te = instTe s te ↔ keptTe s te = true
  | ⟨name, isConst, fnParams, fnRet, typeArgs⟩ => by
      have params := substTes_eq_iff fnParams
      have args := substTes_eq_iff typeArgs
      by_cases isFn : name = "__fn"
      · have result : fnRet = instName s fnRet ↔ instName s fnRet = fnRet := eq_comm
        simp [substTe, instTe, keptTe, isFn, params, args, result, and_left_comm, and_assoc]
      · cases empty : typeArgs.isEmpty <;> cases found : s.lookup name <;>
          simp [substTe, instTe, keptTe, isFn, empty, found, params, args]

theorem substTes_eq_iff : ∀ tes : List TypeExpr,
    substTes s tes = instTes s tes ↔ keptTes s tes = true
  | [] => by simp [substTes, instTes, keptTes]
  | te :: tes => by
      simp [substTes, instTes, keptTes, substTe_eq_iff te, substTes_eq_iff tes]

end

theorem cloneParams_eq_iff (params : List Param) :
    cloneParams s params = mapParams (instTe s) params ↔
      params.all (fun p => keptTe s p.type) = true := by
  induction params with
  | nil => simp [cloneParams, mapParams]
  | cons p ps ih =>
      simp only [cloneParams, mapParams] at ih
      simp [cloneParams, mapParams, ih, substTe_eq_iff]

theorem map_substTe_eq_iff (te : Option TypeExpr) :
    te.map (substTe s) = te.map (instTe s) ↔ te.all (keptTe s) = true := by
  cases te <;> simp [substTe_eq_iff]

end Types

section Statements

variable (s : SubstMap)

mutual

theorem cloneExpr_eq_iff : ∀ e : Expr,
    cloneExpr s e = mapExpr (instTe s) e ↔ keptExpr s e = true
  | .intLit .. | .longLit .. | .floatLit .. | .realLit .. | .stringLit .. | .boolLit ..
  | .nullLit .. | .ident .. | .this .. | .super .. => by simp [cloneExpr, mapExpr, keptExpr]
  | .binary _ _ left right => by
      simp [cloneExpr, mapExpr, keptExpr, cloneExpr_eq_iff left, cloneExpr_eq_iff right]
  | .unary _ _ operand _ => by simp [cloneExpr, mapExpr, keptExpr, cloneExpr_eq_iff operand]
  | .assign _ _ target value => by
      simp [cloneExpr, mapExpr, keptExpr, cloneExpr_eq_iff target, cloneExpr_eq_iff value]
  | .call _ callee args => by
      simp [cloneExpr, mapExpr, keptExpr, cloneExpr_eq_iff callee, cloneExprs_eq_iff args]
  | .member _ object _ => by simp [cloneExpr, mapExpr, keptExpr, cloneExpr_eq_iff object]
  | .index _ object index => by
      simp [cloneExpr, mapExpr, keptExpr, cloneExpr_eq_iff object, cloneExpr_eq_iff index]
  | .new _ type args => by
      simp [cloneExpr, mapExpr, keptExpr, substTe_eq_iff s type, cloneExprs_eq_iff args]
  | .list _ elements => by simp [cloneExpr, mapExpr, keptExpr, cloneExprs_eq_iff elements]
  | .dict _ pairs => by simp [cloneExpr, mapExpr, keptExpr, clonePairs_eq_iff pairs]
  | .lambda _ params body explicitRet _ => by
      have parameters := cloneParams_eq_iff s params
      have statements := cloneStmts_eq_iff body
      cases explicitRet <;>
        simp [cloneExpr, mapExpr, keptExpr, parameters, statements]
  | .await _ operand => by simp [cloneExpr, mapExpr, keptExpr, nullExpr]

theorem cloneExprs_eq_iff : ∀ es : List Expr,
    cloneExprs s es = mapExprs (instTe s) es ↔ keptExprs s es = true
  | [] => by simp [cloneExprs, mapExprs, keptExprs]
  | e :: es => by
      simp [cloneExprs, mapExprs, keptExprs, cloneExpr_eq_iff e, cloneExprs_eq_iff es]

theorem cloneOpt_eq_iff : ∀ e : Option Expr,
    cloneOpt s e = mapOpt (instTe s) e ↔ keptOpt s e = true
  | none => by simp [cloneOpt, mapOpt, keptOpt]
  | some e => by simp [cloneOpt, mapOpt, keptOpt, cloneExpr_eq_iff e]

theorem clonePairs_eq_iff : ∀ ps : List DictPair,
    clonePairs s ps = mapPairs (instTe s) ps ↔ keptPairs s ps = true
  | [] => by simp [clonePairs, mapPairs, keptPairs]
  | .mk key value :: ps => by
      simp [clonePairs, mapPairs, keptPairs, cloneExpr_eq_iff key, cloneExpr_eq_iff value,
        clonePairs_eq_iff ps]

theorem cloneItems_eq_iff : ∀ ds : List VarItem,
    cloneItems s ds = mapItems (instTe s) ds ↔ keptItems s ds = true
  | [] => by simp [cloneItems, mapItems, keptItems]
  | .mk _ init :: ds => by
      simp [cloneItems, mapItems, keptItems, cloneOpt_eq_iff init, cloneItems_eq_iff ds]

theorem cloneCases_eq_iff : ∀ cs : List SwitchCase,
    cloneCases s cs = mapCases (instTe s) cs ↔ keptCases s cs = true
  | [] => by simp [cloneCases, mapCases, keptCases]
  | .mk value body :: cs => by
      simp [cloneCases, mapCases, keptCases, cloneOpt_eq_iff value, cloneStmts_eq_iff body,
        cloneCases_eq_iff cs, and_assoc]

theorem cloneElse_eq_iff : ∀ b : ElseBr,
    cloneElse s b = mapElse (instTe s) b ↔ keptElse s b = true
  | .none => by simp [cloneElse, mapElse, keptElse]
  | .block body => by simp [cloneElse, mapElse, keptElse, cloneStmts_eq_iff body]
  | .elif cond thenBr elseBr => by
      simp [cloneElse, mapElse, keptElse, cloneExpr_eq_iff cond, cloneStmts_eq_iff thenBr,
        cloneElse_eq_iff elseBr, and_assoc]

theorem cloneStmt_eq_iff : ∀ st : Stmt,
    cloneStmt s st = mapStmt (instTe s) st ↔ keptStmt s st = true
  | .block body => by simp [cloneStmt, mapStmt, keptStmt, cloneStmts_eq_iff body]
  | .expr e => by simp [cloneStmt, mapStmt, keptStmt, cloneExpr_eq_iff e]
  | .varDecl _ type isStatic isThreadLocal decls => by
      have items := cloneItems_eq_iff decls
      have types := substTe_eq_iff s type
      cases isStatic <;> cases isThreadLocal <;>
        simp [cloneStmt, mapStmt, keptStmt, items, types]
  | .ifStmt cond thenBr elseBr => by
      simp [cloneStmt, mapStmt, keptStmt, cloneExpr_eq_iff cond, cloneStmts_eq_iff thenBr,
        cloneElse_eq_iff elseBr, and_assoc]
  | .whileStmt _ cond body => by
      simp [cloneStmt, mapStmt, keptStmt, cloneExpr_eq_iff cond, cloneStmts_eq_iff body]
  | .doWhile body cond => by
      simp [cloneStmt, mapStmt, keptStmt, cloneExpr_eq_iff cond, cloneStmts_eq_iff body]
  | .forIn varType _ iterable body => by
      simp [cloneStmt, mapStmt, keptStmt, substTe_eq_iff s varType, cloneExpr_eq_iff iterable,
        cloneStmts_eq_iff body, and_assoc]
  | .forC varType _ init cond incr body => by
      simp [cloneStmt, mapStmt, keptStmt, substTe_eq_iff s varType, cloneExpr_eq_iff init,
        cloneExpr_eq_iff cond, cloneExpr_eq_iff incr, cloneStmts_eq_iff body, and_assoc]
  | .switchStmt e cases => by
      simp [cloneStmt, mapStmt, keptStmt, cloneExpr_eq_iff e, cloneCases_eq_iff cases]
  | .matchStmt _ _ => by simp [cloneStmt, mapStmt, keptStmt, nullStmt]
  | .tryCatch tryBody _ catchType _ catchBody => by
      simp only [cloneStmt, mapStmt, keptStmt, Stmt.tryCatch.injEq, true_and, Bool.and_eq_true,
        cloneStmts_eq_iff tryBody, map_substTe_eq_iff, cloneStmts_eq_iff catchBody, and_assoc]
  | .returnStmt value => by simp [cloneStmt, mapStmt, keptStmt, cloneOpt_eq_iff value]
  | .breakStmt _ => by simp [cloneStmt, mapStmt, keptStmt]
  | .continueStmt _ => by simp [cloneStmt, mapStmt, keptStmt]
  | .assertStmt cond => by simp [cloneStmt, mapStmt, keptStmt, cloneExpr_eq_iff cond]
  | .deleteStmt e => by simp [cloneStmt, mapStmt, keptStmt, cloneExpr_eq_iff e]
  | .defer _ body => by simp [cloneStmt, mapStmt, keptStmt, cloneStmts_eq_iff body]
  | .throwStmt e => by simp [cloneStmt, mapStmt, keptStmt, cloneExpr_eq_iff e]
  | .unsafeStmt body => by simp [cloneStmt, mapStmt, keptStmt, cloneStmts_eq_iff body]

theorem cloneStmts_eq_iff : ∀ sts : List Stmt,
    cloneStmts s sts = mapStmts (instTe s) sts ↔ keptStmts s sts = true
  | [] => by simp [cloneStmts, mapStmts, keptStmts]
  | st :: sts => by
      simp [cloneStmts, mapStmts, keptStmts, cloneStmt_eq_iff st, cloneStmts_eq_iff sts]

end

end Statements

section Declarations

variable (s : SubstMap)

theorem cloneInit_eq_iff (entries : List InitEntry) :
    entries.map (fun ie => (⟨ie.field, cloneExprs s ie.args⟩ : InitEntry)) =
        entries.map (fun ie => ⟨ie.field, mapExprs (instTe s) ie.args⟩) ↔
      entries.all (fun ie => keptExprs s ie.args) = true := by
  simp [List.map_inj_left, List.all_eq_true, cloneExprs_eq_iff]

theorem map_cloneStmts_eq_iff (body : Option (List Stmt)) :
    body.map (cloneStmts s) = body.map (mapStmts (instTe s)) ↔
      body.all (keptStmts s) = true := by
  cases body with
  | none => simp
  | some body => simp [cloneStmts_eq_iff s body]

theorem cloneFuncDecl_eq_iff (t : FuncTemplate) :
    (cloneFuncDecl s t).decl = (mapFunc (instTe s) t).decl ↔ keptFunc s t = true := by
  have static : false = t.decl.isStatic ↔ (!t.decl.isStatic) = true := by
    cases t.decl.isStatic <;> simp
  have async : false = t.decl.isAsync ↔ (!t.decl.isAsync) = true := by
    cases t.decl.isAsync <;> simp
  simp only [cloneFuncDecl, mapFunc, keptFunc, FunctionDecl.mk.injEq, true_and,
    Bool.and_eq_true, substTe_eq_iff, cloneParams_eq_iff, map_cloneStmts_eq_iff, cloneInit_eq_iff,
    static, async]
  constructor
  · rintro ⟨ret, params, body, isStatic, isAsync, init⟩
    exact ⟨⟨⟨⟨⟨ret, params⟩, body⟩, init⟩, isStatic⟩, isAsync⟩
  · rintro ⟨⟨⟨⟨⟨ret, params⟩, body⟩, init⟩, isStatic⟩, isAsync⟩
    exact ⟨ret, params, body, isStatic, isAsync, init⟩

theorem cloneFieldDecl_eq_iff (t : FieldDecl) :
    cloneFieldDecl s t = mapField (instTe s) t ↔
      (keptTe s t.type && keptOpt s t.init && !t.isStatic) = true := by
  have static : false = t.isStatic ↔ (!t.isStatic) = true := by cases t.isStatic <;> simp
  simp only [cloneFieldDecl, mapField, FieldDecl.mk.injEq, true_and, Bool.and_eq_true,
    substTe_eq_iff, cloneOpt_eq_iff, static, and_assoc]

theorem renameSpecial_eq_iff {newName : String} {t t' : FuncTemplate}
    (name : t.decl.name = t'.decl.name) (ctor : t.decl.isCtor = t'.decl.isCtor)
    (dtor : t.decl.isDtor = t'.decl.isDtor) :
    renameSpecial newName t = renameSpecial newName t' ↔ t = t' := by
  constructor
  · rcases t with ⟨params, bounds, decl⟩
    rcases t' with ⟨params', bounds', decl'⟩
    rcases decl with ⟨⟩
    rcases decl' with ⟨⟩
    simp only at name ctor dtor
    subst name ctor dtor
    unfold renameSpecial
    split
    · simp
    · simp
  · rintro rfl
    rfl

theorem cloneMember_eq_iff (newName : String) (m : MemberTemplate) :
    cloneMember newName s m =
        (match m with
          | .func m => .func (renameSpecial newName (mapFunc (instTe s) m))
          | .field m => .field (mapField (instTe s) m)) ↔
      keptMember s m = true := by
  cases m with
  | field f =>
      simp only [cloneMember, keptMember, MemberTemplate.field.injEq]
      exact cloneFieldDecl_eq_iff s f
  | func f =>
      have decls := cloneFuncDecl_eq_iff s f
      have params : ([] : List String) = f.typeParams ↔ f.typeParams.isEmpty = true := by
        rw [List.isEmpty_iff, eq_comm]
      have bounds : ([] : List TypeBound) = f.typeBounds ↔ f.typeBounds.isEmpty = true := by
        rw [List.isEmpty_iff, eq_comm]
      have renamed : renameSpecial newName (cloneFuncDecl s f) =
          renameSpecial newName (mapFunc (instTe s) f) ↔
            cloneFuncDecl s f = mapFunc (instTe s) f := renameSpecial_eq_iff rfl rfl rfl
      simp only [cloneMember, keptMember, MemberTemplate.func.injEq, Bool.and_eq_true]
      rw [renamed, ← decls, ← params, ← bounds]
      constructor
      · intro same
        rw [same]
        exact ⟨⟨rfl, (congrArg FuncTemplate.typeParams same)⟩,
          (congrArg FuncTemplate.typeBounds same)⟩
      · rintro ⟨⟨sameDecl, noParams⟩, noBounds⟩
        have whole : ∀ t t' : FuncTemplate, t.typeParams = t'.typeParams →
            t.typeBounds = t'.typeBounds → t.decl = t'.decl → t = t' := by
          rintro ⟨⟩ ⟨⟩ rfl rfl rfl
          rfl
        exact whole _ _ noParams noBounds sameDecl

end Declarations

/-! ## Templates -/

/-- A generic declaration. -/
inductive Template
  | cls (c : ClassTemplate)
  | func (f : FuncTemplate)

namespace Template

def typeParams : Template → List String
  | .cls c => c.typeParams
  | .func f => f.typeParams

/-- The clone that `expand_generics` makes for a list of arguments. -/
def clone (newName : String) (args : List TypeExpr) : Template → Template
  | .cls c => .cls (cloneClassDecl c newName (substMap [] c.typeParams args))
  | .func f => .func (cloneGenericFunc f newName (substMap [] f.typeParams args))

/-- The template with its parameters replaced by arguments. -/
def instantiate (newName : String) (args : List TypeExpr) : Template → Template
  | .cls c => .cls (instClass c newName (substMap [] c.typeParams args))
  | .func f => .func (instFunc f newName (substMap [] f.typeParams args))

/-- The template uses nothing that the copy loses or leaves as it is. -/
def kept (args : List TypeExpr) : Template → Bool
  | .cls c => c.members.all (keptMember (substMap [] c.typeParams args))
  | .func f => keptFunc (substMap [] f.typeParams args) f

end Template

/-- A class template with a `static` method. -/
def staticMethod : Template := .cls
  { name := "Box", typeParams := ["T"],
    members :=
      [.func { decl := { loc := ⟨1, 1⟩, returnType := { name := "int" }, name := "count",
                         params := [], body := some [.returnStmt (some (.intLit (-1) 1))],
                         isStatic := true } }] }

end Dux.Generics
