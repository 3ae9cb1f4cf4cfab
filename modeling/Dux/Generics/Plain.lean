import Dux.Generics.Expand

/-!
# What a walk leaves

A walk of `expand_generics` leaves a type with arguments exactly where it does
not look.  It neither makes a template nor removes one.
-/

namespace Dux.Generics

/-! ## Types without arguments -/

mutual

/-- A type expression without type arguments, at any depth. -/
def plainTe : TypeExpr → Bool
  | ⟨_, _, fnParams, _, typeArgs⟩ => typeArgs.isEmpty && plainTes fnParams

def plainTes : List TypeExpr → Bool
  | [] => true
  | te :: tes => plainTe te && plainTes tes

end

mutual

def plainExpr : Expr → Bool
  | .binary _ _ left right => plainExpr left && plainExpr right
  | .unary _ _ operand _ => plainExpr operand
  | .assign _ _ target value => plainExpr target && plainExpr value
  | .call _ callee args => plainExpr callee && plainExprs args
  | .member _ object _ => plainExpr object
  | .index _ object index => plainExpr object && plainExpr index
  | .new _ type args => plainTe type && plainExprs args
  | .list _ elements => plainExprs elements
  | .dict _ pairs => plainPairs pairs
  | .lambda _ params body explicitRet _ =>
      params.all (fun p => plainTe p.type) && plainStmts body && explicitRet.all plainTe
  | .await _ operand => plainExpr operand
  | .intLit .. | .longLit .. | .floatLit .. | .realLit .. | .stringLit .. | .boolLit ..
  | .nullLit .. | .ident .. | .this .. | .super .. => true

def plainExprs : List Expr → Bool
  | [] => true
  | e :: es => plainExpr e && plainExprs es

def plainOpt : Option Expr → Bool
  | none => true
  | some e => plainExpr e

def plainPairs : List DictPair → Bool
  | [] => true
  | .mk key value :: ps => plainExpr key && plainExpr value && plainPairs ps

def plainItems : List VarItem → Bool
  | [] => true
  | .mk _ init :: ds => plainOpt init && plainItems ds

def plainCases : List SwitchCase → Bool
  | [] => true
  | .mk value body :: cs => plainOpt value && plainStmts body && plainCases cs

def plainArms : List MatchArm → Bool
  | [] => true
  | .mk _ body :: as => plainStmts body && plainArms as

def plainElse : ElseBr → Bool
  | .none => true
  | .block body => plainStmts body
  | .elif cond thenBr elseBr => plainExpr cond && plainStmts thenBr && plainElse elseBr

def plainStmt : Stmt → Bool
  | .block body => plainStmts body
  | .expr e => plainExpr e
  | .varDecl _ type _ _ decls => plainTe type && plainItems decls
  | .ifStmt cond thenBr elseBr => plainExpr cond && plainStmts thenBr && plainElse elseBr
  | .whileStmt _ cond body => plainExpr cond && plainStmts body
  | .doWhile body cond => plainStmts body && plainExpr cond
  | .forIn varType _ iterable body => plainTe varType && plainExpr iterable && plainStmts body
  | .forC varType _ init cond incr body =>
      plainTe varType && plainExpr init && plainExpr cond && plainExpr incr && plainStmts body
  | .switchStmt e cases => plainExpr e && plainCases cases
  | .matchStmt e arms => plainExpr e && plainArms arms
  | .tryCatch tryBody _ catchType _ catchBody =>
      plainStmts tryBody && catchType.all plainTe && plainStmts catchBody
  | .returnStmt value => plainOpt value
  | .breakStmt _ => true
  | .continueStmt _ => true
  | .assertStmt cond => plainExpr cond
  | .deleteStmt e => plainExpr e
  | .defer _ body => plainStmts body
  | .throwStmt e => plainExpr e
  | .unsafeStmt body => plainStmts body

def plainStmts : List Stmt → Bool
  | [] => true
  | st :: sts => plainStmt st && plainStmts sts

end

def plainFunc (f : FunctionDecl) : Bool :=
  plainTe f.returnType && f.params.all (fun p => plainTe p.type) && f.body.all plainStmts &&
    f.initList.all (fun ie => plainExprs ie.args)

def plainMembers : List MemberTemplate → Bool
  | [] => true
  | .func f :: ms => plainFunc f.decl && plainMembers ms
  | .field f :: ms => plainTe f.type && plainOpt f.init && plainMembers ms

mutual

def plainDecl : GenericDecl → Bool
  | .cls c => plainMembers c.members
  | .func f => plainFunc f.decl
  | .namespaceDecl _ decls stmts => plainDecls decls && plainStmts stmts
  | .iface i => i.members.all plainFunc
  | .enum e => e.variants.all fun v => v.payload.all plainTe
  | .externDecl e => plainTe e.ret && e.params.all (fun p => plainTe p.type)
  | .importDecl _ => true
  | .packageDecl _ => true

def plainDecls : List GenericDecl → Bool
  | [] => true
  | d :: ds => plainDecl d && plainDecls ds

end

/-! ## Where the walks do not look -/

mutual

/-- The parts of an expression that `fix_expr` does not reach have no type with
arguments. -/
def blindExpr : Expr → Bool
  | .binary _ _ left right => blindExpr left && blindExpr right
  | .unary _ _ operand _ => blindExpr operand
  | .assign _ _ target value => blindExpr target && blindExpr value
  | .call _ callee args => blindExpr callee && blindExprs args
  | .member _ object _ => blindExpr object
  | .index _ object index => blindExpr object && blindExpr index
  | .new _ _ args => blindExprs args
  | .list _ elements => blindExprs elements
  | .dict _ pairs => blindPairs pairs
  | .lambda _ _ body explicitRet _ => blindStmts body && explicitRet.all plainTe
  | .await _ operand => plainExpr operand
  | .intLit .. | .longLit .. | .floatLit .. | .realLit .. | .stringLit .. | .boolLit ..
  | .nullLit .. | .ident .. | .this .. | .super .. => true

def blindExprs : List Expr → Bool
  | [] => true
  | e :: es => blindExpr e && blindExprs es

def blindOpt : Option Expr → Bool
  | none => true
  | some e => blindExpr e

def blindPairs : List DictPair → Bool
  | [] => true
  | .mk key value :: ps => blindExpr key && blindExpr value && blindPairs ps

def blindItems : List VarItem → Bool
  | [] => true
  | .mk _ init :: ds => blindOpt init && blindItems ds

def blindCases : List SwitchCase → Bool
  | [] => true
  | .mk value body :: cs => blindOpt value && blindStmts body && blindCases cs

def blindElse : ElseBr → Bool
  | .none => true
  | .block body => blindStmts body
  | .elif cond thenBr elseBr => blindExpr cond && blindStmts thenBr && blindElse elseBr

/-- The parts of a statement that `fix_stmt` does not reach have no type with
arguments. -/
def blindStmt : Stmt → Bool
  | .block body => blindStmts body
  | .expr e => blindExpr e
  | .varDecl _ _ _ _ decls => blindItems decls
  | .ifStmt cond thenBr elseBr => blindExpr cond && blindStmts thenBr && blindElse elseBr
  | .whileStmt _ cond body => blindExpr cond && blindStmts body
  | .doWhile body cond => blindStmts body && blindExpr cond
  | .forIn _ _ iterable body => blindExpr iterable && blindStmts body
  | .forC _ _ init cond incr body =>
      blindExpr init && blindExpr cond && blindExpr incr && blindStmts body
  | .switchStmt e cases => blindExpr e && blindCases cases
  | .matchStmt e arms => plainExpr e && plainArms arms
  | .tryCatch tryBody _ _ _ catchBody => blindStmts tryBody && blindStmts catchBody
  | .returnStmt value => blindOpt value
  | .breakStmt _ => true
  | .continueStmt _ => true
  | .assertStmt cond => blindExpr cond
  | .deleteStmt e => blindExpr e
  | .defer _ body => blindStmts body
  | .throwStmt e => blindExpr e
  | .unsafeStmt body => blindStmts body

def blindStmts : List Stmt → Bool
  | [] => true
  | st :: sts => blindStmt st && blindStmts sts

end

/-- The parts of a function that `fix_func_decl` does not reach, its initialiser
list above all, have no type with arguments. -/
def blindFunc (f : FunctionDecl) : Bool :=
  f.body.all blindStmts && f.initList.all (fun ie => plainExprs ie.args)

/-- The parts of members that `fix_decl` does not reach, the initialisers of
fields above all, have no type with arguments. -/
def blindMembers : List MemberTemplate → Bool
  | [] => true
  | .func f :: ms => blindFunc f.decl && blindMembers ms
  | .field f :: ms => plainOpt f.init && blindMembers ms

mutual

/-- The parts of a declaration that `fix_decl` does not reach have no type with
arguments. -/
def blindDecl (skipGeneric : Bool) : GenericDecl → Bool
  | .cls c =>
      if skipGeneric && !c.typeParams.isEmpty then plainMembers c.members
      else blindMembers c.members
  | .func f =>
      if skipGeneric && !f.typeParams.isEmpty then plainFunc f.decl else blindFunc f.decl
  | .namespaceDecl _ decls stmts => blindDecls skipGeneric decls && blindStmts stmts
  | .iface i => i.members.all plainFunc
  | .enum e => e.variants.all fun v => v.payload.all plainTe
  | .externDecl e => plainTe e.ret && e.params.all (fun p => plainTe p.type)
  | .importDecl _ => true
  | .packageDecl _ => true

def blindDecls (skipGeneric : Bool) : List GenericDecl → Bool
  | [] => true
  | d :: ds => blindDecl skipGeneric d && blindDecls skipGeneric ds

end

/-! ## After a walk -/

mutual

@[simp]
theorem plainTe_fixTe : ∀ te : TypeExpr, plainTe (fixTe te).1 = true
  | ⟨name, isConst, fnParams, fnRet, typeArgs⟩ => by
      have params := plainTes_fixTes fnParams
      cases typeArgs with
      | nil => simp [fixTe, fixTes, plainTe, params]
      | cons a as => simp [fixTe, plainTe, params]

@[simp]
theorem plainTes_fixTes : ∀ tes : List TypeExpr, plainTes (fixTes tes).1 = true
  | [] => by simp [fixTes, plainTes]
  | te :: tes => by simp [fixTes, plainTes, plainTe_fixTe te, plainTes_fixTes tes]

end

@[simp]
theorem plainTe_fixOptTe (te : Option TypeExpr) : (fixOptTe te).1.all plainTe = true := by
  cases te <;> simp [fixOptTe]

@[simp]
theorem plainTe_fixParams (params : List Param) :
    (fixParams params).1.all (fun p => plainTe p.type) = true := by
  induction params with
  | nil => rfl
  | cons p ps ih =>
      simp only [fixParams, List.all_cons, plainTe_fixTe, Bool.true_and]
      exact ih

mutual

theorem plainExpr_fixExpr : ∀ e : Expr, plainExpr (fixExpr e).1 = blindExpr e
  | .intLit .. | .longLit .. | .floatLit .. | .realLit .. | .stringLit .. | .boolLit ..
  | .nullLit .. | .ident .. | .this .. | .super .. => by simp [fixExpr, plainExpr, blindExpr]
  | .binary _ _ left right => by
      simp [fixExpr, plainExpr, blindExpr, plainExpr_fixExpr left, plainExpr_fixExpr right]
  | .unary _ _ operand _ => by simp [fixExpr, plainExpr, blindExpr, plainExpr_fixExpr operand]
  | .assign _ _ target value => by
      simp [fixExpr, plainExpr, blindExpr, plainExpr_fixExpr target, plainExpr_fixExpr value]
  | .call _ callee args => by
      simp [fixExpr, plainExpr, blindExpr, plainExpr_fixExpr callee, plainExprs_fixExprs args]
  | .member _ object _ => by simp [fixExpr, plainExpr, blindExpr, plainExpr_fixExpr object]
  | .index _ object index => by
      simp [fixExpr, plainExpr, blindExpr, plainExpr_fixExpr object, plainExpr_fixExpr index]
  | .new _ _ args => by simp [fixExpr, plainExpr, blindExpr, plainExprs_fixExprs args]
  | .list _ elements => by simp [fixExpr, plainExpr, blindExpr, plainExprs_fixExprs elements]
  | .dict _ pairs => by simp [fixExpr, plainExpr, blindExpr, plainPairs_fixPairs pairs]
  | .lambda _ params body _ _ => by
      simp only [fixExpr, plainExpr, blindExpr, plainTe_fixParams, plainStmts_fixStmts body,
        Bool.true_and]
  | .await _ _ => by simp [fixExpr, plainExpr, blindExpr]

theorem plainExprs_fixExprs : ∀ es : List Expr, plainExprs (fixExprs es).1 = blindExprs es
  | [] => by simp [fixExprs, plainExprs, blindExprs]
  | e :: es => by
      simp [fixExprs, plainExprs, blindExprs, plainExpr_fixExpr e, plainExprs_fixExprs es]

theorem plainOpt_fixOpt : ∀ e : Option Expr, plainOpt (fixOpt e).1 = blindOpt e
  | none => by simp [fixOpt, plainOpt, blindOpt]
  | some e => by simp [fixOpt, plainOpt, blindOpt, plainExpr_fixExpr e]

theorem plainPairs_fixPairs : ∀ ps : List DictPair, plainPairs (fixPairs ps).1 = blindPairs ps
  | [] => by simp [fixPairs, plainPairs, blindPairs]
  | .mk key value :: ps => by
      simp [fixPairs, plainPairs, blindPairs, plainExpr_fixExpr key, plainExpr_fixExpr value,
        plainPairs_fixPairs ps]

theorem plainItems_fixItems : ∀ ds : List VarItem, plainItems (fixItems ds).1 = blindItems ds
  | [] => by simp [fixItems, plainItems, blindItems]
  | .mk _ init :: ds => by
      simp [fixItems, plainItems, blindItems, plainOpt_fixOpt init, plainItems_fixItems ds]

theorem plainCases_fixCases : ∀ cs : List SwitchCase,
    plainCases (fixCases cs).1 = blindCases cs
  | [] => by simp [fixCases, plainCases, blindCases]
  | .mk value body :: cs => by
      simp [fixCases, plainCases, blindCases, plainOpt_fixOpt value, plainStmts_fixStmts body,
        plainCases_fixCases cs]

theorem plainElse_fixElse : ∀ b : ElseBr, plainElse (fixElse b).1 = blindElse b
  | .none => by simp [fixElse, plainElse, blindElse]
  | .block body => by simp [fixElse, plainElse, blindElse, plainStmts_fixStmts body]
  | .elif cond thenBr elseBr => by
      simp [fixElse, plainElse, blindElse, plainExpr_fixExpr cond, plainStmts_fixStmts thenBr,
        plainElse_fixElse elseBr]

theorem plainStmt_fixStmt : ∀ st : Stmt, plainStmt (fixStmt st).1 = blindStmt st
  | .block body => by simp [fixStmt, plainStmt, blindStmt, plainStmts_fixStmts body]
  | .expr e => by simp [fixStmt, plainStmt, blindStmt, plainExpr_fixExpr e]
  | .varDecl _ _ _ _ decls => by
      simp [fixStmt, plainStmt, blindStmt, plainItems_fixItems decls]
  | .ifStmt cond thenBr elseBr => by
      simp [fixStmt, plainStmt, blindStmt, plainExpr_fixExpr cond, plainStmts_fixStmts thenBr,
        plainElse_fixElse elseBr]
  | .whileStmt _ cond body => by
      simp [fixStmt, plainStmt, blindStmt, plainExpr_fixExpr cond, plainStmts_fixStmts body]
  | .doWhile body cond => by
      simp [fixStmt, plainStmt, blindStmt, plainExpr_fixExpr cond, plainStmts_fixStmts body]
  | .forIn _ _ iterable body => by
      simp [fixStmt, plainStmt, blindStmt, plainExpr_fixExpr iterable, plainStmts_fixStmts body]
  | .forC _ _ init cond incr body => by
      simp [fixStmt, plainStmt, blindStmt, plainExpr_fixExpr init, plainExpr_fixExpr cond,
        plainExpr_fixExpr incr, plainStmts_fixStmts body]
  | .switchStmt e cases => by
      simp [fixStmt, plainStmt, blindStmt, plainExpr_fixExpr e, plainCases_fixCases cases]
  | .matchStmt _ _ => by simp [fixStmt, plainStmt, blindStmt]
  | .tryCatch tryBody _ _ _ catchBody => by
      simp [fixStmt, plainStmt, blindStmt, plainStmts_fixStmts tryBody,
        plainStmts_fixStmts catchBody]
  | .returnStmt value => by simp [fixStmt, plainStmt, blindStmt, plainOpt_fixOpt value]
  | .breakStmt _ => by simp [fixStmt, plainStmt, blindStmt]
  | .continueStmt _ => by simp [fixStmt, plainStmt, blindStmt]
  | .assertStmt cond => by simp [fixStmt, plainStmt, blindStmt, plainExpr_fixExpr cond]
  | .deleteStmt e => by simp [fixStmt, plainStmt, blindStmt, plainExpr_fixExpr e]
  | .defer _ body => by simp [fixStmt, plainStmt, blindStmt, plainStmts_fixStmts body]
  | .throwStmt e => by simp [fixStmt, plainStmt, blindStmt, plainExpr_fixExpr e]
  | .unsafeStmt body => by simp [fixStmt, plainStmt, blindStmt, plainStmts_fixStmts body]

theorem plainStmts_fixStmts : ∀ sts : List Stmt, plainStmts (fixStmts sts).1 = blindStmts sts
  | [] => by simp [fixStmts, plainStmts, blindStmts]
  | st :: sts => by
      simp [fixStmts, plainStmts, blindStmts, plainStmt_fixStmt st, plainStmts_fixStmts sts]

end

theorem plainFunc_fixFuncDecl (f : FuncTemplate) :
    plainFunc (fixFuncDecl f).1.decl = blindFunc f.decl := by
  have params := plainTe_fixParams f.decl.params
  cases body : f.decl.body <;>
    simp only [fixFuncDecl, fixBody, body, plainFunc, blindFunc, params, plainTe_fixTe,
      Option.all_none, Option.all_some, plainStmts_fixStmts, Bool.true_and]

theorem plainMembers_fixMembers (ms : List MemberTemplate) :
    plainMembers (fixMembers ms).1 = blindMembers ms := by
  induction ms with
  | nil => rfl
  | cons m ms ih =>
      cases m with
      | func f => simp [fixMembers, plainMembers, blindMembers, plainFunc_fixFuncDecl, ih]
      | field f => simp [fixMembers, plainMembers, blindMembers, ih]

mutual

theorem plainDecl_fixDecl (skipGeneric : Bool) : ∀ d : GenericDecl,
    plainDecl (fixDecl skipGeneric d).1 = blindDecl skipGeneric d
  | .cls c => by
      simp only [fixDecl, blindDecl]
      split
      · rfl
      · exact plainMembers_fixMembers c.members
  | .func f => by
      simp only [fixDecl, blindDecl]
      split
      · rfl
      · exact plainFunc_fixFuncDecl f
  | .namespaceDecl _ decls stmts => by
      simp [fixDecl, plainDecl, blindDecl, plainDecls_fixDecls skipGeneric decls,
        plainStmts_fixStmts stmts]
  | .iface _ => by simp [fixDecl, plainDecl, blindDecl]
  | .enum _ => by simp [fixDecl, plainDecl, blindDecl]
  | .importDecl _ => by simp [fixDecl, plainDecl, blindDecl]
  | .packageDecl _ => by simp [fixDecl, plainDecl, blindDecl]
  | .externDecl _ => by simp [fixDecl, plainDecl, blindDecl]

theorem plainDecls_fixDecls (skipGeneric : Bool) : ∀ ds : List GenericDecl,
    plainDecls (fixDecls skipGeneric ds).1 = blindDecls skipGeneric ds
  | [] => by simp [fixDecls, plainDecls, blindDecls]
  | d :: ds => by
      simp [fixDecls, plainDecls, blindDecls, plainDecl_fixDecl skipGeneric d,
        plainDecls_fixDecls skipGeneric ds]

end

/-! ## Without templates -/

/-- Whether a member is a generic method. -/
def MemberTemplate.isGeneric : MemberTemplate → Bool
  | .func f => !f.typeParams.isEmpty
  | .field _ => false

mutual

/-- No template stands in the declaration, at any depth. -/
def concreteDecl : GenericDecl → Bool
  | .cls c => c.typeParams.isEmpty && c.members.all (!·.isGeneric)
  | .func f => f.typeParams.isEmpty
  | .namespaceDecl _ decls _ => concreteDecls decls
  | .iface _ | .enum _ | .importDecl _ | .packageDecl _ | .externDecl _ => true

def concreteDecls : List GenericDecl → Bool
  | [] => true
  | d :: ds => concreteDecl d && concreteDecls ds

end

theorem fixDecls_eq_map (skipGeneric : Bool) (ds : List GenericDecl) :
    (fixDecls skipGeneric ds).1 = ds.map fun d => (fixDecl skipGeneric d).1 := by
  induction ds with
  | nil => simp [fixDecls]
  | cons d ds ih => simp [fixDecls, ih]

theorem all_isGeneric_fixMembers (ms : List MemberTemplate) :
    (fixMembers ms).1.all (!·.isGeneric) = ms.all (!·.isGeneric) := by
  induction ms with
  | nil => rfl
  | cons m ms ih =>
      cases m with
      | func f =>
          have same : (MemberTemplate.func (fixFuncDecl f).1).isGeneric =
            (MemberTemplate.func f).isGeneric := rfl
          simp only [fixMembers, List.all_cons, same, ih]
      | field f =>
          have same (type : TypeExpr) : (MemberTemplate.field { f with type := type }).isGeneric =
            (MemberTemplate.field f).isGeneric := rfl
          simp only [fixMembers, List.all_cons, same, ih]

@[simp]
theorem isGeneric_fixDecl (skipGeneric : Bool) (d : GenericDecl) :
    (fixDecl skipGeneric d).1.isGeneric = d.isGeneric := by
  cases d with
  | cls c =>
      simp only [fixDecl]
      split <;> rfl
  | func f =>
      simp only [fixDecl]
      split <;> rfl
  | namespaceDecl name decls stmts => simp [fixDecl, GenericDecl.isGeneric]
  | _ => simp [fixDecl]

mutual

theorem concreteDecl_fixDecl (skipGeneric : Bool) : ∀ d : GenericDecl,
    concreteDecl (fixDecl skipGeneric d).1 = concreteDecl d
  | .cls c => by
      simp only [fixDecl]
      split
      · rfl
      · simp [concreteDecl, all_isGeneric_fixMembers]
  | .func f => by
      simp only [fixDecl]
      split <;> rfl
  | .namespaceDecl _ decls _ => by
      simp [fixDecl, concreteDecl, concreteDecls_fixDecls skipGeneric decls]
  | .iface _ | .enum _ | .importDecl _ | .packageDecl _ | .externDecl _ => by simp [fixDecl]

theorem concreteDecls_fixDecls (skipGeneric : Bool) : ∀ ds : List GenericDecl,
    concreteDecls (fixDecls skipGeneric ds).1 = concreteDecls ds
  | [] => by simp [fixDecls]
  | d :: ds => by
      simp [fixDecls, concreteDecls, concreteDecl_fixDecl skipGeneric d,
        concreteDecls_fixDecls skipGeneric ds]

end

theorem filter_fixDecls (skipGeneric : Bool) (ds : List GenericDecl) :
    (fixDecls skipGeneric ds).1.filter (!·.isGeneric) =
      (fixDecls skipGeneric (ds.filter (!·.isGeneric))).1 := by
  rw [fixDecls_eq_map, fixDecls_eq_map, List.filter_map]
  congr 2
  funext d
  simp

theorem stripNamespace_fixDecl (skipGeneric : Bool) (d : GenericDecl) :
    (fixDecl skipGeneric d).1.stripNamespace = (fixDecl skipGeneric d.stripNamespace).1 := by
  cases d with
  | cls c =>
      cases skipped : skipGeneric && !c.typeParams.isEmpty <;>
        simp [fixDecl, GenericDecl.stripNamespace, skipped]
  | func f =>
      cases skipped : skipGeneric && !f.typeParams.isEmpty <;>
        simp [fixDecl, GenericDecl.stripNamespace, skipped]
  | namespaceDecl name decls stmts =>
      simp only [fixDecl, GenericDecl.stripNamespace, filter_fixDecls]
  | _ => simp [fixDecl, GenericDecl.stripNamespace]

theorem keptDecls_fixDecls (skipGeneric : Bool) (ds : List GenericDecl) :
    keptDecls (fixDecls skipGeneric ds).1 = (fixDecls skipGeneric (keptDecls ds)).1 := by
  rw [keptDecls, filter_fixDecls, keptDecls, fixDecls_eq_map, fixDecls_eq_map, List.map_map,
    List.map_map]
  exact List.map_congr_left fun d _ => stripNamespace_fixDecl skipGeneric d

@[simp]
theorem plainDecls_append (ds ds' : List GenericDecl) :
    plainDecls (ds ++ ds') = (plainDecls ds && plainDecls ds') := by
  induction ds with
  | nil => simp [plainDecls]
  | cons d ds ih => simp [plainDecls, ih, Bool.and_assoc]

@[simp]
theorem concreteDecls_append (ds ds' : List GenericDecl) :
    concreteDecls (ds ++ ds') = (concreteDecls ds && concreteDecls ds') := by
  induction ds with
  | nil => simp [concreteDecls]
  | cons d ds ih => simp [concreteDecls, ih, Bool.and_assoc]

theorem plainDecls_iff (ds : List GenericDecl) :
    plainDecls ds = true ↔ ∀ d ∈ ds, plainDecl d = true := by
  induction ds with
  | nil => simp [plainDecls]
  | cons d ds ih => simp [plainDecls, ih]

theorem concreteDecls_iff (ds : List GenericDecl) :
    concreteDecls ds = true ↔ ∀ d ∈ ds, concreteDecl d = true := by
  induction ds with
  | nil => simp [concreteDecls]
  | cons d ds ih => simp [concreteDecls, ih]

theorem concreteDecl_clone (t : Template) (newName : String) (args : List TypeExpr) :
    concreteDecl (t.clone newName args).toDecl = true := by
  cases t with
  | func f => rfl
  | cls c =>
      simp only [Template.clone, Template.toDecl, concreteDecl, cloneClassDecl, List.all_map,
        List.isEmpty_nil, Bool.true_and, List.all_eq_true]
      rintro (f | f) _
      · simp only [Function.comp, cloneMember, renameSpecial]
        split <;> rfl
      · rfl

end Dux.Generics
