import Dux.Codegen.Layout
import Dux.Sema.Growth

/-!
# Do the two registries agree?

Semantic analysis stores bare `TypeId`s of its own registry in the tree, and
code generation looks them up in a registry that only holds the classes and
enums of the program.  An id keeps its meaning exactly when every user type that
analysis interned before it is a class or an enum too.
-/

namespace Dux

open Logic (keys internAll)

/-! ## The ids stored in a tree -/

mutual

/-- The ids stored on an expression and on the expressions in it. -/
def Expr.typeIds : Expr → List TypeId
  | .intLit t _ | .longLit t _ | .floatLit t _ | .realLit t _ | .stringLit t _
  | .boolLit t _ | .nullLit t | .ident t _ | .this t | .super t => [t]
  | .binary t _ left right => t :: (left.typeIds ++ right.typeIds)
  | .unary t _ operand _ => t :: operand.typeIds
  | .assign t _ target value => t :: (target.typeIds ++ value.typeIds)
  | .call t callee args => t :: (callee.typeIds ++ exprsTypeIds args)
  | .member t object _ => t :: object.typeIds
  | .index t object index => t :: (object.typeIds ++ index.typeIds)
  | .new t _ args => t :: exprsTypeIds args
  | .list t elements => t :: exprsTypeIds elements
  | .dict t pairs => t :: pairsTypeIds pairs
  | .lambda t _ body _ _ => t :: stmtsTypeIds body
  | .await t operand => t :: operand.typeIds

def exprsTypeIds : List Expr → List TypeId
  | [] => []
  | e :: es => e.typeIds ++ exprsTypeIds es

def pairTypeIds : DictPair → List TypeId
  | .mk key value => key.typeIds ++ value.typeIds

def pairsTypeIds : List DictPair → List TypeId
  | [] => []
  | p :: ps => pairTypeIds p ++ pairsTypeIds ps

def optTypeIds : Option Expr → List TypeId
  | none => []
  | some e => e.typeIds

def varItemTypeIds : VarItem → List TypeId
  | .mk _ init => optTypeIds init

def varItemsTypeIds : List VarItem → List TypeId
  | [] => []
  | d :: ds => varItemTypeIds d ++ varItemsTypeIds ds

def caseTypeIds : SwitchCase → List TypeId
  | .mk value body => optTypeIds value ++ stmtsTypeIds body

def casesTypeIds : List SwitchCase → List TypeId
  | [] => []
  | c :: cs => caseTypeIds c ++ casesTypeIds cs

def armTypeIds : MatchArm → List TypeId
  | .mk _ body => stmtsTypeIds body

def armsTypeIds : List MatchArm → List TypeId
  | [] => []
  | a :: as => armTypeIds a ++ armsTypeIds as

def elseTypeIds : ElseBr → List TypeId
  | .none => []
  | .block body => stmtsTypeIds body
  | .elif cond thenBr elseBr => cond.typeIds ++ stmtsTypeIds thenBr ++ elseTypeIds elseBr

def Stmt.typeIds : Stmt → List TypeId
  | .block body | .defer _ body | .unsafeStmt body => stmtsTypeIds body
  | .expr e | .assertStmt e | .deleteStmt e | .throwStmt e => e.typeIds
  | .varDecl _ _ _ _ decls => varItemsTypeIds decls
  | .ifStmt cond thenBr elseBr => cond.typeIds ++ stmtsTypeIds thenBr ++ elseTypeIds elseBr
  | .whileStmt _ cond body => cond.typeIds ++ stmtsTypeIds body
  | .doWhile body cond => stmtsTypeIds body ++ cond.typeIds
  | .forIn _ _ iterable body => iterable.typeIds ++ stmtsTypeIds body
  | .forC _ _ init cond incr body =>
      init.typeIds ++ cond.typeIds ++ incr.typeIds ++ stmtsTypeIds body
  | .switchStmt e cases => e.typeIds ++ casesTypeIds cases
  | .matchStmt e arms => e.typeIds ++ armsTypeIds arms
  | .tryCatch tryBody _ _ _ catchBody => stmtsTypeIds tryBody ++ stmtsTypeIds catchBody
  | .returnStmt value => optTypeIds value
  | .breakStmt _ | .continueStmt _ => []

def stmtsTypeIds : List Stmt → List TypeId
  | [] => []
  | s :: ss => s.typeIds ++ stmtsTypeIds ss

end

/-- The ids in the body of a function; initialiser lists hold none. -/
def FunctionDecl.typeIds (f : FunctionDecl) : List TypeId := (f.body.map stmtsTypeIds).getD []

def ClassMember.typeIds : ClassMember → List TypeId
  | .func f => f.typeIds
  | .field f => optTypeIds f.init

mutual

def Decl.typeIds : Decl → List TypeId
  | .func f => f.typeIds
  | .cls c => c.members.flatMap ClassMember.typeIds
  | .namespaceDecl _ decls stmts => declsTypeIds decls ++ stmtsTypeIds stmts
  | .iface _ | .enum _ | .importDecl _ | .packageDecl _ | .externDecl _ => []

def declsTypeIds : List Decl → List TypeId
  | [] => []
  | d :: ds => d.typeIds ++ declsTypeIds ds

end

/-- Every id analysis stores in the tree of a program. -/
def Program.typeIds (prog : Program) : List TypeId :=
  declsTypeIds prog.decls ++ stmtsTypeIds prog.stmts

/-! ## The table code generation builds -/

/-- Whether a request is for a type that code generation registers as well. -/
def isLaidOut (request : String × TypeKind) : Bool := request.2 = .cls ∨ request.2 = .enum

namespace Codegen

theorem entries_buildEnumType (ls : Layouts) (e : EnumDecl) :
    (buildEnumType ls e).types.entries = Logic.intern ls.types.entries (e.name, .enum) := by
  rw [← TypeRegistry.entries_intern]
  exact TypeRegistry.entries_modifyInfo _ _ fun _ => ⟨rfl, rfl⟩

theorem entries_buildClassLayout (ls : Layouts) (c : ClassDecl) :
    (buildClassLayout ls c).types.entries = Logic.intern ls.types.entries (c.name, .cls) :=
  TypeRegistry.entries_intern _ _ _

theorem filter_signatureRequests (ret : TypeExpr) (params : List Param) :
    (Sema.signatureRequests ret params).filter isLaidOut = [] := by
  rw [List.filter_eq_nil_iff]
  intro entry member
  simp [isLaidOut, Sema.signatureRequests_function ret params entry member]

mutual

theorem entries_buildLayout (ls : Layouts) : ∀ d : Decl,
    (buildLayout ls d).types.entries =
      internAll ls.types.entries ((Sema.typeRequests d).filter isLaidOut)
  | .cls c => entries_buildClassLayout ls c
  | .enum e => entries_buildEnumType ls e
  | .namespaceDecl _ decls _ => entries_buildLayouts ls decls
  | .func f => by rw [Sema.typeRequests, filter_signatureRequests]; rfl
  | .externDecl e => by rw [Sema.typeRequests, filter_signatureRequests]; rfl
  | .iface _ => rfl
  | .importDecl _ => rfl
  | .packageDecl _ => rfl

theorem entries_buildLayouts (ls : Layouts) : ∀ ds : List Decl,
    (buildLayouts ls ds).types.entries =
      internAll ls.types.entries ((Sema.typeRequestsAll ds).filter isLaidOut)
  | [] => rfl
  | d :: ds => by
      rw [buildLayouts, entries_buildLayouts (buildLayout ls d) ds, entries_buildLayout ls d,
        Sema.typeRequestsAll, List.filter_append, Logic.internAll_append]

end

end Codegen

/-! ## Checking keeps the requests -/

namespace Sema

/-- Every result of a computation has the property. -/
def Yields {α : Type} (P : α → Prop) (m : M α) : Prop := ∀ s a s', m.run s = some (a, s') → P a

section Yields

variable {α β : Type} {P : α → Prop} {Q : β → Prop} {m : M α} {f : α → M β}

theorem Yields.bind (second : ∀ a, Yields Q (f a)) : Yields Q (m >>= f) := by
  intro s b s'' run
  obtain ⟨a, s', _, run⟩ := Logic.run_bind_eq_some_iff.1 run
  exact second a s' b s'' run

theorem Yields.bind_of (first : Yields P m) (second : ∀ a, P a → Yields Q (f a)) :
    Yields Q (m >>= f) := by
  intro s b s'' run
  obtain ⟨a, s', run₁, run₂⟩ := Logic.run_bind_eq_some_iff.1 run
  exact second a (first s a s' run₁) s' b s'' run₂

theorem Yields.pure {a : α} (holds : P a) : Yields P (pure a) := by
  intro s a' s' run
  rw [← (Logic.run_pure_eq_some_iff.1 run).1]
  exact holds

theorem Yields.inScope (first : Yields P m) : Yields P (inScope m) :=
  .bind fun _ => .bind_of first fun _ holds => .bind fun _ => .pure holds

end Yields

theorem yields_checkFunc (f : FunctionDecl) :
    Yields (fun f' => f'.returnType = f.returnType ∧ f'.params = f.params) (checkFunc f) := by
  refine .bind fun ret => .inScope (.bind fun s => ?_)
  dsimp only
  by_cases instanceMethod : s.currentClassName ≠ "" ∧ (!f.isStatic) = true
  · rw [if_pos instanceMethod]
    exact .bind fun _ => .bind fun _ => .bind fun _ => .pure ⟨rfl, rfl⟩
  · rw [if_neg instanceMethod]
    exact .bind fun _ => .bind fun _ => .pure ⟨rfl, rfl⟩

theorem yields_checkClass (c : ClassDecl) : Yields (fun c' => c'.name = c.name) (checkClass c) := by
  refine .bind fun s => .bind fun _ => .bind fun _ => ?_
  refine .bind fun saved => .bind fun _ => ?_
  refine .bind_of (P := fun c' => c'.name = c.name) ?_ fun c' same =>
    .bind fun _ => .pure same
  exact .inScope (.bind fun _ => .bind fun _ => .pure rfl)

mutual

theorem yields_checkDecl : ∀ d : Decl,
    Yields (fun d' => typeRequests d' = typeRequests d) (checkDecl d)
  | .func f =>
      .bind_of (yields_checkFunc f) fun f' same => .pure (by
        rw [typeRequests, typeRequests, same.1, same.2])
  | .cls c =>
      .bind_of (yields_checkClass c) fun c' same => .pure (by
        rw [typeRequests, typeRequests, same])
  | .iface _ => .bind fun _ => .pure rfl
  | .namespaceDecl _ decls _ =>
      .inScope (.bind fun _ =>
        .bind_of (yields_checkDecls decls) fun _ same =>
          .bind fun _ => .pure same)
  | .importDecl _ => .bind fun _ => .pure rfl
  | .enum _ => .pure rfl
  | .packageDecl _ => .pure rfl
  | .externDecl _ => .pure rfl

theorem yields_checkDecls : ∀ ds : List Decl,
    Yields (fun ds' => typeRequestsAll ds' = typeRequestsAll ds) (checkDecls ds)
  | [] => .pure rfl
  | d :: ds =>
      .bind_of (yields_checkDecl d) fun _ same =>
        .bind_of (yields_checkDecls ds) fun _ same' =>
          .pure (by rw [typeRequestsAll, typeRequestsAll, same, same'])

end

theorem typeRequestsAll_of_run {prog prog' : Program} {s : State}
    (returns : (run prog).run .initial = some (prog', s)) :
    typeRequestsAll prog'.decls = typeRequestsAll prog.decls := by
  have yields : Yields (fun p => typeRequestsAll p.decls = typeRequestsAll prog.decls) (run prog) :=
    .bind fun _ => .bind_of (yields_checkDecls prog.decls) fun _ same =>
      .bind fun _ => .pure same
  exact yields _ _ _ returns

end Sema

/-! ## Agreement -/

namespace TypeRegistry

variable {r r' : TypeRegistry}

/-- An id denotes the same type in two registries: the same kind and name. -/
def SameType (r r' : TypeRegistry) (t : TypeId) : Prop :=
  (r.info t).kind = (r'.info t).kind ∧ r.nameOf t = r'.nameOf t

instance (r r' : TypeRegistry) (t : TypeId) : Decidable (SameType r r' t) :=
  inferInstanceAs (Decidable (_ ∧ _))

/-- A type that is not built in: the entry of an id behind the built-in ones. -/
def UserType (r : TypeRegistry) (t : TypeId) (name : String) (kind : TypeKind) : Prop :=
  (builtins.length : TypeId) ≤ t ∧ r.entries[t.toNat]? = some (name, kind)

/-- The registry starts with the built-in types. -/
def HasBuiltins (r : TypeRegistry) : Prop := initial.entries <+: r.entries

theorem byName_eq_findIdx? (r : TypeRegistry) (name : String) :
    r.byName name = (keys r.entries).findIdx? (· = name) := by
  rw [byName, keys, entries, List.map_map, List.findIdx?_map]
  rfl

theorem fromName_of_hasBuiltins (start : HasBuiltins r) (name : String) :
    r.fromName name = initial.fromName name ∨
      initial.fromName name = TID_UNKNOWN ∧ (builtins.length : TypeId) ≤ r.fromName name := by
  obtain ⟨more, appended⟩ := start
  by_cases isPtr : name = "ptr"
  · exact .inl (by rw [fromName, fromName, if_pos isPtr, if_pos isPtr])
  simp only [fromName, if_neg isPtr, byName_eq_findIdx?, ← appended, Logic.keys_append,
    List.findIdx?_append]
  cases builtin : (keys initial.entries).findIdx? (· = name) with
  | some i => exact .inl rfl
  | none =>
      cases user : (keys more).findIdx? (· = name) with
      | none => exact .inl rfl
      | some i =>
          exact .inr ⟨rfl, Int.ofNat_le.2 (Nat.le_add_left _ _)⟩

theorem kind_head (start : HasBuiltins r) : (r.types.headD {}).kind = .void := by
  obtain ⟨more, appended⟩ := start
  rw [entries, entries] at appended
  cases types : r.types with
  | nil =>
      rw [types] at appended
      cases appended
  | cons ti rest =>
      rw [types] at appended
      exact (congrArg Prod.snd (List.cons.inj appended).1).symm

theorem kind_info (start : HasBuiltins r) {t : TypeId} (nonneg : 0 ≤ t) :
    (r.info t).kind = (r.entries[t.toNat]?.map Prod.snd).getD .void := by
  rw [info, if_neg (Int.not_lt.2 nonneg), entries, List.getElem?_map, Option.map_map,
    List.getD_eq_getElem?_getD]
  cases r.types[t.toNat]? with
  | none => exact kind_head start
  | some ti => rfl

theorem nameOf_eq {t : TypeId} (nonneg : 0 ≤ t) :
    r.nameOf t = (r.entries[t.toNat]?.map Prod.fst).getD "<invalid>" := by
  have known : t ≠ TID_UNKNOWN := by
    rintro rfl
    exact absurd nonneg (by decide)
  rw [nameOf, if_neg known, if_neg (Int.not_lt.2 nonneg), entries, List.getElem?_map,
    Option.map_map]
  cases r.types[t.toNat]? <;> rfl

theorem sameType_of_neg (start : HasBuiltins r) (start' : HasBuiltins r') {t : TypeId}
    (negative : t < 0) : SameType r r' t := by
  refine ⟨?_, ?_⟩
  · rw [info, info, if_pos negative, if_pos negative, kind_head start, kind_head start']
  · rw [nameOf, nameOf, if_pos negative, if_pos negative]

theorem sameType_of_getElem?_eq (start : HasBuiltins r) (start' : HasBuiltins r') {t : TypeId}
    (nonneg : 0 ≤ t) (equal : r.entries[t.toNat]? = r'.entries[t.toNat]?) : SameType r r' t :=
  ⟨by rw [kind_info start nonneg, kind_info start' nonneg, equal],
    by rw [nameOf_eq nonneg, nameOf_eq nonneg, equal]⟩

theorem sameType_of_builtin (start : HasBuiltins r) (start' : HasBuiltins r') {t : TypeId}
    (nonneg : 0 ≤ t) (below : t.toNat < builtins.length) : SameType r r' t := by
  refine sameType_of_getElem?_eq start start' nonneg ?_
  obtain ⟨more, appended⟩ := start
  obtain ⟨more', appended'⟩ := start'
  have inBuiltins : t.toNat < initial.entries.length := below
  rw [← appended, ← appended', List.getElem?_append_left inBuiltins,
    List.getElem?_append_left inBuiltins]

theorem sameType_iff (start : HasBuiltins r) (start' : HasBuiltins r')
    (shorter : r'.entries.length ≤ r.entries.length)
    (noVoid : ∀ t name kind, r.UserType t name kind → kind ≠ .void) (t : TypeId) :
    SameType r r' t ↔
      ∀ name kind, r.UserType t name kind → r'.entries[t.toNat]? = some (name, kind) := by
  rcases Int.lt_or_le t 0 with negative | nonneg
  · refine iff_of_true (sameType_of_neg start start' negative) fun name kind user => ?_
    exact absurd (Int.le_trans (Int.natCast_nonneg _) user.1) (Int.not_le.2 negative)
  constructor
  · intro same name kind user
    rw [SameType, kind_info start nonneg, kind_info start' nonneg, nameOf_eq nonneg,
      nameOf_eq nonneg, user.2] at same
    cases found : r'.entries[t.toNat]? with
    | none =>
        rw [found] at same
        exact absurd same.1 (noVoid t name kind user)
    | some entry =>
        rw [found] at same
        exact congrArg some (Prod.ext same.2.symm same.1.symm)
  · intro agrees
    rcases Nat.lt_or_ge t.toNat builtins.length with below | past
    · exact sameType_of_builtin start start' nonneg below
    · refine sameType_of_getElem?_eq start start' nonneg ?_
      cases found : r.entries[t.toNat]? with
      | none =>
          rw [List.getElem?_eq_none_iff] at found
          rw [List.getElem?_eq_none (Nat.le_trans shorter found)]
      | some entry =>
          exact (agrees entry.1 entry.2 ⟨(Int.le_toNat nonneg).1 past, found⟩).symm

end TypeRegistry

namespace Sema

def builtinNames : List String := keys TypeRegistry.initial.entries

/-- The declarations request this type as a class or enum first, and by then
every other type they have requested is built in, a class or an enum as well. -/
def LaidOutInStep (requests : List (String × TypeKind)) (name : String) (kind : TypeKind) : Prop :=
  ∃ before after, requests = before ++ (name, kind) :: after ∧ name ∉ builtinNames ∧
    name ∉ keys before ∧ isLaidOut (name, kind) = true ∧
    ∀ other ∈ keys before, other ∈ builtinNames ∨ other ∈ keys (before.filter isLaidOut)

mutual

theorem kind_ne_void_of_mem_typeRequests : ∀ d : Decl, ∀ entry ∈ typeRequests d, entry.2 ≠ .void
  | .func f => by
      intro entry member
      rw [signatureRequests_function _ _ entry member]
      decide
  | .externDecl e => by
      intro entry member
      rw [signatureRequests_function _ _ entry member]
      decide
  | .cls _ | .iface _ | .enum _ => by
      intro entry member
      rw [List.mem_singleton.1 member]
      exact nofun
  | .namespaceDecl _ decls _ => kind_ne_void_of_mem_typeRequestsAll decls
  | .importDecl _ | .packageDecl _ => by
      intro entry member
      cases member

theorem kind_ne_void_of_mem_typeRequestsAll : ∀ ds : List Decl,
    ∀ entry ∈ typeRequestsAll ds, entry.2 ≠ .void
  | [] => by
      intro entry member
      cases member
  | d :: ds => by
      intro entry member
      rcases List.mem_append.1 member with member | member
      · exact kind_ne_void_of_mem_typeRequests d entry member
      · exact kind_ne_void_of_mem_typeRequestsAll ds entry member

end

/-- The tables of the two passes after analysis, over the same requests. -/
theorem registries_of_accepts {prog prog' : Program} {s : State} (accepts : Accepts prog prog' s) :
    (∃ functions, s.types.entries =
        internAll TypeRegistry.initial.entries (typeRequestsAll prog.decls) ++ functions ∧
      ∀ entry ∈ functions, entry.2 = .function) ∧
    (Codegen.layoutsOf prog').types.entries =
      internAll TypeRegistry.initial.entries ((typeRequestsAll prog.decls).filter isLaidOut) := by
  refine ⟨entries_of_run accepts.1, ?_⟩
  rw [Codegen.layoutsOf, Codegen.entries_buildLayouts, typeRequestsAll_of_run accepts.1]

theorem nodup_builtins : (keys TypeRegistry.initial.entries).Nodup := by decide

theorem mem_or_function_of_userType {prog prog' : Program} {s : State}
    (accepts : Accepts prog prog' s) {t : TypeId} {name : String} {kind : TypeKind}
    (user : s.types.UserType t name kind) :
    (internAll TypeRegistry.initial.entries (typeRequestsAll prog.decls))[t.toNat]? =
        some (name, kind) ∨
      (internAll TypeRegistry.initial.entries (typeRequestsAll prog.decls)).length ≤ t.toNat ∧
        kind = .function := by
  obtain ⟨⟨functions, table, functionKinds⟩, _⟩ := registries_of_accepts accepts
  have found := user.2
  rw [table] at found
  rcases Nat.lt_or_ge t.toNat
    (internAll TypeRegistry.initial.entries (typeRequestsAll prog.decls)).length with
    requested | past
  · rw [List.getElem?_append_left requested] at found
    exact Or.inl found
  · rw [List.getElem?_append_right past] at found
    exact Or.inr ⟨past, functionKinds _ (List.mem_of_getElem? found)⟩

theorem past_builtins {r : TypeRegistry} {t : TypeId} {name : String} {kind : TypeKind}
    (user : r.UserType t name kind) : TypeRegistry.initial.entries.length ≤ t.toNat := by
  have past := user.1
  have length : TypeRegistry.initial.entries.length = TypeRegistry.builtins.length := by decide
  rw [length]
  exact Int.ofNat_le.1 (Int.le_trans past (Int.self_le_toNat t))

/-- For every accepted program and every id stored in its tree: code generation
gives the id the meaning it has for analysis exactly when the user type it
stands for, if any, was laid out in step. -/
theorem sameType_iff_laidOutInStep {prog prog' : Program} {s : State}
    (accepts : Accepts prog prog' s) {t : TypeId} (_stored : t ∈ prog'.typeIds) :
    TypeRegistry.SameType s.types (Codegen.layoutsOf prog').types t ↔
      ∀ name kind, s.types.UserType t name kind →
        LaidOutInStep (typeRequestsAll prog.decls) name kind := by
  obtain ⟨⟨functions, semaTable, _⟩, codegenTable⟩ := registries_of_accepts accepts
  have start : s.types.HasBuiltins := by
    rw [TypeRegistry.HasBuiltins, semaTable]
    exact Logic.prefix_internAll.trans (List.prefix_append _ _)
  have start' : (Codegen.layoutsOf prog').types.HasBuiltins := by
    rw [TypeRegistry.HasBuiltins, codegenTable]
    exact Logic.prefix_internAll
  have shorter : (Codegen.layoutsOf prog').types.entries.length ≤ s.types.entries.length := by
    rw [semaTable, codegenTable, List.length_append]
    exact Nat.le_add_right_of_le (Logic.length_internAll_filter_le nodup_builtins)
  have noVoid : ∀ t name kind, s.types.UserType t name kind → kind ≠ .void := by
    intro t name kind user
    rcases mem_or_function_of_userType accepts user with requested | ⟨_, rfl⟩
    · obtain ⟨before, after, split, _⟩ :=
        Logic.exists_request_of_getElem? (past_builtins user) requested
      have member : (name, kind) ∈ typeRequestsAll prog.decls := by
        rw [split]
        exact List.mem_append_right _ List.mem_cons_self
      exact kind_ne_void_of_mem_typeRequestsAll prog.decls _ member
    · exact nofun
  rw [TypeRegistry.sameType_iff start start' shorter noVoid]
  refine forall_congr' fun name => forall_congr' fun kind => forall_congr' fun user => ?_
  rw [codegenTable]
  rcases mem_or_function_of_userType accepts user with requested | ⟨past, rfl⟩
  · exact Logic.getElem?_internAll_filter_eq_iff nodup_builtins (past_builtins user) requested
  · -- a function type has no entry in the second table
    refine iff_of_false ?_ ?_
    · rw [List.getElem?_eq_none
        (Nat.le_trans (Logic.length_internAll_filter_le nodup_builtins) past)]
      exact nofun
    · rintro ⟨_, _, _, _, _, laidOut, _⟩
      exact Bool.false_ne_true laidOut

/-! ## Two programs -/

/-- `void f() { new C(); }` after the given declarations. -/
def newAfter (decls : List Decl) : Program :=
  { decls := decls ++ [.func
      { loc := ⟨1, 1⟩, returnType := { name := "void" }, name := "f", params := [],
        body := some [.expr (.new (-1) { name := "C" } [])] }]
    stmts := [] }

/-- `class B {}  class C {}`. -/
def classesOnly : Program :=
  newAfter [.cls { name := "B", members := [] }, .cls { name := "C", members := [] }]

/-- `interface I {}  class C {}`. -/
def interfaceFirst : Program :=
  newAfter [.iface { name := "I", members := [] }, .cls { name := "C", members := [] }]

/-- The id of `C` keeps its meaning behind another class. -/
theorem sameType_classesOnly : ∃ prog' s, Accepts classesOnly prog' s ∧
    13 ∈ prog'.typeIds ∧ s.types.UserType 13 "C" .cls ∧
    TypeRegistry.SameType s.types (Codegen.layoutsOf prog').types 13 := by
  obtain ⟨prog', s, accepts, holds⟩ := exists_accepts classesOnly
    (fun prog' s => 13 ∈ prog'.typeIds ∧ s.types.entries[13]? = some ("C", .cls))
    (by decide +kernel)
  rw [decide_eq_true_iff] at holds
  obtain ⟨stored, entry⟩ := holds
  refine ⟨prog', s, accepts, stored, ⟨by decide, entry⟩, ?_⟩
  rw [sameType_iff_laidOutInStep accepts stored]
  intro name kind user
  cases user.2.symm.trans entry
  exact ⟨[("B", .cls)], [], by decide +kernel⟩

/-- The id of `C` loses its meaning behind an interface. -/
theorem not_sameType_interfaceFirst : ¬ ∀ prog prog' s, Accepts prog prog' s →
    ∀ t ∈ prog'.typeIds, TypeRegistry.SameType s.types (Codegen.layoutsOf prog').types t := by
  intro agree
  obtain ⟨prog', s, accepts, holds⟩ := exists_accepts interfaceFirst
    (fun prog' s => 13 ∈ prog'.typeIds ∧
      ¬ TypeRegistry.SameType s.types (Codegen.layoutsOf prog').types 13)
    (by decide +kernel)
  rw [decide_eq_true_iff] at holds
  exact holds.2 (agree _ prog' s accepts 13 holds.1)

end Sema

end Dux
