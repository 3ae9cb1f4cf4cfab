import Dux.Codegen.Dispatch
import Dux.Codegen.TypeIds

/-!
# Classes in namespaces

Before any body is generated, `Codegen::run` (`src/codegen/codegen.cpp`) lays out
all classes and declares all functions, and every instance method that is declared
is entered into the layout of its class.  `gen_namespace` does both once more for
its own declarations: the layouts are built anew, but since the functions are there
already, nothing is entered into the new ones.  Getters and setters are found
through these entries only.
-/

namespace Dux.Codegen

/-- The methods of a layout with the functions that they point to. -/
abbrev MethodTable := List (MethodInfo × Option Declared)

/-- A module with the functions that its layouts point to.  Newer tables stand in
front of those they overwrite. -/
structure LinkedModule extends Module where
  tables : List (String × MethodTable) := []

/-- The methods of a class as `build_class_layout` leaves them. -/
def freshTable (c : ClassDecl) : MethodTable := (ownMethods 0 c.members).map fun mi => (mi, none)

/-- The tables that `build_layouts` makes. -/
def buildTables (tables : List (String × MethodTable)) (decls : List Decl) :
    List (String × MethodTable) :=
  ((classesOf decls).map fun c => (c.name, freshTable c)).reverse ++ tables

/-- Enter a function for the first method of that name and modifier. -/
def linkMethod (f : FunctionDecl) (fn : Declared) : MethodTable → MethodTable
  | [] => []
  | (mi, old) :: rest =>
      if mi.name = f.name ∧ mi.modifier = f.modifier.getD "" then (mi, some fn) :: rest
      else (mi, old) :: linkMethod f fn rest

def updateTable (cls : String) (change : MethodTable → MethodTable) :
    List (String × MethodTable) → List (String × MethodTable)
  | [] => []
  | (name, table) :: rest =>
      if cls = name then (name, change table) :: rest
      else (name, table) :: updateTable cls change rest

namespace LinkedModule

/-- `declare_class_methods`, one member. -/
def declareMember (m : LinkedModule) (cls : String) (f : FunctionDecl) : LinkedModule :=
  if isTrivialDtor f then m
  else if (m.functions.lookup (mangleClassMember cls f)).isSome then m
  else
    { m with
      functions := m.functions.declare (mangleClassMember cls f) (.member cls f)
      tables :=
        if f.isStatic || f.isCtor || f.isDtor then m.tables
        else updateTable cls (linkMethod f (.member cls f)) m.tables }

/-- `declare_class_methods`. -/
def declareMembers (m : LinkedModule) (cls : String) : List ClassMember → LinkedModule
  | [] => m
  | .field _ :: ms => declareMembers m cls ms
  | .func f :: ms => declareMembers (m.declareMember cls f) cls ms

mutual

/-- `declare_functions`, one declaration. -/
def declareDecl (m : LinkedModule) (namePrefix : String) : Decl → LinkedModule
  | .cls c => m.declareMembers c.name c.members
  | .namespaceDecl name decls _ => declareAll m name decls
  | .func f => { m with functions := Codegen.declareDecl m.functions namePrefix (.func f) }
  | .externDecl e =>
      { m with functions := Codegen.declareDecl m.functions namePrefix (.externDecl e) }
  | .iface _ => m
  | .enum _ => m
  | .importDecl _ => m
  | .packageDecl _ => m

/-- `declare_functions`. -/
def declareAll (m : LinkedModule) (namePrefix : String) : List Decl → LinkedModule
  | [] => m
  | d :: ds => declareAll (declareDecl m namePrefix d) namePrefix ds

end

/-- Passes 2 and 3, which `gen_namespace` makes again. -/
def enter (m : LinkedModule) (name : String) (decls : List Decl) : LinkedModule :=
  declareAll
    { m with ls := buildLayouts m.ls decls, tables := buildTables m.tables decls } name decls

end LinkedModule

/-- The module before any body is generated. -/
def linkedModuleOf (prog : Program) : LinkedModule :=
  LinkedModule.enter { toModule := Module.processImports {} prog.decls } "" prog.decls

/-! ## The functions of the module -/

namespace LinkedModule

theorem functions_declareMembers (cls : String) (ms : List ClassMember) (m : LinkedModule) :
    (m.declareMembers cls ms).toModule =
      { m.toModule with functions := declareClassMethods m.functions cls ms } := by
  induction ms generalizing m with
  | nil => rfl
  | cons member ms ih =>
    cases member with
    | field f => exact ih m
    | func f =>
      rw [declareMembers, ih, declareClassMethods, declareMember]
      split
      · rfl
      · cases taken : m.functions.lookup (mangleClassMember cls f) with
        | some d => simp [Symbols.declare, taken]
        | none => simp

mutual

theorem toModule_declareDecl (namePrefix : String) : ∀ (d : Decl) (m : LinkedModule),
    (m.declareDecl namePrefix d).toModule =
      { m.toModule with functions := Codegen.declareDecl m.functions namePrefix d }
  | .cls c, m => functions_declareMembers c.name c.members m
  | .namespaceDecl name decls _, m => toModule_declareAll name decls m
  | .func _, _ | .externDecl _, _ | .iface _, _ | .enum _, _ | .importDecl _, _
  | .packageDecl _, _ => rfl

theorem toModule_declareAll (namePrefix : String) : ∀ (ds : List Decl) (m : LinkedModule),
    (m.declareAll namePrefix ds).toModule =
      { m.toModule with functions := declareFunctions m.functions namePrefix ds }
  | [], _ => rfl
  | d :: ds, m => by
    rw [declareAll, toModule_declareAll namePrefix ds, toModule_declareDecl namePrefix d]
    rfl

end

@[simp]
theorem toModule_enter (m : LinkedModule) (name : String) (decls : List Decl) :
    (m.enter name decls).toModule = m.toModule.declare name decls :=
  toModule_declareAll name decls _

end LinkedModule

@[simp]
theorem toModule_linkedModuleOf (prog : Program) :
    (linkedModuleOf prog).toModule = moduleOf prog := LinkedModule.toModule_enter _ _ _

/-! ## What accesses are compiled to -/

/-- What the value of `o.member` is read from. -/
inductive MemberAccess
  | getter (fn : Declared)
  | field (f : FieldInfo)
  | value (fn : Declared)
  | null

/-- What an assignment to `o.member` writes to. -/
inductive MemberTarget
  | setter (fn : Declared)
  | field (f : FieldInfo)
  | none

/-- The first method of a name that points to a function, of those that `only` allows. -/
def MethodTable.find (table : MethodTable) (member : String) (only : MethodInfo → Bool) :
    Option Declared :=
  table.findSome? fun entry => if entry.1.name = member ∧ only entry.1 then entry.2 else none

def ClassLayout.field (layout : ClassLayout) (member : String) : Option FieldInfo :=
  layout.fields.find? fun f => f.name = member

namespace LinkedModule

variable (m : LinkedModule)

def table (cls : String) : MethodTable := (m.tables.lookup cls).getD []

/-- `gen_member`, for an object of a class. -/
def access (cls member : String) : MemberAccess :=
  match m.ls.layouts.lookup cls with
  | none => .null
  | some layout =>
      match (m.table cls).find member fun mi => mi.modifier = "get" with
      | some fn => .getter fn
      | none =>
          match layout.field member with
          | some f => .field f
          | none =>
              match (m.table cls).find member fun _ => true with
              | some fn => .value fn
              | none => .null

/-- `gen_assign` and `lvalue_of`, for an object of a class. -/
def target (cls member : String) : MemberTarget :=
  match m.ls.layouts.lookup cls with
  | none => .none
  | some layout =>
      match (m.table cls).find member fun mi => mi.modifier = "set" with
      | some fn => .setter fn
      | none =>
          if layout.methods.any fun mi => mi.name = member && mi.modifier ≠ "" then .none
          else match layout.field member with
            | some f => .field f
            | none => .none

def destructor (cls : String) : Option Declared := m.functions.lookup (cls ++ "___dtor")

end LinkedModule

/-- Whatever a body does to an object, it is compiled to the same in both modules. -/
structure Agree (a b : LinkedModule) : Prop where
  resolve : ∀ currentClass varClass obj tid,
    a.resolveClassName currentClass varClass obj tid =
      b.resolveClassName currentClass varClass obj tid
  access : ∀ cls member, a.access cls member = b.access cls member
  target : ∀ cls member, a.target cls member = b.target cls member
  call : ∀ method fuel cls, a.findMethod method fuel cls = b.findMethod method fuel cls
  layout : ∀ cls, a.ls.layouts.lookup cls = b.ls.layouts.lookup cls
  destructor : ∀ cls, a.destructor cls = b.destructor cls

/-! ## Generating bodies -/

/-- What generating bodies does to the module: a body declares functions of the
runtime, and a namespace is laid out and declared again. -/
inductive ModuleStep
  | runtime (symbol : String) (params : Nat)
  | enter (name : String) (decls : List Decl)

/-- One of these. -/
def LinkedModule.step (m : LinkedModule) : ModuleStep → LinkedModule
  | .runtime symbol params =>
      { m with functions := m.functions.declare symbol (.runtime symbol params) }
  | .enter name decls => m.enter name decls

/-- Several of them, in order. -/
def LinkedModule.after (m : LinkedModule) (ops : List ModuleStep) : LinkedModule :=
  ops.foldl LinkedModule.step m

/-- Generating these declarations does this to the module. -/
inductive Generates : List Decl → List ModuleStep → Prop
  | nil : Generates [] []
  | runtime {ds : List Decl} {ops : List ModuleStep} (symbol : String) (params : Nat)
      (rest : Generates ds ops) : Generates ds (.runtime symbol params :: ops)
  | plain {d : Decl} {ds : List Decl} {ops : List ModuleStep}
      (noNamespace : namespacesOfDecl d = []) (rest : Generates ds ops) : Generates (d :: ds) ops
  | enter {name : String} {decls : List Decl} {stmts : List Stmt} {ds : List Decl}
      {ops : List ModuleStep} (rest : Generates (decls ++ ds) ops) :
      Generates (.namespaceDecl name decls stmts :: ds) (.enter name decls :: ops)

/-- A program with a class between other declarations. -/
def classAtTop (before : List Decl) (c : ClassDecl) (rest : List Decl) (stmts : List Stmt) :
    Program := ⟨before ++ .cls c :: rest, stmts⟩

/-- The same program with the class in a namespace. -/
def classInside (before : List Decl) (ns : String) (c : ClassDecl) (rest : List Decl)
    (stmts : List Stmt) : Program := ⟨before ++ .namespaceDecl ns [.cls c] [] :: rest, stmts⟩

/-- The class behaves the same in both places: up to the class the module is the same,
and the modules in which bodies are generated from there on agree. -/
def BehavesAlike (before : List Decl) (ns : String) (c : ClassDecl) (rest : List Decl)
    (stmts : List Stmt) : Prop :=
  (∀ ops, (linkedModuleOf (classInside before ns c rest stmts)).after ops =
      (linkedModuleOf (classAtTop before c rest stmts)).after ops) ∧
    ∀ earlier later, Generates before earlier → Generates rest later → ∀ ops, ops <+: later →
      Agree ((linkedModuleOf (classAtTop before c rest stmts)).after (earlier ++ ops))
        ((linkedModuleOf (classInside before ns c rest stmts)).after
          (earlier ++ .enter ns [.cls c] :: ops))

/-- A method that points to a function which a body can come across: an accessor, or a
method under whose name there is no field. -/
def shows (layout : ClassLayout) (entry : MethodInfo × Option Declared) : Bool :=
  entry.2.isSome && (entry.1.modifier = "get" || entry.1.modifier = "set" ||
    (layout.field entry.1.name).isNone)

/-- Laying the class out once more makes no difference: the layout that it has shows no
function, and it is the one that comes out of the layouts and types known by now. -/
structure Settled (m : LinkedModule) (c : ClassDecl) : Prop where
  unlinked : ∀ layout, m.ls.layouts.lookup c.name = some layout →
    ∀ entry ∈ m.table c.name, shows layout entry = false
  laidOut : (buildClassLayout m.ls c).layouts.lookup c.name = m.ls.layouts.lookup c.name

/-! ## Before the class -/

section Before

variable (ns : String) (c : ClassDecl) (rest : List Decl)

theorem processImports_moved (before : List Decl) (m : Module) :
    m.processImports (before ++ .namespaceDecl ns [.cls c] [] :: rest) =
      m.processImports (before ++ .cls c :: rest) := by
  induction before generalizing m with
  | nil => rfl
  | cons d before ih => cases d <;> exact ih _

theorem buildLayouts_moved (before : List Decl) (ls : Layouts) :
    buildLayouts ls (before ++ .namespaceDecl ns [.cls c] [] :: rest) =
      buildLayouts ls (before ++ .cls c :: rest) := by
  induction before generalizing ls with
  | nil => rfl
  | cons d before ih => exact ih _

theorem classesOf_moved (before : List Decl) :
    classesOf (before ++ .namespaceDecl ns [.cls c] [] :: rest) =
      classesOf (before ++ .cls c :: rest) := by
  induction before with
  | nil => rfl
  | cons d before ih => exact congrArg (classesOfDecl d ++ ·) ih

theorem declareAll_moved (before : List Decl) (namePrefix : String) (m : LinkedModule) :
    m.declareAll namePrefix (before ++ .namespaceDecl ns [.cls c] [] :: rest) =
      m.declareAll namePrefix (before ++ .cls c :: rest) := by
  induction before generalizing m with
  | nil => rfl
  | cons d before ih => exact ih _

theorem linkedModuleOf_moved (before : List Decl) (stmts : List Stmt) :
    linkedModuleOf (classInside before ns c rest stmts) =
      linkedModuleOf (classAtTop before c rest stmts) := by
  unfold linkedModuleOf LinkedModule.enter classInside classAtTop buildTables
  simp only [processImports_moved, buildLayouts_moved, classesOf_moved, declareAll_moved]

end Before

/-! ## What bodies see of a table -/

/-- The table with the functions only that can be seen. -/
def seen (layout : ClassLayout) (table : MethodTable) : MethodTable :=
  table.map fun entry => (entry.1, if shows layout entry then entry.2 else none)

theorem find_seen (layout : ClassLayout) (table : MethodTable) (member : String)
    (only : MethodInfo → Bool)
    (visible : ∀ mi : MethodInfo, mi.name = member → only mi = true →
      (mi.modifier = "get" ∨ mi.modifier = "set") ∨ layout.field member = none) :
    (seen layout table).find member only = table.find member only := by
  unfold seen MethodTable.find
  rw [List.findSome?_map]
  congr 1
  funext entry
  obtain ⟨mi, fn⟩ := entry
  by_cases isIt : mi.name = member ∧ only mi = true
  · have sees : fn.isSome = true → shows layout (mi, fn) = true := by
      intro linked
      rcases visible mi isIt.1 isIt.2 with (get | set) | none
      · simp [shows, linked, get]
      · simp [shows, linked, set]
      · simp [shows, linked, isIt.1, none]
    cases fn with
    | none => simp
    | some d => simp [isIt, sees]
  · simp [isIt]

namespace LinkedModule

variable {a b : LinkedModule}

/-- Two modules in which bodies see the same. -/
structure Similar (a b : LinkedModule) : Prop where
  types : a.ls.types = b.ls.types
  enumTypes : a.ls.enumTypes = b.ls.enumTypes
  layouts : ∀ cls, a.ls.layouts.lookup cls = b.ls.layouts.lookup cls
  functions : a.functions = b.functions
  stdlibImports : a.stdlibImports = b.stdlibImports
  userModuleImports : a.userModuleImports = b.userModuleImports
  tables : ∀ cls layout, a.ls.layouts.lookup cls = some layout →
    seen layout (a.table cls) = seen layout (b.table cls)

theorem Similar.access (similar : Similar a b) (cls member : String) :
    a.access cls member = b.access cls member := by
  unfold LinkedModule.access
  rw [← similar.layouts cls]
  cases found : a.ls.layouts.lookup cls with
  | none => rfl
  | some layout =>
    have getter : (a.table cls).find member (fun mi => mi.modifier = "get") =
        (b.table cls).find member fun mi => mi.modifier = "get" := by
      rw [← find_seen layout, ← find_seen layout (b.table cls), similar.tables cls layout found]
      all_goals exact fun mi _ get => .inl (.inl (of_decide_eq_true get))
    have value (noField : layout.field member = none) :
        (a.table cls).find member (fun _ => true) = (b.table cls).find member fun _ => true := by
      rw [← find_seen layout, ← find_seen layout (b.table cls), similar.tables cls layout found]
      all_goals exact fun _ _ _ => .inr noField
    simp only [getter]
    cases noField : layout.field member with
    | none => rw [value noField]
    | some f => rfl

theorem Similar.target (similar : Similar a b) (cls member : String) :
    a.target cls member = b.target cls member := by
  unfold LinkedModule.target
  rw [← similar.layouts cls]
  cases found : a.ls.layouts.lookup cls with
  | none => rfl
  | some layout =>
    have setter : (a.table cls).find member (fun mi => mi.modifier = "set") =
        (b.table cls).find member fun mi => mi.modifier = "set" := by
      rw [← find_seen layout, ← find_seen layout (b.table cls), similar.tables cls layout found]
      all_goals exact fun mi _ set => .inl (.inr (of_decide_eq_true set))
    simp only [setter]

theorem Similar.inheritedMethod (similar : Similar a b) (method : String) (fuel : Nat)
    (cls : String) : a.inheritedMethod method fuel cls = b.inheritedMethod method fuel cls := by
  induction fuel generalizing cls with
  | zero => rfl
  | succ fuel ih =>
    unfold Module.inheritedMethod
    rw [similar.layouts cls, similar.functions]
    simp only [ih]

theorem Similar.agree (similar : Similar a b) : Agree a b where
  resolve currentClass varClass obj tid := by
    unfold Module.resolveClassName
    simp only [similar.types, similar.layouts]
  access := similar.access
  target := similar.target
  call method fuel cls := by
    unfold Module.findMethod
    rw [similar.functions, similar.inheritedMethod]
  layout := similar.layouts
  destructor cls := by rw [destructor, destructor, similar.functions]

/-! ## Steps keep what bodies see -/

theorem lookup_updateTable (cls cls' : String) {change : MethodTable → MethodTable}
    (keepsEmpty : change [] = []) (tables : List (String × MethodTable)) :
    ((updateTable cls change tables).lookup cls').getD [] =
      if cls' = cls then change ((tables.lookup cls).getD [])
      else (tables.lookup cls').getD [] := by
  induction tables with
  | nil => by_cases same : cls' = cls <;> simp [updateTable, same, keepsEmpty]
  | cons entry rest ih =>
    obtain ⟨name, table⟩ := entry
    by_cases isIt : cls = name
    · subst isIt
      by_cases same : cls' = cls
      · simp [updateTable, same]
      · have differ : (cls' == cls) = false := by simpa using same
        simp [updateTable, List.lookup_cons, differ, same]
    · have differ : (cls == name) = false := by simpa using isIt
      rw [updateTable, if_neg isIt, List.lookup_cons, List.lookup_cons, List.lookup_cons, differ]
      by_cases here : cls' = name
      · have other : cls' ≠ cls := fun same => isIt (same.symm.trans here)
        simp [here, Ne.symm isIt]
      · have differ' : (cls' == name) = false := by simpa using here
        rw [differ']
        exact ih

theorem seen_linkMethod (layout : ClassLayout) (f : FunctionDecl) (fn : Declared) :
    ∀ {table table' : MethodTable}, seen layout table = seen layout table' →
      seen layout (linkMethod f fn table) = seen layout (linkMethod f fn table')
  | [], [], _ => rfl
  | (mi, old) :: rest, (mi', old') :: rest', same => by
    simp only [seen, List.map_cons, List.cons.injEq, Prod.mk.injEq] at same
    obtain ⟨⟨rfl, sameOld⟩, sameRest⟩ := same
    unfold linkMethod
    by_cases isIt : mi.name = f.name ∧ mi.modifier = f.modifier.getD ""
    · rw [if_pos isIt, if_pos isIt]
      simp only [seen, List.map_cons, sameRest]
    · rw [if_neg isIt, if_neg isIt]
      have further : seen layout (linkMethod f fn rest) = seen layout (linkMethod f fn rest') :=
        seen_linkMethod layout f fn sameRest
      simp only [seen, List.map_cons, List.cons.injEq, Prod.mk.injEq, true_and]
      exact ⟨sameOld, further⟩

theorem Similar.declareMember (similar : Similar a b) (cls : String) (f : FunctionDecl) :
    Similar (a.declareMember cls f) (b.declareMember cls f) := by
  unfold LinkedModule.declareMember
  rw [← similar.functions]
  by_cases trivial : isTrivialDtor f = true
  · rw [if_pos trivial, if_pos trivial]
    exact similar
  rw [if_neg trivial, if_neg trivial]
  by_cases taken : (a.functions.lookup (mangleClassMember cls f)).isSome = true
  · rw [if_pos taken, if_pos taken]
    exact similar
  rw [if_neg taken, if_neg taken]
  constructor
  · exact similar.types
  · exact similar.enumTypes
  · exact similar.layouts
  · rfl
  · exact similar.stdlibImports
  · exact similar.userModuleImports
  · intro cls' layout found
    have before := similar.tables cls' layout found
    by_cases unlinked : (f.isStatic || f.isCtor || f.isDtor) = true
    · simp only [unlinked, if_true]
      exact before
    · simp only [unlinked, Bool.false_eq_true, if_false]
      unfold table
      rw [lookup_updateTable cls cls' rfl, lookup_updateTable cls cls' rfl]
      by_cases same : cls' = cls
      · subst same
        rw [if_pos rfl, if_pos rfl]
        exact seen_linkMethod layout f _ before
      · rw [if_neg same, if_neg same]
        exact before

theorem Similar.declareMembers (cls : String) (ms : List ClassMember) {a b : LinkedModule}
    (similar : Similar a b) : Similar (a.declareMembers cls ms) (b.declareMembers cls ms) := by
  induction ms generalizing a b with
  | nil => exact similar
  | cons member ms ih =>
    cases member with
    | field f => exact ih similar
    | func f => exact ih (similar.declareMember cls f)

theorem Similar.declareSymbols (similar : Similar a b) (change : Symbols → Symbols) :
    Similar { a with functions := change a.functions } { b with functions := change b.functions } :=
  { similar with functions := congrArg change similar.functions }

mutual

theorem Similar.declareDecl (namePrefix : String) : ∀ (d : Decl) {a b : LinkedModule},
    Similar a b → Similar (a.declareDecl namePrefix d) (b.declareDecl namePrefix d)
  | .cls c, _, _, similar => similar.declareMembers c.name c.members
  | .namespaceDecl name decls _, _, _, similar => Similar.declareAll name decls similar
  | .func f, _, _, similar =>
    similar.declareSymbols fun s => Codegen.declareDecl s namePrefix (.func f)
  | .externDecl e, _, _, similar =>
    similar.declareSymbols fun s => Codegen.declareDecl s namePrefix (.externDecl e)
  | .iface _, _, _, similar | .enum _, _, _, similar | .importDecl _, _, _, similar
  | .packageDecl _, _, _, similar => similar

theorem Similar.declareAll (namePrefix : String) : ∀ (ds : List Decl) {a b : LinkedModule},
    Similar a b → Similar (a.declareAll namePrefix ds) (b.declareAll namePrefix ds)
  | [], _, _, similar => similar
  | d :: ds, _, _, similar =>
    Similar.declareAll namePrefix ds (Similar.declareDecl namePrefix d similar)

end

end LinkedModule

/-- The same types, and the same layouts under each name. -/
structure EqualLayouts (ls ls' : Layouts) : Prop where
  types : ls.types = ls'.types
  enumTypes : ls.enumTypes = ls'.enumTypes
  layouts : ∀ cls, ls.layouts.lookup cls = ls'.layouts.lookup cls

theorem inheritLayout_congr {layouts layouts' : List (String × ClassLayout)}
    (same : ∀ cls, layouts.lookup cls = layouts'.lookup cls) (bases : List String) :
    inheritLayout layouts bases = inheritLayout layouts' bases := by
  induction bases with
  | nil => rfl
  | cons base bases ih => rw [inheritLayout, inheritLayout, same, ih]

theorem EqualLayouts.buildClassLayout {ls ls' : Layouts} (same : EqualLayouts ls ls')
    (c : ClassDecl) : EqualLayouts (buildClassLayout ls c) (buildClassLayout ls' c) := by
  unfold Codegen.buildClassLayout
  rw [inheritLayout_congr same.layouts, same.types]
  constructor
  · rfl
  · exact same.enumTypes
  · intro cls
    simp only [List.lookup_cons, same.layouts]

mutual

theorem EqualLayouts.buildLayout : ∀ (d : Decl) {ls ls' : Layouts}, EqualLayouts ls ls' →
    EqualLayouts (buildLayout ls d) (buildLayout ls' d)
  | .cls c, _, _, same => same.buildClassLayout c
  | .enum e, _, _, same => by
    simp only [Codegen.buildLayout, buildEnumType, same.types, same.enumTypes]
    exact ⟨rfl, rfl, same.layouts⟩
  | .namespaceDecl _ decls _, _, _, same => EqualLayouts.buildLayouts decls same
  | .func _, _, _, same | .externDecl _, _, _, same | .iface _, _, _, same
  | .importDecl _, _, _, same | .packageDecl _, _, _, same => same

theorem EqualLayouts.buildLayouts : ∀ (ds : List Decl) {ls ls' : Layouts}, EqualLayouts ls ls' →
    EqualLayouts (buildLayouts ls ds) (buildLayouts ls' ds)
  | [], _, _, same => same
  | d :: ds, _, _, same => EqualLayouts.buildLayouts ds (EqualLayouts.buildLayout d same)

end

mutual

theorem lookup_buildLayout_of_notMem {cls : String} : ∀ (d : Decl) (ls : Layouts),
    cls ∉ (classesOfDecl d).map (·.name) →
      (buildLayout ls d).layouts.lookup cls = ls.layouts.lookup cls
  | .cls c, ls, other => by
    have differ : (cls == c.name) = false := by simpa [classesOfDecl] using other
    simp only [buildLayout, buildClassLayout, List.lookup_cons, differ]
  | .namespaceDecl _ decls _, ls, other => lookup_buildLayouts_of_notMem decls ls other
  | .enum _, _, _ | .func _, _, _ | .externDecl _, _, _ | .iface _, _, _ | .importDecl _, _, _
  | .packageDecl _, _, _ => rfl

theorem lookup_buildLayouts_of_notMem {cls : String} : ∀ (ds : List Decl) (ls : Layouts),
    cls ∉ (classesOf ds).map (·.name) →
      (buildLayouts ls ds).layouts.lookup cls = ls.layouts.lookup cls
  | [], _, _ => rfl
  | d :: ds, ls, other => by
    rw [classesOf, List.map_append, List.mem_append, not_or] at other
    rw [buildLayouts, lookup_buildLayouts_of_notMem ds _ other.2,
      lookup_buildLayout_of_notMem d ls other.1]

end

theorem lookup_buildTables (tables tables' : List (String × MethodTable)) (decls : List Decl)
    (cls : String) :
    (buildTables tables decls).lookup cls = (buildTables tables' decls).lookup cls ∨
      cls ∉ (classesOf decls).map (·.name) ∧
        (buildTables tables decls).lookup cls = tables.lookup cls ∧
        (buildTables tables' decls).lookup cls = tables'.lookup cls := by
  unfold buildTables
  rw [List.lookup_append, List.lookup_append]
  cases found : ((classesOf decls).map fun c => (c.name, freshTable c)).reverse.lookup cls with
  | some table => exact .inl rfl
  | none =>
    refine .inr ⟨?_, rfl, rfl⟩
    rintro isClass
    obtain ⟨c, member, rfl⟩ := List.mem_map.1 isClass
    rw [List.lookup_eq_none_iff] at found
    have clash := found (c.name, freshTable c)
      (List.mem_reverse.2 (List.mem_map_of_mem member))
    simp at clash

namespace LinkedModule

variable {a b : LinkedModule}

theorem Similar.enter (similar : Similar a b) (name : String) (decls : List Decl) :
    Similar (a.enter name decls) (b.enter name decls) := by
  have same : EqualLayouts (buildLayouts a.ls decls) (buildLayouts b.ls decls) :=
    EqualLayouts.buildLayouts decls ⟨similar.types, similar.enumTypes, similar.layouts⟩
  apply Similar.declareAll
  constructor
  · exact same.types
  · exact same.enumTypes
  · exact same.layouts
  · exact similar.functions
  · exact similar.stdlibImports
  · exact similar.userModuleImports
  · intro cls layout found
    unfold table
    rcases lookup_buildTables a.tables b.tables decls cls with rebuilt | ⟨other, old, old'⟩
    · rw [rebuilt]
    · rw [lookup_buildLayouts_of_notMem decls _ other] at found
      have before := similar.tables cls layout found
      rw [old, old']
      exact before

theorem Similar.after (ops : List ModuleStep) {a b : LinkedModule} (similar : Similar a b) :
    Similar (a.after ops) (b.after ops) := by
  induction ops generalizing a b with
  | nil => exact similar
  | cons op ops ih =>
    apply ih
    cases op with
    | runtime symbol params =>
      exact similar.declareSymbols fun s => s.declare symbol (.runtime symbol params)
    | enter name decls => exact similar.enter name decls

end LinkedModule

/-! ## The module that generation comes to a class with -/

/-- Tables list the methods of their layouts. -/
def Paired (ls : Layouts) (tables : List (String × MethodTable)) : Prop :=
  ∀ cls layout, ls.layouts.lookup cls = some layout →
    ((tables.lookup cls).getD []).map Prod.fst = layout.methods

theorem Paired.buildClassLayout {ls : Layouts} {tables : List (String × MethodTable)}
    (paired : Paired ls tables) (c : ClassDecl) :
    Paired (buildClassLayout ls c) ((c.name, freshTable c) :: tables) := by
  intro cls layout found
  simp only [Codegen.buildClassLayout, List.lookup_cons] at found
  rw [List.lookup_cons]
  split at found
  · cases found
    show ((ownMethods 0 c.members).map fun mi => (mi, none)).map Prod.fst = _
    rw [List.map_map]
    exact List.map_id _
  · exact paired cls layout found

theorem buildTables_append (tables : List (String × MethodTable)) (d : Decl) (ds : List Decl) :
    buildTables tables (d :: ds) =
      buildTables (((classesOfDecl d).map fun c => (c.name, freshTable c)).reverse ++ tables)
        ds := by
  simp only [buildTables, classesOf, List.map_append, List.reverse_append, List.append_assoc]

mutual

theorem Paired.buildLayout : ∀ (d : Decl) {ls : Layouts} {tables : List (String × MethodTable)},
    Paired ls tables → Paired (buildLayout ls d)
      (((classesOfDecl d).map fun c => (c.name, freshTable c)).reverse ++ tables)
  | .cls c, _, _, paired => paired.buildClassLayout c
  | .namespaceDecl _ decls _, _, _, paired => Paired.buildLayouts decls paired
  | .enum _, _, _, paired | .func _, _, _, paired | .externDecl _, _, _, paired
  | .iface _, _, _, paired | .importDecl _, _, _, paired | .packageDecl _, _, _, paired => paired

theorem Paired.buildLayouts : ∀ (ds : List Decl) {ls : Layouts}
    {tables : List (String × MethodTable)}, Paired ls tables →
      Paired (buildLayouts ls ds) (buildTables tables ds)
  | [], _, _, paired => paired
  | d :: ds, _, tables, paired => by
    rw [buildTables_append]
    exact Paired.buildLayouts ds (Paired.buildLayout d paired)

end

theorem fst_linkMethod (f : FunctionDecl) (fn : Declared) (table : MethodTable) :
    (linkMethod f fn table).map Prod.fst = table.map Prod.fst := by
  induction table with
  | nil => rfl
  | cons entry rest ih =>
    obtain ⟨mi, old⟩ := entry
    unfold linkMethod
    split
    · rfl
    · exact congrArg (mi :: ·) ih

namespace LinkedModule

theorem paired_declareMembers (cls : String) (ms : List ClassMember) {m : LinkedModule}
    (paired : Paired m.ls m.tables) :
    Paired (m.declareMembers cls ms).ls (m.declareMembers cls ms).tables := by
  induction ms generalizing m with
  | nil => exact paired
  | cons member ms ih =>
    cases member with
    | field f => exact ih paired
    | func f =>
      apply ih
      unfold declareMember
      split
      · exact paired
      split
      · exact paired
      intro cls' layout found
      have before := paired cls' layout found
      by_cases unlinked : (f.isStatic || f.isCtor || f.isDtor) = true
      · simp only [unlinked, if_true]
        exact before
      · simp only [unlinked, Bool.false_eq_true, if_false]
        rw [lookup_updateTable cls cls' rfl]
        by_cases same : cls' = cls
        · subst same
          rw [if_pos rfl, fst_linkMethod]
          exact before
        · rw [if_neg same]
          exact before

mutual

theorem paired_declareDecl (namePrefix : String) : ∀ (d : Decl) {m : LinkedModule},
    Paired m.ls m.tables →
      Paired (m.declareDecl namePrefix d).ls (m.declareDecl namePrefix d).tables
  | .cls c, _, paired => paired_declareMembers c.name c.members paired
  | .namespaceDecl name decls _, _, paired => paired_declareAll name decls paired
  | .func _, _, paired | .externDecl _, _, paired | .iface _, _, paired | .enum _, _, paired
  | .importDecl _, _, paired | .packageDecl _, _, paired => paired

theorem paired_declareAll (namePrefix : String) : ∀ (ds : List Decl) {m : LinkedModule},
    Paired m.ls m.tables →
      Paired (m.declareAll namePrefix ds).ls (m.declareAll namePrefix ds).tables
  | [], _, paired => paired
  | d :: ds, _, paired => paired_declareAll namePrefix ds (paired_declareDecl namePrefix d paired)

end

theorem paired_enter {m : LinkedModule} (paired : Paired m.ls m.tables) (name : String)
    (decls : List Decl) : Paired (m.enter name decls).ls (m.enter name decls).tables :=
  paired_declareAll name decls (paired.buildLayouts decls)

theorem paired_after (ops : List ModuleStep) {m : LinkedModule} (paired : Paired m.ls m.tables) :
    Paired (m.after ops).ls (m.after ops).tables := by
  induction ops generalizing m with
  | nil => exact paired
  | cons op ops ih =>
    apply ih
    cases op with
    | runtime symbol params => exact paired
    | enter name decls => exact paired_enter paired name decls

end LinkedModule

theorem paired_linkedModuleOf (prog : Program) :
    Paired (linkedModuleOf prog).ls (linkedModuleOf prog).tables := by
  apply LinkedModule.paired_enter
  intro cls layout found
  rw [processImports_ls] at found
  cases found

theorem namespacesOf_append (left right : List Decl) :
    namespacesOf (left ++ right) = namespacesOf left ++ namespacesOf right := by
  induction left with
  | nil => rfl
  | cons d ds ih => rw [List.cons_append, namespacesOf, namespacesOf, ih, List.append_assoc]

theorem classesOf_append (left right : List Decl) :
    classesOf (left ++ right) = classesOf left ++ classesOf right := by
  induction left with
  | nil => rfl
  | cons d ds ih => rw [List.cons_append, classesOf, classesOf, ih, List.append_assoc]

theorem generating_after {prog : Program} (ds : List Decl) (ops : List ModuleStep)
    (generates : Generates ds ops) :
    (∀ p ∈ namespacesOf ds, p ∈ namespacesOf prog.decls) → ∀ {m : LinkedModule},
      Generating prog m.toModule → Generating prog (m.after ops).toModule := by
  induction generates with
  | nil => exact fun _ _ before => before
  | runtime symbol params _ ih => exact fun known _ before => ih known (.body before symbol params)
  | plain noNamespace _ ih =>
    intro known _ before
    apply ih _ before
    rw [namespacesOf, noNamespace] at known
    exact known
  | @enter name decls stmts ds ops _ ih =>
    intro known m before
    rw [namespacesOf, namespacesOfDecl] at known
    have entered : Generating prog (m.enter name decls).toModule := by
      rw [LinkedModule.toModule_enter]
      exact .enter before (known (name, decls) (by simp))
    apply ih _ entered
    intro p member
    apply known p
    rw [namespacesOf_append] at member
    simpa using Or.inr (List.mem_append.1 member)

mutual

theorem mem_typeRequests_of_class {c : ClassDecl} : ∀ d : Decl, c ∈ classesOfDecl d →
    (c.name, TypeKind.cls) ∈ Sema.typeRequests d
  | .cls c', isClass => by
    rw [classesOfDecl, List.mem_singleton] at isClass
    rw [isClass, Sema.typeRequests]
    exact List.mem_singleton_self _
  | .namespaceDecl _ decls _, isClass => mem_typeRequestsAll_of_class decls isClass
  | .func _, isClass | .externDecl _, isClass | .iface _, isClass | .enum _, isClass
  | .importDecl _, isClass | .packageDecl _, isClass => by cases isClass

theorem mem_typeRequestsAll_of_class {c : ClassDecl} : ∀ ds : List Decl, c ∈ classesOf ds →
    (c.name, TypeKind.cls) ∈ Sema.typeRequestsAll ds
  | [], isClass => by cases isClass
  | d :: ds, isClass => by
    rw [Sema.typeRequestsAll, List.mem_append]
    exact (List.mem_append.1 isClass).imp (mem_typeRequests_of_class d)
      (mem_typeRequestsAll_of_class ds)

end

theorem name_known {prog : Program} {m : Module} (generating : Generating prog m) {c : ClassDecl}
    (isClass : c ∈ classesOf prog.decls) : c.name ∈ Logic.keys m.ls.types.entries := by
  induction generating with
  | passes =>
    show c.name ∈ Logic.keys (buildLayouts _ prog.decls).types.entries
    rw [entries_buildLayouts, Logic.mem_keys_internAll]
    right
    have request := mem_typeRequestsAll_of_class prog.decls isClass
    exact List.mem_map.2 ⟨_, List.mem_filter.2 ⟨request, rfl⟩, rfl⟩
  | @enter m name decls _ _ ih =>
    show c.name ∈ Logic.keys (buildLayouts m.ls decls).types.entries
    rw [entries_buildLayouts, Logic.mem_keys_internAll]
    exact .inl ih
  | body _ symbol params ih => exact ih

theorem intern_of_known {r : TypeRegistry} {name : String} {kind : TypeKind}
    (known : name ∈ Logic.keys r.entries) : (r.intern name kind).2 = r := by
  rw [TypeRegistry.intern]
  cases found : r.byName name with
  | some i => rfl
  | none =>
    rw [TypeRegistry.byName_eq_findIdx?, List.findIdx?_eq_none_iff] at found
    simpa using found name known

theorem declareMembers_of_taken {cls : String} {ms : List ClassMember} {m : LinkedModule}
    (taken : ∀ f, .func f ∈ ms → isTrivialDtor f = false →
      m.functions.lookup (mangleClassMember cls f) ≠ none) : m.declareMembers cls ms = m := by
  induction ms with
  | nil => rfl
  | cons member ms ih =>
    have rest := ih fun f isMember => taken f (List.mem_cons_of_mem _ isMember)
    cases member with
    | field f => exact rest
    | func f =>
      have same : m.declareMember cls f = m := by
        unfold LinkedModule.declareMember
        cases trivial : isTrivialDtor f with
        | true => rfl
        | false =>
          have isTaken := taken f List.mem_cons_self trivial
          rw [if_neg Bool.false_ne_true, if_pos (Option.isSome_iff_ne_none.2 isTaken)]
      rw [LinkedModule.declareMembers, same, rest]

section Class

variable {prog : Program} {m : LinkedModule} {c : ClassDecl}

theorem enter_class (generating : Generating prog m.toModule)
    (isClass : c ∈ classesOf prog.decls) (ns : String) : m.enter ns [.cls c] =
      { m with
        ls := { m.ls with layouts := (buildClassLayout m.ls c).layouts }
        tables := (c.name, freshTable c) :: m.tables } := by
  have types : (m.ls.types.intern c.name .cls).2 = m.ls.types :=
    intern_of_known (name_known generating isClass)
  have layouts : buildClassLayout m.ls c =
      { m.ls with layouts := (buildClassLayout m.ls c).layouts } := by
    unfold buildClassLayout
    rw [types]
  let laidOut : LinkedModule :=
    { m with ls := buildClassLayout m.ls c, tables := (c.name, freshTable c) :: m.tables }
  have declared : laidOut.declareMembers c.name c.members = laidOut :=
    declareMembers_of_taken (generating.complete c isClass)
  calc m.enter ns [.cls c]
      = laidOut.declareMembers c.name c.members := rfl
    _ = laidOut := declared
    _ = _ := by rw [← layouts]

theorem find_freshTable (c : ClassDecl) (member : String) (only : MethodInfo → Bool) :
    (freshTable c).find member only = none := by
  unfold MethodTable.find freshTable
  rw [List.findSome?_map, List.findSome?_eq_none_iff]
  intro mi _
  exact ite_self _

theorem find_ne_none {table : MethodTable} {mi : MethodInfo} {fn : Declared}
    (member : (mi, some fn) ∈ table) (only : MethodInfo → Bool) (allowed : only mi = true) :
    table.find mi.name only ≠ none := by
  unfold MethodTable.find
  rw [ne_eq, List.findSome?_eq_none_iff]
  intro none
  simpa [allowed] using none _ member

theorem seen_of_unlinked {layout : ClassLayout} {table : MethodTable}
    (unlinked : ∀ entry ∈ table, shows layout entry = false) :
    seen layout table = (table.map Prod.fst).map fun mi => (mi, none) := by
  rw [List.map_map]
  apply List.map_congr_left
  intro entry member
  rw [unlinked entry member]
  rfl

theorem shows_freshTable (layout : ClassLayout) (c : ClassDecl) :
    ∀ entry ∈ freshTable c, shows layout entry = false := by
  intro entry member
  obtain ⟨mi, -, rfl⟩ := List.mem_map.1 member
  rfl

theorem similar_enter_class (generating : Generating prog m.toModule)
    (paired : Paired m.ls m.tables) (isClass : c ∈ classesOf prog.decls) (ns : String)
    (settled : Settled m c) : LinkedModule.Similar m (m.enter ns [.cls c]) := by
  rw [enter_class generating isClass ns]
  have layouts (cls : String) : m.ls.layouts.lookup cls =
      (buildClassLayout m.ls c).layouts.lookup cls := by
    by_cases same : cls = c.name
    · rw [same, settled.laidOut]
    · have differ : (cls == c.name) = false := by simpa using same
      simp only [buildClassLayout, List.lookup_cons, differ]
  constructor
  · rfl
  · rfl
  · exact layouts
  · rfl
  · rfl
  · rfl
  · intro cls layout found
    by_cases same : cls = c.name
    · subst same
      have table' : LinkedModule.table { m with
          ls := { m.ls with layouts := (buildClassLayout m.ls c).layouts }
          tables := (c.name, freshTable c) :: m.tables } c.name = freshTable c := by
        simp [LinkedModule.table]
      have methods : layout.methods = ownMethods 0 c.members := by
        have rebuilt := (layouts c.name).symm.trans found
        rw [buildClassLayout, List.lookup_cons, beq_self_eq_true] at rebuilt
        cases rebuilt
        rfl
      have fst : (m.table c.name).map Prod.fst = layout.methods := paired c.name layout found
      have fst' : (freshTable c).map Prod.fst = ownMethods 0 c.members := by
        unfold freshTable
        rw [List.map_map]
        exact List.map_id _
      rw [table', seen_of_unlinked (settled.unlinked layout found),
        seen_of_unlinked (shows_freshTable layout c), fst, fst', methods]
    · have differ : (cls == c.name) = false := by simpa using same
      simp [LinkedModule.table, List.lookup_cons, differ]

theorem settled_of_agree (generating : Generating prog m.toModule)
    (isClass : c ∈ classesOf prog.decls) {ns : String}
    (agree : Agree m (m.enter ns [.cls c])) : Settled m c := by
  rw [enter_class generating isClass ns] at agree
  have rebuilt := agree.layout c.name
  constructor
  · rintro layout found ⟨mi, fn⟩ member
    have sameLayout := rebuilt.symm.trans found
    have access := agree.access c.name mi.name
    have target := agree.target c.name mi.name
    have table' : LinkedModule.table { m with
        ls := { m.ls with layouts := (buildClassLayout m.ls c).layouts }
        tables := (c.name, freshTable c) :: m.tables } c.name = freshTable c := by
      simp [LinkedModule.table]
    simp only [LinkedModule.access, found, sameLayout, table', find_freshTable] at access
    simp only [LinkedModule.target, found, sameLayout, table', find_freshTable] at target
    by_contra sees
    rw [Bool.not_eq_false, shows, Bool.and_eq_true, Bool.or_eq_true, Bool.or_eq_true] at sees
    obtain ⟨linked, visible⟩ := sees
    obtain ⟨d, rfl⟩ := Option.isSome_iff_exists.1 linked
    rcases visible with (get | set) | noField
    · have isFound := find_ne_none member (fun mi => mi.modifier = "get") get
      obtain ⟨d', found'⟩ := Option.ne_none_iff_exists'.1 isFound
      rw [found'] at access
      cases noField : layout.field mi.name <;> simp [noField] at access
    · have isFound := find_ne_none member (fun mi => mi.modifier = "set") set
      obtain ⟨d', found'⟩ := Option.ne_none_iff_exists'.1 isFound
      rw [found'] at target
      cases hidden : layout.methods.any fun mi' => mi'.name = mi.name && mi'.modifier ≠ "" <;>
        cases noField : layout.field mi.name <;>
          simp only [hidden, noField, Bool.false_eq_true, if_true, if_false] at target <;>
            cases target
    · have isFound := find_ne_none member (fun _ => true) rfl
      obtain ⟨d', found'⟩ := Option.ne_none_iff_exists'.1 isFound
      rw [Option.isNone_iff_eq_none] at noField
      rw [found', noField] at access
      cases getter : (m.table c.name).find mi.name (fun mi => mi.modifier = "get") <;>
        simp [getter] at access
  · exact rebuilt.symm

end Class

theorem Generates.append {ds ds' : List Decl} {ops ops' : List ModuleStep}
    (first : Generates ds ops) (second : Generates ds' ops') :
    Generates (ds ++ ds') (ops ++ ops') := by
  induction first with
  | nil => exact second
  | runtime symbol params _ ih => exact .runtime symbol params ih
  | plain noNamespace _ ih => exact .plain noNamespace ih
  | enter _ ih =>
    rw [List.append_assoc] at ih
    exact .enter ih

/-- What generating namespaces alone does, in the order in which they come. -/
def entersOf (namespaces : List (String × List Decl)) : List ModuleStep :=
  namespaces.map fun ns => .enter ns.1 ns.2

mutual

theorem generates_decl : ∀ d : Decl, Generates [d] (entersOf (namespacesOfDecl d))
  | .namespaceDecl name decls _ => by
    have inside := generates_entersOf decls
    exact .enter (by rwa [List.append_nil])
  | .cls _ | .func _ | .externDecl _ | .iface _ | .enum _ | .importDecl _ | .packageDecl _ =>
    .plain rfl .nil

theorem generates_entersOf : ∀ ds : List Decl, Generates ds (entersOf (namespacesOf ds))
  | [] => .nil
  | d :: ds => by
    have both := (generates_decl d).append (generates_entersOf ds)
    rwa [entersOf, entersOf, ← List.map_append] at both

end

/-- A class behaves in a namespace as at top level exactly if it is settled when generation
comes to it: then its layout shows no function, and it would be built in the same way once
more. -/
theorem behavesAlike_iff (before : List Decl) (ns : String) (c : ClassDecl) (rest : List Decl)
    (stmts : List Stmt) : BehavesAlike before ns c rest stmts ↔
      ∀ earlier, Generates before earlier →
        Settled ((linkedModuleOf (classAtTop before c rest stmts)).after earlier) c := by
  have isClass : c ∈ classesOf (classAtTop before c rest stmts).decls := by
    simp [classAtTop, classesOf_append, classesOf, classesOfDecl]
  have generating (earlier : List ModuleStep) (generates : Generates before earlier) :
      Generating (classAtTop before c rest stmts)
        ((linkedModuleOf (classAtTop before c rest stmts)).after earlier).toModule := by
    apply generating_after before earlier generates
    · intro p member
      rw [classAtTop, namespacesOf_append]
      exact List.mem_append_left _ member
    · rw [toModule_linkedModuleOf]
      exact .passes
  have entered (earlier ops : List ModuleStep) :
      (linkedModuleOf (classInside before ns c rest stmts)).after
          (earlier ++ .enter ns [.cls c] :: ops) =
        (((linkedModuleOf (classAtTop before c rest stmts)).after earlier).enter ns
          [.cls c]).after ops := by
    rw [linkedModuleOf_moved, LinkedModule.after, List.foldl_append]
    rfl
  constructor
  · rintro ⟨-, agree⟩ earlier generates
    have atClass := agree earlier _ generates (generates_entersOf rest) [] List.nil_prefix
    rw [List.append_nil, entered] at atClass
    exact settled_of_agree (generating earlier generates) isClass atClass
  · intro settled
    constructor
    · intro ops
      rw [linkedModuleOf_moved]
    · intro earlier later generates _ ops _
      have paired := LinkedModule.paired_after earlier
        (paired_linkedModuleOf (classAtTop before c rest stmts))
      have similar := similar_enter_class (generating earlier generates) paired isClass ns
        (settled earlier generates)
      rw [entered, LinkedModule.after, List.foldl_append]
      exact (similar.after ops).agree

/-- `class C { int x  int get x() }`: reading `x` calls the getter. -/
def getting : ClassDecl where
  name := "C"
  members :=
    [.field { type := { name := "int" }, name := "x" },
      .func { loc := ⟨1, 1⟩, returnType := { name := "int" }, name := "x", params := [],
              modifier := some "get", body := some [] }]

/-- In a namespace, the getter of a class is passed over and the field is read. -/
theorem not_behavesAlike : ¬∀ before ns c rest stmts, BehavesAlike before ns c rest stmts := by
  intro always
  have alike := (always [] "N" getting [] []).2 [] [] .nil .nil [] List.prefix_rfl
  have same := alike.access "C" "x"
  cases same

end Dux.Codegen
