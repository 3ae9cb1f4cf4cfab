import Dux.Codegen.Layout

/-!
# The functions of a module

`Codegen::run` (`src/codegen/codegen.cpp`) lays out the classes of a program and
declares its functions before it generates any body.  Later calls find their
targets by name, so what matters about a symbol is which declaration came first.
-/

namespace Dux.Codegen

/-- What a function of the module has been declared from. -/
inductive Declared
  | func (f : FunctionDecl)
  | member (cls : String) (f : FunctionDecl)
  | external (e : ExternDecl)
  | runtime (symbol : String) (params : Nat)

def Declared.argSize : Declared → Nat
  | .func f => f.params.length
  | .member _ f => if f.isStatic then f.params.length else f.params.length + 1
  | .external e => e.params.length
  | .runtime _ params => params

/-- The functions of a module by symbol; a later declaration never replaces an
earlier one. -/
abbrev Symbols := List (String × Declared)

/-- Declare a function unless its symbol is taken. -/
def Symbols.declare (symbols : Symbols) (symbol : String) (d : Declared) : Symbols :=
  match symbols.lookup symbol with
  | some _ => symbols
  | none => (symbol, d) :: symbols

def mangle (cls method : String) : String := if cls = "" then method else cls ++ "__" ++ method

def mangleClassMember (cls : String) (f : FunctionDecl) : String :=
  if f.isDtor then cls ++ "___dtor"
  else if f.modifier = some "get" then cls ++ "__" ++ f.name ++ "___get"
  else if f.modifier = some "set" then cls ++ "__" ++ f.name ++ "___set"
  else cls ++ "__" ++ f.name

/-- A destructor that no function is made for. -/
def isTrivialDtor (f : FunctionDecl) : Bool :=
  f.isDtor && match f.body with
    | some [] => true
    | _ => false

def declareClassMethods (symbols : Symbols) (cls : String) : List ClassMember → Symbols
  | [] => symbols
  | .field _ :: ms => declareClassMethods symbols cls ms
  | .func f :: ms =>
      if isTrivialDtor f then declareClassMethods symbols cls ms
      else declareClassMethods (symbols.declare (mangleClassMember cls f) (.member cls f)) cls ms

mutual

/-- `declare_functions`, one declaration. -/
def declareDecl (symbols : Symbols) (namePrefix : String) : Decl → Symbols
  | .func f =>
      if f.isCtor || f.isDtor then symbols
      else symbols.declare (mangle namePrefix f.name) (.func f)
  | .cls c => declareClassMethods symbols c.name c.members
  | .namespaceDecl name decls _ => declareFunctions symbols name decls
  | .externDecl e => symbols.declare e.name (.external e)
  | .iface _ => symbols
  | .enum _ => symbols
  | .importDecl _ => symbols
  | .packageDecl _ => symbols

def declareFunctions (symbols : Symbols) (namePrefix : String) : List Decl → Symbols
  | [] => symbols
  | d :: ds => declareFunctions (declareDecl symbols namePrefix d) namePrefix ds

end

/-! ## Imports -/

/-- `stdlib_table`: the runtime symbol and the number of parameters of every
function. -/
def stdlibTable : List (String × List (String × String × Nat)) :=
  [ ("math",
      [ ("sqrt", "duxrt_math_sqrt", 1), ("pow", "duxrt_math_pow", 2),
        ("floor", "duxrt_math_floor", 1), ("ceil", "duxrt_math_ceil", 1),
        ("abs", "duxrt_math_abs_d", 1), ("log", "duxrt_math_log", 1),
        ("log2", "duxrt_math_log2", 1), ("sin", "duxrt_math_sin", 1),
        ("cos", "duxrt_math_cos", 1), ("min", "duxrt_math_min_d", 2),
        ("max", "duxrt_math_max_d", 2), ("abs_i", "duxrt_math_abs_i", 1),
        ("min_i", "duxrt_math_min_i", 2), ("max_i", "duxrt_math_max_i", 2) ]),
    ("str",
      [ ("concat", "duxrt_str_concat", 2), ("from_int", "duxrt_str_from_int", 1),
        ("from_double", "duxrt_str_from_double", 1), ("length", "duxrt_str_length", 1),
        ("slice", "duxrt_str_slice", 3), ("index", "duxrt_str_index", 2),
        ("eq", "duxrt_str_eq", 2), ("ord", "duxrt_str_ord", 1), ("chr", "duxrt_str_chr", 1),
        ("cmp", "duxrt_str_cmp", 2), ("contains", "duxrt_str_contains", 2),
        ("find", "duxrt_str_find", 2), ("rfind", "duxrt_str_rfind", 2),
        ("starts_with", "duxrt_str_starts_with", 2), ("ends_with", "duxrt_str_ends_with", 2),
        ("replace", "duxrt_str_replace", 3), ("replace_all", "duxrt_str_replace_all", 3),
        ("to_upper", "duxrt_str_to_upper", 1), ("to_lower", "duxrt_str_to_lower", 1),
        ("trim", "duxrt_str_trim", 1), ("trim_start", "duxrt_str_trim_start", 1),
        ("trim_end", "duxrt_str_trim_end", 1), ("repeat", "duxrt_str_repeat", 2),
        ("split", "duxrt_str_split", 2) ]),
    ("io",
      [ ("println", "duxrt_println_str", 1), ("print", "duxrt_print_str", 1),
        ("readline", "duxrt_readline", 0) ]) ]

/-- The members of `Codegen` that calls are resolved with. -/
structure Module where
  ls : Layouts := {}
  functions : Symbols := []
  stdlibImports : List String := []
  userModuleImports : List String := []

namespace Module

def processImport (m : Module) (imp : ImportDecl) : Module :=
  if imp.path = "" then m
  else
    let mod := (imp.path.splitOn ".").getLastD imp.path
    match stdlibTable.lookup mod with
    | some fns =>
        { m with
          stdlibImports := mod :: m.stdlibImports
          functions :=
            fns.foldl (fun s fn => s.declare fn.2.1 (.runtime fn.2.1 fn.2.2)) m.functions }
    | none =>
        if imp.globalScope then m
        else
          let nsName := if imp.aliasName = "" then mod else imp.aliasName
          { m with userModuleImports := nsName :: m.userModuleImports }

/-- Pass 1: the imports among the declarations. -/
def processImports (m : Module) : List Decl → Module
  | [] => m
  | .importDecl imp :: ds => processImports (m.processImport imp) ds
  | _ :: ds => processImports m ds

/-- Passes 2 and 3, which `gen_namespace` makes again for its own declarations. -/
def declare (m : Module) (namePrefix : String) (decls : List Decl) : Module :=
  { m with
    ls := buildLayouts m.ls decls
    functions := declareFunctions m.functions namePrefix decls }

end Module

/-- The module before any body is generated. -/
def moduleOf (prog : Program) : Module :=
  (Module.processImports {} prog.decls).declare "" prog.decls

mutual

def classesOfDecl : Decl → List ClassDecl
  | .cls c => [c]
  | .namespaceDecl _ decls _ => classesOf decls
  | .func _ => []
  | .iface _ => []
  | .enum _ => []
  | .importDecl _ => []
  | .packageDecl _ => []
  | .externDecl _ => []

def classesOf : List Decl → List ClassDecl
  | [] => []
  | d :: ds => classesOfDecl d ++ classesOf ds

end

mutual

/-- The namespaces of a declaration, those in namespaces included. -/
def namespacesOfDecl : Decl → List (String × List Decl)
  | .namespaceDecl name decls _ => (name, decls) :: namespacesOf decls
  | .cls _ => []
  | .func _ => []
  | .iface _ => []
  | .enum _ => []
  | .importDecl _ => []
  | .packageDecl _ => []
  | .externDecl _ => []

def namespacesOf : List Decl → List (String × List Decl)
  | [] => []
  | d :: ds => namespacesOfDecl d ++ namespacesOf ds

end

/-- The modules that bodies are generated in: a namespace is laid out and
declared again before its bodies, and bodies declare runtime functions. -/
inductive Generating (prog : Program) : Module → Prop
  | passes : Generating prog (moduleOf prog)
  | enter {m : Module} {name : String} {decls : List Decl} (before : Generating prog m)
      (isNamespace : (name, decls) ∈ namespacesOf prog.decls) :
      Generating prog (m.declare name decls)
  | body {m : Module} (before : Generating prog m) (symbol : String) (params : Nat) :
      Generating prog
        { m with functions := m.functions.declare symbol (.runtime symbol params) }

/-! ## What the symbols stand for -/

@[simp]
theorem lookup_declare (symbols : Symbols) (symbol symbol' : String) (d : Declared) :
    (symbols.declare symbol d).lookup symbol' =
      if symbols.lookup symbol = none ∧ symbol' = symbol then some d
      else symbols.lookup symbol' := by
  unfold Symbols.declare
  cases taken : symbols.lookup symbol with
  | some d' => simp
  | none =>
      by_cases same : symbol' = symbol
      · subst same
        simp
      · have differ : (symbol' == symbol) = false := by simpa using same
        simp [List.lookup_cons, differ, same]

/-- Every symbol of a class member is the member's own. -/
def Symbols.Sound (symbols : Symbols) : Prop :=
  ∀ symbol cls f, symbols.lookup symbol = some (.member cls f) → symbol = mangleClassMember cls f

/-- A symbol once declared keeps its declaration. -/
def Symbols.Keeps (symbols symbols' : Symbols) : Prop :=
  ∀ symbol d, symbols.lookup symbol = some d → symbols'.lookup symbol = some d

theorem Symbols.Keeps.refl (symbols : Symbols) : symbols.Keeps symbols := fun _ _ => id

theorem Symbols.Keeps.trans {a b c : Symbols} (first : a.Keeps b) (second : b.Keeps c) :
    a.Keeps c :=
  fun symbol d found => second symbol d (first symbol d found)

theorem Symbols.keeps_declare (symbols : Symbols) (symbol : String) (d : Declared) :
    symbols.Keeps (symbols.declare symbol d) := by
  intro symbol' d' found
  rw [lookup_declare, if_neg]
  · exact found
  · rintro ⟨free, rfl⟩
    simp [free] at found

theorem Symbols.Sound.declare {symbols : Symbols} (sound : symbols.Sound) {symbol : String}
    {d : Declared} (own : ∀ cls f, d = .member cls f → symbol = mangleClassMember cls f) :
    (symbols.declare symbol d).Sound := by
  intro symbol' cls f found
  rw [lookup_declare] at found
  split at found
  · next isNew =>
      rw [isNew.2]
      exact own cls f (Option.some.inj found)
  · exact sound symbol' cls f found

theorem declareClassMethods_spec (cls : String) (ms : List ClassMember) :
    ∀ symbols : Symbols, symbols.Keeps (declareClassMethods symbols cls ms) ∧
      (symbols.Sound → (declareClassMethods symbols cls ms).Sound) := by
  induction ms with
  | nil => exact fun symbols => ⟨.refl symbols, id⟩
  | cons member ms ih =>
      intro symbols
      cases member with
      | field f => exact ih symbols
      | func f =>
          simp only [declareClassMethods]
          split
          · exact ih symbols
          · constructor
            · exact (symbols.keeps_declare _ _).trans (ih _).1
            · intro sound
              refine (ih _).2 (sound.declare ?_)
              rintro _ _ ⟨⟩
              rfl

theorem declareClassMethods_complete {cls : String} {f : FunctionDecl}
    (real : isTrivialDtor f = false) {ms : List ClassMember} (isMember : .func f ∈ ms) :
    ∀ symbols : Symbols,
      (declareClassMethods symbols cls ms).lookup (mangleClassMember cls f) ≠ none := by
  induction ms with
  | nil => simp at isMember
  | cons member ms ih =>
      intro symbols
      rcases List.mem_cons.mp isMember with rfl | inRest
      · simp only [declareClassMethods, real, Bool.false_eq_true, if_false]
        have taken : (symbols.declare (mangleClassMember cls f) (.member cls f)).lookup
            (mangleClassMember cls f) ≠ none := by
          rw [lookup_declare]
          split
          · simp
          · next notNew => simpa using notNew
        rcases Option.ne_none_iff_exists'.mp taken with ⟨d, found⟩
        simp [(declareClassMethods_spec cls ms _).1 _ _ found]
      · cases member with
        | field f => exact ih inRest symbols
        | func f =>
            simp only [declareClassMethods]
            split
            · exact ih inRest symbols
            · exact ih inRest _

mutual

theorem declareDecl_spec (symbols : Symbols) (namePrefix : String) : ∀ d : Decl,
    symbols.Keeps (declareDecl symbols namePrefix d) ∧
      (symbols.Sound → (declareDecl symbols namePrefix d).Sound)
  | .func f => by
      simp only [declareDecl]
      split
      · exact ⟨.refl symbols, id⟩
      · exact ⟨symbols.keeps_declare _ _, fun sound => sound.declare (by rintro _ _ ⟨⟩)⟩
  | .cls c => by
      simp only [declareDecl]
      exact declareClassMethods_spec c.name c.members symbols
  | .namespaceDecl name decls _ => by
      simp only [declareDecl]
      exact declareFunctions_spec symbols name decls
  | .externDecl e => by
      simp only [declareDecl]
      exact ⟨symbols.keeps_declare _ _, fun sound => sound.declare (by rintro _ _ ⟨⟩)⟩
  | .iface _ | .enum _ | .importDecl _ | .packageDecl _ => by
      simp only [declareDecl]
      exact ⟨.refl symbols, id⟩

theorem declareFunctions_spec (symbols : Symbols) (namePrefix : String) : ∀ ds : List Decl,
    symbols.Keeps (declareFunctions symbols namePrefix ds) ∧
      (symbols.Sound → (declareFunctions symbols namePrefix ds).Sound)
  | [] => by
      simp only [declareFunctions]
      exact ⟨.refl symbols, id⟩
  | d :: ds => by
      have first := declareDecl_spec symbols namePrefix d
      have rest := declareFunctions_spec (declareDecl symbols namePrefix d) namePrefix ds
      simp only [declareFunctions]
      exact ⟨first.1.trans rest.1, fun sound => rest.2 (first.2 sound)⟩

end

/-- Every member of these classes has its symbol taken. -/
def Symbols.Complete (symbols : Symbols) (classes : List ClassDecl) : Prop :=
  ∀ c ∈ classes, ∀ f, .func f ∈ c.members → isTrivialDtor f = false →
    symbols.lookup (mangleClassMember c.name f) ≠ none

theorem Symbols.Complete.keeps {symbols symbols' : Symbols} {classes : List ClassDecl}
    (complete : symbols.Complete classes) (keeps : symbols.Keeps symbols') :
    symbols'.Complete classes := by
  intro c isClass f isMember real
  rcases Option.ne_none_iff_exists'.mp (complete c isClass f isMember real) with ⟨d, found⟩
  simp [keeps _ _ found]

mutual

theorem declareDecl_complete (symbols : Symbols) (namePrefix : String) : ∀ d : Decl,
    (declareDecl symbols namePrefix d).Complete (classesOfDecl d)
  | .cls c => by
      intro c' isClass f isMember real
      obtain rfl : c' = c := by simpa [classesOfDecl] using isClass
      simp only [declareDecl]
      exact declareClassMethods_complete real isMember symbols
  | .namespaceDecl name decls _ => by
      simp only [declareDecl, classesOfDecl]
      exact declareFunctions_complete symbols name decls
  | .func _ | .externDecl _ | .iface _ | .enum _ | .importDecl _ | .packageDecl _ => by
      simp [classesOfDecl, Symbols.Complete]

theorem declareFunctions_complete (symbols : Symbols) (namePrefix : String) : ∀ ds : List Decl,
    (declareFunctions symbols namePrefix ds).Complete (classesOf ds)
  | [] => by simp [classesOf, Symbols.Complete]
  | d :: ds => by
      have first := (declareDecl_complete symbols namePrefix d).keeps
        (declareFunctions_spec (declareDecl symbols namePrefix d) namePrefix ds).1
      have rest := declareFunctions_complete (declareDecl symbols namePrefix d) namePrefix ds
      simp only [declareFunctions, classesOf]
      intro c isClass
      rcases List.mem_append.mp isClass with isClass | isClass
      · exact first c isClass
      · exact rest c isClass

end

theorem processImports_sound (ds : List Decl) :
    ∀ m : Module, m.functions.Sound → (m.processImports ds).functions.Sound := by
  have runtime (fns : List (String × String × Nat)) : ∀ symbols : Symbols, symbols.Sound →
      (fns.foldl (fun s fn => s.declare fn.2.1 (.runtime fn.2.1 fn.2.2)) symbols).Sound := by
    induction fns with
    | nil => exact fun _ => id
    | cons fn fns ih => exact fun symbols sound => ih _ (sound.declare (by rintro _ _ ⟨⟩))
  have single (imp : ImportDecl) (m : Module) (sound : m.functions.Sound) :
      (m.processImport imp).functions.Sound := by
    unfold Module.processImport
    split
    · exact sound
    · simp only
      split
      · exact runtime _ _ sound
      · split <;> exact sound
  induction ds with
  | nil => exact fun _ => id
  | cons d ds ih =>
      intro m sound
      cases d with
      | importDecl imp => exact ih _ (single imp m sound)
      | _ => exact ih m sound

/-! ## What the layouts stand for -/

/-- Every layout is that of a class, behind one of its bases or none. -/
def Layouts.Sound (ls : Layouts) (classes : List ClassDecl) : Prop :=
  ∀ name layout, ls.layouts.lookup name = some layout →
    ∃ c ∈ classes, c.name = name ∧ layout.methods = ownMethods 0 c.members ∧
      (layout.parentName = "" ∨
        layout.parentName ∈ c.bases ∧ layout.parentName ∈ classes.map (·.name))

/-- These classes have layouts. -/
def Layouts.Complete (ls : Layouts) (classes : List ClassDecl) : Prop :=
  ∀ c ∈ classes, ls.layouts.lookup c.name ≠ none

theorem inheritLayout_spec (layouts : List (String × ClassLayout)) (bases : List String) :
    (inheritLayout layouts bases).1 = "" ∨
      (inheritLayout layouts bases).1 ∈ bases ∧
        ∃ layout, layouts.lookup (inheritLayout layouts bases).1 = some layout := by
  induction bases with
  | nil => exact .inl rfl
  | cons base bases ih =>
      simp only [inheritLayout]
      cases found : layouts.lookup base with
      | some layout => exact .inr ⟨List.mem_cons_self, layout, found⟩
      | none => exact ih.imp_right (And.imp_left (List.mem_cons_of_mem _))

theorem Layouts.Sound.buildClassLayout {ls : Layouts} {classes : List ClassDecl}
    (sound : ls.Sound classes) {c : ClassDecl} (isClass : c ∈ classes) :
    (buildClassLayout ls c).Sound classes := by
  intro name layout found
  simp only [Codegen.buildClassLayout, List.lookup_cons] at found
  split at found
  · next isSame =>
      obtain rfl := Option.some.inj found
      refine ⟨c, isClass, (beq_iff_eq.mp isSame).symm, rfl, ?_⟩
      rcases inheritLayout_spec ls.layouts c.bases with root | ⟨isBase, layout, found⟩
      · exact .inl root
      · rcases sound _ _ found with ⟨p, isClass, same, -⟩
        exact .inr ⟨isBase, List.mem_map.mpr ⟨p, isClass, same⟩⟩
  · exact sound name layout found

mutual

theorem Layouts.Sound.buildLayout {classes : List ClassDecl} {ls : Layouts}
    (sound : ls.Sound classes) : ∀ d : Decl, (∀ c ∈ classesOfDecl d, c ∈ classes) →
      (buildLayout ls d).Sound classes
  | .cls c, sub => by
      simp only [Codegen.buildLayout]
      exact sound.buildClassLayout (sub c (by simp [classesOfDecl]))
  | .namespaceDecl _ decls _, sub => by
      simp only [Codegen.buildLayout]
      exact Layouts.Sound.buildLayouts sound decls (by simpa [classesOfDecl] using sub)
  | .enum e, _ => by
      simp only [Codegen.buildLayout]
      exact sound
  | .func _, _ | .externDecl _, _ | .iface _, _ | .importDecl _, _ | .packageDecl _, _ => by
      simp only [Codegen.buildLayout]
      exact sound

theorem Layouts.Sound.buildLayouts {classes : List ClassDecl} {ls : Layouts}
    (sound : ls.Sound classes) : ∀ ds : List Decl, (∀ c ∈ classesOf ds, c ∈ classes) →
      (buildLayouts ls ds).Sound classes
  | [], _ => by
      simp only [Codegen.buildLayouts]
      exact sound
  | d :: ds, sub => by
      simp only [classesOf, List.mem_append] at sub
      simp only [Codegen.buildLayouts]
      exact Layouts.Sound.buildLayouts
        (Layouts.Sound.buildLayout sound d fun c isClass => sub c (.inl isClass)) ds
        fun c isClass => sub c (.inr isClass)

end

theorem Layouts.Complete.buildClassLayout {ls : Layouts} {classes : List ClassDecl}
    (complete : ls.Complete classes) (c : ClassDecl) :
    (buildClassLayout ls c).Complete (c :: classes) := by
  intro c' isClass
  simp only [Codegen.buildClassLayout, List.lookup_cons]
  split
  · simp
  · next differ =>
      rcases List.mem_cons.mp isClass with rfl | isClass
      · simp at differ
      · exact complete c' isClass

mutual

theorem Layouts.Complete.buildLayout {classes : List ClassDecl} {ls : Layouts}
    (complete : ls.Complete classes) : ∀ d : Decl,
      (buildLayout ls d).Complete (classesOfDecl d ++ classes)
  | .cls c => by
      simp only [Codegen.buildLayout, classesOfDecl, List.singleton_append]
      exact complete.buildClassLayout c
  | .namespaceDecl _ decls _ => by
      simp only [Codegen.buildLayout, classesOfDecl]
      exact Layouts.Complete.buildLayouts complete decls
  | .enum e => by
      simp only [Codegen.buildLayout, classesOfDecl, List.nil_append]
      exact complete
  | .func _ | .externDecl _ | .iface _ | .importDecl _ | .packageDecl _ => by
      simp only [Codegen.buildLayout, classesOfDecl, List.nil_append]
      exact complete

theorem Layouts.Complete.buildLayouts {classes : List ClassDecl} {ls : Layouts}
    (complete : ls.Complete classes) : ∀ ds : List Decl,
      (buildLayouts ls ds).Complete (classesOf ds ++ classes)
  | [] => by
      simp only [Codegen.buildLayouts, classesOf, List.nil_append]
      exact complete
  | d :: ds => by
      have rest := Layouts.Complete.buildLayouts (Layouts.Complete.buildLayout complete d) ds
      simp only [Codegen.buildLayouts, classesOf]
      intro c isClass
      exact rest c (by simpa [or_left_comm, or_assoc] using isClass)

end

theorem processImports_ls (ds : List Decl) :
    ∀ m : Module, (m.processImports ds).ls = m.ls := by
  induction ds with
  | nil => exact fun _ => rfl
  | cons d ds ih =>
      intro m
      cases d with
      | importDecl imp =>
          have single : (m.processImport imp).ls = m.ls := by
            unfold Module.processImport
            split
            · rfl
            · cases found : stdlibTable.lookup ((imp.path.splitOn ".").getLastD imp.path) with
              | some fns => simp only [found]
              | none =>
                  cases imp.globalScope <;>
                    simp only [found, Bool.false_eq_true, if_true, if_false]
          exact (ih _).trans single
      | _ => exact ih m

mutual

theorem mem_classesOfDecl_of_namespace {name : String} {decls : List Decl} {c : ClassDecl}
    (isClass : c ∈ classesOf decls) : ∀ d : Decl, (name, decls) ∈ namespacesOfDecl d →
      c ∈ classesOfDecl d
  | .namespaceDecl _ inner _, isNamespace => by
      simp only [namespacesOfDecl, List.mem_cons, Prod.mk.injEq] at isNamespace
      simp only [classesOfDecl]
      rcases isNamespace with ⟨rfl, rfl⟩ | isNamespace
      · exact isClass
      · exact mem_classesOf_of_namespace isClass inner isNamespace
  | .cls _, isNamespace | .func _, isNamespace | .externDecl _, isNamespace
  | .iface _, isNamespace | .enum _, isNamespace | .importDecl _, isNamespace
  | .packageDecl _, isNamespace => by simp [namespacesOfDecl] at isNamespace

theorem mem_classesOf_of_namespace {name : String} {decls : List Decl} {c : ClassDecl}
    (isClass : c ∈ classesOf decls) : ∀ ds : List Decl, (name, decls) ∈ namespacesOf ds →
      c ∈ classesOf ds
  | [], isNamespace => by simp [namespacesOf] at isNamespace
  | d :: ds, isNamespace => by
      simp only [namespacesOf, List.mem_append] at isNamespace
      simp only [classesOf, List.mem_append]
      rcases isNamespace with isNamespace | isNamespace
      · exact .inl (mem_classesOfDecl_of_namespace isClass d isNamespace)
      · exact .inr (mem_classesOf_of_namespace isClass ds isNamespace)

end

namespace Generating

variable {prog : Program} {m : Module}

theorem sound (generating : Generating prog m) : m.functions.Sound := by
  induction generating with
  | passes =>
      refine (declareFunctions_spec _ _ _).2 (processImports_sound _ _ ?_)
      rintro _ _ _ ⟨⟩
  | enter _ _ ih => exact (declareFunctions_spec _ _ _).2 ih
  | body _ symbol params ih => exact ih.declare (by rintro _ _ ⟨⟩)

theorem complete (generating : Generating prog m) :
    m.functions.Complete (classesOf prog.decls) := by
  induction generating with
  | passes => exact declareFunctions_complete _ _ _
  | enter _ _ ih => exact ih.keeps (declareFunctions_spec _ _ _).1
  | body _ symbol params ih => exact ih.keeps (Symbols.keeps_declare _ _ _)

theorem layouts_sound (generating : Generating prog m) : m.ls.Sound (classesOf prog.decls) := by
  induction generating with
  | passes =>
      refine Layouts.Sound.buildLayouts ?_ _ fun _ => id
      rw [processImports_ls]
      rintro _ _ ⟨⟩
  | enter _ isNamespace ih =>
      exact ih.buildLayouts _ fun c isClass => mem_classesOf_of_namespace isClass _ isNamespace
  | body _ symbol params ih => exact ih

theorem layouts_complete (generating : Generating prog m) :
    m.ls.Complete (classesOf prog.decls) := by
  induction generating with
  | passes =>
      intro c isClass
      have nothing : (Module.processImports {} prog.decls).ls.Complete [] := by
        simp [Layouts.Complete]
      exact nothing.buildLayouts prog.decls c (by simpa using isClass)
  | @enter m name decls _ _ ih =>
      intro c isClass
      exact ih.buildLayouts decls c (List.mem_append_right _ isClass)
  | body _ symbol params ih => exact ih

end Generating

end Dux.Codegen
