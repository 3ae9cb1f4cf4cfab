import Dux.Codegen.Symbols
import Mathlib.Data.List.Nodup

/-!
# Method calls

`gen_call` (`src/codegen/codegen.cpp`) chooses the function of a call `o.m(args)`
while it compiles the call, by the name of the class it takes `o` to have.  The
vtables that `build_class_layout` numbers the methods for are never read.

The search for an inherited method follows the parents of the layouts and need
not end; it is given fuel and returns `none` when that runs out.
-/

namespace Dux.Codegen

/-- What a call with a member as its callee is compiled to. -/
inductive Route
  | plain (callee : Declared)
  | enumCtor
  | method (callee : Declared)
  | null

namespace Module

variable (m : Module)

def resolveClassName (currentClass : String) (varClass : List (String × String)) (obj : Expr)
    (tid : TypeId) : String :=
  let hasLayout (name : String) := (m.ls.layouts.lookup name).isSome
  let byType := m.ls.types.nameOf tid
  if hasLayout byType then byType
  else
    let byThis := match obj with
      | .this _ => currentClass
      | .super _ => currentClass
      | _ => byType
    if hasLayout byThis then byThis
    else match obj with
      | .ident _ name => (varClass.lookup name).getD ""
      | _ => byThis

/-- `try_stdlib_call` for `mod.fn` with `n` arguments. -/
def stdlibRoute (mod fn : String) (n : Nat) : Option Route :=
  if mod ∈ m.userModuleImports then
    match m.functions.lookup (mangle mod fn) with
    | some d => some (.plain d)
    | none => some .null
  else if mod ∉ m.stdlibImports then none
  else
    match stdlibTable.lookup mod with
    | none =>
        match m.functions.lookup (mangle mod fn) with
        | some d => if d.argSize = n then some (.plain d) else none
        | none => none
    | some fns =>
        match fns.lookup fn with
        | none => (m.functions.lookup fn).map .plain
        | some (symbol, _) => (m.functions.lookup symbol).map .plain

/-- The constructor of an enum with payloads. -/
def enumRoute (name variant : String) : Option Route :=
  match m.ls.enumTypes.lookup name with
  | none => none
  | some tid =>
      let variants := (m.ls.types.info tid).variants
      if variants.any (!·.payload.isEmpty) ∧ variants.any (·.name = variant) then some .enumCtor
      else none

/-- The routes of `gen_call` that come before the object is evaluated. -/
def earlyRoute (obj : Expr) (method : String) (n : Nat) : Option Route :=
  match obj with
  | .ident _ name =>
      match m.stdlibRoute name method n with
      | some r => some r
      | none =>
          match m.functions.lookup (mangle name method) with
          | some d => some (.plain d)
          | none => m.enumRoute name method
  | _ => none

/-- The loop of `gen_call` that looks for an inherited method. -/
def inheritedMethod (method : String) : Nat → String → Option (Option Declared)
  | 0, _ => none
  | fuel + 1, cur =>
      if cur = "" then some none
      else match m.ls.layouts.lookup cur with
        | none => some none
        | some layout =>
            if layout.parentName = "" then some none
            else match m.functions.lookup (mangle layout.parentName method) with
              | some d => some (some d)
              | none => inheritedMethod method fuel layout.parentName

def findMethod (method : String) (fuel : Nat) (cls : String) : Option (Option Declared) :=
  match m.functions.lookup (mangle cls method) with
  | some d => some (some d)
  | none => m.inheritedMethod method fuel cls

/-- `gen_call` for `obj.method(args)` with `n` arguments. -/
def callRoute (currentClass : String) (varClass : List (String × String)) (obj : Expr)
    (method : String) (n fuel : Nat) : Option Route :=
  match m.earlyRoute obj method n with
  | some r => some r
  | none => do
      match ← m.findMethod method fuel (m.resolveClassName currentClass varClass obj obj.tid) with
      | some d => return .method d
      | none => return .null

def vtableSlot (cls method : String) : Option Nat :=
  (m.ls.layouts.lookup cls).bind fun layout =>
    (layout.methods.find? fun mi => mi.name = method ∧ mi.modifier = "").map (·.vtableSlot)

end Module

/-! ## The hierarchy -/

def isMethod (f : FunctionDecl) : Bool :=
  !f.isCtor && !f.isDtor && !f.isStatic && f.modifier.getD "" = ""

def methodOf (name : String) : List ClassMember → Option FunctionDecl
  | [] => none
  | .field _ :: ms => methodOf name ms
  | .func f :: ms => if isMethod f ∧ f.name = name then some f else methodOf name ms

def baseOf (classes : List ClassDecl) (c : ClassDecl) : Option String :=
  c.bases.find? fun base => classes.any (·.name = base)

/-- Classes have different names, and of the bases of a class only one is a class. -/
structure SingleInheritance (classes : List ClassDecl) : Prop where
  names : (classes.map (·.name)).Nodup
  bases : ∀ c ∈ classes, ∀ base ∈ c.bases, ∀ base' ∈ c.bases,
    base ∈ classes.map (·.name) → base' ∈ classes.map (·.name) → base = base'
  nonempty : ∀ c ∈ classes, c.name ≠ ""

/-- The declaration of a method nearest to a class in its ancestor chain. -/
inductive Nearest (classes : List ClassDecl) (method : String) : String → Declared → Prop
  | own {c : ClassDecl} {f : FunctionDecl} (isClass : c ∈ classes)
      (declares : methodOf method c.members = some f) :
      Nearest classes method c.name (.member c.name f)
  | inherited {c : ClassDecl} {base : String} {d : Declared} (isClass : c ∈ classes)
      (declares : methodOf method c.members = none) (isBase : baseOf classes c = some base)
      (nearest : Nearest classes method base d) : Nearest classes method c.name d

/-- The classes on the ancestor chain of a class, itself included. -/
inductive Ancestor (classes : List ClassDecl) : String → ClassDecl → Prop
  | self {c : ClassDecl} (isClass : c ∈ classes) : Ancestor classes c.name c
  | base {c c' : ClassDecl} {base : String} (isClass : c ∈ classes)
      (isBase : baseOf classes c = some base) (ancestor : Ancestor classes base c') :
      Ancestor classes c.name c'

/-- From a class up to the nearest declaration of a method, every class has been
laid out behind its base, and no other function has taken a symbol. -/
inductive Linked (classes : List ClassDecl) (m : Module) (method : String) : String → Prop
  | own {c : ClassDecl} {f : FunctionDecl} (isClass : c ∈ classes)
      (declares : methodOf method c.members = some f)
      (untaken : m.functions.lookup (mangle c.name method) = some (.member c.name f)) :
      Linked classes m method c.name
  | inherited {c : ClassDecl} {base : String} {layout : ClassLayout} (isClass : c ∈ classes)
      (declares : methodOf method c.members = none)
      (untaken : m.functions.lookup (mangle c.name method) = none)
      (isBase : baseOf classes c = some base)
      (laidOut : m.ls.layouts.lookup c.name = some layout) (behind : layout.parentName = base)
      (linked : Linked classes m method base) : Linked classes m method c.name

/-- The number of virtual methods before the declaration of a method, if the
class declares it. -/
def methodsBefore (name : String) : List ClassMember → Option Nat
  | [] => none
  | .field _ :: ms => methodsBefore name ms
  | .func f :: ms =>
      if isMethod f ∧ f.name = name then some 0
      else if !f.isCtor && !f.isDtor && !f.isStatic then (methodsBefore name ms).map (· + 1)
      else methodsBefore name ms

/-! ## Lemmas -/

theorem mangleClassMember_of_isMethod {f : FunctionDecl} (cls : String)
    (ordinary : isMethod f = true) : mangleClassMember cls f = cls ++ "__" ++ f.name := by
  simp only [isMethod, Bool.and_eq_true, Bool.not_eq_true', decide_eq_true_eq] at ordinary
  rcases ordinary with ⟨⟨⟨-, dtor⟩, -⟩, modifier⟩
  have get : f.modifier ≠ some "get" := by
    intro same
    simp [same] at modifier
  have set : f.modifier ≠ some "set" := by
    intro same
    simp [same] at modifier
  simp [mangleClassMember, dtor, get, set]

theorem isTrivialDtor_of_isMethod {f : FunctionDecl} (ordinary : isMethod f = true) :
    isTrivialDtor f = false := by
  simp only [isMethod, Bool.and_eq_true, Bool.not_eq_true'] at ordinary
  simp [isTrivialDtor, ordinary]

theorem methodOf_spec {name : String} {ms : List ClassMember} {f : FunctionDecl}
    (declares : methodOf name ms = some f) : .func f ∈ ms ∧ isMethod f = true ∧ f.name = name := by
  induction ms with
  | nil => simp [methodOf] at declares
  | cons member ms ih =>
      cases member with
      | field g =>
          rcases ih declares with ⟨isMember, ordinary, named⟩
          exact ⟨List.mem_cons_of_mem _ isMember, ordinary, named⟩
      | func g =>
          simp only [methodOf] at declares
          split at declares
          · next isIt =>
              obtain rfl := Option.some.inj declares
              exact ⟨List.mem_cons_self, isIt⟩
          · rcases ih declares with ⟨isMember, ordinary, named⟩
            exact ⟨List.mem_cons_of_mem _ isMember, ordinary, named⟩

theorem mangle_inj {cls cls' method : String} (same : mangle cls method = cls' ++ "__" ++ method) :
    cls = cls' := by
  unfold mangle at same
  split at same
  · have lengths := congrArg String.length same
    simp only [String.length_append] at lengths
    have two : "__".length = 2 := rfl
    omega
  · have chars := congrArg String.toList same
    simp only [String.toList_append] at chars
    exact String.toList_injective
      (List.append_cancel_right (List.append_cancel_right chars))

theorem find_ownMethods (name : String) (ms : List ClassMember) : ∀ slot : Nat,
    ((ownMethods slot ms).find? fun mi => mi.name = name ∧ mi.modifier = "").map (·.vtableSlot) =
      (methodsBefore name ms).map (· + slot) := by
  induction ms with
  | nil => simp [ownMethods, methodsBefore]
  | cons member ms ih =>
      intro slot
      cases member with
      | field f => exact ih slot
      | func f =>
          simp only [ownMethods, methodsBefore]
          by_cases virtual : (!f.isCtor && !f.isDtor && !f.isStatic) = true
          · have ordinary : (isMethod f = true ∧ f.name = name) ↔
                (f.name = name ∧ f.modifier.getD "" = "") := by
              simp [isMethod, virtual, and_comm]
            rw [if_pos virtual, List.find?_cons]
            by_cases isIt : f.name = name ∧ f.modifier.getD "" = ""
            · rw [if_pos (ordinary.mpr isIt)]
              simp [isIt]
            · simp only [ordinary, isIt, decide_false, if_false, virtual, if_true, Option.map_map]
              rw [ih]
              congr 1
              funext k
              simp only [Function.comp]
              omega
          · have special : ¬(isMethod f = true ∧ f.name = name) := by
              rintro ⟨ordinary, -⟩
              simp [isMethod] at ordinary virtual
              exact absurd ordinary.1.1.1 (by simp_all)
            rw [if_neg virtual, if_neg special, if_neg virtual]
            exact ih slot

section Generating

variable {prog : Program} {m : Module} {method : String}

theorem vtableSlot_eq (generating : Generating prog m)
    (single : SingleInheritance (classesOf prog.decls)) {c : ClassDecl}
    (isClass : c ∈ classesOf prog.decls) :
    m.vtableSlot c.name method = methodsBefore method c.members := by
  rcases Option.ne_none_iff_exists'.mp (generating.layouts_complete c isClass) with ⟨layout, found⟩
  rcases generating.layouts_sound _ _ found with ⟨c', isClass', same, methods, -⟩
  obtain rfl := List.inj_on_of_nodup_map single.names isClass' isClass same
  simp only [Module.vtableSlot, found, Option.bind_some, methods]
  simpa using find_ownMethods method c'.members 0

theorem inheritedMethod_succ {cls base : String} {layout : ClassLayout} (fuel : Nat)
    (named : cls ≠ "") (found : m.ls.layouts.lookup cls = some layout)
    (behind : layout.parentName = base) (baseNamed : base ≠ "") :
    m.inheritedMethod method (fuel + 1) cls = m.findMethod method fuel base := by
  subst behind
  simp only [Module.inheritedMethod, if_neg named, found, if_neg baseNamed, Module.findMethod]

theorem baseOf_spec {classes : List ClassDecl} {c : ClassDecl} {base : String}
    (isBase : baseOf classes c = some base) :
    base ∈ c.bases ∧ base ∈ classes.map (·.name) := by
  have isClass := List.find?_some isBase
  simp only [List.any_eq_true, decide_eq_true_eq] at isClass
  exact ⟨List.mem_of_find?_eq_some isBase, List.mem_map.mpr isClass⟩

theorem baseOf_eq {classes : List ClassDecl} (single : SingleInheritance classes) {c : ClassDecl}
    (isClass : c ∈ classes) {base : String}
    (isBase : base ∈ c.bases ∧ base ∈ classes.map (·.name)) : baseOf classes c = some base := by
  have found : baseOf classes c ≠ none := by
    intro none
    have noClass := List.find?_eq_none.mp none base isBase.1
    simp only [List.any_eq_true, decide_eq_true_eq] at noClass
    exact noClass (List.mem_map.mp isBase.2)
  rcases Option.ne_none_iff_exists'.mp found with ⟨base', found⟩
  rcases baseOf_spec found with ⟨isBase', baseIsClass'⟩
  rw [found, single.bases c isClass base' isBase' base isBase.1 baseIsClass' isBase.2]

theorem Nearest.declared {classes : List ClassDecl} {cls : String} {d : Declared}
    (nearest : Nearest classes method cls d) : ∃ c ∈ classes, ∃ f,
      methodOf method c.members = some f ∧ d = .member c.name f := by
  induction nearest with
  | @own c f isClass declares => exact ⟨c, isClass, f, declares, rfl⟩
  | inherited _ _ _ _ ih => exact ih

theorem Ancestor.isClass {classes : List ClassDecl} {cls : String} {c : ClassDecl}
    (ancestor : Ancestor classes cls c) : c ∈ classes := by
  induction ancestor with
  | self isClass => exact isClass
  | base _ _ _ ih => exact ih

theorem findMethod_of_linked (single : SingleInheritance (classesOf prog.decls)) {cls : String}
    {d : Declared} (linked : Linked (classesOf prog.decls) m method cls) :
    Nearest (classesOf prog.decls) method cls d →
      ∃ fuel, m.findMethod method fuel cls = some (some d) := by
  induction linked with
  | @own c f isClass declares untaken =>
      intro nearest
      refine ⟨0, ?_⟩
      generalize named : c.name = name at nearest
      cases nearest with
      | own isClass' declares' =>
          obtain rfl := List.inj_on_of_nodup_map single.names isClass isClass' named
          obtain rfl := Option.some.inj (declares.symm.trans declares')
          simp [Module.findMethod, untaken]
      | inherited isClass' declares' =>
          obtain rfl := List.inj_on_of_nodup_map single.names isClass isClass' named
          simp [declares] at declares'
  | @inherited c base layout isClass declares untaken isBase laidOut behind _ ih =>
      intro nearest
      generalize named : c.name = name at nearest
      cases nearest with
      | own isClass' declares' =>
          obtain rfl := List.inj_on_of_nodup_map single.names isClass isClass' named
          simp [declares] at declares'
      | inherited isClass' declares' isBase' nearest =>
          obtain rfl := List.inj_on_of_nodup_map single.names isClass isClass' named
          obtain rfl := Option.some.inj (isBase.symm.trans isBase')
          rcases ih nearest with ⟨fuel, found⟩
          rcases List.mem_map.mp (baseOf_spec isBase).2 with ⟨b, baseIsClass, baseNamed⟩
          refine ⟨fuel + 1, ?_⟩
          simp only [Module.findMethod, untaken]
          rw [inheritedMethod_succ fuel (single.nonempty c isClass) laidOut behind
            (baseNamed ▸ single.nonempty b baseIsClass)]
          exact found

theorem linked_of_findMethod (generating : Generating prog m)
    (single : SingleInheritance (classesOf prog.decls)) {runtimeClass : String} {d : Declared}
    (nearest : Nearest (classesOf prog.decls) method runtimeClass d) (fuel : Nat) :
    ∀ cls : String, m.findMethod method fuel cls = some (some d) →
      Nearest (classesOf prog.decls) method cls d ∧
        Linked (classesOf prog.decls) m method cls := by
  rcases nearest.declared with ⟨decl, isClass, f, declares, rfl⟩
  have here : ∀ cls : String,
      m.functions.lookup (mangle cls method) = some (.member decl.name f) →
        Nearest (classesOf prog.decls) method cls (.member decl.name f) ∧
          Linked (classesOf prog.decls) m method cls := by
    intro cls untaken
    rcases methodOf_spec declares with ⟨-, ordinary, named⟩
    have symbol := generating.sound _ _ _ untaken
    rw [mangleClassMember_of_isMethod _ ordinary, named] at symbol
    obtain rfl := mangle_inj symbol
    exact ⟨.own isClass declares, .own isClass declares untaken⟩
  induction fuel with
  | zero =>
      intro cls found
      cases taken : m.functions.lookup (mangle cls method) with
      | some d =>
          simp only [Module.findMethod, taken, Option.some.injEq] at found
          exact here cls (found ▸ taken)
      | none => simp [Module.findMethod, taken, Module.inheritedMethod] at found
  | succ fuel ih =>
      intro cls found
      cases taken : m.functions.lookup (mangle cls method) with
      | some d =>
          simp only [Module.findMethod, taken, Option.some.injEq] at found
          exact here cls (found ▸ taken)
      | none =>
          simp only [Module.findMethod, taken] at found
          by_cases named : cls = ""
          · simp [Module.inheritedMethod, named] at found
          cases laidOut : m.ls.layouts.lookup cls with
          | none => simp [Module.inheritedMethod, named, laidOut] at found
          | some layout =>
              by_cases root : layout.parentName = ""
              · simp [Module.inheritedMethod, named, laidOut, root] at found
              rw [inheritedMethod_succ fuel named laidOut rfl root] at found
              rcases ih _ found with ⟨nearestBase, linkedBase⟩
              rcases generating.layouts_sound _ _ laidOut with ⟨c, isClass', rfl, -, parent⟩
              have isBase : baseOf (classesOf prog.decls) c = some layout.parentName :=
                baseOf_eq single isClass' (parent.resolve_left root)
              -- a method of the class itself would have taken the symbol
              have declaresNot : methodOf method c.members = none := by
                by_contra declares'
                rcases Option.ne_none_iff_exists'.mp declares' with ⟨f', declares'⟩
                rcases methodOf_spec declares' with ⟨isMember, ordinary, rfl⟩
                have symbol :=
                  generating.complete c isClass' f' isMember (isTrivialDtor_of_isMethod ordinary)
                rw [mangleClassMember_of_isMethod _ ordinary] at symbol
                exact symbol (by simpa [mangle, named] using taken)
              exact ⟨.inherited isClass' declaresNot isBase nearestBase,
                .inherited isClass' declaresNot taken isBase laidOut rfl linkedBase⟩

/-! ## Dispatch -/

/-- A method has one vtable slot in all ancestors of a class that have it. -/
def SameSlot (classes : List ClassDecl) (m : Module) (method runtimeClass : String) : Prop :=
  ∃ slot, ∀ c d, Ancestor classes runtimeClass c → Nearest classes method c.name d →
    m.vtableSlot c.name method = some slot

/-- All ancestors of a class that have a method declare it, behind equally many
other virtual methods. -/
def SamePosition (classes : List ClassDecl) (method runtimeClass : String) : Prop :=
  ∃ count, ∀ c d, Ancestor classes runtimeClass c → Nearest classes method c.name d →
    methodsBefore method c.members = some count

theorem sameSlot_iff (generating : Generating prog m)
    (single : SingleInheritance (classesOf prog.decls)) {runtimeClass : String} :
    SameSlot (classesOf prog.decls) m method runtimeClass ↔
      SamePosition (classesOf prog.decls) method runtimeClass := by
  have slot {c : ClassDecl} (ancestor : Ancestor (classesOf prog.decls) runtimeClass c) :
      m.vtableSlot c.name method = methodsBefore method c.members :=
    vtableSlot_eq generating single ancestor.isClass
  constructor
  · rintro ⟨k, same⟩
    exact ⟨k, fun c d ancestor nearest => (slot ancestor) ▸ same c d ancestor nearest⟩
  · rintro ⟨k, same⟩
    exact ⟨k, fun c d ancestor nearest => (slot ancestor).trans (same c d ancestor nearest)⟩

theorem earlyRoute_ne_method {obj : Expr} {n : Nat} {d : Declared} :
    m.earlyRoute obj method n ≠ some (.method d) := by
  have plain (symbol : String) :
      (m.functions.lookup symbol).map Route.plain ≠ some (.method d) := by
    cases m.functions.lookup symbol <;> simp
  intro early
  unfold Module.earlyRoute at early
  split at early
  · split at early
    · next r stdlib =>
        obtain rfl := Option.some.inj early
        unfold Module.stdlibRoute at stdlib
        repeat' split at stdlib
        all_goals first | exact plain _ stdlib | simp at stdlib
    · split at early
      · simp at early
      · unfold Module.enumRoute at early
        repeat' split at early
        all_goals simp at early
  · simp at early

/-- A call executes the declaration nearest to the run-time class, through one
slot of all vtables, exactly if no other route takes it, the class it is resolved
to has the same nearest declaration and is linked to it, and the method stands
at one position in all the classes that have it. -/
theorem callRoute_eq_nearest_iff (generating : Generating prog m)
    (single : SingleInheritance (classesOf prog.decls)) {runtimeClass : String} {d : Declared}
    (nearest : Nearest (classesOf prog.decls) method runtimeClass d)
    (currentClass : String) (varClass : List (String × String)) (obj : Expr) (n : Nat) :
    ((∃ fuel, m.callRoute currentClass varClass obj method n fuel = some (.method d)) ∧
        SameSlot (classesOf prog.decls) m method runtimeClass) ↔
      (m.earlyRoute obj method n = none ∧
        Nearest (classesOf prog.decls) method
          (m.resolveClassName currentClass varClass obj obj.tid) d ∧
        Linked (classesOf prog.decls) m method
          (m.resolveClassName currentClass varClass obj obj.tid)) ∧
        SamePosition (classesOf prog.decls) method runtimeClass := by
  rw [sameSlot_iff generating single]
  refine and_congr_left fun _ => ?_
  cases early : m.earlyRoute obj method n with
  | some r =>
      simp only [Module.callRoute, early, Option.some.injEq, reduceCtorEq, false_and, iff_false]
      rintro ⟨-, rfl⟩
      exact earlyRoute_ne_method early
  | none =>
      have route (fuel : Nat) :
          m.callRoute currentClass varClass obj method n fuel = some (.method d) ↔
            m.findMethod method fuel (m.resolveClassName currentClass varClass obj obj.tid) =
              some (some d) := by
        simp only [Module.callRoute, early, Option.bind_eq_bind, Option.pure_def,
          Option.bind_eq_some_iff]
        constructor
        · rintro ⟨found, isFound, isRoute⟩
          cases found with
          | none => simp at isRoute
          | some d' =>
              obtain rfl : d' = d := by simpa using isRoute
              exact isFound
        · intro isFound
          exact ⟨some d, isFound, rfl⟩
      simp only [route, true_and]
      constructor
      · rintro ⟨fuel, found⟩
        exact linked_of_findMethod generating single nearest fuel _ found
      · rintro ⟨nearest', linked⟩
        exact findMethod_of_linked single linked nearest'

end Generating

def speak (sound : Int) : FunctionDecl :=
  { loc := ⟨1, 1⟩, returnType := { name := "int" }, name := "speak", params := [],
    body := some [.returnStmt (some (.intLit (-1) sound))] }

def animals : Program where
  decls :=
    [.cls { name := "Animal", members := [.func (speak 1)] },
     .cls { name := "Dog", bases := ["Animal"], members := [.func (speak 2)] }]
  stmts := []

theorem animals_singleInheritance : SingleInheritance (classesOf animals.decls) where
  names := by decide
  bases := by simp [animals, classesOf, classesOfDecl]
  nonempty := by simp [animals, classesOf, classesOfDecl]

theorem animals_nearest :
    Nearest (classesOf animals.decls) "speak" "Dog" (.member "Dog" (speak 2)) :=
  .own (c := { name := "Dog", bases := ["Animal"], members := [.func (speak 2)] })
    (by simp [animals, classesOf, classesOfDecl]) rfl

/-- A call on a variable declared as `Dog`. -/
theorem callRoute_eq_nearest_dog :
    ((∃ fuel, (moduleOf animals).callRoute "" [] (.ident 13 "dog") "speak" 0 fuel =
        some (.method (.member "Dog" (speak 2)))) ∧
      SameSlot (classesOf animals.decls) (moduleOf animals) "speak" "Dog") ↔
      ((moduleOf animals).earlyRoute (.ident 13 "dog") "speak" 0 = none ∧
        Nearest (classesOf animals.decls) "speak"
          ((moduleOf animals).resolveClassName "" [] (.ident 13 "dog") 13)
          (.member "Dog" (speak 2)) ∧
        Linked (classesOf animals.decls) (moduleOf animals) "speak"
          ((moduleOf animals).resolveClassName "" [] (.ident 13 "dog") 13)) ∧
        SamePosition (classesOf animals.decls) "speak" "Dog" :=
  callRoute_eq_nearest_iff .passes animals_singleInheritance animals_nearest "" []
    (.ident 13 "dog") 0

/-- A `Dog` in a variable declared as `Animal` speaks like an `Animal`. -/
theorem not_callRoute_eq_nearest :
    ¬ ∀ prog m, Generating prog m → SingleInheritance (classesOf prog.decls) →
      ∀ method runtimeClass d, Nearest (classesOf prog.decls) method runtimeClass d →
      ∀ currentClass varClass obj n c, Ancestor (classesOf prog.decls) runtimeClass c →
        m.ls.types.nameOf obj.tid = c.name →
        (∃ fuel, m.callRoute currentClass varClass obj method n fuel = some (.method d)) ∧
          SameSlot (classesOf prog.decls) m method runtimeClass := by
  intro always
  have root : Ancestor (classesOf animals.decls) "Animal"
      { name := "Animal", members := [.func (speak 1)] } :=
    .self (c := { name := "Animal", members := [.func (speak 1)] })
      (by simp [animals, classesOf, classesOfDecl])
  have up : Ancestor (classesOf animals.decls) "Dog"
      { name := "Animal", members := [.func (speak 1)] } :=
    .base (c := { name := "Dog", bases := ["Animal"], members := [.func (speak 2)] })
      (by simp [animals, classesOf, classesOfDecl]) rfl root
  rcases (always animals _ .passes animals_singleInheritance _ _ _ animals_nearest "" []
    (.ident 12 "dog") 0 _ up rfl).1 with ⟨fuel, route⟩
  have found : (moduleOf animals).callRoute "" [] (.ident 12 "dog") "speak" 0 fuel =
      some (.method (.member "Animal" (speak 1))) := rfl
  have same := found.symm.trans route
  simp at same

end Dux.Codegen
