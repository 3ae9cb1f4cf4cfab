import Dux.Generics.Ending

/-!
# What a bound asks for

A bound of a type parameter names an interface.  `ast_satisfies_bound` looks for the argument
among the classes at the top level and at the bases of the first one it finds; a name it does
not find passes.
-/

namespace Dux.Generics

mutual

/-- The classes a declaration declares, those of namespaces included. -/
def declaredClasses : GenericDecl → List ClassTemplate
  | .cls c => [c]
  | .namespaceDecl _ decls _ => declaredClassesOf decls
  | .func _ => []
  | .iface _ => []
  | .enum _ => []
  | .importDecl _ => []
  | .packageDecl _ => []
  | .externDecl _ => []

def declaredClassesOf : List GenericDecl → List ClassTemplate
  | [] => []
  | d :: ds => declaredClasses d ++ declaredClassesOf ds

end

/-- The bases of the first class of a name at the top level. -/
def topBases (name : String) : List GenericDecl → Option (List String)
  | [] => none
  | .cls c :: ds => if c.name = name then some c.bases else topBases name ds
  | _ :: ds => topBases name ds

def boundReport (decls : List GenericDecl) (s : SubstMap) (bound : TypeBound) : Option String :=
  match s.lookup bound.param with
  | none => none
  | some te =>
      if astSatisfiesBound te.name bound.interfaceName decls then none
      else some ("type '" ++ te.name ++ "' does not implement '" ++ bound.interfaceName ++
        "' (required by generic parameter '" ++ bound.param ++ "')")

/-! ## What is looked up -/

theorem topBases_fixDecls (skipGeneric : Bool) (name : String) (ds : List GenericDecl) :
    topBases name (fixDecls skipGeneric ds).1 = topBases name ds := by
  induction ds with
  | nil => rfl
  | cons d ds ih =>
    cases d with
    | cls c =>
      simp only [fixDecls, fixDecl, topBases]
      by_cases generic : (skipGeneric && !c.typeParams.isEmpty) = true <;>
        simp [generic, topBases, ih]
    | func f =>
      simp only [fixDecls, fixDecl, topBases]
      by_cases generic : (skipGeneric && !f.typeParams.isEmpty) = true <;>
        simp [generic, topBases, ih]
    | _ => simp [fixDecls, fixDecl, topBases, ih]

theorem astSatisfiesBound_iff {name interfaceName : String} (asks : interfaceName ≠ "")
    (ds : List GenericDecl) : astSatisfiesBound name interfaceName ds = true ↔
      ∀ bases, topBases name ds = some bases → interfaceName ∈ bases := by
  induction ds with
  | nil => simp [astSatisfiesBound, topBases]
  | cons d ds ih =>
    cases d with
    | cls c => by_cases same : c.name = name <;> simp [astSatisfiesBound, topBases, asks, same, ih]
    | _ => simp [astSatisfiesBound, topBases, asks, ih]

theorem mem_declaredClassesOf_of_topBases {name : String} {ds : List GenericDecl}
    {bases : List String} (found : topBases name ds = some bases) :
    ∃ c ∈ declaredClassesOf ds, c.name = name ∧ c.bases = bases := by
  induction ds with
  | nil => cases found
  | cons d ds ih =>
    have behind (found : topBases name ds = some bases) :
        ∃ c ∈ declaredClassesOf (d :: ds), c.name = name ∧ c.bases = bases := by
      obtain ⟨c, isIn, is⟩ := ih found
      exact ⟨c, List.mem_append_right _ isIn, is⟩
    cases d with
    | cls c =>
      rw [topBases] at found
      by_cases same : c.name = name
      · rw [if_pos same, Option.some.injEq] at found
        exact ⟨c, List.mem_append_left _ List.mem_cons_self, same, found⟩
      · rw [if_neg same] at found
        exact behind found
    | _ => exact behind found

namespace GenericProgram

variable (prog : GenericProgram)

/-- The classes of a program by name and bases: those it declares and their instances. -/
inductive ClassOf : String → List String → Prop
  | declared {c : ClassTemplate} (isIn : c ∈ declaredClassesOf prog.decls) :
      ClassOf c.name c.bases
  | generated {key : InstKey} {c : ClassTemplate} (arises : prog.Arises key)
      (found : prog.templates.find key = some (.cls c)) : ClassOf key.mangled c.bases

/-- A class implements an interface directly or through an ancestor. -/
inductive Implements : String → String → Prop
  | direct {name interfaceName : String} {bases : List String} (cls : prog.ClassOf name bases)
      (isBase : interfaceName ∈ bases) : Implements name interfaceName
  | inherited {name base interfaceName : String} {bases : List String}
      (cls : prog.ClassOf name bases) (isBase : base ∈ bases)
      (implements : Implements base interfaceName) : Implements name interfaceName

/-- The report about one bound when an instance is taken up. -/
def report (key : InstKey) (t : Template) (bound : TypeBound) : Option String :=
  boundReport (fixDecls true prog.decls).1 (substMap [] t.typeParams key.typeArgs) bound

def violation (arg : TypeExpr) (bound : TypeBound) : String :=
  "type '" ++ arg.name ++ "' does not implement '" ++ bound.interfaceName ++
    "' (required by generic parameter '" ++ bound.param ++ "')"

/-- How the argument for a bound is judged: a class at the top level by its hierarchy, as far
as it names the interface itself or does not implement it at all, and a name that no class
bears not at all. -/
structure Judged (key : InstKey) (t : Template) (bound : TypeBound) (arg : TypeExpr) : Prop where
  accepts : ∀ bases, topBases arg.name prog.decls = some bases →
    bound.interfaceName ∈ bases → prog.report key t bound = none
  rejects : ∀ bases, topBases arg.name prog.decls = some bases →
    ¬prog.Implements arg.name bound.interfaceName →
      prog.report key t bound = some (violation arg bound)
  skips : (∀ bases, ¬prog.ClassOf arg.name bases) → prog.report key t bound = none

variable {prog} {s f : WorkState} {key : InstKey} {t : Template} {bound : TypeBound}
  {arg : TypeExpr}

/-- A report is made exactly if the first class of the name at the top level does not name the
interface among its bases. -/
theorem report_eq
    (argument : (substMap [] t.typeParams key.typeArgs).lookup bound.param = some arg)
    (asks : bound.interfaceName ≠ "") : prog.report key t bound =
      if ∀ bases, topBases arg.name prog.decls = some bases → bound.interfaceName ∈ bases
      then none else some (violation arg bound) := by
  rw [report, boundReport, argument]
  simp only [astSatisfiesBound_iff asks, topBases_fixDecls]
  rfl

theorem classOf_of_topBases {name : String} {bases : List String}
    (found : topBases name prog.decls = some bases) : prog.ClassOf name bases := by
  obtain ⟨c, isIn, rfl, rfl⟩ := mem_declaredClassesOf_of_topBases found
  exact .declared isIn

theorem judged (argument : (substMap [] t.typeParams key.typeArgs).lookup bound.param = some arg)
    (asks : bound.interfaceName ≠ "") : prog.Judged key t bound arg := by
  constructor
  · intro bases found isBase
    rw [report_eq argument asks, if_pos]
    intro bases' found'
    cases found.symm.trans found'
    exact isBase
  · intro bases found without
    rw [report_eq argument asks, if_neg]
    intro listed
    exact without (.direct (classOf_of_topBases found) (listed bases found))
  · intro unknown
    rw [report_eq argument asks, if_pos]
    intro bases found
    exact absurd (classOf_of_topBases found) (unknown bases)

theorem Arises.taken (arises : prog.Arises key) (unambiguous : prog.Unambiguous)
    (reached : prog.Reaches f) (finished : f.pending = []) :
    ∃ s, prog.Reaches s ∧ s.next = some key := by
  obtain ⟨s, taken, reached', next, same⟩ :=
    Reaches.taken reached (arises.done unambiguous reached finished)
  obtain rfl : taken = key :=
    unambiguous _ _ (reached'.arises _ (mem_pending_of_next next)) arises same
  exact ⟨s, reached', next⟩

/-- Taking up an instance reports about every bound of its template, judged by the hierarchy;
and in a finished run every instance has been taken up. -/
theorem bounds_judged (prog : GenericProgram) :
    (∀ s key t, s.next = some key → prog.templates.find key = some t →
      ∃ s', prog.step s = some s' ∧
        s'.errors = s.errors ++ t.typeBounds.filterMap (prog.report key t) ∧
        ∀ bound ∈ t.typeBounds, ∀ arg,
          (substMap [] t.typeParams key.typeArgs).lookup bound.param = some arg →
            bound.interfaceName ≠ "" → prog.Judged key t bound arg) ∧
    (prog.Unambiguous → ∀ f, prog.Reaches f → f.pending = [] →
      ∀ key, prog.Arises key → ∃ s, prog.Reaches s ∧ s.next = some key) := by
  constructor
  · intro s key t next found
    obtain ⟨s', run, -⟩ := prog.step_of_next next
    refine ⟨s', run, ?_, fun bound _ arg argument asks => judged argument asks⟩
    rw [errors_of_step run, next, Option.map_some, Option.getD_some, violations, found]
    rfl
  · intro unambiguous f reached finished key arises
    exact arises.taken unambiguous reached finished

end GenericProgram

/-! ## A bounded template at an integer -/

/-- `class Box<T: Shape> { T value }`. -/
def boundedClass : ClassTemplate where
  name := "Box"
  typeParams := ["T"]
  typeBounds := [⟨"T", "Shape"⟩]
  members := [.field { type := { name := "T" }, name := "value" }]

/-- `interface Shape { }`, the template and a variable `Box<int>`. -/
def boundedBox : GenericProgram where
  decls := [.iface { name := "Shape", members := [] }, .cls boundedClass]
  stmts :=
    [.varDecl ⟨1, 1⟩ { name := "Box", typeArgs := [{ name := "int" }] } false false [.mk "b" none]]

def boundedKey : InstKey := ⟨"Box", [{ name := "int" }], "Box__int"⟩

namespace GenericProgram

/-- `int` is no class, and its bound is not reported. -/
theorem bounds_judged_boundedBox :
    ∃ s', boundedBox.step boundedBox.start = some s' ∧ s'.errors = [] ∧
      boundedBox.Judged boundedKey (.cls boundedClass) ⟨"T", "Shape"⟩ { name := "int" } := by
  obtain ⟨s', run, errors, judged⟩ :=
    (bounds_judged boundedBox).1 boundedBox.start boundedKey (.cls boundedClass) rfl rfl
  exact ⟨s', run, errors, judged _ List.mem_cons_self _ rfl (by decide)⟩

theorem arises_boundedBox {key : InstKey} (arises : boundedBox.Arises key) :
    key = boundedKey := by
  induction arises with
  | written isWritten =>
    have written : boundedBox.written = [boundedKey] := rfl
    rwa [written, List.mem_singleton] at isWritten
  | asked _ asks ih =>
    subst ih
    have none : boundedBox.asks boundedKey = [] := rfl
    rw [none] at asks
    cases asks

theorem not_classOf_int (bases : List String) : ¬boundedBox.ClassOf "int" bases := by
  generalize name : "int" = className
  rintro (isIn | ⟨arises, -⟩)
  · have classes : (declaredClassesOf boundedBox.decls).map (·.name) = ["Box"] := rfl
    have isName := List.mem_map_of_mem (f := (·.name)) isIn
    rw [classes, ← name] at isName
    simp at isName
  · rw [arises_boundedBox arises] at name
    simp [boundedKey] at name

/-- A primitive type does not implement `Shape`, yet the expansion reports nothing. -/
theorem not_exact : ¬∀ (prog : GenericProgram) (key : InstKey) (t : Template) (bound : TypeBound)
    (arg : TypeExpr) (fuel : Nat) (x : Expansion), expandGenerics fuel prog = some x →
      prog.Arises key → prog.templates.find key = some t → bound ∈ t.typeBounds →
      (substMap [] t.typeParams key.typeArgs).lookup bound.param = some arg →
      (violation arg bound ∈ x.errors ↔ ¬prog.Implements arg.name bound.interfaceName) := by
  intro always
  have arises : boundedBox.Arises boundedKey := .written List.mem_cons_self
  have reported := (always boundedBox boundedKey _ ⟨"T", "Shape"⟩ { name := "int" } 3 _ rfl arises
    rfl List.mem_cons_self rfl).2
  have silent : ¬boundedBox.Implements "int" "Shape" := by
    rintro (⟨cls, -⟩ | ⟨cls, -, -⟩)
    · exact not_classOf_int _ cls
    · exact not_classOf_int _ cls
  exact absurd (reported silent) (by decide)

end GenericProgram

end Dux.Generics
