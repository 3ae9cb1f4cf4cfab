import Dux.Codegen.Dispatch
import Dux.Sema.Check

/-!
# Construction

What `new C(args)` does before the body of the constructor runs: `gen_new` gives
the fields their defaults and evaluates the arguments where the expression
stands, `gen_func` goes through the initialiser list inside the constructor
(`src/codegen/codegen.cpp`).

Expressions and constructor bodies are opaque.  What they read and write of the
object under construction are parameters.
-/

namespace Dux.Codegen

/-- What an entry of an initialiser list does.  Nothing stores into a field. -/
inductive Effect
  | evaluate (arg : Expr)
  | construct (ctor : Declared)
  | store (field : String)

/-- What happens before the body of a constructor runs, in the order of these
fields. -/
structure Construction where
  defaults : List FieldDecl
  arguments : List Expr
  ctor : Option Declared
  entries : List (InitEntry × List Effect)

/-- The fields with a default. -/
def withDefault (fields : List FieldDecl) : List FieldDecl := fields.filter (·.init.isSome)

namespace Module

variable (m : Module)

/-- `gen_func` on an entry of an initialiser list; `none` for a call with too few
arguments, which the module verifier rejects. -/
def genInitEntry (ie : InitEntry) : Option (List Effect) :=
  match m.functions.lookup (mangle ie.field ie.field) with
  | none => some []
  | some base =>
      if base.argSize = 0 ∨ ie.args.length < base.argSize - 1 then none
      else some ((ie.args.take (base.argSize - 1)).map .evaluate ++ [.construct base])

/-- `gen_func` on an initialiser list. -/
def genInitList : List InitEntry → Option (List (InitEntry × List Effect))
  | [] => some []
  | ie :: ies => do
      let effects ← m.genInitEntry ie
      let entries ← genInitList ies
      return (ie, effects) :: entries

def initListOf : Declared → List InitEntry
  | .member _ f => if f.isCtor then f.initList else []
  | .func _ => []
  | .external _ => []
  | .runtime _ _ => []

/-- `gen_new`; `none` for a class without a layout and for a constructor call
with another number of arguments. -/
def genNew (cls : String) (args : List Expr) : Option Construction :=
  match m.ls.layouts.lookup cls with
  | none => none
  | some layout =>
      let defaults := withDefault (layout.fields.map (·.decl))
      match m.functions.lookup (mangle cls cls) with
      | none => some ⟨defaults, [], none, []⟩
      | some ctor =>
          if ctor.argSize ≠ args.length + 1 then none
          else (m.genInitList (initListOf ctor)).map fun entries =>
            ⟨defaults, args, some ctor, entries⟩

end Module

/-! ## Complete construction -/

def ctorOf : List ClassMember → Option FunctionDecl
  | [] => none
  | .field _ :: ms => ctorOf ms
  | .func f :: ms => if f.isCtor then some f else ctorOf ms

def ownFieldDecls : List ClassMember → List FieldDecl
  | [] => []
  | .func _ :: ms => ownFieldDecls ms
  | .field f :: ms => if f.isStatic then ownFieldDecls ms else f :: ownFieldDecls ms

inductive AllFields (classes : List ClassDecl) : String → List FieldDecl → Prop
  | root {c : ClassDecl} (isClass : c ∈ classes) (isBase : baseOf classes c = none) :
      AllFields classes c.name (ownFieldDecls c.members)
  | derived {c : ClassDecl} {base : String} {fields : List FieldDecl} (isClass : c ∈ classes)
      (isBase : baseOf classes c = some base) (inherited : AllFields classes base fields) :
      AllFields classes c.name (fields ++ ownFieldDecls c.members)

section Complete

variable (classes : List ClassDecl) (c : ClassDecl)

/-- The base class that an entry names. -/
def namedBase (ie : InitEntry) : Option ClassDecl :=
  if ie.field ∈ c.bases then classes.find? (·.name = ie.field) else none

/-- What an entry has to do: evaluate its arguments and construct the base, if
that has a constructor, or else store into the field. -/
def entryEffects (ie : InitEntry) : List Effect :=
  ie.args.map .evaluate ++
    match namedBase classes c ie with
    | some b => (ctorOf b.members).toList.map fun f => .construct (.member b.name f)
    | none => [.store ie.field]

inductive Access
  | read (field : String)
  | write (field : String)

-- the fields that an argument reads, and what a base constructor does to fields
variable (reads : Expr → List String) (runs : Declared → List Access)

def Effect.accesses : Effect → List Access
  | .evaluate arg => (reads arg).map .read
  | .construct ctor => runs ctor
  | .store field => [.write field]

def entryAccesses (entries : List (InitEntry × List Effect)) : List Access :=
  entries.flatMap fun entry => entry.2.flatMap (Effect.accesses reads runs)

def Construction.accesses (x : Construction) : List Access :=
  x.defaults.map (fun f => .write f.name) ++ entryAccesses reads runs x.entries

def WrittenFirst (accesses : List Access) : Prop :=
  ∀ before field after, accesses = before ++ .read field :: after → .write field ∈ before

/-- The defaults of all fields are given, the arguments evaluated, the entries of
the initialiser list take effect one by one, and no field is read too early. -/
structure Construction.Complete (args : List Expr) (x : Construction) : Prop where
  defaults : ∃ fields, AllFields classes c.name fields ∧ x.defaults = withDefault fields
  arguments : x.arguments = args
  ctor : x.ctor = (ctorOf c.members).map (.member c.name)
  entries : x.entries =
    ((ctorOf c.members).elim [] (·.initList)).map fun ie => (ie, entryEffects classes c ie)
  writtenFirst : WrittenFirst (x.accesses reads runs)

/-- An entry that is carried out: it names a base class that has a constructor
which takes at least as many arguments, or one without a constructor and gives no arguments. -/
def CarriedOut (m : Module) (ie : InitEntry) : Prop :=
  ∃ b, namedBase classes c ie = some b ∧
    match ctorOf b.members with
    | some f => m.functions.lookup (mangle ie.field ie.field) = some (.member b.name f) ∧
        ie.args.length ≤ (Declared.member b.name f).argSize - 1
    | none => m.functions.lookup (mangle ie.field ie.field) = none ∧ ie.args = []

def readsCovered (written : List String) : List Access → Bool
  | [] => true
  | .read field :: accesses => decide (field ∈ written) && readsCovered written accesses
  | .write field :: accesses => readsCovered (field :: written) accesses

/-- When a construction is complete. -/
structure Constructible (m : Module) (args : List Expr) : Prop where
  laidOut : ∃ fields layout, AllFields classes c.name fields ∧
    m.ls.layouts.lookup c.name = some layout ∧
      withDefault (layout.fields.map (·.decl)) = withDefault fields
  untaken : m.functions.lookup (mangle c.name c.name) = (ctorOf c.members).map (.member c.name)
  arguments : ctorOf c.members = none → args = []
  carriedOut : ∀ f, ctorOf c.members = some f → ∀ ie ∈ f.initList, CarriedOut classes c m ie
  covered : ∀ f layout, ctorOf c.members = some f → m.ls.layouts.lookup c.name = some layout →
    readsCovered ((withDefault (layout.fields.map (·.decl))).map (·.name))
      (entryAccesses reads runs (f.initList.map fun ie => (ie, entryEffects classes c ie))) = true

end Complete

/-! ## Lemmas -/

section Lemmas

variable {classes : List ClassDecl} {c : ClassDecl} {m : Module}

theorem ctorOf_isCtor {ms : List ClassMember} {f : FunctionDecl} (found : ctorOf ms = some f) :
    f.isCtor = true := by
  induction ms with
  | nil => simp [ctorOf] at found
  | cons member ms ih =>
      cases member with
      | field g => exact ih found
      | func g =>
          simp only [ctorOf] at found
          split at found
          · next isCtor =>
              obtain rfl := Option.some.inj found
              exact isCtor
          · exact ih found

theorem map_evaluate_append_inj {args args' : List Expr} {last last' : Effect}
    (same : args.map Effect.evaluate ++ [last] = args'.map Effect.evaluate ++ [last']) :
    args = args' ∧ last = last' := by
  rcases List.append_inj' same rfl with ⟨sameArgs, sameLast⟩
  have inj : Function.Injective Effect.evaluate := fun _ _ same => Effect.evaluate.inj same
  exact ⟨List.map_injective_iff.mpr inj sameArgs, List.head_eq_of_cons_eq sameLast⟩

theorem construct_notMem_evaluate {args : List Expr} {ctor : Declared} :
    Effect.construct ctor ∉ args.map Effect.evaluate := by
  simp

theorem genInitEntry_eq_iff {ie : InitEntry} {effects : List Effect}
    (generated : m.genInitEntry ie = some effects) :
    effects = entryEffects classes c ie ↔ CarriedOut classes c m ie := by
  unfold Module.genInitEntry at generated
  cases found : m.functions.lookup (mangle ie.field ie.field) with
  | none =>
      simp only [found, Option.some.injEq] at generated
      subst generated
      cases named : namedBase classes c ie with
      | none => simp [entryEffects, CarriedOut, named]
      | some b =>
          cases ctor : ctorOf b.members with
          | none =>
              simp [entryEffects, CarriedOut, named, ctor, found, eq_comm]
          | some f => simp [entryEffects, CarriedOut, named, ctor, found]
  | some base =>
      simp only [found] at generated
      split at generated
      · contradiction
      · obtain rfl := Option.some.inj generated
        cases named : namedBase classes c ie with
        | none =>
            simp only [entryEffects, CarriedOut, named, reduceCtorEq, false_and, exists_false,
              iff_false]
            intro same
            have differ := (map_evaluate_append_inj same).2
            contradiction
        | some b =>
            cases ctor : ctorOf b.members with
            | none =>
                simp only [entryEffects, CarriedOut, named, ctor, found, Option.toList_none,
                  List.map_nil, List.append_nil]
                constructor
                · intro same
                  have isMember : Effect.construct base ∈ ie.args.map Effect.evaluate := by
                    rw [← same]
                    simp
                  exact absurd isMember construct_notMem_evaluate
                · rintro ⟨b', isBase, rest⟩
                  obtain rfl := Option.some.inj isBase
                  simp [ctor] at rest
            | some f =>
                simp only [entryEffects, CarriedOut, named, ctor, found, Option.toList_some,
                  List.map_cons, List.map_nil]
                constructor
                · intro same
                  rcases map_evaluate_append_inj same with ⟨sameArgs, sameCtor⟩
                  obtain rfl := Effect.construct.inj sameCtor
                  refine ⟨b, rfl, ?_⟩
                  simp only [ctor, true_and]
                  have lengths := congrArg List.length sameArgs
                  rw [List.length_take] at lengths
                  omega
                · rintro ⟨b', isBase, rest⟩
                  obtain rfl := Option.some.inj isBase
                  simp only [ctor, Option.some.injEq] at rest
                  rcases rest with ⟨rfl, enough⟩
                  rw [List.take_of_length_le enough]

theorem genInitList_eq_iff (ies : List InitEntry) :
    ∀ {entries : List (InitEntry × List Effect)}, m.genInitList ies = some entries →
      (entries = ies.map (fun ie => (ie, entryEffects classes c ie)) ↔
        ∀ ie ∈ ies, CarriedOut classes c m ie) := by
  induction ies with
  | nil =>
      intro entries generated
      obtain rfl := Option.some.inj generated
      simp
  | cons ie ies ih =>
      intro entries generated
      simp only [Module.genInitList, Option.bind_eq_bind, Option.pure_def, Option.bind_eq_some_iff,
        Option.some.injEq] at generated
      rcases generated with ⟨effects, first, rest, others, rfl⟩
      rw [List.map_cons, List.cons.injEq, Prod.mk.injEq, ih others, List.forall_mem_cons,
        genInitEntry_eq_iff first]
      simp

theorem readsCovered_iff (accesses : List Access) : ∀ written : List String,
    readsCovered written accesses = true ↔ ∀ before field after,
      accesses = before ++ .read field :: after → field ∈ written ∨ .write field ∈ before := by
  induction accesses with
  | nil => simp [readsCovered]
  | cons access accesses ih =>
      intro written
      cases access with
      | read g =>
          simp only [readsCovered, Bool.and_eq_true, decide_eq_true_eq, ih]
          constructor
          · rintro ⟨isWritten, rest⟩ before field after same
            cases before with
            | nil =>
                obtain rfl : g = field := by simpa using List.head_eq_of_cons_eq same
                exact .inl isWritten
            | cons access before =>
                simp only [List.cons_append, List.cons.injEq] at same
                exact (rest before field after same.2).imp_right (List.mem_cons_of_mem _)
          · intro all
            constructor
            · simpa using all [] g accesses rfl
            · rintro before field after rfl
              simpa using all (.read g :: before) field after rfl
      | write g =>
          simp only [readsCovered, ih]
          constructor
          · intro all before field after same
            cases before with
            | nil => simp at same
            | cons access before =>
                simp only [List.cons_append, List.cons.injEq] at same
                rcases same with ⟨rfl, same⟩
                have isWritten := all before field after same
                simp only [List.mem_cons, Access.write.injEq] at isWritten ⊢
                tauto
          · rintro all before field after rfl
            have isWritten := all (.write g :: before) field after rfl
            simp only [List.mem_cons, Access.write.injEq] at isWritten ⊢
            tauto

theorem writtenFirst_iff (fields : List FieldDecl) (accesses : List Access) :
    WrittenFirst (fields.map (fun f => .write f.name) ++ accesses) ↔
      readsCovered (fields.map (·.name)) accesses = true := by
  rw [readsCovered_iff]
  constructor
  · rintro first before field after rfl
    have isWritten := first (fields.map (fun f => .write f.name) ++ before) field after (by simp)
    simpa using isWritten
  · intro all before field after same
    -- the defaults are no reads, so the read stands behind them
    rcases List.append_eq_append_iff.mp same with ⟨between, rfl, rest⟩ | ⟨between, isPrefix, rest⟩
    · have isWritten := all between field after rest
      simpa using isWritten
    · cases between with
      | nil =>
          have isWritten := all [] field after (by simpa using rest.symm)
          simp only [List.append_nil] at isPrefix
          rw [← isPrefix]
          simpa using isWritten
      | cons access between =>
          simp only [List.cons_append, List.cons.injEq] at rest
          have isRead : Access.read field ∈ fields.map (fun f => Access.write f.name) := by
            rw [isPrefix, rest.1]
            simp
          simp at isRead

/-! ## The construction as a whole -/

theorem complete_iff_of_no_ctor {layout : ClassLayout} {args : List Expr}
    (laidOut : m.ls.layouts.lookup c.name = some layout)
    (taken : m.functions.lookup (mangle c.name c.name) = none) (reads : Expr → List String)
    (runs : Declared → List Access) :
    (Construction.mk (withDefault (layout.fields.map (·.decl))) [] none []).Complete classes c reads
      runs args ↔ Constructible classes c reads runs m args := by
  constructor
  · rintro ⟨⟨fields, all, defaults⟩, arguments, ctor, -, -⟩
    have none : ctorOf c.members = none := by simpa using ctor.symm
    exact {
      laidOut := ⟨fields, layout, all, laidOut, defaults⟩
      untaken := taken.trans ctor
      arguments := fun _ => arguments.symm
      carriedOut := by simp [none]
      covered := by simp [none] }
  · rintro ⟨⟨fields, layout', all, laidOut', defaults⟩, untaken, arguments, -, -⟩
    obtain rfl := Option.some.inj (laidOut.symm.trans laidOut')
    have none : ctorOf c.members = none := by simpa [taken] using untaken.symm
    exact {
      defaults := ⟨fields, all, defaults⟩
      arguments := (arguments none).symm
      ctor := by simp [none]
      entries := by simp [none]
      writtenFirst := (writtenFirst_iff _ _).mpr rfl }

/-- A class whose constructor initialises its field in the initialiser list. -/
def point (entries : List InitEntry) : ClassDecl where
  name := "Point"
  members :=
    [.field { type := { name := "int" }, name := "x" },
     .func { loc := ⟨2, 1⟩, returnType := { name := "void" }, name := "Point", params := [],
             body := some [], isCtor := true, initList := entries }]

/-- `new Point()` for a constructor that initialises `x` with 5. -/
def fieldEntry : Program where
  decls := [.cls (point [⟨"x", [.intLit (-1) 5]⟩])]
  stmts := [.expr (.new (-1) { name := "Point" } [])]

/-- Whether an entry that names no base class does nothing. -/
def dropsEntry (prog : Program) (c : ClassDecl) : Bool :=
  ((moduleOf prog).genNew c.name []).any fun x =>
    x.entries.any fun entry =>
      entry.2.isEmpty && (namedBase (classesOf prog.decls) c entry.1).isNone

end Lemmas

end Dux.Codegen
