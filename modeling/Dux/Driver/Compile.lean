import Dux.Driver.Imports
import Dux.Generics.Bounds
import Dux.Sema.Check

/-!
# The passes of a compiler run

`main` of `src/main.cpp` parses the program, merges the imported modules, expands the
generics, analyses the result and generates code.  Every pass reports its errors to a
driver, but `main` looks only at what parsing the program returns, at the errors that
analysis counts and at what generation returns.
-/

namespace Dux.Driver

open Generics (GenericDecl GenericProgram MemberTemplate Expansion expandLimited kMaxErrors)

/-! ## Expanded programs -/

def memberOf : MemberTemplate → ClassMember
  | .func f => .func f.decl
  | .field f => .field f

mutual

/-- A declaration without its type parameters, as the later passes see it. -/
def declOf : GenericDecl → Decl
  | .func f => .func f.decl
  | .cls c => .cls { name := c.name, bases := c.bases, members := c.members.map memberOf }
  | .iface i => .iface i
  | .enum e => .enum e
  | .importDecl i => .importDecl i
  | .namespaceDecl name decls stmts => .namespaceDecl name (declsOf decls) stmts
  | .packageDecl name => .packageDecl name
  | .externDecl e => .externDecl e

/-- `declOf` for every declaration. -/
def declsOf : List GenericDecl → List Decl
  | [] => []
  | d :: ds => declOf d :: declsOf ds

end

def programOf (x : Expansion) : Program where
  decls := declsOf (x.generated ++ x.kept)
  stmts := x.stmts

/-! ## A run -/

structure Options where
  check : Bool := false
  emitIr : Bool := false
  emitObj : Bool := false
  compile : Bool := false
  output : String := ""

def Options.needsCode (opts : Options) : Bool := opts.emitIr || opts.emitObj || opts.compile

def Options.needsSema (opts : Options) : Bool := opts.check || opts.needsCode

/-- What a run writes.  The object that is linked is removed afterwards. -/
inductive Artifact
  | ir | object | linkedObject | executable
  deriving DecidableEq

/-- What `Codegen::run` reports, and whether it comes to its end. -/
structure Generated where
  errors : List String := []
  completed : Bool := true

/-- `Codegen::run` returns true. -/
def Generated.ok (g : Generated) : Bool := g.completed && g.errors.isEmpty

/-- What is outside the passes: generation of the analysed program, and whether an artifact
can be written. -/
structure Backend where
  generate : Program → Sema.State → Generated
  writes : Artifact → Bool

/-- What a run writes if all goes well, in order. -/
def Options.artifacts (opts : Options) : List Artifact :=
  (if opts.emitIr then [.ir] else []) ++ (if opts.emitObj then [.object] else []) ++
    if opts.compile then [.linkedObject, .executable] else []

/-- Whether an artifact is written; an object needs a name. -/
def Backend.emits (backend : Backend) (opts : Options) (a : Artifact) : Bool :=
  backend.writes a && (a != .object || opts.output != "")

/-- A run that has ended: what was reported, whether it ends with `EXIT_SUCCESS`, and what
it has written. -/
structure Run where
  reports : List String
  success : Bool
  artifacts : List Artifact := []
  deriving DecidableEq

/-- A run that ends with `EXIT_FAILURE` before it writes anything. -/
def Run.fail (reports : List String) : Run := ⟨reports, false, []⟩

/-- What is reported for the imported files that were read. -/
def importErrors (lib : Stdlib) (loaded : List String) : List String :=
  loaded.flatMap fun path => ((lib.files.lookup (stdlibFile path)).map (·.errors)).getD []

/-- The end of a run: artifacts are written until one cannot be. -/
def emitAll (backend : Backend) (opts : Options) (reports : List String) : Run :=
  let written := opts.artifacts.takeWhile (backend.emits opts)
  ⟨reports, written = opts.artifacts, written⟩

/-- A run from code generation on. -/
def generateAll (backend : Backend) (opts : Options) (prog : Program) (s : Sema.State)
    (reports : List String) : Run :=
  if (backend.generate prog s).ok then
    emitAll backend opts (reports ++ (backend.generate prog s).errors)
  else .fail (reports ++ (backend.generate prog s).errors)

/-- A run from analysis on. -/
def analyse (backend : Backend) (opts : Options) (prog : Program) (reports : List String) :
    Option Run :=
  if opts.needsSema then
    ((Sema.run prog).run .initial).map fun (prog', s) =>
      if s.errors ≠ [] then .fail (reports ++ s.errors)
      else if opts.needsCode then generateAll backend opts prog' s reports
      else ⟨reports, true, []⟩
  else some ⟨reports, true, []⟩

/-- A run from expansion on.  The driver gives up at the last report that it takes, and
nobody catches that here. -/
def expandAndAnalyse (backend : Backend) (opts : Options) (fuel : Nat) (prog : GenericProgram)
    (reports : List String) : Option Run :=
  (expandLimited fuel prog).bind fun x =>
    if kMaxErrors ≤ x.errors.length then some (.fail (reports ++ x.errors))
    else analyse backend opts (programOf x) (reports ++ x.errors)

/-- The program with the modules that it imports. -/
def mergedProgram (prog : GenericProgram) (decls : List PlacedDecl) : GenericProgram where
  decls := decls.map (·.decl)
  stmts := prog.stmts

/-- `main`, for a file that was read; `none` while a pass has not ended. -/
def compile (backend : Backend) (opts : Options) (lib : Stdlib) (fuel : Nat) (file : ParseResult) :
    Option Run :=
  match file.program with
  | none => some (.fail file.errors)
  | some prog =>
      (mergeStdlibImports lib fuel none prog []).bind fun merged =>
        expandAndAnalyse backend opts fuel (mergedProgram prog merged.1)
          (importErrors lib merged.2)

/-! ## Errors and the end of a run -/

/-- When an error was reported, the run fails and writes nothing. -/
def Run.Stops (run : Run) : Prop :=
  run.reports ≠ [] → run.success = false ∧ run.artifacts = []

/-- Every run of `main` that reports an error fails and writes nothing. -/
def ErrorsStop (backend : Backend) (opts : Options) (lib : Stdlib) (file : ParseResult) : Prop :=
  ∀ fuel run, compile backend opts lib fuel file = some run → run.Stops

/-- No file of a module that the program imports has errors. -/
def ImportsClean (lib : Stdlib) (prog : GenericProgram) : Prop :=
  ∀ path, Imported lib prog path →
    ∀ file, lib.files.lookup (stdlibFile path) = some file → file.errors = []

/-- Analysis finds an error, or generation does, or not even the first artifact can be
written. -/
def StopsLater (backend : Backend) (opts : Options) (prog : Program) : Prop :=
  opts.needsSema = true ∧
    ∀ prog' s, (Sema.run prog).run .initial = some (prog', s) → s.errors = [] →
      opts.needsCode = true ∧
        ((backend.generate prog' s).ok = true →
          ∀ a ∈ opts.artifacts.head?, backend.emits opts a = false)

theorem Run.stops_fail (reports : List String) : (Run.fail reports).Stops :=
  fun _ => ⟨rfl, rfl⟩

theorem artifacts_ne_nil {opts : Options} (needsCode : opts.needsCode = true) :
    opts.artifacts ≠ [] := by
  unfold Options.needsCode at needsCode
  unfold Options.artifacts
  cases emitIr : opts.emitIr <;> cases emitObj : opts.emitObj <;>
    cases isCompile : opts.compile <;> simp [emitIr, emitObj, isCompile] at needsCode ⊢

section Stops

variable {backend : Backend} {opts : Options} {reports : List String}

theorem stops_emitAll_iff (needsCode : opts.needsCode = true) :
    (emitAll backend opts reports).Stops ↔
      reports = [] ∨ ∀ a ∈ opts.artifacts.head?, backend.emits opts a = false := by
  have some := artifacts_ne_nil needsCode
  unfold emitAll Run.Stops
  cases artifacts : opts.artifacts with
  | nil => exact absurd artifacts some
  | cons a rest =>
    cases emits : backend.emits opts a <;> simp [emits]

theorem stops_generateAll_iff (needsCode : opts.needsCode = true) (prog : Program)
    (s : Sema.State) : (generateAll backend opts prog s reports).Stops ↔
      reports = [] ∨ ((backend.generate prog s).ok = true →
        ∀ a ∈ opts.artifacts.head?, backend.emits opts a = false) := by
  unfold generateAll
  cases ok : (backend.generate prog s).ok with
  | false =>
    rw [if_neg Bool.false_ne_true]
    simp [Run.stops_fail]
  | true =>
    have silent : (backend.generate prog s).errors = [] := by
      simp only [Generated.ok, Bool.and_eq_true, List.isEmpty_iff] at ok
      exact ok.2
    rw [silent, List.append_nil, if_pos rfl, stops_emitAll_iff needsCode]
    simp

theorem stops_analyse_iff (prog : Program) :
    (∀ run, analyse backend opts prog reports = some run → run.Stops) ↔
      reports = [] ∨ StopsLater backend opts prog := by
  unfold analyse StopsLater
  cases needsSema : opts.needsSema with
  | false => simp [Run.Stops]
  | true =>
    simp only [if_true, true_and, Option.map_eq_some_iff]
    constructor
    · intro stops
      by_cases silent : reports = []
      · exact .inl silent
      · right
        intro prog' s analysed clean
        have stops := stops _ ⟨(prog', s), analysed, rfl⟩
        simp only [clean, ne_eq, not_true_eq_false, if_false] at stops
        by_cases needsCode : opts.needsCode = true
        · rw [if_pos needsCode, stops_generateAll_iff needsCode] at stops
          exact ⟨needsCode, stops.resolve_left silent⟩
        · rw [if_neg needsCode] at stops
          cases (stops silent).1
    · rintro stops run ⟨⟨prog', s⟩, analysed, rfl⟩
      by_cases clean : s.errors = []
      · simp only [clean, ne_eq, not_true_eq_false, if_false]
        by_cases needsCode : opts.needsCode = true
        · rw [if_pos needsCode, stops_generateAll_iff needsCode]
          exact stops.imp_right fun later => (later prog' s analysed clean).2
        · rw [if_neg needsCode]
          rcases stops with silent | later
          · exact fun reported => absurd silent reported
          · exact absurd (later prog' s analysed clean).1 needsCode
      · simp only [ne_eq, clean, not_false_eq_true, if_true]
        exact Run.stops_fail _

end Stops

theorem importErrors_eq_nil_iff {lib : Stdlib} {fuel : Nat} {prog : GenericProgram}
    {merged : List PlacedDecl} {loaded : List String}
    (result : mergeStdlibImports lib fuel none prog [] = some (merged, loaded)) :
    importErrors lib loaded = [] ↔ ImportsClean lib prog := by
  unfold importErrors ImportsClean
  rw [List.flatMap_eq_nil_iff]
  constructor
  · intro clean path isImported file found
    have errors := clean path ((mem_loaded_iff result path).2 isImported)
    rwa [found] at errors
  · intro clean path isLoaded
    cases found : lib.files.lookup (stdlibFile path) with
    | none => rfl
    | some file => exact clean path ((mem_loaded_iff result path).1 isLoaded) file found

/-- `interface I {}  class Box<T: I> {}  class C {}  class Holder { Box<C> box; }`. -/
def boxOfC : ParseResult where
  result := some
    { decls :=
        [.iface { name := "I", members := [] },
          .cls { name := "Box", typeParams := ["T"],
                 typeBounds := [{ param := "T", interfaceName := "I" }], members := [] },
          .cls { name := "C", members := [] },
          .cls { name := "Holder",
                 members := [.field { type := { name := "Box", typeArgs := [{ name := "C" }] },
                                      name := "box" }] }]
      stmts := [] }

end Dux.Driver
