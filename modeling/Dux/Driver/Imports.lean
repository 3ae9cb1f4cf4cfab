import Dux.Generics.Expand
import Dux.Logic.Visits

/-!
# Merging imported modules

Before analysis, `merge_stdlib_imports` of `src/main.cpp` loads the modules of the
standard library that a program imports, those that they import and so on, and puts
their declarations before those of the program.  A module whose name was met before is
passed over.
-/

namespace Dux.Driver

open Generics (GenericDecl GenericProgram)
open Logic (Below AcyclicBelow Apart Sorted Visit search searchAll)

/-- What `Driver::parse` makes of a file: the errors it reports, and the program it leaves. -/
structure ParseResult where
  errors : List String := []
  result : Option GenericProgram

/-- The program of a file, if `Driver::parse` returns 0 for it. -/
def ParseResult.program (file : ParseResult) : Option GenericProgram :=
  if file.errors = [] then file.result else none

/-- The files of the standard library under their names in its directory.  Without a
directory there are none. -/
structure Stdlib where
  files : List (String × ParseResult)

/-- The file of a module: `io.path` is in `io/path.dux`. -/
def stdlibFile (path : String) : String :=
  String.ofList (path.toList.map fun c => if c = '.' then '/' else c) ++ ".dux"

/-- A module that exists and could be parsed. -/
def Stdlib.parse (lib : Stdlib) (path : String) : Option GenericProgram :=
  (lib.files.lookup (stdlibFile path)).bind (·.program)

/-- A declaration with the module that it was read from, `none` for the program itself. -/
structure PlacedDecl where
  origin : Option String
  decl : GenericDecl

def placed (origin : Option String) (prog : GenericProgram) : List PlacedDecl :=
  prog.decls.map (PlacedDecl.mk origin)

/-- The modules that declarations import, in order. -/
def importPaths (decls : List GenericDecl) : List String :=
  decls.filterMap fun
    | .importDecl imp => if imp.path = "" then none else some imp.path
    | _ => none

/-- The loop of `merge_stdlib_imports` over the imports, with `merge` for the imports of a
module that was read. -/
def mergePaths (lib : Stdlib)
    (merge : String → GenericProgram → List String → Option (List PlacedDecl × List String)) :
    List String → List PlacedDecl → List String → Option (List PlacedDecl × List String)
  | [], decls, loaded => some (decls, loaded)
  | path :: paths, decls, loaded =>
      if path ∈ loaded then mergePaths lib merge paths decls loaded
      else
        match lib.parse path with
        | none => mergePaths lib merge paths decls (path :: loaded)
        | some sub =>
            (merge path sub (path :: loaded)).bind fun merged =>
              mergePaths lib merge paths (merged.1 ++ decls) merged.2

/-- `merge_stdlib_imports`, at most that many modules deep. -/
def mergeStdlibImports (lib : Stdlib) :
    Nat → Option String → GenericProgram → List String → Option (List PlacedDecl × List String)
  | 0, _, _, _ => none
  | n + 1, origin, prog, loaded =>
      mergePaths lib (fun path sub loaded => mergeStdlibImports lib n (some path) sub loaded)
        (importPaths prog.decls) (placed origin prog) loaded

/-! ## The import graph -/

section Graph

variable (lib : Stdlib)

def Stdlib.imports (path : String) : List String :=
  match lib.parse path with
  | none => []
  | some sub => importPaths sub.decls

def Stdlib.declsOf (path : String) : List PlacedDecl :=
  match lib.parse path with
  | none => []
  | some sub => placed (some path) sub

/-- A module that a program imports, directly or through others. -/
def Imported (prog : GenericProgram) (path : String) : Prop :=
  Below lib.imports (importPaths prog.decls) path

/-- No module that a program imports imports itself, directly or through others. -/
def AcyclicImports (prog : GenericProgram) : Prop :=
  AcyclicBelow lib.imports (importPaths prog.decls)

end Graph

/-- No declaration from `origin` stands behind one from `origin'`. -/
def InOrder (merged : List PlacedDecl) (origin origin' : Option String) : Prop :=
  merged.Pairwise fun d d' => d.origin = origin' → d'.origin ≠ origin

/-- Every imported module is there once, and if there is no cycle, behind all that it
imports; the program is behind all modules. -/
structure Merged (lib : Stdlib) (prog : GenericProgram) (merged : List PlacedDecl) : Prop where
  program : merged.filter (·.origin = none) = placed none prog
  once : ∀ path, Imported lib prog path →
    merged.filter (·.origin = some path) = lib.declsOf path
  only : ∀ d ∈ merged, ∀ path, d.origin = some path → Imported lib prog path
  last : ∀ path, InOrder merged (some path) none
  sorted : AcyclicImports lib prog → ∀ path, Imported lib prog path →
    ∀ path' ∈ lib.imports path, InOrder merged (some path') (some path)

/-- Merging ends, with everything in place. -/
def MergesInOrder (lib : Stdlib) (prog : GenericProgram) : Prop :=
  ∃ fuel, ∀ n ≥ fuel, ∃ merged loaded,
    mergeStdlibImports lib n none prog [] = some (merged, loaded) ∧ Merged lib prog merged

/-! ## Merging as a visit -/

section Merge

variable {lib : Stdlib}

theorem mergeStdlibImports_of_search {n : Nat} {origin : Option String} {prog : GenericProgram}
    {loaded out loaded' : List String}
    (found : search lib.imports n (importPaths prog.decls) loaded = some (out, loaded')) :
    mergeStdlibImports lib n origin prog loaded =
      some (out.flatMap lib.declsOf ++ placed origin prog, loaded') := by
  induction n generalizing origin prog loaded out loaded' with
  | zero => cases found
  | succ n ihDeep =>
    rw [mergeStdlibImports]
    rw [search] at found
    generalize placed origin prog = decls
    generalize importPaths prog.decls = paths at found ⊢
    induction paths generalizing loaded out decls with
    | nil =>
      cases found
      rfl
    | cons path paths ih =>
      rw [searchAll] at found
      rw [mergePaths]
      by_cases isLoaded : path ∈ loaded
      · rw [if_pos isLoaded] at found ⊢
        exact ih decls found
      · rw [if_neg isLoaded] at found ⊢
        obtain ⟨⟨below, loaded₁⟩, inside, found⟩ := Option.bind_eq_some_iff.1 found
        obtain ⟨⟨out', loaded₂⟩, rest, result⟩ := Option.map_eq_some_iff.1 found
        cases result
        rw [List.flatMap_append, List.flatMap_append, List.flatMap_singleton]
        cases parsed : lib.parse path with
        | none =>
          rw [Stdlib.imports, parsed] at inside
          have nothing : below = [] ∧ loaded₁ = path :: loaded := by
            cases n with
            | zero => cases inside
            | succ n =>
              cases inside
              exact ⟨rfl, rfl⟩
          obtain ⟨rfl, rfl⟩ := nothing
          simp only [ih decls rest, Stdlib.declsOf, parsed, List.flatMap_nil, List.append_nil]
        | some sub =>
          rw [Stdlib.imports, parsed] at inside
          simp only [ihDeep inside, Option.bind_some, ih _ rest, Stdlib.declsOf, parsed,
            List.append_assoc]

theorem visit_of_merge {n : Nat} {origin : Option String} {prog : GenericProgram}
    {loaded loaded' : List String} {merged : List PlacedDecl}
    (result : mergeStdlibImports lib n origin prog loaded = some (merged, loaded')) :
    ∃ out, Visit lib.imports (importPaths prog.decls) loaded out loaded' := by
  induction n generalizing origin prog loaded merged loaded' with
  | zero => cases result
  | succ n ihDeep =>
    rw [mergeStdlibImports] at result
    generalize placed origin prog = decls at result
    generalize importPaths prog.decls = paths at result
    induction paths generalizing loaded decls with
    | nil =>
      cases result
      exact ⟨[], .nil _⟩
    | cons path paths ih =>
      rw [mergePaths] at result
      by_cases isLoaded : path ∈ loaded
      · rw [if_pos isLoaded] at result
        obtain ⟨out, rest⟩ := ih decls result
        exact ⟨out, .skip isLoaded rest⟩
      · rw [if_neg isLoaded] at result
        cases parsed : lib.parse path with
        | none =>
          rw [parsed] at result
          obtain ⟨out, rest⟩ := ih decls result
          have inside : Visit lib.imports (lib.imports path) (path :: loaded) []
              (path :: loaded) := by
            rw [Stdlib.imports, parsed]
            exact .nil _
          exact ⟨_, .enter isLoaded inside rest⟩
        | some sub =>
          rw [parsed] at result
          obtain ⟨⟨below, loaded₁⟩, inside, result⟩ := Option.bind_eq_some_iff.1 result
          obtain ⟨outInside, visitInside⟩ := ihDeep inside
          obtain ⟨out, rest⟩ := ih _ result
          have inside : Visit lib.imports (lib.imports path) (path :: loaded) outInside
              loaded₁ := by
            rw [Stdlib.imports, parsed]
            exact visitInside
          exact ⟨_, .enter isLoaded inside rest⟩

theorem mem_loaded_iff {n : Nat} {prog : GenericProgram} {loaded : List String}
    {merged : List PlacedDecl}
    (result : mergeStdlibImports lib n none prog [] = some (merged, loaded)) (path : String) :
    path ∈ loaded ↔ Imported lib prog path := by
  obtain ⟨out, visit⟩ := visit_of_merge result
  rw [visit.mem_seen path, visit.mem_iff_below]
  simp [Imported]

theorem origin_of_mem_declsOf {path : String} {d : PlacedDecl} (member : d ∈ lib.declsOf path) :
    d.origin = some path := by
  unfold Stdlib.declsOf at member
  split at member
  · cases member
  · obtain ⟨decl, -, rfl⟩ := List.mem_map.1 member
    rfl

theorem origin_of_mem_placed {prog : GenericProgram} {d : PlacedDecl}
    (member : d ∈ placed none prog) : d.origin = none := by
  obtain ⟨decl, -, rfl⟩ := List.mem_map.1 member
  rfl

theorem declsOf_ne_nil {path path' : String} (edge : path' ∈ lib.imports path) :
    lib.declsOf path ≠ [] := by
  unfold Stdlib.imports at edge
  unfold Stdlib.declsOf
  split at edge
  · cases edge
  · next sub parsed =>
    obtain ⟨decl, member, -⟩ := List.mem_filterMap.1 edge
    exact List.ne_nil_of_mem (List.mem_map_of_mem member)

def importedNames (lib : Stdlib) (prog : GenericProgram) : List String :=
  importPaths prog.decls ++
    (lib.files.filterMap (·.2.program)).flatMap fun sub => importPaths sub.decls

theorem imports_subset (prog : GenericProgram) (path : String) :
    lib.imports path ⊆ importedNames lib prog := by
  intro path' edge
  unfold Stdlib.imports at edge
  split at edge
  · cases edge
  · next sub parsed =>
    obtain ⟨file, found, isProgram⟩ := Option.bind_eq_some_iff.1 parsed
    obtain ⟨before, after, isFile, -⟩ := List.lookup_eq_some_iff.1 found
    apply List.mem_append_right
    rw [List.mem_flatMap]
    exact ⟨sub, by simp [isFile, isProgram], edge⟩

theorem exists_merge (prog : GenericProgram) {n : Nat}
    (enough : (importedNames lib prog).length < n) :
    ∃ out loaded, Visit lib.imports (importPaths prog.decls) [] out loaded ∧
      mergeStdlibImports lib n none prog [] =
        some (out.flatMap lib.declsOf ++ placed none prog, loaded) := by
  have fuel : ((importedNames lib prog).toFinset \ ([] : List String).toFinset).card < n := by
    apply Nat.lt_of_le_of_lt _ enough
    rw [List.toFinset_nil, Finset.sdiff_empty]
    exact List.toFinset_card_le _
  obtain ⟨out, loaded, found⟩ := Logic.exists_search (fun path _ => imports_subset prog path)
    (List.subset_append_left _ _) fuel
  exact ⟨out, loaded, Logic.visit_of_search found, mergeStdlibImports_of_search found⟩

/-! ## The merged declarations -/

theorem filter_declsOf (path path' : String) : (lib.declsOf path').filter (·.origin = some path) =
    if path' = path then lib.declsOf path' else [] := by
  split
  · next same =>
    rw [List.filter_eq_self]
    intro d member
    simp [origin_of_mem_declsOf member, same]
  · next differ =>
    rw [List.filter_eq_nil_iff]
    intro d member
    simp [origin_of_mem_declsOf member, differ]

theorem filter_placed (prog : GenericProgram) (path : String) :
    (placed none prog).filter (·.origin = some path) = [] := by
  rw [List.filter_eq_nil_iff]
  intro d member
  simp [origin_of_mem_placed member]

theorem filter_flatMap_declsOf {out : List String} (distinct : out.Nodup) {path : String}
    (member : path ∈ out) :
    (out.flatMap lib.declsOf).filter (·.origin = some path) = lib.declsOf path := by
  obtain ⟨pre, post, rfl⟩ := List.append_of_mem member
  have others {paths : List String} (absent : path ∉ paths) :
      (paths.flatMap lib.declsOf).filter (·.origin = some path) = [] := by
    rw [List.filter_eq_nil_iff]
    intro d inside
    obtain ⟨path', member', isDecl⟩ := List.mem_flatMap.1 inside
    rw [origin_of_mem_declsOf isDecl]
    simp only [Option.some.injEq, decide_eq_true_eq]
    rintro rfl
    exact absent member'
  rw [List.nodup_middle, List.nodup_cons, List.mem_append, not_or] at distinct
  rw [List.flatMap_append, List.flatMap_cons, List.filter_append, List.filter_append,
    others distinct.1.1, others distinct.1.2, filter_declsOf, if_pos rfl, List.nil_append,
    List.append_nil]

theorem inOrder_iff {out : List String} {prog : GenericProgram} {path path' : String}
    (differ : path' ≠ path) (nonempty : lib.declsOf path ≠ []) :
    InOrder (out.flatMap lib.declsOf ++ placed none prog) (some path') (some path) ↔
      ∀ pre post, out = pre ++ path :: post → path' ∈ post → lib.declsOf path' = [] := by
  constructor
  · rintro inOrder pre post rfl later
    by_contra nonempty'
    obtain ⟨d, isDecl⟩ := List.exists_mem_of_ne_nil _ nonempty
    obtain ⟨d', isDecl'⟩ := List.exists_mem_of_ne_nil _ nonempty'
    have pairs := (List.pairwise_append.1 inOrder).1
    rw [List.flatMap_append, List.flatMap_cons, List.pairwise_append, List.pairwise_append] at pairs
    exact pairs.2.1.2.2 d isDecl d' (List.mem_flatMap.2 ⟨path', later, isDecl'⟩)
      (origin_of_mem_declsOf isDecl) (origin_of_mem_declsOf isDecl')
  · intro early
    unfold InOrder
    rw [List.pairwise_append, List.pairwise_flatMap]
    constructor
    · constructor
      · intro module _
        apply List.pairwise_of_forall_mem_list
        intro d isDecl d' isDecl' isHere
        rw [origin_of_mem_declsOf isDecl] at isHere
        rw [origin_of_mem_declsOf isDecl', isHere]
        simpa using differ.symm
      · rw [List.pairwise_iff_forall_sublist]
        intro module module' sub d isDecl d' isDecl' isHere isThere
        obtain rfl : module = path := by simpa [origin_of_mem_declsOf isDecl] using isHere
        obtain rfl : module' = path' := by simpa [origin_of_mem_declsOf isDecl'] using isThere
        obtain ⟨front, back, rfl, inFront, inBack⟩ := List.cons_sublist_iff.1 sub
        obtain ⟨pre, post, rfl⟩ := List.append_of_mem inFront
        have none := early pre (post ++ back) (by simp)
          (List.mem_append_right _ (List.singleton_sublist.1 inBack))
        rw [none] at isDecl'
        cases isDecl'
    · constructor
      · apply List.pairwise_of_forall_mem_list
        intro d isDecl d' _ isHere
        rw [origin_of_mem_placed isDecl] at isHere
        cases isHere
      · intro d _ d' isDecl' _
        rw [origin_of_mem_placed isDecl']
        exact (Option.some_ne_none path').symm

/-- The modules of a visit with the program behind them are merged in place, exactly if the
visit is sorted. -/
theorem merged_iff {prog : GenericProgram} {out loaded : List String}
    (visit : Visit lib.imports (importPaths prog.decls) [] out loaded) :
    Merged lib prog (out.flatMap lib.declsOf ++ placed none prog) ↔
      (AcyclicImports lib prog → Sorted lib.imports (lib.declsOf · ≠ []) out) := by
  have entered (path : String) : path ∈ out ↔ Imported lib prog path := visit.mem_iff_below path
  have split {pre post : List String} {path : String} (isOut : out = pre ++ path :: post)
      {path' : String} (edge : path' ∈ lib.imports path) (differ : path' ≠ path) :
      path' ∈ pre ∨ path' ∈ post := by
    have isImported : Imported lib prog path := (entered path).1 (by simp [isOut])
    have member := (entered path').2 (isImported.tail (.single edge))
    rw [isOut] at member
    simpa [differ] using member
  have noLoop (acyclic : AcyclicImports lib prog) {path : String}
      (isImported : Imported lib prog path) {path' : String}
      (edge : path' ∈ lib.imports path) : path' ≠ path := by
    rintro rfl
    exact acyclic path' isImported (.single edge)
  constructor
  · intro merged acyclic pre path post isOut path' edge nonempty
    have isImported : Imported lib prog path := (entered path).1 (by simp [isOut])
    have differ := noLoop acyclic isImported edge
    have early := (inOrder_iff differ (declsOf_ne_nil edge)).1
      (merged.sorted acyclic path isImported path' edge) pre post isOut
    rcases split isOut edge differ with isPre | isPost
    · exact isPre
    · exact absurd (early isPost) nonempty
  · intro sorted
    constructor
    · rw [List.filter_append, List.filter_eq_nil_iff.2, List.nil_append, List.filter_eq_self]
      · intro d member
        simp [origin_of_mem_placed member]
      · intro d member
        obtain ⟨path, -, isDecl⟩ := List.mem_flatMap.1 member
        simp [origin_of_mem_declsOf isDecl]
    · intro path isImported
      rw [List.filter_append, filter_placed, List.append_nil]
      exact filter_flatMap_declsOf visit.nodup ((entered path).2 isImported)
    · intro d member path isModule
      rcases List.mem_append.1 member with isDecl | isProgram
      · obtain ⟨path', member', isDecl⟩ := List.mem_flatMap.1 isDecl
        rw [origin_of_mem_declsOf isDecl] at isModule
        cases isModule
        exact (entered _).1 member'
      · rw [origin_of_mem_placed isProgram] at isModule
        cases isModule
    · intro path
      unfold InOrder
      rw [List.pairwise_append]
      constructor
      · apply List.pairwise_of_forall_mem_list
        intro d member d' _ isProgram
        obtain ⟨path', -, isDecl⟩ := List.mem_flatMap.1 member
        rw [origin_of_mem_declsOf isDecl] at isProgram
        cases isProgram
      · constructor
        · apply List.pairwise_of_forall_mem_list
          intro d _ d' member _
          rw [origin_of_mem_placed member]
          exact (Option.some_ne_none path).symm
        · intro d _ d' member _
          rw [origin_of_mem_placed member]
          exact (Option.some_ne_none path).symm
    · intro acyclic path isImported path' edge
      have differ := noLoop acyclic isImported edge
      rw [inOrder_iff differ (declsOf_ne_nil edge)]
      intro pre post isOut isPost
      by_contra nonempty
      have isPre := sorted acyclic pre path post isOut path' edge nonempty
      have distinct := visit.nodup
      rw [isOut, List.nodup_append] at distinct
      exact distinct.2.2 path' isPre path' (List.mem_cons_of_mem path isPost) rfl

/-- Merging puts everything in place exactly if a graph without cycles has this: every
import, of the program and of each module, is reached already by the imports written
before it, or reaches no module with declarations that they reach. -/
theorem mergesInOrder_iff (lib : Stdlib) (prog : GenericProgram) :
    MergesInOrder lib prog ↔
      (AcyclicImports lib prog →
        Apart lib.imports (lib.declsOf · ≠ []) (importPaths prog.decls) ∧
          ∀ path, Imported lib prog path →
            Apart lib.imports (lib.declsOf · ≠ []) (lib.imports path)) := by
  have source : ∀ path path', Logic.Edge lib.imports path path' → lib.declsOf path ≠ [] :=
    fun _ _ edge => declsOf_ne_nil edge
  constructor
  · rintro ⟨fuel, merges⟩ acyclic
    obtain ⟨out, loaded, visit, result⟩ :=
      exists_merge prog (Nat.lt_of_lt_of_le (Nat.lt_succ_self _) (Nat.le_max_right fuel _))
    obtain ⟨merged, loaded', result', isMerged⟩ := merges _ (Nat.le_max_left fuel _)
    rw [result] at result'
    cases result'
    rw [merged_iff visit] at isMerged
    exact (visit.sorted_iff source acyclic).1 (isMerged acyclic)
  · intro apart
    refine ⟨(importedNames lib prog).length + 1, ?_⟩
    intro n enough
    obtain ⟨out, loaded, visit, result⟩ := exists_merge prog (Nat.lt_of_succ_le enough)
    refine ⟨_, loaded, result, (merged_iff visit).2 ?_⟩
    intro acyclic
    exact (visit.sorted_iff source acyclic).2 (apart acyclic)

end Merge

/-- `a.dux` declares a class and `b.dux` imports `a`. -/
def twoModules : Stdlib where
  files :=
    [("a.dux", { result := some { decls := [.cls { name := "A", members := [] }], stmts := [] } }),
      ("b.dux", { result := some { decls := [.importDecl { path := "a" }], stmts := [] } })]

/-- `import a; import b;`. -/
def bothImports : GenericProgram where
  decls := [.importDecl { path := "a" }, .importDecl { path := "b" }]
  stmts := []

theorem acyclic_bothImports : AcyclicImports twoModules bothImports := by
  have leaf : twoModules.imports "a" = [] := rfl
  have toA {path path' : String} (edge : Logic.Edge twoModules.imports path path') :
      path' = "a" := by
    have known := imports_subset { decls := [], stmts := [] } path edge
    exact List.mem_singleton.1 known
  rintro path - cycle
  obtain ⟨_, _, last⟩ := Relation.TransGen.tail'_iff.1 cycle
  rw [toA last] at cycle
  obtain ⟨_, first, _⟩ := Relation.TransGen.head'_iff.1 cycle
  rw [Logic.Edge, leaf] at first
  cases first

/-- A module that is imported before one that imports it is put behind that one. -/
theorem not_mergesInOrder : ¬∀ lib prog, MergesInOrder lib prog := by
  intro always
  obtain ⟨fuel, merges⟩ := always twoModules bothImports
  obtain ⟨merged, loaded, result, isMerged⟩ := merges (fuel + 3) (Nat.le_add_right fuel 3)
  have evaluates : mergeStdlibImports twoModules (fuel + 3) none bothImports [] =
      some ([⟨some "b", .importDecl { path := "a" }⟩,
        ⟨some "a", .cls { name := "A", members := [] }⟩, ⟨none, .importDecl { path := "a" }⟩,
        ⟨none, .importDecl { path := "b" }⟩], ["b", "a"]) := rfl
  rw [evaluates] at result
  cases result
  have inOrder := isMerged.sorted acyclic_bothImports "b"
    ⟨"b", List.mem_cons_of_mem _ List.mem_cons_self, .refl⟩ "a" List.mem_cons_self
  simp [InOrder] at inOrder

end Dux.Driver
