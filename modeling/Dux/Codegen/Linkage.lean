import Dux.Codegen.Namespaces
import Dux.Sema.Check
import Mathlib.Data.List.Find

/-!
# Linkage names

A function of a program is found by its name in the module: the name of a
namespace or class and that of the function, joined by underscores (`mangle`,
`mangle_class_member` of `src/codegen/codegen.cpp`).  Whoever declares a name that
is there already gets the function that is there.  At the end `emit_main_wrapper`
looks for the function to start the program with, again by its name.
-/

namespace Dux.Codegen

open Logic (keys internAll)

/-! ## Requests -/

/-- The functions that `declare_class_methods` asks for. -/
def memberRequests (cls : String) : List ClassMember → List (String × Declared)
  | [] => []
  | .field _ :: ms => memberRequests cls ms
  | .func f :: ms =>
      if isTrivialDtor f then memberRequests cls ms
      else (mangleClassMember cls f, .member cls f) :: memberRequests cls ms

mutual

/-- The functions that `declare_functions` asks for, one declaration. -/
def declRequests (namePrefix : String) : Decl → List (String × Declared)
  | .func f => if f.isCtor || f.isDtor then [] else [(mangle namePrefix f.name, .func f)]
  | .cls c => memberRequests c.name c.members
  | .namespaceDecl name decls _ => declsRequests name decls
  | .externDecl e => [(e.name, .external e)]
  | .iface _ | .enum _ | .importDecl _ | .packageDecl _ => []

/-- The functions that `declare_functions` asks for. -/
def declsRequests (namePrefix : String) : List Decl → List (String × Declared)
  | [] => []
  | d :: ds => declRequests namePrefix d ++ declsRequests namePrefix ds

end

/-- The functions of the runtime that `process_import` asks for. -/
def stdlibRequests (imp : ImportDecl) : List (String × Declared) :=
  if imp.path = "" then []
  else ((stdlibTable.lookup ((imp.path.splitOn ".").getLastD imp.path)).getD []).map fun fn =>
    (fn.2.1, .runtime fn.2.1 fn.2.2)

/-- `stdlibRequests` for the imports among the declarations. -/
def importRequests : Decl → List (String × Declared)
  | .importDecl imp => stdlibRequests imp
  | .func _ | .cls _ | .iface _ | .enum _ | .namespaceDecl .. | .packageDecl _
  | .externDecl _ => []

/-- The functions that a step of generation asks for. -/
def stepRequests : ModuleStep → List (String × Declared)
  | .runtime symbol params => [(symbol, .runtime symbol params)]
  | .enter name decls => declsRequests name decls

def requestsOf (prog : Program) (ops : List ModuleStep) : List (String × Declared) :=
  prog.decls.flatMap importRequests ++ declsRequests "" prog.decls ++ ops.flatMap stepRequests

def Symbols.declareAll (symbols : Symbols) (requests : List (String × Declared)) : Symbols :=
  requests.foldl (fun s r => s.declare r.1 r.2) symbols

theorem declareAll_append (symbols : Symbols) (left right : List (String × Declared)) :
    symbols.declareAll (left ++ right) = (symbols.declareAll left).declareAll right :=
  List.foldl_append

theorem declareClassMethods_eq (cls : String) (ms : List ClassMember) (symbols : Symbols) :
    declareClassMethods symbols cls ms = symbols.declareAll (memberRequests cls ms) := by
  induction ms generalizing symbols with
  | nil => rfl
  | cons member ms ih =>
    cases member with
    | field f => exact ih symbols
    | func f =>
      rw [declareClassMethods, memberRequests]
      split
      · exact ih symbols
      · exact ih (symbols.declare (mangleClassMember cls f) (.member cls f))

mutual

theorem declareDecl_eq (namePrefix : String) : ∀ (d : Decl) (symbols : Symbols),
    Codegen.declareDecl symbols namePrefix d = symbols.declareAll (declRequests namePrefix d)
  | .func f, symbols => by
    rw [Codegen.declareDecl, declRequests]
    split <;> rfl
  | .cls c, symbols => declareClassMethods_eq c.name c.members symbols
  | .namespaceDecl name decls _, symbols => declareFunctions_eq name decls symbols
  | .externDecl _, _ | .iface _, _ | .enum _, _ | .importDecl _, _ | .packageDecl _, _ => rfl

theorem declareFunctions_eq (namePrefix : String) : ∀ (ds : List Decl) (symbols : Symbols),
    declareFunctions symbols namePrefix ds = symbols.declareAll (declsRequests namePrefix ds)
  | [], _ => rfl
  | d :: ds, symbols => by
    rw [declareFunctions, declareDecl_eq namePrefix d, declareFunctions_eq namePrefix ds,
      declsRequests, declareAll_append]

end

theorem functions_processImport (m : Module) (imp : ImportDecl) :
    (m.processImport imp).functions = m.functions.declareAll (stdlibRequests imp) := by
  unfold Module.processImport stdlibRequests
  by_cases empty : imp.path = ""
  · rw [if_pos empty, if_pos empty]
    rfl
  · rw [if_neg empty, if_neg empty]
    cases found : stdlibTable.lookup ((imp.path.splitOn ".").getLastD imp.path) with
    | none =>
      simp only [found]
      cases imp.globalScope <;> rfl
    | some fns => simp only [found, Option.getD_some, Symbols.declareAll, List.foldl_map]

theorem functions_processImports (ds : List Decl) (m : Module) :
    (m.processImports ds).functions = m.functions.declareAll (ds.flatMap importRequests) := by
  induction ds generalizing m with
  | nil => rfl
  | cons d ds ih =>
    rw [List.flatMap_cons, declareAll_append]
    cases d with
    | importDecl imp =>
      rw [importRequests, ← functions_processImport]
      exact ih _
    | _ => exact ih m

theorem functions_step (m : LinkedModule) (op : ModuleStep) :
    (m.step op).functions = m.functions.declareAll (stepRequests op) := by
  cases op with
  | runtime symbol params => rfl
  | enter name decls =>
    show (m.enter name decls).toModule.functions = _
    rw [LinkedModule.toModule_enter]
    exact declareFunctions_eq name decls m.functions

theorem functions_after (ops : List ModuleStep) (m : LinkedModule) :
    (m.after ops).functions = m.functions.declareAll (ops.flatMap stepRequests) := by
  induction ops generalizing m with
  | nil => rfl
  | cons op ops ih =>
    rw [List.flatMap_cons, declareAll_append, ← functions_step]
    exact ih (m.step op)

/-- The module that generating a program ends with. -/
def finalModule (prog : Program) (ops : List ModuleStep) : Module :=
  ((linkedModuleOf prog).after ops).toModule

theorem functions_finalModule (prog : Program) (ops : List ModuleStep) :
    (finalModule prog ops).functions = Symbols.declareAll [] (requestsOf prog ops) := by
  have start : (linkedModuleOf prog).functions =
      Symbols.declareAll [] (prog.decls.flatMap importRequests ++ declsRequests "" prog.decls) := by
    rw [toModule_linkedModuleOf, declareAll_append, ← functions_processImports prog.decls {}]
    exact declareFunctions_eq "" prog.decls _
  rw [requestsOf, declareAll_append, ← start]
  exact functions_after ops _

theorem reverse_declareAll (requests : List (String × Declared)) (symbols : Symbols) :
    (symbols.declareAll requests).reverse = internAll symbols.reverse requests := by
  induction requests generalizing symbols with
  | nil => rfl
  | cons r rest ih =>
    have step : (symbols.declare r.1 r.2).reverse = Logic.intern symbols.reverse r := by
      unfold Symbols.declare
      cases taken : symbols.lookup r.1 with
      | none =>
        rw [Logic.intern_of_notMem, List.reverse_cons]
        intro known
        rw [keys, List.map_reverse, List.mem_reverse] at known
        obtain ⟨entry, member, isKey⟩ := List.mem_map.1 known
        simpa [isKey] using List.lookup_eq_none_iff.1 taken entry member
      | some d =>
        rw [Logic.intern_of_mem]
        obtain ⟨before, after, isTable, -⟩ := List.lookup_eq_some_iff.1 taken
        simp [keys, isTable]
    rw [Logic.internAll_cons, ← step]
    exact ih _

/-! ## Functions of the module -/

def Module.llvmFunction (m : Module) (symbol : String) : Option Nat :=
  (keys m.functions.reverse).idxOf? symbol

def endsInMain (symbol : String) : Bool := "__main".toList.isSuffixOf symbol.toList

/-- The function that `emit_main_wrapper` finds. -/
def Module.userMain (m : Module) : Option String :=
  match m.functions.lookup "main" with
  | some _ => some "main"
  | none =>
      (m.functions.reverse.find? fun fn => endsInMain fn.1 && fn.2.argSize = 0).map (·.1)

/-! ## What is declared -/

/-- A function of the program itself, not one of C. -/
def Declared.isOwn : Declared → Bool
  | .func _ | .member _ _ => true
  | .external _ | .runtime _ _ => false

/-- The names of the functions that the program declares, one for each declaration. -/
def ownSymbols (prog : Program) : List String :=
  keys ((declsRequests "" prog.decls).filter (·.2.isOwn))

/-- The names of the functions of C that are used: those that the program declares,
those of the modules it imports, and those that its bodies call. -/
def foreignSymbols (prog : Program) (ops : List ModuleStep) : List String :=
  keys ((requestsOf prog ops).filter (!·.2.isOwn))

def isMain (f : FunctionDecl) : Bool := !f.isCtor && !f.isDtor && f.name = "main"

/-- A main function that the declarations themselves hold. -/
def hasMain (decls : List Decl) : Bool :=
  decls.any fun
    | .func f => isMain f
    | _ => false

/-- The main functions of namespaces, which have no parameters. -/
def namespaceMains (decls : List Decl) : List String :=
  (namespacesOf decls).flatMap fun (name, inner) => inner.filterMap fun
    | .func f => if isMain f ∧ f.params = [] then some (mangle name f.name) else none
    | _ => none

/-- The main functions that a program can start with. -/
def mainsOf (prog : Program) : List String :=
  if hasMain prog.decls then ["main"] else namespaceMains prog.decls

/-- Every declaration has a function of its own, which is none of C's, and the program
starts with a main function if there is one. -/
structure Separate (prog : Program) (ops : List ModuleStep) : Prop where
  present : ∀ s ∈ ownSymbols prog, (finalModule prog ops).llvmFunction s ≠ none
  own : ((ownSymbols prog).map (finalModule prog ops).llvmFunction).Nodup
  apart : ∀ s ∈ ownSymbols prog, ∀ n ∈ foreignSymbols prog ops,
    (finalModule prog ops).llvmFunction s ≠ (finalModule prog ops).llvmFunction n
  foreign : ∀ n ∈ foreignSymbols prog ops, ∀ n' ∈ foreignSymbols prog ops, n ≠ n' →
    (finalModule prog ops).llvmFunction n ≠ (finalModule prog ops).llvmFunction n'
  starts : ∀ s, (finalModule prog ops).userMain = some s → s ∈ mainsOf prog
  found : mainsOf prog ≠ [] → (finalModule prog ops).userMain ≠ none

def firstMain (requests : List (String × Declared)) : Option String :=
  if "main" ∈ keys requests then some "main"
  else (keys requests).find? fun s =>
    endsInMain s && (requests.lookup s).any (·.argSize = 0)

/-- The joined names differ from each other and from the names of C, and the first that
can be taken for a main function is one. -/
structure DistinctNames (prog : Program) (ops : List ModuleStep) : Prop where
  own : (ownSymbols prog).Nodup
  apart : ∀ s ∈ ownSymbols prog, s ∉ foreignSymbols prog ops
  starts : hasMain prog.decls = false →
    ∀ s, firstMain (requestsOf prog ops) = some s → s ∈ namespaceMains prog.decls

/-! ## Names and functions -/

section Names

variable {prog : Program} {ops : List ModuleStep}

theorem keys_finalModule : keys (finalModule prog ops).functions.reverse =
    keys (internAll [] (requestsOf prog ops)) := by
  rw [functions_finalModule, reverse_declareAll]
  rfl

theorem llvmFunction_eq_none_iff (symbol : String) :
    (finalModule prog ops).llvmFunction symbol = none ↔ symbol ∉ keys (requestsOf prog ops) := by
  rw [Module.llvmFunction, List.idxOf?_eq_none_iff, keys_finalModule, Logic.mem_keys_internAll]
  simp

theorem llvmFunction_inj {s s' : String} (known : s ∈ keys (requestsOf prog ops))
    (same : (finalModule prog ops).llvmFunction s = (finalModule prog ops).llvmFunction s') :
    s = s' := by
  have present : (finalModule prog ops).llvmFunction s ≠ none :=
    fun none => (llvmFunction_eq_none_iff s).1 none known
  obtain ⟨i, found⟩ := Option.ne_none_iff_exists'.1 present
  obtain ⟨inside, isName, -⟩ := List.idxOf?_eq_some_iff.1 found
  obtain ⟨inside', isName', -⟩ := List.idxOf?_eq_some_iff.1 (same.symm.trans found)
  exact isName.symm.trans isName'

theorem ownSymbols_subset : ownSymbols prog ⊆ keys (requestsOf prog ops) := by
  intro s member
  obtain ⟨r, own, rfl⟩ := List.mem_map.1 member
  apply List.mem_map_of_mem
  exact List.mem_append_left _ (List.mem_append_right _ (List.mem_filter.1 own).1)

theorem foreignSymbols_subset : foreignSymbols prog ops ⊆ keys (requestsOf prog ops) :=
  Logic.keys_filter_subset

theorem userMain_finalModule :
    (finalModule prog ops).userMain = firstMain (requestsOf prog ops) := by
  have table : (finalModule prog ops).functions.reverse = internAll [] (requestsOf prog ops) := by
    rw [functions_finalModule, reverse_declareAll]
    rfl
  have distinct : (keys (internAll [] (requestsOf prog ops))).Nodup :=
    Logic.nodup_internAll List.nodup_nil
  have known : (finalModule prog ops).functions.lookup "main" = none ↔
      "main" ∉ keys (requestsOf prog ops) := by
    have inTable : "main" ∈ keys (finalModule prog ops).functions.reverse ↔
        "main" ∈ keys (requestsOf prog ops) := by
      rw [table, Logic.mem_keys_internAll]
      simp
    rw [← inTable, keys, List.map_reverse, List.mem_reverse, List.mem_map,
      List.lookup_eq_none_iff]
    simp only [bne_iff_ne, ne_eq, not_exists, not_and, @eq_comm _ "main"]
  have search : ((finalModule prog ops).functions.reverse.find? fun fn =>
        endsInMain fn.1 && fn.2.argSize = 0).map (·.1) =
      (keys (requestsOf prog ops)).find? fun s =>
        endsInMain s && ((requestsOf prog ops).lookup s).any (·.argSize = 0) := by
    have first (passes : String → Bool) :
        (keys (internAll [] (requestsOf prog ops))).find? passes =
          (keys (requestsOf prog ops)).find? passes := by
      rw [Logic.find?_keys_internAll, Logic.keys_nil, List.find?_nil, Option.none_or]
    rw [← first, table, keys, List.find?_map]
    congr 1
    apply List.find?_congr
    intro fn member
    have value := Logic.lookup_of_mem distinct member
    rw [Logic.lookup_internAll, List.lookup_nil, Option.none_or] at value
    simp only [Function.comp, value]
    rfl
  unfold Module.userMain firstMain
  cases found : (finalModule prog ops).functions.lookup "main" with
  | none => rw [if_neg (known.1 found), ← search]
  | some d =>
    rw [if_pos]
    by_contra unknown
    rw [known.2 unknown] at found
    cases found

/-! ## Main functions among the requests -/

theorem declRequests_subset {d : Decl} {ds : List Decl} (member : d ∈ ds) (namePrefix : String) :
    declRequests namePrefix d ⊆ declsRequests namePrefix ds := by
  induction ds with
  | nil => cases member
  | cons d' ds ih =>
    rw [declsRequests]
    rcases List.mem_cons.1 member with rfl | inRest
    · exact List.subset_append_left _ _
    · exact List.Subset.trans (ih inRest) (List.subset_append_right _ _)

mutual

theorem declsRequests_subset_decl {name : String} {inner : List Decl} (namePrefix : String) :
    ∀ d : Decl, (name, inner) ∈ namespacesOfDecl d →
      declsRequests name inner ⊆ declRequests namePrefix d
  | .namespaceDecl name' decls _, isNamespace => by
    rw [namespacesOfDecl, List.mem_cons] at isNamespace
    rw [declRequests]
    rcases isNamespace with same | isNamespace
    · cases same
      exact List.Subset.refl _
    · exact declsRequests_subset_decls name' decls isNamespace
  | .cls _, isNamespace | .func _, isNamespace | .externDecl _, isNamespace
  | .iface _, isNamespace | .enum _, isNamespace | .importDecl _, isNamespace
  | .packageDecl _, isNamespace => by cases isNamespace

theorem declsRequests_subset_decls {name : String} {inner : List Decl} (namePrefix : String) :
    ∀ ds : List Decl, (name, inner) ∈ namespacesOf ds →
      declsRequests name inner ⊆ declsRequests namePrefix ds
  | [], isNamespace => by cases isNamespace
  | d :: ds, isNamespace => by
    rw [namespacesOf, List.mem_append] at isNamespace
    rw [declsRequests]
    rcases isNamespace with here | inRest
    · exact List.Subset.trans (declsRequests_subset_decl namePrefix d here)
        (List.subset_append_left _ _)
    · exact List.Subset.trans (declsRequests_subset_decls namePrefix ds inRest)
        (List.subset_append_right _ _)

end

theorem mem_keys_of_hasMain (has : hasMain prog.decls = true) :
    "main" ∈ keys (requestsOf prog ops) := by
  obtain ⟨d, member, isIt⟩ := List.any_eq_true.1 has
  cases d with
  | func f =>
    simp only [isMain, Bool.and_eq_true, Bool.not_eq_true', decide_eq_true_eq] at isIt
    obtain ⟨⟨ctor, dtor⟩, name⟩ := isIt
    have request : ("main", Declared.func f) ∈ declRequests "" (.func f) := by
      simp [declRequests, ctor, dtor, mangle, name]
    have requested : ("main", Declared.func f) ∈ requestsOf prog ops :=
      List.mem_append_left _ (List.mem_append_right _ (declRequests_subset member "" request))
    exact List.mem_map.2 ⟨_, requested, rfl⟩
  | cls _ | iface _ | enum _ | importDecl _ | namespaceDecl _ _ _ | packageDecl _
  | externDecl _ => cases isIt

theorem mem_of_namespaceMains {s : String} (isMain' : s ∈ namespaceMains prog.decls) :
    ∃ name f, s = mangle name "main" ∧ f.params = [] ∧
      (s, Declared.func f) ∈ declsRequests "" prog.decls := by
  obtain ⟨⟨name, inner⟩, isNamespace, inside⟩ := List.mem_flatMap.1 isMain'
  obtain ⟨d, member, isIt⟩ := List.mem_filterMap.1 inside
  cases d with
  | func f =>
    simp only [Option.ite_none_right_eq_some, Option.some.injEq] at isIt
    obtain ⟨⟨named, noParams⟩, rfl⟩ := isIt
    simp only [isMain, Bool.and_eq_true, Bool.not_eq_true', decide_eq_true_eq] at named
    obtain ⟨⟨ctor, dtor⟩, name'⟩ := named
    refine ⟨name, f, by rw [name'], noParams, ?_⟩
    have request : (mangle name f.name, Declared.func f) ∈ declRequests name (.func f) := by
      simp [declRequests, ctor, dtor]
    exact declsRequests_subset_decls "" prog.decls isNamespace
      (declRequests_subset member name request)
  | cls _ | iface _ | enum _ | importDecl _ | namespaceDecl _ _ _ | packageDecl _
  | externDecl _ => cases isIt

theorem endsInMain_mangle {name : String} (named : name ≠ "") :
    endsInMain (mangle name "main") = true := by
  rw [endsInMain, List.isSuffixOf_iff_suffix, mangle, if_neg named, String.append_assoc,
    String.toList_append]
  exact List.suffix_append _ _

theorem importRequests_foreign {r : String × Declared} {ds : List Decl}
    (member : r ∈ ds.flatMap importRequests) : r.2.isOwn = false := by
  obtain ⟨d, -, request⟩ := List.mem_flatMap.1 member
  cases d with
  | importDecl imp =>
    rw [importRequests, stdlibRequests] at request
    split at request
    · cases request
    · obtain ⟨fn, -, rfl⟩ := List.mem_map.1 request
      rfl
  | cls _ | iface _ | enum _ | func _ | namespaceDecl _ _ _ | packageDecl _
  | externDecl _ => cases request

theorem lookup_requestsOf {s : String} {d : Declared} (own : (ownSymbols prog).Nodup)
    (apart : s ∉ foreignSymbols prog ops) (isOwn : d.isOwn = true)
    (request : (s, d) ∈ declsRequests "" prog.decls) :
    (requestsOf prog ops).lookup s = some d := by
  have unforeign {d' : Declared} (member : (s, d') ∈ requestsOf prog ops) : d'.isOwn = true := by
    by_contra foreign
    apply apart
    exact List.mem_map.2 ⟨(s, d'), List.mem_filter.2 ⟨member, by simpa using foreign⟩, rfl⟩
  have noImport : (prog.decls.flatMap importRequests).lookup s = none := by
    rw [List.lookup_eq_none_iff]
    rintro ⟨s', d'⟩ member
    rw [bne_iff_ne]
    rintro rfl
    have inAll : (s, d') ∈ requestsOf prog ops :=
      List.mem_append_left _ (List.mem_append_left _ member)
    have foreign := importRequests_foreign member
    rw [unforeign inAll] at foreign
    cases foreign
  have known : (declsRequests "" prog.decls).lookup s ≠ none := by
    rw [ne_eq, List.lookup_eq_none_iff]
    intro none
    simpa using none _ request
  obtain ⟨d', found⟩ := Option.ne_none_iff_exists'.1 known
  obtain ⟨before, after, isList, -⟩ := List.lookup_eq_some_iff.1 found
  have member : (s, d') ∈ declsRequests "" prog.decls := by simp [isList]
  have isOwn' : d'.isOwn = true :=
    unforeign (List.mem_append_left _ (List.mem_append_right _ member))
  have same := List.inj_on_of_nodup_map own (List.mem_filter.2 ⟨request, isOwn⟩)
    (List.mem_filter.2 ⟨member, isOwn'⟩) rfl
  rw [requestsOf, List.lookup_append, List.lookup_append, noImport, found, Option.none_or,
    Option.some_or]
  exact congrArg (some ·.2) same.symm

end Names

/-- `class C { void m() {} }  void C__m() {}`. -/
def sameJoined : Program where
  decls :=
    [.cls { name := "C", members := [.func { loc := ⟨1, 1⟩, returnType := { name := "void" },
                                             name := "m", params := [], body := some [] }] },
      .func { loc := ⟨2, 1⟩, returnType := { name := "void" }, name := "C__m", params := [],
              body := some [] }]
  stmts := []

end Dux.Codegen
