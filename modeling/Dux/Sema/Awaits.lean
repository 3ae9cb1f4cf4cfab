import Dux.Sema.Guards
import Dux.Sema.Heritage

/-!
# Calls of asynchronous functions

A call of an `async` function returns a future.  `check_call` (`src/sema/sema.cpp`)
refuses it where the flag `in_await_` is not set.  The flag is set for all that is below
an `await`, lambdas included, and it is looked at for callees that are names of functions
only.
-/

namespace Dux.Sema

open TypeRegistry
open Logic (Climbs)

/-- The test for a method at a type, on the way up the class hierarchy. -/
def asyncTest (types : TypeRegistry) (globals : Scope) (method : String) (cur : TypeId) :
    Option Bool :=
  if cur = TID_UNKNOWN ∨ cur < 0 ∨ cur = TID_OBJECT then some false
  else match globalClass globals (types.info cur).name with
    | some c => (ownMethod c method).map (·.isAsync)
    | none => some false

/-- The nearest class that declares the method declares it `async`. -/
def IsAsyncMethod (s : State) (t : TypeId) (method : String) : Prop :=
  Climbs (asyncTest s.types (s.scopes.getLastD []) method) s.types.parentOf t

/-- The name qualified by a namespace is that of an `async` function. -/
def IsAsyncQualified (s : State) (object : Expr) (name : String) : Prop :=
  ∃ ns sym, identName object = some ns ∧ lookupScopes s.scopes (ns ++ "." ++ name) = some sym ∧
    sym.isAsync = true

/-- The class around declares an `async` method of that name. -/
def IsAsyncHere (s : State) (name : String) : Prop :=
  ∃ c f, globalClass (s.scopes.getLastD []) s.currentClassName = some c ∧
    ownMethod c name = some f ∧ f.isAsync = true

namespace Site

/-- A call of an `async` function by way of an object, a namespace or the class
around. -/
def IsAsyncMember : Site → Prop
  | .named _ sym s => IsAsyncHere s sym.name
  | .called _ (.member _ object name) s =>
      IsAsyncQualified s object name ∨ IsAsyncMethod s object.tid name
  | _ => False

/-- A call of a function that is declared `async` by its name. -/
def isAsyncNamed : Site → Bool
  | .named _ sym _ => sym.isAsync
  | _ => false

/-- A call of an `async` function. -/
def IsAsync (site : Site) : Prop := site.isAsyncNamed = true ∨ site.IsAsyncMember

/-- Where a site stands. -/
def place : Site → Place
  | .named ctx .. => ctx.place
  | .called ctx .. => ctx.place
  | .target ctx .. => ctx.place
  | .assigned ctx .. => ctx.place
  | .operand ctx .. => ctx.place

end Site

/-- Every call of an `async` function is the operand of an `await`. -/
def Awaited (prog : Program) : Prop :=
  ∀ site ∈ sitesOf .checked prog ++ sitesOf .initialisers prog, site.IsAsync →
    site.place = .operand

/-- They are where the analysis does not look: elsewhere below an `await`, where the callee
is a member, and in initialiser lists. -/
structure AwaitedUnchecked (prog : Program) : Prop where
  below : ∀ site ∈ sitesOf .checked prog, site.isAsyncNamed = true → site.place ≠ .below
  members : ∀ site ∈ sitesOf .checked prog, site.IsAsyncMember → site.place = .operand
  initialisers : ∀ site ∈ sitesOf .initialisers prog, site.IsAsync → site.place = .operand

theorem awaits_of_passes {site : Site} (passes : site.Passes) (isAsync : site.isAsyncNamed = true) :
    site.place = .operand ∨ site.place = .below := by
  cases site with
  | named ctx sym s =>
    have awaits : ctx.place.awaits = true := passes isAsync
    show ctx.place = .operand ∨ ctx.place = .below
    cases place : ctx.place with
    | outside =>
      rw [place] at awaits
      cases awaits
    | operand => exact .inl rfl
    | below => exact .inr rfl
  | called | target | assigned | operand => cases isAsync

theorem awaited_iff {prog prog' : Program} {s : State} (accepts : Accepts prog prog' s) :
    Awaited prog ↔ AwaitedUnchecked prog := by
  have passes := passes_of_accepts accepts
  constructor
  · intro awaited
    constructor
    · intro site member isAsync isBelow
      rw [awaited site (List.mem_append_left _ member) (.inl isAsync)] at isBelow
      cases isBelow
    · intro site member isMember
      exact awaited site (List.mem_append_left _ member) (.inr isMember)
    · intro site member isAsync
      exact awaited site (List.mem_append_right _ member) isAsync
  · intro unchecked site member isAsync
    rcases List.mem_append.1 member with inChecked | inInitialisers
    · rcases isAsync with named | isMember
      · have notBelow := unchecked.below site inChecked named
        exact (awaits_of_passes (passes site inChecked) named).resolve_right notBelow
      · exact unchecked.members site inChecked isMember
    · exact unchecked.initialisers site inInitialisers isAsync

/-- `async int fetch() { }`. -/
def fetch : Decl :=
  .func { loc := ⟨1, 1⟩, returnType := { name := "int" }, name := "fetch", params := [],
          body := some [], isAsync := true }

def callFetch : Expr := .call (-1) (.ident (-1) "fetch") []

/-- `async int fetch() { }  await fetch();`. -/
def awaiting : Program where
  decls := [fetch]
  stmts := [.expr (.await (-1) callFetch)]

theorem awaited_awaiting : ∃ prog' s, Accepts awaiting prog' s ∧ Awaited awaiting := by
  obtain ⟨prog', s, accepts, -⟩ := exists_accepts awaiting (fun _ _ => true) (by decide +kernel)
  have atOperand : (sitesOf .checked awaiting).all (·.place = .operand) = true := by
    decide +kernel
  have all : ∀ site ∈ sitesOf .checked awaiting, site.place = .operand := fun site member =>
    of_decide_eq_true (List.all_eq_true.1 atOperand site member)
  refine ⟨prog', s, accepts, (awaited_iff accepts).2 ?_⟩
  constructor
  · intro site member _ isBelow
    rw [all site member] at isBelow
    cases isBelow
  · exact fun site member _ => all site member
  · have none : (sitesOf .initialisers awaiting).isEmpty = true := by decide +kernel
    rw [List.isEmpty_iff.1 none]
    exact fun site member => by cases member

/-- `async int fetch() { }  await (fetch() + fetch());`. -/
def adding : Program where
  decls := [fetch]
  stmts := [.expr (.await (-1) (.binary (-1) .add callFetch callFetch))]

/-- Two futures are added. -/
theorem not_awaited : ¬∀ prog prog' s, Accepts prog prog' s → Awaited prog := by
  intro always
  obtain ⟨prog', s, accepts, -⟩ := exists_accepts adding (fun _ _ => true) (by decide +kernel)
  have escapes : (sitesOf .checked adding).any (fun site => site.isAsyncNamed &&
      site.place = .below) = true := by decide +kernel
  obtain ⟨site, member, both⟩ := List.any_eq_true.1 escapes
  rw [Bool.and_eq_true, decide_eq_true_iff] at both
  have atOperand := always _ _ _ accepts site (List.mem_append_left _ member) (.inl both.1)
  rw [both.2] at atOperand
  cases atOperand

end Dux.Sema
