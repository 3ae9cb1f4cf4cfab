import Dux.Sema.Events
import Mathlib.Logic.Relation

/-!
# Interfaces

`check_class` (`src/sema/sema.cpp`) asks of a class that names an interface among
its bases to define a method under each name that the interface has.  It compares
names only, and it looks at the methods of the class itself only.  What an
interface asks for is more and less than that: methods of the same signature, from
the class or from one of its ancestors.
-/

namespace Dux

def typeWord (name : String) : String := if name = "ptr" then "object" else name

mutual

/-- Two type expressions for the same type. -/
def sameType : TypeExpr → TypeExpr → Bool
  | ⟨name, _, fnParams, fnRet, typeArgs⟩, ⟨name', _, fnParams', fnRet', typeArgs'⟩ =>
      typeWord name = typeWord name' && typeWord fnRet = typeWord fnRet' &&
        sameTypes fnParams fnParams' && sameTypes typeArgs typeArgs'

def sameTypes : List TypeExpr → List TypeExpr → Bool
  | [], [] => true
  | te :: tes, te' :: tes' => sameType te te' && sameTypes tes tes'
  | _, _ => false

end

/-- Two methods with the same parameter types and return type. -/
def sameSignature (f g : FunctionDecl) : Bool :=
  sameTypes (f.params.map (·.type)) (g.params.map (·.type)) &&
    sameType f.returnType g.returnType

/-- A method of a class that an interface method asks for. -/
def ClassDecl.provides (c : ClassDecl) (f : FunctionDecl) : Bool :=
  c.members.any fun
    | .func g => !g.isCtor && !g.isDtor && g.name = f.name && sameSignature f g
    | .field _ => false

namespace Sema

open Logic (keys Moves)

/-! ## What the check reports -/

/-- The interface that a symbol stands for. -/
def Symbol.asInterface : Symbol → Option InterfaceDecl
  | { kind := .interface, decl := .iface i, .. } => some i
  | _ => none

/-- The class that a symbol stands for. -/
def Symbol.asClass : Symbol → Option ClassDecl
  | { kind := .cls, decl := .cls c, .. } => some c
  | _ => none

/-- The interfaces that a class names among its bases. -/
def interfacesOf (c : ClassDecl) (s : State) : List InterfaceDecl :=
  c.bases.filterMap fun base => (lookupScopes s.scopes base).bind Symbol.asInterface

/-- The classes that a class names among its bases. -/
def superclassesOf (c : ClassDecl) (s : State) : List ClassDecl :=
  c.bases.filterMap fun base => (lookupScopes s.scopes base).bind Symbol.asClass

/-- A class leaves out a method under a name that one of its interfaces has. -/
def Omits (c : ClassDecl) (s : State) : Prop :=
  ∃ i ∈ interfacesOf c s, ∃ f ∈ i.members, definesMethod c f.name = false

/-- Checking a class up to its contracts gives an error. -/
def Reports (c : ClassDecl) (s : State) : Prop :=
  (stateAfter (do
    checkBases (s.types.fromName c.name) c.bases
    checkContracts c c.bases) s).errors ≠ s.errors

theorem run_checkBases_total (type : TypeId) (bases : List String) (s : State) : ∃ s',
    (checkBases type bases).run s = some ((), s') ∧ s'.scopes = s.scopes ∧
      s'.errors = s.errors := by
  induction bases generalizing s with
  | nil => exact ⟨s, rfl, rfl, rfl⟩
  | cons base rest ih =>
    have step : ∃ s₁ : State, (checkBases type (base :: rest)).run s =
        (checkBases type rest).run s₁ ∧ s₁.scopes = s.scopes ∧ s₁.errors = s.errors := by
      have looked : (lookup base).run s = some (lookupScopes s.scopes base, s) := rfl
      rw [checkBases, StateT.run_bind, looked]
      cases lookupScopes s.scopes base with
      | none => exact ⟨_, rfl, rfl, rfl⟩
      | some sym =>
        by_cases untyped : sym.kind ≠ .cls ∧ sym.kind ≠ .interface
        · simp only [Option.bind_eq_bind, Option.bind_some, if_pos untyped]
          exact ⟨_, rfl, rfl, rfl⟩
        · simp only [Option.bind_eq_bind, Option.bind_some, if_neg untyped]
          exact ⟨_, rfl, rfl, rfl⟩
    obtain ⟨s₁, same, scopes, errors⟩ := step
    obtain ⟨s', run, scopes', errors'⟩ := ih s₁
    exact ⟨s', same.trans run, scopes'.trans scopes, errors'.trans errors⟩

/-- Nothing but errors is added. -/
def State.withErrors (s : State) (messages : List String) : State :=
  { s with errors := s.errors ++ messages }

theorem run_checkContract (c : ClassDecl) (base : String) (members : List FunctionDecl)
    (s : State) : ∃ messages,
      (checkContract c base members).run s = some ((), s.withErrors messages) ∧
        (messages = [] ↔ ∀ f ∈ members, definesMethod c f.name = true) := by
  induction members generalizing s with
  | nil => exact ⟨[], by simp [checkContract, State.withErrors], by simp⟩
  | cons f fs ih =>
    by_cases defined : definesMethod c f.name = true
    · obtain ⟨messages, run, none⟩ := ih s
      refine ⟨messages, ?_, by simp [defined, none]⟩
      rw [← run, checkContract]
      simp [defined]
    · let message := "class '" ++ c.name ++ "' implements interface '" ++ base ++
        "' but does not define method '" ++ f.name ++ "'"
      obtain ⟨messages, run, -⟩ := ih (s.withErrors [message])
      refine ⟨message :: messages, ?_, by simp [defined]⟩
      have added : (s.withErrors [message]).withErrors messages =
          s.withErrors (message :: messages) := by simp [State.withErrors]
      rw [← added, ← run, checkContract]
      simp only [Bool.not_eq_true] at defined
      simp only [defined, Bool.not_false, if_true]
      rfl

theorem run_checkContracts_cons (c : ClassDecl) (base : String) (rest : List String) (s : State) :
    (checkContracts c (base :: rest)).run s =
      (((lookupScopes s.scopes base).bind Symbol.asInterface).elim (checkContracts c rest)
        fun i => do
          checkContract c base i.members
          checkContracts c rest).run s := by
  have looked : (lookup base).run s = some (lookupScopes s.scopes base, s) := rfl
  rw [checkContracts, StateT.run_bind, looked]
  cases lookupScopes s.scopes base with
  | none => rfl
  | some sym =>
    obtain ⟨_, kind, _, _, _, decl, _, _⟩ := sym
    cases kind <;> cases decl <;> rfl

theorem run_checkContracts (c : ClassDecl) (bases : List String) (s : State) : ∃ messages,
    (checkContracts c bases).run s = some ((), s.withErrors messages) ∧
      (messages = [] ↔ ∀ i ∈ bases.filterMap fun base =>
        (lookupScopes s.scopes base).bind Symbol.asInterface,
          ∀ f ∈ i.members, definesMethod c f.name = true) := by
  induction bases generalizing s with
  | nil => exact ⟨[], by simp [checkContracts, State.withErrors], by simp⟩
  | cons base rest ih =>
    rw [run_checkContracts_cons]
    cases found : (lookupScopes s.scopes base).bind Symbol.asInterface with
    | none =>
      obtain ⟨messages, run, isNil⟩ := ih s
      exact ⟨messages, run, by simp only [isNil, List.filterMap_cons, found]⟩
    | some i =>
      obtain ⟨own, first, ownNil⟩ := run_checkContract c base i.members s
      obtain ⟨messages, run, isNil⟩ := ih (s.withErrors own)
      refine ⟨own ++ messages, ?_, ?_⟩
      · have added : (s.withErrors own).withErrors messages = s.withErrors (own ++ messages) := by
          simp [State.withErrors]
        rw [← added]
        exact Logic.run_bind_eq_some_iff.2 ⟨_, _, first, run⟩
      · rw [List.append_eq_nil_iff, ownNil, isNil]
        simp only [List.filterMap_cons, found, List.forall_mem_cons]
        rfl

theorem exists_messages (c : ClassDecl) (s : State) : ∃ messages,
    (stateAfter (do
      checkBases (s.types.fromName c.name) c.bases
      checkContracts c c.bases) s).errors = s.errors ++ messages ∧
        (messages = [] ↔ ¬Omits c s) := by
  obtain ⟨s₁, bases, scopes, errors⟩ := run_checkBases_total (s.types.fromName c.name) c.bases s
  obtain ⟨messages, contracts, isNil⟩ := run_checkContracts c c.bases s₁
  have run : (do
      checkBases (s.types.fromName c.name) c.bases
      checkContracts c c.bases : M Unit).run s = some ((), s₁.withErrors messages) :=
    Logic.run_bind_eq_some_iff.2 ⟨_, _, bases, contracts⟩
  refine ⟨messages, ?_, ?_⟩
  · rw [stateAfter_eq run, State.withErrors, errors]
  · rw [isNil, scopes, Omits]
    simp only [not_exists, not_and, Bool.not_eq_false]
    rfl

theorem reports_iff (c : ClassDecl) (s : State) : Reports c s ↔ Omits c s := by
  obtain ⟨messages, errors, isNil⟩ := exists_messages c s
  rw [Reports, errors, ← not_iff_not, ← isNil, not_not, List.append_right_eq_self]

/-! ## Classes that are checked -/

/-- The class that is checked, and the state before that. -/
def Event.checked : Event → Option (ClassDecl × State)
  | .hoist _ _ => none
  | .check c s => some (c, s)

/-- The classes that the analysis of a program checks. -/
def checkedClasses (prog : Program) : List (ClassDecl × State) :=
  (eventsOf prog).filterMap Event.checked

/-- Errors stay, and those of the classes checked in between are among them. -/
def Keeps (events : List Event) (s s' : State) : Prop :=
  s.errors <+: s'.errors ∧ ∀ p ∈ events.filterMap Event.checked,
    (stateAfter (do
      checkBases (p.2.types.fromName p.1.name) p.1.bases
      checkContracts p.1 p.1.bases) p.2).errors <+: s'.errors

theorem keeps_nil {s s' : State} (errors : s.errors <+: s'.errors) : Keeps [] s s' :=
  ⟨errors, fun _ member => by cases member⟩

instance : Free (Keeps []) where
  refl _ := keeps_nil List.prefix_rfl
  trans _ _ _ first second := keeps_nil (first.1.trans second.1)
  err _ msg := keeps_nil ⟨[msg], rfl⟩
  warn _ _ := keeps_nil List.prefix_rfl
  scopes _ _ := keeps_nil List.prefix_rfl
  types _ _ := keeps_nil List.prefix_rfl

instance : Nested (Keeps []) where
  inScope nested := Moves.bind tame_push fun _ => Moves.bind nested fun _ =>
    Moves.bind tame_pop fun _ => Moves.pure _
  flags _ _ flagged := keeps_nil (flagged.2.2.1 ▸ List.prefix_rfl)

theorem keeps_checkClass (c : ClassDecl) {s s' : State} {c' : ClassDecl}
    (run : (checkClass c).run s = some (c', s')) : Keeps [.check c s] s s' := by
  obtain ⟨_, s₁, _, s₂, bases, contracts, second, third⟩ :=
    run_checkClass_cases (R := Keeps []) run
  have first : Keeps [] s s₁ := tame_checkBases _ _ _ _ _ bases
  refine ⟨first.1.trans (second.1.trans third.1), fun p member => ?_⟩
  rw [List.mem_singleton.1 member, stateAfter_eq
    (Logic.run_bind_eq_some_iff.2 ⟨_, _, bases, contracts⟩)]
  exact third.1

instance : Traces Keeps where
  nested := inferInstance
  append s₁ s₂ s₃ first second := by
    refine ⟨first.1.trans second.1, fun p member => ?_⟩
    rw [List.filterMap_append, List.mem_append] at member
    rcases member with inLeft | inRight
    · exact (first.2 p inLeft).trans second.1
    · exact second.2 p inRight
  push := tame_push
  pop := tame_pop
  hoistInterface := free_hoistInterface
  hoistEnum := free_hoistEnum
  promote name := Moves.bind (Moves.bind Moves.get fun _ => Moves.pure _) fun _ =>
    free_promote name _
  hoistClass c s a s' run := by
    have step : Keeps [] s s' := free_hoistClass c s a s' run
    exact ⟨step.1, fun _ member => by cases member⟩
  checkClass c _ _ _ run := keeps_checkClass c run

theorem not_omits_of_accepts {prog prog' : Program} {s : State}
    (returns : (run prog).run .initial = some (prog', s)) (silent : s.errors = [])
    {c : ClassDecl} {sc : State} (checked : (c, sc) ∈ checkedClasses prog) : ¬Omits c sc := by
  have all : Keeps (eventsOf prog) .initial s := traces_of_run returns
  have kept := all.2 _ checked
  obtain ⟨messages, errors, isNil⟩ := exists_messages c sc
  rw [silent, List.prefix_nil, errors, List.append_eq_nil_iff] at kept
  exact isNil.1 kept.2

/-! ## What interfaces ask for -/

/-- `d` is a superclass that `c` names. -/
def Derives (prog : Program) (c d : ClassDecl) : Prop :=
  ∃ sc, (c, sc) ∈ checkedClasses prog ∧ d ∈ superclassesOf c sc

/-- `d` is `c` or one of its ancestors. -/
def Upward (prog : Program) : ClassDecl → ClassDecl → Prop :=
  Relation.ReflTransGen (Derives prog)

/-- A class or one of its ancestors names an interface. -/
def Implements (prog : Program) (c : ClassDecl) (i : InterfaceDecl) : Prop :=
  ∃ d sd, Upward prog c d ∧ (d, sd) ∈ checkedClasses prog ∧ i ∈ interfacesOf d sd

/-- A class has a method, itself or from an ancestor. -/
def Supplies (prog : Program) (c : ClassDecl) (f : FunctionDecl) : Prop :=
  ∃ d, Upward prog c d ∧ d.provides f = true

/-- A class has all methods of its interfaces. -/
def Conforms (prog : Program) (c : ClassDecl) : Prop :=
  ∀ i, Implements prog c i → ∀ f ∈ i.members, Supplies prog c f

/-- The classes of an accepted program conform, and only those that do not are
reported. -/
def Contracts (prog : Program) (s : State) : Prop :=
  (s.errors = [] → ∀ p ∈ checkedClasses prog, Conforms prog p.1) ∧
    ∀ p ∈ checkedClasses prog, Reports p.1 p.2 → ¬Conforms prog p.1

/-- A method under the name of an interface method is of its signature, unless such a
method is there besides. -/
def KeepsSignatures (prog : Program) : Prop :=
  ∀ p ∈ checkedClasses prog, ∀ i ∈ interfacesOf p.1 p.2, ∀ f ∈ i.members,
    definesMethod p.1 f.name = true → Supplies prog p.1 f

/-- A class that has all methods of its interfaces defines those of the interfaces that
it names itself. -/
def LeavesNone (prog : Program) : Prop :=
  ∀ p ∈ checkedClasses prog, Conforms prog p.1 → ¬Omits p.1 p.2

/-- The check of interfaces is exact for accepted programs as far as signatures are kept,
and for all as far as methods of interfaces are not inherited. -/
theorem contracts_iff {prog prog' : Program} {s : State}
    (returns : (run prog).run .initial = some (prog', s)) :
    Contracts prog s ↔ (s.errors = [] → KeepsSignatures prog) ∧ LeavesNone prog := by
  constructor
  · rintro ⟨conform, fair⟩
    constructor
    · intro silent p checked i names f member _
      exact conform silent p checked i ⟨p.1, p.2, .refl, checked, names⟩ f member
    · intro p checked conforms omits
      exact fair p checked ((reports_iff p.1 p.2).2 omits) conforms
  · rintro ⟨keeps, leaves⟩
    constructor
    · rintro silent p - i ⟨d, sd, upward, checked, names⟩ f member
      have defines : definesMethod d f.name = true := by
        by_contra missing
        apply not_omits_of_accepts returns silent checked
        exact ⟨i, names, f, member, Bool.not_eq_true _ ▸ missing⟩
      obtain ⟨e, further, provides⟩ := keeps silent (d, sd) checked i names f member defines
      exact ⟨e, upward.trans further, provides⟩
    · intro p checked reports conforms
      exact leaves p checked conforms ((reports_iff p.1 p.2).1 reports)

/-- A method `f` of a class or an interface, without statements. -/
def methodF (ret : String) (params : List Param) : FunctionDecl :=
  { loc := ⟨1, 1⟩, returnType := { name := ret }, name := "f", params := params, body := some [] }

/-- `interface I { int f(int x) }  class C : I { int f(int y) }`. -/
def conforming : Program where
  decls :=
    [.iface { name := "I", members := [methodF "int" [⟨{ name := "int" }, "x"⟩]] },
      .cls { name := "C", bases := ["I"],
             members := [.func (methodF "int" [⟨{ name := "int" }, "y"⟩])] }]
  stmts := []

/-- Every method that an interface of a class has is there in the class itself. -/
def providesAll (prog : Program) : Bool :=
  (checkedClasses prog).all fun p => (interfacesOf p.1 p.2).all fun i =>
    i.members.all fun f => definesMethod p.1 f.name && p.1.provides f

theorem contracts_conforming : ∃ prog' s, Accepts conforming prog' s ∧ Contracts conforming s := by
  obtain ⟨prog', s, accepts, -⟩ :=
    exists_accepts conforming (fun _ _ => true) (by decide +kernel)
  have all : providesAll conforming = true := by decide +kernel
  have each {p : ClassDecl × State} (checked : p ∈ checkedClasses conforming)
      {i : InterfaceDecl} (names : i ∈ interfacesOf p.1 p.2) {f : FunctionDecl}
      (member : f ∈ i.members) : definesMethod p.1 f.name = true ∧ p.1.provides f = true := by
    have ofClass := List.all_eq_true.1 (List.all_eq_true.1 all p checked) i names
    exact Bool.and_eq_true_iff.1 (List.all_eq_true.1 ofClass f member)
  refine ⟨prog', s, accepts, (contracts_iff accepts.1).2 ⟨?_, ?_⟩⟩
  · intro _ p checked i names f member _
    exact ⟨p.1, .refl, (each checked names member).2⟩
  · rintro p checked - ⟨i, names, f, member, missing⟩
    rw [(each checked names member).1] at missing
    cases missing

/-- `interface I { int f(int x) }  class C : I { str f() }`. -/
def mistyped : Program where
  decls :=
    [.iface { name := "I", members := [methodF "int" [⟨{ name := "int" }, "x"⟩]] },
      .cls { name := "C", bases := ["I"], members := [.func (methodF "str" [])] }]
  stmts := []

/-- `interface I { int f() }  class A { int f() }  class B : A, I { }`. -/
def inheriting : Program where
  decls :=
    [.iface { name := "I", members := [methodF "int" []] },
      .cls { name := "A", members := [.func (methodF "int" [])] },
      .cls { name := "B", bases := ["A", "I"], members := [] }]
  stmts := []

/-- A class that leaves out a method of an interface, where a superclass has every
method of every interface. -/
def leavesToSuper (prog : Program) (p : ClassDecl × State) : Bool :=
  (interfacesOf p.1 p.2).any (fun i => i.members.any fun f => !definesMethod p.1 f.name) &&
    (checkedClasses prog).all fun q => (interfacesOf q.1 q.2).all fun i =>
      i.members.all fun f => (superclassesOf p.1 p.2).any fun d => d.provides f

/-- A class without some method of one of its interfaces, in a program without
superclasses. -/
def lacksItself (prog : Program) (p : ClassDecl × State) : Bool :=
  (interfacesOf p.1 p.2).any (fun i => i.members.any fun f => !p.1.provides f) &&
    (checkedClasses prog).all fun q => (superclassesOf q.1 q.2).isEmpty

/-- A class is let through with a method of another signature, and one is reported that
inherits the method. -/
theorem not_contracts :
    (∃ prog prog' s, Accepts prog prog' s ∧
      ∃ p ∈ checkedClasses prog, ¬Conforms prog p.1) ∧
    ∃ prog prog' s, (run prog).run .initial = some (prog', s) ∧
      ∃ p ∈ checkedClasses prog, Reports p.1 p.2 ∧ Conforms prog p.1 := by
  constructor
  · obtain ⟨prog', s, accepts, -⟩ :=
      exists_accepts mistyped (fun _ _ => true) (by decide +kernel)
    have found : (checkedClasses mistyped).any (lacksItself mistyped) = true := by decide +kernel
    obtain ⟨p, checked, lacks⟩ := List.any_eq_true.1 found
    obtain ⟨lacks, rootless⟩ := Bool.and_eq_true_iff.1 lacks
    obtain ⟨i, names, lacks⟩ := List.any_eq_true.1 lacks
    obtain ⟨f, member, lacks⟩ := List.any_eq_true.1 lacks
    refine ⟨mistyped, prog', s, accepts, p, checked, fun conforms => ?_⟩
    obtain ⟨d, upward, provides⟩ :=
      conforms i ⟨p.1, p.2, .refl, checked, names⟩ f member
    rcases Relation.ReflTransGen.cases_head upward with rfl | ⟨e, ⟨sc, isChecked, derives⟩, -⟩
    · rw [provides] at lacks
      cases lacks
    · have empty := List.isEmpty_iff.1 (List.all_eq_true.1 rootless _ isChecked)
      rw [empty] at derives
      cases derives
  · obtain ⟨⟨prog', s⟩, returns⟩ : ∃ result, (run inheriting).run .initial = some result := by
      apply Option.isSome_iff_exists.1
      decide +kernel
    have found : (checkedClasses inheriting).any (leavesToSuper inheriting) = true := by
      decide +kernel
    obtain ⟨p, checked, leaves⟩ := List.any_eq_true.1 found
    obtain ⟨omits, supplied⟩ := Bool.and_eq_true_iff.1 leaves
    obtain ⟨i, names, omits⟩ := List.any_eq_true.1 omits
    obtain ⟨f, member, missing⟩ := List.any_eq_true.1 omits
    refine ⟨inheriting, prog', s, returns, p, checked, ?_, ?_⟩
    · exact (reports_iff p.1 p.2).2 ⟨i, names, f, member, Bool.not_eq_true' _ ▸ missing⟩
    · rintro i' ⟨d, sd, -, isChecked, names'⟩ f' member'
      have ofClass := List.all_eq_true.1 (List.all_eq_true.1 supplied _ isChecked) i' names'
      obtain ⟨e, super, provides⟩ := List.any_eq_true.1 (List.all_eq_true.1 ofClass f' member')
      exact ⟨e, .single ⟨p.2, checked, super⟩, provides⟩

end Sema

end Dux
