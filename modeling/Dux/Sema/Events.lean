import Dux.Sema.Bodies

/-!
# The classes an analysis meets

Analysis meets every class twice or more often: hoisting registers it, once more
for every namespace around it, and checking goes through its bases and members.
The classes are listed in the order in which they are met, each with the state in
which it is.  What a relation between states says of a whole run then follows from
what it says of hoisting one class and of checking one.
-/

namespace Dux.Sema

open TypeRegistry
open Logic (keys Moves)

def stateAfter {α : Type} (m : M α) (s : State) : State := ((m.run s).map (·.2)).getD s

/-- A class that is hoisted or checked, with the state before that. -/
inductive Event
  | hoist (c : ClassDecl) (s : State)
  | check (c : ClassDecl) (s : State)

mutual

/-- The classes that hoisting a declaration meets. -/
def hoistEvents : Decl → State → List Event
  | .cls c, s => [.hoist c s]
  | .namespaceDecl name decls _, s =>
      hoistEventsAll decls (stateAfter (do
        let _ ← define name { name := name, kind := .namespace, decl := .other }
        push) s)
  | .func _, _ | .iface _, _ | .enum _, _ | .externDecl _, _ | .importDecl _, _
  | .packageDecl _, _ => []

/-- The classes that hoisting declarations meets, in order. -/
def hoistEventsAll : List Decl → State → List Event
  | [], _ => []
  | d :: ds, s => hoistEvents d s ++ hoistEventsAll ds (stateAfter (hoistDecl d) s)

end

mutual

/-- The classes that checking a declaration meets.  A namespace hoists its
declarations once more. -/
def checkEvents : Decl → State → List Event
  | .cls c, s => [.check c s]
  | .namespaceDecl _ decls _, s =>
      hoistEventsAll decls (stateAfter push s) ++
        checkEventsAll decls (stateAfter (do push; hoistTop decls) s)
  | .func _, _ | .iface _, _ | .enum _, _ | .externDecl _, _ | .importDecl _, _
  | .packageDecl _, _ => []

/-- The classes that checking declarations meets, in order. -/
def checkEventsAll : List Decl → State → List Event
  | [], _ => []
  | d :: ds, s => checkEvents d s ++ checkEventsAll ds (stateAfter (checkDecl d) s)

end

/-- The classes that the analysis of a program meets, in order. -/
def eventsOf (prog : Program) : List Event :=
  hoistEventsAll prog.decls .initial ++
    checkEventsAll prog.decls (stateAfter (hoistTop prog.decls) .initial)

theorem stateAfter_eq {α : Type} {m : M α} {s s' : State} {a : α} (run : m.run s = some (a, s')) :
    stateAfter m s = s' := by
  rw [stateAfter, run]
  rfl

/-! ## Relations along the events -/

/-- A relation between the states around a piece of the analysis and the classes that
the piece meets. -/
class Traces (R : List Event → State → State → Prop) : Prop where
  nested : Nested (R [])
  append : ∀ {left right : List Event} (s₁ s₂ s₃ : State), R left s₁ s₂ → R right s₂ s₃ →
    R (left ++ right) s₁ s₃
  push : Moves (R []) push
  pop : Moves (R []) pop
  hoistInterface : ∀ i, Moves (R []) (hoistInterface i)
  hoistEnum : ∀ e, Moves (R []) (hoistEnum e)
  promote : ∀ name, Moves (R []) (do promote name (← currentScope))
  hoistClass : ∀ c s a s', (hoistClass c).run s = some (a, s') → R [.hoist c s] s s'
  checkClass : ∀ c s c' s', (checkClass c).run s = some (c', s') → R [.check c s] s s'

section Recursion

variable {R : List Event → State → State → Prop} [Traces R]

instance : Nested (R []) := Traces.nested

theorem traces_hoistFunction (f : FunctionDecl) : Moves (R []) (hoistFunction f) :=
  Checks.moves (.bind (checks_typeFromTe _) fun _ => .bind (checks_typesOfParams _) fun _ =>
    .bind (.define _ _ nofun nofun) fun _ => checks_when (.err _))

theorem traces_hoistExtern (e : ExternDecl) : Moves (R []) (hoistExtern e) :=
  Checks.moves (.bind (checks_typeFromTe _) fun _ => .bind (checks_typesOfParams _) fun _ =>
    .bind (.define _ _ nofun nofun) fun _ => .pure _)

mutual

theorem traces_hoistDecl : ∀ (d : Decl) {s s' : State} {a : Unit},
    (hoistDecl d).run s = some (a, s') → R (hoistEvents d s) s s'
  | .cls c, _, _, _, run => Traces.hoistClass c _ _ _ run
  | .iface i, _, _, _, run => Traces.hoistInterface (R := R) i _ _ _ run
  | .enum e, _, _, _, run => Traces.hoistEnum (R := R) e _ _ _ run
  | .func f, _, _, _, run => traces_hoistFunction (R := R) f _ _ _ run
  | .externDecl e, _, _, _, run => traces_hoistExtern (R := R) e _ _ _ run
  | .importDecl _, _, _, _, run => (.pure _ : Moves (R []) _) _ _ _ run
  | .packageDecl _, _, _, _, run => (.pure _ : Moves (R []) _) _ _ _ run
  | .namespaceDecl name decls _, s, s', _, run => by
    obtain ⟨isNew, s₁, defined, run⟩ := Logic.run_bind_eq_some_iff.1 run
    obtain ⟨_, s₂, pushed, run⟩ := Logic.run_bind_eq_some_iff.1 run
    obtain ⟨_, s₃, hoisted, run⟩ := Logic.run_bind_eq_some_iff.1 run
    obtain ⟨sc, s₄, current, run⟩ := Logic.run_bind_eq_some_iff.1 run
    obtain ⟨_, s₅, promoted, popped⟩ := Logic.run_bind_eq_some_iff.1 run
    have entered : stateAfter (do
        let _ ← define name { name := name, kind := .namespace, decl := .other }
        push) s = s₂ :=
      stateAfter_eq (Logic.run_bind_eq_some_iff.2 ⟨_, _, defined, pushed⟩)
    have first : R [] s s₁ := by
      have moves : Moves (R []) (define name
          { name := name, kind := .namespace, decl := .other }) :=
        Checks.moves (.define _ _ nofun nofun)
      exact moves _ _ _ defined
    have second : R [] s₁ s₂ := Traces.push _ _ _ pushed
    have third := traces_hoistTop decls hoisted
    have closing : (do promote name (← currentScope) : M Unit).run s₃ = some ((), s₅) :=
      Logic.run_bind_eq_some_iff.2 ⟨_, _, current, promoted⟩
    have fourth : R [] s₃ s₅ := Traces.promote name _ _ _ closing
    have fifth : R [] s₅ s' := Traces.pop _ _ _ popped
    rw [hoistEvents, entered]
    have upTo := Traces.append _ _ _ first (Traces.append _ _ _ second third)
    have all := Traces.append _ _ _ upTo (Traces.append _ _ _ fourth fifth)
    simpa using all

theorem traces_hoistTop : ∀ (ds : List Decl) {s s' : State} {a : Unit},
    (hoistTop ds).run s = some (a, s') → R (hoistEventsAll ds s) s s'
  | [], _, _, _, run => (.pure _ : Moves (R []) _) _ _ _ run
  | d :: ds, s, s', _, run => by
    obtain ⟨_, s₁, first, rest⟩ := Logic.run_bind_eq_some_iff.1 run
    rw [hoistEventsAll, stateAfter_eq first]
    exact Traces.append _ _ _ (traces_hoistDecl d first) (traces_hoistTop ds rest)

end

mutual

theorem traces_checkDecl : ∀ (d : Decl) {s s' : State} {d' : Decl},
    (checkDecl d).run s = some (d', s') → R (checkEvents d s) s s'
  | .cls c, s, _, _, run => by
    obtain ⟨c', _, checked, done⟩ := Logic.run_bind_eq_some_iff.1 run
    cases done
    exact Traces.checkClass c _ _ _ checked
  | .func f, _, _, _, run =>
    (.bind (nested_checkFunc f) fun _ => .pure _ : Moves (R []) _) _ _ _ run
  | .iface i, _, _, _, run =>
    (.bind (checks_checkInterface i.members).moves fun _ => .pure _ : Moves (R []) _)
      _ _ _ run
  | .importDecl i, _, _, _, run =>
    (.bind (checks_checkImport i).moves fun _ => .pure _ : Moves (R []) _) _ _ _ run
  | .enum _, _, _, _, run => (.pure _ : Moves (R []) _) _ _ _ run
  | .packageDecl _, _, _, _, run => (.pure _ : Moves (R []) _) _ _ _ run
  | .externDecl _, _, _, _, run => (.pure _ : Moves (R []) _) _ _ _ run
  | .namespaceDecl name decls stmts, s, s', _, run => by
    obtain ⟨_, s₁, pushed, run⟩ := Logic.run_bind_eq_some_iff.1 run
    obtain ⟨d', s₅, inside, run⟩ := Logic.run_bind_eq_some_iff.1 run
    obtain ⟨_, s₆, popped, done⟩ := Logic.run_bind_eq_some_iff.1 run
    cases done
    obtain ⟨_, s₂, hoisted, inside⟩ := Logic.run_bind_eq_some_iff.1 inside
    obtain ⟨decls', s₃, checked, inside⟩ := Logic.run_bind_eq_some_iff.1 inside
    obtain ⟨stmts', s₄, bodies, done⟩ := Logic.run_bind_eq_some_iff.1 inside
    cases done
    have entered : stateAfter (do push; hoistTop decls) s = s₂ :=
      stateAfter_eq (Logic.run_bind_eq_some_iff.2 ⟨_, _, pushed, hoisted⟩)
    rw [checkEvents, stateAfter_eq pushed, entered]
    have opened : R [] s s₁ := Traces.push _ _ _ pushed
    have first := Traces.append _ _ _ opened (traces_hoistTop decls hoisted)
    have inner : R [] s₃ s₅ := nested_checkStmts stmts _ _ _ bodies
    have closed : R [] s₅ s' := Traces.pop _ _ _ popped
    have last := Traces.append _ _ _ inner closed
    have all := Traces.append _ _ _ first
      (Traces.append _ _ _ (traces_checkDecls decls checked) last)
    simpa using all

theorem traces_checkDecls : ∀ (ds : List Decl) {s s' : State} {ds' : List Decl},
    (checkDecls ds).run s = some (ds', s') → R (checkEventsAll ds s) s s'
  | [], _, _, _, run => (.pure _ : Moves (R []) _) _ _ _ run
  | d :: ds, s, s', _, run => by
    obtain ⟨d', s₁, first, run⟩ := Logic.run_bind_eq_some_iff.1 run
    obtain ⟨ds', s₂, rest, done⟩ := Logic.run_bind_eq_some_iff.1 run
    cases done
    rw [checkEventsAll, stateAfter_eq first]
    exact Traces.append _ _ _ (traces_checkDecl d first) (traces_checkDecls ds rest)

end

end Recursion

theorem traces_of_run {R : List Event → State → State → Prop} [Traces R] {prog prog' : Program}
    {s : State} (returns : (run prog).run .initial = some (prog', s)) :
    R (eventsOf prog) .initial s := by
  obtain ⟨_, s₁, hoisted, returns⟩ := Logic.run_bind_eq_some_iff.1 returns
  obtain ⟨decls, s₂, checked, returns⟩ := Logic.run_bind_eq_some_iff.1 returns
  obtain ⟨stmts, s₃, bodies, done⟩ := Logic.run_bind_eq_some_iff.1 returns
  cases done
  rw [eventsOf, stateAfter_eq hoisted]
  apply Traces.append _ _ _ (traces_hoistTop prog.decls hoisted)
  have last : R [] s₂ s := nested_checkStmts prog.stmts _ _ _ bodies
  simpa using Traces.append _ _ _ (traces_checkDecls prog.decls checked) last

end Dux.Sema
