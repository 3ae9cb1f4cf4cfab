import Dux.Codegen.Functions
import Mathlib.Algebra.Order.Group.Multiset

/-!
# Who owns a class instance

The emitted code of whole programs, run with a world that knows where every
class instance is: in a variable of a call under way, as the value of an
expression, as the result of a function, or in a field or container.

Expressions are opaque to the emitter, so what one does to instances is written
in a script: any expression may do anything to instances, one thing after the
other, and give them any owner.  The world remembers what destroys an instance
that has another owner by then, or that has been destroyed before.
-/

namespace Dux.Codegen

open Dux.Logic (Outcome Run)

/-- What became of an instance since a variable, field or container got hold of
it: nothing, or it was returned or stored elsewhere, or its destruction began. -/
inductive Ownership
  | owned | moved | begun
  deriving DecidableEq

/-- Something worth remembering about a run.

`moved`: an instance that was returned or stored is destroyed out of the variable
it was in before.  `retried`: an instance is destroyed or moved although its
destruction began before.  `unset`: a clean-up or a `delete` reads a variable that
this call has not declared; a static variable may have been declared in another
one.  `shared`: an instance gets a second owner. -/
inductive Event
  | moved (i : Nat)
  | retried (i : Nat)
  | unset (x : Slot)
  | shared (i : Nat)
  deriving DecidableEq

/-- What is remembered when an instance is destroyed or taken away from where it
is. -/
def Ownership.events (i : Nat) : Ownership → List Event
  | .owned => []
  | .moved => [.moved i]
  | .begun => [.retried i]

inductive Content
  | null
  | holds (i : Nat) (o : Ownership)
  deriving DecidableEq

/-- What an expression or a `delete` does to instances, one thing after the
other. -/
inductive Act
  | new
  | read (x : Slot)
  | other
  | store
  | unstore (k : Nat)
  | assign (x : Slot)
  | call (symbol : String)
  | deleteVar (x : Slot) (cls : Option String)
  | deleteStored (k : Nat) (cls : Option String)
  | deleteValue
  | stop (answer : Answer)

/-- Whether it is the destruction of what a field holds. -/
def Act.isField : Act → Bool
  | .deleteStored _ _ => true
  | _ => false

/-- The variables of a call under way, and the instance that the last expression
or the function yields.  A value that stands in a variable is not owned by the
expression. -/
structure Activation where
  vars : List (Slot × Content) := []
  value : Option (Nat × Option Slot) := none
  result : Option Nat := none

/-- The calls under way, what fields and containers hold, the instances whose
destruction has begun and those that have been freed, and what the run is going
to be told. -/
structure Owners where
  top : Activation := {}
  below : List Activation := []
  stored : List (Nat × Ownership) := []
  next : Nat := 0
  begun : List Nat := []
  freed : List Nat := []
  events : List Event := []
  scripts : List (List Act) := []
  choices : List Nat := []

namespace Owners

def note (s : Owners) (es : List Event) : Owners := { s with events := es ++ s.events }

def withValue (s : Owners) (value : Option (Nat × Option Slot)) : Owners :=
  { s with top := { s.top with value := value } }

def setVar (s : Owners) (x : Slot) (v : Content) : Owners :=
  { s with top := { s.top with
      vars := (x, v) :: s.top.vars.filter (·.1 ≠ x), value := none } }

def begin (s : Owners) (i : Nat) : Owners := { s with begun := i :: s.begun }

def free (s : Owners) (i : Nat) : Owners := { s with freed := i :: s.freed }

/-- What fields and containers hold. -/
def withStored (s : Owners) (stored : List (Nat × Ownership)) : Owners :=
  { s with stored := stored }

def withResult (s : Owners) (result : Option Nat) : Owners :=
  { s with top := { s.top with result := result } }

def enter (s : Owners) : Owners :=
  { s with top := {}, below := { s.top with value := none } :: s.below }

def leave (s : Owners) : Owners :=
  match s.below with
  | [] => s
  | t :: rest => { s with top := t, below := rest }

/-- The value of an expression is taken over.  A variable that it stands in goes
on pointing to it. -/
def take (s : Owners) : Option Nat × Owners :=
  match s.top.value with
  | none => (none, s)
  | some (i, none) => (some i, s.withValue none)
  | some (i, some x) =>
      if s.top.vars.lookup x = some (.holds i .owned) then
        (some i, s.setVar x (.holds i .moved))
      else (some i, (s.withValue none).note [.shared i])

end Owners

section Running

-- the function behind a symbol, run one level down
variable (invoke : String → Owners → Answer × Owners)

/-- The destructor call of `emit_dtor` and `gen_delete`. -/
def callDtor (cls : Option String) (s : Owners) : Answer × Owners :=
  match cls with
  | none => (.ok, s)
  | some cls => invoke (cls ++ "___dtor") s

/-- `emit_dtor`, and `gen_delete` of a variable: behind the null check the
destructor, `free`, and null into the variable. -/
def destroyVar (x : Slot) (cls : Option String) (s : Owners) : Answer × Owners :=
  match s.top.vars.lookup x with
  | none => (.ok, s.note [.unset x])
  | some .null => (.ok, s)
  | some (.holds i o) =>
      match callDtor invoke cls (((s.note (o.events i)).setVar x (.holds i .begun)).begin i) with
      | (.ok, s') => (.ok, (s'.setVar x .null).free i)
      -- an exception leaves the pointer in the variable
      | r => r

/-- The same for what a field or container holds. -/
def destroyStored (k : Nat) (cls : Option String) (s : Owners) : Answer × Owners :=
  match s.stored[k]? with
  | none => (.ok, s)
  | some (i, o) =>
      let start := (s.withValue none).note (o.events i)
      match callDtor invoke cls ((start.withStored (s.stored.set k (i, .begun))).begin i) with
      | (.ok, s') => (.ok, (s'.withStored (s'.stored.erase (i, .begun))).free i)
      | r => r

def Act.run (s : Owners) : Act → Answer × Owners
  | .new => (.ok, { s with next := s.next + 1 }.withValue (some (s.next, none)))
  | .read x =>
      match s.top.vars.lookup x with
      | some (.holds i _) => (.ok, s.withValue (some (i, some x)))
      | some .null | none => (.ok, s.withValue none)
  | .other => (.ok, s.withValue none)
  | .store =>
      let (i, s) := s.take
      (.ok, s.withStored (i.toList.map (·, .owned) ++ s.stored))
  | .unstore k =>
      match s.stored[k]? with
      | none => (.ok, s)
      | some (i, o) =>
          (.ok, ((s.note (o.events i)).withStored (s.stored.eraseIdx k)).withValue
            (some (i, none)))
  | .assign x =>
      match s.top.value with
      | none => (.ok, s.setVar x .null)
      | some (i, none) => (.ok, s.setVar x (.holds i .owned))
      | some (i, some _) => (.ok, (s.setVar x (.holds i .owned)).note [.shared i])
  | .call symbol => invoke symbol (s.withValue none)
  | .deleteVar x cls => destroyVar invoke x cls s
  | .deleteStored k cls => destroyStored invoke k cls s
  | .deleteValue =>
      match s.top.value with
      | some (i, none) => (.ok, ((s.withValue none).begin i).free i)
      | some (i, some _) => (.ok, (((s.withValue none).note [.shared i]).begin i).free i)
      | none => (.ok, s)
  | .stop answer => (answer, s)

def runActs (s : Owners) : List Act → Answer × Owners
  | [] => (.ok, s)
  | act :: acts =>
      match act.run invoke s with
      | (.ok, s') => runActs s' acts
      | r => r

/-- The next script; `fields` restricts it to the destruction of fields. -/
def runScript (fields : Bool) (s : Owners) : Answer × Owners :=
  match s.scripts with
  | [] => (.ok, s)
  | script :: rest =>
      runActs invoke { s with scripts := rest }
        (if fields then script.filter Act.isField else script)

def ownersOp (o : Op) (s : Owners) : Answer × Owners :=
  match o with
  | .eval _ | .delete _ => runScript invoke false s
  | .declare x => (Act.assign x).run invoke s
  | .retainResult =>
      let (i, s) := s.take
      (.ok, s.withResult i)
  | .cleanup (.dtor x cls) => destroyVar invoke x (some cls) s
  | .cleanup (.release _ _) | .cleanup (.deferBody _ _) | .cleanup (.call _) | .releaseStr _
  | .loopInit _ | .loopElement _ | .loopStep _ | .bindPayload _ | .bindCatch _ | .beginCatch =>
      (.ok, s)

def ownersChoice (_ : Choice) (s : Owners) : Nat × Owners :=
  (s.choices.headD 0, { s with choices := s.choices.tail })

def ownersWorld : World Owners where
  op := ownersOp invoke
  choose := ownersChoice

end Running

namespace Module

variable (m : Module) (nest : Nat) (globals : List Item) (N : Nat)

/-- The end of a call: the exception, or the result as the value of the
expression. -/
def returned (r : Outcome × Owners) : Answer × Owners :=
  let back := r.2.leave
  match r.1 with
  | .normal | .ret | .br _ _ => (.ok, back.withValue (r.2.top.result.map fun i => (i, none)))
  | .raise | .escape => (.raise, back)
  | .abort | .timeout => (.abort, back)

/-- A call, with calls nested at most so deep; a function without code here
does nothing to instances. -/
def runFunction : Nat → String → Owners → Answer × Owners
  | 0, _, s => (.abort, s)
  | depth + 1, symbol, s =>
      match m.functionCode nest globals symbol with
      | none => (.ok, s)
      | some code =>
          let invoke := runFunction depth
          returned (code.run (ownersWorld invoke) (runScript invoke true) globals N s.enter)

end Module

/-! ## One owner for every instance -/

def Ownership.held (i : Nat) : Ownership → Multiset Nat
  | .owned => {i}
  | .moved | .begun => 0

def Content.held : Content → Multiset Nat
  | .null => 0
  | .holds i o => o.held i

def varsHeld (vars : List (Slot × Content)) : Multiset Nat := (vars.map fun v => v.2.held).sum

def storedHeld (stored : List (Nat × Ownership)) : Multiset Nat :=
  (stored.map fun v => v.2.held v.1).sum

def valueHeld : Option (Nat × Option Slot) → Multiset Nat
  | some (i, none) => {i}
  | some (_, some _) => 0
  | none => 0

def resultHeld (v : Option Nat) : Multiset Nat := v.elim 0 fun i => {i}

def Activation.held (a : Activation) : Multiset Nat :=
  varsHeld a.vars + (valueHeld a.value + resultHeld a.result)

/-- Every place an instance can be in: with an owner, or destroyed. -/
def Owners.places (s : Owners) : Multiset Nat :=
  s.top.held + ((s.below.map Activation.held).sum + (storedHeld s.stored + s.begun))

/-- Every instance has one owner, or its destruction has begun once. -/
structure Owners.Placed (s : Owners) : Prop where
  nodup : s.places.Nodup
  bounded : ∀ i ∈ s.places, i < s.next

/-- And nothing has been freed that has not been destroyed. -/
structure Owners.Single (s : Owners) : Prop extends s.Placed where
  freed : (s.freed : Multiset Nat) ≤ s.begun

/-- Destructors and `free` run at most once, and neither for an instance that is
returned, or that a field or container owns. -/
structure Owners.DestroyedOnce (s : Owners) : Prop where
  begun : s.begun.Nodup
  freed : s.freed.Nodup
  returned : ∀ i, s.top.value = some (i, none) → i ∉ s.begun ∧ i ∉ s.freed
  stored : ∀ i, (i, .owned) ∈ s.stored → i ∉ s.begun ∧ i ∉ s.freed

end Dux.Codegen
