import Dux.Codegen.Strings
import Dux.Logic.Ledger

/-!
# Counting strings, lists and dictionaries

The emitted code of whole programs, run with a world that keeps the accounts of
`str`, `list` and `dict` objects: every count taken and given back, and the place
of every count that is not given back yet.

A count comes with a new object and with a retain.  It belongs to the reference
that the code got with it, in a variable, among the operands of an expression, as
the result of a function, in a field or in a container, and moves along with that
reference.  A count whose reference goes away without a release is lost.  The
program sees none of this.
-/

namespace Dux.Codegen.Objects

open Dux.Logic (Ledger Outcome)
open Dux.Codegen.Str (functionDecl paramSlots)

/-- The object a value points to, if it is one that is counted at all, and whether
a count belongs to the reference.  String literals, frame buffers and null are not
counted, nor are numbers and instances. -/
structure Holding where
  object : Option Nat := none
  counted : Bool := false
  deriving DecidableEq

namespace Holding

/-- The same reference without its count. -/
def borrowed (h : Holding) : Holding := { h with counted := false }

/-- A new object with its first count. -/
def fresh (i : Nat) : Holding := ⟨some i, true⟩

/-- The counts that belong to the reference. -/
def counts (h : Holding) : List Nat := if h.counted then h.object.toList else []

end Holding

/-- The value of an expression, and whether it is a call in the emitted code. -/
structure Operand where
  holding : Holding := {}
  isCall : Bool := false
  deriving DecidableEq

/-- Where a count is lost.

`operand`: with an operand that nothing takes over.  `retained`: with a reference
that takes another count.  `variable`: with what a variable held before something
is stored to it.  `frame`: with a variable of a call that ends.  `result`: with the
result of a call that raises, or that gets another result.  `container`: with what a
field or container held. -/
inductive Place
  | operand | retained | variable | frame | result | container
  deriving DecidableEq

/-- A count that is lost. -/
structure Loss where
  place : Place
  object : Nat
  deriving DecidableEq

/-- What a field or container holds, and the list or dictionary it is held by; `none`
stands for an instance. -/
structure Element where
  owner : Option Nat
  holding : Holding
  deriving DecidableEq

/-- The local variables of a call. -/
abbrev Vars := List (Slot × Holding)

namespace Vars

/-- Store into a variable what depends on its contents, and hand these out. -/
def update (f : Option Holding → Holding) : Vars → Slot → Option Holding × Vars
  | [], x => (none, [(x, f none)])
  | (y, h) :: vars, x =>
      if y = x then (some h, (x, f (some h)) :: vars)
      else ((update f vars x).1, (y, h) :: (update f vars x).2)

end Vars

/-- A call under way. -/
structure Call where
  vars : Vars := []
  stack : List Operand := []
  result : Option Holding := none

/-- How something gets into a field or container: `gen_enum_variant` retains it
always, an assignment to a field as `maybe_retain_*` does, and a list, a dictionary
or a field initialiser never. -/
inductive Storing
  | always | unlessCall | never

/-- What a function of the runtime returns: nothing that is counted, a new object, or
one of its arguments with another count. -/
inductive Returned
  | plain | fresh | argument (k : Nat)

/-- What an expression or a `delete` does, one thing after the other.  Every value is
an operand.  A variable is named with the number of calls to go down to it, since a
closure reads and assigns the variables it has captured. -/
inductive Act
  | plain
  | read (d : Nat) (x : Slot)
  | load (k : Nat) (isCall : Bool)
  | runtime (args : Nat) (returned : Returned) (inTry : Bool)
  | call (symbol : String) (args : Nat) (inTry : Bool)
  | lambda (params : List Slot) (body : List Act)
  | assign (d : Nat) (x : Slot) (isRc : Bool)
  | bind (x : Slot)
  | declare (x : Slot) (isRc : Bool)
  | release (x : Slot) (nulls : Bool)
  | result (isRc : Bool)
  | store (how : Storing) (container : Nat)
  | forget (k : Nat)
  | drop
  | deleteVar (d : Nat) (x : Slot)
  | deleteElement (k : Nat)
  | deleteOperand
  | stop (answer : Answer)

/-- What the run is told about expressions: what evaluating one does that `genValue`
leaves open, and which element an index reads. -/
structure Reading where
  acts : Expr → List Act
  element : Expr → Nat

mutual

/-- `gen_expr` for literals, sums of strings, lists, reads by index and the built-in
functions that read their argument. -/
def genValue (reading : Reading) : Expr → List Act
  | .stringLit _ _ | .intLit _ _ | .longLit _ _ | .floatLit _ _ | .realLit _ _ | .boolLit _ _
  | .nullLit _ => [.plain]
  | .binary tid .add left right =>
      if left.tid = TypeRegistry.TID_STR ∧ right.tid = TypeRegistry.TID_STR then
        genValue reading left ++ genValue reading right ++ [.runtime 2 .fresh false]
      else reading.acts (.binary tid .add left right)
  | .list _ elements => .runtime 0 .fresh false :: genElements reading elements
  | .index tid object index =>
      if object.tid = TypeRegistry.TID_LIST ∨ object.tid = TypeRegistry.TID_DICT then
        genValue reading object ++ genValue reading index ++
          [.runtime 2 .plain false, .drop, .load (reading.element (.index tid object index)) true]
      else if object.tid = TypeRegistry.TID_STR then
        genValue reading object ++ genValue reading index ++ [.runtime 2 .fresh false]
      else reading.acts (.index tid object index)
  | .call tid (.ident calleeTid name) [arg] =>
      if name = "println" ∨ name = "print" ∨ name = "len" then
        genValue reading arg ++ [.runtime 1 .plain false]
      else reading.acts (.call tid (.ident calleeTid name) [arg])
  | e => reading.acts e

def genElements (reading : Reading) : List Expr → List Act
  | [] => []
  | e :: es => genValue reading e ++ [.store .never 0, .drop] ++ genElements reading es

end

/-- The call under way and its callers, what fields and containers hold, the number of
objects made so far, the counts taken and given back, the counts that were lost, those
that were given back for a reference without one, and what the run is going to be
told. -/
structure Store where
  frame : Call := {}
  callers : List Call := []
  stored : List Element := []
  objects : Nat := 0
  ledger : Ledger Nat := {}
  losses : List Loss := []
  unowned : List Nat := []
  scripts : List (List Act) := []
  choices : List Nat := []

namespace Store

def lose (s : Store) (place : Place) (hs : List Holding) : Store :=
  { s with losses := (hs.flatMap Holding.counts).map (⟨place, ·⟩) ++ s.losses }

def push (s : Store) (v : Operand) : Store :=
  { s with frame := { s.frame with stack := v :: s.frame.stack } }

def pop (s : Store) : Operand × Store :=
  (s.frame.stack.headD {}, { s with frame := { s.frame with stack := s.frame.stack.tail } })

def drop (s : Store) (n : Nat) : Store :=
  { s with frame := { s.frame with stack := s.frame.stack.drop n } }.lose .operand
    ((s.frame.stack.take n).map Operand.holding)

def clear (s : Store) : Store := s.drop s.frame.stack.length

/-- A call under way, so many calls down. -/
def call? (s : Store) (d : Nat) : Option Call := (s.frame :: s.callers)[d]?

/-- Change the variables of a call under way. -/
def withVars (s : Store) (d : Nat) (vars : Vars) : Store :=
  match d with
  | 0 => { s with frame := { s.frame with vars := vars } }
  | d + 1 => { s with callers := s.callers.modify d fun c => { c with vars := vars } }

def var (s : Store) (d : Nat) (x : Slot) : Option Holding :=
  (s.call? d).bind fun c => c.vars.lookup x

def setVar (s : Store) (d : Nat) (x : Slot) (h : Holding) : Store :=
  match s.call? d with
  | none => s.lose .variable [h]
  | some c =>
      let (old, vars) := c.vars.update (fun _ => h) x
      (s.withVars d vars).lose .variable old.toList

def make (s : Store) : Holding × Store :=
  (.fresh s.objects,
    { s with objects := s.objects + 1, ledger := s.ledger.acquire {s.objects} })

/-- `duxrt_str_retain` and its counterparts. -/
def retain (s : Store) (h : Holding) : Holding × Store :=
  match h.object with
  | none => (h, s)
  | some i => (.fresh i, { s with ledger := s.ledger.acquire {i} }.lose .retained [h])

/-- `maybe_retain_str`, `maybe_retain_list` and `maybe_retain_dict`. -/
def maybeRetain (s : Store) (v : Operand) : Holding × Store :=
  if v.isCall then (v.holding, s) else s.retain v.holding

/-- `maybe_retain_*`, where the type says so. -/
def take (s : Store) (isRc : Bool) (v : Operand) : Holding × Store :=
  if isRc then s.maybeRetain v else (v.holding, s)

/-- All counts of an object have been given back. -/
def isFree (s : Store) (i : Nat) : Bool :=
  s.ledger.acquired.count i ≤ s.ledger.released.count i

/-- The memory of a list or dictionary is freed, which releases none of its elements. -/
def free (s : Store) (i : Nat) : Store :=
  { s with stored := s.stored.filter fun (e : Element) => e.owner ≠ some i }.lose .container
    ((s.stored.filter fun (e : Element) => e.owner = some i).map Element.holding)

/-- A reference to an object gives a count back. -/
def giveBack (s : Store) (h : Holding) (i : Nat) : Store :=
  { s with
    ledger := s.ledger.release {i}
    unowned := if h.counted then s.unowned else i :: s.unowned }

/-- `duxrt_str_release` and its counterparts, for a reference that is not held any
more. -/
def release (s : Store) (h : Holding) : Store :=
  match h.object with
  | none => s
  | some i => if (s.giveBack h i).isFree i then (s.giveBack h i).free i else s.giveBack h i

/-- The release of what is in a variable, which keeps the pointer or is set to null. -/
def releaseVar (s : Store) (d : Nat) (x : Slot) (nulls : Bool) : Store :=
  match s.call? d with
  | none => s
  | some c =>
      let (old, vars) := c.vars.update
        (fun old => if nulls then {} else (old.getD {}).borrowed) x
      (s.withVars d vars).release (old.getD {})

def declare (s : Store) (x : Slot) (isRc : Bool) : Store :=
  let (v, s) := s.pop
  let (h, s) := s.take isRc v
  s.setVar 0 x h

def withResult (s : Store) (h : Holding) : Store :=
  { s with frame := { s.frame with result := some h } }.lose .result s.frame.result.toList

def setResult (s : Store) (isRc : Bool) : Store :=
  let (v, s) := s.pop
  let (h, s) := s.take isRc v
  s.withResult h

/-- `gen_assign` to a variable, by the type of the value: what the variable held is
released before the new value is retained, and the value of the expression is then the
call of the retain function. -/
def assign (s : Store) (d : Nat) (x : Slot) (isRc : Bool) : Store :=
  let (v, s) := s.pop
  let s := if isRc then s.releaseVar d x false else s
  let (h, s) := s.take isRc v
  (s.setVar d x h).push ⟨h.borrowed, isRc || v.isCall⟩

def store (s : Store) (how : Storing) (container : Nat) : Store :=
  let (v, s) := s.pop
  let owner := s.frame.stack[container]?.bind fun v => v.holding.object
  let (h, s) :=
    match how with
    | .always => s.retain v.holding
    | .unlessCall => s.maybeRetain v
    | .never => (v.holding, s)
  { s with stored := ⟨owner, h⟩ :: s.stored }.push ⟨h.borrowed, v.isCall⟩

/-- What a field or container holds goes away. -/
def forget (s : Store) (k : Nat) : Store :=
  { s with stored := s.stored.eraseIdx k }.lose .container (s.stored[k]?.map Element.holding).toList

/-- A function of the runtime only reads its arguments. -/
def runtime (s : Store) (args : Nat) (returned : Returned) (inTry : Bool) : Store :=
  match returned with
  | .plain => (s.drop args).push {}
  | .fresh =>
      let (h, s) := (s.drop args).make
      s.push ⟨h, !inTry⟩
  | .argument k =>
      let (h, s) := (s.drop args).retain (s.frame.stack[k]?.getD {}).holding.borrowed
      s.push ⟨h, !inTry⟩

/-- Enter a call with these parameters, which the last operands are bound to.  The
parameters own no counts, and no one releases the operands. -/
def enter (s : Store) (params : List Slot) (args : Nat) : Store :=
  let operands := (s.frame.stack.take args).reverse
  let caller := s.drop args
  { caller with
    frame := { vars := params.zip (operands.map fun v => v.holding.borrowed) }
    callers := caller.frame :: caller.callers }

/-- The variables and operands of a call go away with it. -/
def quit (s : Store) : Store :=
  { s with frame := s.callers.headD {}, callers := s.callers.tail }.lose .frame
    (s.frame.vars.map Prod.snd ++ s.frame.stack.map Operand.holding)

/-- Leave a call, with its result as an operand unless it has raised.  Inside a `try`
block that is the result of an `invoke` and not of a call. -/
def leave (s : Store) (returns inTry : Bool) : Store :=
  match s.frame.result with
  | none => s.quit
  | some h => if returns then s.quit.push ⟨h, !inTry⟩ else s.quit.lose .result [h]

end Store

section Running

-- the function behind a symbol, run one level down
variable (invoke : String → Nat → Bool → Store → Answer × Store)

mutual

def Act.run : Act → Store → Answer × Store
  | .plain, s => (.ok, s.push {})
  | .read d x, s => (.ok, s.push ⟨((s.var d x).getD {}).borrowed, false⟩)
  | .load k isCall, s =>
      (.ok, s.push ⟨((s.stored[k]?.map Element.holding).getD {}).borrowed, isCall⟩)
  | .runtime args returned inTry, s => (.ok, s.runtime args returned inTry)
  | .call symbol args inTry, s => invoke symbol args inTry s
  | .lambda params body, s =>
      let (a, s) := runActs body (s.enter params params.length)
      (a, s.leave (a = .ok) false)
  | .assign d x isRc, s => (.ok, s.assign d x isRc)
  | .bind x, s =>
      let (v, s) := s.pop
      (.ok, s.setVar 0 x v.holding)
  | .declare x isRc, s => (.ok, s.declare x isRc)
  | .release x nulls, s => (.ok, s.releaseVar 0 x nulls)
  | .result isRc, s => (.ok, s.setResult isRc)
  | .store how container, s => (.ok, s.store how container)
  | .forget k, s => (.ok, s.forget k)
  | .drop, s => (.ok, s.drop 1)
  | .deleteVar d x, s => (.ok, s.releaseVar d x true)
  | .deleteElement k, s =>
      (.ok, { s with stored := s.stored.eraseIdx k }.release
        ((s.stored[k]?.map Element.holding).getD {}))
  | .deleteOperand, s =>
      let (v, s) := s.pop
      (.ok, s.release v.holding)
  | .stop answer, s => (answer, s)

def runActs : List Act → Store → Answer × Store
  | [], s => (.ok, s)
  | act :: acts, s =>
      match act.run s with
      | (.ok, s') => runActs acts s'
      | r => r

end

/-- The next script, for an expression that starts without operands. -/
def runScript (s : Store) : Answer × Store :=
  match s.scripts with
  | [] => (.ok, s.clear)
  | script :: rest =>
      match runActs invoke script { s.clear with scripts := rest } with
      | (.ok, s') => (.ok, s')
      | (a, s') => (a, s'.clear)

-- whether a variable and the result are of type `str`, `list` or `dict`
variable (isRc : Slot → Bool) (returnsRc : Bool)

/-- What an instruction does. -/
def objectOp (o : Op) (s : Store) : Answer × Store :=
  match o with
  | .eval _ | .delete _ | .loopElement _ | .bindPayload _ | .cleanup (.dtor _ _) =>
      runScript invoke s
  | .declare x => (.ok, s.declare x (isRc x))
  | .retainResult => (.ok, s.setResult returnsRc)
  | .releaseStr x => (.ok, s.releaseVar 0 x false)
  | .cleanup (.release x _) => (.ok, s.releaseVar 0 x true)
  | .cleanup (.deferBody _ _) | .cleanup (.call _) | .loopInit _ | .loopStep _ | .bindCatch _
  | .beginCatch => (.ok, s)

/-- Which way a branch goes. -/
def objectChoice (_ : Choice) (s : Store) : Nat × Store :=
  (s.choices.headD 0, { s with choices := s.choices.tail })

/-- The world of counted objects. -/
def objectWorld : World Store where
  op := objectOp invoke isRc returnsRc
  choose := objectChoice

end Running

/-- The variable whose count an entry gives back. -/
def countedSlot : Entry → Option Slot
  | .str x => some x
  | .release x _ => some x
  | .dtor _ _ | .defer _ | .call _ => none

mutual

/-- The counted variables that an instruction registers. -/
def countedIn : Instr → List Slot
  | .mark (.register e) => (countedSlot e).toList
  | .branch _ arms => countedOfArms arms
  | .loop _ test _ body next => countedOf test ++ countedOf body ++ countedOf next
  | .switch _ cases => countedOfArms cases
  | .tryCatch body _ pad exit handler =>
      countedOf body ++ countedOf pad ++ countedOf exit ++ countedOf handler
  | .op _ | .mark _ | .br _ _ | .ret | .raise | .escape | .abort => []

/-- The counted variables that code registers. -/
def countedOf : List Instr → List Slot
  | [] => []
  | i :: is => countedIn i ++ countedOf is

/-- The counted variables that several pieces of code register. -/
def countedOfArms : List (List Instr) → List Slot
  | [] => []
  | is :: arms => countedOf is ++ countedOfArms arms

end

/-- The counted variables of a function. -/
def countedVars : FunctionCode → List Slot
  | .plain is => countedOf is
  | .dtor is => countedOf is.body ++ countedOf is.exit

/-- The types of counted objects. -/
def isRcType (tid : TypeId) : Bool :=
  tid = TypeRegistry.TID_STR || tid = TypeRegistry.TID_LIST || tid = TypeRegistry.TID_DICT

section Module

variable (m : Module) (nest : Nat) (globals : List Item) (N : Nat)

/-- The end of a call. -/
def returned (inTry : Bool) (r : Outcome × Store) : Answer × Store :=
  match r.1 with
  | .normal | .ret | .br _ _ => (.ok, r.2.leave true inTry)
  | .raise | .escape => (.raise, r.2.leave false inTry)
  | .abort | .timeout => (.abort, r.2.leave false inTry)

/-- A call with the last operands as its arguments, with calls nested at most so deep.
A function without code here keeps its arguments where they are; what it does is
written in the script around the call. -/
def runFunction : Nat → String → Nat → Bool → Store → Answer × Store
  | 0, _, _, _, s => (.abort, s)
  | depth + 1, symbol, args, inTry, s =>
      match functionDecl m symbol, m.functionCode nest globals symbol with
      | some f, some code =>
          let invoke := runFunction depth
          let isRc := fun x => decide (x ∈ countedVars code)
          let returnsRc := isRcType (m.ls.types.fromTypeExpr f.returnType)
          returned inTry (code.run (objectWorld invoke isRc returnsRc) (runScript invoke) globals N
            (s.enter (paramSlots f) args))
      | _, _ => (.ok, s)

/-- Run a program.  Whoever calls `main` keeps nothing. -/
def runMain (depth : Nat) (scripts : List (List Act)) (choices : List Nat) : Answer × Store :=
  let (a, s) := runFunction m nest globals N depth "main" 0 false { scripts, choices }
  (a, s.leave false false)

end Module

namespace Store

/-- The object has been released to count zero. -/
def Released (s : Store) (i : Nat) : Prop :=
  s.ledger.acquired.count i ≤ s.ledger.released.count i

def Stored (s : Store) (i : Nat) : Prop := ∃ e ∈ s.stored, e.holding.object = some i

def Lost (s : Store) (i : Nat) : Prop := ∃ loss ∈ s.losses, loss.object = i

end Store

end Dux.Codegen.Objects
