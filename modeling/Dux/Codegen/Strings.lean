import Dux.Codegen.Functions
import Mathlib.Algebra.Order.Group.Multiset

/-!
# Who holds a string

The emitted code of whole programs, run with a world that knows every reference
to a string: in a variable of a call under way, among the operands of an
expression, as the result of a function, in a field or container.

The characters of a string are in a literal, in the heap, where they are freed
with the last count, or in the frame of a call, where `__fstr_to_str` formats an
integer (`src/codegen/codegen.cpp`).  Literals and frame buffers have the count
`-1`, which `duxrt_str_retain` and `duxrt_str_release` leave alone
(`src/runtime/str.c`).

Every reference remembers the characters that were there when it was obtained,
and whether a count belongs to it; the program sees neither.
-/

namespace Dux.Codegen.Str

open Dux.Logic (Outcome Run)

/-- Where the characters of a string are. -/
inductive Ref
  | literal (text : String)
  | heap (i : Nat)
  | buffer (call site : Nat)
  deriving DecidableEq

/-- Whether the characters are in the frame of a call. -/
def Ref.isBufferOf (id : Nat) : Ref → Bool
  | .buffer call _ => call = id
  | .literal _ | .heap _ => false

/-- A reference, the characters it was obtained with, and whether a count belongs
to it. -/
structure Holding where
  ref : Ref
  text : String
  counted : Bool := false
  deriving DecidableEq

def Holding.borrowed (h : Holding) : Holding := { h with counted := false }

def Holding.literal (text : String) : Holding := ⟨.literal text, text, false⟩

/-- The null pointer, which reads like the empty string. -/
def Holding.null : Holding := .literal ""

/-- A string in the heap with its first count. -/
def Holding.fresh (i : Nat) (text : String) : Holding := ⟨.heap i, text, true⟩

/-- An operand, and whether it is the result of a call in the emitted code. -/
structure Operand where
  holding : Holding
  isCall : Bool
  deriving DecidableEq

/-- Something worth remembering about a run.

`rewritten`: a frame buffer gets other characters while something points to it.
`outlived`: a call ends while something else points to its buffers or variables.
`freed`: a string is freed while a reference without a count points to it.
`uncounted`: a count is given back that does not belong to the reference.
`stale`: a variable is used that this call has not declared, or whose count has
been given back.  `captured`: a variable is released that a closure points to. -/
inductive Event
  | rewritten (call site : Nat)
  | outlived (call : Nat)
  | freed (i : Nat)
  | uncounted (i : Nat)
  | stale (x : Slot)
  | captured (x : Slot)
  deriving DecidableEq

/-- A call under way.  A variable that has been released holds nothing. -/
structure Call where
  id : Nat
  vars : List (Slot × Option Holding) := []
  stack : List Operand := []
  result : Option Holding := none
  buffers : List (Nat × String) := []

/-- How a string gets into a field or container: `gen_enum_variant` retains it
always, an assignment to a field as `maybe_retain_str` does, and a list, a
dictionary or a field initialiser never. -/
inductive Storing
  | always | unlessCall | never

/-- What an expression does to strings, one thing after the other.  A variable is
named with the number of calls to go down to it, since a closure reads and
assigns the variables it has captured. -/
inductive Act
  | literal (text : String)
  | fresh (text : String)
  | format (site : Nat) (n : Int)
  | concat
  | read (d : Nat) (x : Slot)
  | load (k : Nat) (isCall : Bool)
  | drop
  | assign (d : Nat) (x : Slot)
  | bind (x : Slot)
  | store (how : Storing)
  | forget (k : Nat)
  | capture (d : Nat) (x : Slot)
  | freeClosure (k : Nat)
  | call (symbol : String) (args : Nat) (inTry : Bool)
  | lambda (params : List Slot) (body : List Act)
  | declare (x : Slot) (isStr : Bool)
  | release (x : Slot)
  | result (isStr : Bool)
  | deleteVar (d : Nat) (x : Slot)
  | deleteStored (k : Nat)
  | deleteOperand
  | stop (answer : Answer)

/-- The calls under way, innermost first, what fields and containers hold, the
variables closures point to, the strings in the heap and their counts, and what
the run is going to be told. -/
structure Store where
  calls : List Call := []
  stored : List Holding := []
  envs : List (Nat × Slot) := []
  texts : List String := []
  counts : List Nat := []
  nextCall : Nat := 0
  statics : List Slot := []
  events : List Event := []
  scripts : List (List Act) := []
  choices : List Nat := []

def Call.holdings (c : Call) : List Holding :=
  c.vars.filterMap (·.2) ++ (c.stack.map (·.holding) ++ c.result.toList)

namespace Store

def holdings (s : Store) : List Holding := s.calls.flatMap Call.holdings ++ s.stored

/-- The frame buffers of the calls under way. -/
def buffers (s : Store) : List (Nat × List (Nat × String)) :=
  s.calls.map fun c => (c.id, c.buffers)

def read (s : Store) : Ref → Option String
  | .literal text => some text
  | .heap i => if i ∈ s.counts then s.texts[i]? else none
  | .buffer call site => (s.buffers.lookup call).bind (·.lookup site)

def note (s : Store) (e : Event) : Store := { s with events := e :: s.events }

def noteIf (s : Store) (happens : Bool) (e : Event) : Store := if happens then s.note e else s

def onCall (s : Store) (d : Nat) (f : Call → Call) : Store :=
  { s with calls := s.calls.modify d f }

def push (s : Store) (v : Operand) : Store :=
  s.onCall 0 fun c => { c with stack := v :: c.stack }

def pop (s : Store) : Option (Operand × Store) :=
  match s.calls with
  | [] => none
  | c :: cs =>
      match c.stack with
      | [] => none
      | v :: vs => some (v, { s with calls := { c with stack := vs } :: cs })

def var (s : Store) (d : Nat) (x : Slot) : Option Holding :=
  ((s.calls[d]?.bind fun c => c.vars.lookup x)).join

/-- Whether the variable has been declared, though it may have been released. -/
def declares (s : Store) (d : Nat) (x : Slot) : Bool :=
  match s.calls[d]? with
  | none => false
  | some c => c.vars.any (·.1 = x)

def setVar (s : Store) (d : Nat) (x : Slot) (h : Option Holding) : Store :=
  s.onCall d fun c => { c with vars := (x, h) :: c.vars.filter (·.1 ≠ x) }

def allocate (s : Store) (text : String) : Holding × Store :=
  (.fresh s.texts.length text,
    { s with texts := s.texts ++ [text], counts := s.texts.length :: s.counts })

/-- `duxrt_str_retain`. -/
def retain (s : Store) (h : Holding) : Holding × Store :=
  match h.ref with
  | .heap i => ({ h with counted := true }, { s with counts := i :: s.counts })
  | .literal _ | .buffer _ _ => (h, s)

/-- `maybe_retain_str`. -/
def maybeRetain (s : Store) (v : Operand) : Holding × Store :=
  if v.isCall then (v.holding, s) else s.retain v.holding

/-- `duxrt_str_release` of a reference that is not held any more. -/
def release (s : Store) (h : Holding) : Store :=
  match h.ref with
  | .heap i =>
      let s' := { s with counts := s.counts.erase i }
      (s'.noteIf (!h.counted) (.uncounted i)).noteIf
        (i ∉ s'.counts && s'.holdings.any fun h => h.ref = .heap i && !h.counted) (.freed i)
  | .literal _ | .buffer _ _ => s

def newCall (s : Store) (vars : List (Slot × Option Holding)) : Store :=
  { s with calls := { id := s.nextCall, vars := vars } :: s.calls, nextCall := s.nextCall + 1 }

/-- Enter a call with these parameters, which the last operands are bound to. -/
def enter (s : Store) (params : List Slot) (args : Nat) : Store :=
  let operands := ((s.calls.head?.elim [] Call.stack).take args).reverse
  (s.onCall 0 fun c => { c with stack := c.stack.drop args }).newCall
    (params.zip (operands.map fun v => some v.holding.borrowed))

/-- These calls go on, the innermost one with the result of a call.  Inside a `try`
block that is an `invoke` and not a call. -/
def backTo (s : Store) (cs : List Call) (result : Option Holding) (inTry : Bool) : Store :=
  let back := { s with calls := cs }
  match result with
  | some h => back.push ⟨h, !inTry⟩
  | none => back

/-- Leave a call, with its result as an operand unless it has raised. -/
def leave (s : Store) (returns inTry : Bool) : Store :=
  match s.calls with
  | [] => s
  | c :: cs =>
      let back := s.backTo cs (if returns then c.result else none) inTry
      back.noteIf (back.holdings.any (·.ref.isBufferOf c.id) || back.envs.any (·.1 = c.id))
        (.outlived c.id)

/-- Declare a variable; only one of type `str` takes a count, and not if it is
static. -/
def declare (s : Store) (x : Slot) (isStr : Bool) : Store :=
  match s.pop with
  | none => s.setVar 0 x (some .null)
  | some (v, s) =>
      if isStr && x ∉ s.statics then
        let (h, s) := s.maybeRetain v
        s.setVar 0 x (some h)
      else s.setVar 0 x (some v.holding)

/-- The release of a variable at the end of a scope. -/
def releaseVar (s : Store) (x : Slot) : Store :=
  match s.var 0 x with
  | none => s.note (.stale x)
  | some h =>
      ((s.setVar 0 x none).release h).noteIf
        (s.envs.any fun e => (s.calls.head?.any fun c => c.id = e.1) && e.2 = x) (.captured x)

/-- The result of a function; only one of type `str` takes a count. -/
def setResult (s : Store) (isStr : Bool) : Store :=
  match s.pop with
  | none => s
  | some (v, s) =>
      let (h, s) := if isStr then s.maybeRetain v else (v.holding, s)
      s.onCall 0 fun c => { c with result := some h }

/-- The release of what an assignment overwrites. -/
def releaseOld (s : Store) (d : Nat) (x : Slot) : Store :=
  match s.var d x with
  | none => s.noteIf (x ∈ s.statics || s.declares d x) (.stale x)
  | some old => (s.setVar d x (some .null)).release old

/-- `gen_assign` to a variable: the old reference is released before the new one
takes a count, and the value of the expression is the result of a call. -/
def assign (s : Store) (d : Nat) (x : Slot) : Store :=
  let s := s.releaseOld d x
  match s.pop with
  | none => s
  | some (v, s) =>
      let (h, s) := s.maybeRetain v
      (s.setVar d x (some h)).push ⟨h.borrowed, true⟩

/-- The innermost call `c` writes into a frame buffer. -/
def rewrite (s : Store) (c : Call) (cs : List Call) (site : Nat) (text : String) : Store :=
  { s with calls := { c with buffers := (site, text) :: c.buffers.filter (·.1 ≠ site) } :: cs }

/-- `__fstr_to_str` of an integer. -/
def format (s : Store) (site : Nat) (n : Int) : Store :=
  match s.calls with
  | [] => s
  | c :: cs =>
      ((s.rewrite c cs site (toString n)).noteIf
        (s.holdings.any fun h => h.ref = .buffer c.id site && h.text ≠ toString n)
        (.rewritten c.id site)).push ⟨⟨.buffer c.id site, toString n, false⟩, false⟩

/-- `duxrt_str_concat`, which reads the null pointer as the empty string. -/
def concat (s : Store) : Store :=
  let (r, s₁) := s.pop.getD (⟨.null, false⟩, s)
  let (l, s₂) := s₁.pop.getD (⟨.null, false⟩, s₁)
  let (h, s₃) := s₂.allocate ((s.read l.holding.ref).getD "" ++ (s.read r.holding.ref).getD "")
  s₃.push ⟨h, true⟩

/-- Store into a field or container. -/
def store (s : Store) (how : Storing) : Store :=
  match s.pop with
  | none => s
  | some (v, s) =>
      let (h, s) :=
        match how with
        | .always => s.retain v.holding
        | .unlessCall => s.maybeRetain v
        | .never => (v.holding, s)
      { s with stored := h :: s.stored }

end Store

section Running

-- the function behind a symbol, run one level down
variable (invoke : String → Nat → Bool → Store → Answer × Store)

mutual

def Act.run : Act → Store → Answer × Store
  | .literal text, s => (.ok, s.push ⟨.literal text, false⟩)
  | .fresh text, s =>
      let (h, s) := s.allocate text
      (.ok, s.push ⟨h, true⟩)
  | .format site n, s => (.ok, s.format site n)
  | .concat, s => (.ok, s.concat)
  | .read d x, s =>
      match s.var d x with
      | none => (.ok, s.note (.stale x))
      | some h => (.ok, s.push ⟨h.borrowed, false⟩)
  | .load k isCall, s =>
      match s.stored[k]? with
      | none => (.ok, s)
      | some h => (.ok, s.push ⟨h.borrowed, isCall⟩)
  | .drop, s =>
      match s.pop with
      | none => (.ok, s)
      | some (_, s) => (.ok, s)
  | .assign d x, s => (.ok, s.assign d x)
  | .bind x, s =>
      match s.pop with
      | none => (.ok, s)
      | some (v, s) => (.ok, s.setVar 0 x (some v.holding.borrowed))
  | .store how, s => (.ok, s.store how)
  | .forget k, s => (.ok, { s with stored := s.stored.eraseIdx k })
  | .capture d x, s =>
      match s.calls[d]?, s.var d x with
      | some c, some _ => (.ok, { s with envs := (c.id, x) :: s.envs })
      | _, _ => (.ok, s.note (.stale x))
  | .freeClosure k, s => (.ok, { s with envs := s.envs.eraseIdx k })
  | .call symbol args inTry, s => invoke symbol args inTry s
  | .lambda params body, s =>
      let (a, s) := runActs body (s.enter params params.length)
      (a, s.leave (a = .ok) false)
  | .declare x isStr, s => (.ok, s.declare x isStr)
  | .release x, s => (.ok, s.releaseVar x)
  | .result isStr, s => (.ok, s.setResult isStr)
  | .deleteVar d x, s =>
      match s.var d x with
      | none => (.ok, s.note (.stale x))
      | some h => (.ok, (s.setVar d x (some .null)).release h)
  | .deleteStored k, s =>
      match s.stored[k]? with
      | none => (.ok, s)
      | some h => (.ok, { s with stored := s.stored.eraseIdx k }.release h)
  | .deleteOperand, s =>
      match s.pop with
      | none => (.ok, s)
      | some (v, s) => (.ok, s.release v.holding)
  | .stop answer, s => (answer, s)

def runActs : List Act → Store → Answer × Store
  | [], s => (.ok, s)
  | act :: acts, s =>
      match act.run s with
      | (.ok, s') => runActs acts s'
      | r => r

end

def Store.clear (s : Store) : Store := s.onCall 0 fun c => { c with stack := [] }

/-- The next script, for an expression that starts without operands. -/
def runScript (s : Store) : Answer × Store :=
  match s.scripts with
  | [] => (.ok, s.clear)
  | script :: rest =>
      match runActs invoke script { s.clear with scripts := rest } with
      | (.ok, s') => (.ok, s')
      | (a, s') => (a, s'.clear)

-- whether a variable and the result are of type `str`
variable (isStr : Slot → Bool) (returnsStr : Bool)

def strOp (o : Op) (s : Store) : Answer × Store :=
  match o with
  | .eval _ | .delete _ | .loopElement _ | .bindPayload _
  | .cleanup (.dtor _ _) | .cleanup (.release _ _) => runScript invoke s
  | .declare x => (.ok, s.declare x (isStr x))
  | .retainResult => (.ok, s.setResult returnsStr)
  | .releaseStr x => (.ok, s.releaseVar x)
  | .cleanup (.deferBody _ _) | .cleanup (.call _) | .loopInit _ | .loopStep _ | .bindCatch _
  | .beginCatch => (.ok, s)

def strChoice (c : Choice) (s : Store) : Nat × Store :=
  let s' := { s with choices := s.choices.tail }
  match c with
  | .staticGuard x => (s.choices.headD 0, { s' with statics := x :: s'.statics })
  | _ => (s.choices.headD 0, s')

def strWorld : World Store where
  op := strOp invoke isStr returnsStr
  choose := strChoice

end Running

mutual

def strVarsIn : Instr → List Slot
  | .mark (.register (.str x)) => [x]
  | .branch _ arms => strVarsOfArms arms
  | .loop _ test _ body next => strVarsOf test ++ strVarsOf body ++ strVarsOf next
  | .switch _ cases => strVarsOfArms cases
  | .tryCatch body _ pad exit handler =>
      strVarsOf body ++ strVarsOf pad ++ strVarsOf exit ++ strVarsOf handler
  | .op _ | .mark _ | .br _ _ | .ret | .raise | .escape | .abort => []

def strVarsOf : List Instr → List Slot
  | [] => []
  | i :: is => strVarsIn i ++ strVarsOf is

def strVarsOfArms : List (List Instr) → List Slot
  | [] => []
  | is :: arms => strVarsOf is ++ strVarsOfArms arms

end

def strVars : FunctionCode → List Slot
  | .plain is => strVarsOf is
  | .dtor is => strVarsOf is.body ++ strVarsOf is.exit

section Module

variable (m : Module) (nest : Nat) (globals : List Item) (N : Nat)

def functionDecl (symbol : String) : Option FunctionDecl :=
  match m.functions.lookup symbol with
  | some (.func f) => some f
  | some (.member _ f) => some f
  | some (.external _) => none
  | some (.runtime _ _) => none
  | none => none

def paramSlots (f : FunctionDecl) : List Slot := f.params.map fun p => ⟨⟨0, 0⟩, p.name⟩

def returned (inTry : Bool) (r : Outcome × Store) : Answer × Store :=
  match r.1 with
  | .normal | .ret | .br _ _ => (.ok, r.2.leave true inTry)
  | .raise | .escape => (.raise, r.2.leave false inTry)
  | .abort | .timeout => (.abort, r.2.leave false inTry)

/-- A call with the last operands as its arguments, with calls nested at most so
deep.  A function without code here keeps its arguments where they are; what it
does is written in the script around the call. -/
def runFunction : Nat → String → Nat → Bool → Store → Answer × Store
  | 0, _, _, _, s => (.abort, s)
  | depth + 1, symbol, args, inTry, s =>
      match functionDecl m symbol, m.functionCode nest globals symbol with
      | some f, some code =>
          let invoke := runFunction depth
          let isStr := fun x => decide (x ∈ strVars code)
          let returnsStr := decide (m.ls.types.fromTypeExpr f.returnType = TypeRegistry.TID_STR)
          returned inTry (code.run (strWorld invoke isStr returnsStr) (runScript invoke) globals N
            (s.enter (paramSlots f) args))
      | _, _ => (.ok, s)

end Module

/-! ## Stability -/

/-- The string that a count belongs to. -/
def Holding.countedRef (h : Holding) : Option Nat :=
  match h.ref with
  | .heap i => if h.counted then some i else none
  | .literal _ | .buffer _ _ => none

/-- Whether a variable that a closure points to holds something. -/
def Store.Holds (s : Store) (e : Nat × Slot) : Prop :=
  ∃ c ∈ s.calls, c.id = e.1 ∧ (c.vars.lookup e.2).join.isSome

/-- Everything that is held by the store, or by `flying` on its way to another
place, reads as it did when it was obtained, and there is a count for every
reference that a count belongs to.  What closures point to is there. -/
structure Store.Sound (s : Store) (flying : Multiset Holding) : Prop where
  counted : (flying + (s.holdings : Multiset Holding)).filterMap Holding.countedRef ≤ s.counts
  reads : ∀ h ∈ flying + (s.holdings : Multiset Holding), s.read h.ref = some h.text
  calls : ∀ e ∈ s.buffers, e.1 < s.nextCall
  envs : ∀ e ∈ s.envs, s.Holds e

/-- Every string that a variable, a field or container, a captured variable, an
operand or the result of a call holds can be read, and its characters are those
it had when it was obtained. -/
structure Store.Stable (s : Store) : Prop where
  reads : ∀ h ∈ s.holdings, s.read h.ref = some h.text
  envs : ∀ e ∈ s.envs, s.Holds e

end Dux.Codegen.Str
