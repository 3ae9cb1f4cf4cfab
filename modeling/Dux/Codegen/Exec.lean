import Dux.Codegen.Emit

/-!
# Running emitted code

A run of emitted code asks a world for everything the code does not decide by
itself: whether an instruction raises, and which way a branch goes.  A raised
exception goes to the innermost landing pad that covers the instruction; one
that no landing pad covers leaves the function.

The marks in the code move a ghost state along.  For every open scope it keeps
the entries registered since the scope was entered, and it keeps a record of
every step that has to run entries: an exit of scopes, or an exception that
reaches a landing pad.
-/

namespace Dux.Codegen

open Dux.Logic (Outcome Run)
open Dux.Logic.Run (seq fallThrough breakable around protect)

def Entry.isStr : Entry → Bool
  | .str _ => true
  | .dtor _ _ | .release _ _ | .defer _ | .call _ => false

/-- Put an entry into the order in which the emitter runs the entries of a
scope: the latest first, but strings last and in the order of declaration. -/
def addListed (listed : List Entry) (e : Entry) : List Entry :=
  if e.isStr then listed ++ [e] else e :: listed

/-- The order in which the emitter runs these entries of a scope. -/
def reordered (entries : List Entry) : List Entry :=
  entries.foldr (fun e listed => addListed listed e) []

/-- A scope that has been entered and not left: the entries registered in it so
far, latest first, and the entries the emitter lists for it where the run is. -/
structure LiveScope where
  entries : List Entry := []
  listed : List Entry := []
  deriving DecidableEq

def LiveScope.add (scope : LiveScope) (e : Entry) : LiveScope :=
  ⟨e :: scope.entries, addListed scope.listed e⟩

def LiveScope.addAll (scope : LiveScope) (xs : List Item) : LiveScope :=
  xs.foldl (fun scope x => scope.add x.entry) scope

/-- A step that has to run entries.  `exit` leaves the scopes `left` by a way of
`kind`; `land` is an exception that reaches the landing pad of a `try` for whose
own scope the emitter lists `final`.  The scopes `kept` stay open. -/
inductive Step
  | exit (kind : LeaveKind) (left kept : List LiveScope)
  | land (owed final : List Entry) (kept : List LiveScope)
  deriving DecidableEq

def Step.kept : Step → List LiveScope
  | .exit _ _ kept => kept
  | .land _ _ kept => kept

/-- The entries that the step has to run, in this order: those of the scopes it
leaves, innermost scope first and the latest entry first. -/
def Step.owed : Step → List Entry
  | .exit _ left _ => left.flatMap (·.entries)
  | .land owed _ _ => owed

/-- A step with the entries that have been run for it, and whether its code has
been run to the end. -/
structure Record where
  step : Step
  ran : List Entry := []
  done : Bool := false
  deriving DecidableEq

structure Ghost where
  live : List LiveScope
  openSteps : List Record := []
  log : List Record := []
  stray : List Entry := []
  deriving DecidableEq

namespace Ghost

variable (g : Ghost)

def push : Ghost := { g with live := {} :: g.live }

def register (e : Entry) : Ghost := { g with live := g.live.modifyHead (·.add e) }

/-- Begin to leave all scopes but the outermost `kept` ones. -/
def leaving (kind : LeaveKind) (kept : Nat) : Ghost :=
  let n := g.live.length - kept
  { g with openSteps := { step := .exit kind (g.live.take n) (g.live.drop n) } :: g.openSteps }

def run (e : Entry) : Ghost :=
  match g.openSteps with
  | [] => { g with stray := g.stray ++ [e] }
  | r :: rs => { g with openSteps := { r with ran := r.ran ++ [e] } :: rs }

/-- The end of the innermost step under way. -/
def left : Ghost :=
  match g.openSteps with
  | [] => g
  | r :: rs =>
      { g with live := r.step.kept, openSteps := rs, log := { r with done := true } :: g.log }

/-- The steps under way that were not under way when `depth` of them were. -/
def interrupted (depth : Nat) : List Record := g.openSteps.take (g.openSteps.length - depth)

/-- Give up the steps that control has left by a jump or an exception. -/
def settle (depth : Nat) : Ghost :=
  { g with
    openSteps := g.openSteps.drop (g.openSteps.length - depth)
    log := g.interrupted depth ++ g.log }

/-- The entries of the scopes inside `kept`, without those that interrupted
steps have run or begun to run. -/
def pending (depth kept : Nat) : List Entry :=
  ((g.live.take (g.live.length - kept)).flatMap (·.entries)).diff
    ((g.interrupted depth).flatMap (·.ran))

/-- An exception reaches the landing pad of a `try` that was entered in the
state `saved`. -/
def land (saved : Ghost) (final : List Entry) : Ghost :=
  let owed := g.pending saved.openSteps.length saved.live.length
  let settled := g.settle saved.openSteps.length
  { settled with
    live := ⟨owed, final⟩ :: saved.live
    openSteps := { step := .land owed final saved.live } :: settled.openSteps }

def mark : Mark → Ghost
  | .push => g.push
  | .register e => g.register e
  | .leaving kind kept => g.leaving kind kept
  | .run e => g.run e
  | .left => g.left

def records : List Record := g.openSteps ++ g.log

end Ghost

/-- How an instruction ends: it may raise an exception under the eyes of a
landing pad, or behind its back, or end the program. -/
inductive Answer
  | ok | raise | escape | abort
  deriving DecidableEq, Repr

/-- How the run goes on after an instruction. -/
def Answer.outcome : Answer → Outcome
  | .ok => .normal
  | .raise => .raise
  | .escape => .escape
  | .abort => .abort

/-- Everything that the emitted code does not decide by itself. -/
structure World (σ : Type) where
  op : Op → σ → Answer × σ
  choose : Choice → σ → Nat × σ

structure State (σ : Type) where
  world : σ
  ghost : Ghost

section Exec

variable {σ : Type} (W : World σ)

def State.withGhost (s : State σ) (g : Ghost) : State σ := { s with ghost := g }

def execOp (o : Op) : Run (State σ) := fun s =>
  let (answer, world) := W.op o s.world
  (answer.outcome, { s with world := world })

def execMark (m : Mark) : Run (State σ) := fun s => (.normal, s.withGhost (s.ghost.mark m))

/-- One of several ways; none of them if the number chosen is too large. -/
def choosing (c : Choice) (run : Nat → Run (State σ)) : Run (State σ) := fun s =>
  let (i, world) := W.choose c s.world
  run i { s with world := world }

/-- The decision of a loop; the first way is another round. -/
def chooseRound (c : Choice) : State σ → Bool × State σ := fun s =>
  let (i, world) := W.choose c s.world
  (i = 0, { s with world := world })

/-- The body of a loop or a switch: control that goes on at the loop or behind it gives up
the steps begun inside. -/
def settlingRound (run : Run (State σ)) : Run (State σ) := fun s =>
  match run s with
  | (.br 0 toHeader, s') =>
      (.br 0 toHeader, s'.withGhost (s'.ghost.settle s.ghost.openSteps.length))
  | r => r

-- the number of rounds a loop is given, and of entries into one landing pad
variable (N : Nat)

mutual

def execInstr : Instr → Run (State σ)
  | .op o => execOp W o
  | .mark m => execMark m
  | .branch c arms =>
      choosing W c fun i => (execArms arms)[i]?.getD Run.skip
  | .loop bodyFirst test c body next =>
      let again := Run.loop (exec test) (chooseRound W c) (settlingRound (exec body)) (exec next) N
      if bodyFirst then around (settlingRound (exec body)) (exec next) again else again
  | .switch c cases =>
      breakable (settlingRound (choosing W c fun i => fallThrough ((execArms cases).drop i)))
  | .tryCatch body final pad exit handler => fun s =>
      protect (exec body) (exec exit)
        (Run.landing (fun s' => s'.withGhost (s'.ghost.land s.ghost final))
          (exec pad) (exec handler) N) s
  | .br k toHeader => fun s => (.br k toHeader, s)
  | .ret => fun s => (.ret, s)
  | .raise => fun s => (.raise, s)
  | .escape => fun s => (.escape, s)
  | .abort => fun s => (.abort, s)

def exec : List Instr → Run (State σ)
  | [] => Run.skip
  | i :: is => seq (execInstr i) (exec is)

def execArms : List (List Instr) → List (Run (State σ))
  | [] => []
  | is :: arms => exec is :: execArms arms

end

/-- Call a function whose code this is, below a global scope in which these
items have been registered. -/
def call (code : List Instr) (globals : List Item) (w : σ) : Outcome × State σ :=
  exec W N code ⟨w, { live := [{}, ({} : LiveScope).addAll globals] }⟩

end Exec

end Dux.Codegen
