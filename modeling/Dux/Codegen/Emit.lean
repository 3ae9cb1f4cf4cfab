import Dux.Codegen.Layout
import Dux.Logic.Runs
import Dux.Sema.Expr

/-!
# Emitting statements

How `gen_stmt` and its helpers (`src/codegen/codegen.cpp`) turn the body of a
function into code, with the stack of scopes, the clean-ups registered in them
and the places where these are emitted.  Expressions are opaque here.

The emitted code keeps the shape of the statement it comes from: a loop node
stands for the basic blocks of a loop, and `br k` for a branch to the header or
exit block of the `k`-th entry of `loop_stack_`.  `none` means that no code
comes out: the compiler reports an error, never returns, or leaves a block that
the module verifier rejects.

Marks are no instructions.  They record in the code which step of the source
program is being taken (a scope is entered, a clean-up is registered, scopes are
left) and which clean-up the code next to them runs.
-/

namespace Dux.Codegen

/-- A local variable, by the place of its declaration. -/
structure Slot where
  loc : SourceLoc
  name : String
  deriving DecidableEq, Repr

/-- `ScopeCleanup`: a destructor call, a reference-count release, a deferred
block or a call without arguments. -/
inductive ScopeCleanup
  | dtor (slot : Slot) (className : String)
  | release (slot : Slot) (releaseSym : String)
  | deferBody (loc : SourceLoc) (body : List Stmt)
  | call (fn : String)

/-- An element of `cleanup_scopes_` or of `str_scopes_`. -/
inductive Item
  | cleanup (c : ScopeCleanup)
  | str (slot : Slot)

/-- What a scope has to run when it is left, by the declaration or statement
that registers it. -/
inductive Entry
  | dtor (slot : Slot) (className : String)
  | release (slot : Slot) (releaseSym : String)
  | defer (loc : SourceLoc)
  | call (fn : String)
  | str (slot : Slot)
  deriving DecidableEq, Repr

def ScopeCleanup.entry : ScopeCleanup → Entry
  | .dtor slot className => .dtor slot className
  | .release slot releaseSym => .release slot releaseSym
  | .deferBody loc _ => .defer loc
  | .call fn => .call fn

def Item.entry : Item → Entry
  | .cleanup c => c.entry
  | .str slot => .str slot

/-- One level of `cleanup_scopes_` and `str_scopes_`, in registration order. -/
structure Frame where
  cleanups : List ScopeCleanup := []
  strs : List Slot := []

def Frame.add (frame : Frame) : Item → Frame
  | .cleanup c => { frame with cleanups := frame.cleanups ++ [c] }
  | .str slot => { frame with strs := frame.strs ++ [slot] }

/-- The entries of a scope in the order in which the emitter runs them. -/
def Frame.listed (frame : Frame) : List Entry :=
  frame.cleanups.reverse.map (·.entry) ++ frame.strs.map .str

/-- `LoopCtx`.  The source does not record `depth`, the number of scopes open
around the loop; only marks mention it. -/
structure LoopCtx where
  hasHeader : Bool
  label : String
  depth : Nat

/-- The scope stack and `loop_stack_`, innermost first. -/
structure Ctx where
  scopes : List Frame
  loops : List LoopCtx

/-- Instructions, as far as the statement that emits them tells them apart. -/
inductive Op
  | eval (e : Expr)
  | declare (slot : Slot)
  | loopInit (varName : String)
  | loopElement (varName : String)
  | loopStep (varName : String)
  | bindPayload (pattern : MatchPattern)
  | bindCatch (varName : String)
  | beginCatch
  | retainResult
  | delete (e : Expr)
  | cleanup (c : ScopeCleanup)
  | releaseStr (slot : Slot)

/-- What a conditional branch decides on. -/
inductive Choice
  | cond (e : Expr)
  | more (iterable : Expr)
  | switchOn (e : Expr)
  | matchOn (e : Expr)
  | catchType (name : String)
  | staticGuard (slot : Slot)

/-- Why scopes are left. -/
inductive LeaveKind
  | leave | jump | ret
  deriving DecidableEq, Repr

/-- The steps of the source program that show in the code.  `leaving` names the
number of scopes that stay open. -/
inductive Mark
  | push
  | register (e : Entry)
  | leaving (kind : LeaveKind) (kept : Nat)
  | run (e : Entry)
  | left

/-- Emitted code. -/
inductive Instr
  | op (o : Op)
  | mark (m : Mark)
  | branch (c : Choice) (arms : List (List Instr))
  | loop (bodyFirst : Bool) (test : List Instr) (c : Choice) (body next : List Instr)
  | switch (c : Choice) (cases : List (List Instr))
  | tryCatch (body : List Instr) (final : List Entry) (pad exit handler : List Instr)
  | br (k : Nat) (toHeader : Bool)
  | ret
  | raise
  | escape
  | abort

namespace Ctx

def depth (ctx : Ctx) : Nat := ctx.scopes.length

def top (ctx : Ctx) : Frame := ctx.scopes.headD {}

def push (ctx : Ctx) : Ctx := { ctx with scopes := {} :: ctx.scopes }

/-- The pops at the end of `env_pop`. -/
def pop (ctx : Ctx) : Ctx := { ctx with scopes := ctx.scopes.tail }

def register (ctx : Ctx) (x : Item) : Ctx :=
  { ctx with scopes := ctx.scopes.modifyHead (·.add x) }

def inLoop (ctx : Ctx) (hasHeader : Bool) (label : String) : Ctx :=
  { ctx with loops := ⟨hasHeader, label, ctx.depth⟩ :: ctx.loops }

end Ctx

/-- Code, the context after it, and whether the block it ends in is still open. -/
structure Emitted where
  code : List Instr
  ctx : Ctx
  live : Bool

abbrev Emitter := Ctx → Option Emitted

namespace Emitter

def code (is : List Instr) : Emitter := fun ctx => some ⟨is, ctx, true⟩

def stop (is : List Instr) : Emitter := fun ctx => some ⟨is, ctx, false⟩

def fail : Emitter := fun _ => none

/-- One piece after another; nothing is emitted behind the end of a block. -/
def seq (first second : Emitter) : Emitter := fun ctx => do
  let r ← first ctx
  if r.live then
    let r' ← second r.ctx
    return ⟨r.code ++ r'.code, r'.ctx, r'.live⟩
  else return r

/-- Put the code of a piece into a node, after which a new block begins. -/
def node (make : List Instr → List Instr) (body : Emitter) : Emitter := fun ctx => do
  let r ← body ctx
  return ⟨make r.code, r.ctx, true⟩

def arms : List Emitter → Ctx → Option (List (List Instr) × Ctx)
  | [], ctx => some ([], ctx)
  | e :: es, ctx => do
      let r ← e ctx
      let (codes, ctx') ← arms es r.ctx
      return (r.code :: codes, ctx')

def fork (make : List (List Instr) → Instr) (es : List Emitter) : Emitter := fun ctx => do
  let (codes, ctx') ← arms es ctx
  return ⟨[make codes], ctx', true⟩

def register (x : Item) : Emitter := fun ctx =>
  some ⟨[.mark (.register x.entry)], ctx.register x, true⟩

def insideLoop (hasHeader : Bool) (label : String) (body : Emitter) : Emitter := fun ctx => do
  let r ← body (ctx.inLoop hasHeader label)
  return { r with ctx := { r.ctx with loops := ctx.loops } }

end Emitter

open Emitter (code stop fail seq node fork register insideLoop)

/-! ## Clean-ups -/

section Cleanups

-- how the statements of a deferred block are emitted
variable (D : List Stmt → Emitter)

def emitScopeCleanup : ScopeCleanup → Emitter
  | .deferBody loc body => seq (code [.mark (.run (.defer loc))]) (D body)
  | c => code [.mark (.run c.entry), .op (.cleanup c)]

def emitScopeCleanups : List ScopeCleanup → Emitter
  | [] => code []
  | c :: cs => seq (emitScopeCleanup D c) (emitScopeCleanups cs)

/-- The releases of string variables, in the order of their declaration. -/
def releaseStrs (slots : List Slot) : List Instr :=
  slots.flatMap fun slot => [.mark (.run (.str slot)), .op (.releaseStr slot)]

/-- `emit_all_scope_cleanups`: every open scope from the innermost outwards,
latest entry first. -/
def emitAllScopeCleanups : Emitter := fun ctx =>
  emitScopeCleanups D (ctx.scopes.flatMap (·.cleanups.reverse)) ctx

/-- `emit_all_scope_cleanups` and `emit_all_str_releases`.  An instruction
behind the end of a block is rejected by the verifier. -/
def emitAll : Emitter := fun ctx => do
  let r ← emitAllScopeCleanups D ctx
  if r.live then
    return ⟨r.code ++ releaseStrs (r.ctx.scopes.flatMap (·.strs)) ++ [.mark .left], r.ctx, true⟩
  else none

/-- The clean-up of `env_pop` for a block that is still open. -/
def envPop : Emitter := fun ctx => do
  let r ← emitScopeCleanups D ctx.top.cleanups.reverse ctx
  let strs := r.ctx.top.strs
  let leaving : Instr := .mark (.leaving .leave (ctx.depth - 1))
  if r.live then
    return ⟨leaving :: (r.code ++ releaseStrs strs ++ [.mark .left]), r.ctx, true⟩
  else if strs.isEmpty then return ⟨leaving :: r.code, r.ctx, false⟩
  else none

/-- `env_push`, and a body. -/
def enterScope (body : Emitter) : Emitter := fun ctx =>
  seq (code [.mark .push]) body ctx.push

/-- `env_push`, a body, `env_pop`. -/
def withScope (body : Emitter) : Emitter := fun ctx => do
  let r ← seq (enterScope body) (envPop D) ctx
  return { r with ctx := r.ctx.pop }

/-- The end of a jump out of scopes. -/
def emitJump (kind : LeaveKind) (kept : Nat) (jump : Instr) : Emitter :=
  seq (code [.mark (.leaving kind kept)]) (seq (emitAll D) (stop [jump]))

/-- What `break` and `continue` find on `loop_stack_`. -/
inductive JumpTarget
  | nothing
  | invalid
  | to (k : Nat) (depth : Nat)

/-- The search of `break` and `continue` for their target.  A missing label is
an error, and a `switch` has no block to continue at. -/
def jumpTarget (loops : List LoopCtx) (toHeader : Bool) (label : Option String) : JumpTarget :=
  if loops.isEmpty then .nothing
  else
    let k : Option Nat := match label with
      | none => some 0
      | some l => loops.findIdx? fun (lc : LoopCtx) => lc.label = l
    match k with
    | none => .invalid
    | some k =>
        match loops[k]? with
        | none => .invalid
        | some lc => if toHeader && !lc.hasHeader then .invalid else .to k lc.depth

/-- `BreakStmt` and `ContinueStmt` in `gen_stmt`. -/
def emitBreak (toHeader : Bool) (label : Option String) : Emitter := fun ctx =>
  match jumpTarget ctx.loops toHeader label with
  | .nothing => code [] ctx
  | .invalid => none
  | .to k depth => emitJump D .jump depth (.br k toHeader) ctx

/-- `env_pop` behind the body of a `try`, where that is still open. -/
def popTry (live : Bool) : Emitter := if live then envPop D else stop []

/-- `gen_try_catch`.  The clean-up of the landing pad is emitted when the body
is done, with the scope of the body still open. -/
def emitTryCatch (body handler : Emitter) : Emitter := fun ctx => do
  let b ← enterScope body ctx
  let pad ← emitAll D b.ctx
  let exit ← popTry D b.live pad.ctx
  let h ← handler exit.ctx.pop
  return ⟨[.tryCatch b.code b.ctx.top.listed pad.code exit.code h.code], h.ctx, true⟩

end Cleanups

/-! ## Statements -/

section Statements

variable (ls : Layouts)

/-- Whether a name has a class layout. -/
def hasLayout (name : String) : Bool := (ls.layouts.lookup name).isSome

/-- What `env_define` registers for a variable of that type. -/
def definedItem (tid : TypeId) (slot : Slot) : Option Item :=
  if tid = TypeRegistry.TID_STR then some (.str slot)
  else if tid = TypeRegistry.TID_LIST then some (.cleanup (.release slot "duxrt_list_release"))
  else if tid = TypeRegistry.TID_DICT then some (.cleanup (.release slot "duxrt_dict_release"))
  else
    let cls := ls.types.nameOf tid
    if TypeRegistry.TID_NULL < tid ∧ cls ≠ "" ∧ hasLayout ls cls then
      some (.cleanup (.dtor slot cls))
    else none

/-- The type `gen_var_decl` gives a variable: the declared one, else that of the
initialiser, else `int`; a static variable does not look at its initialiser. -/
def varType (type : TypeExpr) (isStatic : Bool) (init : Option Expr) : TypeId :=
  let declared := ls.types.fromTypeExpr type
  let found :=
    if declared = TypeRegistry.TID_UNKNOWN ∧ !isStatic then
      match init with
      | some e => e.tid
      | none => TypeRegistry.TID_UNKNOWN
    else declared
  if found < 0 then TypeRegistry.TID_INT else found

/-- Everything the declaration of a variable registers; the variable of a lambda
also owns its closure. -/
def declaredItems (type : TypeExpr) (isStatic : Bool) (slot : Slot) (init : Option Expr) :
    List Item :=
  (definedItem ls (varType ls type isStatic init) slot).toList ++
    if !isStatic && init.any Sema.isLambda then [.cleanup (.dtor slot "__closure")] else []

def registerAll : List Item → Emitter
  | [] => code []
  | x :: xs => seq (register x) (registerAll xs)

/-- The code of an initialiser, which runs once for a static variable. -/
def initialise (isStatic : Bool) (slot : Slot) : Option Expr → List Instr
  | none => if isStatic then [] else [.op (.declare slot)]
  | some e =>
      let store : List Instr := [.op (.eval e), .op (.declare slot)]
      if isStatic then [.branch (.staticGuard slot) [store]] else store

def genVarDecl (loc : SourceLoc) (type : TypeExpr) (isStatic : Bool) : List VarItem → Emitter
  | [] => code []
  | .mk name init :: ds =>
      seq (code (initialise isStatic ⟨loc, name⟩ init))
        (seq (registerAll (declaredItems ls type isStatic ⟨loc, name⟩ init))
          (genVarDecl loc type isStatic ds))

/-- What `gen_for_in` iterates over: a range, a list, or nothing at all. -/
inductive Iteration
  | range (bounds : List Expr)
  | list
  | nothing

/-- The tests of `gen_for_in` on the iterable. -/
def iteration : Expr → Iteration
  | .binary _ .rangeExcl lo hi => .range [lo, hi]
  | .binary _ .rangeIncl lo hi => .range [lo, hi]
  | .call _ (.ident _ "range") [hi] => .range [hi]
  | e => if e.tid = TypeRegistry.TID_LIST ∨ e.tid < 0 then .list else .nothing

/-- `gen_for_in` around its body; a body that is never entered leaves no code. -/
def emitForIn (varName : String) (iterable : Expr) (body : Emitter) : Emitter :=
  match iteration iterable with
  | .range bounds =>
      seq (code (bounds.map (fun e => .op (.eval e)) ++ [.op (.loopInit varName)]))
        (node (fun is => [.loop false [] (.more iterable) is [.op (.loopStep varName)]])
          (insideLoop true "" body))
  | .list =>
      seq (code [.op (.eval iterable), .op (.loopInit varName)])
        (node (fun is => [.loop false [] (.more iterable) is [.op (.loopStep varName)]])
          (seq (code [.op (.loopElement varName)]) (insideLoop true "" body)))
  | .nothing => node (fun _ => []) (insideLoop true "" body)

/-- The case values of a `switch`, evaluated before the value it decides on. -/
def caseValues : List SwitchCase → List Instr
  | [] => []
  | .mk (some e) _ :: cs => .op (.eval e) :: caseValues cs
  | .mk none _ :: cs => caseValues cs

def isStrMatch (patterns : List MatchPattern) : Bool :=
  patterns.any fun
    | .strLit _ => true
    | _ => false

/-- Whether an arm gets a case of its own in `gen_match`. -/
def hasCase (strMatch : Bool) : MatchPattern → Bool
  | .strLit _ => strMatch
  | .wildcard => false
  | .intLit _ | .boolLit _ => !strMatch
  | .enumVariant enumName variantName _ =>
      !strMatch && (ls.enumTypes.lookup enumName).any fun id =>
        (ls.types.info id).variants.any (·.name = variantName)

def isWildcard : MatchPattern → Bool
  | .wildcard => true
  | _ => false

/-- The arms `gen_match` emits: those with a case, then the last wildcard, or
else the trap of a match on numbers. -/
def matchArms (arms : List (MatchPattern × Emitter)) : List Emitter :=
  let strMatch := isStrMatch (arms.map (·.1))
  let wildcard := (arms.filter fun a => isWildcard a.1).getLast?
  (arms.filter fun a => hasCase ls strMatch a.1).map (·.2) ++
    match wildcard with
    | some a => [a.2]
    | none => if strMatch then [code []] else [stop [.abort]]

/-- The check of a typed `catch` clause: a mismatch rethrows by a plain call,
which no landing pad of the function covers. -/
def catchCheck : Option TypeExpr → List Instr
  | some te =>
      if te.name ≠ "" ∧ te.name ≠ "Exception" then
        [.branch (.catchType te.name) [[.escape], []]]
      else []
  | none => []

variable (D : List Stmt → Emitter)

/-- The part of `gen_try_catch` behind the landing pad. -/
def emitHandler (catchType : Option TypeExpr) (catchVar : Option String) (catchBody : Emitter) :
    Emitter :=
  seq (code [.op .beginCatch])
    (withScope D
      (seq (code (catchCheck catchType ++ catchVar.toList.map fun v => .op (.bindCatch v)))
        (seq (register (.cleanup (.call "__cxa_end_catch"))) (withScope D catchBody))))

mutual

def genStmt : Stmt → Emitter
  | .block body => withScope D (genStmts body)
  | .expr e => code [.op (.eval e)]
  | .varDecl loc type isStatic isThreadLocal decls =>
      if isThreadLocal then code [] else genVarDecl ls loc type isStatic decls
  | .ifStmt cond thenBr elseBr =>
      seq (code [.op (.eval cond)])
        (fork (.branch (.cond cond)) [withScope D (genStmts thenBr), genElse elseBr])
  | .whileStmt label cond body =>
      node (fun is => [.loop false [.op (.eval cond)] (.cond cond) is []])
        (insideLoop true (label.getD "") (withScope D (genStmts body)))
  | .doWhile body cond =>
      node (fun is => [.loop true [.op (.eval cond)] (.cond cond) is []])
        (insideLoop true "" (withScope D (genStmts body)))
  | .forIn _ varName iterable body =>
      withScope D (emitForIn varName iterable (withScope D (genStmts body)))
  | .forC _ varName init cond incr body =>
      withScope D
        (seq (code [.op (.eval init), .op (.loopInit varName)])
          (node (fun is => [.loop false [.op (.eval cond)] (.cond cond) is [.op (.eval incr)]])
            (insideLoop true "" (withScope D (genStmts body)))))
  | .switchStmt e cases =>
      seq (code (caseValues cases ++ [.op (.eval e)]))
        (insideLoop false "" (fork (.switch (.switchOn e)) (genCases cases)))
  | .matchStmt e arms =>
      seq (code [.op (.eval e)]) (fork (.branch (.matchOn e)) (matchArms ls (genArms arms)))
  | .tryCatch tryBody _ catchType catchVar catchBody =>
      emitTryCatch D (genStmts tryBody) (emitHandler D catchType catchVar (genStmts catchBody))
  | .returnStmt value =>
      seq (code (value.toList.flatMap fun e => [.op (.eval e), .op .retainResult]))
        (emitJump D .ret 1 .ret)
  | .breakStmt label => emitBreak D false label
  | .continueStmt label => emitBreak D true label
  | .assertStmt cond => code [.op (.eval cond), .branch (.cond cond) [[], [.abort]]]
  | .deleteStmt e => code [.op (.delete e)]
  | .defer loc body => register (.cleanup (.deferBody loc body))
  | .throwStmt e => seq (code [.op (.eval e)]) (stop [.raise])
  | .unsafeStmt body => genStmts body

def genStmts : List Stmt → Emitter
  | [] => code []
  | s :: ss => seq (genStmt s) (genStmts ss)

def genElse : ElseBr → Emitter
  | .none => code []
  | .block body => withScope D (genStmts body)
  | .elif cond thenBr elseBr =>
      seq (code [.op (.eval cond)])
        (fork (.branch (.cond cond)) [withScope D (genStmts thenBr), genElse elseBr])

def genCases : List SwitchCase → List Emitter
  | [] => []
  | c :: cs => genCase c :: genCases cs

def genCase : SwitchCase → Emitter
  | .mk _ body => withScope D (genStmts body)

def genArms : List MatchArm → List (MatchPattern × Emitter)
  | [] => []
  | a :: as => genArm a :: genArms as

def genArm : MatchArm → MatchPattern × Emitter
  | .mk pattern body =>
      (pattern, withScope D (seq (code [.op (.bindPayload pattern)]) (genStmts body)))

end

/-- Statements with deferred blocks nested at most `n` deep into each other at
the places where they are emitted.  A deferred block with a `return` in it is
emitted inside its own code for ever, and has no code at any level. -/
def genLevel : Nat → List Stmt → Emitter
  | 0 => fun _ => fail
  | n + 1 => genStmts ls (genLevel n)

/-- `gen_func` from its first statement on.  Below the scope of the function
lies the global one, in which `globals` have been registered. -/
def genFunction (n : Nat) (globals : List Item) (body : List Stmt) : Option (List Instr) := do
  let r ← seq (genLevel ls (n + 1) body) (emitJump (genLevel ls n) .ret 1 .ret)
    ⟨[{}, globals.foldl Frame.add {}], []⟩
  return r.code

end Statements

end Dux.Codegen
