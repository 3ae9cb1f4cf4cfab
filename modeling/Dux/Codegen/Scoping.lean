import Dux.Codegen.Captures
import Dux.Codegen.Emit
import Dux.Codegen.Lowering

/-!
# Names and scopes

`env_`, `cleanup_scopes_` and `str_scopes_` (`src/codegen/codegen.cpp`) while the
body of a function is generated: which slot `env_lookup` finds for a name, in
which scope `env_define` puts a variable, and what is open where a deferred block
is generated.  Of the code itself only the names it uses and the variables it
cleans up are kept.

Every name in an expression counts as looked up where the expression is
generated, also that of a function, a class or a module.  `none` means that no
code comes out, as in `Dux.Codegen.Emitter`.
-/

namespace Dux.Codegen.Scoping

/-- Names with the slots they stand for, the latest first. -/
abbrev Bindings := List (String × Nat)

/-- `ScopeCleanup`: the clean-up of a variable, a deferred block or a call.  A
deferred block is kept with the variables visible at its statement, which the
source does not record. -/
inductive Pending
  | clear (slot : Nat)
  | deferred (scope : Bindings) (body : List Stmt)
  | call

/-- One level of `env_`, `cleanup_scopes_` and `str_scopes_`. -/
structure Layer where
  vars : Bindings := []
  pending : List Pending := []
  strs : List Nat := []

def visible (layers : List Layer) : Bindings := layers.flatMap (·.vars)

/-- Where the generator stands: the open scopes, innermost first, the number of
slots made so far, `loop_stack_`, and whether a deferred block is being
generated. -/
structure Place where
  layers : List Layer
  next : Nat
  loops : List LoopCtx := []
  deferring : Bool := false

/-- A deferred block that is generated at an exit: the variables visible at its
statement, the place of the exit, the names that its code uses, and the place
behind it. -/
structure Emission where
  scope : Bindings
  body : List Stmt
  before : Place
  uses : List (String × Option Nat)
  after : Place

/-- What is generated: the names in it with the slots found for them, the
variables it cleans up, the deferred blocks in it, the place behind it, and
whether the block it ends in is still open. -/
structure Piece where
  uses : List (String × Option Nat) := []
  cleaned : List Nat := []
  emissions : List Emission := []
  place : Place
  live : Bool := true

/-- The clean-up in `cleanup_scopes_` that an item makes for a variable. -/
def clearing (slot : Nat) : Item → Option Pending
  | .cleanup _ => some (.clear slot)
  | .str _ => none

/-- The release in `str_scopes_` that an item makes for a variable. -/
def releasing (slot : Nat) : Item → Option Nat
  | .cleanup _ => none
  | .str _ => some slot

def Layer.add (name : String) (slot : Nat) (items : List Item) (layer : Layer) : Layer where
  vars := (name, slot) :: layer.vars
  pending := layer.pending ++ items.filterMap (clearing slot)
  strs := layer.strs ++ items.filterMap (releasing slot)

def Layer.register (entry : Pending) (layer : Layer) : Layer :=
  { layer with pending := layer.pending ++ [entry] }

namespace Place

def vars (c : Place) : Bindings := visible c.layers

/-- `env_lookup`. -/
def find (c : Place) (name : String) : Option Nat := c.vars.lookup name

def top (c : Place) : Layer := c.layers.headD {}

/-- `env_push`. -/
def push (c : Place) : Place := { c with layers := {} :: c.layers }

/-- The pops at the end of `env_pop`. -/
def pop (c : Place) : Place := { c with layers := c.layers.tail }

def define (name : String) (items : List Item) (c : Place) : Place :=
  { c with layers := c.layers.modifyHead (·.add name c.next items), next := c.next + 1 }

def register (entry : Pending) (c : Place) : Place :=
  { c with layers := c.layers.modifyHead (·.register entry) }

end Place

abbrev Maker := Place → Option Piece

namespace Maker

def silent : Maker := fun c => some { place := c }

def stop : Maker := fun c => some { place := c, live := false }

def fail : Maker := fun _ => none

def use (name : String) : Maker := fun c => some { uses := [(name, c.find name)], place := c }

def define (name : String) (items : List Item) : Maker := fun c =>
  some { place := c.define name items }

def register (entry : Pending) : Maker := fun c => some { place := c.register entry }

/-- One piece after another.  What comes second depends on whether the first
leaves its block open. -/
def chain (first : Maker) (next : Bool → Maker) : Maker := fun c =>
  (first c).bind fun p => (next p.live p.place).map fun q =>
    { uses := p.uses ++ q.uses, cleaned := p.cleaned ++ q.cleaned
      emissions := p.emissions ++ q.emissions, place := q.place, live := q.live }

/-- One piece after another; nothing is generated behind the end of a block. -/
def seq (first second : Maker) : Maker :=
  chain first fun live => if live then second else stop

/-- A piece behind which a new block begins. -/
def node (m : Maker) : Maker := chain m fun _ => silent

def fork : List Maker → Maker
  | [] => silent
  | m :: ms => seq (node m) (fork ms)

def insideLoop (hasHeader : Bool) (label : String) (m : Maker) : Maker := fun c =>
  (m { c with loops := ⟨hasHeader, label, 0⟩ :: c.loops }).map fun p =>
    { p with place := { p.place with loops := c.loops } }

end Maker

open Maker

/-! ## Clean-ups -/

section Cleanups

-- how the statements of a deferred block are generated
variable (D : List Stmt → Maker)

/-- `emit_scope_cleanup`: a deferred block is generated in the scopes that are
open at the exit. -/
def emitScopeCleanup : Pending → Maker
  | .clear slot => fun c => some { cleaned := [slot], place := c }
  | .deferred scope body => fun c =>
      (D body { c with deferring := true }).map fun p =>
        let after := { p.place with deferring := c.deferring }
        { p with
          emissions := ⟨scope, body, c, p.uses, after⟩ :: p.emissions
          place := after }
  | .call => silent

def emitScopeCleanups : List Pending → Maker
  | [] => silent
  | entry :: entries => seq (emitScopeCleanup D entry) (emitScopeCleanups entries)

/-- The releases of string variables; behind the end of a block the verifier
rejects them. -/
def releaseStrs (strs : Place → List Nat) : Bool → Maker
  | true => fun c => some { cleaned := strs c, place := c }
  | false => fun c => if (strs c).isEmpty then some { place := c, live := false } else none

/-- The clean-up of `env_pop`. -/
def envPop : Maker := fun c =>
  chain (emitScopeCleanups D c.top.pending.reverse) (releaseStrs (·.top.strs)) c

/-- `emit_all_scope_cleanups` and `emit_all_str_releases`.  A deferred block that
comes to it is generated inside its own code for ever. -/
def emitAll : Maker := fun c =>
  if c.deferring then none
  else
    chain (emitScopeCleanups D (c.layers.flatMap (·.pending.reverse)))
      (fun live => if live then releaseStrs (fun c => c.layers.flatMap (·.strs)) true else fail) c

/-- A place is left as it is but for its innermost scope. -/
def leave (live : Bool) : Maker := fun c => some { place := c.pop, live := live }

def inScope (m : Maker) : Maker := fun c => m c.push

def withScope (body : Maker) : Maker := inScope (chain (seq body (envPop D)) leave)

/-- A jump out of scopes. -/
def emitJump : Maker := seq (emitAll D) stop

/-- `BreakStmt` and `ContinueStmt` in `gen_stmt`. -/
def emitBreak (toHeader : Bool) (label : Option String) : Maker := fun c =>
  match jumpTarget c.loops toHeader label with
  | .nothing => silent c
  | .invalid => none
  | .to _ _ => emitJump D c

/-- The body of `gen_try_catch`.  The clean-up of the landing pad is generated
with the scope of the body still open. -/
def emitTry (body : Maker) : Maker :=
  inScope (chain
    (chain body fun live => chain (emitAll D) fun _ => if live then envPop D else stop)
    fun _ => leave true)

/-- `gen_try_catch`. -/
def emitTryCatch (body handler : Maker) : Maker := seq (emitTry D body) (node handler)

end Cleanups

/-! ## Expressions -/

section Expressions

-- the names that stand for a field of the current class
variable (F : String → Bool)

/-- A name is assigned to.  `gen_assign` declares a name it does not know. -/
def assignName (name : String) (value : Maker) : Maker := fun c =>
  chain (seq (use name) value)
    (fun _ => if (c.find name).isSome || F name then silent else define name []) c

/-- `gen_assign`. -/
def assign (target : Option String) (object value : Maker) : Maker :=
  match target with
  | some name => assignName F name value
  | none => seq object value

/-- The functions that `gen_call` knows by their names. -/
def builtins : List String := ["println", "print", "__fstr_to_str", "assert", "len"]

/-- The callee in `gen_call`. -/
def callee (name : Option String) (m : Maker) : Maker :=
  if name.any (· ∈ builtins) then silent else m

def useAll : List String → Maker
  | [] => silent
  | name :: names => seq (use name) (useAll names)

/-- The names a lambda takes from outside.  Its body has scopes of its own. -/
def freeNames (params : List Param) (body : List Stmt) : List String :=
  ((lambdaUses params body).filter fun u => !u.bound).map (·.name)

mutual

def genExpr : Expr → Maker
  | .ident _ name => use name
  | .this _ => use "this"
  | .super _ => use "this"
  | .binary _ _ left right => seq (genExpr left) (genExpr right)
  | .unary _ _ operand _ => genExpr operand
  | .assign _ _ target value =>
      assign F (Sema.identName target) (genExpr target) (genExpr value)
  | .call _ fn args => seq (callee (Sema.identName fn) (genExpr fn)) (genExprs args)
  | .member _ object _ => genExpr object
  | .index _ object index => seq (genExpr object) (genExpr index)
  | .new _ _ args => genExprs args
  | .list _ elements => genExprs elements
  | .dict _ pairs => genPairs pairs
  | .lambda _ params body _ _ => useAll (freeNames params body)
  | .await _ operand => genExpr operand
  | .intLit .. => silent
  | .longLit .. => silent
  | .floatLit .. => silent
  | .realLit .. => silent
  | .stringLit .. => silent
  | .boolLit .. => silent
  | .nullLit .. => silent

def genExprs : List Expr → Maker
  | [] => silent
  | e :: es => seq (genExpr e) (genExprs es)

def genPairs : List DictPair → Maker
  | [] => silent
  | p :: ps => seq (genPair p) (genPairs ps)

def genPair : DictPair → Maker
  | .mk key value => seq (genExpr key) (genExpr value)

end

def genOpt : Option Expr → Maker
  | none => silent
  | some e => genExpr F e

def genOpts : List (Option Expr) → Maker
  | [] => silent
  | e :: es => seq (genOpt F e) (genOpts es)

end Expressions

/-! ## Statements -/

section Statements

variable (ls : Layouts) (F : String → Bool)

def registerDefer (body : List Stmt) : Maker := fun c => register (.deferred c.vars body) c

/-- Variables that register nothing. -/
def defineAll : List String → Maker
  | [] => silent
  | name :: names => seq (define name []) (defineAll names)

def genVarDecl (loc : SourceLoc) (type : TypeExpr) (isStatic : Bool) : List VarItem → Maker
  | [] => silent
  | .mk name init :: ds =>
      seq (seq (genOpt F init) (define name (declaredItems ls type isStatic ⟨loc, name⟩ init)))
        (genVarDecl loc type isStatic ds)

/-- What `gen_for_in` evaluates of its iterable. -/
def iterated (iterable : Expr) : List Expr :=
  match iteration iterable with
  | .range bounds => bounds
  | .list => [iterable]
  | .nothing => []

/-- `gen_for_in` and `gen_for_c` around the body. -/
def emitFor (D : List Stmt → Maker) (varName : String) (head next body : Maker) : Maker :=
  withScope D (seq (seq (define varName []) head)
    (node (seq (node (insideLoop true "" (withScope D body))) next)))

def caseExprs : List SwitchCase → List (Option Expr)
  | [] => []
  | .mk value _ :: cs => value :: caseExprs cs

/-- The names that `gen_match` binds in an arm; only a pointer has a payload. -/
def boundNames (subject : TypeId) (pattern : MatchPattern) : List String :=
  if lowerType ls.types subject = .ptr then patternNames pattern else []

/-- The arms that `gen_match` generates. -/
def generatedArms (arms : List (MatchPattern × Maker)) : List Maker :=
  let strMatch := isStrMatch (arms.map (·.1))
  (arms.filter fun a => hasCase ls strMatch a.1).map (·.2) ++
    ((arms.filter fun a => isWildcard a.1).getLast?.map (·.2)).toList

/-- The part of `gen_try_catch` behind the landing pad. -/
def emitHandler (D : List Stmt → Maker) (catchVar : Option String) (catchBody : Maker) : Maker :=
  withScope D (seq (defineAll catchVar.toList) (seq (register .call) (withScope D catchBody)))

variable (D : List Stmt → Maker)

mutual

def genStmt : Stmt → Maker
  | .block body => withScope D (genStmts body)
  | .expr e => genExpr F e
  | .varDecl loc type isStatic isThreadLocal decls =>
      if isThreadLocal then silent else genVarDecl ls F loc type isStatic decls
  | .ifStmt cond thenBr elseBr =>
      seq (genExpr F cond) (fork [withScope D (genStmts thenBr), genElse elseBr])
  | .whileStmt label cond body =>
      seq (genExpr F cond) (node (insideLoop true (label.getD "") (withScope D (genStmts body))))
  | .doWhile body cond =>
      seq (node (insideLoop true "" (withScope D (genStmts body)))) (genExpr F cond)
  | .forIn _ varName iterable body =>
      emitFor D varName (genExprs F (iterated iterable)) silent (genStmts body)
  | .forC _ varName init cond incr body =>
      emitFor D varName (genExprs F [init, cond]) (genExpr F incr) (genStmts body)
  | .switchStmt e cases =>
      seq (seq (genOpts F (caseExprs cases)) (genExpr F e))
        (insideLoop false "" (fork (genCases cases)))
  | .matchStmt e arms => seq (genExpr F e) (fork (generatedArms ls (genArms e.tid arms)))
  | .tryCatch tryBody _ _ catchVar catchBody =>
      emitTryCatch D (genStmts tryBody) (emitHandler D catchVar (genStmts catchBody))
  | .returnStmt value => seq (genOpt F value) (emitJump D)
  | .breakStmt label => emitBreak D false label
  | .continueStmt label => emitBreak D true label
  | .assertStmt cond => genExpr F cond
  | .deleteStmt e => genExpr F e
  | .defer _ body => registerDefer body
  | .throwStmt e => seq (genExpr F e) stop
  | .unsafeStmt body => genStmts body

def genStmts : List Stmt → Maker
  | [] => silent
  | s :: ss => seq (genStmt s) (genStmts ss)

def genElse : ElseBr → Maker
  | .none => silent
  | .block body => withScope D (genStmts body)
  | .elif cond thenBr elseBr =>
      seq (genExpr F cond) (fork [withScope D (genStmts thenBr), genElse elseBr])

def genCases : List SwitchCase → List Maker
  | [] => []
  | c :: cs => genCase c :: genCases cs

def genCase : SwitchCase → Maker
  | .mk _ body => withScope D (genStmts body)

def genArms (subject : TypeId) : List MatchArm → List (MatchPattern × Maker)
  | [] => []
  | a :: as => genArm subject a :: genArms subject as

def genArm (subject : TypeId) : MatchArm → MatchPattern × Maker
  | .mk pattern body =>
      (pattern, withScope D (seq (defineAll (boundNames ls subject pattern)) (genStmts body)))

end

/-- Statements with deferred blocks nested at most `n` deep into each other at
the places where they are generated. -/
def genLevel : Nat → List Stmt → Maker
  | 0 => fun _ => fail
  | n + 1 => genStmts ls F (genLevel n)

/-- The variables that scopes open with, each with what it registers. -/
abbrev Given := List (String × List Item)

/-- The place in which a body is generated, from the variables of the scopes
around it, innermost first. -/
def start : List Given → Place
  | [] => { layers := [], next := 0 }
  | vars :: outer => vars.foldr (fun v c => c.define v.1 v.2) (start outer).push

/-- `gen_func` and `gen_lambda` from the first statement of the body on.  The
innermost scope holds the parameters, in a lambda also the captures; around the
scope of a function lie the global ones. -/
def genBody (n : Nat) (params : Given) (outer : List Given) (body : List Stmt) : Option Piece :=
  seq (genLevel ls F (n + 1) body) (emitJump (genLevel ls F n)) (start (params :: outer))

end Statements

end Dux.Codegen.Scoping
