import Dux.Codegen.Emit
import Dux.Sema.Jumps
import Mathlib.Data.List.TakeWhile

/-!
# Where jumps go

`gen_stmt` (`src/codegen/codegen.cpp`) branches for `break` and `continue` to
an entry of `loop_stack_`.  A `switch` has an entry of its own, which `continue`
does not look past, and neither `gen_lambda` nor the emission of deferred blocks
starts a stack of its own, while analysis asks only that some loop or `switch`
is around.  Compared with where a jump should go, this settles which jumps are
right.
-/

namespace Dux

def Around.entryLabel : Around → String
  | .loop label => label
  | _ => ""

namespace Jump

variable (j : Jump)

/-- The loops and `switch` statements around a jump in its own function, lambda
or deferred block. -/
def own : List Around := j.path.takeWhile (·.isTarget)

/-- The constructs a jump may go to. -/
def wanted : Around → Bool :=
  match j.label, j.toHeader with
  | some label, _ => (· = .loop label)
  | none, true => (·.isLoop)
  | none, false => (·.isTarget)

/-- Where a jump should go: the innermost construct of the wanted kind, counted
from inside. -/
def target : Option Nat := j.own.findIdx? j.wanted

/-- Whether a jump is part of a deferred block of its function. -/
def deferred : Bool := .defer ∈ j.path.takeWhile (· ≠ .lambda)

/-- Nothing is between a jump and the construct it goes to: it is not part of a
deferred block, without a label it stands in a lambda only inside a loop or
`switch` there, as `continue` directly in a loop, and a label is the one of a
loop around. -/
def plain : Bool :=
  !j.deferred && match j.label with
    | some label => (j.own.find? fun a => a.entryLabel = label).any (·.isLoop)
    | none => j.path.head?.all fun a => if j.toHeader then a.isLoop else a.isTarget

end Jump

namespace Codegen

/-- An entry of `loop_stack_` that was pushed for this construct. -/
def EntryOf (a : Around) (lc : LoopCtx) : Prop :=
  lc.hasHeader = a.isLoop ∧ lc.label = a.entryLabel

/-- Code goes where the jump should go, whatever is on `loop_stack_` below the
entries of its own function; and there is code at all, since with a jump every
deferred block that is registered is emitted, also the one it is part of. -/
structure Directed (j : Jump) : Prop where
  reaches : ∃ k, j.target = some k ∧
    ∀ entries below, List.Forall₂ EntryOf j.own entries →
      ∃ depth, jumpTarget (entries ++ below) j.toHeader j.label = .to k depth
  emitted : j.deferred = false

/-! ## Blocks that jump have no code -/

section Deferred

variable (ls : Layouts)

/-- The clean-up that is emitted first when scopes are left. -/
def latest (ctx : Ctx) : Option ScopeCleanup :=
  (ctx.scopes.flatMap (·.cleanups.reverse)).head?

/-- Emission comes to a jump before it registers anything. -/
def JumpsFirst (body : List Stmt) : Prop :=
  ∀ D ctx, (genStmts ls D body ctx).isSome = true →
    ∃ ctx', latest ctx' = latest ctx ∧ (emitAllScopeCleanups D ctx').isSome = true

/-- A deferred block with a jump is emitted inside its own code for ever. -/
theorem genLevel_eq_none {loc : SourceLoc} {body : List Stmt} (jumps : JumpsFirst ls body)
    (n : Nat) : ∀ ctx, latest ctx = some (.deferBody loc body) → genLevel ls n body ctx = none := by
  induction n with
  | zero => exact fun _ _ => rfl
  | succ n ih =>
      intro ctx first
      by_contra emits
      obtain ⟨ctx', same, again⟩ := jumps _ ctx (Option.isSome_iff_ne_none.2 emits)
      rw [first] at same
      obtain ⟨rest, listed⟩ := List.head?_eq_some_iff.1 same
      simp [emitAllScopeCleanups, listed, emitScopeCleanups, emitScopeCleanup, Emitter.seq,
        Emitter.code, ih ctx' same] at again

theorem emitBreak_eq_none {D : List Stmt → Emitter} {ctx : Ctx} {k depth : Nat} {toHeader : Bool}
    {label : Option String} (target : jumpTarget ctx.loops toHeader label = .to k depth)
    (stuck : emitAllScopeCleanups D ctx = none) : emitBreak D toHeader label ctx = none := by
  have all : emitAll D ctx = none := by simp [emitAll, stuck]
  simp [emitBreak, target, emitJump, Emitter.seq, Emitter.code, all]

theorem jumpsFirst_while (label : Option String) (cond : Expr) :
    JumpsFirst ls [.whileStmt label cond [.breakStmt none]] := by
  intro D ctx emits
  refine ⟨(ctx.inLoop true (label.getD "")).push, rfl, ?_⟩
  by_contra stuck
  rw [Option.not_isSome_iff_eq_none] at stuck
  have inner : emitBreak D false none (ctx.inLoop true (label.getD "")).push = none :=
    emitBreak_eq_none rfl stuck
  simp [genStmts, genStmt, Emitter.seq, Emitter.node, Emitter.insideLoop, withScope,
    enterScope, Emitter.code, inner] at emits

theorem genLevel_whileBreak :
    let body := [.whileStmt none (.boolLit (-1) true) [.breakStmt none]]
    genLevel {} 3 body ⟨[{ cleanups := [.deferBody ⟨1, 1⟩ body] }], []⟩ = none :=
  genLevel_eq_none {} (jumpsFirst_while {} none _) 3 _ rfl

end Deferred

/-! ## One jump -/

section Target

theorem jumpTarget_unlabelled (lc : LoopCtx) (loops : List LoopCtx) (toHeader : Bool) :
    jumpTarget (lc :: loops) toHeader none =
      if toHeader && !lc.hasHeader then .invalid else .to 0 lc.depth := rfl

theorem findIdx?_split {α : Type} {p : α → Bool} {before behind : List α} {a : α}
    (none : ∀ b ∈ before, p b = false) (found : p a = true) :
    (before ++ a :: behind).findIdx? p = some before.length := by
  rw [List.findIdx?_append, List.findIdx?_eq_none_iff.2 none]
  simp [List.findIdx?_cons, found]

theorem jumpTarget_labelled {lc : LoopCtx} {before behind : List LoopCtx} {label : String}
    (toHeader : Bool) (others : ∀ lc ∈ before, lc.label ≠ label) (found : lc.label = label) :
    jumpTarget (before ++ lc :: behind) toHeader (some label) =
      if toHeader && !lc.hasHeader then .invalid else .to before.length lc.depth := by
  have index : (before ++ lc :: behind).findIdx? (fun lc => lc.label = label) =
      some before.length :=
    findIdx?_split (fun lc member => decide_eq_false (others lc member)) (decide_eq_true found)
  have notEmpty : (before ++ lc :: behind).isEmpty = false := by simp
  simp only [jumpTarget, notEmpty, index]
  simp

def entryOf (a : Around) : LoopCtx := ⟨a.isLoop, a.entryLabel, 0⟩

theorem forall₂_entryOf (own : List Around) : List.Forall₂ EntryOf own (own.map entryOf) := by
  rw [List.forall₂_map_right_iff]
  exact List.forall₂_same.2 fun _ _ => ⟨rfl, rfl⟩

variable {j : Jump}

theorem isTarget_of_isLoop {a : Around} (isLoop : a.isLoop = true) : a.isTarget = true := by
  cases a <;> first | rfl | cases isLoop

theorem directed_iff_of_unlabelled (noLabel : j.label = none) (inPath : j.path ≠ []) :
    Directed j ↔ j.plain = true := by
  obtain ⟨a, path, split⟩ := List.exists_cons_of_ne_nil inPath
  have plain_iff : j.plain = true ↔
      j.deferred = false ∧ (if j.toHeader then a.isLoop else a.isTarget) = true := by
    simp [Jump.plain, noLabel, split]
  rw [plain_iff]
  by_cases target : a.isTarget = true
  · have own_eq : j.own = a :: path.takeWhile (·.isTarget) := by
      rw [Jump.own, split, List.takeWhile_cons_of_pos target]
    constructor
    · rintro ⟨⟨k, isTarget, reaches⟩, emitted⟩
      refine ⟨emitted, ?_⟩
      obtain ⟨depth, goes⟩ := reaches _ [] (forall₂_entryOf j.own)
      rw [own_eq, noLabel, List.map_cons, List.cons_append, jumpTarget_unlabelled] at goes
      cases kind : j.toHeader with
      | false => exact target
      | true =>
          rw [if_pos rfl]
          by_contra notLoop
          rw [Bool.not_eq_true] at notLoop
          simp [kind, entryOf, notLoop] at goes
    · rintro ⟨emitted, kind⟩
      refine ⟨⟨0, ?_, ?_⟩, emitted⟩
      · rw [Jump.target, own_eq, List.findIdx?_cons]
        cases header : j.toHeader <;> simp_all [Jump.wanted]
      · intro entries below stands
        rw [own_eq, List.forall₂_cons_left_iff] at stands
        obtain ⟨lc, rest, ⟨hasHeader, _⟩, _, rfl⟩ := stands
        rw [noLabel, List.cons_append, jumpTarget_unlabelled, hasHeader]
        cases header : j.toHeader <;> simp_all
  · have own_eq : j.own = [] := by
      rw [Jump.own, split, List.takeWhile_cons_of_neg target]
    constructor
    · rintro ⟨⟨k, isTarget, _⟩, _⟩
      rw [Jump.target, own_eq] at isTarget
      cases isTarget
    · rintro ⟨_, kind⟩
      cases header : j.toHeader with
      | false => simp_all
      | true => exact absurd (isTarget_of_isLoop (by simpa [header] using kind)) target

theorem entries_split {before behind : List Around} {a : Around} {entries : List LoopCtx}
    (stands : List.Forall₂ EntryOf (before ++ a :: behind) entries) :
    ∃ es lc es', entries = es ++ lc :: es' ∧ List.Forall₂ EntryOf before es ∧ EntryOf a lc := by
  induction before generalizing entries with
  | nil =>
      obtain ⟨lc, es', entry, _, rfl⟩ := List.forall₂_cons_left_iff.1 stands
      exact ⟨[], lc, es', rfl, .nil, entry⟩
  | cons b before ih =>
      obtain ⟨e, rest, entry, stands', rfl⟩ := List.forall₂_cons_left_iff.1 stands
      obtain ⟨es, lc, es', rfl, ofBefore, ofA⟩ := ih stands'
      exact ⟨e :: es, lc, es', rfl, .cons entry ofBefore, ofA⟩

theorem label_ne_of_entries {before : List Around} {es : List LoopCtx} {label : String}
    (stands : List.Forall₂ EntryOf before es) (others : ∀ b ∈ before, b.entryLabel ≠ label) :
    ∀ lc ∈ es, lc.label ≠ label := by
  induction stands with
  | nil => exact fun _ member => by cases member
  | @cons b lc before es entry _ ih =>
      intro lc' member
      rcases List.mem_cons.1 member with rfl | later
      · rw [entry.2]
        exact others b (by simp)
      · exact ih (fun b' member' => others b' (by simp [member'])) lc' later

theorem jumpTarget_of_split {before behind : List Around} {a : Around} {label : String}
    {entries : List LoopCtx} (toHeader : Bool) (others : ∀ b ∈ before, b.entryLabel ≠ label)
    (found : a.entryLabel = label)
    (stands : List.Forall₂ EntryOf (before ++ a :: behind) entries) (below : List LoopCtx) :
    ∃ depth, jumpTarget (entries ++ below) toHeader (some label) =
      if toHeader && !a.isLoop then .invalid else .to before.length depth := by
  obtain ⟨es, lc, es', rfl, ofBefore, hasHeader, entryLabel⟩ := entries_split stands
  refine ⟨lc.depth, ?_⟩
  rw [List.append_assoc, List.cons_append,
    jumpTarget_labelled toHeader (label_ne_of_entries ofBefore others) (entryLabel.trans found),
    hasHeader, ofBefore.length_eq]

theorem directed_iff_of_labelled {label : String} (labelled : j.label = some label) :
    Directed j ↔ j.plain = true := by
  have plain_iff : j.plain = true ↔ j.deferred = false ∧
      (j.own.find? fun a => a.entryLabel = label).any (·.isLoop) = true := by
    simp [Jump.plain, labelled]
  have target_eq : j.target = j.own.findIdx? (· = .loop label) := by
    rw [Jump.target, Jump.wanted, labelled]
  rw [plain_iff]
  cases found : j.own.find? fun a => a.entryLabel = label with
  | none =>
      constructor
      · rintro ⟨⟨k, isTarget, _⟩, _⟩
        have nowhere : j.target = none := by
          rw [target_eq, List.findIdx?_eq_none_iff]
          intro a member
          have other := List.find?_eq_none.1 found a member
          exact decide_eq_false fun same => other (by simp [same, Around.entryLabel])
        rw [nowhere] at isTarget
        cases isTarget
      · rintro ⟨_, isLoop⟩
        cases isLoop
  | some a =>
      obtain ⟨here, before, behind, split, others⟩ := List.find?_eq_some_iff_append.1 found
      have here : a.entryLabel = label := by simpa using here
      have others : ∀ b ∈ before, b.entryLabel ≠ label := by simpa using others
      rw [Option.any_some]
      constructor
      · rintro ⟨⟨k, isTarget, reaches⟩, emitted⟩
        refine ⟨emitted, ?_⟩
        obtain ⟨depth, goes⟩ := reaches _ [] (forall₂_entryOf j.own)
        obtain ⟨depth', goes'⟩ := jumpTarget_of_split j.toHeader others here
          (forall₂_entryOf (before ++ a :: behind)) []
        rw [labelled, split, goes'] at goes
        -- the code takes this construct for the target, so that it is the wanted one
        have same : before.length = k := by
          split_ifs at goes
          exact (JumpTarget.to.inj goes).1
        rw [target_eq, split, ← same, List.findIdx?_eq_some_iff_getElem] at isTarget
        obtain ⟨_, isThis, _⟩ := isTarget
        rw [List.getElem_append_right (Nat.le_refl _)] at isThis
        have isThis : a = .loop label := by simpa using isThis
        rw [isThis]
        rfl
      · rintro ⟨emitted, isLoop⟩
        have isThis : a = .loop label := by
          cases a with
          | loop l => rw [← here]; rfl
          | _ => cases isLoop
        refine ⟨⟨before.length, ?_, ?_⟩, emitted⟩
        · rw [target_eq, split]
          refine findIdx?_split (fun b member => decide_eq_false fun same => ?_)
            (decide_eq_true isThis)
          exact others b member (by rw [same]; rfl)
        · intro entries below stands
          rw [split] at stands
          obtain ⟨depth, goes⟩ := jumpTarget_of_split j.toHeader others here stands below
          exact ⟨depth, by rw [labelled, goes, isLoop]; simp⟩

theorem directed_iff (inPath : j.path ≠ []) : Directed j ↔ j.plain = true := by
  cases label : j.label with
  | none => exact directed_iff_of_unlabelled label inPath
  | some _ => exact directed_iff_of_labelled label

end Target

/-! ## All jumps of a program -/

/-- Of an accepted program every jump goes to its construct exactly if nothing
is between them anywhere.  That an unlabelled jump has a loop or `switch` around
it at all is what analysis sees to. -/
theorem directed_iff_plain {prog prog' : Program} {s : Sema.State}
    (accepts : Sema.Accepts prog prog' s) :
    (∀ j ∈ prog.jumps, Directed j) ↔ ∀ j ∈ prog.jumps, j.plain = true := by
  have inPath := Sema.path_ne_nil_of_accepts accepts
  constructor
  · intro directed j member
    exact (directed_iff (inPath j member)).1 (directed j member)
  · intro plain j member
    exact (directed_iff (inPath j member)).2 (plain j member)

def mainOf (body : List Stmt) : Program where
  decls := [.func {
    loc := ⟨1, 1⟩, returnType := { name := "int" }, name := "main", params := []
    body := some (body ++ [.returnStmt (some (.intLit 0 0))]) }]
  stmts := []

/-- A loop in a labelled one, left by its label, and a `switch`. -/
def labelledLoops : Program :=
  mainOf [
    .whileStmt (some "outer") (.boolLit 0 true) [
      .switchStmt (.intLit 0 1) [.mk none [.breakStmt none]],
      .whileStmt none (.boolLit 0 true) [.continueStmt (some "outer")],
      .breakStmt none]]

theorem directed_labelledLoops :
    labelledLoops.jumps.length = 3 ∧ ∀ j ∈ labelledLoops.jumps, Directed j := by
  obtain ⟨prog', s, accepts, _⟩ := Sema.exists_accepts labelledLoops (fun _ _ => true)
    (by decide +kernel)
  exact ⟨rfl, (directed_iff_plain accepts).2 (by decide)⟩

/-- A `continue` in a `switch` inside and outside of a loop, and a `break` in a
lambda written in a loop. -/
def strayJumps : Program :=
  mainOf [
    .whileStmt none (.boolLit 0 true) [
      .switchStmt (.intLit 0 1) [.mk none [.continueStmt none]]],
    .switchStmt (.intLit 0 1) [.mk none [.continueStmt none]],
    .whileStmt none (.boolLit 0 true) [
      .varDecl ⟨4, 3⟩ { name := "auto" } false false
        [.mk "f" (some (.lambda 0 [] [.breakStmt none] none ""))]]]

theorem not_directed_strayJumps : (∃ prog' s, Sema.Accepts strayJumps prog' s) ∧
    strayJumps.jumps.length = 3 ∧ ∀ j ∈ strayJumps.jumps, ¬Directed j := by
  obtain ⟨prog', s, accepts, _⟩ := Sema.exists_accepts strayJumps (fun _ _ => true)
    (by decide +kernel)
  refine ⟨⟨prog', s, accepts⟩, rfl, fun j member directed => ?_⟩
  have plain := (directed_iff (Sema.path_ne_nil_of_accepts accepts j member)).1 directed
  have stray : ∀ j ∈ strayJumps.jumps, j.plain = false := by decide
  rw [stray j member] at plain
  cases plain

end Codegen

end Dux
