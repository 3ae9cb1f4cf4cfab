import Dux.Codegen.Records

/-!
# Runs of emitted code and their records

Which statements register clean-ups, and rules for runs of emitted code that
say which scopes are live and which steps are under way before and after.

A deferred block is emitted again at every place it has to run, in the scope it
was registered in.  It is quiet when it declares nothing with a clean-up directly
at its own level: each copy would register that in the scope that is being left.
-/

namespace Dux.Codegen

open Dux.Logic (Outcome Run)
open Dux.Logic.Run (Holds Post)

/-- The outermost `d` scopes. -/
def outer {α : Type} (d : Nat) (l : List α) : List α := l.drop (l.length - d)

@[simp]
theorem outer_length {α : Type} (l : List α) : outer l.length l = l := by
  simp [outer]

theorem outer_cons {α : Type} {d : Nat} {l : List α} (inside : d ≤ l.length) (a : α) :
    outer d (a :: l) = outer d l := by
  unfold outer
  rw [List.length_cons, Nat.succ_sub inside, List.drop_succ_cons]

theorem outer_tail {α : Type} {d : Nat} {l : List α} (inside : d ≤ l.tail.length) :
    outer d l.tail = outer d l := by
  cases l with
  | nil => rfl
  | cons a l => exact (outer_cons inside a).symm

/-! ## What a statement registers -/

section Quiet

variable (ls : Layouts)

def itemsRegistered (loc : SourceLoc) (type : TypeExpr) (isStatic : Bool) :
    List VarItem → List Item
  | [] => []
  | .mk name init :: ds =>
      declaredItems ls type isStatic ⟨loc, name⟩ init ++ itemsRegistered loc type isStatic ds

mutual

def registered : Stmt → List Item
  | .varDecl loc type isStatic isThreadLocal decls =>
      if isThreadLocal then [] else itemsRegistered ls loc type isStatic decls
  | .defer loc body => [.cleanup (.deferBody loc body)]
  | .unsafeStmt body => registeredAll body
  | .block _ | .expr _ | .ifStmt _ _ _ | .whileStmt _ _ _ | .doWhile _ _ | .forIn _ _ _ _
  | .forC _ _ _ _ _ _ | .switchStmt _ _ | .matchStmt _ _ | .tryCatch _ _ _ _ _
  | .returnStmt _ | .breakStmt _ | .continueStmt _ | .assertStmt _ | .deleteStmt _
  | .throwStmt _ => []

def registeredAll : List Stmt → List Item
  | [] => []
  | s :: ss => registered s ++ registeredAll ss

end

mutual

/-- Whether no deferred block in the statement registers anything in the scope
it is emitted in. -/
def isQuiet : Stmt → Bool
  | .block body => areQuiet body
  | .ifStmt _ thenBr elseBr => areQuiet thenBr && isQuietElse elseBr
  | .whileStmt _ _ body => areQuiet body
  | .doWhile body _ => areQuiet body
  | .forIn _ _ _ body => areQuiet body
  | .forC _ _ _ _ _ body => areQuiet body
  | .switchStmt _ cases => areQuietCases cases
  | .matchStmt _ arms => areQuietArms arms
  | .tryCatch tryBody _ _ _ catchBody => areQuiet tryBody && areQuiet catchBody
  | .defer _ body => (registeredAll ls body).isEmpty && areQuiet body
  | .unsafeStmt body => areQuiet body
  | .expr _ | .varDecl _ _ _ _ _ | .returnStmt _ | .breakStmt _ | .continueStmt _
  | .assertStmt _ | .deleteStmt _ | .throwStmt _ => true

def areQuiet : List Stmt → Bool
  | [] => true
  | s :: ss => isQuiet s && areQuiet ss

def isQuietElse : ElseBr → Bool
  | .none => true
  | .block body => areQuiet body
  | .elif _ thenBr elseBr => areQuiet thenBr && isQuietElse elseBr

def areQuietCases : List SwitchCase → Bool
  | [] => true
  | c :: cs => isQuietCase c && areQuietCases cs

def isQuietCase : SwitchCase → Bool
  | .mk _ body => areQuiet body

def areQuietArms : List MatchArm → Bool
  | [] => true
  | a :: as => isQuietArm a && areQuietArms as

def isQuietArm : MatchArm → Bool
  | .mk _ body => areQuiet body

end

/-- A clean-up that registers nothing when it is emitted. -/
def ScopeCleanup.Quiet : ScopeCleanup → Prop
  | .deferBody _ body => registeredAll ls body = [] ∧ areQuiet ls body = true
  | .dtor _ _ | .release _ _ | .call _ => True

def Item.Quiet : Item → Prop
  | .cleanup c => c.Quiet ls
  | .str _ => True

def Frame.Quiet (frame : Frame) : Prop := ∀ c ∈ frame.cleanups, c.Quiet ls

def Ctx.Quiet (ctx : Ctx) : Prop := ∀ frame ∈ ctx.scopes, frame.Quiet ls

variable {ls}

theorem Frame.Quiet.add {frame : Frame} (quiet : frame.Quiet ls) {x : Item}
    (quietItem : x.Quiet ls) : (frame.add x).Quiet ls := by
  cases x with
  | str slot => exact quiet
  | cleanup c =>
      intro c' member
      rcases List.mem_append.mp member with old | new
      · exact quiet c' old
      · rw [List.mem_singleton.mp new]
        exact quietItem

theorem Ctx.Quiet.push {ctx : Ctx} (quiet : ctx.Quiet ls) : ctx.push.Quiet ls := by
  intro frame member
  rcases List.mem_cons.mp member with rfl | old
  · intro c none
    cases none
  · exact quiet frame old

theorem Ctx.Quiet.register {ctx : Ctx} (quiet : ctx.Quiet ls) {x : Item}
    (quietItem : x.Quiet ls) : (ctx.register x).Quiet ls := by
  rcases ctx with ⟨_ | ⟨top, scopes⟩, loops⟩
  · exact quiet
  · intro frame member
    rcases List.mem_cons.mp member with rfl | old
    · exact (quiet top List.mem_cons_self).add quietItem
    · exact quiet frame (List.mem_cons_of_mem _ old)

theorem Ctx.Quiet.cleanups {ctx : Ctx} (quiet : ctx.Quiet ls) :
    ∀ c ∈ ctx.scopes.flatMap (·.cleanups.reverse), c.Quiet ls := by
  intro c member
  rcases List.mem_flatMap.mp member with ⟨frame, isFrame, isCleanup⟩
  exact quiet frame isFrame c (List.mem_reverse.mp isCleanup)

theorem quiet_itemsRegistered (loc : SourceLoc) (type : TypeExpr) (isStatic : Bool)
    (decls : List VarItem) : ∀ x ∈ itemsRegistered ls loc type isStatic decls, x.Quiet ls := by
  induction decls with
  | nil => simp [itemsRegistered]
  | cons d ds ih =>
      rcases d with ⟨name, init⟩
      intro x member
      rcases List.mem_append.mp member with here | later
      · rcases List.mem_append.mp here with defined | closure
        · simp only [definedItem] at defined
          split at defined <;> [skip; split at defined <;> [skip; split at defined <;>
            [skip; split at defined]]] <;> simp_all [Item.Quiet, ScopeCleanup.Quiet]
        · split at closure <;> simp_all [Item.Quiet, ScopeCleanup.Quiet]
      · exact ih x later

mutual

theorem quiet_registered :
    ∀ s : Stmt, isQuiet ls s = true → ∀ x ∈ registered ls s, x.Quiet ls
  | .varDecl loc type isStatic isThreadLocal decls, _ => by
      unfold registered
      split
      · simp
      · exact quiet_itemsRegistered loc type isStatic decls
  | .defer loc body, quiet => by
      have both : registeredAll ls body = [] ∧ areQuiet ls body = true := by
        simpa [isQuiet] using quiet
      simpa [registered, Item.Quiet, ScopeCleanup.Quiet] using both
  | .unsafeStmt body, quiet => quiet_registeredAll body quiet
  | .block _, _ | .expr _, _ | .ifStmt _ _ _, _ | .whileStmt _ _ _, _ | .doWhile _ _, _
  | .forIn _ _ _ _, _ | .forC _ _ _ _ _ _, _ | .switchStmt _ _, _ | .matchStmt _ _, _
  | .tryCatch _ _ _ _ _, _ | .returnStmt _, _ | .breakStmt _, _ | .continueStmt _, _
  | .assertStmt _, _ | .deleteStmt _, _ | .throwStmt _, _ => by simp [registered]

theorem quiet_registeredAll :
    ∀ ss : List Stmt, areQuiet ls ss = true → ∀ x ∈ registeredAll ls ss, x.Quiet ls
  | [], _ => by simp [registeredAll]
  | s :: ss, quiet => by
      have both : isQuiet ls s = true ∧ areQuiet ls ss = true := by simpa [areQuiet] using quiet
      intro x member
      rcases List.mem_append.mp member with here | later
      · exact quiet_registered s both.1 x here
      · exact quiet_registeredAll ss both.2 x later

end

end Quiet

/-! ## Runs and their records -/

def Ctx.registerAll (ctx : Ctx) (xs : List Item) : Ctx := xs.foldl Ctx.register ctx

def registerLive (live : List LiveScope) (xs : List Item) : List LiveScope :=
  live.modifyHead (·.addAll xs)

section Records

variable {σ : Type}

/-- A state with these live scopes and these steps under way, whose records are
faithful. -/
structure At (live : List LiveScope) (openSteps : List Record) (s : State σ) : Prop where
  live : s.ghost.live = live
  openSteps : s.ghost.openSteps = openSteps
  log : ∀ r ∈ s.ghost.log, r.Faithful
  stray : s.ghost.stray = []

/-- A state in which code is left before its end.  Steps begun inside may still
be under way; a jump or a return has left the scopes it had to leave. -/
structure Leaves (loops : List LoopCtx) (live : List LiveScope) (openSteps : List Record)
    (o : Outcome) (s : State σ) : Prop where
  openSteps : ∃ inside, s.ghost.openSteps = inside ++ openSteps ∧ ∀ r ∈ inside, r.Faithful
  log : ∀ r ∈ s.ghost.log, r.Faithful
  stray : s.ghost.stray = []
  jumps : ∀ k toHeader, o = .br k toHeader →
    ∃ lc, loops[k]? = some lc ∧ (lc.depth ≤ live.length → s.ghost.live = outer lc.depth live)
  returns : o = .ret → 1 ≤ live.length → s.ghost.live = outer 1 live

variable {live : List LiveScope} {openSteps : List Record} {loops : List LoopCtx}
variable {o : Outcome} {s : State σ}

theorem Leaves.tail (leaves : Leaves loops live openSteps o s) :
    Leaves loops live.tail openSteps o s where
  openSteps := leaves.openSteps
  log := leaves.log
  stray := leaves.stray
  jumps k toHeader jump := by
    rcases leaves.jumps k toHeader jump with ⟨lc, target, reached⟩
    refine ⟨lc, target, fun inside => ?_⟩
    rw [outer_tail inside]
    apply reached
    rw [List.length_tail] at inside
    omega
  returns ret inside := by
    rw [outer_tail inside]
    apply leaves.returns ret
    rw [List.length_tail] at inside
    omega

theorem Leaves.registerLive {xs : List Item}
    (leaves : Leaves loops (Codegen.registerLive live xs).tail openSteps o s) :
    Leaves loops live.tail openSteps o s := by
  cases live with
  | nil => exact leaves
  | cons scope live => exact leaves

theorem Leaves.interrupt {r : Record} (faithful : r.Faithful)
    (leaves : Leaves loops live (r :: openSteps) o s) : Leaves loops live openSteps o s where
  openSteps := by
    rcases leaves.openSteps with ⟨inside, same, all⟩
    refine ⟨inside ++ [r], by simp [same], ?_⟩
    intro r' member
    rcases List.mem_append.mp member with old | new
    · exact all r' old
    · rw [List.mem_singleton.mp new]
      exact faithful
  log := leaves.log
  stray := leaves.stray
  jumps := leaves.jumps
  returns := leaves.returns

theorem At.leaves (here : At live openSteps s) (noJump : ∀ k toHeader, o ≠ .br k toHeader)
    (noReturn : o ≠ .ret) : Leaves loops live openSteps o s where
  openSteps := ⟨[], here.openSteps, by simp⟩
  log := here.log
  stray := here.stray
  jumps k toHeader jump := absurd jump (noJump k toHeader)
  returns ret := absurd ret noReturn

theorem Leaves.settled (leaves : Leaves loops live openSteps o s) :
    (s.ghost.settle openSteps.length).openSteps = openSteps ∧
      ∀ r ∈ (s.ghost.settle openSteps.length).log, r.Faithful := by
  rcases leaves.openSteps with ⟨inside, same, all⟩
  constructor
  · simp [Ghost.settle, same]
  · intro r member
    rcases List.mem_append.mp member with given | old
    · apply all r
      simpa [Ghost.interrupted, same] using given
    · exact leaves.log r old

section Rules

variable {W : World σ} {N : Nat} {P Q : State σ → Prop} {X : Outcome → State σ → Prop}

theorem exec_append (is js : List Instr) :
    exec W N (is ++ js) = (exec W N is).seq (exec W N js) := by
  induction is with
  | nil => rfl
  | cons i is ih =>
      funext s
      simp only [List.cons_append, exec, ih, Run.seq]
      generalize execInstr W N i s = r
      rcases r with ⟨o, s'⟩
      cases o <;> rfl

theorem holds_append {is js : List Instr} {R : State σ → Prop}
    (first : Holds P (exec W N is) R X) (second : Holds R (exec W N js) Q X) :
    Holds P (exec W N (is ++ js)) Q X := by
  rw [exec_append]
  exact first.seq second

theorem holds_cons {i : Instr} {is : List Instr} {R : State σ → Prop}
    (first : Holds P (execInstr W N i) R X) (second : Holds R (exec W N is) Q X) :
    Holds P (exec W N (i :: is)) Q X := by
  unfold exec
  exact first.seq second

theorem holds_nil (same : ∀ s, P s → Q s) : Holds P (exec W N []) Q X := by
  unfold exec
  exact .skip same

theorem holds_single {i : Instr} (holds : Holds P (execInstr W N i) Q X) :
    Holds P (exec W N [i]) Q X :=
  holds_cons holds (holds_nil fun _ same => same)

theorem holds_mark {m : Mark} (moves : ∀ s, P s → Q (s.withGhost (s.ghost.mark m))) :
    Holds P (execInstr W N (.mark m)) Q X := by
  intro s start
  simp only [execInstr, execMark]
  exact moves s start

/-- Code that moves nothing but the world, and does not jump or return. -/
def Inert (W : World σ) (N : Nat) (is : List Instr) : Prop :=
  ∀ s, (exec W N is s).2.ghost = s.ghost ∧
    (∀ k toHeader, (exec W N is s).1 ≠ .br k toHeader) ∧ (exec W N is s).1 ≠ .ret

theorem inert_nil : Inert W N [] := by
  intro s
  simp [exec, Run.skip]

theorem inert_single {i : Instr}
    (inert : ∀ s, (execInstr W N i s).2.ghost = s.ghost ∧
      (∀ k toHeader, (execInstr W N i s).1 ≠ .br k toHeader) ∧ (execInstr W N i s).1 ≠ .ret) :
    Inert W N [i] := by
  intro s
  have result := inert s
  simp only [exec, Run.seq]
  generalize execInstr W N i s = r at result ⊢
  rcases r with ⟨o, s'⟩
  cases o with
  | normal => exact result
  | br | ret | raise | escape | abort | timeout => exact result

theorem Inert.append {is js : List Instr} (first : Inert W N is) (second : Inert W N js) :
    Inert W N (is ++ js) := by
  intro s
  have result := first s
  rw [exec_append]
  unfold Run.seq
  generalize exec W N is s = r at result ⊢
  rcases r with ⟨o, s'⟩
  cases o with
  | normal =>
      have next := second s'
      exact ⟨next.1.trans result.1, next.2⟩
  | br | ret | raise | escape | abort | timeout => exact result

theorem inert_op (op : Op) : Inert W N [.op op] := by
  apply inert_single
  intro s
  simp only [execInstr, execOp]
  cases (W.op op s.world).1 <;> simp [Answer.outcome]

theorem inert_escape : Inert W N [.escape] := by
  apply inert_single
  intro s
  simp [execInstr]

theorem inert_abort : Inert W N [.abort] := by
  apply inert_single
  intro s
  simp [execInstr]

theorem Inert.cons_op {is : List Instr} (rest : Inert W N is) (op : Op) :
    Inert W N (.op op :: is) :=
  (inert_op op).append rest

theorem inert_ops (ops : List Op) : Inert W N (ops.map .op) := by
  induction ops with
  | nil => exact inert_nil
  | cons op ops ih => exact ih.cons_op op

theorem execArms_eq (arms : List (List Instr)) :
    execArms W N arms = arms.map (exec W N) := by
  induction arms with
  | nil => simp [execArms]
  | cons is arms ih => simp [execArms, ih]

theorem inert_branch {c : Choice} {arms : List (List Instr)} (inert : ∀ is ∈ arms, Inert W N is) :
    Inert W N [.branch c arms] := by
  apply inert_single
  intro s
  simp only [execInstr, choosing, execArms_eq, List.getElem?_map]
  cases way : arms[(W.choose c s.world).1]? with
  | none => simp [Run.skip]
  | some is => exact inert is (List.mem_of_getElem? way) { s with world := _ }

theorem At.of_ghost {s' : State σ} (here : At live openSteps s) (same : s'.ghost = s.ghost) :
    At live openSteps s' where
  live := by rw [same]; exact here.live
  openSteps := by rw [same]; exact here.openSteps
  log := by rw [same]; exact here.log
  stray := by rw [same]; exact here.stray

theorem Inert.holds {is : List Instr} (inert : Inert W N is) :
    Holds (At live openSteps) (exec W N is) (At live openSteps) (Leaves loops live openSteps) := by
  intro s here
  rcases inert s with ⟨same, noJump, noReturn⟩
  generalize exec W N is s = r at same noJump noReturn ⊢
  rcases r with ⟨o, s'⟩
  have there : At live openSteps s' := here.of_ghost same
  cases o with
  | normal => exact there
  | br | ret | raise | escape | abort | timeout => exact there.leaves noJump noReturn

end Rules

/-! ## Loops -/

/-- What is known behind a round of a loop from the loop's point of view. -/
def RoundLeaves (loops : List LoopCtx) (live : List LiveScope) (openSteps : List Record)
    (o : Outcome) (s : State σ) : Prop :=
  (∀ toHeader, o = .br 0 toHeader → At live openSteps s) ∧
    (o.lower ≠ .normal → Leaves loops live openSteps o.lower s)

theorem Leaves.lower {lc : LoopCtx} (leaves : Leaves (lc :: loops) live openSteps o s)
    (passes : o.lower ≠ .normal) : Leaves loops live openSteps o.lower s where
  openSteps := leaves.openSteps
  log := leaves.log
  stray := leaves.stray
  jumps k toHeader jump := by
    cases o with
    | br j toHeader' =>
        cases j with
        | zero => exact absurd rfl passes
        | succ j =>
            have same : j = k ∧ toHeader' = toHeader := by simpa [Outcome.lower] using jump
            rcases leaves.jumps (j + 1) toHeader' rfl with ⟨target, found, reached⟩
            exact ⟨target, by simpa [same.1] using found, reached⟩
    | normal | ret | raise | escape | abort | timeout => simp [Outcome.lower] at jump
  returns ret := by
    apply leaves.returns
    cases o with
    | ret => rfl
    | br j toHeader =>
        cases j with
        | zero => simp [Outcome.lower] at ret
        | succ j => simp [Outcome.lower] at ret
    | normal | raise | escape | abort | timeout => simp [Outcome.lower] at ret

theorem Leaves.arrive {lc : LoopCtx} {toHeader : Bool}
    (leaves : Leaves (lc :: loops) live openSteps (.br 0 toHeader) s)
    (depth : lc.depth = live.length) :
    At live openSteps (s.withGhost (s.ghost.settle openSteps.length)) := by
  rcases leaves.jumps 0 toHeader rfl with ⟨target, found, reached⟩
  have same : lc = target := by simpa using found
  have settled := leaves.settled
  constructor
  · rw [← same] at reached
    have there := reached (Nat.le_of_eq depth)
    rw [depth, outer_length] at there
    exact there
  · exact settled.1
  · exact settled.2
  · exact leaves.stray

section Loops

variable {W : World σ} {N : Nat} {lc : LoopCtx}

theorem holds_settlingRound {run : Run (State σ)} (depth : lc.depth = live.length)
    (holds : Holds (At live openSteps) run (At live openSteps)
      (Leaves (lc :: loops) live openSteps)) :
    Holds (At live openSteps) (settlingRound run) (At live openSteps)
      (RoundLeaves loops live openSteps) := by
  intro s start
  have result := holds s start
  unfold settlingRound
  generalize run s = r at result ⊢
  rcases r with ⟨o, s'⟩
  cases o with
  | normal => exact result
  | br k toHeader =>
      cases k with
      | zero =>
          constructor
          · intro _ _
            rw [start.openSteps]
            exact Leaves.arrive result depth
          · intro passes
            exact absurd rfl passes
      | succ k => exact ⟨by simp, Leaves.lower result⟩
  | ret | raise | escape | abort | timeout => exact ⟨by simp, Leaves.lower result⟩

theorem chooseRound_at (c : Choice) (here : At live openSteps s) :
    At live openSteps (chooseRound W c s).2 :=
  here.of_ghost rfl

theorem holds_loop {bodyFirst : Bool} {test body next : List Instr} {c : Choice}
    (testing : Inert W N test) (advancing : Inert W N next) (depth : lc.depth = live.length)
    (round : Holds (At live openSteps) (exec W N body) (At live openSteps)
      (Leaves (lc :: loops) live openSteps)) :
    Holds (At live openSteps) (exec W N [.loop bodyFirst test c body next]) (At live openSteps)
      (Leaves loops live openSteps) := by
  apply holds_single
  have settled := holds_settlingRound depth round
  have advances : Holds (At live openSteps) (exec W N next) (At live openSteps)
      (Leaves loops live openSteps) := advancing.holds
  have again : Holds (At live openSteps)
      (.loop (exec W N test) (chooseRound W c) (settlingRound (exec W N body))
        (exec W N next) N)
      (At live openSteps) (Leaves loops live openSteps) := by
    apply Holds.loop testing.holds (fun _ => chooseRound_at c) settled
    · exact fun s leaves => leaves.1 true rfl
    · exact fun s leaves => leaves.1 false rfl
    · exact fun o s _ passes leaves => leaves.2 passes
    · exact advances
    · exact fun s here => here.leaves (by simp) (by simp)
  unfold execInstr
  cases bodyFirst with
  | false => exact again
  | true =>
      apply Holds.around settled
      · exact fun s leaves => leaves.1 true rfl
      · exact fun s leaves => leaves.1 false rfl
      · exact fun o s _ passes leaves => leaves.2 passes
      · exact advances.seq again

theorem holds_branch {c : Choice} {arms : List (List Instr)}
    (each : ∀ is ∈ arms, Holds (At live openSteps) (exec W N is) (At live openSteps)
      (Leaves loops live openSteps)) :
    Holds (At live openSteps) (exec W N [.branch c arms]) (At live openSteps)
      (Leaves loops live openSteps) := by
  apply holds_single
  intro s start
  simp only [execInstr, choosing, execArms_eq, List.getElem?_map]
  have chosen : At live openSteps { s with world := (W.choose c s.world).2 } := start.of_ghost rfl
  cases way : arms[(W.choose c s.world).1]? with
  | none => exact chosen
  | some is => exact each is (List.mem_of_getElem? way) _ chosen

theorem holds_switch {c : Choice} {cases : List (List Instr)} (depth : lc.depth = live.length)
    (each : ∀ is ∈ cases, Holds (At live openSteps) (exec W N is) (At live openSteps)
      (Leaves (lc :: loops) live openSteps)) :
    Holds (At live openSteps) (exec W N [.switch c cases]) (At live openSteps)
      (Leaves loops live openSteps) := by
  apply holds_single
  have choosing : Holds (At live openSteps)
      (choosing W c fun i => .fallThrough ((execArms W N cases).drop i)) (At live openSteps)
      (Leaves (lc :: loops) live openSteps) := by
    intro s start
    apply Holds.fallThrough (P := At live openSteps)
    · intro run member
      rw [execArms_eq, ← List.map_drop] at member
      rcases List.mem_map.mp member with ⟨is, isCase, rfl⟩
      exact each is (List.mem_of_mem_drop isCase)
    · exact start.of_ghost rfl
  unfold execInstr
  apply Holds.breakable (holds_settlingRound depth choosing)
  · exact fun toHeader s leaves => leaves.1 toHeader rfl
  · exact fun o s _ passes leaves => leaves.2 passes

/-! ## Exceptions -/

theorem Leaves.timeout (leaves : Leaves loops live openSteps .raise s) :
    Leaves loops live openSteps .timeout s where
  openSteps := leaves.openSteps
  log := leaves.log
  stray := leaves.stray
  jumps := by simp
  returns := by simp

theorem Leaves.land (leaves : Leaves loops live openSteps .raise s) {saved : State σ}
    (start : At live openSteps saved) (final : List Entry) :
    ∃ owed, At (⟨owed, final⟩ :: live) (⟨.land owed final live, [], false⟩ :: openSteps)
      (s.withGhost (s.ghost.land saved.ghost final)) := by
  have settled := leaves.settled
  refine ⟨s.ghost.pending openSteps.length live.length, ?_⟩
  simp only [Ghost.land, start.live, start.openSteps]
  refine ⟨rfl, ?_, settled.2, leaves.stray⟩
  simp [State.withGhost, settled.1]

theorem holds_tryCatch {body pad exit handler : List Instr} {final : List Entry}
    {P : State σ → Prop}
    (bodyHolds : Holds (At live openSteps) (exec W N body) P (Leaves loops live openSteps))
    (exitHolds : Holds P (exec W N exit) (At live openSteps) (Leaves loops live openSteps))
    (padHolds : ∀ owed, Holds
      (At (⟨owed, final⟩ :: live) (⟨.land owed final live, [], false⟩ :: openSteps))
      (exec W N pad) (At live openSteps) (Leaves loops live openSteps))
    (handlerHolds : Holds (At live openSteps) (exec W N handler) (At live openSteps)
      (Leaves loops live openSteps)) :
    Holds (At live openSteps) (exec W N [.tryCatch body final pad exit handler])
      (At live openSteps) (Leaves loops live openSteps) := by
  have pads : Holds
      (fun s => ∃ owed, At (⟨owed, final⟩ :: live)
        (⟨.land owed final live, [], false⟩ :: openSteps) s)
      (exec W N pad) (At live openSteps) (Leaves loops live openSteps) := by
    rintro s ⟨owed, here⟩
    exact padHolds owed s here
  apply holds_single
  intro saved start
  have landing : Holds (Leaves loops live openSteps .raise)
      (.landing (fun s => s.withGhost (s.ghost.land saved.ghost final)) (exec W N pad)
        (exec W N handler) N)
      (At live openSteps) (Leaves loops live openSteps) := by
    apply Holds.landing pads
    · exact fun s leaves => leaves.land start final
    · exact fun s leaves => leaves
    · exact fun o s _ _ leaves => leaves
    · exact handlerHolds
    · exact fun s leaves => leaves.timeout
  unfold execInstr
  exact Holds.protect bodyHolds exitHolds (fun s leaves => leaves) landing
    (fun o s _ _ leaves => leaves) saved start

end Loops

end Records

end Dux.Codegen
