import Dux.Codegen.Faithful

/-!
# When scopes are left in order

A function runs at every exit and in every landing pad exactly the entries it
owes, as long as the step is clean.  Where it is not, code generation runs
entries of scopes that stay open, entries that were never registered, or entries
out of order.
-/

namespace Dux.Codegen

open Dux.Logic (Outcome Run)

def Step.IsExit : Step → Prop
  | .exit _ _ _ => True
  | .land _ _ _ => False

def Step.IsLanding : Step → Prop
  | .exit _ _ _ => False
  | .land _ _ _ => True

instance : ∀ step : Step, Decidable step.IsExit
  | .exit _ _ _ => inferInstanceAs (Decidable True)
  | .land _ _ _ => inferInstanceAs (Decidable False)

instance : ∀ step : Step, Decidable step.IsLanding
  | .exit _ _ _ => inferInstanceAs (Decidable False)
  | .land _ _ _ => inferInstanceAs (Decidable True)

section

variable {σ : Type} (W : World σ) (N : Nat) {ls : Layouts} {n : Nat} {globals : List Item}
variable {body : List Stmt} {is : List Instr}

/-- In every run of every function, each exit of scopes that is clean runs what
the scopes owe; nothing is run outside a step, and when the function returns,
all its scopes have been left. -/
theorem exit_fulfilled (quietGlobals : ∀ x ∈ globals, x.Quiet ls)
    (quiet : areQuiet ls body = true) (compiled : genFunction ls n globals body = some is) (w : σ) :
    (∀ r ∈ (call W N is globals w).2.ghost.records,
        r.step.IsExit → r.step.Clean → r.Fulfilled) ∧
      (call W N is globals w).2.ghost.stray = [] ∧
      ((call W N is globals w).1 = .ret →
        (call W N is globals w).2.ghost.live = [({} : LiveScope).addAll globals]) := by
  rcases call_spec quietGlobals quiet compiled w with ⟨faithful, stray, returned⟩
  refine ⟨?_, stray, returned⟩
  intro r member _ clean
  exact (faithful r member).fulfilled clean

/-- In every run of every function, each exception that reaches a landing pad in
a clean state makes the pad run what the scopes of the `try` body owe. -/
theorem landing_fulfilled (quietGlobals : ∀ x ∈ globals, x.Quiet ls)
    (quiet : areQuiet ls body = true) (compiled : genFunction ls n globals body = some is) (w : σ) :
    ∀ r ∈ (call W N is globals w).2.ghost.records,
      r.step.IsLanding → r.step.Clean → r.Fulfilled := by
  intro r member _ clean
  have faithful := (call_spec (W := W) (N := N) quietGlobals quiet compiled w).1 r member
  exact faithful.fulfilled clean

end

/-! ## Four functions -/

/-- A world in which every loop is entered and no instruction raises. -/
def calm : World Unit where
  op _ w := (.ok, w)
  choose _ w := (0, w)

/-- `list name = [];` in this line. -/
def listDecl (line : Nat) (name : String) : Stmt :=
  .varDecl ⟨line, 1⟩ { name := "list" } false false
    [.mk name (some (.list TypeRegistry.TID_LIST []))]

/-- The release of the list declared in this line. -/
def listRelease (line : Nat) (name : String) : Entry :=
  .release ⟨⟨line, 1⟩, name⟩ "duxrt_list_release"

def forever (body : List Stmt) : Stmt :=
  .whileStmt none (.boolLit TypeRegistry.TID_BOOL true) body

def throwE : Stmt := .throwStmt (.stringLit TypeRegistry.TID_STR "e")

def tryCatchE (body : List Stmt) : Stmt := .tryCatch body false none (some "e") []

/-- A `break` out of a block with a list and a deferred block in it. -/
def breakInside : List Stmt :=
  [forever [listDecl 1 "ys", .defer ⟨2, 1⟩ [.expr (.intLit TypeRegistry.TID_INT 0)],
    .breakStmt none]]

/-- A `break` below a list that stays alive. -/
def breakBelow : List Stmt := [listDecl 1 "xs", forever [.breakStmt none]]

/-- A `throw` behind all registrations of its `try`. -/
def throwLast : List Stmt := [tryCatchE [listDecl 1 "ys", throwE]]

/-- A `throw` below a list that stays alive. -/
def throwBelow : List Stmt := [listDecl 1 "xs", tryCatchE [throwE]]

theorem exists_record {n : Nat} {body : List Stmt} {P : Record → Prop} [DecidablePred P]
    (found : ((genFunction {} n [] body).any fun is =>
      (call calm 2 is [] ()).2.ghost.records.any fun r => P r) = true) :
    ∃ is, genFunction {} n [] body = some is ∧
      ∃ r ∈ (call calm 2 is [] ()).2.ghost.records, P r := by
  rcases (Option.any_eq_true _ _).mp found with ⟨is, compiled, made⟩
  rcases List.any_eq_true.mp made with ⟨r, member, holds⟩
  exact ⟨is, compiled, r, member, of_decide_eq_true holds⟩

/-- The exits of a run of `breakInside` do what they owe. -/
theorem exit_fulfilled_breakInside : ∃ is, genFunction {} 1 [] breakInside = some is ∧
    ∃ r ∈ (call calm 2 is [] ()).2.ghost.records,
      r.ran = [.defer ⟨2, 1⟩, listRelease 1 "ys"] ∧ r.done = true ∧ r.step.IsExit ∧
        r.Fulfilled := by
  obtain ⟨is, compiled, r, member, ran, done, isExit, clean⟩ :
      ∃ is, genFunction {} 1 [] breakInside = some is ∧
        ∃ r ∈ (call calm 2 is [] ()).2.ghost.records,
          r.ran = [.defer ⟨2, 1⟩, listRelease 1 "ys"] ∧ r.done = true ∧ r.step.IsExit ∧
            r.step.Clean :=
    exists_record (by decide +kernel)
  have quiet : areQuiet {} breakInside = true := by decide +kernel
  have noGlobals : ∀ x ∈ ([] : List Item), x.Quiet {} := by simp
  have fulfilled := (exit_fulfilled calm 2 noGlobals quiet compiled ()).1 r member isExit clean
  exact ⟨is, compiled, r, member, ran, done, isExit, fulfilled⟩

/-- The `break` in `breakBelow` releases a list that stays alive. -/
theorem not_exit_fulfilled_breakBelow :
    ¬ ∀ (σ : Type) (W : World σ) N ls n globals body is w, (∀ x ∈ globals, Item.Quiet ls x) →
      areQuiet ls body = true → genFunction ls n globals body = some is →
      ∀ r ∈ (call W N is globals w).2.ghost.records, r.step.IsExit → r.Fulfilled := by
  intro always
  obtain ⟨is, compiled, r, member, _, _, isExit, broken⟩ :
      ∃ is, genFunction {} 0 [] breakBelow = some is ∧
        ∃ r ∈ (call calm 2 is [] ()).2.ghost.records,
          r.ran = [listRelease 1 "xs"] ∧ r.step.owed = [] ∧ r.step.IsExit ∧ ¬r.Fulfilled :=
    exists_record (by decide +kernel)
  exact broken (always Unit calm 2 {} 0 [] breakBelow is () (by simp) (by decide +kernel) compiled
    r member isExit)

/-- The landing pad in a run of `throwLast` does what it owes. -/
theorem landing_fulfilled_throwLast : ∃ is, genFunction {} 0 [] throwLast = some is ∧
    ∃ r ∈ (call calm 2 is [] ()).2.ghost.records,
      r.ran = [listRelease 1 "ys"] ∧ r.done = true ∧ r.step.IsLanding ∧ r.Fulfilled := by
  obtain ⟨is, compiled, r, member, ran, done, isLanding, clean⟩ :
      ∃ is, genFunction {} 0 [] throwLast = some is ∧
        ∃ r ∈ (call calm 2 is [] ()).2.ghost.records,
          r.ran = [listRelease 1 "ys"] ∧ r.done = true ∧ r.step.IsLanding ∧ r.step.Clean :=
    exists_record (by decide +kernel)
  have quiet : areQuiet {} throwLast = true := by decide +kernel
  have noGlobals : ∀ x ∈ ([] : List Item), x.Quiet {} := by simp
  have fulfilled := landing_fulfilled calm 2 noGlobals quiet compiled () r member isLanding clean
  exact ⟨is, compiled, r, member, ran, done, isLanding, fulfilled⟩

/-- The landing pad in `throwBelow` releases a list that stays alive. -/
theorem not_landing_fulfilled_throwBelow :
    ¬ ∀ (σ : Type) (W : World σ) N ls n globals body is w, (∀ x ∈ globals, Item.Quiet ls x) →
      areQuiet ls body = true → genFunction ls n globals body = some is →
      ∀ r ∈ (call W N is globals w).2.ghost.records, r.step.IsLanding → r.Fulfilled := by
  intro always
  obtain ⟨is, compiled, r, member, _, _, isLanding, broken⟩ :
      ∃ is, genFunction {} 0 [] throwBelow = some is ∧
        ∃ r ∈ (call calm 2 is [] ()).2.ghost.records,
          r.ran = [listRelease 1 "xs"] ∧ r.step.owed = [] ∧ r.step.IsLanding ∧ ¬r.Fulfilled :=
    exists_record (by decide +kernel)
  exact broken (always Unit calm 2 {} 0 [] throwBelow is () (by simp) (by decide +kernel) compiled
    r member isLanding)

end Dux.Codegen
