import Dux.Codegen.Exec

/-!
# Typed catch clauses

`gen_try_catch` (`src/codegen/codegen.cpp`) tests a typed clause by comparing the
string that the first word of the thrown object points to with the name of the
clause.  `gen_new` stores a vtable pointer there, and only if the class has one by
then; the objects of the runtime (`src/runtime/exceptions.cpp`) have a type name.
-/

namespace Dux.Codegen

open Dux.Logic (Outcome Run)

/-- What the first word of a thrown object points to. -/
inductive Header
  | typeName (name : String)
  | vtable
  | unset
  deriving DecidableEq

/-- A thrown object: its address, its class, its first word. -/
structure Thrown where
  object : Nat
  cls : String
  header : Header

/-- An object made by `gen_new`; `vtables` are the classes whose vtable has been
emitted by the time the expression is compiled. -/
def thrownInstance (vtables : List String) (object : Nat) (cls : String) : Thrown :=
  ⟨object, cls, if cls ∈ vtables then .vtable else .unset⟩

def thrownError (object : Nat) (name : String) : Thrown := ⟨object, name, .typeName name⟩

/-- The exceptions that are raised: instances of classes and errors of the
runtime. -/
inductive Raised (vtables : List String) : Thrown → Prop
  | user (object : Nat) (cls : String) : Raised vtables (thrownInstance vtables object cls)
  | runtime (object : Nat) (name : String) : Raised vtables (thrownError object name)

/-- A clause that is not tested. -/
def takesAnything : Option TypeExpr → Bool
  | none => true
  | some te => te.name = "" || te.name = "Exception"

section Test

-- the outcome of comparing the memory behind a word that is no type name
variable (garbage : Header → String → Bool)

/-- The comparison of `gen_try_catch`. -/
def typeMatches (x : Thrown) (name : String) : Bool :=
  match x.header with
  | .typeName actual => actual = name
  | .vtable => garbage .vtable name
  | .unset => garbage .unset name

/-- A world with a current exception that knows whether this has been bound. -/
def catchWorld : World (Thrown × Bool) where
  op
    | .bindCatch _, (x, _) => (.ok, (x, true))
    | _, w => (.ok, w)
  choose
    | .catchType name, (x, bound) => (if typeMatches garbage x name then 1 else 0, (x, bound))
    | _, w => (0, w)

/-- Code inside `k` enclosing `try` statements of the same function, each of them
with a clause that takes anything. -/
def enclose : Nat → List Instr → List Instr
  | 0, is => is
  | k + 1, is => [.tryCatch (enclose k is) [] [] [] []]

/-- Where an exception ends up: in the body of the clause, bound to its variable,
or at the enclosing handler behind `skipped` others. -/
inductive Target
  | body (bound : Nat)
  | handler (skipped : Nat)
  deriving DecidableEq

/-- Run the beginning of a catch clause on an exception, inside `k` enclosing
`try` statements of the function. -/
def catchTarget (clause : Option TypeExpr) (k : Nat) (x : Thrown) : Target :=
  match exec (catchWorld garbage) 1 (enclose k (catchCheck clause ++ [.op (.bindCatch "")]))
      ⟨(x, false), ⟨[{}], [], [], []⟩⟩ with
  | (o, s) =>
      if s.world.2 then .body x.object
      else if o = .escape then .handler k
      else .handler 0

/-- The first word that the test of a clause follows. -/
def catchRead (clause : Option TypeExpr) (x : Thrown) : Option Header :=
  if takesAnything clause then none else some x.header

end Test

/-- The body runs exactly if the class is that of the clause, the next handler
gets every other exception, and nothing but a type name is read. -/
structure Dispatched (clause : Option TypeExpr) (x : Thrown) (target : Target)
    (read : Option Header) : Prop where
  target : target =
    if takesAnything clause ∨ clause.any (·.name = x.cls) then .body x.object else .handler 0
  read : ∀ header, read = some header → header = .typeName x.cls

section Lemmas

variable {garbage : Header → String → Bool} {clause : Option TypeExpr} {x : Thrown}

theorem exec_enclose {σ : Type} {W : World σ} {N : Nat} {is : List Instr} {s s' : State σ}
    {o : Outcome} (run : exec W N is s = (o, s')) (ends : o = .normal ∨ o = .escape) (k : Nat) :
    exec W N (enclose k is) s = (o, s') := by
  induction k with
  | zero => exact run
  | succ k ih =>
      rcases ends with rfl | rfl <;>
        simp [enclose, exec, execInstr, Run.protect, Run.seq, Run.skip, ih]

theorem catchCheck_of_takesAnything (anything : takesAnything clause = true) :
    catchCheck clause = [] := by
  cases clause with
  | none => rfl
  | some te =>
      simp only [takesAnything, Bool.or_eq_true, decide_eq_true_eq] at anything
      simp only [catchCheck]
      rw [if_neg]
      tauto

theorem exec_clause (g : Ghost) :
    exec (catchWorld garbage) 1 (catchCheck clause ++ [.op (.bindCatch "")]) ⟨(x, false), g⟩ =
      if takesAnything clause = true ∨ clause.any (fun te => typeMatches garbage x te.name) = true
      then (.normal, ⟨(x, true), g⟩) else (.escape, ⟨(x, false), g⟩) := by
  cases anything : takesAnything clause with
  | true =>
      rw [catchCheck_of_takesAnything anything]
      simp [exec, execInstr, execOp, Run.seq, Run.skip, catchWorld, Answer.outcome]
  | false =>
      cases clause with
      | none => simp [takesAnything] at anything
      | some te =>
          have tested : te.name ≠ "" ∧ te.name ≠ "Exception" := by
            simpa [takesAnything] using anything
          cases isMatch : typeMatches garbage x te.name <;>
            simp [catchCheck, tested, exec, execInstr, execArms, choosing, execOp, Run.seq,
              Run.skip, catchWorld, Answer.outcome, isMatch]

theorem catchTarget_eq (k : Nat) :
    catchTarget garbage clause k x =
      if takesAnything clause = true ∨ clause.any (fun te => typeMatches garbage x te.name) = true
      then .body x.object else .handler k := by
  have run := @exec_clause garbage clause x ⟨[{}], [], [], []⟩
  unfold catchTarget
  split at run
  · next taken =>
      rw [exec_enclose run (.inl rfl), if_pos taken]
      rfl
  · next passed =>
      rw [exec_enclose run (.inr rfl), if_neg passed]
      simp

end Lemmas

end Dux.Codegen
