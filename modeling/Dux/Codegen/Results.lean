import Dux.Runtime.Counts
import Mathlib.Algebra.BigOperators.Group.List.Basic
import Mathlib.Data.List.Perm.Basic

/-!
# The results of runtime calls in generated code

What the code generator does with a `str` or `list` it gets from a call of the
runtime: `maybe_retain_*`, the variables that own a reference, and the releases
at an assignment and at the end of a scope.

A run is a sequence of steps in any order: calls, uses of their results, scopes
that end, handles that are made and freed.
-/

namespace Dux.Codegen.Results

open Dux.Logic Dux.Runtime

/-- What kind of LLVM value an expression is, as far as `maybe_retain_*` asks. -/
inductive ValueKind
  | callInst
  | globalVariable
  | other

/-- `emit_call`: inside a `try` block a call is an `invoke`. -/
def callKind (inTry : Bool) : ValueKind := if inTry then .other else .callInst

/-- The heap, the handles and the counted variables in scope, newest first.
`results` records the references that generated code gets from calls and
retains, and the ones it releases. -/
structure Run where
  heap : Heap
  handles : Handles := []
  vars : List Ref := []
  results : Ledger Nat := {}

namespace Run

/-- `maybe_retain_str`, `maybe_retain_list` and `maybe_retain_dict`. -/
def maybeRetain (s : Run) : ValueKind → Ref → Run
  | .callInst, _ => s
  | .globalVariable, _ => s
  | .other, p =>
      { s with heap := (s.heap.retain p).2, results := s.results.acquire p.counted }

/-- `emit_str_release` and its counterparts. -/
def release (s : Run) (p : Ref) : Run :=
  { s with heap := s.heap.release p, results := s.results.release p.counted }

def leave : Nat → Run → Run
  | 0, s => s
  | n + 1, s =>
      match s.vars with
      | [] => s
      | p :: rest => leave n ({ s with vars := rest }.release p)

end Run

/-- An expression of type `str` or `list`.  In a `ret` a function returns one
out of a number of variables of its own. -/
inductive Source
  | null
  | literal (i : Nat)
  | var (i : Nat)
  | call (c : Call) (inTry : Bool)
  | ret (src : Source) (locals : Nat) (inTry : Bool)

/-- Where a value goes: a new variable, a variable that has a value, a field, or
nowhere, as the value of an expression statement or of an argument. -/
inductive Use
  | declare
  | assign (i : Nat)
  | field
  | drop

inductive Step
  | use (src : Source) (u : Use)
  | leave (n : Nat)
  | parseResponse (statusText : Bytes) (headers : List (Bytes × Bytes)) (body : Bytes)
  | parseRequest (method path query : Bytes) (headers : List (Bytes × Bytes)) (body : Bytes)
  | jsonParse (fields : List (Bytes × Bytes))
  | procSpawn
  | procWait (i : Nat) (out err : Option Bytes)
  | free (i : Nat)

namespace Source

/-- The kind and the value of an expression, and the run after it.  Arguments
point to objects. -/
def eval : Source → Run → Option (ValueKind × Ref × Run)
  | .null, s => some (.other, none, s)
  | .literal i, s => some (.globalVariable, some (.literal i), s)
  | .var i, s => do return (.other, ← s.vars[i]?, s)
  | .call c inTry, s =>
      if c.args.all s.heap.valid then do
        let (p, heap) ← c.exec s.handles s.heap
        return (callKind inTry, p, { s with heap, results := s.results.acquire p.counted })
      else none
  | .ret src locals inTry, s => do
      let (kind, p, s) ← src.eval s
      return (callKind inTry, p, (s.maybeRetain kind p).leave locals)

/-- The call lends its result. -/
def Lends (s : Run) : Source → Prop
  | .call c _ => c.Lends s.handles s.heap
  | .ret src _ _ => src.Lends s
  | .null | .literal _ | .var _ => False

/-- No call is made inside a `try` block. -/
def OutsideTry : Source → Prop
  | .call _ inTry => inTry = false
  | .ret src _ inTry => src.OutsideTry ∧ inTry = false
  | .null | .literal _ | .var _ => True

def isVar : Source → Bool
  | .var _ => true
  | _ => false

end Source

/-- What is done with a value. -/
def Use.exec (kind : ValueKind) (p : Ref) (s : Run) : Use → Option Run
  | .declare =>
      let s := s.maybeRetain kind p
      some { s with vars := p :: s.vars }
  | .assign i => do
      let old ← s.vars[i]?
      let s := (s.release old).maybeRetain kind p
      return { s with vars := s.vars.set i p }
  | .field => some (s.maybeRetain kind p)
  | .drop => some s

def Use.isAssign : Use → Bool
  | .assign _ => true
  | _ => false

/-- A variable takes the value over. -/
def Use.Takes : Use → Prop
  | .declare | .assign _ => True
  | .field | .drop => False

namespace Step

def made (s : Run) (result : Handle × Heap) : Run :=
  { s with handles := s.handles ++ [some result.1], heap := result.2 }

/-- One step.  The assignment of one variable to another is not one: it has no
part in what becomes of results. -/
def exec (s : Run) : Step → Option Run
  | .use src u =>
      if src.isVar && u.isAssign then none
      else do
        let (kind, p, s) ← src.eval s
        u.exec kind p s
  | .leave n => some (s.leave n)
  | .parseResponse statusText headers body =>
      some (made s (Runtime.parseResponse s.heap statusText headers body))
  | .parseRequest method path query headers body =>
      some (made s (duxrtHttpParseRequest s.heap method path query headers body))
  | .jsonParse fields => some (made s (duxrtJsonParse s.heap fields))
  | .procSpawn => some (made s (.proc {}, s.heap))
  | .procWait i out err => do
      let handle ← s.handles[i]?
      let live ← handle
      let p ← live.proc?
      let (handle, heap) := duxrtProcWait s.heap p out err
      return { s with handles := s.handles.set i (some handle), heap }
  | .free i => do
      let handle ← s.handles[i]?
      let live ← handle
      let heap ← live.free s.heap
      return { s with handles := s.handles.set i none, heap }

/-- The step uses a result that its accessor only lends. -/
def Lends (s : Run) : Step → Prop
  | .use src _ => src.Lends s
  | _ => False

/-- The results of the step are made outside `try` blocks and taken over by
variables. -/
def Taken : Step → Prop
  | .use src u => src.OutsideTry ∧ u.Takes
  | _ => True

end Step

/-- The runs all of whose steps meet a condition. -/
inductive Reaches (meets : Run → Step → Prop) (literals : List Bytes) : Run → Prop
  | start : Reaches meets literals { heap := { literals } }
  | step {s s' : Run} (reached : Reaches meets literals s) (step : Step)
      (condition : meets s step) (run : step.exec s = some s') : Reaches meets literals s'

/-! ## What a run owes -/

def Run.held (s : Run) : Multiset Nat := (s.vars.map Ref.counted).sum

def kept (hs : Handles) : Multiset Nat :=
  (hs.map fun handle => handle.elim 0 fun live => (live.owned : Multiset Nat)).sum

/-- Everything owed can be given up, references pending in an expression
included. -/
structure Run.Ok (s : Run) (pending : Multiset Nat) : Prop where
  safe : s.heap.Safe (pending + (s.held + kept s.handles))
  handles : s.handles.Valid s.heap

/-- What a value of a kind owns before `maybe_retain_*`. -/
def ValueKind.owned : ValueKind → Ref → Multiset Nat
  | .callInst, p => p.counted
  | .globalVariable, _ => 0
  | .other, _ => 0

section Owed

theorem sum_eq_of_getElem? {α : Type} (f : α → Multiset Nat) {l : List α} {i : Nat} {x : α}
    (isAt : l[i]? = some x) : (l.map f).sum = f x + ((l.eraseIdx i).map f).sum := by
  rcases List.getElem?_eq_some_iff.mp isAt with ⟨inside, rfl⟩
  have perm := (List.getElem_cons_eraseIdx_perm inside).map f
  rw [← perm.sum_eq, List.map_cons, List.sum_cons]

theorem sum_set {α : Type} (f : α → Multiset Nat) {l : List α} {i : Nat}
    (inside : i < l.length) (x : α) :
    ((l.set i x).map f).sum = f x + ((l.eraseIdx i).map f).sum := by
  have perm := (List.set_perm_cons_eraseIdx inside x).map f
  rw [perm.sum_eq, List.map_cons, List.sum_cons]

variable {s s' : Run} {kind : ValueKind} {p : Ref} {pending : Multiset Nat}

namespace Run

theorem Ok.mono {fewer : Multiset Nat} (ok : s.Ok pending) (le : fewer ≤ pending) : s.Ok fewer :=
  ⟨ok.safe.mono (add_le_add_left le _), ok.handles⟩

theorem Ok.maybeRetain (ok : s.Ok (kind.owned p + pending)) (valid : s.heap.Valid p)
    (immortal : kind = .globalVariable → p.counted = 0) :
    (s.maybeRetain kind p).Ok (p.counted + pending) := by
  cases kind with
  | callInst => exact ok
  | globalVariable =>
      rw [immortal rfl]
      exact ok
  | other =>
      have larger := Heap.extends_retain valid
      constructor
      · rw [add_assoc]
        apply Heap.Safe.take _ larger (le_of_eq Heap.acquired_retain.symm)
        have safe := ok.safe
        simp only [ValueKind.owned, zero_add] at safe
        exact safe
      · exact ok.handles.mono larger.length

theorem Ok.release (ok : s.Ok (p.counted + pending)) : (s.release p).Ok pending where
  safe := by
    have safe := ok.safe
    rw [add_assoc] at safe
    exact safe.release
  handles := ok.handles.mono (le_of_eq Heap.length_release.symm)

theorem Ok.forget (vars : List Ref) (ok : s.Ok pending)
    (parts : s.held = p.counted + (vars.map Ref.counted).sum) :
    ({ s with vars } : Run).Ok (p.counted + pending) where
  safe := by
    apply ok.safe.mono
    change p.counted + pending + ((vars.map Ref.counted).sum + kept s.handles) ≤ _
    rw [parts]
    apply le_of_eq
    abel
  handles := ok.handles

theorem Ok.toVar (vars : List Ref) (ok : s.Ok (p.counted + pending))
    (parts : (vars.map Ref.counted).sum = p.counted + s.held) :
    ({ s with vars } : Run).Ok pending where
  safe := by
    apply ok.safe.mono
    change pending + ((vars.map Ref.counted).sum + kept s.handles) ≤ _
    rw [parts]
    apply le_of_eq
    abel
  handles := ok.handles

theorem Ok.leave (ok : s.Ok pending) (n : Nat) : (s.leave n).Ok pending := by
  induction n generalizing s with
  | zero => exact ok
  | succ n ih =>
      unfold Run.leave
      split
      · exact ok
      · next isNewest => exact ih (ok.forget _ (by simp [held, isNewest])).release

@[simp]
theorem length_release : (s.release p).heap.objects.length = s.heap.objects.length :=
  Heap.length_release

@[simp]
theorem length_leave (n : Nat) : (s.leave n).heap.objects.length = s.heap.objects.length := by
  induction n generalizing s with
  | zero => rfl
  | succ n ih =>
      unfold Run.leave
      split
      · rfl
      · rw [ih]
        exact length_release

theorem le_length_maybeRetain :
    s.heap.objects.length ≤ (s.maybeRetain kind p).heap.objects.length := by
  cases kind with
  | callInst => exact le_rfl
  | globalVariable => exact le_rfl
  | other =>
      simp only [maybeRetain, Heap.retain]
      split <;> simp

end Run

/-! ## Expressions -/

structure Pending (kind : ValueKind) (p : Ref) (s : Run) : Prop where
  ok : s.Ok (kind.owned p)
  valid : s.heap.Valid p

theorem Pending.retained (value : Pending kind p s)
    (immortal : kind = .globalVariable → p.counted = 0) :
    (s.maybeRetain kind p).Ok p.counted := by
  have ok := value.ok
  rw [← add_zero (kind.owned p)] at ok
  simpa only [add_zero] using ok.maybeRetain value.valid immortal

theorem owned_callKind_le (inTry : Bool) : (callKind inTry).owned p ≤ p.counted := by
  cases inTry
  · exact le_rfl
  · exact Multiset.zero_le _

theorem callKind_ne_globalVariable (inTry : Bool) : callKind inTry ≠ .globalVariable := by
  cases inTry <;> simp [callKind]

theorem Source.eval_immortal {src : Source} (run : src.eval s = some (kind, p, s'))
    (isGlobal : kind = .globalVariable) : p.counted = 0 := by
  subst isGlobal
  cases src with
  | null => simp [eval] at run
  | literal i =>
      obtain ⟨-, rfl, -⟩ := run
      rfl
  | var i => simp [eval, Option.bind_eq_some_iff] at run
  | call c inTry =>
      simp [eval, Option.bind_eq_some_iff, callKind_ne_globalVariable inTry] at run
  | ret src locals inTry =>
      simp [eval, Option.bind_eq_some_iff, callKind_ne_globalVariable inTry] at run

theorem Run.Ok.valid_var (ok : s.Ok 0) {i : Nat} (isVar : s.vars[i]? = some p) :
    s.heap.Valid p := by
  intro a mem
  apply ok.safe.tallied.bounded
  apply Multiset.mem_of_le ok.safe.covers
  have single : p.counted ≤ s.held :=
    (Multiset.le_add_right _ _).trans (sum_eq_of_getElem? Ref.counted isVar).ge
  have isHeld := Multiset.mem_of_le single mem
  simp [isHeld]

theorem Source.eval_pending {src : Source} (ok : s.Ok 0) (keeps : ¬ src.Lends s)
    (run : src.eval s = some (kind, p, s')) : Pending kind p s' := by
  induction src generalizing kind p s' with
  | null =>
      obtain ⟨rfl, rfl, rfl⟩ := run
      exact ⟨ok, Heap.valid_none⟩
  | literal i =>
      obtain ⟨rfl, rfl, rfl⟩ := run
      exact ⟨ok, Heap.valid_literal i⟩
  | var i =>
      simp only [eval, Option.bind_eq_bind, Option.bind_eq_some_iff, Option.pure_def,
        Option.some.injEq, Prod.mk.injEq] at run
      rcases run with ⟨_, isVar, rfl, rfl, rfl⟩
      exact ⟨ok, ok.valid_var isVar⟩
  | call c inTry =>
      simp only [eval, List.all_eq_true, Option.ite_none_right_eq_some, Option.bind_eq_bind,
        Option.bind_eq_some_iff, Option.pure_def, Option.some.injEq, Prod.mk.injEq] at run
      rcases run with ⟨args, ⟨_, heap⟩, called, rfl, rfl, rfl⟩
      have done := Call.done ok.handles (fun q isArg => Heap.valid_iff.mp (args q isArg)) called
      constructor
      · apply Run.Ok.mono _ (owned_callKind_le inTry)
        constructor
        · have safe := ok.safe
          rw [zero_add] at safe
          exact safe.take done.larger (done.handsOver.mpr keeps)
        · exact ok.handles.mono done.larger.length
      · exact done.valid
  | ret src locals inTry ih =>
      simp only [eval, Option.bind_eq_bind, Option.bind_eq_some_iff, Option.pure_def,
        Option.some.injEq, Prod.mk.injEq] at run
      rcases run with ⟨⟨inner, q, s₁⟩, evaluated, rfl, rfl, rfl⟩
      have value := ih keeps evaluated
      constructor
      · exact ((value.retained (eval_immortal evaluated)).leave locals).mono
          (owned_callKind_le inTry)
      · intro a mem
        rw [Run.length_leave]
        exact (value.valid a mem).trans_le Run.le_length_maybeRetain

/-! ## Uses -/

@[simp]
theorem vars_maybeRetain : (s.maybeRetain kind p).vars = s.vars := by
  cases kind <;> rfl

theorem Use.exec_ok {u : Use} (value : Pending kind p s)
    (immortal : kind = .globalVariable → p.counted = 0) (run : u.exec kind p s = some s') :
    s'.Ok 0 := by
  cases u with
  | declare =>
      obtain rfl := Option.some.inj run
      have ok := value.retained immortal
      rw [← add_zero p.counted] at ok
      exact ok.toVar _ (by simp [Run.held])
  | assign i =>
      simp only [exec, Option.bind_eq_bind, Option.bind_eq_some_iff, Option.pure_def,
        Option.some.injEq] at run
      rcases run with ⟨old, isOld, rfl⟩
      -- the old value goes first, and the value is retained only after that
      have inside := (List.getElem?_eq_some_iff.mp isOld).1
      let others := s.vars.eraseIdx i
      have forgotten := value.ok.forget others (sum_eq_of_getElem? Ref.counted isOld)
      have released := forgotten.release
      rw [← add_zero (kind.owned p)] at released
      have valid : ({ s with vars := others }.release old).heap.Valid p := by
        intro a mem
        rw [Run.length_release]
        exact value.valid a mem
      have retained := released.maybeRetain valid immortal
      have same : ((s.release old).maybeRetain kind p) =
          { (({ s with vars := others } : Run).release old).maybeRetain kind p with
            vars := s.vars } := by
        cases kind <;> rfl
      rw [same]
      exact retained.toVar (s.vars.set i p) (by
        rw [sum_set Ref.counted inside]
        simp [Run.held, Run.release, others])
  | field =>
      obtain rfl := Option.some.inj run
      exact (value.retained immortal).mono (Multiset.zero_le _)
  | drop =>
      obtain rfl := Option.some.inj run
      exact value.ok.mono (Multiset.zero_le _)

/-! ## Steps -/

theorem kept_append (hs : Handles) (handle : Handle) :
    kept (hs ++ [some handle]) = (handle.owned : Multiset Nat) + kept hs := by
  simp [kept, add_comm]

theorem kept_of_getElem? {hs : Handles} {i : Nat} {live : Handle}
    (isAt : hs[i]? = some (some live)) :
    kept hs = (live.owned : Multiset Nat) + kept (hs.eraseIdx i) :=
  sum_eq_of_getElem? _ isAt

theorem kept_set {hs : Handles} {i : Nat} (inside : i < hs.length) (handle : Option Handle) :
    kept (hs.set i handle) =
      (handle.elim 0 fun live => (live.owned : Multiset Nat)) + kept (hs.eraseIdx i) :=
  sum_set _ inside handle

theorem made_ok {result : Handle × Heap} (ok : s.Ok 0) (made : Handle.Made s.heap result) :
    (Step.made s result).Ok 0 where
  safe := by
    have safe := ok.safe
    rw [zero_add] at safe
    have taken := safe.take made.larger made.taken
    change result.2.Safe (0 + (s.held + kept (s.handles ++ [some result.1])))
    rw [kept_append, zero_add, add_left_comm]
    exact taken
  handles := by
    intro handle mem a isString
    simp only [Step.made, List.mem_append, List.mem_singleton, Option.some.injEq] at mem
    rcases mem with old | rfl
    · exact (ok.handles handle old a isString).trans_le made.larger.length
    · exact made.known a isString

theorem Step.exec_ok {step : Step} (ok : s.Ok 0) (keeps : ¬ step.Lends s)
    (run : step.exec s = some s') : s'.Ok 0 := by
  cases step with
  | use src u =>
      simp only [exec, Option.ite_none_left_eq_some, Option.bind_eq_bind,
        Option.bind_eq_some_iff] at run
      rcases run with ⟨-, ⟨kind, p, s₁⟩, evaluated, used⟩
      exact Use.exec_ok (Source.eval_pending ok keeps evaluated)
        (Source.eval_immortal evaluated) used
  | leave n =>
      obtain rfl := Option.some.inj run
      exact ok.leave n
  | parseResponse statusText headers body =>
      obtain rfl := Option.some.inj run
      exact made_ok ok (made_parseResponse statusText headers body)
  | parseRequest method path query headers body =>
      obtain rfl := Option.some.inj run
      exact made_ok ok (made_duxrtHttpParseRequest method path query headers body)
  | jsonParse fields =>
      obtain rfl := Option.some.inj run
      exact made_ok ok (made_duxrtJsonParse fields)
  | procSpawn =>
      obtain rfl := Option.some.inj run
      exact made_ok ok ⟨.refl _, by simp [owned_proc], by simp [Handle.strings]⟩
  | procWait i out err =>
      simp only [exec, Option.bind_eq_bind, Option.bind_eq_some_iff, Option.pure_def,
        Option.some.injEq] at run
      rcases run with ⟨_, isAt, live, rfl, p, isProc, rfl⟩
      obtain rfl := handle_of_proc isProc
      have mem := List.mem_of_getElem? isAt
      have made := made_duxrtProcWait (ok.handles _ mem) out err
      have safe := ok.safe
      rw [kept_of_getElem? isAt, owned_proc, zero_add, zero_add] at safe
      constructor
      · have taken := safe.take made.larger made.taken
        change Heap.Safe _ (0 + (s.held + kept (s.handles.set i _)))
        rw [kept_set (List.getElem?_eq_some_iff.mp isAt).1, zero_add, add_left_comm]
        exact taken
      · intro handle isHandle a isString
        rcases List.mem_or_eq_of_mem_set isHandle with old | isNew
        · exact (ok.handles handle old a isString).trans_le made.larger.length
        · rw [Option.some.inj isNew] at isString
          exact made.known a isString
  | free i =>
      simp only [exec, Option.bind_eq_bind, Option.bind_eq_some_iff, Option.pure_def,
        Option.some.injEq] at run
      rcases run with ⟨_, isAt, live, rfl, heap, freed, rfl⟩
      have safe := ok.safe
      rw [kept_of_getElem? isAt, zero_add, add_left_comm] at safe
      rcases Handle.free_safe freed safe with ⟨after, length⟩
      constructor
      · change heap.Safe (0 + (s.held + kept (s.handles.set i none)))
        rw [kept_set (List.getElem?_eq_some_iff.mp isAt).1, zero_add]
        simpa only [Option.elim_none, zero_add] using after
      · intro handle isHandle a isString
        rcases List.mem_or_eq_of_mem_set isHandle with old | isNew
        · exact length ▸ ok.handles handle old a isString
        · cases isNew

theorem Reaches.ok {literals : List Bytes} {meets : Run → Step → Prop}
    (keeps : ∀ s step, meets s step → ¬ step.Lends s) (reached : Reaches meets literals s) :
    s.Ok 0 := by
  induction reached with
  | start =>
      constructor
      · exact ⟨⟨fun a => by simp [Heap.refcount], by simp⟩, by simp [Ledger.Covers, Run.held, kept]⟩
      · simp [Handles.Valid]
  | step _ _ condition run ih => exact Step.exec_ok ih (keeps _ _ condition) run

end Owed

/-! ## Releasing every result once -/

section Balance

variable {s s' : Run} {kind : ValueKind} {p : Ref} {pending : Multiset Nat}

/-- Generated code has a reference for every variable and for what is pending,
and for nothing else. -/
def Run.Settled (s : Run) (pending : Multiset Nat) : Prop :=
  s.results.Balanced (pending + s.held)

namespace Run

theorem Settled.maybeRetain (settled : s.Settled (kind.owned p + pending))
    (immortal : kind = .globalVariable → p.counted = 0) :
    (s.maybeRetain kind p).Settled (p.counted + pending) := by
  cases kind with
  | callInst => exact settled
  | globalVariable =>
      rw [immortal rfl]
      exact settled
  | other =>
      unfold Settled at settled ⊢
      rw [ValueKind.owned, zero_add] at settled
      rw [add_assoc]
      exact settled.acquire p.counted

theorem Settled.release (settled : s.Settled (p.counted + pending)) :
    (s.release p).Settled pending := by
  unfold Settled at settled ⊢
  rw [add_assoc] at settled
  exact Ledger.Balanced.release settled

theorem Settled.move (vars : List Ref) {pending' : Multiset Nat} (settled : s.Settled pending)
    (same : pending' + (vars.map Ref.counted).sum = pending + s.held) :
    ({ s with vars } : Run).Settled pending' := by
  unfold Settled at settled ⊢
  rw [← same] at settled
  exact settled

theorem Settled.leave (settled : s.Settled pending) (n : Nat) : (s.leave n).Settled pending := by
  induction n generalizing s with
  | zero => exact settled
  | succ n ih =>
      unfold Run.leave
      split
      · exact settled
      · next q rest isNewest =>
          apply ih
          apply Settled.release
          apply settled.move
          simp only [held, isNewest, List.map_cons, List.sum_cons]
          abel

end Run

theorem Source.eval_settled {src : Source} (settled : s.Settled 0) (outside : src.OutsideTry)
    (run : src.eval s = some (kind, p, s')) : s'.Settled (kind.owned p) := by
  induction src generalizing kind p s' with
  | null =>
      obtain ⟨rfl, rfl, rfl⟩ := run
      exact settled
  | literal i =>
      obtain ⟨rfl, rfl, rfl⟩ := run
      exact settled
  | var i =>
      simp only [eval, Option.bind_eq_bind, Option.bind_eq_some_iff, Option.pure_def,
        Option.some.injEq, Prod.mk.injEq] at run
      rcases run with ⟨_, -, rfl, rfl, rfl⟩
      exact settled
  | call c inTry =>
      obtain rfl : inTry = false := outside
      simp only [eval, Option.ite_none_right_eq_some, Option.bind_eq_bind,
        Option.bind_eq_some_iff, Option.pure_def, Option.some.injEq, Prod.mk.injEq] at run
      rcases run with ⟨-, _, -, rfl, rfl, rfl⟩
      unfold Run.Settled at settled ⊢
      rw [zero_add] at settled
      exact settled.acquire _
  | ret src locals inTry ih =>
      rcases outside with ⟨outside, rfl⟩
      simp only [eval, Option.bind_eq_bind, Option.bind_eq_some_iff, Option.pure_def,
        Option.some.injEq, Prod.mk.injEq] at run
      rcases run with ⟨⟨inner, q, s₁⟩, evaluated, rfl, rfl, rfl⟩
      have value := ih outside evaluated
      rw [← add_zero (inner.owned q)] at value
      have retained := value.maybeRetain (eval_immortal evaluated)
      rw [add_zero] at retained
      exact retained.leave locals

theorem Use.exec_settled {u : Use} (settled : s.Settled (kind.owned p))
    (immortal : kind = .globalVariable → p.counted = 0) (takes : u.Takes)
    (run : u.exec kind p s = some s') : s'.Settled 0 := by
  cases u with
  | declare =>
      obtain rfl := Option.some.inj run
      rw [← add_zero (kind.owned p)] at settled
      apply (settled.maybeRetain immortal).move
      simp [Run.held]
  | assign i =>
      simp only [exec, Option.bind_eq_bind, Option.bind_eq_some_iff, Option.pure_def,
        Option.some.injEq] at run
      rcases run with ⟨old, isOld, rfl⟩
      have inside := (List.getElem?_eq_some_iff.mp isOld).1
      let others := s.vars.eraseIdx i
      have moved : ({ s with vars := others } : Run).Settled (old.counted + kind.owned p) := by
        apply settled.move
        rw [Run.held, sum_eq_of_getElem? Ref.counted isOld]
        abel
      have released := moved.release
      rw [← add_zero (kind.owned p)] at released
      have retained := released.maybeRetain immortal
      have same : ((s.release old).maybeRetain kind p) =
          { (({ s with vars := others } : Run).release old).maybeRetain kind p with
            vars := s.vars } := by
        cases kind <;> rfl
      rw [same]
      exact retained.move (s.vars.set i p) (by
        rw [sum_set Ref.counted inside]
        simp [Run.held, Run.release, others])
  | field => cases takes
  | drop => cases takes

theorem Step.exec_settled {step : Step} (settled : s.Settled 0) (taken : step.Taken)
    (run : step.exec s = some s') : s'.Settled 0 := by
  cases step with
  | use src u =>
      simp only [exec, Option.ite_none_left_eq_some, Option.bind_eq_bind,
        Option.bind_eq_some_iff] at run
      rcases run with ⟨-, ⟨kind, p, s₁⟩, evaluated, used⟩
      exact Use.exec_settled (Source.eval_settled settled taken.1 evaluated)
        (Source.eval_immortal evaluated) taken.2 used
  | leave n =>
      obtain rfl := Option.some.inj run
      exact settled.leave n
  | parseResponse | parseRequest | jsonParse | procSpawn =>
      obtain rfl := Option.some.inj run
      exact settled
  | procWait i out err =>
      simp only [exec, Option.bind_eq_bind, Option.bind_eq_some_iff, Option.pure_def,
        Option.some.injEq] at run
      rcases run with ⟨_, -, _, -, _, -, rfl⟩
      exact settled
  | free i =>
      simp only [exec, Option.bind_eq_bind, Option.bind_eq_some_iff, Option.pure_def,
        Option.some.injEq] at run
      rcases run with ⟨_, -, _, -, _, -, rfl⟩
      exact settled

/-- In a run whose results are all taken over, generated code owes what its
variables hold. -/
theorem Reaches.settled {literals : List Bytes} {meets : Run → Step → Prop}
    (taken : ∀ s step, meets s step → step.Taken) (reached : Reaches meets literals s) :
    s.Settled 0 := by
  induction reached with
  | start => simp [Run.Settled, Run.held, Ledger.Balanced]
  | step _ _ condition run ih => exact Step.exec_settled ih (taken _ _ condition) run

end Balance

/-! ## Releases and references -/

end Dux.Codegen.Results
