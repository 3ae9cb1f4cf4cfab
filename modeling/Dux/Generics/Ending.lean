import Dux.Generics.Bounds
import Mathlib.Data.Set.Finite.Basic
import Mathlib.Data.Finset.Card

/-!
# When an expansion ends

The work list of `expand_generics` takes up every name at most once.  It is empty after
finitely many rounds if only finitely many names arise: those of the instances that the
program writes, and of the instances that the copies of their templates ask for in turn.
-/

namespace Dux.Generics

namespace GenericProgram

variable (prog : GenericProgram)

/-- The instances that the declarations and statements of a program ask for. -/
def written : List InstKey := (fixDecls true prog.decls).2 ++ (fixStmts prog.stmts).2

/-- The instances that the copy of a template asks for. -/
def asks (key : InstKey) : List InstKey :=
  match prog.templates.find key with
  | none => []
  | some t => (fixDecl false (t.clone key.mangled key.typeArgs).toDecl).2

/-- The instances that come from what a program writes. -/
inductive Arises : InstKey → Prop
  | written {key : InstKey} (isWritten : key ∈ prog.written) : Arises key
  | asked {key key' : InstKey} (arises : Arises key) (asks : key' ∈ prog.asks key) : Arises key'

def names : Set String := {name | ∃ key, prog.Arises key ∧ key.mangled = name}

/-- `expand_generics` returns, or ends with too many reports. -/
def Ends : Prop := ∃ fuel x, expandLimited fuel prog = some x

/-- No two instances that arise have one name. -/
def Unambiguous : Prop :=
  ∀ key key', prog.Arises key → prog.Arises key' → key.mangled = key'.mangled → key = key'

/-- No instance that arises violates a bound. -/
def Accepted : Prop := ∀ key, prog.Arises key → prog.violations key = []

variable {prog} {s s' f : WorkState} {key : InstKey}

theorem mem_start : key ∈ prog.start.pending ↔ key ∈ prog.written := by
  simp [start, WorkState.push, written, or_comm]

theorem pending_of_next (next : s.next = some key) (run : prog.step s = some s') :
    ∃ rest, s.pending = key :: rest ∧ key.mangled ∉ s.done ∧ s'.done = key.mangled :: s.done ∧
      s'.pending = ((prog.asks key).filter (·.mangled ∉ s'.done)).reverse ++ rest := by
  unfold WorkState.next at next
  cases pending : s.pending with
  | nil => simp [pending] at next
  | cons k rest =>
    simp only [pending, Option.ite_none_left_eq_some, Option.some.injEq] at next
    rcases next with ⟨fresh, rfl⟩
    simp only [step, workStep, pending, if_neg fresh, Option.some.injEq] at run
    subst run
    refine ⟨rest, rfl, fresh, ?_⟩
    cases found : prog.templates.find k <;> simp [takeUp, asks, found, WorkState.push]

/-! ## What is pending arises -/

theorem arises_of_step (arise : ∀ key ∈ s.pending, prog.Arises key)
    (run : prog.step s = some s') : ∀ key ∈ s'.pending, prog.Arises key := by
  cases next : s.next with
  | none =>
    obtain ⟨k, pending, -⟩ := prog.pending_of_no_next next run
    exact fun key isPending => arise key (pending ▸ List.mem_cons_of_mem _ isPending)
  | some k =>
    obtain ⟨rest, pending, -, -, pending'⟩ := pending_of_next next run
    intro key isPending
    rw [pending', List.mem_append, List.mem_reverse, List.mem_filter] at isPending
    rcases isPending with ⟨asks, -⟩ | inRest
    · exact .asked (arise k (pending ▸ List.mem_cons_self)) asks
    · exact arise key (pending ▸ List.mem_cons_of_mem _ inRest)

theorem Reaches.arises (reached : prog.Reaches s) : ∀ key ∈ s.pending, prog.Arises key := by
  induction reached with
  | refl => exact fun key isPending => .written (mem_start.1 isPending)
  | tail _ run ih => exact arises_of_step ih run

theorem mem_pending_of_next (next : s.next = some key) : key ∈ s.pending := by
  unfold WorkState.next at next
  cases pending : s.pending with
  | nil => simp [pending] at next
  | cons k rest =>
    simp only [pending, Option.ite_none_left_eq_some, Option.some.injEq] at next
    exact next.2 ▸ List.mem_cons_self

/-! ## The loop ends -/

theorem limitedLoop_ends {names : Finset String}
    (within : ∀ key, prog.Arises key → key.mangled ∈ names) (s : WorkState)
    (arise : ∀ key ∈ s.pending, prog.Arises key) :
    ∃ fuel f, limitedLoop prog.templates (fixDecls true prog.decls).1 fuel s = some f := by
  by_cases many : kMaxErrors ≤ s.errors.length
  · exact ⟨1, s, by rw [limitedLoop, if_pos many]⟩
  · cases run : prog.step s with
    | none =>
      refine ⟨1, s, ?_⟩
      rw [limitedLoop, if_neg many, show workStep _ _ s = none from run]
    | some s' =>
      have later : ∃ fuel f,
          limitedLoop prog.templates (fixDecls true prog.decls).1 fuel s' = some f :=
        limitedLoop_ends within s' (arises_of_step arise run)
      obtain ⟨fuel, f, loop⟩ := later
      refine ⟨fuel + 1, f, ?_⟩
      rw [limitedLoop, if_neg many, show workStep _ _ s = some s' from run]
      exact loop
termination_by ((names \ s.done.toFinset).card, s.pending.length)
decreasing_by
  cases next : s.next with
  | none =>
    obtain ⟨k, pending, -, done, -⟩ := prog.pending_of_no_next next run
    rw [pending, done]
    exact .right _ (Nat.lt_succ_self _)
  | some k =>
    obtain ⟨rest, pending, fresh, done, -⟩ := pending_of_next next run
    refine .left _ _ (Finset.card_lt_card ?_)
    have arises := arise k (pending ▸ List.mem_cons_self)
    refine (Finset.ssubset_iff_of_subset ?_).2 ⟨k.mangled, ?_, ?_⟩
    · refine Finset.sdiff_subset_sdiff subset_rfl ?_
      simp [done]
    · simp [within k arises, fresh]
    · simp [done]

theorem ends_of_finite (finite : prog.names.Finite) : prog.Ends := by
  by_cases empty : prog.templates.isEmpty
  · exact ⟨0, _, by rw [expandLimited, if_pos empty]⟩
  · have within (key : InstKey) (arises : prog.Arises key) : key.mangled ∈ finite.toFinset :=
      finite.mem_toFinset.2 ⟨key, arises, rfl⟩
    obtain ⟨fuel, f, loop⟩ := limitedLoop_ends within prog.start
      fun key isPending => .written (mem_start.1 isPending)
    refine ⟨fuel, ⟨f.newDecls, keptDecls (fixDecls true prog.decls).1, (fixStmts prog.stmts).1,
      f.errors⟩, ?_⟩
    rw [expandLimited, if_neg empty]
    simp only [loop, Option.map_some]

/-! ## What arises has been taken up -/

/-- Without ambiguous names, every name that arises is done when the list is empty. -/
theorem Arises.done (arises : prog.Arises key) (unambiguous : prog.Unambiguous)
    (reached : prog.Reaches f) (finished : f.pending = []) : key.mangled ∈ f.done := by
  induction arises with
  | written isWritten => exact Later.done_of_pending reached finished (mem_start.2 isWritten)
  | @asked key key' arises asks ih =>
    obtain ⟨s, taken, reached', next, same⟩ := Reaches.taken reached ih
    obtain rfl : taken = key :=
      unambiguous _ _ (reached'.arises _ (mem_pending_of_next next)) arises same
    obtain ⟨s', run, -⟩ := prog.step_of_next next
    have later : prog.Later s' f := later_of_finished finished (reached'.tail run) reached
    obtain ⟨rest, -, -, -, pending⟩ := pending_of_next next run
    by_cases isDone : key'.mangled ∈ s'.done
    · exact (Later.grows later).1 isDone
    · refine later.done_of_pending finished ?_
      simp [pending, asks, isDone]

theorem names_finite_of_finished (unambiguous : prog.Unambiguous) (reached : prog.Reaches f)
    (finished : f.pending = []) : prog.names.Finite := by
  refine (List.finite_toSet f.done).subset ?_
  rintro name ⟨key, arises, rfl⟩
  exact arises.done unambiguous reached finished

theorem names_finite_of_isEmpty (empty : prog.templates.isEmpty = true) : prog.names.Finite := by
  simp only [Templates.isEmpty, Bool.and_eq_true, List.isEmpty_iff] at empty
  refine (List.finite_toSet (prog.written.map (·.mangled))).subset ?_
  rintro name ⟨key, arises, rfl⟩
  cases arises with
  | written isWritten => exact List.mem_map_of_mem isWritten
  | asked _ asks => simp [GenericProgram.asks, Templates.find, empty.1, empty.2] at asks

theorem names_finite_of_ends (unambiguous : prog.Unambiguous) (accepted : prog.Accepted)
    (ends : prog.Ends) : prog.names.Finite := by
  by_cases empty : prog.templates.isEmpty
  · exact names_finite_of_isEmpty empty
  · obtain ⟨fuel, x, returns⟩ := ends
    rw [expandLimited, if_neg empty] at returns
    obtain ⟨f, loop, -⟩ := Option.map_eq_some_iff.1 returns
    obtain ⟨reached, finished⟩ := limitedLoop_reaches loop
    have kept : prog.BoundsKept := fun s reached key next =>
      accepted key (Reaches.arises reached key (mem_pending_of_next next))
    refine names_finite_of_finished unambiguous reached (finished ?_)
    rw [errors_of_kept reached kept]
    decide

variable (prog) in
/-- Finitely many names are enough for the expansion to end.  They are also necessary, unless
two instances share a name or the reports about bounds end the pass. -/
theorem ends_iff_finite : (prog.names.Finite → prog.Ends) ∧
    (prog.Unambiguous → prog.Accepted → (prog.Ends ↔ prog.names.Finite)) :=
  ⟨ends_of_finite, fun unambiguous accepted =>
    ⟨names_finite_of_ends unambiguous accepted, ends_of_finite⟩⟩

theorem arises_boxHolder {key : InstKey} (arises : (boxHolder none).Arises key) :
    key = ⟨"Box", [{ name := "int" }], "Box__int"⟩ := by
  induction arises with
  | written isWritten =>
    have written : (boxHolder none).written = [⟨"Box", [{ name := "int" }], "Box__int"⟩] := rfl
    rwa [written, List.mem_singleton] at isWritten
  | asked _ asks ih =>
    subst ih
    have none : (boxHolder none).asks ⟨"Box", [{ name := "int" }], "Box__int"⟩ = [] := rfl
    rw [none] at asks
    cases asks

theorem ends_iff_finite_boxHolder :
    (boxHolder none).Ends ∧ ((boxHolder none).Ends ↔ (boxHolder none).names.Finite) := by
  have finite : (boxHolder none).names.Finite := by
    refine (Set.finite_singleton "Box__int").subset ?_
    rintro name ⟨key, arises, rfl⟩
    rw [arises_boxHolder arises]
    rfl
  have unambiguous : (boxHolder none).Unambiguous := fun key key' arises arises' _ =>
    (arises_boxHolder arises).trans (arises_boxHolder arises').symm
  have accepted : (boxHolder none).Accepted := fun key arises => by
    rw [arises_boxHolder arises]
    rfl
  obtain ⟨enough, necessary⟩ := ends_iff_finite (boxHolder none)
  exact ⟨enough finite, necessary unambiguous accepted⟩

end GenericProgram

/-! ## A template that asks for larger instances of itself -/

/-- `class Box<T> { Box<Box<T>> inner }` and a variable of type `Box<int>`. -/
def nestedBox : GenericProgram where
  decls :=
    [.cls { name := "Box", typeParams := ["T"],
            members := [.field { type := { name := "Box", typeArgs :=
              [{ name := "Box", typeArgs := [{ name := "T" }] }] }, name := "inner" }] }]
  stmts :=
    [.varDecl ⟨1, 1⟩ { name := "Box", typeArgs := [{ name := "int" }] } false false [.mk "b" none]]

/-- `int` inside so many boxes. -/
def boxName : Nat → String
  | 0 => "int"
  | n + 1 => mangleGeneric "Box" [{ name := boxName n }]

/-- The instance of `Box` at so many boxes. -/
def boxKey (n : Nat) : InstKey := ⟨"Box", [{ name := boxName n }], boxName (n + 1)⟩

theorem length_boxName (n : Nat) : (boxName (n + 1)).length = (boxName n).length + 5 := by
  have box : "Box".length = 3 := rfl
  have separator : "__".length = 2 := rfl
  simp [boxName, mangleGeneric, mangleArgs, mangleArg, box, separator]
  omega

theorem asks_boxKey (n : Nat) : nestedBox.asks (boxKey n) = [boxKey n, boxKey (n + 1)] := by
  rfl

theorem violations_boxKey (n : Nat) : nestedBox.violations (boxKey n) = [] := by
  rfl

/-- The one instance that is left, and what is done is no longer than its argument. -/
structure Nesting (n : Nat) (s : WorkState) : Prop where
  pending : s.pending = [boxKey n]
  errors : s.errors = []
  done : ∀ name ∈ s.done, name.length ≤ (boxName n).length

namespace Nesting

open GenericProgram

variable {n : Nat} {s : WorkState}

theorem fresh (nesting : Nesting n s) : boxName (n + 1) ∉ s.done := by
  intro isDone
  have short := nesting.done _ isDone
  rw [length_boxName] at short
  omega

theorem step (nesting : Nesting n s) :
    ∃ s', nestedBox.step s = some s' ∧ Nesting (n + 1) s' := by
  have next : s.next = some (boxKey n) := by
    simp only [WorkState.next, nesting.pending]
    exact if_neg nesting.fresh
  obtain ⟨s', run, -⟩ := nestedBox.step_of_next next
  obtain ⟨rest, pending, -, done, pending'⟩ := pending_of_next next run
  have longest (name : String) (isDone : name ∈ s'.done) :
      name.length ≤ (boxName (n + 1)).length := by
    rw [done, List.mem_cons] at isDone
    rcases isDone with rfl | isDone
    · exact le_rfl
    · have short := nesting.done name isDone
      rw [length_boxName]
      omega
  refine ⟨s', run, ?_, ?_, longest⟩
  · obtain rfl : rest = [] := by simpa [nesting.pending] using pending.symm
    have old : boxName (n + 1) ∈ s'.done := done ▸ List.mem_cons_self
    have new : boxName (n + 2) ∉ s'.done := by
      intro isDone
      have short := longest _ isDone
      rw [length_boxName (n + 1)] at short
      omega
    rw [pending', asks_boxKey]
    simp [boxKey, old, new]
  · rw [errors_of_step run, next, nesting.errors]
    exact violations_boxKey n

theorem limitedLoop_eq_none (fuel : Nat) (nesting : Nesting n s) :
    limitedLoop nestedBox.templates (fixDecls true nestedBox.decls).1 fuel s = none := by
  induction fuel generalizing n s with
  | zero => rfl
  | succ fuel ih =>
    obtain ⟨s', run, nesting'⟩ := nesting.step
    have few : ¬kMaxErrors ≤ s.errors.length := by
      rw [nesting.errors]
      decide
    rw [limitedLoop, if_neg few, show workStep _ _ s = some s' from run]
    exact ih nesting'

end Nesting

/-- The work list of a template that asks for larger instances of itself is never empty. -/
theorem not_ends : ¬∀ prog : GenericProgram, prog.Ends := by
  intro always
  obtain ⟨fuel, x, returns⟩ := always nestedBox
  have nesting : Nesting 0 nestedBox.start := ⟨rfl, rfl, fun _ isDone => by cases isDone⟩
  have templates : ¬nestedBox.templates.isEmpty = true := by decide
  rw [expandLimited, if_neg templates] at returns
  simp [nesting.limitedLoop_eq_none fuel] at returns

end Dux.Generics
