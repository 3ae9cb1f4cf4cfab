import Mathlib.Data.List.Nodup
import Mathlib.Logic.Function.Basic

/-!
# Linked queues

A queue of cells in memory, each of which points to the next one, with pointers to the first
and to the last.  A new cell goes behind the last one, and the first is taken and freed.
-/

namespace Dux.Logic.LinkedQueue

universe u

variable {α : Type u}

structure Cell (α : Type u) where
  val : α
  next : Option Nat

/-- The cells in memory, with the two pointers. -/
structure Links (α : Type u) where
  cells : Nat → Option (Cell α) := fun _ => none
  head : Option Nat := none
  tail : Option Nat := none

/-- Let a cell point to another one. -/
def link (cells : Nat → Option (Cell α)) (a : Nat) (next : Nat) : Nat → Option (Cell α) :=
  Function.update cells a ((cells a).map fun c => { c with next := some next })

/-- Put a value into a new cell behind the last one. -/
def Links.append (l : Links α) (a : Nat) (val : α) : Links α where
  cells := Function.update (match l.tail with
    | some t => link l.cells t a
    | none => l.cells) a (some ⟨val, none⟩)
  head := match l.tail with
    | some _ => l.head
    | none => some a
  tail := some a

/-- Take the first cell away. -/
def Links.removeFirst (l : Links α) : Option (α × Links α) :=
  match l.head with
  | none => none
  | some a =>
      (l.cells a).map fun c => (c.val,
        { cells := Function.update l.cells a none
          head := c.next
          tail := if c.next = none then none else l.tail })

/-- The cells that one comes to from a pointer. -/
inductive Chain (cells : Nat → Option (Cell α)) : Option Nat → List (Nat × α) → Prop
  | nil : Chain cells none []
  | cons {a : Nat} {v : α} {next : Option Nat} {rest : List (Nat × α)}
      (here : cells a = some ⟨v, next⟩) (behind : Chain cells next rest) :
      Chain cells (some a) ((a, v) :: rest)

/-- The pointers are those of a chain of different cells. -/
structure Holds (l : Links α) (cs : List (Nat × α)) : Prop where
  chain : Chain l.cells l.head cs
  different : (cs.map Prod.fst).Nodup
  tail : l.tail = (cs.map Prod.fst).getLast?

theorem holds_nil : Holds ({} : Links α) [] := ⟨.nil, List.nodup_nil, rfl⟩

section Operations

variable {cells cells' : Nat → Option (Cell α)} {p : Option Nat} {cs : List (Nat × α)}

theorem Chain.allocated (chain : Chain cells p cs) {a : Nat} (member : a ∈ cs.map Prod.fst) :
    cells a ≠ none := by
  induction chain with
  | nil => cases member
  | cons here _ ih =>
    rcases List.mem_cons.1 member with rfl | inRest
    · rw [here]
      exact nofun
    · exact ih inRest

theorem Chain.congr (chain : Chain cells p cs)
    (same : ∀ a ∈ cs.map Prod.fst, cells' a = cells a) : Chain cells' p cs := by
  induction chain with
  | nil => exact .nil
  | cons here _ ih =>
    constructor
    · rw [same _ List.mem_cons_self, here]
    · exact ih fun a member => same a (List.mem_cons_of_mem _ member)

theorem Chain.extend (chain : Chain cells p cs) (different : (cs.map Prod.fst).Nodup) {a t : Nat}
    {v : α} (fresh : cells a = none) (last : (cs.map Prod.fst).getLast? = some t) :
    Chain (Function.update (link cells t a) a (some ⟨v, none⟩)) p (cs ++ [(a, v)]) := by
  induction chain with
  | nil => cases last
  | @cons b w next rest here behind ih =>
    have other : b ≠ a := by
      rintro rfl
      rw [here] at fresh
      cases fresh
    have new : Function.update (link cells t a) a (some ⟨v, none⟩) a = some ⟨v, none⟩ :=
      Function.update_self ..
    cases rest with
    | nil =>
      cases behind
      cases last
      have linked : Function.update (link cells b a) a (some ⟨v, none⟩) b =
          some ⟨w, some a⟩ := by
        rw [Function.update_of_ne other, link, Function.update_self, here]
        rfl
      exact .cons linked (.cons new .nil)
    | cons c rest =>
      rw [List.map_cons, List.map_cons, List.getLast?_cons_cons, ← List.map_cons] at last
      rw [List.map_cons, List.nodup_cons] at different
      have notLast : b ≠ t := by
        rintro rfl
        exact different.1 (List.mem_of_getLast? last)
      have kept : Function.update (link cells t a) a (some ⟨v, none⟩) b = some ⟨w, next⟩ := by
        rw [Function.update_of_ne other, link, Function.update_of_ne notLast, here]
      exact .cons kept (ih different.2 last)

variable {l : Links α}

theorem Holds.append (holds : Holds l cs) {a : Nat} (fresh : l.cells a = none) (v : α) :
    Holds (l.append a v) (cs ++ [(a, v)]) := by
  have new : a ∉ cs.map Prod.fst := fun member => holds.chain.allocated member fresh
  have tail := holds.tail
  constructor
  · unfold Links.append
    cases last : l.tail with
    | none =>
      rw [last] at tail
      have empty : cs = [] := by simpa using tail.symm
      subst empty
      exact .cons (Function.update_self ..) .nil
    | some t =>
      rw [last] at tail
      exact holds.chain.extend holds.different fresh tail.symm
  · rw [List.map_append, List.nodup_append]
    refine ⟨holds.different, List.nodup_singleton a, ?_⟩
    rintro b member c isNew rfl
    rw [List.mem_singleton.1 isNew] at member
    exact new member
  · rw [List.map_append]
    exact List.getLast?_concat.symm

theorem Holds.removeFirst {a : Nat} {v : α} (holds : Holds l ((a, v) :: cs)) :
    ∃ l', l.removeFirst = some (v, l') ∧ Holds l' cs := by
  have different := holds.different
  have tail := holds.tail
  rw [List.map_cons, List.nodup_cons] at different
  generalize isHead : l.head = head at *
  have chain := holds.chain
  rw [isHead] at chain
  cases chain with
  | @cons _ _ next _ here behind =>
    unfold Links.removeFirst
    rw [isHead]
    dsimp only
    rw [here]
    refine ⟨_, rfl, ?_⟩
    constructor
    · apply behind.congr
      intro b member
      have other : b ≠ a := by
        rintro rfl
        exact different.1 member
      exact Function.update_of_ne other _ _
    · exact different.2
    · dsimp only
      cases behind with
      | nil => rfl
      | cons here' behind' =>
        rw [if_neg nofun, tail, List.map_cons, List.map_cons, List.getLast?_cons_cons,
          ← List.map_cons]

theorem Holds.head_eq_none_iff (holds : Holds l cs) : l.head = none ↔ cs = [] := by
  have chain := holds.chain
  constructor
  · intro none
    rw [none] at chain
    cases chain
    rfl
  · rintro rfl
    generalize l.head = p at chain
    cases chain
    rfl

theorem Holds.removeFirst_of_none (isEmpty : l.head = none) : l.removeFirst = none := by
  rw [Links.removeFirst, isEmpty]

/-! ## The values alone -/

/-- The list holds these values, in cells wherever they are. -/
def Lists (l : Links α) (vs : List α) : Prop := ∃ cs, Holds l cs ∧ cs.map Prod.snd = vs

variable {vs : List α}

theorem lists_nil : Lists ({} : Links α) [] := ⟨[], holds_nil, rfl⟩

theorem Lists.append (lists : Lists l vs) {a : Nat} (fresh : l.cells a = none) (v : α) :
    Lists (l.append a v) (vs ++ [v]) := by
  obtain ⟨cs, holds, rfl⟩ := lists
  exact ⟨_, holds.append fresh v, List.map_append⟩

theorem Lists.removeFirst {v : α} (lists : Lists l (v :: vs)) :
    ∃ l', l.removeFirst = some (v, l') ∧ Lists l' vs := by
  obtain ⟨cs, holds, values⟩ := lists
  cases cs with
  | nil => cases values
  | cons cell cs =>
    obtain ⟨a, w⟩ := cell
    obtain ⟨rfl, behind⟩ := List.cons.inj values
    obtain ⟨l', removed, holds'⟩ := holds.removeFirst
    exact ⟨l', removed, cs, holds', behind⟩

theorem Lists.head_eq_none_iff (lists : Lists l vs) : l.head = none ↔ vs = [] := by
  obtain ⟨cs, holds, rfl⟩ := lists
  rw [holds.head_eq_none_iff, List.map_eq_nil_iff]

end Operations

end Dux.Logic.LinkedQueue
