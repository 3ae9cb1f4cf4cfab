import Dux.Logic.Blocks
import Mathlib.Algebra.BigOperators.Group.List.Basic
import Mathlib.Algebra.GroupWithZero.Nat
import Mathlib.Data.List.Perm.Basic

/-!
# Arenas of blocks

The blocks that a run has allocated and not given back.  Who grants the requests may refuse any
of them, and has to where the blocks would not fit into the address space together.  An access
to a block that is not there, or giving it back again, is a fault.

What a run owns is a list of blocks, in no order.  The rules say of each operation what is owned
after it; the block that it is about comes first.
-/

namespace Dux.Logic

/-- The blocks by their pointers, the number of requests so far, and whether one was refused. -/
structure Arena where
  blocks : List (Nat × Block)
  requests : Nat
  refused : Bool

/-- The answer to a request, by its number and its size. -/
abbrev Allocator := Nat → Nat → Bool

/-- The addresses that there are. -/
def addressSpace : Nat := 2 ^ 64

def totalSize (blocks : List (Nat × Block)) : Nat := (blocks.map (·.2.length)).sum

namespace Arena

def empty : Arena := ⟨[], 0, false⟩

/-- Do something to the block of a pointer. -/
def onBlock (p : Nat) (f : Nat × Block → Except Stop (List (Nat × Block))) :
    List (Nat × Block) → Except Stop (List (Nat × Block))
  | [] => .error .fault
  | e :: rest => if e.1 = p then (· ++ rest) <$> f e else (e :: ·) <$> onBlock p f rest

def refuse (m : Arena) : Arena := ⟨m.blocks, m.requests + 1, true⟩

/-- `malloc`; `none` is a null pointer. -/
def malloc (grants : Allocator) (m : Arena) (size : Nat) : Option Nat × Arena :=
  if grants m.requests size ∧ totalSize m.blocks + size < addressSpace then
    (some m.requests, ⟨(m.requests, Block.fresh size) :: m.blocks, m.requests + 1, m.refused⟩)
  else (none, m.refuse)

def block (m : Arena) (p : Nat) : Except Stop Block :=
  (m.blocks.lookup p).elim (.error .fault) .ok

/-- `realloc`; the block of a pointer keeps what it holds. -/
def realloc (grants : Allocator) (m : Arena) (p : Option Nat) (size : Nat) :
    Except Stop (Option Nat × Arena) :=
  match p with
  | none => .ok (m.malloc grants size)
  | some p => do
      let old ← m.block p
      if grants m.requests size ∧
          totalSize m.blocks - old.length + size < addressSpace then do
        let blocks ← onBlock p (fun e => .ok [(m.requests, e.2.resize size)]) m.blocks
        return (some m.requests, ⟨blocks, m.requests + 1, m.refused⟩)
      else return (none, m.refuse)

def free (m : Arena) (p : Option Nat) : Except Stop Arena :=
  match p with
  | none => .ok m
  | some p => do
      let blocks ← onBlock p (fun _ => .ok []) m.blocks
      return { m with blocks }

def store (m : Arena) (p : Nat) (pos : Int) (data : List UInt8) : Except Stop Arena := do
  let blocks ← onBlock p (fun e => (e.2.write pos data).map fun b => [(p, b)]) m.blocks
  return { m with blocks }

def load (m : Arena) (p : Nat) (pos : Int) (n : Nat) : Except Stop (List UInt8) := do
  let b ← m.block p
  b.read pos n

/-- The blocks that are owned, in no order. -/
structure Owns (m : Arena) (owned : List (Nat × Block)) : Prop where
  perm : m.blocks.Perm owned
  distinct : (owned.map Prod.fst).Nodup
  known : ∀ e ∈ owned, e.1 < m.requests

/-! ## Blocks by their pointers -/

section Pointers

variable {p : Nat} {b : Block} {front back rest owned owned' : List (Nat × Block)} {m m' : Arena}

theorem onBlock_append (f : Nat × Block → Except Stop (List (Nat × Block)))
    (others : ∀ e ∈ front, e.1 ≠ p) :
    onBlock p f (front ++ (p, b) :: back) = (fun here => front ++ (here ++ back)) <$> f (p, b) := by
  induction front with
  | nil =>
    rw [List.nil_append, onBlock, if_pos rfl]
    rfl
  | cons e front ih =>
    rw [List.forall_mem_cons] at others
    rw [List.cons_append, onBlock, if_neg others.1, ih others.2]
    cases f (p, b) <;> rfl

theorem lookup_append (others : ∀ e ∈ front, e.1 ≠ p) :
    (front ++ (p, b) :: back).lookup p = some b := by
  induction front with
  | nil => rw [List.nil_append, List.lookup_cons_self]
  | cons e front ih =>
    rw [List.forall_mem_cons] at others
    have other : (p == e.1) = false := beq_false_of_ne (Ne.symm others.1)
    rw [List.cons_append, List.lookup_cons, other, ih others.2]

theorem totalSize_perm (perm : owned.Perm owned') : totalSize owned = totalSize owned' :=
  (perm.map _).sum_eq

@[simp]
theorem totalSize_nil : totalSize [] = 0 :=
  rfl

@[simp]
theorem totalSize_cons (e : Nat × Block) (rest : List (Nat × Block)) :
    totalSize (e :: rest) = e.2.length + totalSize rest :=
  rfl

namespace Owns

theorem empty : Arena.empty.Owns [] := ⟨List.Perm.refl _, List.nodup_nil, by simp⟩

theorem eq_nil (owns : m.Owns []) : m.blocks = [] := owns.perm.eq_nil

theorem eq_singleton {e : Nat × Block} (owns : m.Owns [e]) : m.blocks = [e] :=
  List.perm_singleton.1 owns.perm

theorem total (owns : m.Owns owned) : totalSize m.blocks = totalSize owned :=
  totalSize_perm owns.perm

theorem swap {e e' : Nat × Block} (owns : m.Owns (e :: e' :: rest)) :
    m.Owns (e' :: e :: rest) := by
  have swapped : (e :: e' :: rest).Perm (e' :: e :: rest) := List.Perm.swap e' e rest
  constructor
  · exact owns.perm.trans swapped
  · exact (swapped.map Prod.fst).nodup_iff.1 owns.distinct
  · exact fun e'' member => owns.known e'' (swapped.mem_iff.2 member)

theorem split (owns : m.Owns ((p, b) :: rest)) : ∃ front back,
    m.blocks = front ++ (p, b) :: back ∧ (∀ e ∈ front, e.1 ≠ p) ∧ (front ++ back).Perm rest := by
  obtain ⟨front, back, same⟩ :=
    List.append_of_mem (owns.perm.mem_iff.2 List.mem_cons_self)
  have perm := owns.perm
  rw [same] at perm
  have others : (front ++ back).Perm rest := (List.perm_middle.symm.trans perm).cons_inv
  refine ⟨front, back, same, fun e member isP => ?_, others⟩
  have distinct := owns.distinct
  rw [List.map_cons, List.nodup_cons] at distinct
  refine distinct.1 (List.mem_map.2 ⟨e, others.mem_iff.1 ?_, isP⟩)
  exact List.mem_append_left back member

theorem tail {e : Nat × Block} (owns : m.Owns (e :: rest)) :
    (rest.map Prod.fst).Nodup ∧ ∀ e ∈ rest, e.1 < m.requests :=
  ⟨(List.nodup_cons.1 owns.distinct).2,
    fun e' member => owns.known e' (List.mem_cons_of_mem e member)⟩

end Owns

end Pointers

/-! ## The rules -/

section Rules

variable {grants : Allocator} {p : Nat} {b b' : Block} {owned rest : List (Nat × Block)}
  {m : Arena} {pos : Int} {data : List UInt8}

theorem Owns.block (owns : m.Owns ((p, b) :: rest)) : m.block p = .ok b := by
  obtain ⟨front, back, same, others, -⟩ := owns.split
  rw [Arena.block, same, lookup_append others]
  rfl

theorem Owns.load (owns : m.Owns ((p, b) :: rest)) (pos : Int) (n : Nat) :
    m.load p pos n = b.read pos n := by
  rw [Arena.load, owns.block]
  rfl

theorem Owns.store (owns : m.Owns ((p, b) :: rest)) (written : b.write pos data = .ok b') :
    ∃ m', m.store p pos data = .ok m' ∧ m'.Owns ((p, b') :: rest) ∧ m'.refused = m.refused := by
  obtain ⟨front, back, same, others, perm⟩ := owns.split
  rw [Arena.store, same, onBlock_append _ others, written]
  refine ⟨_, rfl, ⟨?_, owns.distinct, ?_⟩, rfl⟩
  · exact List.perm_middle.trans (perm.cons _)
  · rw [List.forall_mem_cons]
    exact ⟨owns.known (p, b) List.mem_cons_self, owns.tail.2⟩

theorem Owns.store_fault (owns : m.Owns ((p, b) :: rest))
    (fault : b.write pos data = .error .fault) : m.store p pos data = .error .fault := by
  obtain ⟨front, back, same, others, -⟩ := owns.split
  rw [Arena.store, same, onBlock_append _ others, fault]
  rfl

theorem Owns.free (owns : m.Owns ((p, b) :: rest)) :
    ∃ m', m.free (some p) = .ok m' ∧ m'.Owns rest ∧ m'.refused = m.refused := by
  obtain ⟨front, back, same, others, perm⟩ := owns.split
  rw [Arena.free, same, onBlock_append _ others]
  exact ⟨_, rfl, ⟨perm, owns.tail.1, owns.tail.2⟩, rfl⟩

theorem Owns.refuse (owns : m.Owns owned) : m.refuse.Owns owned :=
  ⟨owns.perm, owns.distinct, fun e member => Nat.lt_succ_of_lt (owns.known e member)⟩

theorem Owns.grant {blocks : List (Nat × Block)} (owns : m.Owns owned)
    (perm : blocks.Perm ((m.requests, b) :: rest)) (fewer : rest.Sublist owned) :
    (⟨blocks, m.requests + 1, m.refused⟩ : Arena).Owns ((m.requests, b) :: rest) := by
  have known : ∀ e ∈ rest, e.1 < m.requests := fun e member => owns.known e (fewer.subset member)
  refine ⟨perm, ?_, ?_⟩
  · rw [List.map_cons, List.nodup_cons]
    refine ⟨fun member => ?_, owns.distinct.sublist (fewer.map _)⟩
    obtain ⟨e, member, same⟩ := List.mem_map.1 member
    exact absurd same (Nat.ne_of_lt (known e member))
  · rw [List.forall_mem_cons]
    exact ⟨Nat.lt_succ_self _, fun e member => Nat.lt_succ_of_lt (known e member)⟩

/-- Why a request may be refused. -/
def Refusable (grants : Allocator) (total : Nat) : Prop :=
  (∃ n size, grants n size = false) ∨ addressSpace ≤ total

theorem Owns.malloc (owns : m.Owns owned) (grants : Allocator) (size : Nat) :
    (∃ p m', m.malloc grants size = (some p, m') ∧ m'.Owns ((p, Block.fresh size) :: owned) ∧
      totalSize owned + size < addressSpace ∧ m'.refused = m.refused) ∨
    (∃ m', m.malloc grants size = (none, m') ∧ m'.Owns owned ∧ m'.refused = true ∧
      Refusable grants (totalSize owned + size)) := by
  rw [Arena.malloc, owns.total]
  split
  · next granted =>
    exact .inl ⟨_, _, rfl, owns.grant (owns.perm.cons _) (List.Sublist.refl _), granted.2, rfl⟩
  · next isRefused =>
    refine .inr ⟨_, rfl, owns.refuse, rfl, ?_⟩
    by_cases answer : grants m.requests size = true
    · exact .inr (Nat.not_lt.1 fun fits => isRefused ⟨answer, fits⟩)
    · exact .inl ⟨_, _, Bool.eq_false_iff.2 answer⟩

theorem Owns.realloc (owns : m.Owns ((p, b) :: rest)) (grants : Allocator) (size : Nat) :
    (∃ p' m', m.realloc grants (some p) size = .ok (some p', m') ∧
      m'.Owns ((p', b.resize size) :: rest) ∧ totalSize rest + size < addressSpace ∧
        m'.refused = m.refused) ∨
    (∃ m', m.realloc grants (some p) size = .ok (none, m') ∧ m'.Owns ((p, b) :: rest) ∧
      m'.refused = true ∧ Refusable grants (totalSize rest + size)) := by
  have total := owns.total
  rw [totalSize_cons] at total
  rw [Arena.realloc, owns.block, ok_bind, total, Nat.add_sub_cancel_left]
  split
  · next granted =>
    obtain ⟨front, back, same, others, perm⟩ := owns.split
    rw [same, onBlock_append _ others]
    refine .inl ⟨_, _, rfl, owns.grant ?_ (List.sublist_cons_self _ _), granted.2, rfl⟩
    exact List.perm_middle.trans (perm.cons _)
  · next isRefused =>
    refine .inr ⟨_, rfl, owns.refuse, rfl, ?_⟩
    by_cases answer : grants m.requests size = true
    · exact .inr (Nat.not_lt.1 fun fits => isRefused ⟨answer, fits⟩)
    · exact .inl ⟨_, _, Bool.eq_false_iff.2 answer⟩

end Rules

end Arena

end Dux.Logic
