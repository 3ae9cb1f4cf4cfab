import Mathlib.Data.List.Basic
import Mathlib.Algebra.Order.Group.Nat

/-!
# Lists

`src/runtime/list.c`: a list is a block of memory that grows by doubling.  Its elements are
pointers, eight bytes each, or, in a list made for integers, four bytes each.  Memory is shown
in units of four bytes, so that it can be read either way.
-/

namespace Dux.Runtime

/-- `DUXLIST_ELEM_PTR` and `DUXLIST_ELEM_I32`. -/
inductive ElemKind
  | ptr
  | i32
  deriving DecidableEq, Repr

/-- The units of memory an element takes. -/
def ElemKind.units : ElemKind → Nat
  | .ptr => 2
  | .i32 => 1

structure DuxList where
  refcount : Nat := 1
  elemKind : ElemKind
  len : Nat := 0
  cap : Nat := 8
  data : List (BitVec 32)
  deriving DecidableEq, Repr

def listInitCap : Nat := 8

/-- `malloc`; what is in new memory is not used. -/
def malloc (units : Nat) : List (BitVec 32) := List.replicate units 0

def realloc (data : List (BitVec 32)) (units : Nat) : List (BitVec 32) :=
  data.take units ++ malloc (units - data.length)

/-- Two units as a pointer, the lower one first. -/
def readPtr (data : List (BitVec 32)) (i : Nat) : Option (BitVec 64) := do
  let low ← data[2 * i]?
  let high ← data[2 * i + 1]?
  return high ++ low

/-- Write a pointer; `none` beyond the block. -/
def writePtr (data : List (BitVec 32)) (i : Nat) (v : BitVec 64) : Option (List (BitVec 32)) :=
  if 2 * i + 1 < data.length then
    some ((data.set (2 * i) (v.setWidth 32)).set (2 * i + 1) (v.extractLsb' 32 32))
  else none

def writeInt (data : List (BitVec 32)) (i : Nat) (v : BitVec 32) : Option (List (BitVec 32)) :=
  if i < data.length then some (data.set i v) else none

/-- What a list operation comes to: a result, or an `IndexError` thrown. -/
inductive Access (α : Type)
  | done (result : α)
  | thrown
  deriving DecidableEq, Repr

/-- The index of an element, counted from the end if it is negative. -/
def DuxList.index (l : DuxList) (idx : Int) : Option Nat :=
  let i := if idx < 0 then idx + l.len else idx
  if i < 0 ∨ (l.len : Int) ≤ i then none else some i.toNat

def duxrtListNew : DuxList :=
  { elemKind := .ptr, cap := listInitCap, data := malloc (2 * listInitCap) }

def duxrtListNewI32 : DuxList :=
  { elemKind := .i32, cap := listInitCap, data := malloc listInitCap }

/-- The block a push finds, with `units` for each element. -/
def DuxList.grow (l : DuxList) (units : Nat) : DuxList :=
  if l.len = l.cap then { l with cap := l.cap * 2, data := realloc l.data (units * (l.cap * 2)) }
  else l

/-- `duxrt_list_push`; it does not look at the kind of the elements. -/
def duxrtListPush (l : DuxList) (val : BitVec 64) : Option DuxList := do
  let l := l.grow 2
  let data ← writePtr l.data l.len val
  return { l with data := data, len := l.len + 1 }

def duxrtListPushI32 (l : DuxList) (val : BitVec 32) : Option DuxList := do
  let l := l.grow 1
  let data ← writeInt l.data l.len val
  return { l with data := data, len := l.len + 1 }

/-- An element as a pointer: an integer is packed into its bits. -/
def DuxList.read (l : DuxList) (i : Nat) : Option (BitVec 64) :=
  match l.elemKind with
  | .i32 => l.data[i]?.map (·.setWidth 64)
  | .ptr => readPtr l.data i

/-- `duxrt_list_get` of a list that is not null. -/
def duxrtListGet (l : DuxList) (idx : Int) : Option (Access (BitVec 64)) :=
  match l.index idx with
  | none => some .thrown
  | some i => (l.read i).map .done

/-- `duxrt_list_set` of a list that is not null. -/
def duxrtListSet (l : DuxList) (idx : Int) (val : BitVec 64) : Option (Access DuxList) :=
  match l.index idx with
  | none => some .thrown
  | some i =>
      let data := match l.elemKind with
        | .i32 => writeInt l.data i (val.setWidth 32)
        | .ptr => writePtr l.data i val
      data.map fun data => .done { l with data := data }

/-- `duxrt_list_retain` of a list that is not null. -/
def duxrtListRetain (l : DuxList) : DuxList := { l with refcount := l.refcount + 1 }

/-- `duxrt_list_release` of a list that is not null; `none` when it is freed. -/
def duxrtListRelease (l : DuxList) : Option DuxList :=
  if l.refcount = 1 then none else some { l with refcount := l.refcount - 1 }

/-- The loop of `duxrt_list_concat` over one list. -/
def pushAll (out : DuxList) (l : DuxList) : Nat → Option DuxList
  | 0 => some out
  | n + 1 => do
      let out ← pushAll out l n
      let val ← l.read n
      duxrtListPush out val

/-- One loop of `duxrt_list_concat`; a null list has no elements. -/
def pushList (out : DuxList) : Option DuxList → Option DuxList
  | none => some out
  | some l => pushAll out l l.len

def duxrtListConcat (a b : Option DuxList) : Option DuxList := do
  let out ← pushList duxrtListNew a
  pushList out b

/-! ## What every operation keeps -/

namespace DuxList

variable {l l' : DuxList}

/-- The block holds all elements. -/
structure Wf (l : DuxList) : Prop where
  room : 0 < l.cap
  len : l.len ≤ l.cap
  data : l.elemKind.units * l.cap ≤ l.data.length

/-- A later state of a list: of the same kind, and no shorter. -/
structure Follows (l l' : DuxList) : Prop where
  kind : l'.elemKind = l.elemKind
  len : l.len ≤ l'.len
  wf : l.Wf → l'.Wf

theorem Follows.refl (l : DuxList) : l.Follows l := ⟨rfl, le_rfl, id⟩

theorem Follows.trans {l'' : DuxList} (first : l.Follows l') (second : l'.Follows l'') :
    l.Follows l'' where
  kind := second.kind.trans first.kind
  len := first.len.trans second.len
  wf := second.wf ∘ first.wf

theorem length_realloc (data : List (BitVec 32)) (units : Nat) :
    (realloc data units).length = units := by
  simp [realloc, malloc]
  omega

theorem length_writePtr {data data' : List (BitVec 32)} {i : Nat} {v : BitVec 64}
    (writes : writePtr data i v = some data') : data'.length = data.length := by
  unfold writePtr at writes
  split at writes
  · cases writes
    simp
  · cases writes

theorem length_writeInt {data data' : List (BitVec 32)} {i : Nat} {v : BitVec 32}
    (writes : writeInt data i v = some data') : data'.length = data.length := by
  unfold writeInt at writes
  split at writes
  · cases writes
    simp
  · cases writes

/-- Growing makes room for one more element. -/
structure Grown (l l' : DuxList) : Prop where
  kind : l'.elemKind = l.elemKind
  len : l'.len = l.len
  wf : l.Wf → l'.Wf ∧ l'.len < l'.cap

theorem grown_grow {units : Nat} (enough : l.elemKind.units ≤ units) : Grown l (l.grow units) := by
  unfold grow
  by_cases full : l.len = l.cap
  · rw [if_pos full]
    refine ⟨rfl, rfl, fun wf => ⟨⟨?_, ?_, ?_⟩, ?_⟩⟩
    · exact Nat.mul_pos wf.room (by decide)
    · exact wf.len.trans (Nat.le_mul_of_pos_right _ (by decide))
    · rw [length_realloc]
      exact Nat.mul_le_mul_right _ enough
    · have room := wf.room
      change l.len < l.cap * 2
      omega
  · rw [if_neg full]
    exact ⟨rfl, rfl, fun wf => ⟨wf, lt_of_le_of_ne wf.len full⟩⟩

theorem follows_push {val : BitVec 64} (pushes : duxrtListPush l val = some l') :
    l.Follows l' := by
  have grown : Grown l (l.grow 2) := grown_grow (by cases l.elemKind <;> decide)
  obtain ⟨data, writes, eq⟩ := Option.bind_eq_some_iff.1 pushes
  cases eq
  refine ⟨grown.kind, ?_, fun wf => ?_⟩
  · exact grown.len.ge.trans (Nat.le_succ _)
  · obtain ⟨wf, room⟩ := grown.wf wf
    exact ⟨wf.room, room, (length_writePtr writes).symm ▸ wf.data⟩

theorem follows_set {idx : Int} {val : BitVec 64}
    (sets : duxrtListSet l idx val = some (.done l')) : l.Follows l' := by
  unfold duxrtListSet at sets
  cases index : l.index idx with
  | none => simp [index] at sets
  | some i =>
    simp only [index, Option.map_eq_some_iff] at sets
    obtain ⟨data, writes, eq⟩ := sets
    cases eq
    have length : data.length = l.data.length := by
      cases kind : l.elemKind with
      | i32 => exact length_writeInt (by simpa only [kind] using writes)
      | ptr => exact length_writePtr (by simpa only [kind] using writes)
    exact ⟨rfl, le_rfl, fun wf => ⟨wf.room, wf.len, length.symm ▸ wf.data⟩⟩

theorem follows_retain : l.Follows (duxrtListRetain l) :=
  ⟨rfl, le_rfl, fun wf => ⟨wf.room, wf.len, wf.data⟩⟩

theorem follows_release (counted : l.refcount ≠ 1) :
    ∃ l', duxrtListRelease l = some l' ∧ l.Follows l' :=
  ⟨_, if_neg counted, rfl, le_rfl, fun wf => ⟨wf.room, wf.len, wf.data⟩⟩

theorem Wf.read (wf : l.Wf) {i : Nat} (inside : i < l.len) : ∃ raw, l.read i = some raw := by
  obtain ⟨-, len, data⟩ := wf
  unfold DuxList.read
  cases kind : l.elemKind with
  | i32 =>
    simp only [kind, ElemKind.units, Nat.one_mul] at data
    exact ⟨_, by rw [List.getElem?_eq_getElem (inside.trans_le (len.trans data)), Option.map_some]⟩
  | ptr =>
    simp only [kind, ElemKind.units] at data
    have low : 2 * i < l.data.length := by omega
    have high : 2 * i + 1 < l.data.length := by omega
    simp [readPtr, List.getElem?_eq_getElem low, List.getElem?_eq_getElem high]

theorem Wf.unit (wf : l.Wf) {i : Nat} (inside : i < l.len) : ∃ b, l.data[i]? = some b := by
  have units : l.cap ≤ l.elemKind.units * l.cap :=
    Nat.le_mul_of_pos_left _ (by cases l.elemKind <;> decide)
  exact ⟨_, List.getElem?_eq_getElem (inside.trans_le (wf.len.trans (units.trans wf.data)))⟩

theorem wf_new : duxrtListNew.Wf := ⟨by decide, by decide, by decide⟩

theorem wf_newI32 : duxrtListNewI32.Wf := ⟨by decide, by decide, by decide⟩

theorem wf_pushI32 {val : BitVec 32} (isInts : l.elemKind = .i32) (wf : l.Wf)
    (pushes : duxrtListPushI32 l val = some l') : l'.elemKind = .i32 ∧ l'.Wf := by
  have grown : Grown l (l.grow 1) := grown_grow (by rw [isInts]; decide)
  obtain ⟨data, writes, eq⟩ := Option.bind_eq_some_iff.1 pushes
  cases eq
  obtain ⟨wf, room⟩ := grown.wf wf
  exact ⟨grown.kind.trans isInts, wf.room, room, (length_writeInt writes).symm ▸ wf.data⟩

theorem wf_pushAll {out : DuxList} {n : Nat} (wf : out.Wf)
    (pushes : pushAll out l n = some l') : l'.Wf := by
  induction n generalizing l' with
  | zero =>
    cases pushes
    exact wf
  | succ n ih =>
    obtain ⟨out', before, pushes⟩ := Option.bind_eq_some_iff.1 pushes
    obtain ⟨val, -, push⟩ := Option.bind_eq_some_iff.1 pushes
    exact (follows_push push).wf (ih before)

theorem wf_pushList {out : DuxList} {a : Option DuxList} (wf : out.Wf)
    (pushes : pushList out a = some l') : l'.Wf := by
  cases a with
  | none =>
    cases pushes
    exact wf
  | some a => exact wf_pushAll wf pushes

theorem wf_concat {a b : Option DuxList} (concats : duxrtListConcat a b = some l') : l'.Wf := by
  obtain ⟨out, first, second⟩ := Option.bind_eq_some_iff.1 concats
  exact wf_pushList (wf_pushList wf_new first) second

theorem get_eq {i : Nat} (inside : i < l.len) :
    duxrtListGet l i = (l.read i).map .done := by
  have index : l.index i = some i := by
    have notNegative : ¬(i : Int) < 0 := by omega
    have within : ¬((i : Int) < 0 ∨ (l.len : Int) ≤ i) := by omega
    simp only [DuxList.index, if_neg notNegative, if_neg within, Int.toNat_natCast]
  rw [duxrtListGet, index]

end DuxList

end Dux.Runtime
