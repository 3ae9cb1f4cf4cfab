import Dux.Runtime.Lists
import Mathlib.Data.BitVec
import Mathlib.Data.List.Forall2

/-!
# Runs on lists

Calls of `src/runtime/list.c` in any order, on lists of both kinds, beside the same calls on
sequences.  An element is shown as the pointer that `duxrt_list_get` makes of it.
-/

namespace Dux.Runtime.ListRuns

/-! ## Calls -/

/-- `duxrt_list_get_i32` of a list that is not null; it does not look at the kind. -/
def duxrtListGetI32 (l : DuxList) (idx : Int) : Option (Access (BitVec 32)) :=
  match l.index idx with
  | none => some .thrown
  | some i => l.data[i]?.map .done

/-- `duxrt_list_set_i32` of a list that is not null; it does not look at the kind. -/
def duxrtListSetI32 (l : DuxList) (idx : Int) (val : BitVec 32) : Option (Access DuxList) :=
  match l.index idx with
  | none => some .thrown
  | some i => (writeInt l.data i val).map fun data => .done { l with data := data }

/-- A call, with lists by their numbers; a list of `duxrt_list_concat` may be null. -/
inductive Call
  | new (kind : ElemKind)
  | push (l : Nat) (val : BitVec 64)
  | get (l : Nat) (idx : Int)
  | set (l : Nat) (idx : Int) (val : BitVec 64)
  | len (l : Nat)
  | pushI32 (l : Nat) (val : BitVec 32)
  | getI32 (l : Nat) (idx : Int)
  | setI32 (l : Nat) (idx : Int) (val : BitVec 32)
  | concat (a b : Option Nat)

/-- What a call returns, or the exception. -/
inductive Reply
  | unit
  | list (n : Nat)
  | pointer (val : BitVec 64)
  | integer (val : BitVec 32)
  | length (n : Nat)
  | indexError
  deriving DecidableEq, Repr

def onList (lists : List DuxList) (l : Nat) (call : DuxList → Option (Reply × DuxList)) :
    Option (Reply × List DuxList) :=
  match lists[l]? with
  | none => some (.unit, lists)
  | some list => (call list).map fun r => (r.1, lists.set l r.2)

/-- What is read of a list. -/
def reading {α : Type} (list : DuxList) (reply : α → Reply) : Access α → Reply × DuxList
  | .done val => (reply val, list)
  | .thrown => (.indexError, list)

/-- A list after a write. -/
def writing (list : DuxList) : Access DuxList → Reply × DuxList
  | .done list' => (.unit, list')
  | .thrown => (.indexError, list)

def step (lists : List DuxList) : Call → Option (Reply × List DuxList)
  | .new .ptr => some (.list lists.length, lists ++ [duxrtListNew])
  | .new .i32 => some (.list lists.length, lists ++ [duxrtListNewI32])
  | .push l val => onList lists l fun list => (duxrtListPush list val).map (.unit, ·)
  | .get l idx => onList lists l fun list => (duxrtListGet list idx).map (reading list .pointer)
  | .set l idx val => onList lists l fun list => (duxrtListSet list idx val).map (writing list)
  | .len l => onList lists l fun list => some (.length list.len, list)
  | .pushI32 l val => onList lists l fun list => (duxrtListPushI32 list val).map (.unit, ·)
  | .getI32 l idx =>
      onList lists l fun list => (duxrtListGetI32 list idx).map (reading list .integer)
  | .setI32 l idx val =>
      onList lists l fun list => (duxrtListSetI32 list idx val).map (writing list)
  | .concat a b =>
      (duxrtListConcat (a.bind (lists[·]?)) (b.bind (lists[·]?))).map fun out =>
        (.list lists.length, lists ++ [out])

def run (lists : List DuxList) : List Call → Option (List Reply × List DuxList)
  | [] => some ([], lists)
  | c :: calls => do
      let (reply, lists) ← step lists c
      let (replies, lists) ← run lists calls
      return (reply :: replies, lists)

/-! ## Sequences -/

/-- What a list is for: elements in an order. -/
structure Sequence where
  kind : ElemKind
  elems : List (BitVec 64)

namespace Sequence

/-- The position of an index between minus the length and the length. -/
def position (n : Nat) (idx : Int) : Option Nat :=
  if -(n : Int) ≤ idx ∧ idx < n then some (if idx < 0 then idx + n else idx).toNat else none

/-- The element at an index, or the exception. -/
def get (s : Sequence) (idx : Int) (reply : BitVec 64 → Reply) : Reply :=
  ((position s.elems.length idx).bind (s.elems[·]?)).elim .indexError reply

/-- Another element at an index, or the exception. -/
def set (s : Sequence) (idx : Int) (val : BitVec 64) : Reply × Sequence :=
  (position s.elems.length idx).elim (.indexError, s) fun i =>
    (.unit, { s with elems := s.elems.set i val })

def push (s : Sequence) (val : BitVec 64) : Sequence := { s with elems := s.elems ++ [val] }

def box (val : BitVec 32) : BitVec 64 := val.setWidth 64

def elements (specs : List Sequence) (a : Option Nat) : List (BitVec 64) :=
  ((a.bind (specs[·]?)).map elems).getD []

def onSequence (specs : List Sequence) (l : Nat) (call : Sequence → Reply × Sequence) :
    Reply × List Sequence :=
  match specs[l]? with
  | none => (.unit, specs)
  | some s => ((call s).1, specs.set l (call s).2)

def step (specs : List Sequence) : Call → Reply × List Sequence
  | .new kind => (.list specs.length, specs ++ [⟨kind, []⟩])
  | .push l val => onSequence specs l fun s => (.unit, s.push val)
  | .get l idx => onSequence specs l fun s => (s.get idx .pointer, s)
  | .set l idx val => onSequence specs l fun s => s.set idx val
  | .len l => onSequence specs l fun s => (.length s.elems.length, s)
  | .pushI32 l val => onSequence specs l fun s => (.unit, s.push (box val))
  | .getI32 l idx =>
      onSequence specs l fun s => (s.get idx fun val => .integer (val.setWidth 32), s)
  | .setI32 l idx val => onSequence specs l fun s => s.set idx (box val)
  | .concat a b => (.list specs.length, specs ++ [⟨.ptr, elements specs a ++ elements specs b⟩])

def run (specs : List Sequence) : List Call → List Reply × List Sequence
  | [] => ([], specs)
  | c :: calls =>
      let r := step specs c
      let rest := run r.2 calls
      (r.1 :: rest.1, rest.2)

end Sequence

/-- A call is of the kind of its list: a pointer is pushed to pointers, integers are pushed, read
and set among integers, and what is set among integers is one. -/
def Suits (specs : List Sequence) : Call → Prop
  | .push l _ => ∀ s ∈ specs[l]?, s.kind = .ptr
  | .pushI32 l _ => ∀ s ∈ specs[l]?, s.kind = .i32
  | .set l idx val => ∀ s ∈ specs[l]?, ∀ _ ∈ Sequence.position s.elems.length idx,
      s.kind = .i32 → Sequence.box (val.setWidth 32) = val
  | .getI32 l idx => ∀ s ∈ specs[l]?, ∀ _ ∈ Sequence.position s.elems.length idx, s.kind = .i32
  | .setI32 l idx _ => ∀ s ∈ specs[l]?, ∀ _ ∈ Sequence.position s.elems.length idx, s.kind = .i32
  | _ => True

/-- All calls of a run are of the kinds of their lists. -/
def AllSuit (specs : List Sequence) : List Call → Prop
  | [] => True
  | c :: calls => Suits specs c ∧ AllSuit (Sequence.step specs c).2 calls

structure Rep (l : DuxList) (s : Sequence) : Prop where
  kind : l.elemKind = s.kind
  len : l.len = s.elems.length
  wf : l.Wf
  read : ∀ i < l.len, l.read i = s.elems[i]?

/-- Some calls have the replies of sequences, and the lists hold these after them. -/
def Refines (calls : List Call) : Prop :=
  ∃ lists, run [] calls = some ((Sequence.run [] calls).1, lists) ∧
    List.Forall₂ Rep lists (Sequence.run [] calls).2

/-! ## Memory -/

section Memory

variable {data data' : List (BitVec 32)} {i j units : Nat}

theorem append_halves (v : BitVec 64) : v.extractLsb' 32 32 ++ v.setWidth 32 = v := by
  ext k
  rw [BitVec.getElem_append]
  split
  · simp only [BitVec.getElem_setWidth]
    exact BitVec.getLsbD_eq_getElem _
  · simp only [BitVec.getElem_extractLsb']
    rw [← BitVec.getLsbD_eq_getElem]
    congr 1
    omega

theorem readPtr_writePtr {v : BitVec 64} (writes : writePtr data i v = some data') (j : Nat) :
    readPtr data' j = if j = i then some v else readPtr data j := by
  unfold writePtr at writes
  split at writes
  · next inside =>
    cases writes
    unfold readPtr
    by_cases same : j = i
    · subst same
      have low : 2 * j < data.length := by omega
      simp [inside, low, append_halves]
    · have others : 2 * i ≠ 2 * j ∧ 2 * i + 1 ≠ 2 * j ∧ 2 * i ≠ 2 * j + 1 ∧
          2 * i + 1 ≠ 2 * j + 1 := by
        omega
      simp only [List.getElem?_set, others, if_false, if_neg same]
  · cases writes

theorem getElem?_realloc (inside : j < data.length) (kept : j < units) :
    (realloc data units)[j]? = data[j]? := by
  rw [realloc, List.getElem?_append_left (by rw [List.length_take]; omega),
    List.getElem?_take_of_lt kept]

theorem readPtr_realloc (inside : 2 * j + 1 < data.length) (kept : 2 * j + 1 < units) :
    readPtr (realloc data units) j = readPtr data j := by
  rw [readPtr, getElem?_realloc (by omega) (by omega), getElem?_realloc inside kept]
  rfl

end Memory

section Operations

variable {l : DuxList} {s : Sequence}

theorem Rep.lt_cap (rep : Rep l s) {i : Nat} (inside : i < l.len) : i < l.cap :=
  inside.trans_le rep.wf.len

theorem rep_grow (rep : Rep l s) {units : Nat} (isUnits : units = l.elemKind.units) :
    Rep (l.grow units) s ∧ (l.grow units).len < (l.grow units).cap := by
  have grown := DuxList.grown_grow (l := l) isUnits.ge
  obtain ⟨wf, room⟩ := grown.wf rep.wf
  refine ⟨⟨grown.kind.trans rep.kind, grown.len.trans rep.len, wf, fun i inside => ?_⟩, room⟩
  rw [grown.len] at inside
  rw [← rep.read i inside]
  have inCap := rep.lt_cap inside
  have inData := rep.wf.data
  unfold DuxList.grow
  split
  · unfold DuxList.read
    dsimp only
    rw [isUnits]
    cases kind : l.elemKind with
    | i32 =>
      rw [kind] at inData
      simp only [ElemKind.units, Nat.one_mul] at inData ⊢
      rw [getElem?_realloc (by omega) (by omega)]
    | ptr =>
      rw [kind] at inData
      simp only [ElemKind.units] at inData ⊢
      rw [readPtr_realloc (by omega) (by omega)]
  · rfl

theorem rep_push {data : List (BitVec 32)} {val : BitVec 64} (rep : Rep l s)
    (room : l.len < l.cap) (length : data.length = l.data.length)
    (reads : ∀ i ≤ l.len, ({ l with data := data } : DuxList).read i =
      if i = l.len then some val else l.read i) :
    Rep { l with data := data, len := l.len + 1 } (s.push val) := by
  refine ⟨rep.kind, ?_, ⟨rep.wf.room, room, length ▸ rep.wf.data⟩, fun i inside => ?_⟩
  · simp only [Sequence.push, List.length_append, List.length_singleton, rep.len]
  · have atMost : i ≤ l.len := Nat.le_of_lt_succ inside
    refine (reads i atMost).trans ?_
    rw [Sequence.push]
    split
    · next same => rw [same, rep.len, List.getElem?_concat_length]
    · next other =>
      have before : i < l.len := Nat.lt_of_le_of_ne atMost other
      rw [rep.read i before, List.getElem?_append_left (rep.len ▸ before)]

theorem units_eq (rep : Rep l s) {kind : ElemKind} (isKind : s.kind = kind) :
    kind.units = l.elemKind.units := by
  rw [rep.kind, isKind]

theorem push_rep (rep : Rep l s) (isPtr : s.kind = .ptr) (val : BitVec 64) :
    ∃ l', duxrtListPush l val = some l' ∧ Rep l' (s.push val) := by
  obtain ⟨grown, room⟩ := rep_grow rep (units_eq rep isPtr)
  unfold duxrtListPush
  dsimp only [ElemKind.units] at grown room ⊢
  generalize l.grow 2 = m at grown room
  have kind := grown.kind.trans isPtr
  have inside : 2 * m.len + 1 < m.data.length := by
    have inData := grown.wf.data
    rw [kind] at inData
    simp only [ElemKind.units] at inData
    omega
  obtain ⟨data, writes⟩ : ∃ data, writePtr m.data m.len val = some data := ⟨_, if_pos inside⟩
  rw [writes]
  refine ⟨_, rfl, rep_push grown room (DuxList.length_writePtr writes) fun i _ => ?_⟩
  simp only [DuxList.read, kind, readPtr_writePtr writes]

theorem pushI32_rep (rep : Rep l s) (isInts : s.kind = .i32) (val : BitVec 32) :
    ∃ l', duxrtListPushI32 l val = some l' ∧ Rep l' (s.push (Sequence.box val)) := by
  obtain ⟨grown, room⟩ := rep_grow rep (units_eq rep isInts)
  unfold duxrtListPushI32
  dsimp only [ElemKind.units] at grown room ⊢
  generalize l.grow 1 = m at grown room
  have kind := grown.kind.trans isInts
  have inside : m.len < m.data.length := by
    have inData := grown.wf.data
    rw [kind] at inData
    simp only [ElemKind.units, Nat.one_mul] at inData
    omega
  obtain ⟨data, writes⟩ : ∃ data, writeInt m.data m.len val = some data := ⟨_, if_pos inside⟩
  rw [writes]
  refine ⟨_, rfl, rep_push grown room (DuxList.length_writeInt writes) fun i _ => ?_⟩
  rw [writeInt, if_pos inside, Option.some.injEq] at writes
  simp only [DuxList.read, kind, ← writes, List.getElem?_set, inside, if_true]
  by_cases same : i = m.len
  · rw [if_pos same, if_pos same.symm]
    rfl
  · rw [if_neg same, if_neg (Ne.symm same)]

theorem index_eq (rep : Rep l s) (idx : Int) :
    l.index idx = Sequence.position s.elems.length idx := by
  unfold DuxList.index Sequence.position
  dsimp only
  rw [rep.len]
  by_cases negative : idx < 0
  · simp only [if_pos negative]
    by_cases inside : -(s.elems.length : Int) ≤ idx
    · rw [if_neg (by omega), if_pos (by omega)]
    · rw [if_pos (by omega), if_neg (by omega)]
  · simp only [if_neg negative]
    by_cases inside : idx < s.elems.length
    · rw [if_neg (by omega), if_pos (by omega)]
    · rw [if_pos (by omega), if_neg (by omega)]

theorem position_lt {n i : Nat} {idx : Int} (isPosition : Sequence.position n idx = some i) :
    i < n := by
  unfold Sequence.position at isPosition
  split at isPosition
  · cases isPosition
    split <;> omega
  · cases isPosition

theorem get_rep (rep : Rep l s) (idx : Int) :
    (duxrtListGet l idx).map (reading l .pointer) = some (s.get idx .pointer, l) := by
  rw [duxrtListGet, index_eq rep, Sequence.get]
  cases isPosition : Sequence.position s.elems.length idx with
  | none => rfl
  | some i =>
    have inside := position_lt isPosition
    have read := rep.read i (rep.len ▸ inside)
    dsimp only
    rw [read, Option.bind_some, List.getElem?_eq_getElem inside]
    rfl

theorem getI32_rep (rep : Rep l s) {idx : Int}
    (isInts : ∀ _ ∈ Sequence.position s.elems.length idx, s.kind = .i32) :
    (duxrtListGetI32 l idx).map (reading l .integer) =
      some (s.get idx fun val => .integer (val.setWidth 32), l) := by
  rw [duxrtListGetI32, index_eq rep, Sequence.get]
  cases isPosition : Sequence.position s.elems.length idx with
  | none => rfl
  | some i =>
    have inside := position_lt isPosition
    have read := rep.read i (rep.len ▸ inside)
    rw [DuxList.read, rep.kind, isInts i isPosition] at read
    dsimp only at read ⊢
    rw [List.getElem?_eq_getElem inside] at read
    obtain ⟨val, isVal, boxed⟩ := Option.map_eq_some_iff.1 read
    rw [isVal, Option.bind_some, List.getElem?_eq_getElem inside, ← boxed]
    simp [reading]

theorem rep_set {data : List (BitVec 32)} {val : BitVec 64} {i : Nat} (rep : Rep l s)
    (length : data.length = l.data.length)
    (reads : ∀ j < l.len, ({ l with data := data } : DuxList).read j =
      if j = i then some val else l.read j) :
    Rep { l with data := data } { s with elems := s.elems.set i val } := by
  refine ⟨rep.kind, ?_, ⟨rep.wf.room, rep.wf.len, length ▸ rep.wf.data⟩, fun j inside => ?_⟩
  · rw [List.length_set]
    exact rep.len
  · rw [reads j inside, List.getElem?_set]
    split
    · next same =>
      subst same
      rw [if_pos rfl, if_pos (rep.len ▸ inside)]
    · next other => rw [if_neg (Ne.symm other), rep.read j inside]

theorem writeInt_reads {data : List (BitVec 32)} {val : BitVec 32} {i : Nat}
    (isInts : l.elemKind = .i32) (writes : writeInt l.data i val = some data) (j : Nat) :
    ({ l with data := data } : DuxList).read j =
      if j = i then some (Sequence.box val) else l.read j := by
  unfold writeInt at writes
  split at writes
  · next inside =>
    cases writes
    simp only [DuxList.read, isInts, List.getElem?_set]
    by_cases same : j = i
    · rw [if_pos same, if_pos same.symm, if_pos inside]
      rfl
    · rw [if_neg same, if_neg (Ne.symm same)]
  · cases writes

theorem exists_writeInt (rep : Rep l s) (isInts : s.kind = .i32) {i : Nat}
    (inside : i < s.elems.length) (val : BitVec 32) :
    ∃ data, writeInt l.data i val = some data := by
  refine ⟨_, if_pos ?_⟩
  have inCap := rep.lt_cap (rep.len ▸ inside)
  have inData := rep.wf.data
  rw [rep.kind, isInts] at inData
  simp only [ElemKind.units, Nat.one_mul] at inData
  omega

theorem set_rep (rep : Rep l s) {idx : Int} {val : BitVec 64}
    (suits : ∀ _ ∈ Sequence.position s.elems.length idx,
      s.kind = .i32 → Sequence.box (val.setWidth 32) = val) :
    ∃ l', (duxrtListSet l idx val).map (writing l) = some ((s.set idx val).1, l') ∧
      Rep l' (s.set idx val).2 := by
  rw [duxrtListSet, index_eq rep, Sequence.set]
  cases isPosition : Sequence.position s.elems.length idx with
  | none => exact ⟨l, rfl, rep⟩
  | some i =>
    have inside := position_lt isPosition
    dsimp only
    cases kind : l.elemKind with
    | i32 =>
      have isInts := rep.kind.symm.trans kind
      obtain ⟨data, writes⟩ := exists_writeInt rep isInts inside (val.setWidth 32)
      have isSet : Rep { l with data := data } { s with elems := s.elems.set i val } := by
        refine rep_set rep (DuxList.length_writeInt writes) fun j _ => ?_
        rw [writeInt_reads kind writes, suits i isPosition isInts]
      rw [kind] at isSet
      rw [writes]
      exact ⟨_, rfl, isSet⟩
    | ptr =>
      have inCap := rep.lt_cap (rep.len ▸ inside)
      have inData := rep.wf.data
      rw [kind] at inData
      simp only [ElemKind.units] at inData
      obtain ⟨data, writes⟩ : ∃ data, writePtr l.data i val = some data :=
        ⟨_, if_pos (by omega)⟩
      have isSet : Rep { l with data := data } { s with elems := s.elems.set i val } := by
        refine rep_set rep (DuxList.length_writePtr writes) fun j _ => ?_
        simp only [DuxList.read, kind, readPtr_writePtr writes]
      rw [kind] at isSet
      rw [writes]
      exact ⟨_, rfl, isSet⟩

theorem setI32_rep (rep : Rep l s) {idx : Int} {val : BitVec 32}
    (isInts : ∀ _ ∈ Sequence.position s.elems.length idx, s.kind = .i32) :
    ∃ l', (duxrtListSetI32 l idx val).map (writing l) =
        some ((s.set idx (Sequence.box val)).1, l') ∧
      Rep l' (s.set idx (Sequence.box val)).2 := by
  rw [duxrtListSetI32, index_eq rep, Sequence.set]
  cases isPosition : Sequence.position s.elems.length idx with
  | none => exact ⟨l, rfl, rep⟩
  | some i =>
    have inside := position_lt isPosition
    have kind := isInts i isPosition
    obtain ⟨data, writes⟩ := exists_writeInt rep kind inside val
    dsimp only
    rw [writes]
    exact ⟨_, rfl, rep_set rep (DuxList.length_writeInt writes) fun j _ =>
      writeInt_reads (rep.kind.trans kind) writes j⟩

theorem pushAll_rep {out : DuxList} {t : Sequence} (repOut : Rep out t) (isPtr : t.kind = .ptr)
    (rep : Rep l s) {n : Nat} (atMost : n ≤ l.len) :
    ∃ out', pushAll out l n = some out' ∧
      Rep out' { t with elems := t.elems ++ s.elems.take n } := by
  induction n with
  | zero =>
    refine ⟨out, rfl, ?_⟩
    rw [List.take_zero, List.append_nil]
    exact repOut
  | succ n ih =>
    obtain ⟨out', before, rep'⟩ := ih (Nat.le_of_succ_le atMost)
    have inside : n < s.elems.length := rep.len ▸ atMost
    have read := rep.read n atMost
    rw [List.getElem?_eq_getElem inside] at read
    obtain ⟨out'', pushes, rep''⟩ := push_rep rep' isPtr s.elems[n]
    refine ⟨out'', ?_, ?_⟩
    · rw [pushAll, before, Option.bind_eq_bind, Option.bind_some, read]
      exact pushes
    · rw [List.take_succ_eq_append_getElem inside, ← List.append_assoc]
      exact rep''

theorem rep_new : Rep duxrtListNew ⟨.ptr, []⟩ := ⟨rfl, rfl, DuxList.wf_new, nofun⟩

theorem rep_newI32 : Rep duxrtListNewI32 ⟨.i32, []⟩ := ⟨rfl, rfl, DuxList.wf_newI32, nofun⟩

end Operations

/-! ## Steps and runs -/

section Runs

variable {lists : List DuxList} {specs : List Sequence}

/-- The lists of a state hold its sequences. -/
abbrev Reps (lists : List DuxList) (specs : List Sequence) : Prop := List.Forall₂ Rep lists specs

theorem Reps.get (reps : Reps lists specs) (i : Nat) :
    (lists[i]? = none ∧ specs[i]? = none) ∨
      ∃ l s, lists[i]? = some l ∧ specs[i]? = some s ∧ Rep l s := by
  induction reps generalizing i with
  | nil => exact .inl ⟨rfl, rfl⟩
  | cons rep _ ih =>
    cases i with
    | zero => exact .inr ⟨_, _, rfl, rfl, rep⟩
    | succ i => exact ih i

theorem Reps.set (reps : Reps lists specs) {l : DuxList} {s : Sequence} (rep : Rep l s) (i : Nat) :
    Reps (lists.set i l) (specs.set i s) := by
  induction reps generalizing i with
  | nil => exact .nil
  | cons first rest ih =>
    cases i with
    | zero => exact .cons rep rest
    | succ i => exact .cons first (ih i)

theorem Reps.concat (reps : Reps lists specs) {l : DuxList} {s : Sequence} (rep : Rep l s) :
    Reps (lists ++ [l]) (specs ++ [s]) :=
  List.rel_append reps (.cons rep .nil)

theorem onList_rep (reps : Reps lists specs) {n : Nat}
    {call : DuxList → Option (Reply × DuxList)} {callSpec : Sequence → Reply × Sequence}
    (each : ∀ l s, specs[n]? = some s → Rep l s →
      ∃ l', call l = some ((callSpec s).1, l') ∧ Rep l' (callSpec s).2) :
    ∃ lists', onList lists n call = some ((Sequence.onSequence specs n callSpec).1, lists') ∧
      Reps lists' (Sequence.onSequence specs n callSpec).2 := by
  unfold onList Sequence.onSequence
  rcases Reps.get reps n with ⟨noList, noSpec⟩ | ⟨l, s, isList, isSpec, rep⟩
  · rw [noList, noSpec]
    exact ⟨lists, rfl, reps⟩
  · obtain ⟨l', runs, rep'⟩ := each l s isSpec rep
    rw [isList, isSpec]
    dsimp only
    rw [runs]
    exact ⟨_, rfl, reps.set rep' n⟩

theorem pushList_rep (reps : Reps lists specs) {out : DuxList} {t : Sequence} (repOut : Rep out t)
    (isPtr : t.kind = .ptr) (a : Option Nat) :
    ∃ out', pushList out (a.bind (lists[·]?)) = some out' ∧
      Rep out' { t with elems := t.elems ++ Sequence.elements specs a } := by
  have noElements : Rep out { t with elems := t.elems ++ [] } := by
    rw [List.append_nil]
    exact repOut
  cases a with
  | none => exact ⟨out, rfl, noElements⟩
  | some n =>
    rw [Sequence.elements, Option.bind_some, Option.bind_some]
    rcases Reps.get reps n with ⟨noList, noSpec⟩ | ⟨l, s, isList, isSpec, rep⟩
    · rw [noList, noSpec]
      exact ⟨out, rfl, noElements⟩
    · rw [isList, isSpec]
      obtain ⟨out', pushes, rep'⟩ := pushAll_rep repOut isPtr rep (Nat.le_refl _)
      rw [rep.len, List.take_length] at rep'
      exact ⟨out', pushes, rep'⟩

theorem step_rep (reps : Reps lists specs) {c : Call} (suits : Suits specs c) :
    ∃ lists', step lists c = some ((Sequence.step specs c).1, lists') ∧
      Reps lists' (Sequence.step specs c).2 := by
  have lengths := List.Forall₂.length_eq reps
  cases c with
  | new kind =>
    cases kind with
    | ptr =>
      rw [step, lengths]
      exact ⟨_, rfl, reps.concat rep_new⟩
    | i32 =>
      rw [step, lengths]
      exact ⟨_, rfl, reps.concat rep_newI32⟩
  | push n val =>
    refine onList_rep reps fun l s isSpec rep => ?_
    obtain ⟨l', pushes, rep'⟩ := push_rep rep (suits s isSpec) val
    exact ⟨l', by rw [pushes]; rfl, rep'⟩
  | get n idx => exact onList_rep reps fun l s _ rep => ⟨l, get_rep rep idx, rep⟩
  | set n idx val => exact onList_rep reps fun l s isSpec rep => set_rep rep (suits s isSpec)
  | len n =>
    refine onList_rep reps fun l s _ rep => ⟨l, ?_, rep⟩
    rw [rep.len]
  | pushI32 n val =>
    refine onList_rep reps fun l s isSpec rep => ?_
    obtain ⟨l', pushes, rep'⟩ := pushI32_rep rep (suits s isSpec) val
    exact ⟨l', by rw [pushes]; rfl, rep'⟩
  | getI32 n idx =>
    exact onList_rep reps fun l s isSpec rep => ⟨l, getI32_rep rep (suits s isSpec), rep⟩
  | setI32 n idx val =>
    exact onList_rep reps fun l s isSpec rep => setI32_rep rep (suits s isSpec)
  | concat a b =>
    obtain ⟨out, first, rep⟩ := pushList_rep reps rep_new rfl a
    obtain ⟨out', second, rep'⟩ := pushList_rep reps rep rfl b
    rw [step, duxrtListConcat, first, Option.bind_eq_bind, Option.bind_some, second, lengths]
    exact ⟨_, rfl, reps.concat rep'⟩

theorem run_rep (reps : Reps lists specs) {calls : List Call} (suit : AllSuit specs calls) :
    ∃ lists', run lists calls = some ((Sequence.run specs calls).1, lists') ∧
      Reps lists' (Sequence.run specs calls).2 := by
  induction calls generalizing lists specs with
  | nil => exact ⟨lists, rfl, reps⟩
  | cons c calls ih =>
    obtain ⟨lists', one, reps'⟩ := step_rep reps suit.1
    obtain ⟨lists'', rest, reps''⟩ := ih reps' suit.2
    refine ⟨lists'', ?_, reps''⟩
    rw [run, one, Option.bind_eq_bind, Option.bind_some]
    dsimp only
    rw [rest]
    rfl

/-- Lists behave as sequences in every run whose calls are of the kinds of their lists. -/
theorem refines_of_allSuit (calls : List Call) (suit : AllSuit [] calls) : Refines calls :=
  run_rep .nil suit

/-- Lists of both kinds, joined. -/
theorem refines_mixed :
    Refines [.new .i32, .pushI32 0 7, .setI32 0 (-1) 9, .new .ptr, .push 1 (2 ^ 40),
      .concat (some 0) (some 1), .get 2 1, .get 2 2, .len 2] := by
  apply refines_of_allSuit
  simp [AllSuit, Suits, Sequence.step, Sequence.onSequence, Sequence.push, Sequence.set,
    Sequence.position]

/-- Five pointers in a list of integers go over the end of its block. -/
theorem not_refines : ¬∀ calls, Refines calls := by
  intro always
  obtain ⟨lists, runs, -⟩ := always (.new .i32 :: List.replicate 5 (.push 0 1))
  have fault : run [] (.new .i32 :: List.replicate 5 (.push 0 1)) = none := by decide +kernel
  rw [fault] at runs
  cases runs

end Runs

end Dux.Runtime.ListRuns
