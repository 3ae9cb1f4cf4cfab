import Dux.Codegen.Numbers
import Dux.Runtime.Lists

/-!
# Loops over lists

`gen_for_in` (`src/codegen/codegen.cpp`) over a list: the pointer and the length are evaluated
once, and every round loads the element at the next index.  The loop does not count itself as
an owner of the list.  What runs in the body is any sequence of the operations that code
generation or the runtime apply to lists, in the body itself or in the functions it calls.
-/

namespace Dux.Codegen.ListLoops

open Dux.Runtime TypeRegistry

/-! ## Which way an element is loaded -/

/-- `typed_list_vars_`, by the bare name of a variable; newer entries in front. -/
abbrev TypedListVars := List (String × Nat)

/-- What `gen_var_decl` records about a list variable: the kind that the list literal has left
in `last_list_elem_kind_`, or that of the variable it is initialised with. -/
def recordKind (typed : TypedListVars) (name : String) (lastListElemKind : Nat)
    (init : Option Expr) : TypedListVars :=
  let kind :=
    if lastListElemKind ≠ 0 then lastListElemKind
    else match init with
      | some (.ident _ other) => (typed.lookup other).getD 0
      | _ => 0
  if kind ≠ 0 then (name, kind) :: typed else typed.filter (·.1 ≠ name)

def isTypedI32 (typed : TypedListVars) : Expr → Bool
  | .ident _ name => typed.lookup name = some 1
  | _ => false

def isList (iterTid : TypeId) : Bool := iterTid = TID_LIST || iterTid = TID_UNKNOWN

/-- A loop over a list: what is known of the variables, what it iterates over, and the type of
its variable. -/
structure Loop where
  typed : TypedListVars
  iterable : Expr
  varType : LlvmType

/-- Whether elements are loaded as integers without asking the list. -/
def Loop.fast (c : Loop) : Bool := isTypedI32 c.typed c.iterable

/-! ## Lists in memory -/

/-- A pointer to a list. -/
abbrev Ptr := Option Nat

/-- All lists made so far, with those freed as empty places, and what list variables and fields
point to. -/
structure World where
  lists : List (Option DuxList) := []
  slots : Nat → Ptr := fun _ => none

namespace World

def list (w : World) (a : Nat) : Option DuxList := w.lists[a]?.join

def deref (w : World) : Ptr → Option (Option DuxList)
  | none => some none
  | some a => (w.list a).map some

def update (w : World) (a : Nat) (l : Option DuxList) : World :=
  { w with lists := w.lists.set a l }

def alloc (w : World) (l : DuxList) : World := { w with lists := w.lists ++ [some l] }

def store (w : World) (x : Nat) (p : Ptr) : World :=
  { w with slots := fun y => if y = x then p else w.slots y }

def onList (w : World) (p : Ptr) (f : DuxList → Option (Option DuxList)) : Option World :=
  match p with
  | none => some w
  | some a => do
      let l ← w.list a
      let l' ← f l
      return w.update a l'

def retain (w : World) (p : Ptr) : Option World := w.onList p fun l => some (duxrtListRetain l)

def release (w : World) (p : Ptr) : Option World := w.onList p fun l => some (duxrtListRelease l)

end World

/-- What a program does to lists.  `declare` is a variable that is initialised, `assign` an
assignment to a variable, whose old value is released, or to a field, whose old value is not,
and `delete` the statement, or the end of a variable's scope.  The result of a call is stored
without another count. -/
inductive Act
  | literal (elems : List (BitVec 64))
  | literalInts (elems : List (BitVec 32))
  | concat (a b : Ptr)
  | push (p : Ptr) (val : BitVec 64)
  | set (p : Ptr) (idx : Int) (val : BitVec 64)
  | retain (p : Ptr)
  | release (p : Ptr)
  | declare (x : Nat) (p : Ptr) (isCall : Bool)
  | assign (x : Nat) (p : Ptr) (isVar isCall : Bool)
  | delete (x : Nat)

/-- `maybe_retain_list`. -/
def World.maybeRetain (w : World) (p : Ptr) (isCall : Bool) : Option World :=
  if isCall then some w else w.retain p

/-- An assignment to a variable releases its old value. -/
def World.releaseOld (w : World) (x : Nat) (isVar : Bool) : Option World :=
  if isVar then w.release (w.slots x) else some w

/-- The effect of an operation; `none` when it uses a freed list or writes beyond a block.  An
`IndexError` leaves the list as it is. -/
def Act.exec : Act → World → Option World
  | .literal elems, w => do return w.alloc (← elems.foldlM duxrtListPush duxrtListNew)
  | .literalInts elems, w => do return w.alloc (← elems.foldlM duxrtListPushI32 duxrtListNewI32)
  | .concat a b, w => do return w.alloc (← duxrtListConcat (← w.deref a) (← w.deref b))
  | .push none _, _ => none
  | .push (some a) val, w => w.onList (some a) fun l => (duxrtListPush l val).map some
  | .set p idx val, w => w.onList p fun l =>
      match duxrtListSet l idx val with
      | some (.done l') => some (some l')
      | some .thrown => some (some l)
      | none => none
  | .retain p, w => w.retain p
  | .release p, w => w.release p
  | .declare x p isCall, w => do return (← w.maybeRetain p isCall).store x p
  | .assign x p isVar isCall, w => do
      let w ← w.releaseOld x isVar
      return (← w.maybeRetain p isCall).store x p
  | .delete x, w => do return (← w.release (w.slots x)).store x none

/-! ## The loop -/

/-- The load of an element into the loop variable; `none` when it reads freed memory or beyond
the block. -/
def Loop.load (c : Loop) (l : Option DuxList) (i : Nat) : Option LlvmValue := do
  let l ← l
  if c.fast then Numbers.coerceToLlvmType (.i32 (← l.data[i]?)) c.varType
  else
    match duxrtListGet l i with
    | some (.done raw) => Numbers.coerceToLlvmType (.ptr raw) c.varType
    | some .thrown => none
    | none => none

/-- A round: the index, the list at that moment, if it was still there, and what was loaded. -/
structure Visit where
  index : Nat
  list : Option DuxList
  loaded : Option LlvmValue
  deriving DecidableEq

/-- Where control is: before the loop, at its head, in its body, behind its end, or gone after
the body has left it. -/
inductive Phase
  | before
  | head
  | body
  | ended
  | left
  deriving DecidableEq

/-- A state of a run: the pointer and the length that the loop has, its index, and its rounds so
far. -/
structure State where
  world : World := {}
  phase : Phase := .before
  ptr : Ptr := none
  len : Nat := 0
  idx : Nat := 0
  visits : List Visit := []

inductive Label
  | act (a : Act)
  | enter (p : Ptr)
  | visit
  | next
  | leave
  | finish

def State.list (s : State) : Option DuxList := s.ptr.bind s.world.list

def step (c : Loop) (s : State) : Label → Option State
  | .act a =>
      if s.phase = .before ∨ s.phase = .body then
        (a.exec s.world).map fun w => { s with world := w }
      else none
  | .enter p =>
      if s.phase = .before then
        (s.world.deref p).map fun l =>
          { s with phase := .head, ptr := p, len := (l.map DuxList.len).getD 0 }
      else none
  | .visit =>
      if s.phase = .head ∧ s.idx < s.len then
        some { s with phase := .body,
                      visits := s.visits ++ [⟨s.idx, s.list, c.load s.list s.idx⟩] }
      else none
  | .next => if s.phase = .body then some { s with phase := .head, idx := s.idx + 1 } else none
  | .leave => if s.phase = .body then some { s with phase := .left } else none
  | .finish => if s.phase = .head ∧ s.len ≤ s.idx then some { s with phase := .ended } else none

/-! ## What a loop is to do -/

/-- An integer or a truth value as the element of a list of integers. -/
def asInt : LlvmValue → Option (BitVec 32)
  | .i32 b => some b
  | .i1 b => some (b.setWidth 32)
  | .void | .i64 _ | .float _ | .double _ | .ptr _ => none

/-- The value is the element of the list at the index. -/
def Stores (l : DuxList) (i : Nat) (v : LlvmValue) : Prop :=
  match l.elemKind with
  | .i32 => ∃ b, l.data[i]? = some b ∧ asInt v = some b
  | .ptr => l.read i = some (Payload.boxToPtr v) ∧ v ≠ .void

/-- Rounds go through the indices in order, each with the list still there and a load from its
block, which yields the element that it has at that moment as far as that has the type of the
loop variable; and a loop that comes to its end has had a round for each index of the list it
started with. -/
structure Exact (c : Loop) (s : State) : Prop where
  ordered : ∀ (i : Nat) (v : Visit), s.visits[i]? = some v → v.index = i
  reads : ∀ v ∈ s.visits, ∃ l, v.list = some l ∧ v.index < l.len ∧ v.loaded ≠ none ∧
    ∀ value, value.type = c.varType → Stores l v.index value → v.loaded = some value
  bounded : s.visits.length ≤ s.len
  complete : s.phase = .ended → s.visits.length = s.len

def Act.released (w : World) : Act → Ptr
  | .release p => p
  | .assign x _ true _ => w.slots x
  | .delete x => w.slots x
  | _ => none

/-- The step does not give back the last count of the list while the loop goes on, and elements
are loaded as integers only from a list of integers. -/
def Meets (c : Loop) (s : State) : Label → Prop
  | .act a => s.phase = .body → a.released s.world = s.ptr →
      s.list.map DuxList.refcount ≠ some 1
  | .visit => c.fast = true → s.list.map DuxList.elemKind ≠ some .ptr
  | .enter _ | .next | .leave | .finish => True

instance (c : Loop) (s : State) : (label : Label) → Decidable (Meets c s label)
  | .act a => inferInstanceAs (Decidable (s.phase = .body → a.released s.world = s.ptr →
      s.list.map DuxList.refcount ≠ some 1))
  | .visit => inferInstanceAs (Decidable (c.fast = true →
      s.list.map DuxList.elemKind ≠ some .ptr))
  | .enter _ | .next | .leave | .finish => .isTrue trivial

def Loop.run (c : Loop) : State → List Label → Option State
  | s, [] => some s
  | s, label :: labels => (step c s label).bind (c.run · labels)

/-- Every step of a run meets the condition. -/
def Loop.RunMeets (c : Loop) : State → List Label → Prop
  | _, [] => True
  | s, label :: labels => Meets c s label ∧ ∀ s' ∈ step c s label, c.RunMeets s' labels

instance (c : Loop) : (s : State) → (labels : List Label) → Decidable (c.RunMeets s labels)
  | _, [] => .isTrue trivial
  | s, label :: labels =>
    have (s' : State) : Decidable (c.RunMeets s' labels) := instDecidableRunMeets c s' labels
    inferInstanceAs (Decidable (Meets c s label ∧ ∀ s' ∈ step c s label, c.RunMeets s' labels))

/-! ## What operations do to other lists -/

def World.Wf (w : World) : Prop := ∀ a l, w.list a = some l → l.Wf

/-- A later state of the memory, in which a list is still there, of its kind and no shorter. -/
structure World.Keeps (w w' : World) (p : Nat) : Prop where
  wf : w.Wf → w'.Wf
  kept : ∀ l, w.list p = some l → ∃ l', w'.list p = some l' ∧ l.Follows l'

namespace World

variable {w w' w'' : World} {p a : Nat} {q : Ptr}

theorem Keeps.refl (w : World) (p : Nat) : w.Keeps w p := ⟨id, fun l there => ⟨l, there, .refl l⟩⟩

theorem Keeps.trans (first : w.Keeps w' p) (second : w'.Keeps w'' p) : w.Keeps w'' p where
  wf := second.wf ∘ first.wf
  kept l there := by
    obtain ⟨l', there, follows⟩ := first.kept l there
    obtain ⟨l'', there, follows'⟩ := second.kept l' there
    exact ⟨l'', there, follows.trans follows'⟩

@[simp]
theorem list_store (x : Nat) : (w.store x q).list a = w.list a := rfl

theorem keeps_store (x : Nat) : w.Keeps (w.store x q) p :=
  ⟨id, fun l there => ⟨l, there, .refl l⟩⟩

theorem list_update {l : Option DuxList} {old : DuxList} (there : w.list a = some old) (b : Nat) :
    (w.update a l).list b = if b = a then l else w.list b := by
  have inside : a < w.lists.length := by
    by_contra beyond
    simp [list, List.getElem?_eq_none (Nat.le_of_not_lt beyond)] at there
  unfold list update
  by_cases same : b = a
  · subst same
    simp [inside]
  · have other : a ≠ b := Ne.symm same
    simp [same, other]

theorem list_alloc {l : DuxList} : (w.alloc l).list a =
    if a = w.lists.length then some l else w.list a := by
  unfold list alloc
  by_cases last : a = w.lists.length
  · simp [last]
  · rw [if_neg last]
    by_cases inside : a < w.lists.length
    · rw [List.getElem?_append_left inside]
    · rw [List.getElem?_eq_none (by simp; omega), List.getElem?_eq_none (by omega)]

theorem keeps_alloc {l : DuxList} (wf : l.Wf) : w.Keeps (w.alloc l) p where
  wf all b l' there := by
    rw [list_alloc] at there
    by_cases last : b = w.lists.length
    · rw [if_pos last] at there
      cases there
      exact wf
    · rw [if_neg last] at there
      exact all b l' there
  kept l' there := by
    have old : p ≠ w.lists.length := by
      rintro rfl
      simp [list] at there
    exact ⟨l', by rw [list_alloc, if_neg old, there], .refl l'⟩

theorem keeps_onList {f : DuxList → Option (Option DuxList)} (run : w.onList q f = some w')
    (follows : ∀ l l', f l = some (some l') → l.Follows l')
    (keeps : ∀ l, q = some p → w.list p = some l → f l ≠ some none) : w.Keeps w' p := by
  cases q with
  | none =>
    cases run
    exact .refl w p
  | some a =>
    obtain ⟨old, there, run⟩ := Option.bind_eq_some_iff.1 run
    obtain ⟨new, does, eq⟩ := Option.bind_eq_some_iff.1 run
    cases eq
    constructor
    · intro all b l isThere
      rw [list_update there] at isThere
      by_cases same : b = a
      · rw [if_pos same] at isThere
        subst isThere
        exact (follows old l does).wf (all a old there)
      · rw [if_neg same] at isThere
        exact all b l isThere
    · intro l isThere
      rw [list_update there]
      by_cases same : p = a
      · subst same
        obtain rfl : l = old := Option.some.inj (isThere.symm.trans there)
        cases new with
        | none => exact absurd does (keeps l rfl isThere)
        | some l' => exact ⟨l', if_pos rfl, follows l l' does⟩
      · exact ⟨l, by rw [if_neg same, isThere], .refl l⟩

theorem keeps_retain (run : w.retain q = some w') : w.Keeps w' p := by
  refine keeps_onList run ?_ (by simp)
  rintro l l' eq
  cases eq
  exact DuxList.follows_retain

theorem keeps_release (run : w.release q = some w')
    (counted : q = some p → ∀ l, w.list p = some l → l.refcount ≠ 1) : w.Keeps w' p := by
  refine keeps_onList run ?_ ?_
  · intro l l' releases
    have releases : duxrtListRelease l = some l' := Option.some.inj releases
    have many : l.refcount ≠ 1 := by
      intro last
      rw [duxrtListRelease, if_pos last] at releases
      cases releases
    obtain ⟨l'', eq, follows⟩ := DuxList.follows_release many
    obtain rfl : l' = l'' := Option.some.inj (releases.symm.trans eq)
    exact follows
  · intro l isPtr there releases
    have releases : duxrtListRelease l = none := Option.some.inj releases
    rw [duxrtListRelease, if_neg (counted isPtr l there)] at releases
    cases releases

theorem keeps_maybeRetain {isCall : Bool} (run : w.maybeRetain q isCall = some w') :
    w.Keeps w' p := by
  unfold maybeRetain at run
  cases isCall with
  | true =>
    cases run
    exact .refl w p
  | false => exact keeps_retain run

end World

theorem wf_foldlM_push {l l' : DuxList} {elems : List (BitVec 64)} (wf : l.Wf)
    (run : elems.foldlM duxrtListPush l = some l') : l'.Wf := by
  induction elems generalizing l with
  | nil =>
    cases run
    exact wf
  | cons v elems ih =>
    obtain ⟨l₁, push, run⟩ := Option.bind_eq_some_iff.1 run
    exact ih ((DuxList.follows_push push).wf wf) run

theorem wf_foldlM_pushI32 {l l' : DuxList} {elems : List (BitVec 32)} (isInts : l.elemKind = .i32)
    (wf : l.Wf) (run : elems.foldlM duxrtListPushI32 l = some l') : l'.Wf := by
  induction elems generalizing l with
  | nil =>
    cases run
    exact wf
  | cons v elems ih =>
    obtain ⟨l₁, push, run⟩ := Option.bind_eq_some_iff.1 run
    obtain ⟨isInts, wf⟩ := DuxList.wf_pushI32 isInts wf push
    exact ih isInts wf run

theorem Act.keeps {a : Act} {w w' : World} {p : Nat} (run : a.exec w = some w')
    (counted : a.released w = some p → ∀ l, w.list p = some l → l.refcount ≠ 1) :
    w.Keeps w' p := by
  cases a with
  | literal elems =>
    obtain ⟨l, made, eq⟩ := Option.bind_eq_some_iff.1 run
    cases eq
    exact World.keeps_alloc (wf_foldlM_push DuxList.wf_new made)
  | literalInts elems =>
    obtain ⟨l, made, eq⟩ := Option.bind_eq_some_iff.1 run
    cases eq
    exact World.keeps_alloc (wf_foldlM_pushI32 rfl DuxList.wf_newI32 made)
  | concat a b =>
    obtain ⟨la, -, run⟩ := Option.bind_eq_some_iff.1 run
    obtain ⟨lb, -, run⟩ := Option.bind_eq_some_iff.1 run
    obtain ⟨l, made, eq⟩ := Option.bind_eq_some_iff.1 run
    cases eq
    exact World.keeps_alloc (DuxList.wf_concat made)
  | push q val =>
    cases q with
    | none => cases run
    | some q =>
      have run : w.onList (some q) (fun l => (duxrtListPush l val).map some) = some w' := run
      refine World.keeps_onList run ?_ (by simp)
      intro l l' pushes
      obtain ⟨l'', push, eq⟩ := Option.map_eq_some_iff.1 pushes
      cases eq
      exact DuxList.follows_push push
  | set q idx val =>
    refine World.keeps_onList run ?_ ?_
    · intro l l' sets
      cases result : duxrtListSet l idx val with
      | none => simp [result] at sets
      | some access =>
        cases access with
        | thrown =>
          simp only [result, Option.some.injEq] at sets
          subst sets
          exact .refl l
        | done new =>
          simp only [result, Option.some.injEq] at sets
          subst sets
          exact DuxList.follows_set result
    · intro l _ _ frees
      cases result : duxrtListSet l idx val with
      | none => simp [result] at frees
      | some access => cases access <;> simp [result] at frees
  | retain q => exact World.keeps_retain run
  | release q => exact World.keeps_release run counted
  | declare x q isCall =>
    obtain ⟨w₁, retains, eq⟩ := Option.bind_eq_some_iff.1 run
    cases eq
    exact (World.keeps_maybeRetain retains).trans (World.keeps_store x)
  | assign x q isVar isCall =>
    obtain ⟨w₁, releases, run⟩ := Option.bind_eq_some_iff.1 run
    obtain ⟨w₂, retains, eq⟩ := Option.bind_eq_some_iff.1 run
    cases eq
    refine World.Keeps.trans ?_ ((World.keeps_maybeRetain retains).trans (World.keeps_store x))
    cases isVar with
    | true =>
      rw [World.releaseOld, if_pos rfl] at releases
      exact World.keeps_release releases counted
    | false =>
      cases releases
      exact .refl w p
  | delete x =>
    obtain ⟨w₁, releases, eq⟩ := Option.bind_eq_some_iff.1 run
    cases eq
    exact (World.keeps_release releases counted).trans (World.keeps_store x)


/-! ## The load of an element -/

theorem coerceToLlvmType_ptr (raw : BitVec 64) (t : LlvmType) :
    Numbers.coerceToLlvmType (.ptr raw) t = some (Payload.unboxFromPtr t raw) := by
  cases t <;> rfl

theorem unboxFromPtr_asInt {v : LlvmValue} {b : BitVec 32} (isInt : asInt v = some b) :
    Payload.unboxFromPtr v.type (b.setWidth 64) = v := by
  cases v with
  | i32 b' =>
    obtain rfl : b' = b := Option.some.inj isInt
    simp [Payload.unboxFromPtr, LlvmValue.type]
  | i1 b' =>
    obtain rfl : b'.setWidth 32 = b := Option.some.inj isInt
    simp [Payload.unboxFromPtr, LlvmValue.type]
  | _ => cases isInt

theorem coerceToLlvmType_asInt {v : LlvmValue} {b : BitVec 32} (isInt : asInt v = some b) :
    Numbers.coerceToLlvmType (.i32 b) v.type = some v := by
  cases v with
  | i32 b' =>
    obtain rfl : b' = b := Option.some.inj isInt
    rfl
  | i1 b' =>
    obtain rfl : b'.setWidth 32 = b := Option.some.inj isInt
    have cut : BitVec.ofInt 1 (b'.setWidth 32).toInt = b' := by
      rw [Payload.ofInt_toInt_eq_setWidth _ (by decide)]
      simp
    change some (LlvmValue.i1 (BitVec.ofInt 1 (b'.setWidth 32).toInt)) = _
    rw [cut]
  | _ => cases isInt

theorem Loop.load_eq {c : Loop} {l : DuxList} {i : Nat} {v : LlvmValue} (inside : i < l.len)
    (ints : c.fast = true → l.elemKind = .i32) (type : v.type = c.varType)
    (stores : Stores l i v) : c.load (some l) i = some v := by
  unfold Loop.load
  by_cases fast : c.fast = true
  · simp only [Stores, ints fast] at stores
    obtain ⟨b, there, isInt⟩ := stores
    rw [Option.bind_eq_bind, Option.bind_some, if_pos fast, there, ← type]
    exact coerceToLlvmType_asInt isInt
  · rw [Option.bind_eq_bind, Option.bind_some, if_neg fast, DuxList.get_eq inside]
    cases kind : l.elemKind with
    | i32 =>
      simp only [Stores, kind] at stores
      obtain ⟨b, there, isInt⟩ := stores
      simp only [DuxList.read, kind, there, Option.map_some, coerceToLlvmType_ptr, ← type,
        unboxFromPtr_asInt isInt]
    | ptr =>
      simp only [Stores, kind] at stores
      obtain ⟨there, notVoid⟩ := stores
      have notVoid : v.type ≠ .void := by
        cases v with
        | void => exact absurd rfl notVoid
        | _ => nofun
      simp only [there, Option.map_some, coerceToLlvmType_ptr, ← type,
        Payload.unboxFromPtr_boxToPtr v notVoid]

theorem Loop.load_ne_none {c : Loop} {l : DuxList} {i : Nat} (wf : l.Wf) (inside : i < l.len) :
    c.load (some l) i ≠ none := by
  unfold Loop.load
  by_cases fast : c.fast = true
  · obtain ⟨b, there⟩ := wf.unit inside
    rw [Option.bind_eq_bind, Option.bind_some, if_pos fast, there]
    cases c.varType <;> exact Option.some_ne_none _
  · obtain ⟨raw, there⟩ := wf.read inside
    rw [Option.bind_eq_bind, Option.bind_some, if_neg fast, DuxList.get_eq inside, there]
    simp [coerceToLlvmType_ptr]

theorem Act.wf {a : Act} {w w' : World} (run : a.exec w = some w') (wf : w.Wf) : w'.Wf := by
  have keeps : w.Keeps w' w.lists.length :=
    Act.keeps run fun _ l there => by simp [World.list] at there
  exact keeps.wf wf

/-! ## Runs -/

/-- While the loop goes on its list is there, no shorter than it was at the start, and there has
been a round for each index up to the current one. -/
structure Going (c : Loop) (s : State) : Prop where
  held : ∀ p, s.ptr = some p → ∃ l, s.world.list p = some l ∧ s.len ≤ l.len
  null : s.ptr = none → s.len = 0
  count : s.visits.length = if s.phase = .body then s.idx + 1 else s.idx
  bound : if s.phase = .body then s.idx < s.len else s.idx ≤ s.len

/-- What holds in every state. -/
structure Inv (c : Loop) (s : State) : Prop where
  wf : s.world.Wf
  exact : Exact c s
  fresh : s.phase = .before → s.visits = [] ∧ s.idx = 0
  going : s.phase = .head ∨ s.phase = .body → Going c s

theorem inv_start (c : Loop) : Inv c {} where
  wf a l there := by simp [World.list] at there
  exact := ⟨by simp, by simp, by simp, by simp⟩
  fresh _ := ⟨rfl, rfl⟩
  going := by simp

variable {c : Loop} {s s' : State}

theorem Inv.act {a : Act} (inv : Inv c s) (meets : Meets c s (.act a))
    (run : step c s (.act a) = some s') : Inv c s' := by
  simp only [step, Option.ite_none_right_eq_some, Option.map_eq_some_iff] at run
  obtain ⟨phase, w, exec, rfl⟩ := run
  obtain ⟨ordered, reads, bounded, complete⟩ := inv.exact
  refine ⟨Act.wf exec inv.wf, ⟨ordered, reads, bounded, complete⟩, inv.fresh, fun isGoing => ?_⟩
  have going := inv.going isGoing
  have isBody : s.phase = .body := by
    rcases phase with isBefore | isBody
    · rw [isBefore] at isGoing
      rcases isGoing with isHead | isBody
      · cases isHead
      · cases isBody
    · exact isBody
  refine ⟨fun p isPtr => ?_, going.null, going.count, going.bound⟩
  obtain ⟨l, there, room⟩ := going.held p isPtr
  have isList : s.list = some l := by rw [State.list, isPtr, Option.bind_some, there]
  have keeps : s.world.Keeps w p := by
    refine Act.keeps exec fun gives l' there' last => meets isBody (gives.trans isPtr.symm) ?_
    rw [isList, Option.map_some, ← last, Option.some.inj (there.symm.trans there')]
  obtain ⟨l', there', follows⟩ := keeps.kept l there
  exact ⟨l', there', room.trans follows.len⟩

theorem Inv.enter {p : Ptr} (inv : Inv c s) (run : step c s (.enter p) = some s') :
    Inv c s' := by
  simp only [step, Option.ite_none_right_eq_some, Option.map_eq_some_iff] at run
  obtain ⟨isBefore, l, there, rfl⟩ := run
  obtain ⟨noVisits, idx⟩ := inv.fresh isBefore
  refine ⟨inv.wf, ⟨?_, ?_, ?_, ?_⟩, nofun, fun _ => ⟨?_, ?_, ?_, ?_⟩⟩
  · simp [noVisits]
  · simp [noVisits]
  · simp [noVisits]
  · nofun
  · rintro a rfl
    obtain ⟨l, isThere, rfl⟩ := Option.map_eq_some_iff.1 there
    exact ⟨l, isThere, le_rfl⟩
  · rintro rfl
    cases there
    rfl
  · simp [noVisits, idx]
  · simp [idx]

theorem Inv.visit (inv : Inv c s) (meets : Meets c s .visit)
    (run : step c s .visit = some s') : Inv c s' := by
  simp only [step, Option.ite_none_right_eq_some, Option.some.injEq] at run
  obtain ⟨⟨isHead, more⟩, rfl⟩ := run
  have going := inv.going (.inl isHead)
  have count : s.visits.length = s.idx := by simpa [isHead] using going.count
  obtain ⟨p, isPtr⟩ : ∃ p, s.ptr = some p := by
    cases isPtr : s.ptr with
    | none => exact absurd more (by rw [going.null isPtr]; exact Nat.not_lt_zero _)
    | some p => exact ⟨p, rfl⟩
  obtain ⟨l, there, room⟩ := going.held p isPtr
  have isList : s.list = some l := by rw [State.list, isPtr, Option.bind_some, there]
  have inside : s.idx < l.len := more.trans_le room
  refine ⟨inv.wf, ⟨?_, ?_, ?_, nofun⟩, nofun, fun _ => ⟨going.held, going.null, ?_, more⟩⟩
  · intro i v visited
    by_cases old : i < s.visits.length
    · rw [List.getElem?_append_left old] at visited
      exact inv.exact.ordered i v visited
    · rw [List.getElem?_append_right (Nat.le_of_not_lt old)] at visited
      obtain ⟨last, rfl⟩ := List.getElem?_eq_some_iff.1 visited
      simp at last ⊢
      omega
  · intro v visited
    rcases List.mem_append.1 visited with old | new
    · exact inv.exact.reads v old
    · obtain rfl := List.mem_singleton.1 new
      refine ⟨l, isList, inside, ?_, fun value type stores => ?_⟩
      · rw [isList]
        exact Loop.load_ne_none (inv.wf p l there) inside
      · rw [isList]
        refine Loop.load_eq inside (fun fast => ?_) type stores
        have notPtr := meets fast
        rw [isList, Option.map_some] at notPtr
        cases kind : l.elemKind with
        | i32 => rfl
        | ptr => exact absurd (congrArg some kind) notPtr
  · simp [count]
    omega
  · simp [count]

theorem Inv.next (inv : Inv c s) (run : step c s .next = some s') : Inv c s' := by
  simp only [step, Option.ite_none_right_eq_some, Option.some.injEq] at run
  obtain ⟨isBody, rfl⟩ := run
  have going := inv.going (.inr isBody)
  have count : s.visits.length = s.idx + 1 := by simpa [isBody] using going.count
  have bound : s.idx < s.len := by simpa [isBody] using going.bound
  obtain ⟨ordered, reads, bounded, -⟩ := inv.exact
  exact ⟨inv.wf, ⟨ordered, reads, bounded, nofun⟩, nofun,
    fun _ => ⟨going.held, going.null, count, bound⟩⟩

theorem Inv.leave (inv : Inv c s) (run : step c s .leave = some s') : Inv c s' := by
  simp only [step, Option.ite_none_right_eq_some, Option.some.injEq] at run
  obtain ⟨-, rfl⟩ := run
  obtain ⟨ordered, reads, bounded, -⟩ := inv.exact
  exact ⟨inv.wf, ⟨ordered, reads, bounded, nofun⟩, nofun, nofun⟩

theorem Inv.finish (inv : Inv c s) (run : step c s .finish = some s') : Inv c s' := by
  simp only [step, Option.ite_none_right_eq_some, Option.some.injEq] at run
  obtain ⟨⟨isHead, isEnd⟩, rfl⟩ := run
  have going := inv.going (.inl isHead)
  have count : s.visits.length = s.idx := by simpa [isHead] using going.count
  obtain ⟨ordered, reads, bounded, -⟩ := inv.exact
  exact ⟨inv.wf, ⟨ordered, reads, bounded, fun _ => le_antisymm bounded (count ▸ isEnd)⟩,
    nofun, nofun⟩

theorem Inv.step {label : Label} (inv : Inv c s) (meets : Meets c s label)
    (run : step c s label = some s') : Inv c s' := by
  cases label with
  | act a => exact inv.act meets run
  | enter p => exact inv.enter run
  | visit => exact inv.visit meets run
  | next => exact inv.next run
  | leave => exact inv.leave run
  | finish => exact inv.finish run

theorem Inv.run {labels : List Label} (inv : Inv c s) (meets : c.RunMeets s labels)
    (run : c.run s labels = some s') : Inv c s' := by
  induction labels generalizing s with
  | nil =>
    cases run
    exact inv
  | cons label labels ih =>
    obtain ⟨s₁, first, run⟩ := Option.bind_eq_some_iff.1 run
    exact ih (inv.step meets.1 first) (meets.2 s₁ first) run

/-! ## The result -/

/-- In every run of which no step gives back the last count of the list while the loop goes on,
and that loads elements as integers only from lists of integers, the loop has a round for each
index in order and each loads the element of that moment. -/
theorem exact_of_run {labels : List Label} (meets : c.RunMeets {} labels)
    (run : c.run {} labels = some s) : Exact c s := ((inv_start c).run meets run).exact

/-- `for (int x in xs)` over a variable that holds a list of integers. -/
def overInts : Loop := { typed := [("xs", 1)], iterable := .ident TID_LIST "xs", varType := .i32 }

/-- `xs[1] = 5` in the first round over `[7, 9]`. -/
def assignsAhead : List Label :=
  [.act (.literalInts [7, 9]), .act (.declare 0 (some 0) true), .enter (some 0), .visit,
    .act (.set (some 0) 1 5), .next, .visit, .next, .finish]

theorem exact_of_run_assignsAhead : ∃ s, overInts.run {} assignsAhead = some s ∧
    s.visits.map Visit.loaded = [some (.i32 7), some (.i32 5)] ∧ Exact overInts s := by
  have loads : (overInts.run {} assignsAhead).map (·.visits.map Visit.loaded) =
      some [some (.i32 7), some (.i32 5)] := by decide +kernel
  obtain ⟨s, run, loads⟩ := Option.map_eq_some_iff.1 loads
  exact ⟨s, run, loads, exact_of_run (by decide +kernel) run⟩

/-- `delete xs` in the first round. -/
def deletesList : List Label :=
  [.act (.literalInts [7, 9]), .act (.declare 0 (some 0) true), .enter (some 0), .visit,
    .act (.delete 0), .next, .visit]

/-- The loop goes on with the freed list. -/
theorem not_exact_deletesList :
    ¬∀ (c : Loop) (labels : List Label) (s : State), c.run {} labels = some s → Exact c s := by
  intro allExact
  have freed : (overInts.run {} deletesList).map (·.visits[1]?) = some (some ⟨1, none, none⟩) := by
    decide +kernel
  obtain ⟨s, run, visited⟩ := Option.map_eq_some_iff.1 freed
  obtain ⟨l, there, -⟩ := (allExact overInts deletesList s run).reads _
    (List.mem_of_getElem? visited)
  cases there

end Dux.Codegen.ListLoops
