import Dux.Logic.LinkedQueue
import Dux.Runtime.Channel

/-!
# Thread channels

The channels of `src/runtime/thread_rt.c`: a linked queue behind a lock.  A capacity that is
not positive stands for no bound.
-/

namespace Dux.Runtime.ThreadChan

open Logic.Monitor Logic.LinkedQueue
open Channel (Cond Request Reply Queue Delivers accepted received)

variable {α τ : Type} [DecidableEq τ]

/-- `DuxChan`, with the lock left out. -/
structure DuxChan (α : Type) extends Links α where
  len : Nat := 0
  cap : Int
  closed : Bool := false

def duxrtChanNew (cap : Int) : DuxChan α where
  cap := cap

/-- `duxrt_chan_send`, where `node` is what `malloc` returns. -/
def duxrtChanSend (node : Option Nat) (c : DuxChan α) (val : α) :
    Outcome (DuxChan α) Cond (Reply α) :=
  if 0 < c.cap ∧ c.cap ≤ c.len ∧ c.closed = false then .wait .notFull
  else if c.closed then .done .refused c []
  else match node with
    | none => .done .refused c []
    | some node =>
        .done .accepted { c with toLinks := c.toLinks.append node val, len := c.len + 1 }
          [.one .notEmpty]

/-- `duxrt_chan_recv`.  The last case is that of a null `head`. -/
def duxrtChanRecv (c : DuxChan α) : Outcome (DuxChan α) Cond (Reply α) :=
  if c.head = none ∧ c.closed = false then .wait .notEmpty
  else match c.removeFirst with
    | some (val, links) =>
        .done (.got val) { c with toLinks := links, len := c.len - 1 } [.one .notFull]
    | none => .done .closed c []

def duxrtChanTryRecv (c : DuxChan α) : Outcome (DuxChan α) Cond (Reply α) :=
  match c.removeFirst with
  | some (val, links) =>
      .done (.got val) { c with toLinks := links, len := c.len - 1 } [.one .notFull]
  | none => .done (if c.closed then .closed else .empty) c []

def duxrtChanClose (c : DuxChan α) : Outcome (DuxChan α) Cond (Reply α) :=
  .done .done { c with closed := true } [.all .notEmpty, .all .notFull]

/-- What a call does under the lock.  `malloc` fails or returns memory that is not in use. -/
inductive Enters (c : DuxChan α) : Request α → Outcome (DuxChan α) Cond (Reply α) → Prop
  | send (node : Option Nat) (val : α) (malloc : ∀ a, node = some a → c.cells a = none) :
      Enters c (.send val) (duxrtChanSend node c val)
  | recv : Enters c .recv (duxrtChanRecv c)
  | tryRecv : Enters c .tryRecv (duxrtChanTryRecv c)
  | close : Enters c .close (duxrtChanClose c)
  | isClosed : Enters c .isClosed (.done (.flag c.closed) c [])
  | len : Enters c .len (.done (.size c.len) c [])

abbrev Config (τ α : Type) := Channel.Config τ (DuxChan α) α

/-- A state that the threads can reach with a new channel of that capacity. -/
def Reaches (cap : Int) (a : Config τ α) : Prop :=
  Runs (Channel.system Enters) (Channel.begin (duxrtChanNew cap)) a

/-! ## The linked list is a queue -/

/-- The bound that a capacity stands for. -/
def boundOf (cap : Int) : Option Nat := if 0 < cap then some cap.toNat else none

structure Represents (cap : Int) (c : DuxChan α) (q : Queue α) : Prop where
  cap : c.cap = cap
  holds : ∃ cs, Holds c.toLinks cs ∧ cs.map Prod.snd = q.items
  len : c.len = q.items.length
  closed : c.closed = q.closed

theorem represents_new (cap : Int) : Represents cap (duxrtChanNew cap : DuxChan α) {} :=
  ⟨rfl, lists_nil, rfl, rfl⟩

theorem full_iff {cap : Int} {items : List α} :
    Channel.Full (boundOf cap) items ↔ 0 < cap ∧ cap ≤ items.length := by
  unfold boundOf
  split
  · next positive =>
    constructor
    · rintro ⟨n, same, full⟩
      cases same
      exact ⟨positive, Int.toNat_le.1 full⟩
    · exact fun both => ⟨_, rfl, Int.toNat_le.2 both.2⟩
  · next none =>
    constructor
    · rintro ⟨n, same, -⟩
      cases same
    · exact fun both => absurd both.1 none

section Steps

variable {cap : Int} {c : DuxChan α} {q : Queue α}

theorem Represents.waits_iff (represents : Represents cap c q) :
    0 < c.cap ∧ c.cap ≤ c.len ∧ c.closed = false ↔
      Channel.Full (boundOf cap) q.items ∧ q.closed = false := by
  rw [full_iff, represents.cap, represents.len, represents.closed, and_assoc]

theorem Represents.append (represents : Represents cap c q) {node : Nat}
    (fresh : c.cells node = none) (v : α) :
    Represents cap { c with toLinks := c.toLinks.append node v, len := c.len + 1 }
      { q with items := q.items ++ [v] } := by
  constructor
  · exact represents.cap
  · exact Lists.append represents.holds fresh v
  · rw [List.length_append, represents.len]
    rfl
  · exact represents.closed

theorem Represents.removeFirst (represents : Represents cap c q) {v : α} {rest : List α}
    (items : q.items = v :: rest) : ∃ links, c.removeFirst = some (v, links) ∧
      Represents cap { c with toLinks := links, len := c.len - 1 } { q with items := rest } := by
  have lists : Lists c.toLinks (v :: rest) := items ▸ represents.holds
  obtain ⟨links, removed, lists'⟩ := lists.removeFirst
  refine ⟨links, removed, represents.cap, lists', ?_, represents.closed⟩
  rw [represents.len, items]
  rfl

theorem Represents.head_eq_none_iff (represents : Represents cap c q) :
    c.head = none ↔ q.items = [] :=
  Lists.head_eq_none_iff represents.holds

theorem Represents.removeFirst_of_nil (represents : Represents cap c q) (items : q.items = []) :
    c.removeFirst = none :=
  Holds.removeFirst_of_none (represents.head_eq_none_iff.2 items)

theorem Represents.enters (represents : Represents cap c q) {o : Request α}
    {out : Outcome (DuxChan α) Cond (Reply α)} (enters : Enters c o out) :
    ∃ out', Channel.Enters (boundOf cap) True q o out' ∧ out.Same (Represents cap) out' := by
  have same (r : Reply α) : (Outcome.done (κ := Cond) r c []).Same (Represents cap)
      (.done r q []) := .done [] represents
  have closed := represents.closed
  cases enters with
  | send node v malloc =>
    unfold duxrtChanSend
    by_cases waits : 0 < c.cap ∧ c.cap ≤ c.len ∧ c.closed = false
    · rw [if_pos waits]
      obtain ⟨full, isOpen⟩ := represents.waits_iff.1 waits
      exact ⟨_, .block isOpen full, .wait _⟩
    · rw [if_neg waits]
      by_cases isClosed : c.closed = true
      · rw [if_pos isClosed]
        exact ⟨_, .refuse (closed.symm.trans isClosed), same _⟩
      · rw [if_neg isClosed]
        rw [Bool.not_eq_true] at isClosed
        have isOpen := closed.symm.trans isClosed
        have room full := waits (represents.waits_iff.2 ⟨full, isOpen⟩)
        cases node with
        | none => exact ⟨_, .outOfMemory trivial, same _⟩
        | some a => exact ⟨_, .accept isOpen room, .done _ (represents.append (malloc a rfl) v)⟩
  | recv =>
    unfold duxrtChanRecv
    cases items : q.items with
    | nil =>
      have empty := represents.head_eq_none_iff.2 items
      by_cases isOpen : c.closed = false
      · rw [if_pos ⟨empty, isOpen⟩]
        exact ⟨_, .starve (closed.symm.trans isOpen) items, .wait _⟩
      · rw [if_neg fun both => isOpen both.2, represents.removeFirst_of_nil items]
        rw [Bool.not_eq_false] at isOpen
        exact ⟨_, .finish (closed.symm.trans isOpen) items, same _⟩
    | cons v rest =>
      have some' : c.head ≠ none := fun empty => by
        simp [represents.head_eq_none_iff.1 empty] at items
      obtain ⟨links, removed, represents'⟩ := represents.removeFirst items
      rw [if_neg fun both => some' both.1, removed]
      exact ⟨_, .take items, .done _ represents'⟩
  | tryRecv =>
    unfold duxrtChanTryRecv
    cases items : q.items with
    | nil =>
      rw [represents.removeFirst_of_nil items]
      by_cases isClosed : c.closed = true
      · dsimp only
        rw [if_pos isClosed]
        exact ⟨_, .finishNow (closed.symm.trans isClosed) items, same _⟩
      · dsimp only
        rw [if_neg isClosed]
        exact ⟨_, .nothing items, same _⟩
    | cons v rest =>
      obtain ⟨links, removed, represents'⟩ := represents.removeFirst items
      rw [removed]
      exact ⟨_, .takeNow items, .done _ represents'⟩
  | close =>
    refine ⟨_, .close, .done _ ?_⟩
    exact ⟨represents.cap, represents.holds, represents.len, rfl⟩
  | isClosed =>
    rw [closed]
    exact ⟨_, .isClosed, same _⟩
  | len =>
    rw [represents.len]
    exact ⟨_, .len, same _⟩

end Steps

/-! ## Every interleaving -/

/-- What is to hold in every state: besides the order, the list holds what has been accepted
and not yet received. -/
structure Correct (cap : Int) (a : Config τ α) : Prop extends Delivers a.log where
  list : ∃ cs, Holds a.shared.toLinks cs ∧ a.shared.len = cs.length ∧
    accepted a.log = received a.log ++ cs.map Prod.snd
  bounded : 0 < cap → a.shared.len ≤ cap

theorem inOrder_of_reaches {cap : Int} {a : Config τ α} (reaches : Reaches cap a) :
    Correct cap a := by
  obtain ⟨q, represents, runs⟩ := Runs.simulate
    (Channel.system (Channel.Enters (boundOf cap) True)) (Represents _)
    (fun c q o out represents enters => represents.enters enters)
    (fun _ o _ => Channel.exists_enters _ _ o) rfl reaches (represents_new cap)
  have kept : Channel.Kept (boundOf cap) q a.log :=
    Runs.data runs Channel.kept_start fun _ _ _ _ _ _ _ kept enters => kept.done enters
  obtain ⟨cs, holds, values⟩ := represents.holds
  refine ⟨kept.toDelivers, ⟨cs, holds, ?_, ?_⟩, ?_⟩
  · rw [represents.len, ← values, List.length_map]
  · rw [values]
    exact kept.conserved
  · intro positive
    rw [represents.len]
    have fits := kept.bounded cap.toNat (if_pos positive)
    exact Int.le_toNat (Int.le_of_lt positive) |>.1 fits

/-- A thread sends a value and receives it. -/
theorem inOrder_sent : ∃ a : Config Unit Nat,
    a.log = [((), .send 7, .accepted), ((), .recv, .got 7)] ∧ Correct 0 a := by
  have start : Reaches 0 (Channel.begin (duxrtChanNew 0) : Config Unit Nat) := .refl
  have fresh : Enters (duxrtChanNew 0) (.send 7) (duxrtChanSend (some 1) (duxrtChanNew 0) 7) :=
    .send (some 1) 7 fun _ _ => rfl
  have sent := Runs.perform start () ⟨_, _, fresh⟩ fresh
  have reaches := Runs.perform sent () (o := .recv) ⟨duxrtChanNew 0, _, .recv⟩ .recv
  exact ⟨_, rfl, inOrder_of_reaches reaches⟩

end Dux.Runtime.ThreadChan
