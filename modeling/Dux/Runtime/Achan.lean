import Dux.Logic.Ring
import Dux.Runtime.Channel

/-!
# Asynchronous channels

`src/runtime/achan_rt.c`: a ring buffer of fixed capacity behind a lock, with calls that block
and calls that do not.
-/

namespace Dux.Runtime.Achan

open Logic.Monitor
open Channel (Cond Request Reply Queue Delivers)

variable {α τ : Type} [Inhabited α] [DecidableEq τ]

/-- `AchanBuf`, with the lock left out.  The default value of `α` stands for `NULL`. -/
structure AchanBuf (α : Type) where
  buf : List α
  cap : Nat
  head : Nat := 0
  tail : Nat := 0
  len : Nat := 0
  closed : Bool := false

def capacity (cap : Int) : Nat := if cap ≤ 0 then 1 else cap.toNat

def duxrtAchanNew (cap : Int) : AchanBuf α where
  buf := List.replicate (capacity cap) default
  cap := capacity cap

namespace AchanBuf

/-- The end of both sends. -/
def enqueue (c : AchanBuf α) (val : α) : Outcome (AchanBuf α) Cond (Reply α) :=
  .done .accepted
    { c with buf := c.buf.set c.head val, head := (c.head + 1) % c.cap, len := c.len + 1 }
    [.one .notEmpty]

/-- The end of both receives. -/
def dequeue (c : AchanBuf α) : Outcome (AchanBuf α) Cond (Reply α) :=
  .done (.got (c.buf.getD c.tail default))
    { c with tail := (c.tail + 1) % c.cap, len := c.len - 1 } [.one .notFull]

end AchanBuf

def duxrtAchanClose (c : AchanBuf α) : Outcome (AchanBuf α) Cond (Reply α) :=
  .done .done { c with closed := true } [.all .notEmpty, .all .notFull]

def duxrtAchanTrySend (c : AchanBuf α) (val : α) : Outcome (AchanBuf α) Cond (Reply α) :=
  if c.closed ∨ c.cap ≤ c.len then .done .refused c [] else c.enqueue val

def duxrtAchanTryRecv (c : AchanBuf α) : Outcome (AchanBuf α) Cond (Reply α) :=
  if c.len = 0 then .done .empty c [] else c.dequeue

def duxrtAchanSend (c : AchanBuf α) (val : α) : Outcome (AchanBuf α) Cond (Reply α) :=
  if c.closed = false ∧ c.cap ≤ c.len then .wait .notFull
  else if c.closed = false then c.enqueue val
  else .done .refused c []

def duxrtAchanRecv (c : AchanBuf α) : Outcome (AchanBuf α) Cond (Reply α) :=
  if c.len = 0 ∧ c.closed = false then .wait .notEmpty
  else if c.len = 0 then .done .closed c []
  else c.dequeue

def enter (c : AchanBuf α) : Request α → Outcome (AchanBuf α) Cond (Reply α)
  | .send val => duxrtAchanSend c val
  | .trySend val => duxrtAchanTrySend c val
  | .recv => duxrtAchanRecv c
  | .tryRecv => duxrtAchanTryRecv c
  | .close => duxrtAchanClose c
  | .isClosed => .done (.flag c.closed) c []
  | .len => .done (.size c.len) c []

/-- Threads that call the functions of one channel. -/
def system : System (AchanBuf α) Unit (Request α) Cond (Reply α) :=
  Channel.system fun c call out => out = enter c call

abbrev Config (τ α : Type) := Channel.Config τ (AchanBuf α) α

/-- A state that the threads can reach with a new channel of that capacity. -/
def Reaches (cap : Int) (a : Config τ α) : Prop :=
  Runs system (Channel.begin (duxrtAchanNew cap)) a

/-! ## The ring buffer is a queue -/

structure Represents (n : Nat) (c : AchanBuf α) (q : Queue α) : Prop where
  cap : c.cap = n
  size : c.buf.length = n
  holds : Logic.Ring.Holds c.buf c.tail q.items
  len : c.len = q.items.length
  head : c.head = (c.tail + c.len) % n
  closed : c.closed = q.closed

theorem represents_new (cap : Int) :
    Represents (capacity cap) (duxrtAchanNew cap : AchanBuf α) {} := by
  have positive : 0 < capacity cap := by
    unfold capacity
    split <;> omega
  have size : (duxrtAchanNew cap : AchanBuf α).buf.length = capacity cap := List.length_replicate
  constructor
  · rfl
  · exact size
  · apply Logic.Ring.holds_nil
    rw [size]
    exact positive
  · rfl
  · exact (Nat.zero_mod _).symm
  · rfl

section Steps

variable {n : Nat} {c : AchanBuf α} {q : Queue α}

omit [Inhabited α] in
theorem Represents.full_iff (represents : Represents n c q) :
    Channel.Full (some n) q.items ↔ c.cap ≤ c.len := by
  rw [represents.len, represents.cap]
  constructor
  · rintro ⟨m, same, full⟩
    cases same
    exact full
  · exact fun full => ⟨n, rfl, full⟩

omit [Inhabited α] in
theorem Represents.enqueue (represents : Represents n c q)
    (room : ¬Channel.Full (some n) q.items) (v : α) : (c.enqueue v).Same (Represents n)
      (.done .accepted { q with items := q.items ++ [v] } [.one .notEmpty]) := by
  have free : q.items.length < c.buf.length := by
    rw [represents.size]
    exact Nat.lt_of_not_le fun full => room ⟨n, rfl, full⟩
  have slot : c.head = (c.tail + q.items.length) % c.buf.length := by
    rw [represents.head, represents.len, represents.size]
  apply Outcome.Same.done
  constructor
  · exact represents.cap
  · exact List.length_set.trans represents.size
  · rw [slot]
    exact represents.holds.push free v
  · rw [List.length_append, List.length_singleton, represents.len]
  · rw [represents.cap, represents.head, Nat.mod_add_mod]
    rfl
  · exact represents.closed

theorem Represents.dequeue (represents : Represents n c q) {v : α} {rest : List α}
    (items : q.items = v :: rest) : (c.dequeue).Same (Represents n)
      (.done (.got v) { q with items := rest } [.one .notFull]) := by
  have holds := represents.holds
  rw [items] at holds
  have value : c.buf.getD c.tail default = v := by
    rw [List.getD_eq_getElem?_getD, holds.first]
    rfl
  have length := represents.len
  rw [items, List.length_cons] at length
  unfold AchanBuf.dequeue
  rw [value]
  apply Outcome.Same.done
  constructor
  · exact represents.cap
  · exact represents.size
  · have behind := holds.pop
    rw [represents.size] at behind
    rw [represents.cap]
    exact behind
  · dsimp only
    omega
  · dsimp only
    rw [represents.cap, represents.head, Nat.mod_add_mod, length]
    congr 1
    omega
  · exact represents.closed

omit [Inhabited α] in
theorem Represents.empty_iff (represents : Represents n c q) : c.len = 0 ↔ q.items = [] := by
  rw [represents.len, List.length_eq_zero_iff]

theorem Represents.enters (represents : Represents n c q) (o : Request α) :
    ∃ out, Channel.Enters (some n) False q o out ∧ (enter c o).Same (Represents n) out := by
  have same (r : Reply α) : (Outcome.done (κ := Cond) r c []).Same (Represents n)
      (.done r q []) := .done [] represents
  cases o with
  | send v =>
    rw [enter, duxrtAchanSend]
    by_cases isOpen : c.closed = false
    · have open' := represents.closed.symm.trans isOpen
      by_cases full : c.cap ≤ c.len
      · rw [if_pos ⟨isOpen, full⟩]
        exact ⟨_, .block open' (represents.full_iff.2 full), .wait _⟩
      · rw [if_neg fun both => full both.2, if_pos isOpen]
        have room := fun isFull => full (represents.full_iff.1 isFull)
        exact ⟨_, .accept open' room, represents.enqueue room v⟩
    · rw [if_neg fun both => isOpen both.1, if_neg isOpen]
      rw [Bool.not_eq_false] at isOpen
      exact ⟨_, .refuse (represents.closed.symm.trans isOpen), same _⟩
  | trySend v =>
    rw [enter, duxrtAchanTrySend]
    by_cases isNot : c.closed = true ∨ c.cap ≤ c.len
    · rw [if_pos isNot]
      exact ⟨_, .refuseNow (isNot.imp represents.closed.symm.trans represents.full_iff.2), same _⟩
    · rw [if_neg isNot]
      obtain ⟨isOpen, full⟩ := not_or.1 isNot
      rw [Bool.not_eq_true] at isOpen
      have room := fun isFull => full (represents.full_iff.1 isFull)
      exact ⟨_, .acceptNow (represents.closed.symm.trans isOpen) room, represents.enqueue room v⟩
  | recv =>
    rw [enter, duxrtAchanRecv]
    cases items : q.items with
    | nil =>
      have empty := represents.empty_iff.2 items
      by_cases isOpen : c.closed = false
      · rw [if_pos ⟨empty, isOpen⟩]
        exact ⟨_, .starve (represents.closed.symm.trans isOpen) items, .wait _⟩
      · rw [if_neg fun both => isOpen both.2, if_pos empty]
        rw [Bool.not_eq_false] at isOpen
        exact ⟨_, .finish (represents.closed.symm.trans isOpen) items, same _⟩
    | cons v rest =>
      have some' : c.len ≠ 0 := fun empty => by simp [represents.empty_iff.1 empty] at items
      rw [if_neg fun both => some' both.1, if_neg some']
      exact ⟨_, .take items, represents.dequeue items⟩
  | tryRecv =>
    rw [enter, duxrtAchanTryRecv]
    cases items : q.items with
    | nil =>
      rw [if_pos (represents.empty_iff.2 items)]
      exact ⟨_, .nothing items, same _⟩
    | cons v rest =>
      have some' : c.len ≠ 0 := fun empty => by simp [represents.empty_iff.1 empty] at items
      rw [if_neg some']
      exact ⟨_, .takeNow items, represents.dequeue items⟩
  | close =>
    refine ⟨_, .close, .done _ ?_⟩
    exact ⟨represents.cap, represents.size, represents.holds, represents.len, represents.head, rfl⟩
  | isClosed =>
    refine ⟨_, .isClosed, ?_⟩
    rw [← represents.closed]
    exact same _
  | len =>
    refine ⟨_, .len, ?_⟩
    rw [← represents.len]
    exact same _

end Steps

/-! ## Every interleaving -/

structure Correct (cap : Int) (a : Config τ α) : Prop extends Delivers a.log where
  bounded : a.shared.len ≤ capacity cap
  indices : a.shared.head = (a.shared.tail + a.shared.len) % capacity cap
  awake : ∀ t c p o, a.threads t = .asleep c p o → (∀ c', enter a.shared o ≠ .wait c') →
    ∃ t' p' o', a.threads t' = .woken c p' o'

variable [Fintype τ]

theorem correct_of_reaches {cap : Int} {a : Config τ α} (reaches : Reaches cap a) :
    Correct cap a := by
  obtain ⟨q, represents, runs⟩ := Runs.simulate
    (Channel.system (Channel.Enters (some (capacity cap)) False)) (Represents _)
    (fun c q o out represents same => same ▸ represents.enters o)
    (fun _ o _ => Channel.exists_enters _ _ o) rfl reaches (represents_new cap)
  have kept : Channel.Kept (some (capacity cap)) q a.log :=
    Runs.data runs Channel.kept_start fun _ _ _ _ _ _ _ kept enters => kept.done enters
  have receivers := (Channel.paced_notEmpty False).attended runs (attended_start _ _)
  have senders := Channel.paced_notFull.attended runs (attended_start _ _)
  refine ⟨kept.toDelivers, ?_, represents.head, ?_⟩
  · rw [represents.len]
    exact kept.bounded _ rfl
  · intro t c p o asleep couldGoOn
    cases c with
    | notEmpty =>
      obtain rfl := receivers.waiters t o ⟨p, .inl asleep⟩
      apply receivers.awake ⟨t, p, _, asleep⟩
      intro none
      obtain ⟨isOpen, items⟩ := Channel.starved_of_values none
      apply couldGoOn .notEmpty
      rw [enter, duxrtAchanRecv,
        if_pos ⟨represents.empty_iff.2 items, represents.closed.trans isOpen⟩]
    | notFull =>
      obtain ⟨v, rfl⟩ := senders.waiters t o ⟨p, .inl asleep⟩
      apply senders.awake ⟨t, p, _, asleep⟩
      intro none
      obtain ⟨isOpen, full⟩ := Channel.full_of_room none
      apply couldGoOn .notFull
      rw [enter, duxrtAchanSend, if_pos]
      exact ⟨represents.closed.trans isOpen, represents.full_iff.1 ⟨_, rfl, full⟩⟩

/-- A thread sends a value and receives it. -/
theorem correct_sent : ∃ a : Config Unit Nat,
    a.log = [((), .send 7, .accepted), ((), .recv, .got 7)] ∧ Correct 1 a := by
  have start : Reaches 1 (Channel.begin (duxrtAchanNew 1) : Config Unit Nat) := .refl
  have sent := Runs.perform start () (o := .send 7) ⟨duxrtAchanNew 1, _, rfl⟩ rfl
  have reaches := Runs.perform sent () (o := .recv) ⟨duxrtAchanNew 1, _, rfl⟩ rfl
  exact ⟨_, rfl, correct_of_reaches reaches⟩

end Dux.Runtime.Achan
