import Dux.Logic.Monitor

/-!
# Channels

What the two kinds of channel of the runtime are for: a queue of values with or without a
bound, that can be closed.  The ring buffers of `src/runtime/achan_rt.c` and the linked queues
of `src/runtime/thread_rt.c` both do what this queue does.
-/

namespace Dux.Runtime.Channel

open Logic.Monitor

inductive Cond
  | notEmpty
  | notFull
  deriving DecidableEq

inductive Request (α : Type)
  | send (val : α)
  | trySend (val : α)
  | recv
  | tryRecv
  | close
  | isClosed
  | len

/-- What a call comes to.  A value that was received is told apart from the end. -/
inductive Reply (α : Type)
  | accepted
  | refused
  | got (val : α)
  | empty
  | closed
  | done
  | flag (b : Bool)
  | size (n : Nat)

structure Queue (α : Type) where
  items : List α := []
  closed : Bool := false

variable {α τ : Type}

/-- Whether there is no room left. -/
def Full (bound : Option Nat) (items : List α) : Prop := ∃ n, bound = some n ∧ n ≤ items.length

inductive Enters (bound : Option Nat) (failing : Prop) :
    Queue α → Request α → Outcome (Queue α) Cond (Reply α) → Prop
  | accept {q : Queue α} {v : α} (isOpen : q.closed = false) (room : ¬Full bound q.items) :
      Enters bound failing q (.send v)
        (.done .accepted { q with items := q.items ++ [v] } [.one .notEmpty])
  | acceptNow {q : Queue α} {v : α} (isOpen : q.closed = false) (room : ¬Full bound q.items) :
      Enters bound failing q (.trySend v)
        (.done .accepted { q with items := q.items ++ [v] } [.one .notEmpty])
  | block {q : Queue α} {v : α} (isOpen : q.closed = false) (full : Full bound q.items) :
      Enters bound failing q (.send v) (.wait .notFull)
  | refuse {q : Queue α} {v : α} (isClosed : q.closed = true) :
      Enters bound failing q (.send v) (.done .refused q [])
  | refuseNow {q : Queue α} {v : α} (isNot : q.closed = true ∨ Full bound q.items) :
      Enters bound failing q (.trySend v) (.done .refused q [])
  | outOfMemory {q : Queue α} {v : α} (fails : failing) :
      Enters bound failing q (.send v) (.done .refused q [])
  | take {q : Queue α} {v : α} {rest : List α} (items : q.items = v :: rest) :
      Enters bound failing q .recv (.done (.got v) { q with items := rest } [.one .notFull])
  | takeNow {q : Queue α} {v : α} {rest : List α} (items : q.items = v :: rest) :
      Enters bound failing q .tryRecv (.done (.got v) { q with items := rest } [.one .notFull])
  | starve {q : Queue α} (isOpen : q.closed = false) (items : q.items = []) :
      Enters bound failing q .recv (.wait .notEmpty)
  | finish {q : Queue α} (isClosed : q.closed = true) (items : q.items = []) :
      Enters bound failing q .recv (.done .closed q [])
  | finishNow {q : Queue α} (isClosed : q.closed = true) (items : q.items = []) :
      Enters bound failing q .tryRecv (.done .closed q [])
  | nothing {q : Queue α} (items : q.items = []) :
      Enters bound failing q .tryRecv (.done .empty q [])
  | close {q : Queue α} :
      Enters bound failing q .close
        (.done .done { q with closed := true } [.all .notEmpty, .all .notFull])
  | isClosed {q : Queue α} : Enters bound failing q .isClosed (.done (.flag q.closed) q [])
  | len {q : Queue α} : Enters bound failing q .len (.done (.size q.items.length) q [])

/-- Threads call what there is, when they like. -/
def system {σ : Type} (enters : σ → Request α → Outcome σ Cond (Reply α) → Prop) :
    System σ Unit (Request α) Cond (Reply α) where
  enters := enters
  calls _ o := ∃ s out, enters s o out
  returns _ _ _ := ()

theorem exists_enters (bound : Option Nat) (failing : Prop) (o : Request α) :
    ∃ q out, Enters bound failing q o out := by
  cases o with
  | send v => exact ⟨⟨[], true⟩, _, .refuse rfl⟩
  | trySend v => exact ⟨⟨[], true⟩, _, .refuseNow (.inl rfl)⟩
  | recv => exact ⟨⟨[], true⟩, _, .finish rfl rfl⟩
  | tryRecv => exact ⟨{}, _, .nothing rfl⟩
  | close => exact ⟨{}, _, .close⟩
  | isClosed => exact ⟨{}, _, .isClosed⟩
  | len => exact ⟨{}, _, .len⟩

/-! ## The history of a channel -/

/-- A call that is done: who made it, what it was and what it came to. -/
abbrev Entry (τ α : Type) := τ × Request α × Reply α

def acceptedBy : Entry τ α → Option α
  | (_, .send v, .accepted) => some v
  | (_, .trySend v, .accepted) => some v
  | _ => none

def receivedBy : Entry τ α → Option α
  | (_, _, .got v) => some v
  | _ => none

def accepted (log : List (Entry τ α)) : List α := log.filterMap acceptedBy

def received (log : List (Entry τ α)) : List α := log.filterMap receivedBy

/-- What is received is what was accepted, in that order; nothing is accepted after a close; and
who is told that the channel is closed comes after a close, when all values ever accepted have
been received. -/
structure Delivers (log : List (Entry τ α)) : Prop where
  fifo : received log <+: accepted log
  afterClose : ∀ before e after, log = before ++ e :: after → e.2.1 = .close → accepted after = []
  drained : ∀ before e after, log = before ++ e :: after → e.2.2 = .closed →
    received before = accepted log ∧ ∃ e' ∈ before, e'.2.1 = .close

/-- The queue is what has been accepted and not yet received. -/
structure Kept (bound : Option Nat) (q : Queue α) (log : List (Entry τ α)) : Prop
    extends Delivers log where
  conserved : accepted log = received log ++ q.items
  bounded : ∀ n, bound = some n → q.items.length ≤ n
  closed : q.closed = true ↔ ∃ e ∈ log, e.2.1 = .close

section Keeping

variable {bound : Option Nat} {q : Queue α} {log : List (Entry τ α)}

theorem accepted_concat (log : List (Entry τ α)) (e : Entry τ α) :
    accepted (log ++ [e]) = accepted log ++ (acceptedBy e).toList := filterMap_concat _ _ _

theorem received_concat (log : List (Entry τ α)) (e : Entry τ α) :
    received (log ++ [e]) = received log ++ (receivedBy e).toList := filterMap_concat _ _ _

theorem Kept.concat (kept : Kept bound q log) {e : Entry τ α} {q' : Queue α}
    (items : q.items ++ (acceptedBy e).toList = (receivedBy e).toList ++ q'.items)
    (bounded : ∀ n, bound = some n → q'.items.length ≤ n)
    (closed : q'.closed = true ↔ q.closed = true ∨ e.2.1 = .close)
    (late : q.closed = true → acceptedBy e = none)
    (told : e.2.2 = .closed → q.closed = true ∧ q.items = []) : Kept bound q' (log ++ [e]) := by
  have conserved : accepted (log ++ [e]) = received (log ++ [e]) ++ q'.items := by
    rw [accepted_concat, received_concat, kept.conserved, List.append_assoc, items,
      List.append_assoc]
  have noMore (isClosed : q.closed = true) : accepted (log ++ [e]) = accepted log := by
    rw [accepted_concat, late isClosed]
    exact List.append_nil _
  refine ⟨⟨?_, ?_, ?_⟩, conserved, bounded, ?_⟩
  · rw [conserved]
    exact List.prefix_append _ _
  · intro before f after split isClose
    rcases split_concat split with ⟨-, -, rfl⟩ | ⟨after', rfl, inLog⟩
    · rfl
    · have member : f ∈ log := by simp [inLog]
      have isClosed := kept.closed.2 ⟨f, member, isClose⟩
      rw [accepted_concat, late isClosed, kept.afterClose before f after' inLog isClose]
      rfl
  · intro before f after split isTold
    rcases split_concat split with ⟨rfl, rfl, -⟩ | ⟨after', rfl, inLog⟩
    · obtain ⟨isClosed, empty⟩ := told isTold
      constructor
      · rw [noMore isClosed, kept.conserved, empty, List.append_nil]
      · exact kept.closed.1 isClosed
    · obtain ⟨all, f', member, isClose⟩ := kept.drained before f after' inLog isTold
      have isClosed := kept.closed.2 ⟨f', by simp [inLog, member], isClose⟩
      rw [noMore isClosed]
      exact ⟨all, f', member, isClose⟩
  · rw [closed, kept.closed]
    constructor
    · rintro (⟨f, member, isClose⟩ | isClose)
      · exact ⟨f, List.mem_append_left _ member, isClose⟩
      · exact ⟨e, by simp, isClose⟩
    · rintro ⟨f, member, isClose⟩
      rcases List.mem_append.1 member with inLog | last
      · exact .inl ⟨f, inLog, isClose⟩
      · rw [List.mem_singleton.1 last] at isClose
        exact .inr isClose

theorem length_concat_le {items : List α} (room : ¬Full bound items) (v : α) :
    ∀ n, bound = some n → (items ++ [v]).length ≤ n := by
  intro n isBound
  rw [List.length_append, List.length_singleton]
  apply Nat.lt_of_not_le
  exact fun full => room ⟨n, isBound, full⟩

theorem length_tail_le (kept : Kept bound q log) {v : α} {rest : List α}
    (items : q.items = v :: rest) : ∀ n, bound = some n → rest.length ≤ n := by
  intro n isBound
  have fits := kept.bounded n isBound
  rw [items, List.length_cons] at fits
  omega

theorem Kept.done {failing : Prop} (kept : Kept bound q log) {t : τ} {o : Request α} {r : Reply α}
    {q' : Queue α} {wakes : List (Wake Cond)}
    (enters : Enters bound failing q o (.done r q' wakes)) :
    Kept bound q' (log ++ [(t, o, r)]) := by
  cases enters with
  | accept isOpen room | acceptNow isOpen room =>
    apply kept.concat
    · rfl
    · exact length_concat_le room _
    · simp
    · simp [isOpen]
    · exact nofun
  | take items | takeNow items =>
    apply kept.concat
    · simp [acceptedBy, receivedBy, items]
    · exact length_tail_le kept items
    · simp
    · exact fun _ => rfl
    · exact nofun
  | finish isClosed items | finishNow isClosed items =>
    apply kept.concat
    · simp [acceptedBy, receivedBy]
    · exact kept.bounded
    · simp
    · exact fun _ => rfl
    · exact fun _ => ⟨isClosed, items⟩
  | close =>
    apply kept.concat
    · simp [acceptedBy, receivedBy]
    · exact kept.bounded
    · simp
    · exact fun _ => rfl
    · exact nofun
  | refuse | refuseNow | outOfMemory | nothing | isClosed | len =>
    apply kept.concat
    · simp [acceptedBy, receivedBy]
    · exact kept.bounded
    · simp
    · exact fun _ => rfl
    · exact nofun

theorem kept_start : Kept (τ := τ) (α := α) bound {} [] := by
  refine ⟨⟨List.prefix_rfl, ?_, ?_⟩, rfl, fun _ _ => Nat.zero_le _, by simp⟩
  · exact fun before e after none => absurd none (by simp)
  · exact fun before e after none => absurd none (by simp)

end Keeping

abbrev Config (τ σ α : Type) := Logic.Monitor.Config τ σ Unit (Request α) Cond (Reply α)

abbrev begin (s : σ) : Config τ σ α := Config.start s fun _ => ()

/-! ## Wake-ups -/

section Waking

variable {bound : Option Nat}

/-- How many receivers could go on. -/
def values (q : Queue α) : Option Nat := if q.closed then none else some q.items.length

/-- How many senders could go on. -/
def room (bound : Option Nat) (q : Queue α) : Option Nat :=
  if q.closed then none else bound.map fun n => n - q.items.length

theorem starved_of_values {q : Queue α} (none' : values q = some 0) :
    q.closed = false ∧ q.items = [] := by
  unfold values at none'
  split at none'
  · cases none'
  · next isOpen =>
    rw [Bool.not_eq_true] at isOpen
    exact ⟨isOpen, List.eq_nil_of_length_eq_zero (Option.some.inj none')⟩

theorem full_of_room {n : Nat} {q : Queue α} (none' : room (some n) q = some 0) :
    q.closed = false ∧ n ≤ q.items.length := by
  unfold room at none'
  split at none'
  · cases none'
  · next isOpen =>
    rw [Bool.not_eq_true] at isOpen
    exact ⟨isOpen, Nat.sub_eq_zero_iff_le.1 (Option.some.inj none')⟩

theorem paced_notEmpty (failing : Prop) :
    Paced (system (Enters (α := α) bound failing) : System _ _ _ _ _) .notEmpty values
      (· = .recv) where
  wait q o enters := by
    cases enters with
    | starve isOpen items => exact ⟨by simp [values, isOpen, items], rfl⟩
  only q o c enters isWaiter := by
    cases enters with
    | block => cases isWaiter
    | starve => rfl
  done q o r q' wakes enters := by
    by_cases isClosed : q.closed = true
    · exact .inr (.inl (if_pos isClosed))
    · have isOpen : values q = some q.items.length := if_neg isClosed
      cases enters with
      | accept | acceptNow =>
        exact .inr (.inr ⟨_, _, isOpen, if_neg isClosed, by simp [signals], by rintro ⟨⟩⟩)
      | take items =>
        exact .inr (.inr ⟨_, _, isOpen, if_neg isClosed, by simp [items]; omega, by simp [items]⟩)
      | takeNow items =>
        exact .inr (.inr ⟨_, _, isOpen, if_neg isClosed, by simp [items]; omega, by rintro ⟨⟩⟩)
      | finish yes | finishNow yes => exact absurd yes isClosed
      | refuse yes => exact absurd yes isClosed
      | close => exact .inl List.mem_cons_self
      | refuseNow | outOfMemory | nothing | isClosed | len =>
        exact .inr (.inr ⟨_, _, isOpen, isOpen, Nat.le_add_right _ _, by rintro ⟨⟩⟩)

/-- A send that fails gives the room back without a signal, so that none must fail. -/
theorem paced_notFull {n : Nat} :
    Paced (system (Enters (α := α) (some n) False) : System _ _ _ _ _) .notFull (room (some n))
      (fun o => ∃ v, o = .send v) where
  wait q o enters := by
    cases enters with
    | @block v isOpen full =>
      obtain ⟨m, same, full⟩ := full
      cases same
      exact ⟨by simp [room, isOpen, full], v, rfl⟩
  only q o c enters isWaiter := by
    cases enters with
    | block => rfl
    | starve =>
      obtain ⟨v, same⟩ := isWaiter
      cases same
  done q o r q' wakes enters := by
    by_cases isClosed : q.closed = true
    · exact .inr (.inl (if_pos isClosed))
    · have isOpen : room (some n) q = some (n - q.items.length) := if_neg isClosed
      have hasRoom (free : ¬Full (some n) q.items) : q.items.length < n :=
        Nat.lt_of_not_le fun full => free ⟨n, rfl, full⟩
      cases enters with
      | accept _ free =>
        have := hasRoom free
        exact .inr (.inr ⟨_, _, isOpen, if_neg isClosed, by simp; omega, fun _ => by simp; omega⟩)
      | acceptNow _ free =>
        have := hasRoom free
        exact .inr (.inr ⟨_, _, isOpen, if_neg isClosed, by simp; omega, by rintro ⟨_, ⟨⟩⟩⟩)
      | take items | takeNow items =>
        exact .inr (.inr ⟨_, _, isOpen, if_neg isClosed, by simp [items, signals]; omega,
          by rintro ⟨_, ⟨⟩⟩⟩)
      | finish yes | finishNow yes => exact absurd yes isClosed
      | refuse yes => exact absurd yes isClosed
      | outOfMemory fails => exact fails.elim
      | close => exact .inl (List.mem_cons_of_mem _ List.mem_cons_self)
      | refuseNow | nothing | isClosed | len =>
        exact .inr (.inr ⟨_, _, isOpen, isOpen, Nat.le_add_right _ _, by rintro ⟨_, ⟨⟩⟩⟩)

end Waking

end Dux.Runtime.Channel
