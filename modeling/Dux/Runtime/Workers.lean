import Dux.Logic.LinkedQueue
import Dux.Runtime.TaskPool

/-!
# The thread pools

`src/runtime/pool_rt.c` and the pool of `src/runtime/thread_rt.c`: a linked queue of tasks, a
counter of those that are queued or run, and two condition variables.  The two files differ in
the number of workers, in what a submission checks, and in `duxrt_pool_free`.
-/

namespace Dux.Runtime.Workers

open Logic.Monitor Logic.LinkedQueue
open TaskPool (Library Cond Request Reply Place Pool Threads Entry submitted taken finished running)

variable {α γ : Type} {n : Nat}

/-- `Task` and `DuxPoolTask`: a function with its argument, or a null function. -/
abbrev Task (α : Type) := Option α

/-- `DuxPool`, with the lock left out, and which of its threads have returned. -/
structure DuxPool (α : Type) extends Links (Task α) where
  pending : Int := 0
  shutdown : Bool := false
  returned : Nat → Bool := fun _ => false
  destroyed : Bool := false

/-- The number of workers that `duxrt_pool_new` starts. -/
def workers (lib : Library) (n : Int) : Nat :=
  if n ≤ 0 then
    match lib with
    | .threadRt => 1
    | .poolRt => 4
  else n.toNat

/-- What a call comes to. -/
abbrev Result (α : Type) := Outcome (DuxPool α) Cond (Reply (Task α))

/-- `worker` and `pool_worker`, down to the call of the task's function.  The last case is that
of a null `head`. -/
def take (p : DuxPool α) (w : Nat) : Result α :=
  if p.shutdown = false ∧ p.head = none then .wait .notEmpty
  else match p.removeFirst with
    | some (t, links) => .done (.task t) { p with toLinks := links } []
    | none => .done .exit { p with returned := Function.update p.returned w true }
        [.all (.returned w)]

/-- `worker` and `pool_worker`, when the task's function has returned. -/
def finish (p : DuxPool α) : Result α :=
  .done .done { p with pending := p.pending - 1 }
    (if p.pending - 1 = 0 then [.all .allDone] else [])

/-- A new cell at the end of the queue. -/
def DuxPool.enqueue (p : DuxPool α) (t : Nat) (task : Task α) : Result α :=
  .done .accepted { p with toLinks := p.toLinks.append t task, pending := p.pending + 1 }
    [.one .notEmpty]

/-- `duxrt_pool_submit` of `thread_rt.c`, where `t` is what `malloc` returns. -/
def ThreadRt.duxrtPoolSubmit (t : Option Nat) (p : DuxPool α) (task : Task α) : Result α :=
  match task, t with
  | none, _ => .done .refused p []
  | some _, none => .done .refused p []
  | some _, some t => p.enqueue t task

/-- `duxrt_pool_submit` of `pool_rt.c`, which checks nothing. -/
def PoolRt.duxrtPoolSubmit (t : Nat) (p : DuxPool α) (task : Task α) : Result α :=
  p.enqueue t task

def duxrtPoolWait (p : DuxPool α) : Result α :=
  if 0 < p.pending then .wait .allDone else .done .done p []

/-- `duxrt_pool_shutdown`, down to the loop that joins the workers. -/
def duxrtPoolShutdown (p : DuxPool α) : Result α :=
  .done .done { p with shutdown := true } [.all .notEmpty]

def pthreadJoin (p : DuxPool α) (w : Nat) : Result α :=
  if p.returned w then .done .done p [] else .wait (.returned w)

/-- `duxrt_pool_free`, in `pool_rt.c` down to the loop in its call of `duxrt_pool_shutdown`.
What is in memory after it is of no account. -/
def duxrtPoolFree (lib : Library) (p : DuxPool α) : Result α :=
  match lib with
  | .threadRt => .done .done { p with destroyed := true } []
  | .poolRt => duxrtPoolShutdown p

/-- What the calls do under the lock.  Without memory for a task `pool_rt.c` does not go on. -/
inductive Enters (lib : Library) (p : DuxPool α) : Request (Task α) → Result α → Prop
  | take (w : Nat) : Enters lib p (.take w) (take p w)
  | finish (w : Nat) (task : Task α) : Enters lib p (.finish w task) (finish p)
  | submitThread (t : Option Nat) (task : Task α) (malloc : ∀ a, t = some a → p.cells a = none)
      (thread : lib = .threadRt) :
      Enters lib p (.submit task) (ThreadRt.duxrtPoolSubmit t p task)
  | submitPool (t : Nat) (task : Task α) (malloc : p.cells t = none) (pool : lib = .poolRt) :
      Enters lib p (.submit task) (PoolRt.duxrtPoolSubmit t p task)
  | wait : Enters lib p .wait (duxrtPoolWait p)
  | shutdown : Enters lib p .shutdown (duxrtPoolShutdown p)
  | join (w : Nat) : Enters lib p (.join w) (pthreadJoin p w)
  | free : Enters lib p .free (duxrtPoolFree lib p)
  | destroy (pool : lib = .poolRt) :
      Enters lib p .destroy (.done .done { p with destroyed := true } [])

/-- Threads that use a pool.  A task whose function is null never comes to its end. -/
abbrev system (lib : Library) (n : Nat) :
    System (DuxPool α) (Place (Task α)) (Request (Task α)) Cond (Reply (Task α)) :=
  TaskPool.system lib (fun t => t ≠ none) n (Enters lib)

abbrev Config (n : Nat) (γ α : Type) := TaskPool.Config n γ (DuxPool α) (Task α)

abbrev begin : Config n γ α := .start {} TaskPool.start

/-- A state that the threads can reach with `duxrt_pool_new(size)`. -/
structure Reaches [DecidableEq γ] (lib : Library) (size : Int) (a : Config n γ α) : Prop where
  count : n = workers lib size
  runs : Runs (system lib n) begin a

/-! ## The queue of tasks -/

structure Represents (p : DuxPool α) (q : Pool (Task α)) : Prop where
  holds : ∃ cs, Holds p.toLinks cs ∧ cs.map Prod.snd = q.tasks
  pending : p.pending = q.pending
  shutdown : p.shutdown = q.shutdown
  returned : p.returned = q.returned
  destroyed : p.destroyed = q.destroyed

theorem represents_new : Represents ({} : DuxPool α) {} :=
  ⟨lists_nil, rfl, rfl, rfl, rfl⟩

section Steps

variable {lib : Library} {p : DuxPool α} {q : Pool (Task α)}

theorem Represents.head_eq_none_iff (represents : Represents p q) :
    p.head = none ↔ q.tasks = [] :=
  Lists.head_eq_none_iff represents.holds

theorem Represents.enqueue (represents : Represents p q) {t : Nat} (fresh : p.cells t = none)
    (task : Task α) : (p.enqueue t task).Same Represents
      (.done .accepted { q with tasks := q.tasks ++ [task], pending := q.pending + 1 }
        [.one .notEmpty]) := by
  apply Outcome.Same.done
  constructor
  · exact Lists.append represents.holds fresh task
  · exact congrArg (· + 1) represents.pending
  · exact represents.shutdown
  · exact represents.returned
  · exact represents.destroyed

theorem Represents.removeFirst (represents : Represents p q) {task : Task α}
    {rest : List (Task α)} (first : q.tasks = task :: rest) :
    ∃ links, p.removeFirst = some (task, links) ∧
      Represents { p with toLinks := links } { q with tasks := rest } := by
  have lists : Lists p.toLinks (task :: rest) := first ▸ represents.holds
  obtain ⟨links, removed, lists'⟩ := lists.removeFirst
  exact ⟨links, removed, lists', represents.pending, represents.shutdown, represents.returned,
    represents.destroyed⟩

theorem Represents.enters (represents : Represents p q) {o : Request (Task α)} {out : Result α}
    (enters : Enters lib p o out) :
    ∃ out', TaskPool.Enters lib q o out' ∧ out.Same Represents out' := by
  have pending := represents.pending
  have shutdown := represents.shutdown
  have returned := represents.returned
  have same (r : Reply (Task α)) : (Outcome.done (κ := Cond) r p []).Same Represents
      (.done r q []) := .done [] represents
  have set : Represents { p with shutdown := true } { q with shutdown := true } :=
    ⟨represents.holds, pending, rfl, returned, represents.destroyed⟩
  have gone : Represents { p with destroyed := true } { q with destroyed := true } :=
    ⟨represents.holds, pending, shutdown, returned, rfl⟩
  cases enters with
  | take w =>
    unfold take
    by_cases waits : p.shutdown = false ∧ p.head = none
    · rw [if_pos waits]
      exact ⟨_, .sleep (shutdown.symm.trans waits.1) (represents.head_eq_none_iff.1 waits.2),
        .wait _⟩
    · rw [if_neg waits]
      cases first : q.tasks with
      | nil =>
        have empty := represents.head_eq_none_iff.2 first
        have isShut : p.shutdown = true := by
          rw [← Bool.not_eq_false]
          exact fun goesOn => waits ⟨goesOn, empty⟩
        have none' : p.removeFirst = none := Holds.removeFirst_of_none empty
        rw [none']
        refine ⟨_, .exit (shutdown.symm.trans isShut) first, .done _ ?_⟩
        exact ⟨represents.holds, pending, shutdown,
          congrArg (Function.update · w true) returned, represents.destroyed⟩
      | cons task rest =>
        obtain ⟨links, removed, represents'⟩ := represents.removeFirst first
        rw [removed]
        exact ⟨_, .take first, .done _ represents'⟩
  | finish w task =>
    unfold finish
    rw [pending]
    refine ⟨_, .finish, .done _ ?_⟩
    exact ⟨represents.holds, rfl, shutdown, returned, represents.destroyed⟩
  | submitThread t task malloc thread =>
    cases task with
    | none => exact ⟨_, .drop thread, same _⟩
    | some f =>
      cases t with
      | none => exact ⟨_, .drop thread, same _⟩
      | some t => exact ⟨_, .submit, represents.enqueue (malloc t rfl) _⟩
  | submitPool t task malloc pool => exact ⟨_, .submit, represents.enqueue malloc _⟩
  | wait =>
    unfold duxrtPoolWait
    by_cases some' : 0 < p.pending
    · rw [if_pos some']
      exact ⟨_, .more (pending ▸ some'), .wait _⟩
    · rw [if_neg some']
      exact ⟨_, .wait (pending ▸ Int.not_lt.1 some'), same _⟩
  | shutdown => exact ⟨_, .shutdown, .done _ set⟩
  | join w =>
    unfold pthreadJoin
    by_cases hasReturned : p.returned w = true
    · rw [if_pos hasReturned]
      exact ⟨_, .join (returned ▸ hasReturned), same _⟩
    · rw [if_neg hasReturned]
      rw [Bool.not_eq_true] at hasReturned
      exact ⟨_, .block (returned ▸ hasReturned), .wait _⟩
  | free =>
    cases lib with
    | threadRt => exact ⟨_, .free rfl, .done _ gone⟩
    | poolRt => exact ⟨_, .shutAgain rfl, .done _ set⟩
  | destroy pool => exact ⟨_, .destroy pool, .done _ gone⟩

end Steps

/-! ## Every interleaving -/

/-- What is to hold in every state. -/
structure Correct (a : Config n γ α) : Prop where
  once : (taken a.log : Multiset (Task α)) = finished a.log + running a.own
  queue : ∃ cs, Holds a.shared.toLinks cs ∧ submitted a.log = taken a.log ++ cs.map Prod.snd ∧
    a.shared.pending = cs.length + (running a.own).card
  waited : TaskPool.Waited a.log
  shutDown : TaskPool.IsShutDown (a.own (.inr none)) → TaskPool.AllServed a.log
  atRest : TaskPool.AtRest a → TaskPool.AllServed a.log

variable [DecidableEq γ]

theorem workers_pos (lib : Library) (size : Int) : 0 < workers lib size := by
  unfold workers
  split
  · cases lib <;> exact Nat.succ_pos _
  · omega

/-- The linked queue goes the same way as the queue. -/
theorem Reaches.abstract {lib : Library} {size : Int} {a : Config n γ α}
    (reaches : Reaches lib size a) : ∃ q, Represents a.shared q ∧
      Runs (TaskPool.system lib (fun t => t ≠ none) n (TaskPool.Enters lib))
        (.start {} TaskPool.start) ⟨q, a.threads, a.log⟩ :=
  Runs.simulate (TaskPool.system lib (fun t => t ≠ none) n (TaskPool.Enters lib)) Represents
    (fun _ _ _ _ represents enters => represents.enters enters) (fun _ _ => id) rfl reaches.runs
    represents_new

end Dux.Runtime.Workers
