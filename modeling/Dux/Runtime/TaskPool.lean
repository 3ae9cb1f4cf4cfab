import Dux.Logic.Monitor
import Mathlib.Data.Fintype.Option
import Mathlib.Data.Fintype.Sum

/-!
# Pools of workers

What the two thread pools of the runtime, in `src/runtime/pool_rt.c` and
`src/runtime/thread_rt.c`, are for: workers that take tasks from a queue, threads that submit
tasks and wait for them, and an owner that shuts the pool down, joins the workers and frees
it.  A task may submit further ones while it runs.
-/

namespace Dux.Runtime.TaskPool

open Logic.Monitor

/-- The two files that define the pool. -/
inductive Library
  | threadRt
  | poolRt
  deriving DecidableEq

/-- What threads wait for: the two condition variables, and the end of a worker. -/
inductive Cond
  | notEmpty
  | allDone
  | returned (w : Nat)
  deriving DecidableEq

/-- What threads do with a pool.  The first two are the halves of a worker's loop, and the
last two belong to `duxrt_pool_free`. -/
inductive Request (β : Type)
  | take (w : Nat)
  | finish (w : Nat) (task : β)
  | submit (task : β)
  | wait
  | shutdown
  | join (w : Nat)
  | free
  | destroy

inductive Reply (β : Type)
  | task (task : β)
  | exit
  | accepted
  | refused
  | done

/-- Where a thread is in the code: a worker, some other thread that uses the pool, or the
owner, down to the end of `duxrt_pool_free`. -/
inductive Place (β : Type)
  | worker (w : Nat)
  | running (w : Nat) (task : β)
  | returned (w : Nat)
  | client
  | owner
  | joining (k : Nat)
  | shutDown
  | joiningAgain (k : Nat)
  | freeing
  | freed

variable {β γ : Type} {n : Nat}

/-- The calls that a thread can make at a place; `runs` are the tasks that can run. -/
inductive Calls (runs : β → Prop) (n : Nat) : Place β → Request β → Prop
  | take (w : Nat) : Calls runs n (.worker w) (.take w)
  | finish {w : Nat} {t : β} (runnable : runs t) : Calls runs n (.running w t) (.finish w t)
  | spawn {w : Nat} {t : β} (runnable : runs t) (t' : β) :
      Calls runs n (.running w t) (.submit t')
  | submit (t : β) : Calls runs n .client (.submit t)
  | wait : Calls runs n .client .wait
  | submitOwn (t : β) : Calls runs n .owner (.submit t)
  | waitOwn : Calls runs n .owner .wait
  | shutdown : Calls runs n .owner .shutdown
  | join {k : Nat} (below : k < n) : Calls runs n (.joining k) (.join k)
  | free : Calls runs n .shutDown .free
  | joinAgain {k : Nat} (below : k < n) : Calls runs n (.joiningAgain k) (.join k)
  | destroy : Calls runs n .freeing .destroy

/-- Where a call leads to.  `duxrt_pool_free` of `pool_rt.c` begins like
`duxrt_pool_shutdown`. -/
def returns (lib : Library) (n : Nat) : Place β → Request β → Reply β → Place β
  | .worker w, _, .task t => .running w t
  | .worker w, _, .exit => .returned w
  | .running w _, .finish _ _, _ => .worker w
  | .owner, .shutdown, _ => .joining 0
  | .joining k, _, _ => if k + 1 < n then .joining (k + 1) else .shutDown
  | .shutDown, .free, _ =>
      match lib with
      | .threadRt => .freed
      | .poolRt => .joiningAgain 0
  | .joiningAgain k, _, _ => if k + 1 < n then .joiningAgain (k + 1) else .freeing
  | .freeing, _, _ => .freed
  | p, _, _ => p

/-- The pool, and which of its threads have returned. -/
structure Pool (β : Type) where
  tasks : List β := []
  pending : Int := 0
  shutdown : Bool := false
  returned : Nat → Bool := fun _ => false
  destroyed : Bool := false

inductive Enters (lib : Library) : Pool β → Request β → Outcome (Pool β) Cond (Reply β) → Prop
  | sleep {p : Pool β} {w : Nat} (goesOn : p.shutdown = false) (empty : p.tasks = []) :
      Enters lib p (.take w) (.wait .notEmpty)
  | exit {p : Pool β} {w : Nat} (isShut : p.shutdown = true) (empty : p.tasks = []) :
      Enters lib p (.take w)
        (.done .exit { p with returned := Function.update p.returned w true } [.all (.returned w)])
  | take {p : Pool β} {w : Nat} {t : β} {rest : List β} (first : p.tasks = t :: rest) :
      Enters lib p (.take w) (.done (.task t) { p with tasks := rest } [])
  | finish {p : Pool β} {w : Nat} {t : β} :
      Enters lib p (.finish w t)
        (.done .done { p with pending := p.pending - 1 }
          (if p.pending - 1 = 0 then [.all .allDone] else []))
  | submit {p : Pool β} {t : β} :
      Enters lib p (.submit t)
        (.done .accepted { p with tasks := p.tasks ++ [t], pending := p.pending + 1 }
          [.one .notEmpty])
  | drop {p : Pool β} {t : β} (thread : lib = .threadRt) :
      Enters lib p (.submit t) (.done .refused p [])
  | more {p : Pool β} (some' : 0 < p.pending) : Enters lib p .wait (.wait .allDone)
  | wait {p : Pool β} (none' : p.pending ≤ 0) : Enters lib p .wait (.done .done p [])
  | shutdown {p : Pool β} :
      Enters lib p .shutdown (.done .done { p with shutdown := true } [.all .notEmpty])
  | block {p : Pool β} {w : Nat} (isRunning : p.returned w = false) :
      Enters lib p (.join w) (.wait (.returned w))
  | join {p : Pool β} {w : Nat} (hasReturned : p.returned w = true) :
      Enters lib p (.join w) (.done .done p [])
  | free {p : Pool β} (thread : lib = .threadRt) :
      Enters lib p .free (.done .done { p with destroyed := true } [])
  | shutAgain {p : Pool β} (pool : lib = .poolRt) :
      Enters lib p .free (.done .done { p with shutdown := true } [.all .notEmpty])
  | destroy {p : Pool β} (pool : lib = .poolRt) :
      Enters lib p .destroy (.done .done { p with destroyed := true } [])

/-- Threads that use a pool with `n` workers, where `enters` says what the calls do. -/
def system {σ : Type} (lib : Library) (runs : β → Prop) (n : Nat)
    (enters : σ → Request β → Outcome σ Cond (Reply β) → Prop) :
    System σ (Place β) (Request β) Cond (Reply β) where
  enters := enters
  calls := Calls runs n
  returns := returns lib n

/-- The workers, the owner and any other threads. -/
abbrev Threads (n : Nat) (γ : Type) := Fin n ⊕ Option γ

def start : Threads n γ → Place β
  | .inl w => .worker w
  | .inr none => .owner
  | .inr (some _) => .client

/-! ## The history of a pool -/

/-- A call that is done. -/
abbrev Entry (n : Nat) (γ β : Type) := Threads n γ × Request β × Reply β

def submittedBy : Entry n γ β → Option β
  | (_, .submit t, .accepted) => some t
  | _ => none

def takenBy : Entry n γ β → Option β
  | (_, _, .task t) => some t
  | _ => none

def finishedBy : Entry n γ β → Option β
  | (_, .finish _ t, _) => some t
  | _ => none

/-- The tasks that were submitted, in order. -/
def submitted (log : List (Entry n γ β)) : List β := log.filterMap submittedBy

/-- The tasks that workers took, in order. -/
def taken (log : List (Entry n γ β)) : List β := log.filterMap takenBy

/-- The tasks whose function has returned, in order. -/
def finished (log : List (Entry n γ β)) : List β := log.filterMap finishedBy

/-- How often a worker was joined. -/
def joins (w : Nat) (log : List (Entry n γ β)) : Nat :=
  log.countP fun
    | (_, .join w', _) => w' = w
    | _ => false

/-- The task that runs at a place. -/
def Place.task : Place β → Multiset β
  | .running _ t => {t}
  | _ => 0

/-- The tasks that run. -/
def running (f : Threads n γ → Place β) : Multiset β := ∑ w : Fin n, (f (.inl w)).task

/-! ## What a call does -/

/-- The next place of the loop that joins the workers. -/
def afterJoin (n k : Nat) (next : Nat → Place β) (last : Place β) : Place β :=
  if k + 1 < n then next (k + 1) else last

/-- A call that is done, with the place before and after it. -/
inductive Turn (lib : Library) (n : Nat) :
    Pool β → Place β → Request β → Reply β → Pool β → Place β → Prop
  | take {p : Pool β} {w : Nat} {t : β} {rest : List β} (first : p.tasks = t :: rest) :
      Turn lib n p (.worker w) (.take w) (.task t) { p with tasks := rest } (.running w t)
  | exit {p : Pool β} {w : Nat} (isShut : p.shutdown = true) (empty : p.tasks = []) :
      Turn lib n p (.worker w) (.take w) .exit
        { p with returned := Function.update p.returned w true } (.returned w)
  | finish {p : Pool β} {w : Nat} {t : β} :
      Turn lib n p (.running w t) (.finish w t) .done { p with pending := p.pending - 1 }
        (.worker w)
  | submit {p : Pool β} {here : Place β} {t : β} :
      Turn lib n p here (.submit t) .accepted
        { p with tasks := p.tasks ++ [t], pending := p.pending + 1 } here
  | drop {p : Pool β} {here : Place β} {t : β} : Turn lib n p here (.submit t) .refused p here
  | wait {p : Pool β} {here : Place β} (none' : p.pending ≤ 0) :
      Turn lib n p here .wait .done p here
  | shutdown {p : Pool β} :
      Turn lib n p .owner .shutdown .done { p with shutdown := true } (.joining 0)
  | join {p : Pool β} {k : Nat} (below : k < n) (hasReturned : p.returned k = true) :
      Turn lib n p (.joining k) (.join k) .done p (afterJoin n k .joining .shutDown)
  | free {p : Pool β} (thread : lib = .threadRt) :
      Turn lib n p .shutDown .free .done { p with destroyed := true } .freed
  | shutAgain {p : Pool β} (pool : lib = .poolRt) :
      Turn lib n p .shutDown .free .done { p with shutdown := true } (.joiningAgain 0)
  | joinAgain {p : Pool β} {k : Nat} (below : k < n) (hasReturned : p.returned k = true) :
      Turn lib n p (.joiningAgain k) (.join k) .done p (afterJoin n k .joiningAgain .freeing)
  | destroy {p : Pool β} (pool : lib = .poolRt) :
      Turn lib n p .freeing .destroy .done { p with destroyed := true } .freed

theorem turn_of_enters {lib : Library} {runs : β → Prop} {p p' : Pool β} {here : Place β}
    {o : Request β} {r : Reply β} {wakes : List (Wake Cond)} (calls : Calls runs n here o)
    (enters : Enters lib p o (.done r p' wakes)) :
    Turn lib n p here o r p' (returns lib n here o r) := by
  cases enters with
  | exit isShut empty =>
    cases calls
    exact .exit isShut empty
  | take first =>
    cases calls
    exact .take first
  | finish =>
    cases calls
    exact .finish
  | submit => cases calls <;> exact .submit
  | drop => cases calls <;> exact .drop
  | wait none' => cases calls <;> exact .wait none'
  | shutdown =>
    cases calls
    exact .shutdown
  | join hasReturned =>
    cases calls with
    | join below => exact .join below hasReturned
    | joinAgain below => exact .joinAgain below hasReturned
  | free thread =>
    cases calls
    subst thread
    exact .free rfl
  | shutAgain pool =>
    cases calls
    subst pool
    exact .shutAgain rfl
  | destroy pool =>
    cases calls
    exact .destroy pool

/-- The places of a thread. -/
def InRole : Threads n γ → Place β → Prop
  | .inl w, .worker w' | .inl w, .running w' _ | .inl w, .returned w' => w' = w
  | .inr (some _), .client => True
  | .inr none, .owner | .inr none, .joining _ | .inr none, .shutDown | .inr none, .joiningAgain _
  | .inr none, .freeing | .inr none, .freed => True
  | _, _ => False

theorem afterJoin_cases (n k : Nat) (next : Nat → Place β) (last : Place β) :
    afterJoin n k next last = next (k + 1) ∧ k + 1 < n ∨
      afterJoin n k next last = last ∧ n ≤ k + 1 := by
  unfold afterJoin
  split
  · next below => exact .inl ⟨rfl, below⟩
  · next above => exact .inr ⟨rfl, Nat.le_of_not_lt above⟩

theorem afterJoin_task (k : Nat) (next : Nat → Place β) (last : Place β)
    (ofNext : ∀ j, (next j).task = 0) (ofLast : last.task = 0) :
    (afterJoin n k next last).task = 0 := by
  unfold afterJoin
  split
  · exact ofNext _
  · exact ofLast

theorem InRole.turn {lib : Library} {t : Threads n γ} {p p' : Pool β} {here there : Place β}
    {o : Request β} {r : Reply β} (role : InRole t here) (turn : Turn lib n p here o r p' there) :
    InRole t there := by
  cases turn with
  | submit | drop | wait => exact role
  | take | exit | finish =>
    rcases t with w | _ | g
    · exact role
    · exact role
    · exact role
  | shutdown | free | shutAgain | destroy =>
    rcases t with w | _ | g
    · exact role.elim
    · trivial
    · exact role.elim
  | @join k =>
    rcases t with w | _ | g
    · exact role.elim
    · rcases afterJoin_cases n k .joining (.shutDown : Place β) with ⟨same, -⟩ | ⟨same, -⟩ <;>
        rw [same] <;> trivial
    · exact role.elim
  | @joinAgain k =>
    rcases t with w | _ | g
    · exact role.elim
    · rcases afterJoin_cases n k .joiningAgain (.freeing : Place β) with ⟨same, -⟩ | ⟨same, -⟩ <;>
        rw [same] <;> trivial
    · exact role.elim

/-! ## No task is lost -/

section Booking

variable {p p' : Pool β} {f : Threads n γ → Place β} {log : List (Entry n γ β)} {lib : Library}
  {t : Threads n γ} {o : Request β} {r : Reply β} {there : Place β}

theorem task_of_role {x : Option γ} {here : Place β} (role : InRole (n := n) (.inr x) here) :
    here.task = 0 := by
  cases here with
  | running => cases x <;> exact role.elim
  | _ => rfl

/-- What is in the queue, what runs and what has finished make up what was submitted, and the
counter counts the first two. -/
structure Booked (p : Pool β) (f : Threads n γ → Place β) (log : List (Entry n γ β)) : Prop where
  conserved : submitted log = taken log ++ p.tasks
  ran : (taken log : Multiset β) = finished log + running f
  pending : p.pending = p.tasks.length + (running f).card

theorem booked_start : Booked (n := n) (γ := γ) (β := β) {} start [] := by
  have none' : running (start : Threads n γ → Place β) = 0 := Finset.sum_const_zero
  constructor
  · rfl
  · exact none'.symm.trans (zero_add _).symm
  · rw [none', Multiset.card_zero]
    rfl

theorem Booked.finished_perm (booked : Booked p f log) (empty : p.tasks = [])
    (calm : running f = 0) : (finished log).Perm (taken log) ∧ taken log = submitted log := by
  constructor
  · apply Multiset.coe_eq_coe.1
    rw [booked.ran, calm, add_zero]
  · rw [booked.conserved, empty, List.append_nil]

theorem Booked.finished_of_pending (booked : Booked p f log) (none' : p.pending ≤ 0) :
    (finished log).Perm (submitted log) := by
  have counted := booked.pending
  have empty : p.tasks = [] := List.eq_nil_of_length_eq_zero (by omega)
  have calm : running f = 0 := Multiset.card_eq_zero.1 (by omega)
  obtain ⟨perm, same⟩ := booked.finished_perm empty calm
  rwa [← same]

variable [DecidableEq γ]

theorem running_update (role : InRole t (f t)) (role' : InRole t there) :
    running (Function.update f t there) + (f t).task = running f + there.task := by
  cases t with
  | inl w =>
    have apart : (fun w' => (Function.update f (.inl w) there (.inl w')).task) =
        Function.update (fun w' : Fin n => (f (.inl w')).task) w there.task := by
      funext w'
      by_cases isIt : w' = w
      · subst isIt
        rw [Function.update_self, Function.update_self]
      · rw [Function.update_of_ne isIt,
          Function.update_of_ne fun same => isIt (Sum.inl.inj same)]
    unfold running
    rw [apart]
    exact sum_update_add _ _ _
  | inr x =>
    rw [task_of_role role, task_of_role role']
    congr 1

theorem Booked.concat (booked : Booked p f log) (role : InRole t (f t)) (role' : InRole t there)
    (queue : p.tasks ++ (submittedBy (t, o, r)).toList = (takenBy (t, o, r)).toList ++ p'.tasks)
    (ran : ((takenBy (t, o, r)).toList : Multiset β) + (f t).task =
      (finishedBy (t, o, r)).toList + there.task)
    (pending : p'.pending + p.tasks.length + (f t).task.card =
      p.pending + p'.tasks.length + there.task.card) :
    Booked p' (Function.update f t there) (log ++ [(t, o, r)]) := by
  have moved := running_update role role'
  constructor
  · rw [submitted, taken, filterMap_concat, filterMap_concat, ← submitted, ← taken,
      booked.conserved, List.append_assoc, queue, List.append_assoc]
  · apply add_right_cancel (b := (f t).task)
    rw [taken, finished, filterMap_concat, filterMap_concat, ← taken, ← finished,
      ← Multiset.coe_add, ← Multiset.coe_add, add_assoc, ran, booked.ran, add_assoc _ _ (f t).task,
      moved]
    exact add_add_add_comm _ _ _ _
  · have counted := congrArg Multiset.card moved
    rw [Multiset.card_add, Multiset.card_add] at counted
    have before := booked.pending
    omega

theorem Booked.turn (booked : Booked p f log) (role : InRole t (f t))
    (turn : Turn lib n p (f t) o r p' there) :
    Booked p' (Function.update f t there) (log ++ [(t, o, r)]) := by
  apply booked.concat role (role.turn turn)
  all_goals
    generalize f t = here at turn
    clear role
  · cases turn with
    | take first => exact (List.append_nil _).trans first
    | submit => rfl
    | _ => exact List.append_nil _
  · cases turn with
    | take | finish => exact add_comm _ _
    | join =>
      rw [afterJoin_task _ .joining _ (fun _ => rfl) rfl]
      rfl
    | joinAgain =>
      rw [afterJoin_task _ .joiningAgain _ (fun _ => rfl) rfl]
      rfl
    | _ => rfl
  · cases turn with
    | take first =>
      rw [first]
      simp [Place.task]
      omega
    | finish =>
      simp [Place.task]
      omega
    | submit =>
      rw [List.length_append]
      simp
      omega
    | join =>
      rw [afterJoin_task _ .joining _ (fun _ => rfl) rfl]
      rfl
    | joinAgain =>
      rw [afterJoin_task _ .joiningAgain _ (fun _ => rfl) rfl]
      rfl
    | _ => rfl

end Booking

/-! ## The shutdown -/

def Place.joins (lib : Library) (w : Nat) : Place β → Nat
  | .joining k => if w < k then 1 else 0
  | .shutDown => 1
  | .joiningAgain k => if w < k then 2 else 1
  | .freeing => 2
  | .freed =>
      match lib with
      | .threadRt => 1
      | .poolRt => 2
  | _ => 0

section Closing

variable {p p' : Pool β} {f : Threads n γ → Place β} {log : List (Entry n γ β)} {lib : Library}
  {t : Threads n γ} {o : Request β} {r : Reply β} {here there : Place β}

/-- Every wait that is over came when all tasks had finished. -/
def Waited (log : List (Entry n γ β)) : Prop :=
  ∀ before e after, log = before ++ e :: after → e.2.1 = .wait →
    (finished before).Perm (submitted before)

/-- The flag, the threads that have returned and the owner's place agree. -/
structure Closing (lib : Library) (p : Pool β) (f : Threads n γ → Place β)
    (log : List (Entry n γ β)) : Prop where
  phase : f (.inr none) = .owner ↔ p.shutdown = false
  flag : p.shutdown = true ↔ ∃ e ∈ log, e.2.1 = .shutdown
  returned : ∀ w : Fin n, p.returned w = true → f (.inl w) = .returned w
  served : ∀ w : Fin n, f (.inl w) = .returned w → p.shutdown = true ∧
    ∀ before e after, log = before ++ e :: after → e.2.1 = .shutdown →
      submitted before <+: taken log
  joins : ∀ w : Fin n, joins w log = (f (.inr none)).joins lib w
  joined : ∀ w : Fin n, 0 < (f (.inr none)).joins lib w → p.returned w = true

theorem closing_start : Closing (n := n) (γ := γ) (β := β) lib {} start [] := by
  constructor
  · exact ⟨fun _ => rfl, fun _ => rfl⟩
  · simp
  · exact nofun
  · exact nofun
  · exact fun _ => rfl
  · exact nofun

theorem Waited.turn (waited : Waited log) (booked : Booked p f log)
    (turn : Turn lib n p here o r p' there) : Waited (log ++ [(t, o, r)]) := by
  intro before e after split isWait
  rcases split_concat split with ⟨rfl, rfl, -⟩ | ⟨after', rfl, inLog⟩
  · cases turn with
    | wait none' => exact booked.finished_of_pending none'
    | _ => cases isWait
  · exact waited before e after' inLog isWait

theorem Turn.flag (turn : Turn lib n p here o r p' there) :
    (o = .shutdown ∧ here = .owner ∧ there ≠ .owner ∧ p'.shutdown = true) ∨
      (o ≠ .shutdown ∧ (there = .owner ↔ here = .owner) ∧
        (p'.shutdown = p.shutdown ∨ here = .shutDown ∧ p'.shutdown = true)) := by
  cases turn with
  | shutdown => exact .inl ⟨rfl, rfl, nofun, rfl⟩
  | shutAgain => exact .inr ⟨nofun, by simp, .inr ⟨rfl, rfl⟩⟩
  | @join k =>
    right
    rcases afterJoin_cases n k .joining (.shutDown : Place β) with ⟨same, -⟩ | ⟨same, -⟩ <;>
      simp [same]
  | @joinAgain k =>
    right
    rcases afterJoin_cases n k .joiningAgain (.freeing : Place β) with ⟨same, -⟩ | ⟨same, -⟩ <;>
      simp [same]
  | _ => exact .inr ⟨nofun, by simp, .inl rfl⟩

theorem eq_none_of_role (role : InRole t here)
    (isOwners : here = .owner ∨ here = .shutDown ∨ (∃ k, here = .joining k) ∨
      ∃ k, here = .joiningAgain k) : t = .inr none := by
  rcases isOwners with rfl | rfl | ⟨k, rfl⟩ | ⟨k, rfl⟩ <;> rcases t with w | _ | g <;>
    first | rfl | exact role.elim

theorem Turn.returned (turn : Turn lib n p here o r p' there) :
    (there = here ∨ ∀ w, here ≠ .returned w) ∧
      ((∀ w, there = .returned w → here = .returned w) ∧ p'.returned = p.returned ∨
        ∃ w, here = .worker w ∧ there = .returned w ∧ o = .take w ∧ r = .exit ∧
          p'.returned = Function.update p.returned w true ∧ p.shutdown = true ∧ p.tasks = []) := by
  cases turn with
  | exit isShut empty => exact ⟨.inr nofun, .inr ⟨_, rfl, rfl, rfl, rfl, rfl, isShut, empty⟩⟩
  | submit | drop | wait => exact ⟨.inl rfl, .inl ⟨fun _ => id, rfl⟩⟩
  | @join k =>
    refine ⟨.inr nofun, .inl ⟨?_, rfl⟩⟩
    rcases afterJoin_cases n k .joining (.shutDown : Place β) with ⟨same, -⟩ | ⟨same, -⟩ <;>
      rw [same] <;> exact nofun
  | @joinAgain k =>
    refine ⟨.inr nofun, .inl ⟨?_, rfl⟩⟩
    rcases afterJoin_cases n k .joiningAgain (.freeing : Place β) with ⟨same, -⟩ | ⟨same, -⟩ <;>
      rw [same] <;> exact nofun
  | _ => exact ⟨.inr nofun, .inl ⟨nofun, rfl⟩⟩

theorem Turn.joins (turn : Turn lib n p here o r p' there) {w : Nat} (below : w < n) :
    (o = .join w ∧ p.returned w = true ∧ there.joins lib w = here.joins lib w + 1) ∨
      (o ≠ .join w ∧ there.joins lib w = here.joins lib w) := by
  cases turn with
  | @join k _ hasReturned =>
    by_cases isIt : w = k
    · subst isIt
      left
      refine ⟨rfl, hasReturned, ?_⟩
      rcases afterJoin_cases n w .joining (.shutDown : Place β) with ⟨same, -⟩ | ⟨same, -⟩ <;>
        simp [same, Place.joins]
    · right
      refine ⟨fun same => isIt (Request.join.inj same).symm, ?_⟩
      rcases afterJoin_cases n k .joining (.shutDown : Place β) with ⟨same, -⟩ | ⟨same, last⟩
      · have : w < k + 1 ↔ w < k := by omega
        simp [same, Place.joins, this]
      · have : w < k := by omega
        simp [same, Place.joins, this]
  | @joinAgain k _ hasReturned =>
    by_cases isIt : w = k
    · subst isIt
      left
      refine ⟨rfl, hasReturned, ?_⟩
      rcases afterJoin_cases n w .joiningAgain (.freeing : Place β) with ⟨same, -⟩ | ⟨same, -⟩ <;>
        simp [same, Place.joins]
    · right
      refine ⟨fun same => isIt (Request.join.inj same).symm, ?_⟩
      rcases afterJoin_cases n k .joiningAgain (.freeing : Place β) with ⟨same, -⟩ | ⟨same, last⟩
      · have : w < k + 1 ↔ w < k := by omega
        simp [same, Place.joins, this]
      · have : w < k := by omega
        simp [same, Place.joins, this]
  | free thread =>
    subst thread
    exact .inr ⟨nofun, rfl⟩
  | destroy pool =>
    subst pool
    exact .inr ⟨nofun, rfl⟩
  | _ => exact .inr ⟨nofun, rfl⟩

theorem Turn.joining (turn : Turn lib n p here o r p' there) {w : Nat} (isJoin : o = .join w) :
    (∃ k, here = .joining k) ∨ ∃ k, here = .joiningAgain k := by
  cases turn with
  | join => exact .inl ⟨_, rfl⟩
  | joinAgain => exact .inr ⟨_, rfl⟩
  | _ => cases isJoin

theorem joins_concat_join (w : Nat) (log : List (Entry n γ β)) (t : Threads n γ) (r : Reply β) :
    joins w (log ++ [(t, .join w, r)]) = joins w log + 1 := by
  rw [joins, List.countP_append]
  simp [joins]

theorem joins_concat_of_ne {w : Nat} (other : o ≠ .join w) (log : List (Entry n γ β))
    (t : Threads n γ) (r : Reply β) : joins w (log ++ [(t, o, r)]) = joins w log := by
  rw [joins, List.countP_append, List.countP_singleton, if_neg]
  · rfl
  · cases o with
    | join w' => simpa using fun same => other (congrArg _ same)
    | _ => exact nofun

theorem Turn.returned_mono (turn : Turn lib n p here o r p' there) {w : Nat}
    (before : p.returned w = true) : p'.returned w = true := by
  rcases turn.returned with ⟨-, ⟨-, same⟩ | ⟨w', -, -, -, -, same, -⟩⟩
  · rwa [same]
  · rw [same]
    by_cases isIt : w = w'
    · subst isIt
      exact Function.update_self ..
    · rwa [Function.update_of_ne isIt]

theorem taken_isPrefix (log : List (Entry n γ β)) (e : Entry n γ β) :
    taken log <+: taken (log ++ [e]) := by
  rw [taken, taken, filterMap_concat]
  exact List.prefix_append _ _

theorem submitted_prefix (before after : List (Entry n γ β)) :
    submitted before <+: submitted (before ++ after) := by
  rw [submitted, submitted, List.filterMap_append]
  exact List.prefix_append _ _

theorem Closing.not_shutdown (closing : Closing lib p f log) (isSet : p.shutdown = true)
    (role : InRole t (f t)) (turn : Turn lib n p (f t) o r p' there) :
    o ≠ .shutdown ∧ p'.shutdown = true := by
  rcases turn.flag with ⟨-, isOwner, -⟩ | ⟨no, -, kept | ⟨-, isSet'⟩⟩
  · obtain rfl := eq_none_of_role role (.inl isOwner)
    rw [closing.phase.1 isOwner] at isSet
    cases isSet
  · exact ⟨no, kept.trans isSet⟩
  · exact ⟨no, isSet'⟩

variable [DecidableEq γ]

theorem Closing.served_turn (closing : Closing lib p f log) (booked : Booked p f log)
    (role : InRole t (f t)) (turn : Turn lib n p (f t) o r p' there) (w : Fin n)
    (hasReturned : Function.update f t there (.inl w) = .returned w) : p'.shutdown = true ∧
      ∀ before e after, log ++ [(t, o, r)] = before ++ e :: after → e.2.1 = .shutdown →
        submitted before <+: taken (log ++ [(t, o, r)]) := by
  by_cases already : f (.inl w) = .returned w
  · obtain ⟨isSet, all⟩ := closing.served w already
    obtain ⟨no, isSet'⟩ := closing.not_shutdown isSet role turn
    refine ⟨isSet', fun before e after split isShutdown => ?_⟩
    rcases split_concat split with ⟨-, rfl, -⟩ | ⟨after', rfl, inLog⟩
    · exact absurd isShutdown no
    · exact (all before e after' inLog isShutdown).trans (taken_isPrefix _ _)
  · -- this is the worker that returns
    obtain rfl : t = .inl w := by
      by_contra other
      rw [Function.update_of_ne (Ne.symm other)] at hasReturned
      exact already hasReturned
    rw [Function.update_self] at hasReturned
    rcases turn.returned with ⟨-, ⟨no, -⟩ | ⟨w', isWorker, -, -, -, -, isSet, empty⟩⟩
    · exact absurd (no _ hasReturned) already
    · obtain ⟨no, isSet'⟩ := closing.not_shutdown isSet role turn
      refine ⟨isSet', fun before e after split isShutdown => ?_⟩
      rcases split_concat split with ⟨-, rfl, -⟩ | ⟨after', rfl, inLog⟩
      · exact absurd isShutdown no
      · have all : submitted log = taken log := by
          rw [booked.conserved, empty, List.append_nil]
        have within := submitted_prefix before (e :: after')
        rw [← inLog, all] at within
        exact within.trans (taken_isPrefix _ _)

theorem Closing.turn (closing : Closing lib p f log) (booked : Booked p f log)
    (role : InRole t (f t)) (turn : Turn lib n p (f t) o r p' there) :
    Closing lib p' (Function.update f t there) (log ++ [(t, o, r)]) := by
  -- only the owner is at the places where the flag is set and workers are joined
  have other (elsewhere : t ≠ .inr none) :
      Function.update f t there (.inr none) = f (.inr none) :=
    Function.update_of_ne (Ne.symm elsewhere) _ _
  have elsewhere (isOwners : f t = .owner ∨ f t = .shutDown ∨ (∃ k, f t = .joining k) ∨
      ∃ k, f t = .joiningAgain k) : t = .inr none := eq_none_of_role role isOwners
  constructor
  · by_cases isOwner : t = .inr none
    · subst isOwner
      rw [Function.update_self]
      rcases turn.flag with ⟨-, -, later, isSet⟩ | ⟨-, same, kept | ⟨isShut, isSet⟩⟩
      · simp [later, isSet]
      · rw [same, kept, closing.phase]
      · rw [same, isShut]
        simp [isSet]
    · rw [other isOwner]
      rcases turn.flag with ⟨-, isOwner', -⟩ | ⟨-, -, kept | ⟨isShut, -⟩⟩
      · exact absurd (elsewhere (.inl isOwner')) isOwner
      · rw [kept, closing.phase]
      · exact absurd (elsewhere (.inr (.inl isShut))) isOwner
  · rcases turn.flag with ⟨isShutdown, -, -, isSet⟩ | ⟨no, -, same⟩
    · simp [isShutdown, isSet]
    · have kept : p'.shutdown = true ↔ p.shutdown = true := by
        rcases same with same | ⟨isShut, isSet⟩
        · rw [same]
        · obtain rfl := elsewhere (.inr (.inl isShut))
          have later : p.shutdown = true := by
            rw [← Bool.not_eq_false]
            intro unset
            rw [closing.phase.2 unset] at isShut
            cases isShut
          simp [isSet, later]
      rw [kept, closing.flag]
      simp [no]
  · intro w isReturned
    rcases turn.returned with ⟨stays, ⟨-, same⟩ | ⟨w', isWorker, hasReturned, -, -, same, -⟩⟩
    · rw [same] at isReturned
      have before := closing.returned w isReturned
      by_cases isIt : t = .inl w
      · subst isIt
        rw [Function.update_self]
        rcases stays with stays | never
        · exact stays.trans before
        · exact absurd before (never _)
      · rw [Function.update_of_ne (Ne.symm isIt)]
        exact before
    · rw [isWorker] at role
      rcases t with w'' | _ | g
      · obtain rfl : w' = w'' := role
        by_cases isIt : w = w''
        · subst isIt
          rw [Function.update_self]
          exact hasReturned
        · rw [same, Function.update_of_ne fun eq => isIt (Fin.ext eq)] at isReturned
          rw [Function.update_of_ne fun eq => isIt (Sum.inl.inj eq)]
          exact closing.returned w isReturned
      · exact role.elim
      · exact role.elim
  · exact closing.served_turn booked role turn
  · intro w
    have joined := turn.joins w.isLt
    by_cases isOwner : t = .inr none
    · subst isOwner
      rw [Function.update_self]
      rcases joined with ⟨rfl, -, more⟩ | ⟨no, same⟩
      · rw [joins_concat_join, closing.joins, more]
      · rw [joins_concat_of_ne no, closing.joins, same]
    · have no : o ≠ .join w := fun isJoin =>
        isOwner (elsewhere (.inr (.inr (turn.joining isJoin))))
      rw [other isOwner, joins_concat_of_ne no, closing.joins]
  · intro w positive
    by_cases isOwner : t = .inr none
    · subst isOwner
      rcases turn.joins w.isLt with ⟨-, hasReturned, -⟩ | ⟨-, same⟩
      · exact turn.returned_mono hasReturned
      · exact turn.returned_mono (closing.joined w (same ▸ positive))
    · rw [other isOwner] at positive
      exact turn.returned_mono (closing.joined w positive)

end Closing

/-! ## Every interleaving -/

section Runs

variable {lib : Library} {runs : β → Prop} {p : Pool β} {f : Threads n γ → Place β}
  {log : List (Entry n γ β)}

/-- What holds in every state. -/
structure Kept (lib : Library) (p : Pool β) (f : Threads n γ → Place β)
    (log : List (Entry n γ β)) : Prop where
  roles : ∀ t, InRole t (f t)
  booked : Booked p f log
  waited : Waited log
  closing : Closing lib p f log

theorem roles_start (t : Threads n γ) : InRole t (start t : Place β) := by
  rcases t with w | _ | g
  · rfl
  · trivial
  · trivial

theorem kept_start : Kept (n := n) (γ := γ) (β := β) lib {} start [] := by
  refine ⟨roles_start, booked_start, ?_, closing_start⟩
  intro before e after none'
  exact absurd none' (by simp)

variable [DecidableEq γ]

theorem roles_turn (roles : ∀ t, InRole t (f t)) {t : Threads n γ} {p p' : Pool β} {o : Request β}
    {r : Reply β} {there : Place β} (turn : Turn lib n p (f t) o r p' there) (t' : Threads n γ) :
    InRole t' (Function.update f t there t') := by
  by_cases isIt : t' = t
  · subst isIt
    rw [Function.update_self]
    exact (roles t').turn turn
  · rw [Function.update_of_ne isIt]
    exact roles t'

theorem Kept.done (kept : Kept lib p f log) {t : Threads n γ} {o : Request β} {r : Reply β}
    {p' : Pool β} {wakes : List (Wake Cond)} (calls : Calls runs n (f t) o)
    (enters : Enters lib p o (.done r p' wakes)) :
    Kept lib p' (Function.update f t (returns lib n (f t) o r)) (log ++ [(t, o, r)]) := by
  have turn := turn_of_enters calls enters
  have role := kept.roles t
  exact ⟨roles_turn kept.roles turn, kept.booked.turn role turn, kept.waited.turn kept.booked turn,
    kept.closing.turn kept.booked role turn⟩

end Runs

/-! ## Wake-ups -/

section Waking

variable {lib : Library} {runs : β → Prop}

/-- How many workers could go on. -/
def tasksLeft (p : Pool β) : Option Nat := if p.shutdown then none else some p.tasks.length

/-- Whether there is something to wait for. -/
def someLeft (p : Pool β) : Option Nat := if 0 < p.pending then some 0 else none

/-- Whether a worker is there to be joined. -/
def stillRuns (w : Nat) (p : Pool β) : Option Nat := if p.returned w then none else some 0

theorem paced_notEmpty : Paced (system lib runs n (Enters lib)) .notEmpty (tasksLeft (β := β))
    (fun o => ∃ w, o = .take w) where
  wait p o enters := by
    cases enters with
    | sleep goesOn empty => exact ⟨by simp [tasksLeft, goesOn, empty], _, rfl⟩
  only p o c enters isWaiter := by
    obtain ⟨w, rfl⟩ := isWaiter
    cases enters
    rfl
  done p o r p' wakes enters := by
    by_cases isShut : p.shutdown = true
    · exact .inr (.inl (if_pos isShut))
    · have goesOn : tasksLeft p = some p.tasks.length := if_neg isShut
      cases enters with
      | exit yes => exact absurd yes isShut
      | take first =>
        exact .inr (.inr ⟨_, _, goesOn, if_neg isShut, by simp [first]; omega,
          by simp [first]⟩)
      | submit => exact .inr (.inr ⟨_, _, goesOn, if_neg isShut, by simp [signals], by simp⟩)
      | shutdown | shutAgain => exact .inl List.mem_cons_self
      | finish => exact .inr (.inr ⟨_, _, goesOn, goesOn, Nat.le_add_right _ _, by simp⟩)
      | drop | wait | join | free | destroy =>
        exact .inr (.inr ⟨_, _, goesOn, goesOn, Nat.le_add_right _ _, by simp⟩)

theorem paced_allDone : Paced (system lib runs n (Enters lib)) .allDone (someLeft (β := β))
    (· = .wait) where
  wait p o enters := by
    cases enters with
    | more some' => exact ⟨if_pos some', rfl⟩
  only p o c enters isWaiter := by
    subst isWaiter
    cases enters
    rfl
  done p o r p' wakes enters := by
    by_cases some' : 0 < p.pending
    · have waits : someLeft p = some 0 := if_pos some'
      cases enters with
      | finish =>
        by_cases last : p.pending - 1 = 0
        · rw [if_pos last]
          exact .inl List.mem_cons_self
        · have more : 0 < p.pending - 1 := by omega
          exact .inr (.inr ⟨_, _, waits, if_pos more, Nat.zero_le _, nofun⟩)
      | submit =>
        have more : 0 < p.pending + 1 := by omega
        exact .inr (.inr ⟨_, _, waits, if_pos more, Nat.zero_le _, nofun⟩)
      | wait none' => exact absurd some' (by omega)
      | exit | take | drop | shutdown | join | free | shutAgain | destroy =>
        exact .inr (.inr ⟨_, _, waits, waits, Nat.zero_le _, nofun⟩)
    · exact .inr (.inl (if_neg some'))

theorem paced_returned (w : Nat) : Paced (system lib runs n (Enters lib)) (.returned w)
    (stillRuns (β := β) w) (· = .join w) where
  wait p o enters := by
    cases enters with
    | block isRunning => exact ⟨by simp [stillRuns, isRunning], rfl⟩
  only p o c enters isWaiter := by
    subst isWaiter
    cases enters
    rfl
  done p o r p' wakes enters := by
    by_cases hasReturned : p.returned w = true
    · exact .inr (.inl (if_pos hasReturned))
    · have waits : stillRuns w p = some 0 := if_neg hasReturned
      cases enters with
      | @exit w' =>
        by_cases isIt : w' = w
        · subst isIt
          exact .inl List.mem_cons_self
        · have waits' : stillRuns w { p with returned := Function.update p.returned w' true } =
              some 0 := by
            rw [stillRuns, if_neg]
            dsimp only
            rwa [Function.update_of_ne (Ne.symm isIt)]
          exact .inr (.inr ⟨_, _, waits, waits', Nat.zero_le _, nofun⟩)
      | @join w' yes =>
        refine .inr (.inr ⟨_, _, waits, waits, Nat.zero_le _, ?_⟩)
        rintro same
        cases same
        exact absurd yes hasReturned
      | finish | take | submit | drop | wait | shutdown | free | shutAgain | destroy =>
        exact .inr (.inr ⟨_, _, waits, waits, Nat.zero_le _, nofun⟩)

end Waking

/-! ## No task is forgotten -/

section Rest

variable {lib : Library} {runs : β → Prop} [DecidableEq γ]

abbrev Config (n : Nat) (γ σ β : Type) :=
  Logic.Monitor.Config (Threads n γ) σ (Place β) (Request β) Cond (Reply β)

/-- No worker can go on. -/
def AtRest {σ : Type} (a : Config n γ σ β) : Prop :=
  ∀ w : Fin n, (∃ c p o, a.threads (.inl w) = .asleep c p o) ∨
    a.threads (.inl w) = .out (.returned w)

omit [DecidableEq γ] in
theorem submitted_of_split {log before after before' after' : List (Entry n γ β)} {e : Entry n γ β}
    (split : log = before ++ after) (split' : log = before' ++ e :: after')
    (early : ∀ e ∈ before, e.2.1 ≠ .shutdown) (isShutdown : e.2.1 = .shutdown) :
    submitted before <+: submitted before' := by
  rcases List.append_eq_append_iff.1 (split.symm.trans split') with ⟨x, same, -⟩ | ⟨x, same, same'⟩
  · rw [same]
    exact submitted_prefix _ _
  · cases x with
    | nil =>
      rw [same, List.append_nil]
    | cons e' x =>
      obtain rfl := (List.cons.inj same').1
      exact absurd isShutdown (early e (by simp [same]))

/-- The places of the owner when `duxrt_pool_shutdown` has returned. -/
def IsShutDown : Place β → Prop
  | .shutDown | .joiningAgain _ | .freeing | .freed => True
  | _ => False

/-- The places of the owner in `duxrt_pool_free`. -/
def IsFreeing : Place β → Prop
  | .joiningAgain _ | .freeing | .freed => True
  | _ => False

/-- All tasks that were taken have finished, and those submitted before a shutdown were
taken. -/
def AllServed (log : List (Entry n γ β)) : Prop :=
  (finished log).Perm (taken log) ∧ ∀ before after, log = before ++ after →
    (∀ e ∈ before, e.2.1 ≠ .shutdown) → submitted before <+: taken log

section Serving

variable {p : Pool β} {f : Threads n γ → Place β} {log : List (Entry n γ β)}

omit [DecidableEq γ] in
theorem running_eq_zero (places : ∀ w, f (.inl w) = .worker w ∨ f (.inl w) = .returned w) :
    running f = 0 := by
  apply Finset.sum_eq_zero
  intro w _
  rcases places w with isWorker | hasReturned
  · rw [isWorker]
    rfl
  · rw [hasReturned]
    rfl

omit [DecidableEq γ] in
theorem Kept.finished_perm (kept : Kept lib p f log)
    (places : ∀ w, f (.inl w) = .worker w ∨ f (.inl w) = .returned w) :
    (finished log).Perm (taken log) := by
  apply Multiset.coe_eq_coe.1
  rw [kept.booked.ran, running_eq_zero places, add_zero]

omit [DecidableEq γ] in
/-- A worker that has returned is a sign that nothing was left. -/
theorem Kept.served_of_returned (kept : Kept lib p f log)
    (places : ∀ w, f (.inl w) = .worker w ∨ f (.inl w) = .returned w) {w : Fin n}
    (hasReturned : f (.inl w) = .returned w) : AllServed log := by
  refine ⟨kept.finished_perm places, fun before after split early => ?_⟩
  obtain ⟨isSet, all⟩ := kept.closing.served w hasReturned
  obtain ⟨e, member, isShutdown⟩ := kept.closing.flag.1 isSet
  obtain ⟨before', after', split'⟩ := List.append_of_mem member
  exact (submitted_of_split split split' early isShutdown).trans
    (all before' e after' split' isShutdown)

omit [DecidableEq γ] in
theorem Kept.served_of_shutDown (kept : Kept lib p f log) (positive : 0 < n)
    (isOver : IsShutDown (f (.inr none))) : AllServed log := by
  have joined (w : Fin n) : 0 < (f (.inr none)).joins lib w := by
    cases here : f (.inr none) with
    | shutDown | freeing => exact Nat.succ_pos _
    | joiningAgain k =>
      rw [Place.joins]
      split <;> exact Nat.succ_pos _
    | freed => cases lib <;> exact Nat.succ_pos _
    | worker | running | returned | client | owner | joining =>
      rw [here] at isOver
      exact isOver.elim
  have all (w : Fin n) : f (.inl w) = .returned w :=
    kept.closing.returned w (kept.closing.joined w (joined w))
  exact kept.served_of_returned (fun w => .inr (all w)) (all ⟨0, positive⟩)

end Serving

variable [Fintype γ] {a : Config n γ (Pool β) β}

omit [Fintype γ] in
theorem kept_of_runs (run : Runs (system lib runs n (Enters lib)) (.start {} start) a) :
    a.Lawful (system lib runs n (Enters lib)) ∧ Kept lib a.shared a.own a.log :=
  run.known (lawful_start _ _) kept_start fun _ _ _ _ _ _ _ _ kept calls enters =>
    kept.done calls enters

omit [DecidableEq γ] [Fintype γ] in
theorem owner_of_isFreeing {t : Threads n γ} {here : Place β} (role : InRole t here)
    (isFreeing : IsFreeing here) : t = .inr none := by
  rcases t with w | _ | g
  · cases here <;> first | exact role.elim | exact isFreeing.elim
  · rfl
  · cases here <;> first | exact role.elim | exact isFreeing.elim

omit [DecidableEq γ] [Fintype γ] in
theorem Turn.freeing {p p' : Pool β} {here there : Place β} {o : Request β} {r : Reply β}
    (turn : Turn lib n p here o r p' there) (freeing : IsFreeing there ∨ p'.destroyed = true) :
    o = .free ∨ IsFreeing here ∨ p.destroyed = true := by
  cases turn with
  | free | shutAgain => exact .inl rfl
  | destroy | joinAgain => exact .inr (.inl trivial)
  | @join k =>
    rcases afterJoin_cases n k .joining (.shutDown : Place β) with ⟨same, -⟩ | ⟨same, -⟩
    · rw [same] at freeing
      exact .inr freeing
    · rw [same] at freeing
      exact .inr freeing
  | _ => exact .inr freeing

omit [Fintype γ] in
theorem free_of_runs (run : Runs (system lib runs n (Enters lib)) (.start {} start) a)
    (freeing : IsFreeing (a.own (.inr none)) ∨ a.shared.destroyed = true) :
    ∃ e ∈ a.log, e.2.1 = .free := by
  have known := run.known (I := fun p f log => (∀ t, InRole t (f t)) ∧
    (IsFreeing (f (.inr none)) ∨ p.destroyed = true → ∃ e ∈ log, e.2.1 = .free))
    (lawful_start _ _) ⟨roles_start, ?_⟩ ?_
  · exact known.2.2 freeing
  · rintro (isFreeing | isDestroyed)
    · exact isFreeing.elim
    · cases isDestroyed
  · rintro p f log t o r p' wakes ⟨roles, before⟩ calls enters
    have turn := turn_of_enters calls enters
    refine ⟨roles_turn roles turn, fun after => ?_⟩
    by_cases isFree : o = .free
    · exact ⟨_, List.mem_append_right _ List.mem_cons_self, isFree⟩
    · have earlier : IsFreeing (f (.inr none)) ∨ p.destroyed = true := by
        by_cases isOwner : t = .inr none
        · subst isOwner
          exact (turn.freeing after).resolve_left isFree
        · rw [Function.update_of_ne (Ne.symm isOwner)] at after
          rcases after with isFreeing | isDestroyed
          · exact .inl isFreeing
          · rcases (turn.freeing (.inr isDestroyed)).resolve_left isFree with isFreeing | before'
            · exact absurd (owner_of_isFreeing (roles t) isFreeing) isOwner
            · exact .inr before'
      obtain ⟨e, member, same⟩ := before earlier
      exact ⟨e, List.mem_append_left _ member, same⟩

theorem asleep_worker (run : Runs (system lib runs n (Enters lib)) (.start {} start) a) {w : Fin n}
    {c : Cond} {p : Place β} {o : Request β} (asleep : a.threads (.inl w) = .asleep c p o) :
    c = .notEmpty ∧ p = .worker w := by
  obtain ⟨lawful, kept⟩ := kept_of_runs run
  have own : a.own (.inl w) = p := congrArg Thread.own asleep
  have role := kept.roles (.inl w)
  have calls := lawful (.inl w) o (congrArg Thread.pending asleep)
  rw [own] at role calls
  cases c with
  | notEmpty =>
    obtain ⟨w', rfl⟩ := (paced_notEmpty.attended run (attended_start _ _)).waiters _ o
      ⟨p, .inl asleep⟩
    cases calls
    exact ⟨rfl, congrArg _ role⟩
  | allDone =>
    obtain rfl := (paced_allDone.attended run (attended_start _ _)).waiters _ o ⟨p, .inl asleep⟩
    cases calls <;> exact role.elim
  | returned k =>
    obtain rfl := ((paced_returned k).attended run (attended_start _ _)).waiters _ o
      ⟨p, .inl asleep⟩
    cases calls <;> exact role.elim

theorem served_of_atRest (positive : 0 < n)
    (run : Runs (system lib runs n (Enters lib)) (.start {} start) a) (rest : AtRest a) :
    AllServed a.log := by
  obtain ⟨lawful, kept⟩ := kept_of_runs run
  have places (w : Fin n) : a.own (.inl w) = .worker w ∨ a.own (.inl w) = .returned w := by
    rcases rest w with ⟨c, p, o, asleep⟩ | hasReturned
    · have own : a.own (.inl w) = p := congrArg Thread.own asleep
      exact .inl (own.trans (asleep_worker run asleep).2)
    · exact .inr (congrArg Thread.own hasReturned)
  by_cases someone : ∃ w : Fin n, a.own (.inl w) = .returned w
  · obtain ⟨w, hasReturned⟩ := someone
    exact kept.served_of_returned places hasReturned
  · -- all workers sleep, so that nothing is in the queue
    have sleeps (w : Fin n) : ∃ o, a.threads (.inl w) = .asleep .notEmpty (.worker w) o := by
      rcases rest w with ⟨c, p, o, asleep⟩ | hasReturned
      · obtain ⟨rfl, rfl⟩ := asleep_worker run asleep
        exact ⟨o, asleep⟩
      · exact absurd ⟨w, congrArg Thread.own hasReturned⟩ someone
    have attended := paced_notEmpty.attended run (attended_start _ _)
    obtain ⟨o, asleep⟩ := sleeps ⟨0, positive⟩
    refine ⟨kept.finished_perm places, fun before after split _ => ?_⟩
    by_cases empty : tasksLeft a.shared = some 0
    · unfold tasksLeft at empty
      split at empty
      · cases empty
      · have none' : a.shared.tasks = [] :=
          List.eq_nil_of_length_eq_zero (Option.some.inj empty)
        have within := submitted_prefix before after
        rwa [← split, kept.booked.conserved, none', List.append_nil] at within
    · obtain ⟨t, p, o', awake⟩ := attended.awake ⟨_, _, _, asleep⟩ empty
      obtain ⟨w, rfl⟩ := attended.waiters t o' ⟨p, .inr awake⟩
      have own : a.own t = p := congrArg Thread.own awake
      have calls := lawful t _ (congrArg Thread.pending awake)
      have role := kept.roles t
      rw [own] at role calls
      cases calls
      rcases t with w' | _ | g
      · obtain ⟨o', asleep'⟩ := sleeps w'
        rw [asleep'] at awake
        cases awake
      · exact role.elim
      · exact role.elim

end Rest

end Dux.Runtime.TaskPool
