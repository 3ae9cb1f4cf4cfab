import Mathlib.Algebra.Group.Nat.Defs
import Mathlib.Data.List.Basic

/-!
# The thread pool behind `async`

Futures and the global pool (`src/runtime/future_rt.c`, `src/runtime/pool_rt.c`):
a fixed number of workers, one FIFO queue of tasks, and a future for every
task.  A task runs on one worker until its function returns; while it waits for
a future its worker waits with it.

What the code of a task does is left open: at any moment a running task may
submit another one, wait for one it submitted, settle its own future, or return
once that is settled.  A run of the system is a list of such actions, so that
every program and every schedule is among the runs.  Tasks are numbered in the order
of their submission.
-/

namespace Dux.Runtime.Pool

/-- `init_global_pool`: the number of workers, from the configured size and the
number of processors. -/
def poolSize (configured cpus : Int) : Nat :=
  let n := if 0 < configured then configured else 4
  let n := if 0 < cpus ∧ configured = 0 then cpus.bmod (2 ^ 32) else n
  let n := if n < 2 then 2 else n
  (if 16 < n then 16 else n).toNat

theorem two_le_poolSize (configured cpus : Int) : 2 ≤ poolSize configured cpus := by
  unfold poolSize
  dsimp only
  split_ifs <;> omega

/-- `DuxFuture`, with the task that submitted the one it belongs to; a thread
outside the pool has none. -/
structure Future where
  owner : Option Nat
  done : Bool
  deriving DecidableEq, Repr

/-- A worker of the pool: in front of the queue, inside a task, or inside
`duxrt_future_await` called by a task. -/
inductive Worker
  | idle
  | running (t : Nat)
  | awaiting (t u : Nat)
  deriving DecidableEq, Repr

def Worker.task : Worker → Option Nat
  | .idle => none
  | .running t => some t
  | .awaiting t _ => some t

/-- `DuxPool` with the futures of all tasks submitted so far. -/
structure State where
  workers : List Worker
  queue : List Nat
  futures : List Future
  deriving DecidableEq, Repr

/-- The pool when the first task is submitted. -/
def State.initial (configured cpus : Int) : State :=
  ⟨List.replicate (poolSize configured cpus) .idle, [], []⟩

inductive Action
  | submitOutside
  | submit (i : Nat)
  | take (i : Nat)
  | await (i : Nat) (u : Nat)
  | wake (i : Nat)
  | set (i : Nat)
  | finish (i : Nat)
  deriving DecidableEq, Repr

namespace State

/-- `duxrt_pool_submit` at the end of the queue, after `duxrt_future_new`. -/
def enqueue (s : State) (owner : Option Nat) : State :=
  { s with queue := s.queue ++ [s.futures.length], futures := s.futures ++ [⟨owner, false⟩] }

/-- Whether a future is settled. -/
def isDone (s : State) (u : Nat) : Bool := s.futures[u]?.any (·.done)

/-- Put a worker into another state. -/
def setWorker (s : State) (i : Nat) (w : Worker) : State :=
  { s with workers := s.workers.set i w }

def settle (s : State) (t : Nat) : State :=
  { s with futures := s.futures.modify t fun f => { f with done := true } }

def step (s : State) : Action → Option State
  | .submitOutside => some (s.enqueue none)
  | .submit i =>
      match s.workers[i]? with
      | some (.running t) => some (s.enqueue (some t))
      | _ => none
  | .take i =>
      match s.workers[i]?, s.queue with
      | some .idle, t :: rest => some { s.setWorker i (.running t) with queue := rest }
      | _, _ => none
  | .await i u =>
      match s.workers[i]?, s.futures[u]? with
      | some (.running t), some f =>
          if f.owner = some t then some (s.setWorker i (.awaiting t u)) else none
      | _, _ => none
  | .wake i =>
      match s.workers[i]? with
      | some (.awaiting t u) => if s.isDone u then some (s.setWorker i (.running t)) else none
      | _ => none
  | .set i =>
      match s.workers[i]? with
      | some (.running t) => if s.isDone t then none else some (s.settle t)
      | _ => none
  | .finish i =>
      match s.workers[i]? with
      | some (.running t) => if s.isDone t then some (s.setWorker i .idle) else none
      | _ => none

/-- A submitted task whose future is not settled yet. -/
def Unfinished (s : State) (t : Nat) : Prop := t < s.futures.length ∧ s.isDone t = false

/-- As long as a task is unfinished, a worker can take a task or go on with the
one it is in. -/
def Progress (s : State) : Prop :=
  (∃ t, s.Unfinished t) → ∃ a, a ≠ .submitOutside ∧ (s.step a).isSome

/-- Every worker waits for a task that is still queued. -/
def AllWaitForQueued (s : State) : Prop :=
  ∀ w ∈ s.workers, ∃ t u, w = .awaiting t u ∧ u ∈ s.queue

/-- A worker that waits for a future nobody has settled. -/
def Blocked (s : State) (w : Worker) : Prop := ∃ t u, w = .awaiting t u ∧ s.isDone u = false

/-- The worker that goes to wait is not the last one able to go on, unless it
need not wait. -/
def Spares (s : State) : Action → Prop
  | .await i u => s.isDone u = true ∨ ∃ j w, j ≠ i ∧ s.workers[j]? = some w ∧ ¬s.Blocked w
  | _ => True

/-- A property of every state that a list of actions leads through. -/
def AlwaysIn (P : State → Prop) : State → List Action → Prop
  | s, [] => P s
  | s, a :: as => P s ∧ ∀ s', s.step a = some s' → AlwaysIn P s' as

/-- A property of every step that a list of actions takes. -/
def EveryStep (C : State → Action → Prop) : State → List Action → Prop
  | _, [] => True
  | s, a :: as => ∀ s', s.step a = some s' → C s a ∧ EveryStep C s' as

/-! ## What the operations do to futures and workers -/

section Operations

variable {s s' : State} {i : Nat} {w w' : Worker} {t u : Nat}

@[simp]
theorem isDone_enqueue (s : State) (owner : Option Nat) (u : Nat) :
    (s.enqueue owner).isDone u = s.isDone u := by
  unfold isDone enqueue
  rcases Nat.lt_trichotomy u s.futures.length with old | rfl | beyond
  · rw [List.getElem?_append_left old]
  · simp
  · rw [List.getElem?_eq_none (by simp; omega), List.getElem?_eq_none (by omega)]

@[simp]
theorem isDone_setWorker (s : State) (i : Nat) (w : Worker) (u : Nat) :
    (s.setWorker i w).isDone u = s.isDone u := rfl

theorem isDone_settle (s : State) (t u : Nat) :
    (s.settle t).isDone u = (s.isDone u || (decide (u = t) && decide (t < s.futures.length))) := by
  unfold isDone settle
  rw [List.getElem?_modify]
  by_cases same : t = u
  · subst same
    by_cases known : t < s.futures.length
    · simp [known]
    · simp [known]
  · simp [same, Ne.symm same]

theorem isDone_of_length_le (beyond : s.futures.length ≤ u) : s.isDone u = false := by
  unfold isDone
  rw [List.getElem?_eq_none beyond]
  rfl

theorem task_kept {ws : List Worker} (here : ws[i]? = some w)
    (held : ∃ v ∈ ws, v.task = some t) (other : w.task ≠ some t) :
    ∃ v ∈ ws.set i w', v.task = some t := by
  obtain ⟨v, member, task⟩ := held
  obtain ⟨j, hj⟩ := List.mem_iff_getElem?.1 member
  refine ⟨v, List.mem_iff_getElem?.2 ⟨j, ?_⟩, task⟩
  rw [List.getElem?_set]
  by_cases same : i = j
  · subst same
    rw [here] at hj
    cases hj
    exact absurd task other
  · rw [if_neg same, hj]

theorem mem_set_self {ws : List Worker} (here : ws[i]? = some w) : w' ∈ ws.set i w' :=
  List.mem_set (List.getElem?_eq_some_iff.1 here).1 _

end Operations

/-! ## The invariant -/

/-- What holds in every state of every run: a task whose future is not settled
is in the queue or on a worker, and tasks wait for younger ones. -/
structure Sound (s : State) : Prop where
  staffed : s.workers ≠ []
  queued : ∀ t ∈ s.queue, s.Unfinished t
  nodup : s.queue.Nodup
  apart : ∀ w ∈ s.workers, ∀ t, w.task = some t → t ∉ s.queue ∧ t < s.futures.length
  placed : ∀ t, s.Unfinished t → t ∈ s.queue ∨ ∃ w ∈ s.workers, w.task = some t
  younger : ∀ t u, Worker.awaiting t u ∈ s.workers → t < u ∧ u < s.futures.length
  owned : ∀ (u : Nat) (f : Future), s.futures[u]? = some f → ∀ t, f.owner = some t → t < u

theorem sound_initial (configured cpus : Int) : Sound (initial configured cpus) := by
  have idle : ∀ w ∈ (initial configured cpus).workers, w = .idle := fun w member =>
    List.eq_of_mem_replicate member
  constructor
  · have := two_le_poolSize configured cpus
    intro empty
    have size := congrArg List.length empty
    simp only [initial, List.length_replicate, List.length_nil] at size
    omega
  · intro t member
    cases member
  · exact List.nodup_nil
  · intro w member t task
    rw [idle w member] at task
    cases task
  · rintro t ⟨known, _⟩
    exact absurd known (Nat.not_lt_zero t)
  · intro t u member
    cases idle _ member
  · intro u f found
    cases found

variable {s s' : State} {i : Nat} {t u : Nat}

theorem Sound.enqueue (sound : Sound s) {owner : Option Nat}
    (submits : ∀ t, owner = some t → t < s.futures.length) : Sound (s.enqueue owner) := by
  have length : (s.enqueue owner).futures.length = s.futures.length + 1 := by
    simp [State.enqueue]
  have fresh : s.futures.length ∉ s.queue := fun member =>
    Nat.lt_irrefl _ (sound.queued _ member).1
  have unfinished : ∀ {t}, s.Unfinished t → (s.enqueue owner).Unfinished t := by
    rintro t ⟨known, open_⟩
    exact ⟨by omega, by rw [isDone_enqueue, open_]⟩
  constructor
  · exact sound.staffed
  · intro t member
    rcases List.mem_append.1 member with old | new
    · exact unfinished (sound.queued t old)
    · rw [List.mem_singleton.1 new]
      exact ⟨by omega, by rw [isDone_enqueue, isDone_of_length_le (Nat.le_refl _)]⟩
  · exact List.nodup_append.2 ⟨sound.nodup, List.pairwise_singleton _ _, fun a inQueue b new => by
      rw [List.mem_singleton.1 new]
      rintro rfl
      exact fresh inQueue⟩
  · intro w member t task
    obtain ⟨away, known⟩ := sound.apart w member t task
    refine ⟨fun inQueue => ?_, by omega⟩
    rcases List.mem_append.1 inQueue with old | new
    · exact away old
    · rw [List.mem_singleton.1 new] at known
      exact Nat.lt_irrefl _ known
  · rintro t ⟨known, open_⟩
    rw [isDone_enqueue] at open_
    by_cases old : t < s.futures.length
    · exact (sound.placed t ⟨old, open_⟩).imp_left (List.mem_append_left _)
    · have last : t = s.futures.length := by omega
      exact Or.inl (List.mem_append_right _ (List.mem_singleton.2 last))
  · intro t u member
    obtain ⟨before, known⟩ := sound.younger t u member
    exact ⟨before, by omega⟩
  · intro u f found t owns
    simp only [State.enqueue] at found
    by_cases old : u < s.futures.length
    · rw [List.getElem?_append_left old] at found
      exact sound.owned u f found t owns
    · rw [List.getElem?_append_right (Nat.le_of_not_lt old)] at found
      have here : u - s.futures.length = 0 := by
        by_contra later
        rw [List.getElem?_eq_none (by simp; omega)] at found
        cases found
      rw [here] at found
      cases found
      have := submits t owns
      omega

theorem Sound.setWorker (sound : Sound s) {w w' : Worker} (here : s.workers[i]? = some w)
    (task : w'.task = w.task ∨ (w'.task = none ∧ ∀ t, w.task = some t → s.isDone t = true))
    (waits : ∀ t u, w' = .awaiting t u → t < u ∧ u < s.futures.length) :
    Sound (s.setWorker i w') := by
  have member := List.mem_of_getElem? here
  constructor
  · intro empty
    exact sound.staffed ((List.set_eq_nil_iff _ _).1 empty)
  · exact sound.queued
  · exact sound.nodup
  · intro v vMember t vTask
    rcases List.mem_or_eq_of_mem_set vMember with old | rfl
    · exact sound.apart v old t vTask
    · rcases task with same | ⟨nothing, _⟩
      · exact sound.apart w member t (same ▸ vTask)
      · rw [nothing] at vTask
        cases vTask
  · intro t unfinished
    refine (sound.placed t unfinished).imp_right fun held => ?_
    by_cases own : w.task = some t
    · rcases task with same | ⟨_, laidDown⟩
      · exact ⟨w', mem_set_self here, same.trans own⟩
      · have done := laidDown t own
        rw [show s.isDone t = false from unfinished.2] at done
        cases done
    · exact task_kept here held own
  · intro t u waiting
    rcases List.mem_or_eq_of_mem_set waiting with old | rfl
    · exact sound.younger t u old
    · exact waits t u rfl
  · exact sound.owned

theorem Sound.take (sound : Sound s) {rest : List Nat}
    (here : s.workers[i]? = some .idle) (queue : s.queue = t :: rest) :
    Sound { s.setWorker i (.running t) with queue := rest } := by
  have inQueue : ∀ {x}, x ∈ rest → x ∈ s.queue := fun member => by
    rw [queue]
    exact List.mem_cons_of_mem _ member
  have first : t ∈ s.queue := by simp [queue]
  have nodup := sound.nodup
  rw [queue, List.nodup_cons] at nodup
  constructor
  · intro empty
    exact sound.staffed ((List.set_eq_nil_iff _ _).1 empty)
  · intro x member
    exact sound.queued x (inQueue member)
  · exact nodup.2
  · intro v vMember x vTask
    rcases List.mem_or_eq_of_mem_set vMember with old | rfl
    · obtain ⟨away, known⟩ := sound.apart v old x vTask
      exact ⟨fun member => away (inQueue member), known⟩
    · cases vTask
      exact ⟨nodup.1, (sound.queued t first).1⟩
  · intro x unfinished
    rcases sound.placed x unfinished with queued | held
    · rw [queue] at queued
      rcases List.mem_cons.1 queued with rfl | later
      · exact Or.inr ⟨.running x, mem_set_self here, rfl⟩
      · exact Or.inl later
    · exact Or.inr (task_kept here held fun idle => by cases idle)
  · intro x u waiting
    rcases List.mem_or_eq_of_mem_set waiting with old | new
    · exact sound.younger x u old
    · cases new
  · exact sound.owned

theorem Sound.settle (sound : Sound s) (here : s.workers[i]? = some (.running t)) :
    Sound (s.settle t) := by
  have length : (s.settle t).futures.length = s.futures.length := List.length_modify _ _ _
  have away := (sound.apart _ (List.mem_of_getElem? here) t rfl).1
  constructor
  · exact sound.staffed
  · intro x member
    obtain ⟨known, open_⟩ := sound.queued x member
    have other : x ≠ t := fun same => away (same ▸ member)
    refine ⟨by rw [length]; exact known, ?_⟩
    rw [isDone_settle, open_, decide_eq_false other]
    rfl
  · exact sound.nodup
  · intro w member x task
    rw [length]
    exact sound.apart w member x task
  · rintro x ⟨known, open_⟩
    rw [isDone_settle, Bool.or_eq_false_iff] at open_
    rw [length] at known
    exact sound.placed x ⟨known, open_.1⟩
  · intro x u member
    rw [length]
    exact sound.younger x u member
  · intro u f found x owns
    simp only [State.settle, List.getElem?_modify, Option.map_eq_map,
      Option.map_eq_some_iff] at found
    obtain ⟨f', found', rfl⟩ := found
    exact sound.owned u f' found' x (by split at owns <;> exact owns)

/-- What an action finds before it and leaves behind. -/
inductive Takes (s : State) : Action → State → Prop
  | submitOutside : Takes s .submitOutside (s.enqueue none)
  | submit {i t : Nat} (here : s.workers[i]? = some (.running t)) :
      Takes s (.submit i) (s.enqueue (some t))
  | take {i t : Nat} {rest : List Nat} (here : s.workers[i]? = some .idle)
      (queue : s.queue = t :: rest) :
      Takes s (.take i) { s.setWorker i (.running t) with queue := rest }
  | await {i t u : Nat} {f : Future} (here : s.workers[i]? = some (.running t))
      (found : s.futures[u]? = some f) (own : f.owner = some t) :
      Takes s (.await i u) (s.setWorker i (.awaiting t u))
  | wake {i t u : Nat} (here : s.workers[i]? = some (.awaiting t u)) (done : s.isDone u = true) :
      Takes s (.wake i) (s.setWorker i (.running t))
  | set {i t : Nat} (here : s.workers[i]? = some (.running t)) (open_ : s.isDone t = false) :
      Takes s (.set i) (s.settle t)
  | finish {i t : Nat} (here : s.workers[i]? = some (.running t)) (done : s.isDone t = true) :
      Takes s (.finish i) (s.setWorker i .idle)

theorem takes_of_step {a : Action} (taken : s.step a = some s') : Takes s a s' := by
  cases a with
  | submitOutside =>
      cases taken
      exact .submitOutside
  | submit i =>
      simp only [step] at taken
      split at taken
      · cases taken
        exact .submit ‹_›
      · cases taken
  | take i =>
      simp only [step] at taken
      split at taken
      · cases taken
        exact .take ‹_› ‹_›
      · cases taken
  | await i u =>
      simp only [step] at taken
      split at taken
      · split at taken
        · cases taken
          exact .await ‹_› ‹_› ‹_›
        · cases taken
      · cases taken
  | wake i =>
      simp only [step] at taken
      split at taken
      · split at taken
        · cases taken
          exact .wake ‹_› ‹_›
        · cases taken
      · cases taken
  | set i =>
      simp only [step] at taken
      split at taken
      · split at taken
        · cases taken
        · cases taken
          exact .set ‹_› (Bool.eq_false_iff.2 ‹_›)
      · cases taken
  | finish i =>
      simp only [step] at taken
      split at taken
      · split at taken
        · cases taken
          exact .finish ‹_› ‹_›
        · cases taken
      · cases taken

theorem Sound.step (sound : Sound s) {a : Action} (taken : s.step a = some s') : Sound s' := by
  cases takes_of_step taken with
  | submitOutside => exact sound.enqueue fun t none => by cases none
  | submit here =>
      refine sound.enqueue fun x owner => ?_
      cases owner
      exact (sound.apart _ (List.mem_of_getElem? here) _ rfl).2
  | take here queue => exact sound.take here queue
  | await here found own =>
      refine sound.setWorker here (Or.inl rfl) fun t u waiting => ?_
      cases waiting
      exact ⟨sound.owned _ _ found _ own, (List.getElem?_eq_some_iff.1 found).1⟩
  | wake here _ => exact sound.setWorker here (Or.inl rfl) fun t u waiting => by cases waiting
  | set here _ => exact sound.settle here
  | finish here done =>
      refine sound.setWorker here (Or.inr ⟨rfl, fun t task => ?_⟩) fun t u waiting => by
        cases waiting
      cases task
      exact done

/-! ## Progress -/

/-- Every worker waits for a future nobody has settled. -/
def AllBlocked (s : State) : Prop := ∀ w ∈ s.workers, s.Blocked w

theorem running_proceeds (here : s.workers[i]? = some (.running t)) :
    ∃ a, a ≠ .submitOutside ∧ (s.step a).isSome := by
  by_cases done : s.isDone t = true
  · exact ⟨.finish i, by simp, by simp [step, here, done]⟩
  · exact ⟨.set i, by simp, by simp [step, here, done]⟩

/-- With an empty queue, somebody works for every unfinished task: the task
itself, or one it waits for, which is younger. -/
theorem Sound.works (sound : Sound s) (empty : s.queue = []) {t : Nat}
    (unfinished : s.Unfinished t) : ∃ a, a ≠ .submitOutside ∧ (s.step a).isSome := by
  obtain ⟨w, member, task⟩ := (sound.placed t unfinished).resolve_left (by simp [empty])
  obtain ⟨i, here⟩ := List.mem_iff_getElem?.1 member
  cases w with
  | idle => cases task
  | running x => exact running_proceeds here
  | awaiting x u =>
      cases task
      obtain ⟨later, known⟩ := sound.younger t u member
      by_cases done : s.isDone u = true
      · exact ⟨.wake i, by simp, by simp [State.step, here, done]⟩
      · exact Sound.works sound empty ⟨known, by simpa using done⟩
termination_by s.futures.length - t
decreasing_by omega

/-- As long as one worker can go on, the pool can. -/
theorem Sound.progress (sound : Sound s) (spare : ¬s.AllBlocked) : s.Progress := by
  rintro ⟨t, unfinished⟩
  rcases queue : s.queue with - | ⟨first, rest⟩
  · exact sound.works queue unfinished
  · obtain ⟨w, member, able⟩ : ∃ w ∈ s.workers, ¬s.Blocked w := by
      simpa [AllBlocked] using spare
    obtain ⟨i, here⟩ := List.mem_iff_getElem?.1 member
    cases w with
    | idle => exact ⟨.take i, by simp, by simp [State.step, here, queue]⟩
    | running x => exact running_proceeds here
    | awaiting x u =>
        have done : s.isDone u = true := by
          by_contra open_
          exact able ⟨x, u, rfl, by simpa using open_⟩
        exact ⟨.wake i, by simp, by simp [State.step, here, done]⟩

theorem Sound.stuck (sound : Sound s) (blocked : s.AllBlocked) : ¬s.Progress := by
  intro progress
  obtain ⟨w, ws, workers⟩ := List.exists_cons_of_ne_nil sound.staffed
  have member : w ∈ s.workers := by simp [workers]
  obtain ⟨t, u, rfl, open_⟩ := blocked w member
  obtain ⟨a, inside, possible⟩ := progress ⟨u, (sound.younger t u member).2, open_⟩
  obtain ⟨s', taken⟩ := Option.isSome_iff_exists.1 possible
  have waits : ∀ {i v}, s.workers[i]? = some v → s.Blocked v := fun here =>
    blocked _ (List.mem_of_getElem? here)
  cases takes_of_step taken with
  | submitOutside => exact inside rfl
  | submit here | take here _ | await here _ _ | set here _ | finish here _ =>
      obtain ⟨_, _, other, _⟩ := waits here
      cases other
  | wake here done =>
      obtain ⟨_, _, same, open_⟩ := waits here
      cases same
      rw [done] at open_
      cases open_

theorem Sound.allBlocked (sound : Sound s) (waiting : s.AllWaitForQueued) : s.AllBlocked := by
  intro w member
  obtain ⟨t, u, rfl, queued⟩ := waiting w member
  exact ⟨t, u, rfl, (sound.queued u queued).2⟩

/-- No deadlock in a state. -/
def Lively (s : State) : Prop := s.Progress ∧ ¬s.AllWaitForQueued

theorem Sound.lively_iff (sound : Sound s) : s.Lively ↔ ¬s.AllBlocked := by
  constructor
  · rintro ⟨progress, _⟩ blocked
    exact sound.stuck blocked progress
  · intro spare
    exact ⟨sound.progress spare, fun waiting => spare (sound.allBlocked waiting)⟩

/-- A worker that was able to go on and is left alone still is, unless a future
it waits for was taken back. -/
theorem not_allBlocked_set {w w' : Worker} (here : s.workers[i]? = some w)
    (able : ¬s.Blocked w') : ¬(s.setWorker i w').AllBlocked := fun blocked =>
  able (blocked w' (mem_set_self here))

/-- Among the actions of a pool in which somebody is able to go on, only one that
spares no worker blocks them all. -/
theorem spares_iff (spare : ¬s.AllBlocked) {a : Action}
    (taken : s.step a = some s') : s.Spares a ↔ ¬s'.AllBlocked := by
  cases takes_of_step taken with
  | submitOutside =>
      refine iff_of_true trivial fun blocked => spare fun w member => ?_
      obtain ⟨t, u, rfl, open_⟩ := blocked w member
      exact ⟨t, u, rfl, by rwa [isDone_enqueue] at open_⟩
  | submit here | set here _ =>
      refine iff_of_true trivial fun blocked => ?_
      obtain ⟨t, u, waiting, _⟩ := blocked _ (List.mem_of_getElem? here)
      cases waiting
  | take here queue =>
      refine iff_of_true trivial fun blocked => ?_
      obtain ⟨t, u, waiting, _⟩ := blocked _ (mem_set_self here)
      cases waiting
  | wake here _ | finish here _ =>
      refine iff_of_true trivial (not_allBlocked_set here ?_)
      rintro ⟨t, u, waiting, _⟩
      cases waiting
  | @await i t u f here found own =>
      constructor
      · rintro (done | ⟨j, w, other, there, able⟩) blocked
        · obtain ⟨_, _, same, open_⟩ := blocked _ (mem_set_self here)
          cases same
          rw [isDone_setWorker, done] at open_
          cases open_
        · refine able (blocked w (List.mem_iff_getElem?.2 ⟨j, ?_⟩))
          rw [State.setWorker, List.getElem?_set_ne (Ne.symm other)]
          exact there
      · intro able
        by_contra spares
        simp only [Spares, not_or, not_exists, not_and, not_not] at spares
        refine able fun w member => ?_
        obtain ⟨j, there⟩ := List.mem_iff_getElem?.1 member
        by_cases same : j = i
        · subst same
          rw [State.setWorker, List.getElem?_set_self (List.getElem?_eq_some_iff.1 here).1]
            at there
          cases there
          exact ⟨t, u, rfl, Bool.eq_false_iff.2 spares.1⟩
        · rw [State.setWorker, List.getElem?_set_ne (Ne.symm same)] at there
          exact spares.2 j w same there

theorem initial_lively (configured cpus : Int) : ¬(initial configured cpus).AllBlocked := by
  intro blocked
  obtain ⟨w, ws, workers⟩ := List.exists_cons_of_ne_nil (sound_initial configured cpus).staffed
  obtain ⟨t, u, waiting, _⟩ := blocked w (by simp [workers])
  have idle : w ∈ (initial configured cpus).workers := by simp [workers]
  rw [List.eq_of_mem_replicate idle] at waiting
  cases waiting

/-- No state of a run is a deadlock exactly if no step takes the last worker
that could go on. -/
theorem Sound.alwaysIn_lively_iff (sound : Sound s) (spare : ¬s.AllBlocked) (as : List Action) :
    AlwaysIn Lively s as ↔ EveryStep Spares s as := by
  induction as generalizing s with
  | nil => exact iff_of_true (sound.lively_iff.2 spare) trivial
  | cons a as ih =>
      constructor
      · rintro ⟨_, later⟩ s' taken
        have next := later s' taken
        have lively : s'.Lively := by
          cases as with
          | nil => exact next
          | cons => exact next.1
        have spare' := (sound.step taken).lively_iff.1 lively
        exact ⟨(spares_iff spare taken).2 spare', (ih (sound.step taken) spare').1 next⟩
      · intro spares
        refine ⟨sound.lively_iff.2 spare, fun s' taken => ?_⟩
        obtain ⟨now, later⟩ := spares s' taken
        have spare' := (spares_iff spare taken).1 now
        exact (ih (sound.step taken) spare').2 later

end State

/-- A run of the pool never comes to a deadlock exactly if every task that goes
to wait for an unsettled future leaves a worker that can go on. -/
theorem run_lively_iff (configured cpus : Int) (as : List Action) :
    State.AlwaysIn State.Lively (State.initial configured cpus) as ↔
      State.EveryStep State.Spares (State.initial configured cpus) as :=
  (State.sound_initial configured cpus).alwaysIn_lively_iff
    (State.initial_lively configured cpus) as

theorem State.AlwaysIn.last {P : State → Prop} {as : List Action} :
    ∀ {s s' : State}, State.AlwaysIn P s as → as.foldlM State.step s = some s' → P s' := by
  induction as with
  | nil =>
      intro s s' always run
      cases run
      exact always
  | cons a as ih =>
      intro s s' always run
      rw [List.foldlM_cons, Option.bind_eq_bind, Option.bind_eq_some_iff] at run
      obtain ⟨next, taken, rest⟩ := run
      exact ih (always.2 next taken) rest

/-- Two tasks on two workers that each submit another one and wait for it. -/
def nestedAwaits : List Action :=
  [.submitOutside, .submitOutside, .take 0, .take 1, .submit 0, .submit 1, .await 0 2, .await 1 3]

theorem not_run_lively :
    ¬∀ (configured cpus : Int) (as : List Action),
      State.AlwaysIn State.Lively (State.initial configured cpus) as := by
  intro lively
  have last : nestedAwaits.foldlM State.step (State.initial 0 2) =
      some ⟨[.awaiting 0 2, .awaiting 1 3], [2, 3],
        [⟨none, false⟩, ⟨none, false⟩, ⟨some 0, false⟩, ⟨some 1, false⟩]⟩ := by
    decide
  refine ((lively 0 2 nestedAwaits).last last).2 fun w member => ?_
  rcases List.mem_cons.1 member with rfl | second
  · exact ⟨0, 2, rfl, by decide⟩
  · rw [List.mem_singleton.1 second]
    exact ⟨1, 3, rfl, by decide⟩

end Dux.Runtime.Pool
