import Dux.Runtime.Workers

/-!
# Two libraries for one pool

`thread_rt.c` and `pool_rt.c` define the same functions.  A program that does not free its pool
cannot tell them apart; one that does, as the destructor of `ThreadPool` in
`stdlib/thread/pool.dux`, joins each worker of `pool_rt.c` a second time.
-/

namespace Dux.Runtime.Workers

open Logic.Monitor
open TaskPool (Library Cond Request Reply Place Threads Entry joins running)

variable {α γ : Type} {n : Nat} [DecidableEq γ]

/-- Each worker is joined once by a shutdown, and nobody is in a call when the pool is
destroyed. -/
structure Safe (a : Config n γ α) : Prop where
  once : ∀ w : Fin n, joins w a.log ≤ 1
  all : TaskPool.IsShutDown (a.own (.inr none)) → ∀ w : Fin n, joins w a.log = 1
  access : a.shared.destroyed = true → ∀ t, (a.threads t).pending = none

/-- The calls in which the libraries agree: not those of `duxrt_pool_free`, nor a submission of
a null function or one that fails. -/
structure Agrees (e : Entry n γ (Task α)) : Prop where
  keeps : e.2.1 ≠ .free ∧ e.2.1 ≠ .destroy
  proper : e.2.1 ≠ .submit none
  accepted : e.2.2 ≠ .refused

theorem Enters.transfer_wait {lib lib' : Library} {p : DuxPool α} {o : Request (Task α)} {c : Cond}
    (enters : Enters lib p o (.wait c)) : Enters lib' p o (.wait c) := by
  generalize same : (Outcome.wait c : Result α) = out at enters
  cases enters with
  | take w => exact .take w
  | wait => exact .wait
  | join w => exact .join w
  | finish | submitPool | shutdown | destroy => cases same
  | submitThread t task => cases task <;> cases t <;> cases same
  | free => cases lib <;> cases same

theorem enters_submit (lib : Library) {p : DuxPool α} {t : Nat} (fresh : p.cells t = none)
    (f : α) : Enters lib p (.submit (some f)) (p.enqueue t (some f)) := by
  cases lib with
  | threadRt =>
    apply Enters.submitThread (some t) (some f) _ rfl
    intro a same
    exact Option.some.inj same ▸ fresh
  | poolRt => exact .submitPool t (some f) fresh rfl

omit [DecidableEq γ] in
theorem Enters.transfer_done {lib lib' : Library} {p p' : DuxPool α} {t : Threads n γ}
    {o : Request (Task α)} {r : Reply (Task α)} {wakes : List (Wake Cond)}
    (agrees : Agrees (t, o, r)) (enters : Enters lib p o (.done r p' wakes)) :
    Enters lib' p o (.done r p' wakes) := by
  generalize same : (Outcome.done r p' wakes : Result α) = out at enters ⊢
  cases enters with
  | take w => exact .take w
  | finish w task => exact .finish w task
  | wait => exact .wait
  | shutdown => exact .shutdown
  | join w => exact .join w
  | free => exact absurd rfl agrees.keeps.1
  | destroy => exact absurd rfl agrees.keeps.2
  | submitThread a task malloc =>
    cases task with
    | none => exact absurd rfl agrees.proper
    | some f =>
      cases a with
      | none =>
        cases same
        exact absurd rfl agrees.accepted
      | some a => exact enters_submit lib' (malloc a rfl) f
  | submitPool a task malloc =>
    cases task with
    | none => exact absurd rfl agrees.proper
    | some f => exact enters_submit lib' malloc f

omit [DecidableEq γ] in
theorem returns_transfer {lib lib' : Library} {t : Threads n γ} (p : Place (Task α))
    {o : Request (Task α)} {r : Reply (Task α)} (agrees : Agrees (t, o, r)) :
    TaskPool.returns lib n p o r = TaskPool.returns lib' n p o r := by
  cases p with
  | shutDown =>
    cases o with
    | free => exact absurd rfl agrees.keeps.1
    | _ => rfl
  | worker => cases r <;> rfl
  | running | owner => cases o <;> rfl
  | _ => rfl

theorem Reaches.transfer {lib : Library} {size : Int} {a : Config n γ α}
    (reaches : Reaches lib size a) (positive : 0 < size) (agrees : ∀ e ∈ a.log, Agrees e)
    (lib' : Library) : Reaches lib' size a := by
  have count (lib : Library) : workers lib size = size.toNat := if_neg (Int.not_le.2 positive)
  constructor
  · rw [reaches.count, count, count]
  · exact reaches.runs.transfer (system lib' n) (fun _ _ _ => Enters.transfer_wait)
      (fun _ _ _ _ _ _ => Enters.transfer_done) (fun _ p _ _ => returns_transfer p)
      (fun _ _ => id) agrees

/-- Until the pool is freed, the owner has joined each worker once. -/
theorem Reaches.safe {lib : Library} {size : Int} {a : Config n γ α}
    (reaches : Reaches lib size a) (keeps : ∀ e ∈ a.log, e.2.1 ≠ .free) : Safe a := by
  obtain ⟨q, represents, run⟩ := reaches.abstract
  have kept : TaskPool.Kept lib q a.own a.log := (TaskPool.kept_of_runs run).2
  have notFreed : ¬(TaskPool.IsFreeing (a.own (.inr none)) ∨ q.destroyed = true) := by
    intro freed
    obtain ⟨e, member, isFree⟩ := TaskPool.free_of_runs run freed
    exact keeps e member isFree
  obtain ⟨notFreeing, notDestroyed⟩ := not_or.1 notFreed
  have owners (w : Fin n) : joins w a.log ≤ 1 ∧
      (TaskPool.IsShutDown (a.own (.inr none)) → joins w a.log = 1) := by
    rw [kept.closing.joins]
    cases place : a.own (.inr none) with
    | joining k =>
      rw [Place.joins]
      exact ⟨by split <;> omega, False.elim⟩
    | shutDown => exact ⟨Nat.le_refl 1, fun _ => rfl⟩
    | worker | running | returned | client | owner => exact ⟨Nat.zero_le 1, False.elim⟩
    | joiningAgain | freeing | freed =>
      rw [place] at notFreeing
      exact absurd trivial notFreeing
  constructor
  · exact fun w => (owners w).1
  · exact fun isShut w => (owners w).2 isShut
  · intro isDestroyed
    exact absurd (represents.destroyed.symm.trans isDestroyed) notDestroyed

/-- A pool that is not freed is the same in both libraries. -/
theorem interchangeable_of_agrees {lib : Library} {size : Int} {a : Config n γ α}
    (reaches : Reaches lib size a) (positive : 0 < size) (agrees : ∀ e ∈ a.log, Agrees e) :
    (∀ lib', Reaches lib' size a) ∧ Safe a := by
  constructor
  · exact reaches.transfer positive agrees
  · exact reaches.safe fun e member => (agrees e member).keeps.1

/-- A task runs, and the pool is shut down. -/
theorem interchangeable_shutDown : ∃ a : Config 1 Empty Nat,
    a.own (.inr none) = .shutDown ∧ (∀ lib', Reaches lib' 1 a) ∧ Safe a := by
  let w : Threads 1 Empty := .inl 0
  let owner : Threads 1 Empty := .inr none
  have new : Runs (system .poolRt 1) (begin : Config 1 Empty Nat)
      (.calm {} TaskPool.start []) := .refl
  have submits := new.perform owner (.submitOwn (some 7))
    (.submitPool 1 (some 7) rfl rfl)
  have takes := submits.perform w (.take 0) (.take 0)
  have finishes := takes.perform w (.finish (nofun : some 7 ≠ none)) (.finish 0 (some 7))
  have shuts := finishes.perform owner .shutdown .shutdown
  have exits := shuts.perform w (.take 0) (.take 0)
  have joins := exits.perform owner (.join Nat.one_pos) (.join 0)
  have reaches : Reaches .poolRt 1 _ := ⟨rfl, joins⟩
  refine ⟨_, rfl, interchangeable_of_agrees reaches Int.one_pos ?_⟩
  intro e member
  simp only [Config.calm, List.nil_append, List.cons_append, List.mem_cons, List.not_mem_nil,
    or_false] at member
  rcases member with rfl | rfl | rfl | rfl | rfl | rfl <;>
    exact ⟨⟨nofun, nofun⟩, nofun, nofun⟩

/-- `pool_rt.c` joins all workers twice when it frees a pool. -/
theorem joins_of_freed {size : Int} {a : Config n γ α} (reaches : Reaches .poolRt size a)
    (isFreed : a.own (.inr none) = .freed) (w : Fin n) : joins w a.log = 2 := by
  obtain ⟨q, represents, run⟩ := reaches.abstract
  have kept : TaskPool.Kept .poolRt q a.own a.log := (TaskPool.kept_of_runs run).2
  rw [kept.closing.joins, isFreed]
  rfl

/-- The destructor of a `ThreadPool` with one worker. -/
theorem not_safe_of_destructor : ∃ a : Config 1 Empty Nat,
    Reaches .poolRt 1 a ∧ joins 0 a.log = 2 ∧ ¬Safe a := by
  let w : Threads 1 Empty := .inl 0
  let owner : Threads 1 Empty := .inr none
  have new : Runs (system .poolRt 1) (begin : Config 1 Empty Nat)
      (.calm {} TaskPool.start []) := .refl
  have shuts := new.perform owner .shutdown .shutdown
  have exits := shuts.perform w (.take 0) (.take 0)
  have joins := exits.perform owner (.join Nat.one_pos) (.join 0)
  have frees := joins.perform owner .free .free
  have joinsAgain := frees.perform owner (.joinAgain Nat.one_pos) (.join 0)
  exact ⟨_, ⟨rfl, joinsAgain⟩, rfl, fun safe => absurd (safe.once 0) (by decide)⟩

/-- Asked for no worker, the libraries start one and four, so that tasks run side by side in
one of them only. -/
theorem running_le_one {size : Int} {a : Config n γ α} (reaches : Reaches .threadRt size a)
    (none' : size ≤ 0) : (running a.own).card ≤ 1 := by
  obtain rfl : n = 1 := reaches.count.trans (if_pos none')
  have one : running a.own = (a.own (.inl 0)).task := Finset.sum_singleton _ _
  rw [one]
  cases a.own (.inl 0) with
  | running => exact Nat.le_refl 1
  | _ => exact Nat.zero_le 1

theorem running_two : ∃ a : Config 4 Empty Nat,
    Reaches .poolRt 0 a ∧ (running a.own).card = 2 := by
  let owner : Threads 4 Empty := .inr none
  have new : Runs (system .poolRt 4) (begin : Config 4 Empty Nat)
      (.calm {} TaskPool.start []) := .refl
  have submits := new.perform owner (.submitOwn (some 7)) (.submitPool 1 (some 7) rfl rfl)
  have submits' := submits.perform owner (.submitOwn (some 8)) (.submitPool 2 (some 8) rfl rfl)
  have takes := submits'.perform (.inl 0) (.take 0) (.take 0)
  have takes' := takes.perform (.inl 1) (.take 1) (.take 1)
  exact ⟨_, ⟨rfl, takes'⟩, rfl⟩

end Dux.Runtime.Workers
