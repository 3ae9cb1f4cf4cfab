import Dux.Logic.Monitor

/-!
# Futures

`src/runtime/future_rt.c`: a value that one thread sets and others await.  Owners are counted by
an atomic counter, everything else is done under the lock.
-/

namespace Dux.Runtime.Futures

open Logic.Monitor
open Relation (ReflTransGen)

variable {α τ : Type}

/-! ## The functions -/

/-- `DuxFuture`, with the lock left out.  `destroyed` tells how often it was freed, and `handed`
how many references are on their way from one thread to another. -/
structure DuxFuture (α : Type) where
  result : α
  done : Bool := false
  refCount : Nat := 1
  destroyed : Nat := 0
  handed : Nat := 0

/-- The calls on a future.  `duxrt_future_free` is `release`, and `destroy` behind the last one.
A thread hands a reference to another one with `hand` and `take`. -/
inductive Request (α : Type)
  | retain
  | release
  | destroy
  | set (result : α)
  | await
  | hand
  | take

inductive Reply (α : Type)
  | unit
  | last (isLast : Bool)
  | value (result : α)

/-- The numbers of an `atomic_int`. -/
def countSize : Nat := 4294967296

def duxrtFutureRetain (f : DuxFuture α) : Outcome (DuxFuture α) Unit (Reply α) :=
  .done .unit { f with refCount := (f.refCount + 1) % countSize } []

/-- `duxrt_future_free` up to the test whether there are other owners. -/
def release (f : DuxFuture α) : Outcome (DuxFuture α) Unit (Reply α) :=
  .done (.last (f.refCount = 1)) { f with refCount := (f.refCount + (countSize - 1)) % countSize }
    []

/-- `duxrt_future_free` from the lock on. -/
def destroy (f : DuxFuture α) : Outcome (DuxFuture α) Unit (Reply α) :=
  if f.done then .done .unit { f with destroyed := f.destroyed + 1 } [] else .wait ()

def duxrtFutureSet (f : DuxFuture α) (result : α) : Outcome (DuxFuture α) Unit (Reply α) :=
  .done .unit { f with result := result, done := true } [.one ()]

def duxrtFutureAwait (f : DuxFuture α) : Outcome (DuxFuture α) Unit (Reply α) :=
  if f.done then .done (.value f.result) f [] else .wait ()

/-- What a call does; a reference can be taken once it was handed over. -/
inductive Enters : DuxFuture α → Request α → Outcome (DuxFuture α) Unit (Reply α) → Prop
  | retain {f : DuxFuture α} : Enters f .retain (duxrtFutureRetain f)
  | release {f : DuxFuture α} : Enters f .release (release f)
  | destroy {f : DuxFuture α} : Enters f .destroy (destroy f)
  | set {f : DuxFuture α} {result : α} : Enters f (.set result) (duxrtFutureSet f result)
  | await {f : DuxFuture α} : Enters f .await (duxrtFutureAwait f)
  | hand {f : DuxFuture α} : Enters f .hand (.done .unit { f with handed := f.handed + 1 } [])
  | take {f : DuxFuture α} {n : Nat} (handed : f.handed = n + 1) :
      Enters f .take (.done .unit { f with handed := n } [])

/-- What a thread has of a future: references, the duty to destroy it, and the right to set it. -/
structure Owner where
  held : Nat := 0
  isLast : Bool := false
  setter : Bool := false

/-- A thread goes on from the last release to the destruction; it calls what needs a reference
while it holds one, and the setter sets once, with a reference or without. -/
def Owner.Calls (p : Owner) : Request α → Prop
  | .destroy => p.isLast = true
  | .set _ => p.isLast = false ∧ p.setter = true
  | .take => p.isLast = false
  | .retain | .release | .await | .hand => p.isLast = false ∧ 0 < p.held

/-- A thread after a call. -/
def Owner.returns (p : Owner) : Request α → Reply α → Owner
  | .retain, _ | .take, _ => { p with held := p.held + 1 }
  | .hand, _ => { p with held := p.held - 1 }
  | .release, .last isLast => { p with held := p.held - 1, isLast := isLast }
  | .destroy, _ => { p with isLast := false }
  | .set _, _ => { p with setter := false }
  | _, _ => p

def system : System (DuxFuture α) Owner (Request α) Unit (Reply α) where
  enters := Enters
  calls := Owner.Calls
  returns := Owner.returns

abbrev Config (τ α : Type) :=
  Logic.Monitor.Config τ (DuxFuture α) Owner (Request α) Unit (Reply α)

section Runs

variable [DecidableEq τ]

/-- `duxrt_future_new`: one thread holds the only reference, and one is to set the future. -/
def duxrtFutureNew (null : α) (launcher worker : τ) : Config τ α :=
  .start { result := null } fun t =>
    { held := if t = launcher then 1 else 0, setter := decide (t = worker) }

variable [Fintype τ]

def references (a : Config τ α) : Nat := a.shared.handed + ∑ t, (a.own t).held

/-- A step retains only while there are fewer than 2³² references, and sets the future only while no
two threads sleep. -/
def Careful (a b : Config τ α) : Prop :=
  (∀ t r, b.log = a.log ++ [(t, .retain, r)] → references a < countSize) ∧
    ∀ t v r, b.log = a.log ++ [(t, .set v, r)] → OneSleeps () a.threads

/-- The states of the runs whose steps all meet a condition. -/
def Reaches (Meets : Config τ α → Config τ α → Prop) (null : α) (launcher worker : τ)
    (a : Config τ α) : Prop :=
  ReflTransGen (fun a b => Step system a b ∧ Meets a b) (duxrtFutureNew null launcher worker) a

end Runs

/-- A thread is inside one of the functions. -/
def Inside (th : Thread Owner (Request α) Unit) : Prop :=
  th.own.isLast = true ∨ ∃ o, th.pending = some o ∧ o ≠ .take

/-- What holds of a future in every state of a run. -/
structure Sound [DecidableEq τ] [Fintype τ] (a : Config τ α) : Prop where
  /-- What was awaited is what was set, and nothing else was. -/
  awaits : ∀ t v, (t, .await, .value v) ∈ a.log →
    (∃ u r, (u, .set v, r) ∈ a.log) ∧ ∀ u w r, (u, .set w, r) ∈ a.log → w = v
  /-- Once the future is done, each thread that waited has a wake-up pending. -/
  woken : a.shared.done = true → ¬Sleeps () a.threads
  /-- It is not destroyed while there is a reference, and then once, by the last owner. -/
  destroyed : a.shared.destroyed + (∑ t, if (a.own t).isLast then 1 else 0) =
    if references a = 0 then 1 else 0
  /-- No thread is inside of a function of a future that is destroyed. -/
  alone : a.shared.destroyed ≠ 0 → ∀ t, ¬Inside (a.threads t)

/-! ## What the calls keep -/

section Sums

variable [DecidableEq τ] [Fintype τ] {f : τ → Owner} {t : τ} {p : Owner}

theorem sum_update (g : Owner → Nat) :
    ∑ u, g (Function.update f t p u) + g (f t) = ∑ u, g (f u) + g p := by
  have apart : (fun u => g (Function.update f t p u)) =
      Function.update (fun u => g (f u)) t (g p) := Function.comp_update g f t p
  rw [apart]
  exact sum_update_add (fun u => g (f u)) t (g p)

omit [DecidableEq τ] in
theorem le_sum (g : Owner → Nat) (t : τ) : g (f t) ≤ ∑ u, g (f u) :=
  Finset.single_le_sum (f := fun u => g (f u)) (fun _ _ => Nat.zero_le _) (Finset.mem_univ t)

end Sums

/-- The owner that goes on to the destruction, as a number. -/
def Owner.lasts (p : Owner) : Nat := if p.isLast then 1 else 0

/-- The owner that has not set the future yet, as a number. -/
def Owner.setters (p : Owner) : Nat := if p.setter then 1 else 0

/-- What holds of the owners.  The counter is the number of references; without any, one thread is
on its way to the destruction or has been there; and the setter has set the future or is to. -/
structure Owned [Fintype τ] (s : DuxFuture α) (f : τ → Owner) : Prop where
  bounded : s.handed + ∑ t, (f t).held ≤ countSize
  count : s.refCount = (s.handed + ∑ t, (f t).held) % countSize
  once : s.destroyed + ∑ t, (f t).lasts = if s.handed + ∑ t, (f t).held = 0 then 1 else 0
  setters : ∑ t, (f t).setters + (if s.done then 1 else 0) = 1
  settled : s.destroyed ≠ 0 → s.done = true

/-- What holds of the values in the calls that are done. -/
structure Valued (s : DuxFuture α) (log : List (τ × Request α × Reply α)) : Prop where
  isSet : s.done = true → ∃ u r, (u, .set s.result, r) ∈ log
  sets : ∀ u w r, (u, .set w, r) ∈ log → s.done = true ∧ w = s.result
  awaits : ∀ t v, (t, .await, .value v) ∈ log → s.done = true ∧ v = s.result

section Calls

variable [DecidableEq τ] [Fintype τ] {s s' : DuxFuture α} {f : τ → Owner}
  {log : List (τ × Request α × Reply α)} {t : τ} {o : Request α} {r : Reply α}
  {wakes : List (Wake Unit)}

theorem Owned.counts (owned : Owned s f) {h c n total : Nat} (before : 0 < s.handed + (f t).held)
    (after : 0 < h + n) (isTotal : total + (f t).held = h + ∑ t, (f t).held + n)
    (count : c = total % countSize) (bounded : total ≤ countSize) :
    Owned { s with refCount := c, handed := h }
      (Function.update f t ⟨n, (f t).isLast, (f t).setter⟩) := by
  have held : ∑ u, (Function.update f t ⟨n, (f t).isLast, (f t).setter⟩ u).held + (f t).held =
      ∑ u, (f u).held + n := sum_update Owner.held
  have lasts : ∑ u, (Function.update f t ⟨n, (f t).isLast, (f t).setter⟩ u).lasts + (f t).lasts =
      ∑ u, (f u).lasts + (f t).lasts := sum_update Owner.lasts
  have setters : ∑ u, (Function.update f t ⟨n, (f t).isLast, (f t).setter⟩ u).setters +
      (f t).setters = ∑ u, (f u).setters + (f t).setters := sum_update Owner.setters
  have heldHere := le_sum (f := f) Owner.held t
  have same : h + ∑ u, (Function.update f t ⟨n, (f t).isLast, (f t).setter⟩ u).held = total := by
    omega
  have once := owned.once
  have oneSetter := owned.setters
  rw [if_neg (by omega)] at once
  constructor
  · dsimp only
    rw [same]
    exact bounded
  · dsimp only
    rw [same]
    exact count
  · rw [if_neg (by dsimp only; omega)]
    dsimp only
    omega
  · dsimp only
    omega
  · exact owned.settled

theorem of_await_done (done : duxrtFutureAwait s = .done r s' wakes) :
    s.done = true ∧ r = .value s.result ∧ s' = s := by
  rw [duxrtFutureAwait] at done
  split at done
  · next isDone =>
    cases done
    exact ⟨isDone, rfl, rfl⟩
  · cases done

theorem of_destroy_done (done : destroy s = .done r s' wakes) :
    s.done = true ∧ r = .unit ∧ s' = { s with destroyed := s.destroyed + 1 } := by
  rw [destroy] at done
  split at done
  · next isDone =>
    cases done
    exact ⟨isDone, rfl, rfl⟩
  · cases done

theorem Owned.retain (owned : Owned s f) (positive : 0 < (f t).held)
    (room : s.handed + ∑ t, (f t).held < countSize) :
    Owned { s with refCount := (s.refCount + 1) % countSize }
      (Function.update f t ⟨(f t).held + 1, (f t).isLast, (f t).setter⟩) := by
  have count := owned.count
  have next : (s.refCount + 1) % countSize = (s.handed + ∑ t, (f t).held + 1) % countSize := by
    rw [count, Nat.mod_add_mod]
  exact owned.counts (by omega) (by omega) (by omega) next room

theorem Owned.release (owned : Owned s f) (positive : 0 < (f t).held)
    (notLast : (f t).isLast = false) :
    Owned { s with refCount := (s.refCount + (countSize - 1)) % countSize }
      (Function.update f t
        ⟨(f t).held - 1, decide (s.refCount = 1), (f t).setter⟩) := by
  generalize isOwner : (⟨(f t).held - 1, decide (s.refCount = 1), (f t).setter⟩ : Owner) = p
  have held : ∑ u, (Function.update f t p u).held + (f t).held = ∑ u, (f u).held + p.held :=
    sum_update Owner.held
  have lasts : ∑ u, (Function.update f t p u).lasts + (f t).lasts = ∑ u, (f u).lasts + p.lasts :=
    sum_update Owner.lasts
  have setters : ∑ u, (Function.update f t p u).setters + (f t).setters =
      ∑ u, (f u).setters + (f t).setters := by
    rw [← isOwner]
    exact sum_update Owner.setters
  have heldHere := le_sum (f := f) Owner.held t
  have isCount := owned.count
  have bounded := owned.bounded
  have once := owned.once
  have oneSetter := owned.setters
  rw [if_neg (by omega)] at once
  have fewer : p.held = (f t).held - 1 := by rw [← isOwner]
  have isNot : (f t).lasts = 0 := by
    rw [Owner.lasts, notLast]
    rfl
  have isLast : p.lasts = if s.refCount = 1 then 1 else 0 := by
    rw [← isOwner, Owner.lasts]
    exact if_congr decide_eq_true_iff rfl rfl
  have fewer' : s.handed + ∑ u, (Function.update f t p u).held =
      s.handed + ∑ u, (f u).held - 1 := by
    omega
  rw [countSize] at bounded isCount
  constructor
  · dsimp only
    rw [countSize]
    omega
  · dsimp only
    rw [countSize]
    omega
  · dsimp only
    by_cases one : s.refCount = 1
    · rw [if_pos one] at isLast
      rw [if_pos (by omega)]
      omega
    · rw [if_neg one] at isLast
      rw [if_neg (by omega)]
      omega
  · dsimp only
    omega
  · exact owned.settled

theorem Owned.destroy (owned : Owned s f) (isLast : (f t).isLast = true)
    (done : s.done = true) :
    Owned { s with destroyed := s.destroyed + 1 }
      (Function.update f t ⟨(f t).held, false, (f t).setter⟩) := by
  have held : ∑ u, (Function.update f t ⟨(f t).held, false, (f t).setter⟩ u).held + (f t).held =
      ∑ u, (f u).held + (f t).held := sum_update Owner.held
  have lasts : ∑ u, (Function.update f t ⟨(f t).held, false, (f t).setter⟩ u).lasts +
      (f t).lasts = ∑ u, (f u).lasts + 0 := sum_update Owner.lasts
  have setters : ∑ u, (Function.update f t ⟨(f t).held, false, (f t).setter⟩ u).setters +
      (f t).setters = ∑ u, (f u).setters + (f t).setters := sum_update Owner.setters
  have isOne : (f t).lasts = 1 := if_pos isLast
  have once := owned.once
  have same : ∑ u, (Function.update f t ⟨(f t).held, false, (f t).setter⟩ u).held =
      ∑ u, (f u).held := by omega
  constructor
  · rw [same]
    exact owned.bounded
  · rw [same]
    exact owned.count
  · rw [same]
    dsimp only
    omega
  · have oneSetter := owned.setters
    dsimp only
    omega
  · exact fun _ => done

theorem Owned.set (owned : Owned s f) (isSetter : (f t).setter = true) (result : α) :
    Owned { s with result := result, done := true }
      (Function.update f t ⟨(f t).held, (f t).isLast, false⟩) := by
  have held : ∑ u, (Function.update f t ⟨(f t).held, (f t).isLast, false⟩ u).held + (f t).held =
      ∑ u, (f u).held + (f t).held := sum_update Owner.held
  have lasts : ∑ u, (Function.update f t ⟨(f t).held, (f t).isLast, false⟩ u).lasts +
      (f t).lasts = ∑ u, (f u).lasts + (f t).lasts := sum_update Owner.lasts
  have setters : ∑ u, (Function.update f t ⟨(f t).held, (f t).isLast, false⟩ u).setters +
      (f t).setters = ∑ u, (f u).setters + 0 := sum_update Owner.setters
  have isOne : (f t).setters = 1 := if_pos isSetter
  have oneSetter := owned.setters
  have same : ∑ u, (Function.update f t ⟨(f t).held, (f t).isLast, false⟩ u).held =
      ∑ u, (f u).held := by omega
  constructor
  · rw [same]
    exact owned.bounded
  · rw [same]
    exact owned.count
  · have once := owned.once
    rw [same]
    dsimp only
    omega
  · rw [if_pos rfl]
    omega
  · exact fun _ => rfl

theorem Owned.call (owned : Owned s f) (calls : (f t).Calls o)
    (enters : Enters s o (.done r s' wakes))
    (room : o = .retain → s.handed + ∑ t, (f t).held < countSize) :
    Owned s' (Function.update f t ((f t).returns o r)) := by
  generalize isOut : Outcome.done r s' wakes = out at enters
  cases enters with
  | retain =>
    cases isOut
    exact owned.retain calls.2 (room rfl)
  | release =>
    cases isOut
    exact owned.release calls.2 calls.1
  | destroy =>
    obtain ⟨done, rfl, rfl⟩ := of_destroy_done isOut.symm
    exact owned.destroy calls done
  | set =>
    cases isOut
    exact owned.set calls.2 _
  | await =>
    obtain ⟨-, rfl, rfl⟩ := of_await_done isOut.symm
    have same : (f t).returns .await (.value s'.result) = f t := rfl
    rw [same, Function.update_eq_self]
    exact owned
  | hand =>
    cases isOut
    have positive : 0 < (f t).held := calls.2
    have moved : s.handed + ∑ t, (f t).held + (f t).held =
        s.handed + 1 + ∑ t, (f t).held + ((f t).held - 1) := by
      omega
    exact owned.counts (by omega) (by omega) moved owned.count owned.bounded
  | @take n handed =>
    cases isOut
    have moved : s.handed + ∑ t, (f t).held + (f t).held =
        n + ∑ t, (f t).held + ((f t).held + 1) := by
      rw [handed]
      omega
    exact owned.counts (by omega) (by omega) moved owned.count owned.bounded

omit [DecidableEq τ] [Fintype τ] in
theorem Valued.keeps (valued : Valued s log) (done : s'.done = s.done)
    (result : s'.result = s.result) (noSet : ∀ w, o ≠ .set w) (noAwait : o ≠ .await) :
    Valued s' (log ++ [(t, o, r)]) where
  isSet isDone := by
    rw [done] at isDone
    rw [result]
    obtain ⟨u, r', member⟩ := valued.isSet isDone
    exact ⟨u, r', List.mem_append_left _ member⟩
  sets u w r' member := by
    rw [done, result]
    rcases List.mem_append.mp member with before | new
    · exact valued.sets u w r' before
    · cases List.mem_singleton.mp new
      exact absurd rfl (noSet w)
  awaits u v member := by
    rw [done, result]
    rcases List.mem_append.mp member with before | new
    · exact valued.awaits u v before
    · cases List.mem_singleton.mp new
      exact absurd rfl noAwait

omit [DecidableEq τ] [Fintype τ] in
theorem Valued.await (valued : Valued s log) (done : s.done = true) :
    Valued s (log ++ [(t, .await, .value s.result)]) where
  isSet _ := by
    obtain ⟨u, r', member⟩ := valued.isSet done
    exact ⟨u, r', List.mem_append_left _ member⟩
  sets u w r' member := by
    rcases List.mem_append.mp member with before | new
    · exact valued.sets u w r' before
    · cases List.mem_singleton.mp new
  awaits u v member := by
    rcases List.mem_append.mp member with before | new
    · exact valued.awaits u v before
    · cases List.mem_singleton.mp new
      exact ⟨done, rfl⟩

omit [DecidableEq τ] [Fintype τ] in
theorem Valued.set (valued : Valued s log) (notDone : s.done ≠ true) (result : α) :
    Valued { s with result := result, done := true } (log ++ [(t, .set result, r)]) where
  isSet _ := ⟨t, r, List.mem_append_right _ List.mem_cons_self⟩
  sets u w r' member := by
    rcases List.mem_append.mp member with before | new
    · exact absurd (valued.sets u w r' before).1 notDone
    · cases List.mem_singleton.mp new
      exact ⟨rfl, rfl⟩
  awaits u v member := by
    rcases List.mem_append.mp member with before | new
    · exact absurd (valued.awaits u v before).1 notDone
    · cases List.mem_singleton.mp new

omit [DecidableEq τ] in
theorem Owned.not_done (owned : Owned s f) (isSetter : (f t).setter = true) : s.done ≠ true := by
  intro done
  have oneSetter := owned.setters
  have settersHere := le_sum (f := f) Owner.setters t
  have isOne : (f t).setters = 1 := if_pos isSetter
  rw [if_pos done] at oneSetter
  omega

omit [DecidableEq τ] in
theorem Valued.call (valued : Valued s log) (owned : Owned s f) (calls : (f t).Calls o)
    (enters : Enters s o (.done r s' wakes)) : Valued s' (log ++ [(t, o, r)]) := by
  generalize isOut : Outcome.done r s' wakes = out at enters
  cases enters with
  | set =>
    cases isOut
    exact valued.set (owned.not_done calls.2) _
  | await =>
    obtain ⟨done, rfl, rfl⟩ := of_await_done isOut.symm
    exact valued.await done
  | destroy =>
    obtain ⟨-, rfl, rfl⟩ := of_destroy_done isOut.symm
    exact valued.keeps rfl rfl nofun nofun
  | retain | release | hand | take =>
    cases isOut
    exact valued.keeps rfl rfl nofun nofun

end Calls

/-! ## Runs -/

section Runs

variable [DecidableEq τ] [Fintype τ] {a b : Config τ α} {null : α} {launcher worker : τ}

structure Invariant (a : Config τ α) : Prop where
  lawful : a.Lawful system
  owned : Owned a.shared a.own
  valued : Valued a.shared a.log
  woken : a.shared.done = true → ¬Sleeps () a.threads

theorem invariant_new (null : α) (launcher worker : τ) :
    Invariant (duxrtFutureNew null launcher worker) where
  lawful := lawful_start _ _
  owned := by
    have held : ∑ t, ((duxrtFutureNew null launcher worker).own t).held = 1 :=
      (Finset.sum_ite_eq' Finset.univ launcher fun _ => 1).trans (if_pos (Finset.mem_univ launcher))
    have lasts : ∑ t, ((duxrtFutureNew null launcher worker).own t).lasts = 0 :=
      Finset.sum_const_zero
    have setter (t : τ) : ((duxrtFutureNew null launcher worker : Config τ α).own t).setters =
        if t = worker then 1 else 0 := if_congr decide_eq_true_iff rfl rfl
    have setters : ∑ t, ((duxrtFutureNew null launcher worker).own t).setters = 1 := by
      rw [Finset.sum_congr rfl fun t _ => setter t, Finset.sum_ite_eq',
        if_pos (Finset.mem_univ worker)]
    constructor
    · rw [held]
      exact (by decide : 0 + 1 ≤ countSize)
    · rw [held]
      rfl
    · rw [held, lasts]
      rfl
    · rw [setters]
      rfl
    · exact fun destroyed => absurd rfl destroyed
  valued := ⟨nofun, nofun, nofun⟩
  woken := nofun

omit [DecidableEq τ] [Fintype τ] in
theorem not_done_of_wait {s : DuxFuture α} {o : Request α} {c : Unit}
    (enters : Enters s o (.wait c)) : s.done ≠ true := by
  intro done
  generalize isOut : Outcome.wait c = out at enters
  cases enters with
  | await =>
    rw [duxrtFutureAwait, if_pos done] at isOut
    cases isOut
  | destroy =>
    rw [destroy, if_pos done] at isOut
    cases isOut
  | retain | release | set | hand | take => cases isOut

omit [DecidableEq τ] [Fintype τ] in
theorem done_or_set {s s' : DuxFuture α} {o : Request α} {r : Reply α} {wakes : List (Wake Unit)}
    (enters : Enters s o (.done r s' wakes)) :
    s'.done = s.done ∨ (∃ v, o = .set v) ∧ wakes = [.one ()] := by
  generalize isOut : Outcome.done r s' wakes = out at enters
  cases enters with
  | set =>
    cases isOut
    exact .inr ⟨⟨_, rfl⟩, rfl⟩
  | await =>
    obtain ⟨-, -, rfl⟩ := of_await_done isOut.symm
    exact .inl rfl
  | destroy =>
    obtain ⟨-, -, rfl⟩ := of_destroy_done isOut.symm
    exact .inl rfl
  | retain | release | hand | take =>
    cases isOut
    exact .inl rfl

theorem woken_step (woken : a.shared.done = true → ¬Sleeps () a.threads) (step : Step system a b)
    (careful : Careful a b) (done : b.shared.done = true) : ¬Sleeps () b.threads := by
  cases step with
  | call here calls =>
    intro sleeps
    exact woken done (sleeps_of_update (fun _ _ asleep => by cases asleep) sleeps)
  | spurious here =>
    intro sleeps
    exact woken done (sleeps_of_update (fun _ _ asleep => by cases asleep) sleeps)
  | wait here enters => exact absurd done (not_done_of_wait enters)
  | @done t p o r s wakes f here enters wakesAll =>
    have awake (q : Owner) (p' : Owner) (o' : Request α) :
        (.out q : Thread Owner (Request α) Unit) ≠ .asleep () p' o' := by
      intro same
      cases same
    rcases done_or_set enters with same | ⟨⟨v, rfl⟩, rfl⟩
    · intro sleeps
      exact woken (same ▸ done) (sleeps_of_update (awake _) (sleeps_of_wakesAll wakesAll sleeps))
    · have one : OneSleeps () a.threads := careful.2 t v r rfl
      cases wakesAll with
      | cons signal rest =>
        cases rest with
        | nil => exact not_sleeps_of_one signal (one.update (awake _))

theorem Invariant.step (inv : Invariant a) (step : Step system a b) (careful : Careful a b) :
    Invariant b := by
  have woken := woken_step inv.woken step careful
  obtain ⟨lawful, ⟨shared, own, log⟩ | ⟨t, o, r, wakes, calls, enters, own, log⟩⟩ :=
    step.known inv.lawful
  · refine ⟨lawful, ?_, ?_, woken⟩
    · rw [shared, own]
      exact inv.owned
    · rw [shared, log]
      exact inv.valued
  · have room (isRetain : o = .retain) :
        a.shared.handed + ∑ t, (a.own t).held < countSize := by
      rw [isRetain] at log
      exact careful.1 t r log
    refine ⟨lawful, ?_, ?_, woken⟩
    · rw [own]
      exact inv.owned.call calls enters room
    · rw [log]
      exact inv.valued.call inv.owned calls enters

omit [DecidableEq τ] in
theorem Invariant.alone (inv : Invariant a) (destroyed : a.shared.destroyed ≠ 0) (t : τ) :
    ¬Inside (a.threads t) := by
  have once := inv.owned.once
  have heldHere := le_sum (f := a.own) Owner.held t
  have lastsHere := le_sum (f := a.own) Owner.lasts t
  have gone : a.shared.handed + ∑ t, (a.own t).held = 0 := by
    by_contra left
    rw [if_neg left] at once
    omega
  rw [if_pos gone] at once
  have notLast : (a.own t).isLast ≠ true := by
    intro isLast
    have isOne : (a.own t).lasts = 1 := if_pos isLast
    omega
  rintro (isLast | ⟨o, isIn, other⟩)
  · exact notLast isLast
  · have calls : (a.own t).Calls o := inv.lawful t o isIn
    cases o with
    | destroy => exact notLast calls
    | set v => exact inv.owned.not_done calls.2 (inv.owned.settled destroyed)
    | take => exact other rfl
    | retain | release | await | hand =>
      have positive : 0 < (a.own t).held := calls.2
      omega

theorem Invariant.sound (inv : Invariant a) : Sound a where
  awaits t v member := by
    obtain ⟨done, rfl⟩ := inv.valued.awaits t v member
    exact ⟨inv.valued.isSet done, fun u w r isSet => (inv.valued.sets u w r isSet).2⟩
  woken := inv.woken
  destroyed := inv.owned.once
  alone := inv.alone

/-- In runs whose steps are careful the future is sound. -/
theorem future_sound (reaches : Reaches Careful null launcher worker a) : Sound a := by
  have inv : Invariant a := by
    induction reaches with
    | refl => exact invariant_new null launcher worker
    | tail _ step ih => exact ih.step step.1 step.2
  exact inv.sound

/-- A signal that finds two threads asleep leaves one of them asleep. -/
theorem not_sound_of_set {t u u' : τ} {v : α} {r : Reply α} {s : DuxFuture α}
    {f : τ → Thread Owner (Request α) Unit} {p p' q : Owner} {o o' : Request α}
    (here : (a.threads t).AtLock q (.set v))
    (wakes : WakesAll [.one ()] (Function.update a.threads t (.out (q.returns (.set v) r))) f)
    (isDone : s.done = true) (apart : u ≠ u')
    (asleep : a.threads u = .asleep () p o) (asleep' : a.threads u' = .asleep () p' o') :
    ¬Sound (⟨s, f, a.log ++ [(t, .set v, r)]⟩ : Config τ α) := by
  intro sound
  have still {w : τ} {p : Owner} {o : Request α} (asleep : a.threads w = .asleep () p o) :
      Function.update a.threads t (.out (q.returns (.set v) r)) w = .asleep () p o := by
    have other : w ≠ t := by
      rintro rfl
      rw [asleep] at here
      rcases here with same | ⟨c, same⟩ <;> cases same
    rw [Function.update_of_ne other, asleep]
  cases wakes with
  | cons signal rest =>
    cases rest with
    | nil =>
      cases signal with
      | nobody none => exact none u p o (still asleep)
      | @thread _ _ w _ _ sleeper =>
        by_cases isIt : u = w
        · have other : u' ≠ w := isIt ▸ apart.symm
          exact sound.woken isDone
            ⟨u', p', o', (Function.update_of_ne other ..).trans (still asleep')⟩
        · exact sound.woken isDone
            ⟨u, p, o, (Function.update_of_ne isIt ..).trans (still asleep)⟩

end Runs

/-! ## Careful runs -/

section Steps

theorem reaches_of_runs [DecidableEq τ] {null : α} {launcher worker : τ} {a : Config τ α}
    (runs : Runs system (duxrtFutureNew null launcher worker) a) :
    Reaches (fun _ _ => True) null launcher worker a := by
  induction runs with
  | refl => exact .refl
  | tail _ step ih => exact ih.tail ⟨step, trivial⟩

variable [Fintype τ] {a b : Config τ α}

theorem careful_of_same (same : b.log = a.log) : Careful a b := by
  have none (e : τ × Request α × Reply α) : b.log ≠ a.log ++ [e] := by
    rw [same]
    exact fun longer => List.cons_ne_nil _ _ (List.self_eq_append_right.mp longer)
  exact ⟨fun t r log => absurd log (none _), fun t v r log => absurd log (none _)⟩

theorem careful_of_entry {t : τ} {o : Request α} {r : Reply α} (log : b.log = a.log ++ [(t, o, r)])
    (noRetain : o ≠ .retain) (one : OneSleeps () a.threads) : Careful a b := by
  refine ⟨fun t' r' log' => ?_, fun _ _ _ _ => one⟩
  rw [log] at log'
  cases List.append_cancel_left log'
  exact absurd rfl noRetain

/-- A call that is done at once, while no two threads sleep, is careful. -/
theorem Reaches.complete [DecidableEq τ] {null : α} {launcher worker : τ}
    (reaches : Reaches Careful null launcher worker a) {t : τ} {p : Owner} {o : Request α}
    {r : Reply α} {s : DuxFuture α} {wakes : List (Wake Unit)}
    {f : τ → Thread Owner (Request α) Unit} (here : a.threads t = .out p) (calls : p.Calls o)
    (enters : Enters a.shared o (.done r s wakes))
    (woken : WakesAll wakes (Function.update a.threads t (.out (p.returns o r))) f)
    (noRetain : o ≠ .retain) (one : OneSleeps () a.threads) :
    Reaches Careful null launcher worker ⟨s, f, a.log ++ [(t, o, r)]⟩ := by
  have awake (p' : Owner) (o' : Request α) :
      (.ready p o : Thread Owner (Request α) Unit) ≠ .asleep () p' o' := by
    intro same
    cases same
  have called : Step system a { a with threads := Function.update a.threads t (.ready p o) } :=
    .call here calls
  have woken' : WakesAll wakes (Function.update (Function.update a.threads t (.ready p o)) t
      (.out (p.returns o r))) f := by
    rw [Function.update_idem]
    exact woken
  refine (ReflTransGen.tail reaches ⟨called, careful_of_same rfl⟩).tail ⟨?_, ?_⟩
  · exact .done (.inl (Function.update_self ..)) enters woken'
  · exact careful_of_entry rfl noRetain (one.update awake)

end Steps

/-- One thread sets the future and awaits it. -/
theorem future_sound_awaited :
    ∃ a : Config Unit Nat, ((), .await, .value 7) ∈ a.log ∧ Sound a := by
  have start : Reaches Careful 0 () () (duxrtFutureNew 0 () () : Config Unit Nat) := .refl
  have isSet := start.complete (t := ()) (o := .set 7) rfl ⟨rfl, rfl⟩ .set
    (.cons (.nobody fun _ _ _ asleep => by cases asleep) (.nil _)) nofun
    fun _ _ _ _ _ _ asleep => by cases asleep
  have awaited := isSet.complete (t := ()) (o := .await) rfl ⟨rfl, Nat.one_pos⟩ .await (.nil _)
    nofun fun _ _ _ _ _ _ asleep => by cases asleep
  exact ⟨_, List.mem_append_right _ List.mem_cons_self, future_sound awaited⟩

/-- Two owners await; the worker's signal wakes one of them. -/
theorem not_future_sound :
    ¬∀ a : Config (Fin 3) Nat, Reaches (fun _ _ => True) 0 0 2 a → Sound a := by
  intro all
  have start : Runs system (duxrtFutureNew 0 0 2 : Config (Fin 3) Nat) (.calm _ _ []) := .refl
  have retained := Runs.perform start 0 (o := .retain) ⟨rfl, Nat.one_pos⟩ .retain
  have handed := Runs.perform retained 0 (o := .hand) ⟨rfl, Nat.two_pos⟩ .hand
  have taken := Runs.perform handed 1 (o := .take) rfl (.take rfl)
  have first := Runs.fallAsleep taken (t := 0) (o := .await) rfl ⟨rfl, Nat.one_pos⟩ .await
  have second := Runs.fallAsleep first (t := 1) (o := .await) rfl ⟨rfl, Nat.one_pos⟩ .await
  have isSet := Runs.complete second (t := 2) (o := .set 7) rfl ⟨rfl, rfl⟩ .set
    (.cons (.thread (t := 0) rfl) (.nil _))
  have sound := all _ (reaches_of_runs isSet)
  exact sound.woken rfl ⟨1, _, _, rfl⟩

end Dux.Runtime.Futures
