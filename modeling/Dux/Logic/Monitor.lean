import Mathlib.Algebra.BigOperators.Group.Finset.Piecewise
import Mathlib.Algebra.Order.BigOperators.Group.Finset
import Mathlib.Data.Fintype.Basic
import Mathlib.Logic.Relation

/-!
# Monitors

Threads share data that a lock protects.  A call enters under the lock; there it either
waits for a condition, which gives the lock back, or is done.  A signal wakes one thread that
waits for its condition, a broadcast all of them, and a thread may wake up without either.
A woken thread enters again like a new call.

Since nothing is touched without the lock, what a call does between entering and leaving
is one step.
-/

namespace Dux.Logic.Monitor

open Relation (ReflTransGen)

universe u

/-- `pthread_cond_signal` and `pthread_cond_broadcast`. -/
inductive Wake (κ : Type u)
  | one (c : κ)
  | all (c : κ)

/-- What a call that enters comes to. -/
inductive Outcome (σ κ ρ : Type u)
  | wait (c : κ)
  | done (reply : ρ) (shared : σ) (wakes : List (Wake κ))

/-- Where a thread is: outside, at the lock with a call, or in a call that waits or has
been woken. -/
inductive Thread (π ο κ : Type u)
  | out (local' : π)
  | ready (local' : π) (call : ο)
  | asleep (c : κ) (local' : π) (call : ο)
  | woken (c : κ) (local' : π) (call : ο)

/-- The calls of a monitor, and how threads come from one to the next. -/
structure System (σ π ο κ ρ : Type u) where
  enters : σ → ο → Outcome σ κ ρ → Prop
  calls : π → ο → Prop
  returns : π → ο → ρ → π

/-- A state of a run, with the calls that are done, in order. -/
structure Config (τ σ π ο κ ρ : Type u) where
  shared : σ
  threads : τ → Thread π ο κ
  log : List (τ × ο × ρ)

variable {τ σ π ο κ ρ : Type u} [DecidableEq τ]

def Thread.AtLock (th : Thread π ο κ) (p : π) (o : ο) : Prop :=
  th = .ready p o ∨ ∃ c, th = .woken c p o

/-- The effect of a broadcast on a thread. -/
def Thread.rouse [DecidableEq κ] (c : κ) : Thread π ο κ → Thread π ο κ
  | .asleep c' p o => if c' = c then .woken c p o else .asleep c' p o
  | th => th

/-- The effect of a signal or broadcast on the threads. -/
inductive Wakes [DecidableEq κ] : Wake κ → (τ → Thread π ο κ) → (τ → Thread π ο κ) → Prop
  | nobody {c : κ} {f : τ → Thread π ο κ} (none : ∀ t p o, f t ≠ .asleep c p o) :
      Wakes (.one c) f f
  | thread {c : κ} {f : τ → Thread π ο κ} {t : τ} {p : π} {o : ο} (sleeps : f t = .asleep c p o) :
      Wakes (.one c) f (Function.update f t (.woken c p o))
  | everybody (c : κ) (f : τ → Thread π ο κ) : Wakes (.all c) f fun t => (f t).rouse c

/-- Several of them, in order. -/
inductive WakesAll [DecidableEq κ] :
    List (Wake κ) → (τ → Thread π ο κ) → (τ → Thread π ο κ) → Prop
  | nil (f : τ → Thread π ο κ) : WakesAll [] f f
  | cons {w : Wake κ} {ws : List (Wake κ)} {f g h : τ → Thread π ο κ} (first : Wakes w f g)
      (rest : WakesAll ws g h) : WakesAll (w :: ws) f h

variable [DecidableEq κ] (M : System σ π ο κ ρ)

/-- One step of a run. -/
inductive Step : Config τ σ π ο κ ρ → Config τ σ π ο κ ρ → Prop
  | call {a : Config τ σ π ο κ ρ} {t : τ} {p : π} {o : ο} (here : a.threads t = .out p)
      (calls : M.calls p o) :
      Step a { a with threads := Function.update a.threads t (.ready p o) }
  | wait {a : Config τ σ π ο κ ρ} {t : τ} {p : π} {o : ο} {c : κ}
      (here : (a.threads t).AtLock p o) (enters : M.enters a.shared o (.wait c)) :
      Step a { a with threads := Function.update a.threads t (.asleep c p o) }
  | done {a : Config τ σ π ο κ ρ} {t : τ} {p : π} {o : ο} {r : ρ} {s : σ} {wakes : List (Wake κ)}
      {f : τ → Thread π ο κ} (here : (a.threads t).AtLock p o)
      (enters : M.enters a.shared o (.done r s wakes))
      (woken : WakesAll wakes (Function.update a.threads t (.out (M.returns p o r))) f) :
      Step a ⟨s, f, a.log ++ [(t, o, r)]⟩
  | spurious {a : Config τ σ π ο κ ρ} {t : τ} {p : π} {o : ο} {c : κ}
      (here : a.threads t = .asleep c p o) :
      Step a { a with threads := Function.update a.threads t (.woken c p o) }

abbrev Runs : Config τ σ π ο κ ρ → Config τ σ π ο κ ρ → Prop := ReflTransGen (Step M)

/-- A run begins with all threads outside. -/
def Config.start (s : σ) (p : τ → π) : Config τ σ π ο κ ρ := ⟨s, fun t => .out (p t), []⟩

variable {M}

/-- What every call that is done keeps, holds in every state. -/
theorem Runs.data {I : σ → List (τ × ο × ρ) → Prop} {a b : Config τ σ π ο κ ρ}
    (runs : Runs M a b) (start : I a.shared a.log)
    (done : ∀ s log t o r s' wakes, I s log → M.enters s o (.done r s' wakes) →
      I s' (log ++ [(t, o, r)])) : I b.shared b.log := by
  induction runs with
  | refl => exact start
  | tail _ step ih =>
    cases step with
    | call | wait | spurious => exact ih
    | done here enters woken => exact done _ _ _ _ _ _ _ ih enters

/-! ## Logs -/

theorem split_concat {β : Type*} {l before after : List β} {x e : β}
    (same : l ++ [x] = before ++ e :: after) : before = l ∧ e = x ∧ after = [] ∨
      ∃ after', after = after' ++ [x] ∧ l = before ++ e :: after' := by
  rcases List.eq_nil_or_concat' after with rfl | ⟨after', y, rfl⟩
  · obtain ⟨rfl, rfl⟩ := List.append_inj' same rfl |>.imp_right fun h => by simpa using h
    exact .inl ⟨rfl, rfl, rfl⟩
  · right
    rw [← List.cons_append, ← List.append_assoc] at same
    obtain ⟨rfl, last⟩ := List.append_inj' same rfl
    exact ⟨after', by simpa using last.symm, rfl⟩

theorem filterMap_concat {β γ : Type*} (f : β → Option γ) (l : List β) (e : β) :
    (l ++ [e]).filterMap f = l.filterMap f ++ (f e).toList := by
  rw [List.filterMap_append]
  cases same : f e <;> simp [same]

theorem sum_update_add {ι μ : Type*} [Fintype ι] [DecidableEq ι] [AddCommMonoid μ] (g : ι → μ)
    (i : ι) (x : μ) : ∑ j, Function.update g i x j + g i = ∑ j, g j + x := by
  rw [Finset.sum_update_of_mem (Finset.mem_univ i), ← Finset.sum_erase_add _ _ (Finset.mem_univ i),
    Finset.sdiff_singleton_eq_erase, add_comm x, add_right_comm]

/-! ## What threads know -/

/-- What a thread has in its own variables. -/
def Thread.own : Thread π ο κ → π
  | .out p | .ready p _ | .asleep _ p _ | .woken _ p _ => p

/-- The call that a thread is in. -/
def Thread.pending : Thread π ο κ → Option ο
  | .out _ => none
  | .ready _ o | .asleep _ _ o | .woken _ _ o => some o

omit [DecidableEq τ] [DecidableEq κ] in
theorem Thread.AtLock.own {th : Thread π ο κ} {p : π} {o : ο} (here : th.AtLock p o) :
    th.own = p ∧ th.pending = some o := by
  rcases here with rfl | ⟨c, rfl⟩ <;> exact ⟨rfl, rfl⟩

/-- The variables of all threads. -/
def Config.own (a : Config τ σ π ο κ ρ) (t : τ) : π := (a.threads t).own

omit [DecidableEq τ] in
theorem Thread.rouse_own (c : κ) (th : Thread π ο κ) :
    (th.rouse c).own = th.own ∧ (th.rouse c).pending = th.pending := by
  cases th with
  | asleep c' p o =>
    rw [Thread.rouse]
    split <;> exact ⟨rfl, rfl⟩
  | out | ready | woken => exact ⟨rfl, rfl⟩

theorem Wakes.own {w : Wake κ} {f g : τ → Thread π ο κ} (wakes : Wakes w f g) (t : τ) :
    (g t).own = (f t).own ∧ (g t).pending = (f t).pending := by
  cases wakes with
  | nobody _ => exact ⟨rfl, rfl⟩
  | @thread c _ t' p o sleeps =>
    by_cases isIt : t = t'
    · subst isIt
      rw [Function.update_self, sleeps]
      exact ⟨rfl, rfl⟩
    · rw [Function.update_of_ne isIt]
      exact ⟨rfl, rfl⟩
  | everybody c => exact (f t).rouse_own c

theorem WakesAll.own {ws : List (Wake κ)} {f g : τ → Thread π ο κ} (wakes : WakesAll ws f g)
    (t : τ) : (g t).own = (f t).own ∧ (g t).pending = (f t).pending := by
  induction wakes with
  | nil => exact ⟨rfl, rfl⟩
  | cons first _ ih => exact ⟨ih.1.trans (first.own t).1, ih.2.trans (first.own t).2⟩

/-- Threads are only in calls that they may make. -/
def Config.Lawful (M : System σ π ο κ ρ) (a : Config τ σ π ο κ ρ) : Prop :=
  ∀ t o, (a.threads t).pending = some o → M.calls (a.own t) o

omit [DecidableEq τ] [DecidableEq κ] in
theorem lawful_start (s : σ) (p : τ → π) : (Config.start s p).Lawful M := nofun

omit [DecidableEq κ] in
theorem own_update (f : τ → Thread π ο κ) (t : τ) (th : Thread π ο κ) :
    (fun t' => (Function.update f t th t').own) =
      Function.update (fun t' => (f t').own) t th.own := by
  funext t'
  by_cases isIt : t' = t
  · subst isIt
    rw [Function.update_self, Function.update_self]
  · rw [Function.update_of_ne isIt, Function.update_of_ne isIt]

omit [DecidableEq κ] in
theorem Config.Lawful.set {a : Config τ σ π ο κ ρ} (lawful : a.Lawful M) {t : τ}
    {th : Thread π ο κ} (own : th.own = a.own t) (calls : ∀ o, th.pending = some o →
      M.calls (a.own t) o) :
    ({ a with threads := Function.update a.threads t th } : Config τ σ π ο κ ρ).Lawful M := by
  intro t' o isIn
  by_cases isIt : t' = t
  · subst isIt
    unfold Config.own at *
    dsimp only at *
    rw [Function.update_self] at *
    rw [own]
    exact calls o isIn
  · unfold Config.own
    dsimp only at *
    rw [Function.update_of_ne isIt] at *
    exact lawful t' o isIn

theorem Step.known {a b : Config τ σ π ο κ ρ} (step : Step M a b) (lawful : a.Lawful M) :
    b.Lawful M ∧ ((b.shared = a.shared ∧ b.own = a.own ∧ b.log = a.log) ∨
      ∃ t o r wakes, M.calls (a.own t) o ∧ M.enters a.shared o (.done r b.shared wakes) ∧
        b.own = Function.update a.own t (M.returns (a.own t) o r) ∧
        b.log = a.log ++ [(t, o, r)]) := by
  -- a thread that stays in its call
  have stays {t : τ} {th : Thread π ο κ} (own : th.own = a.own t)
      (calls : ∀ o, th.pending = some o → M.calls (a.own t) o) :
      Config.Lawful M { a with threads := Function.update a.threads t th } ∧
        (fun t' => (Function.update a.threads t th t').own) = a.own := by
    refine ⟨lawful.set own calls, ?_⟩
    rw [own_update, own]
    exact Function.update_eq_self t a.own
  cases step with
  | @call t p o here calls =>
    have own : p = a.own t := by
      unfold Config.own
      rw [here]
      rfl
    have isCall (o' : ο) (isIn : (Thread.ready p o : Thread π ο κ).pending = some o') :
        M.calls (a.own t) o' := by
      cases isIn
      exact own ▸ calls
    obtain ⟨lawful', same⟩ := @stays t (.ready p o) own isCall
    exact ⟨lawful', .inl ⟨rfl, same, rfl⟩⟩
  | @wait t p o c here enters =>
    obtain ⟨own, isIn⟩ := here.own
    have isCall (o' : ο) (isIn' : (Thread.asleep c p o : Thread π ο κ).pending = some o') :
        M.calls (a.own t) o' := by
      cases isIn'
      exact lawful t o isIn
    obtain ⟨lawful', same⟩ := @stays t (.asleep c p o) own.symm isCall
    exact ⟨lawful', .inl ⟨rfl, same, rfl⟩⟩
  | @spurious t p o c here =>
    have own : (a.threads t).own = p ∧ (a.threads t).pending = some o := by
      rw [here]
      exact ⟨rfl, rfl⟩
    have isCall (o' : ο) (isIn' : (Thread.woken c p o : Thread π ο κ).pending = some o') :
        M.calls (a.own t) o' := by
      cases isIn'
      exact lawful t o own.2
    obtain ⟨lawful', same⟩ := @stays t (.woken c p o) own.1.symm isCall
    exact ⟨lawful', .inl ⟨rfl, same, rfl⟩⟩
  | @done t p o r s wakes f here enters woken =>
    obtain ⟨own, isIn⟩ := here.own
    have after : (fun t' => (f t').own) = Function.update a.own t (M.returns (a.own t) o r) := by
      funext t'
      rw [(woken.own t').1]
      have changed := congrFun (own_update a.threads t (.out (M.returns p o r))) t'
      rw [changed, ← own]
      rfl
    refine ⟨?_, .inr ⟨t, o, r, wakes, lawful t o isIn, enters, after, rfl⟩⟩
    intro t' o' isIn'
    have before : (Function.update a.threads t (.out (M.returns p o r)) t').pending =
        some o' := (woken.own t').2.symm.trans isIn'
    by_cases isIt : t' = t
    · subst isIt
      rw [Function.update_self] at before
      cases before
    · rw [Function.update_of_ne isIt] at before
      have unchanged : (f t').own = a.own t' := by
        rw [(woken.own t').1, Function.update_of_ne isIt]
        rfl
      rw [Config.own, unchanged]
      exact lawful t' o' before

/-- What every call that is done keeps, holds in every state; it may speak about the
variables of the threads. -/
theorem Runs.known {I : σ → (τ → π) → List (τ × ο × ρ) → Prop} {a b : Config τ σ π ο κ ρ}
    (runs : Runs M a b) (lawful : a.Lawful M) (start : I a.shared a.own a.log)
    (done : ∀ s f log t o r s' wakes, I s f log → M.calls (f t) o →
      M.enters s o (.done r s' wakes) →
        I s' (Function.update f t (M.returns (f t) o r)) (log ++ [(t, o, r)])) :
    b.Lawful M ∧ I b.shared b.own b.log := by
  induction runs with
  | refl => exact ⟨lawful, start⟩
  | @tail b c _ step ih =>
    obtain ⟨lawful', kept⟩ := ih
    obtain ⟨lawful'', ⟨shared, own, log⟩ | ⟨t, o, r, wakes, calls, enters, own, log⟩⟩ :=
      step.known lawful'
    · rw [shared, own, log]
      exact ⟨lawful'', kept⟩
    · rw [own, log]
      exact ⟨lawful'', done _ _ _ t o r _ wakes kept calls enters⟩

/-! ## One call after the other -/

/-- No thread is in a call. -/
def Config.calm (s : σ) (p : τ → π) (log : List (τ × ο × ρ)) : Config τ σ π ο κ ρ :=
  ⟨s, fun t => .out (p t), log⟩

theorem wakesAll_calm (ws : List (Wake κ)) (p : τ → π) :
    WakesAll ws (fun t => .out (p t) : τ → Thread π ο κ) fun t => .out (p t) := by
  induction ws with
  | nil => exact .nil _
  | cons w ws ih =>
    apply WakesAll.cons _ ih
    cases w with
    | one c => exact .nobody fun _ _ _ => nofun
    | all c => exact .everybody c _

theorem Runs.complete {a b : Config τ σ π ο κ ρ} (runs : Runs M a b) {t : τ} {p : π} {o : ο} {r : ρ}
    {s : σ} {wakes : List (Wake κ)} {f : τ → Thread π ο κ} (here : b.threads t = .out p)
    (calls : M.calls p o) (enters : M.enters b.shared o (.done r s wakes))
    (woken : WakesAll wakes (Function.update b.threads t (.out (M.returns p o r))) f) :
    Runs M a ⟨s, f, b.log ++ [(t, o, r)]⟩ := by
  have called := runs.tail (.call here calls)
  have woken' : WakesAll wakes (Function.update (Function.update b.threads t (.ready p o)) t
      (.out (M.returns p o r))) f := by
    rw [Function.update_idem]
    exact woken
  exact called.tail (.done (.inl (Function.update_self ..)) enters woken')

theorem Runs.perform {a : Config τ σ π ο κ ρ} {s s' : σ} {p : τ → π} {log : List (τ × ο × ρ)}
    (runs : Runs M a (.calm s p log)) (t : τ) {o : ο} {r : ρ} {wakes : List (Wake κ)}
    (calls : M.calls (p t) o) (enters : M.enters s o (.done r s' wakes)) :
    Runs M a (.calm s' (Function.update p t (M.returns (p t) o r)) (log ++ [(t, o, r)])) := by
  have left : Function.update (fun t' => Thread.out (p t')) t (.out (M.returns (p t) o r)) =
      fun t' => (.out (Function.update p t (M.returns (p t) o r) t') : Thread π ο κ) := by
    funext t'
    by_cases isIt : t' = t
    · subst isIt
      rw [Function.update_self, Function.update_self]
    · rw [Function.update_of_ne isIt, Function.update_of_ne isIt]
  apply runs.complete rfl calls enters
  dsimp only [Config.calm]
  rw [left]
  exact wakesAll_calm wakes _

theorem Runs.fallAsleep {a b : Config τ σ π ο κ ρ} (runs : Runs M a b) {t : τ} {p : π} {o : ο}
    {c : κ} (here : b.threads t = .out p) (calls : M.calls p o)
    (enters : M.enters b.shared o (.wait c)) :
    Runs M a { b with threads := Function.update b.threads t (.asleep c p o) } := by
  have called := runs.tail (.call here calls)
  have waits := called.tail (.wait (.inl (Function.update_self ..)) enters)
  rwa [Function.update_idem] at waits

/-! ## Simulation -/

/-- Outcomes that differ in the data only. -/
inductive Outcome.Same {σ' : Type u} (R : σ → σ' → Prop) :
    Outcome σ κ ρ → Outcome σ' κ ρ → Prop
  | wait (c : κ) : Same R (.wait c) (.wait c)
  | done {r : ρ} {s : σ} {s' : σ'} (wakes : List (Wake κ)) (related : R s s') :
      Same R (.done r s wakes) (.done r s' wakes)

theorem Runs.simulate {σ' : Type u} (M' : System σ' π ο κ ρ) (R : σ → σ' → Prop)
    (enters : ∀ s s' o out, R s s' → M.enters s o out →
      ∃ out', M'.enters s' o out' ∧ out.Same R out')
    (calls : ∀ p o, M.calls p o → M'.calls p o) (returns : M.returns = M'.returns)
    {a b : Config τ σ π ο κ ρ} (runs : Runs M a b) {s' : σ'} (related : R a.shared s') :
    ∃ s'', R b.shared s'' ∧ Runs M' ⟨s', a.threads, a.log⟩ ⟨s'', b.threads, b.log⟩ := by
  induction runs with
  | refl => exact ⟨s', related, .refl⟩
  | tail _ step ih =>
    obtain ⟨s'', related', runs'⟩ := ih
    cases step with
    | call here calls' => exact ⟨s'', related', runs'.tail (.call here (calls _ _ calls'))⟩
    | spurious here => exact ⟨s'', related', runs'.tail (.spurious here)⟩
    | wait here enters' =>
      obtain ⟨out, enters'', same⟩ := enters _ _ _ _ related' enters'
      cases same
      exact ⟨s'', related', runs'.tail (.wait here enters'')⟩
    | done here enters' woken =>
      obtain ⟨out, enters'', same⟩ := enters _ _ _ _ related' enters'
      cases same with
      | done _ related'' =>
        rw [returns] at woken
        exact ⟨_, related'', runs'.tail (.done here enters'' woken)⟩

/-- Two systems have the same runs as long as the calls are those in which they agree. -/
theorem Runs.transfer {a b : Config τ σ π ο κ ρ} (runs : Runs M a b) (M' : System σ π ο κ ρ)
    {G : τ × ο × ρ → Prop}
    (wait : ∀ s o c, M.enters s o (.wait c) → M'.enters s o (.wait c))
    (done : ∀ s t o r s' wakes, G (t, o, r) → M.enters s o (.done r s' wakes) →
      M'.enters s o (.done r s' wakes))
    (returns : ∀ t p o r, G (t, o, r) → M.returns p o r = M'.returns p o r)
    (calls : ∀ p o, M.calls p o → M'.calls p o) (agrees : ∀ e ∈ b.log, G e) : Runs M' a b := by
  induction runs with
  | refl => exact .refl
  | tail _ step ih =>
    cases step with
    | call here calls' => exact (ih agrees).tail (.call here (calls _ _ calls'))
    | wait here enters => exact (ih agrees).tail (.wait here (wait _ _ _ enters))
    | spurious here => exact (ih agrees).tail (.spurious here)
    | done here enters woken =>
      have last := agrees _ (List.mem_append_right _ List.mem_cons_self)
      rw [returns _ _ _ _ last] at woken
      exact (ih fun e member => agrees e (List.mem_append_left _ member)).tail
        (.done here (done _ _ _ _ _ _ last enters) woken)

/-! ## Wake-ups -/

/-- Whether a thread sleeps on a condition. -/
def Sleeps (c : κ) (f : τ → Thread π ο κ) : Prop := ∃ t p o, f t = .asleep c p o

/-- Whether a thread has been woken from a condition and has not entered since. -/
def Thread.isWoken (c : κ) : Thread π ο κ → Bool
  | .woken c' _ _ => c' = c
  | _ => false

def signals (c : κ) (wakes : List (Wake κ)) : Nat :=
  wakes.countP fun
    | .one c' => c' = c
    | .all _ => false

section Waking

variable {c : κ} {f g : τ → Thread π ο κ} {t : τ}

omit [DecidableEq κ] in
theorem sleeps_of_update {th : Thread π ο κ} (awake : ∀ p o, th ≠ .asleep c p o)
    (sleeps : Sleeps c (Function.update f t th)) : Sleeps c f := by
  obtain ⟨t', p, o, same⟩ := sleeps
  by_cases isIt : t' = t
  · subst isIt
    rw [Function.update_self] at same
    exact absurd same (awake p o)
  · rw [Function.update_of_ne isIt] at same
    exact ⟨t', p, o, same⟩

omit [DecidableEq τ] in
theorem eq_asleep_of_rouse {th : Thread π ο κ} {c' : κ} {p : π} {o : ο}
    (asleep : th.rouse c' = .asleep c p o) : th = .asleep c p o ∧ c ≠ c' := by
  cases th with
  | asleep c'' p' o' =>
    rw [Thread.rouse] at asleep
    split at asleep
    · cases asleep
    · next differ =>
      cases asleep
      exact ⟨rfl, differ⟩
  | out | ready | woken => cases asleep

theorem sleeps_of_wakes {w : Wake κ} (wakes : Wakes w f g) (sleeps : Sleeps c g) :
    Sleeps c f := by
  cases wakes with
  | nobody _ => exact sleeps
  | thread _ => exact sleeps_of_update (fun _ _ asleep => by cases asleep) sleeps
  | everybody c' =>
    obtain ⟨t, p, o, asleep⟩ := sleeps
    exact ⟨t, p, o, (eq_asleep_of_rouse asleep).1⟩

theorem sleeps_of_wakesAll {ws : List (Wake κ)} (wakes : WakesAll ws f g) (sleeps : Sleeps c g) :
    Sleeps c f := by
  induction wakes with
  | nil => exact sleeps
  | cons first _ ih => exact sleeps_of_wakes first (ih sleeps)

theorem not_sleeps_of_all {ws : List (Wake κ)} (wakes : WakesAll ws f g)
    (member : Wake.all c ∈ ws) : ¬Sleeps c g := by
  induction wakes with
  | nil => cases member
  | cons first rest ih =>
    rcases List.mem_cons.1 member with rfl | inRest
    · intro sleeps
      cases first
      obtain ⟨t, p, o, asleep⟩ := sleeps_of_wakesAll rest sleeps
      exact (eq_asleep_of_rouse asleep).2 rfl
    · exact ih inRest

/-- No two threads sleep on a condition. -/
def OneSleeps (c : κ) (f : τ → Thread π ο κ) : Prop :=
  ∀ t t' p p' o o', f t = .asleep c p o → f t' = .asleep c p' o' → t = t'

omit [DecidableEq κ] in
theorem OneSleeps.update {th : Thread π ο κ} (one : OneSleeps c f)
    (awake : ∀ p o, th ≠ .asleep c p o) : OneSleeps c (Function.update f t th) := by
  have before {u : τ} {p : π} {o : ο} (asleep : Function.update f t th u = .asleep c p o) :
      f u = .asleep c p o := by
    by_cases isIt : u = t
    · subst isIt
      rw [Function.update_self] at asleep
      exact absurd asleep (awake p o)
    · rwa [Function.update_of_ne isIt] at asleep
  intro u u' p p' o o' asleep asleep'
  exact one u u' p p' o o' (before asleep) (before asleep')

/-- A signal is enough where no two threads sleep. -/
theorem not_sleeps_of_one (wakes : Wakes (.one c) f g) (one : OneSleeps c f) : ¬Sleeps c g := by
  rintro ⟨t, p, o, asleep⟩
  cases wakes with
  | nobody none => exact none t p o asleep
  | @thread _ _ t' p' o' asleep' =>
    by_cases isIt : t = t'
    · subst isIt
      rw [Function.update_self] at asleep
      cases asleep
    · rw [Function.update_of_ne isIt] at asleep
      exact isIt (one t t' p p' o o' asleep asleep')

/-- Whether a call waits for a condition, or has. -/
def Thread.Concerned (c : κ) (th : Thread π ο κ) (o : ο) : Prop :=
  ∃ p, th = .asleep c p o ∨ th = .woken c p o

theorem concerned_of_wakes {w : Wake κ} (wakes : Wakes w f g) {o : ο}
    (after : (g t).Concerned c o) : (f t).Concerned c o := by
  cases wakes with
  | nobody _ => exact after
  | @thread c' _ t' p' o' asleep =>
    by_cases isIt : t = t'
    · subst isIt
      rw [Function.update_self] at after
      obtain ⟨p, same | same⟩ := after
      · cases same
      · cases same
        exact ⟨p', .inl asleep⟩
    · rwa [Function.update_of_ne isIt] at after
  | everybody c' =>
    obtain ⟨p, same | same⟩ := after
    · exact ⟨p, .inl (eq_asleep_of_rouse same).1⟩
    · cases th : f t with
      | asleep c'' p' o' =>
        dsimp only at same
        rw [th, Thread.rouse] at same
        split at same
        · next isIt =>
          cases same
          subst isIt
          exact ⟨p, .inl rfl⟩
        · cases same
      | out | ready =>
        dsimp only at same
        rw [th] at same
        cases same
      | woken =>
        dsimp only at same
        rw [th] at same
        exact ⟨p, .inr same⟩

theorem concerned_of_wakesAll {ws : List (Wake κ)} (wakes : WakesAll ws f g) {o : ο}
    (after : (g t).Concerned c o) : (f t).Concerned c o := by
  induction wakes with
  | nil => exact after
  | cons first _ ih => exact concerned_of_wakes first (ih after)

variable [Fintype τ]

/-- How many threads have been woken from a condition and have not entered since. -/
def woken (c : κ) (f : τ → Thread π ο κ) : Nat :=
  ∑ t, if (f t).isWoken c then 1 else 0

theorem woken_update (th : Thread π ο κ) :
    woken c (Function.update f t th) + (if (f t).isWoken c then 1 else 0) =
      woken c f + if th.isWoken c then 1 else 0 := by
  have one := sum_update_add (fun t => if (f t).isWoken c then 1 else 0) t
    (if th.isWoken c then 1 else 0)
  have apart : (fun t' => if (Function.update f t th t').isWoken c then 1 else 0) =
      Function.update (fun t' => if (f t').isWoken c then 1 else 0) t
        (if th.isWoken c then 1 else 0) :=
    Function.comp_update (fun th : Thread π ο κ => if th.isWoken c then 1 else 0) f t th
  unfold woken
  rw [apart]
  exact one

omit [DecidableEq τ] in
theorem exists_woken (positive : 0 < woken c f) : ∃ t p o, f t = .woken c p o := by
  obtain ⟨t, -, counted⟩ := Finset.exists_ne_zero_of_sum_ne_zero (Nat.ne_of_gt positive)
  refine ⟨t, ?_⟩
  cases th : f t with
  | woken c' p o =>
    rw [th, Thread.isWoken] at counted
    have same : c' = c := by simpa using counted
    exact ⟨p, o, by rw [same]⟩
  | out | ready | asleep =>
    rw [th] at counted
    exact absurd rfl counted

omit [DecidableEq τ] in
theorem woken_le_rouse (c' : κ) : woken c f ≤ woken c fun t => (f t).rouse c' := by
  apply Finset.sum_le_sum
  intro t _
  have stays : (f t).isWoken c = true → ((f t).rouse c').isWoken c = true := by
    cases f t with
    | asleep => exact nofun
    | out | ready | woken => exact id
  split
  · next isWoken =>
    rw [stays isWoken, if_pos rfl]
  · exact Nat.zero_le _

theorem woken_of_wakes {w : Wake κ} (wakes : Wakes w f g) :
    ¬Sleeps c g ∨ woken c f + signals c [w] ≤ woken c g := by
  cases wakes with
  | @nobody c' _ none =>
    by_cases same : c' = c
    · left
      rintro ⟨t, p, o, asleep⟩
      exact none t p o (same ▸ asleep)
    · right
      simp [signals, same]
  | @thread c' _ t p o asleep =>
    right
    have counted := woken_update (c := c) (f := f) (t := t) (.woken c' p o)
    rw [asleep] at counted
    by_cases same : c' = c
    · simp only [Thread.isWoken, same, decide_true, if_true] at counted
      simp only [signals, same, List.countP_singleton, decide_true, if_true]
      simp only [Bool.false_eq_true, if_false] at counted
      omega
    · simp only [Thread.isWoken, same, decide_false, Bool.false_eq_true, if_false] at counted
      simp only [signals, same, List.countP_singleton, decide_false, Bool.false_eq_true, if_false]
      omega
  | everybody c' =>
    right
    exact woken_le_rouse c'

theorem woken_of_wakesAll {ws : List (Wake κ)} (wakes : WakesAll ws f g) :
    ¬Sleeps c g ∨ woken c f + signals c ws ≤ woken c g := by
  induction wakes with
  | nil => exact .inr (Nat.le_refl _)
  | @cons w ws f g h first rest ih =>
    have each : signals c (w :: ws) = signals c [w] + signals c ws := by
      rw [signals, ← List.singleton_append, List.countP_append]
      rfl
    rcases woken_of_wakes (c := c) first with none | more
    · exact .inl fun sleeps => none (sleeps_of_wakesAll rest sleeps)
    · rcases ih with none | more'
      · exact .inl none
      · right
        omega

end Waking

/-! ## No wake-up is lost -/

/-- A condition that its signals keep pace with.  There is nothing to wait for when
`available` is none; otherwise it counts how many calls could go on, and each that has waited
takes one. -/
structure Paced (M : System σ π ο κ ρ) (c : κ) (available : σ → Option Nat)
    (waiter : ο → Prop) : Prop where
  wait : ∀ s o, M.enters s o (.wait c) → available s = some 0 ∧ waiter o
  only : ∀ s o c', M.enters s o (.wait c') → waiter o → c' = c
  done : ∀ s o r s' wakes, M.enters s o (.done r s' wakes) →
    Wake.all c ∈ wakes ∨ available s = none ∨ ∃ n n', available s = some n ∧
      available s' = some n' ∧ n' ≤ n + signals c wakes ∧
        (waiter o → n' + 1 ≤ n + signals c wakes)

/-- As many threads have been woken as could go on, if any others sleep. -/
structure Attended [Fintype τ] (c : κ) (available : σ → Option Nat) (waiter : ο → Prop)
    (a : Config τ σ π ο κ ρ) : Prop where
  waiters : ∀ t o, (a.threads t).Concerned c o → waiter o
  enough : Sleeps c a.threads → ∃ n, available a.shared = some n ∧ n ≤ woken c a.threads

section Pace

variable [Fintype τ] {c : κ} {available : σ → Option Nat} {waiter : ο → Prop}
  {a b : Config τ σ π ο κ ρ}

omit [DecidableEq τ] in
theorem attended_start (s : σ) (p : τ → π) :
    Attended c available waiter (Config.start s p : Config τ σ π ο κ ρ) where
  waiters := by
    rintro t o ⟨p', isOut | isOut⟩
    · cases isOut
    · cases isOut
  enough := by
    rintro ⟨t, p', o, isOut⟩
    cases isOut

theorem Attended.quiet (attended : Attended c available waiter a) {t : τ} {th : Thread π ο κ}
    (before : (a.threads t).isWoken c = false) (after : ∀ o, ¬th.Concerned c o) :
    Attended c available waiter { a with threads := Function.update a.threads t th } := by
  have notWoken : th.isWoken c = false := by
    cases th with
    | woken c' p o =>
      rw [Thread.isWoken, decide_eq_false_iff_not]
      rintro rfl
      exact after o ⟨p, .inr rfl⟩
    | out | ready | asleep => rfl
  constructor
  · intro t' o concerned
    by_cases isIt : t' = t
    · subst isIt
      dsimp only at concerned
      rw [Function.update_self] at concerned
      exact absurd concerned (after o)
    · dsimp only at concerned
      rw [Function.update_of_ne isIt] at concerned
      exact attended.waiters t' o concerned
  · intro sleeps
    obtain ⟨n, isAvailable, le⟩ := attended.enough
      (sleeps_of_update (fun p o asleep => after o ⟨p, .inl asleep⟩) sleeps)
    refine ⟨n, isAvailable, ?_⟩
    have counted := woken_update (c := c) (f := a.threads) (t := t) th
    rw [before, notWoken] at counted
    dsimp only
    omega

/-- What one step preserves. -/
theorem Paced.step (paced : Paced M c available waiter) (attended : Attended c available waiter a)
    (step : Step M a b) : Attended c available waiter b := by
  cases step with
  | call here _ =>
    apply attended.quiet (by rw [here]; rfl)
    rintro o ⟨p, same | same⟩ <;> cases same
  | @wait t p o c' here enters =>
    by_cases isIt : c' = c
    · subst isIt
      obtain ⟨nothing, isWaiter⟩ := paced.wait _ _ enters
      constructor
      · intro t' o' concerned
        by_cases same : t' = t
        · subst same
          dsimp only at concerned
          rw [Function.update_self] at concerned
          obtain ⟨p', same | same⟩ := concerned
          · cases same
            exact isWaiter
          · cases same
        · dsimp only at concerned
          rw [Function.update_of_ne same] at concerned
          exact attended.waiters t' o' concerned
      · exact fun _ => ⟨0, nothing, Nat.zero_le _⟩
    · apply attended.quiet
      · rcases here with isReady | ⟨c'', isWoken⟩
        · rw [isReady]
          rfl
        · rw [isWoken, Thread.isWoken, decide_eq_false_iff_not]
          rintro rfl
          exact isIt (paced.only _ _ _ enters (attended.waiters t o ⟨p, .inr isWoken⟩))
      · rintro o' ⟨p', same | same⟩
        · cases same
          exact isIt rfl
        · cases same
  | @spurious t p o c' here =>
    by_cases isIt : c' = c
    · subst isIt
      have counted := woken_update (c := c') (f := a.threads) (t := t) (.woken c' p o)
      rw [here] at counted
      constructor
      · intro t' o' concerned
        by_cases same : t' = t
        · subst same
          dsimp only at concerned
          rw [Function.update_self] at concerned
          obtain ⟨p', same | same⟩ := concerned
          · cases same
          · cases same
            exact attended.waiters t' o ⟨p, .inl here⟩
        · dsimp only at concerned
          rw [Function.update_of_ne same] at concerned
          exact attended.waiters t' o' concerned
      · intro _
        obtain ⟨n, isAvailable, le⟩ := attended.enough ⟨t, p, o, here⟩
        refine ⟨n, isAvailable, ?_⟩
        simp only [Thread.isWoken, decide_true, if_true, Bool.false_eq_true, if_false] at counted
        dsimp only
        omega
    · apply attended.quiet (by rw [here]; rfl)
      rintro o' ⟨p', same | same⟩
      · cases same
      · cases same
        exact isIt rfl
  | @done t p o r s wakes f here enters wakesAll =>
    have out (q : π) : ∀ o', ¬(Thread.out q : Thread π ο κ).Concerned c o' := by
      rintro o' ⟨p', same | same⟩ <;> cases same
    constructor
    · intro t' o' concerned
      have before := concerned_of_wakesAll wakesAll concerned
      by_cases same : t' = t
      · subst same
        rw [Function.update_self] at before
        exact absurd before (out _ o')
      · rw [Function.update_of_ne same] at before
        exact attended.waiters t' o' before
    · intro sleeps
      have before := sleeps_of_update (fun p' o' asleep => out _ o' ⟨p', .inl asleep⟩)
        (sleeps_of_wakesAll wakesAll sleeps)
      obtain ⟨n, isAvailable, le⟩ := attended.enough before
      rcases paced.done _ _ _ _ _ enters with
        all | unlimited | ⟨m, m', isAvailable', after, pace, takes⟩
      · exact absurd sleeps (not_sleeps_of_all wakesAll all)
      · rw [isAvailable] at unlimited
        cases unlimited
      · obtain rfl : n = m := Option.some.inj (isAvailable.symm.trans isAvailable')
        refine ⟨m', after, ?_⟩
        have more := (woken_of_wakesAll (c := c) wakesAll).resolve_left (not_not_intro sleeps)
        have counted := woken_update (c := c) (f := a.threads) (t := t) (.out (M.returns p o r))
        have leaves : (Thread.out (M.returns p o r) : Thread π ο κ).isWoken c = false := rfl
        rw [leaves] at counted
        by_cases was : (a.threads t).isWoken c = true
        · have isWaiter : waiter o := by
            rcases here with isReady | ⟨c', isWoken⟩
            · rw [isReady] at was
              cases was
            · rw [isWoken, Thread.isWoken, decide_eq_true_iff] at was
              subst was
              exact attended.waiters t o ⟨p, .inr isWoken⟩
          have := takes isWaiter
          rw [was] at counted
          simp only [if_true, Bool.false_eq_true, if_false] at counted
          dsimp only
          omega
        · rw [Bool.not_eq_true] at was
          rw [was] at counted
          dsimp only
          omega

theorem Paced.attended (paced : Paced M c available waiter) (runs : Runs M a b)
    (start : Attended c available waiter a) : Attended c available waiter b := by
  induction runs with
  | refl => exact start
  | tail _ step ih => exact paced.step ih step

omit [DecidableEq τ] in
/-- A thread that sleeps although it could go on is not forgotten: another one has been
woken. -/
theorem Attended.awake (attended : Attended c available waiter a) (sleeps : Sleeps c a.threads)
    (could : available a.shared ≠ some 0) : ∃ t p o, a.threads t = .woken c p o := by
  obtain ⟨n, isAvailable, le⟩ := attended.enough sleeps
  apply exists_woken
  apply Nat.lt_of_lt_of_le _ le
  apply Nat.pos_of_ne_zero
  rintro rfl
  exact could isAvailable

end Pace

end Dux.Logic.Monitor
