import Mathlib.Data.Option.Basic
import Mathlib.Order.WellFounded

/-!
# Procedures that call each other

A procedure has a name, which carries its arguments, and a body, which reads and changes a state,
calls procedures and returns a result.  A loop is a procedure that calls itself.  A body is data, so
that the calls that it makes can be spoken of apart from their results.

`Meets` is the rule for proofs: a body may call what fulfils a condition, relies on what is known
of a call that has returned, and ends in states that are described.  If every body makes calls
below its own in a well-founded order only, then every procedure returns.
-/

namespace Dux.Logic

/-- A piece of a body, over states `σ`, procedures `C` and their results `R`. -/
inductive Prog (σ C R : Type) (α : Type) : Type
  | ret (a : α)
  | look (k : σ → Prog σ C R α)
  | update (f : σ → σ) (next : Prog σ C R α)
  | call (c : C) (k : R → Prog σ C R α)

namespace Prog

variable {σ C R α β : Type}

/-- One piece after the other. -/
def bind : Prog σ C R α → (α → Prog σ C R β) → Prog σ C R β
  | ret a, f => f a
  | look k, f => look fun s => (k s).bind f
  | update g next, f => update g (next.bind f)
  | call c k, f => call c fun r => (k r).bind f

instance : Monad (Prog σ C R) where
  pure := ret
  bind := bind

/-! ## Runs -/

/-- A run, given what the calls do. -/
def exec (calls : C → σ → Option (R × σ)) : Prog σ C R α → σ → Option (α × σ)
  | ret a, s => some (a, s)
  | look k, s => (k s).exec calls s
  | update f next, s => next.exec calls (f s)
  | call c k, s => (calls c s).bind fun result => (k result.1).exec calls result.2

/-- A call with so many levels of calls below it; `none` when they are not enough. -/
def run (body : C → Prog σ C R R) : Nat → C → σ → Option (R × σ)
  | 0, _, _ => none
  | n + 1, c, s => (body c).exec (run body n) s

variable {body : C → Prog σ C R R}

theorem exec_bind {calls : C → σ → Option (R × σ)} {p : Prog σ C R α} {f : α → Prog σ C R β}
    {s : σ} :
    (p >>= f).exec calls s =
      (p.exec calls s).bind fun result => (f result.1).exec calls result.2 := by
  induction p generalizing s with
  | ret a => rfl
  | look k ih => exact ih s
  | update g next ih => exact ih
  | call c k ih =>
    change (calls c s).bind _ = ((calls c s).bind _).bind _
    cases calls c s with
    | none => rfl
    | some called => exact ih called.1

theorem exec_mono {calls calls' : C → σ → Option (R × σ)}
    (more : ∀ c s result, calls c s = some result → calls' c s = some result)
    {p : Prog σ C R α} {s : σ} {result : α × σ} (ends : p.exec calls s = some result) :
    p.exec calls' s = some result := by
  induction p generalizing s with
  | ret a => exact ends
  | look k ih => exact ih s ends
  | update f next ih => exact ih ends
  | call c k ih =>
    obtain ⟨called, returns, rest⟩ := Option.bind_eq_some_iff.mp ends
    exact Option.bind_eq_some_iff.mpr ⟨called, more c s called returns, ih _ rest⟩

theorem run_mono {n m : Nat} (le : n ≤ m) {c : C} {s : σ} {result : R × σ}
    (returns : run body n c s = some result) : run body m c s = some result := by
  induction n generalizing m c s result with
  | zero => cases returns
  | succ n ih =>
    obtain ⟨m, rfl⟩ := Nat.exists_eq_succ_of_ne_zero (Nat.ne_of_gt (Nat.zero_lt_of_lt le))
    exact exec_mono (fun _ _ _ => ih (Nat.le_of_succ_le_succ le)) returns

theorem run_unique {n m : Nat} {c : C} {s : σ} {result result' : R × σ}
    (returns : run body n c s = some result) (returns' : run body m c s = some result') :
    result = result' := by
  have up := run_mono (Nat.le_max_left n m) returns
  have up' := run_mono (Nat.le_max_right n m) returns'
  exact Option.some.inj (up.symm.trans up')

/-- The calls that a piece makes from a state. -/
inductive Makes (body : C → Prog σ C R R) : Prog σ C R α → σ → C → σ → Prop
  | here {c : C} {k : R → Prog σ C R α} {s : σ} : Makes body (call c k) s c s
  | look {k : σ → Prog σ C R α} {s : σ} {c : C} {s' : σ} (makes : Makes body (k s) s c s') :
      Makes body (look k) s c s'
  | update {f : σ → σ} {next : Prog σ C R α} {s : σ} {c : C} {s' : σ}
      (makes : Makes body next (f s) c s') : Makes body (update f next) s c s'
  | later {c₁ : C} {k : R → Prog σ C R α} {s s₁ : σ} {n : Nat} {r : R} {c : C} {s' : σ}
      (returns : run body n c₁ s = some (r, s₁)) (makes : Makes body (k r) s₁ c s') :
      Makes body (call c₁ k) s c s'

/-- The calls of a run, those that are made below other calls among them. -/
inductive Reaches (body : C → Prog σ C R R) (p : Prog σ C R α) (s : σ) : C → σ → Prop
  | first {c : C} {s' : σ} (makes : Makes body p s c s') : Reaches body p s c s'
  | inside {c c' : C} {s' s'' : σ} (reaches : Reaches body p s c s')
      (makes : Makes body (body c) s' c' s'') : Reaches body p s c' s''

/-! ## The rule for proofs -/

/-- A piece makes calls for which `pre` and `below` hold only, and ends where `Q` holds if what has
been called fulfils `post`. -/
def Meets (pre below : C → σ → Prop) (post : C → σ → σ → Prop) (Q : α → σ → Prop) :
    Prog σ C R α → σ → Prop
  | ret a, s => Q a s
  | look k, s => (k s).Meets pre below post Q s
  | update f next, s => next.Meets pre below post Q (f s)
  | call c k, s =>
      pre c s ∧ below c s ∧ ∀ r s', post c s s' → (k r).Meets pre below post Q s'

section Meets

variable {pre below : C → σ → Prop} {post : C → σ → σ → Prop} {Q Q' : α → σ → Prop} {s : σ}

theorem Meets.mono {p : Prog σ C R α} (meets : p.Meets pre below post Q s)
    (weaker : ∀ a s', Q a s' → Q' a s') : p.Meets pre below post Q' s := by
  induction p generalizing s with
  | ret a => exact weaker a s meets
  | look k ih => exact ih s meets
  | update f next ih => exact ih meets
  | call c k ih => exact ⟨meets.1, meets.2.1, fun r s' known => ih r (meets.2.2 r s' known)⟩

theorem meets_bind {p : Prog σ C R α} {f : α → Prog σ C R β} {Q : β → σ → Prop} :
    (p >>= f).Meets pre below post Q s ↔
      p.Meets pre below post (fun a s' => (f a).Meets pre below post Q s') s := by
  induction p generalizing s with
  | ret a => exact Iff.rfl
  | look k ih => exact ih s
  | update g next ih => exact ih
  | call c k ih =>
    exact and_congr_right fun _ => and_congr_right fun _ =>
      forall_congr' fun r => forall_congr' fun s' => imp_congr_right fun _ => ih r

/-- What is called fulfils `post`. -/
def Fulfilled (body : C → Prog σ C R R) (pre below : C → σ → Prop) (post : C → σ → σ → Prop) :
    Prop :=
  ∀ c s, pre c s → below c s → ∃ n r s', run body n c s = some (r, s') ∧ post c s s'

theorem Meets.ends {p : Prog σ C R α} (meets : p.Meets pre below post Q s)
    (fulfilled : Fulfilled body pre below post) :
    ∃ n a s', p.exec (run body n) s = some (a, s') ∧ Q a s' := by
  induction p generalizing s with
  | ret a => exact ⟨0, a, s, rfl, meets⟩
  | look k ih => exact ih s meets
  | update f next ih => exact ih meets
  | call c k ih =>
    obtain ⟨n, r, s₁, returns, known⟩ := fulfilled c s meets.1 meets.2.1
    obtain ⟨m, a, s', ends, holds⟩ := ih r (meets.2.2 r s₁ known)
    refine ⟨max n m, a, s', ?_, holds⟩
    have first := run_mono (Nat.le_max_left n m) returns
    have rest := exec_mono (fun _ _ _ => run_mono (Nat.le_max_right n m)) ends
    exact Option.bind_eq_some_iff.mpr ⟨_, first, rest⟩

theorem Meets.makes {p : Prog σ C R α} (meets : p.Meets pre below post Q s)
    (fulfilled : Fulfilled body pre below post) {c : C} {s' : σ} (makes : Makes body p s c s') :
    pre c s' ∧ below c s' := by
  induction makes with
  | here => exact ⟨meets.1, meets.2.1⟩
  | look makes ih => exact ih meets
  | update makes ih => exact ih meets
  | @later c₁ k s s₁ n r c s' returns makes ih =>
    obtain ⟨m, r', s₁', returns', known⟩ := fulfilled c₁ s meets.1 meets.2.1
    cases run_unique returns returns'
    exact ih (meets.2.2 _ _ known)

end Meets

/-! ## Termination -/

section Termination

variable {pre : C → σ → Prop} {post : C → σ → σ → Prop} {μ : Type} {lt : μ → μ → Prop}
  {measure : C → σ → μ}

/-- Every body makes calls of a smaller measure only, and does what is expected of it. -/
def Decreasing (body : C → Prog σ C R R) (pre : C → σ → Prop) (post : C → σ → σ → Prop)
    (lt : μ → μ → Prop) (measure : C → σ → μ) : Prop :=
  ∀ c s, pre c s →
    (body c).Meets pre (fun c' s' => lt (measure c' s') (measure c s)) post
      (fun _ s' => post c s s') s

/-- Every procedure returns. -/
theorem Decreasing.returns (decreasing : Decreasing body pre post lt measure)
    (wellFounded : WellFounded lt) {c : C} {s : σ} (ready : pre c s) :
    ∃ n r s', run body n c s = some (r, s') ∧ post c s s' := by
  induction hm : measure c s using wellFounded.induction generalizing c s with
  | _ m ih =>
    subst hm
    have fulfilled : Fulfilled body pre (fun c' s' => lt (measure c' s') (measure c s)) post :=
      fun c' s' ready' smaller => ih _ smaller ready' rfl
    obtain ⟨n, r, s', ends, known⟩ := (decreasing c s ready).ends fulfilled
    exact ⟨n + 1, r, s', ends, known⟩

theorem Decreasing.fulfilled (decreasing : Decreasing body pre post lt measure)
    (wellFounded : WellFounded lt) (below : C → σ → Prop) : Fulfilled body pre below post :=
  fun _ _ ready _ => decreasing.returns wellFounded ready

theorem Decreasing.reaches (decreasing : Decreasing body pre post lt measure)
    (wellFounded : WellFounded lt) {p : Prog σ C R α} {s : σ} {Q : α → σ → Prop}
    {below : C → σ → Prop} (meets : p.Meets pre below post Q s) {c : C} {s' : σ}
    (reaches : Reaches body p s c s') :
    pre c s' ∧ ∀ c' s'', Makes body (body c) s' c' s'' →
      lt (measure c' s'') (measure c s') := by
  have ready : pre c s' := by
    induction reaches with
    | first makes => exact (meets.makes (decreasing.fulfilled wellFounded _) makes).1
    | inside reaches makes ih =>
      exact ((decreasing _ _ ih).makes (decreasing.fulfilled wellFounded _) makes).1
  exact ⟨ready, fun c' s'' makes =>
    ((decreasing c s' ready).makes (decreasing.fulfilled wellFounded _) makes).2⟩

end Termination

/-! ## Pieces that keep to a part of the state -/

/-- Every change of the state is one that `I` allows, and every call is one that `A` allows. -/
def Keeps (I : σ → σ → Prop) (A : C → Prop) : Prog σ C R α → Prop
  | ret _ => True
  | look k => ∀ s, (k s).Keeps I A
  | update f next => (∀ s, I s (f s)) ∧ next.Keeps I A
  | call c k => A c ∧ ∀ r, (k r).Keeps I A

section Keeps

variable {I : σ → σ → Prop} {A : C → Prop}

theorem Keeps.bind {p : Prog σ C R α} {f : α → Prog σ C R β} (first : p.Keeps I A)
    (second : ∀ a, (f a).Keeps I A) : (p.bind f).Keeps I A := by
  induction p with
  | ret a => exact second a
  | look k ih => exact fun s => ih s (first s)
  | update g next ih => exact ⟨first.1, ih first.2⟩
  | call c k ih => exact ⟨first.1, fun r => ih r (first.2 r)⟩

/-- What holds of a state holds at the end if neither changes nor calls leave it, and it allows all
these calls. -/
theorem Keeps.meets {pre below : C → σ → Prop} {post : C → σ → σ → Prop} {J : σ → Prop}
    {p : Prog σ C R α} (keeps : p.Keeps I A) (changes : ∀ s s', I s s' → J s → J s')
    (calls : ∀ c s, A c → J s → pre c s ∧ below c s ∧ ∀ s', post c s s' → J s') {s : σ}
    (holds : J s) : p.Meets pre below post (fun _ => J) s := by
  induction p generalizing s with
  | ret a => exact holds
  | look k ih => exact ih s (keeps s) holds
  | update f next ih => exact ih keeps.2 (changes _ _ (keeps.1 s) holds)
  | call c k ih =>
    obtain ⟨ready, smaller, returned⟩ := calls c s keeps.1 holds
    exact ⟨ready, smaller, fun r s' known => ih r (keeps.2 r) (returned s' known)⟩

end Keeps

/-! ## Pieces that spend

Some calls spend something of the state.  What has been spent may allow any call, so it is enough to
look at the calls up to the first one that spends. -/

/-- The calls that are made before something has been spent are of a rank below `r`, and `Q` holds
if nothing is spent at all.  The states in which nothing has been spent have `E`. -/
def Within (E : σ → Prop) (rank : C → Nat) (r : Nat) (spends : C → Prop) (Q : α → Prop) :
    Prog σ C R α → Prop
  | ret a => Q a
  | look k => ∀ s, E s → (k s).Within E rank r spends Q
  | update _ next => next.Within E rank r spends Q
  | call c k => rank c < r ∧ (spends c ∨ ∀ x, (k x).Within E rank r spends Q)

section Within

variable {I : σ → σ → Prop} {A : C → Prop} {E : σ → Prop} {rank : C → Nat} {r : Nat}
  {spends : C → Prop}

theorem within_bind {p : Prog σ C R α} {f : α → Prog σ C R β} {Q : β → Prop} :
    (p.bind f).Within E rank r spends Q ↔
      p.Within E rank r spends fun a => (f a).Within E rank r spends Q := by
  induction p with
  | ret a => exact Iff.rfl
  | look k ih => exact forall_congr' fun s => imp_congr_right fun _ => ih s
  | update g next ih => exact ih
  | call c k ih => exact and_congr_right fun _ => or_congr_right (forall_congr' ih)

/-- Nothing has been spent in the states with `Full`, and something in those with `Spent`. -/
theorem Within.meets {pre below : C → σ → Prop} {post : C → σ → σ → Prop} (Full Spent : σ → Prop)
    {p : Prog σ C R α} {Q : α → Prop} (within : p.Within E rank r spends Q)
    (keeps : p.Keeps I A) (sees : ∀ s, Full s → E s)
    (stays : ∀ s s', I s s' → (Full s → Full s') ∧ (Spent s → Spent s'))
    (first : ∀ c s, A c → rank c < r → Full s →
      pre c s ∧ below c s ∧ ∀ s', post c s s' → Spent s' ∨ Full s' ∧ ¬spends c)
    (later : ∀ c s, A c → Spent s → pre c s ∧ below c s ∧ ∀ s', post c s s' → Spent s')
    {s : σ} (full : Full s) :
    p.Meets pre below post (fun a s' => Spent s' ∨ Full s' ∧ Q a) s := by
  induction p generalizing s with
  | ret a => exact .inr ⟨full, within⟩
  | look k ih => exact ih s (within s (sees s full)) (keeps s) full
  | update f next ih => exact ih within keeps.2 ((stays _ _ (keeps.1 s)).1 full)
  | call c k ih =>
    obtain ⟨ready, smaller, returned⟩ := first c s keeps.1 within.1 full
    refine ⟨ready, smaller, fun x s' known => ?_⟩
    cases returned s' known with
    | inl spent =>
      have rest := (keeps.2 x).meets (fun s s' i => (stays s s' i).2) later spent
      exact rest.mono fun a s'' spent => .inl spent
    | inr full =>
      exact ih x ((within.2.resolve_left full.2) x) (keeps.2 x) full.1

end Within

end Prog

end Dux.Logic
