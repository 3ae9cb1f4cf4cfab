import Mathlib.Logic.Function.Basic

/-!
# The event loop

`duxrt_async_run`, `duxrt_async_stop` and `duxrt_async_is_running` of `src/runtime/async_rt.c`,
called by any threads.  The two flags are atomic, and a step of a run is one load or store.
-/

namespace Dux.Runtime.AsyncLoop

universe u

/-! ## The functions -/

/-- The next load or store of a thread. -/
inductive Position
  | out
  /-- `atomic_store(&g_running, 1)` of `duxrt_async_run`. -/
  | entering
  /-- `atomic_load(&g_stop_requested)`; behind it the thread sleeps for a tick if it is clear. -/
  | checking
  /-- `atomic_store(&g_running, 0)`. -/
  | leaving
  /-- `atomic_store(&g_stop_requested, 0)`. -/
  | resetting
  /-- `atomic_store(&g_stop_requested, 1)` of `duxrt_async_stop`. -/
  | requesting
  /-- `atomic_store(&g_running, 0)` of `duxrt_async_stop`. -/
  | finishing
  deriving DecidableEq

/-- Between the stores to `g_running` a run is in its loop. -/
def Position.inLoop : Position → Bool
  | .checking | .leaving => true
  | _ => false

/-- The flags and the threads; and what has happened, which no thread looks at. -/
structure State (τ : Type u) where
  stopRequested : Bool
  running : Bool
  position : τ → Position
  /-- The runs that were in their loops when a stop call returned. -/
  told : τ → Prop
  /-- The stop calls made when no run was in its loop, whose store no run has observed. -/
  unseen : τ → Prop
  /-- Such a stop call has returned. -/
  pending : Prop
  /-- The threads since whose last load a stop call has set the flag. -/
  late : τ → Prop

/-- A call, or a load or store of a thread. -/
inductive Action (τ : Type u)
  | run (t : τ)
  | enter (t : τ)
  | check (t : τ)
  | leave (t : τ)
  | reset (t : τ)
  | stop (t : τ)
  | request (t : τ)
  | finish (t : τ)

def Action.thread {τ : Type u} : Action τ → τ
  | .run t | .enter t | .check t | .leave t | .reset t | .stop t | .request t | .finish t => t

namespace State

variable {τ : Type u}

def start : State τ := ⟨false, false, fun _ => .out, fun _ => False, fun _ => False, False,
  fun _ => False⟩

/-- No run is in its loop. -/
def Idle (a : State τ) : Prop := ∀ t, (a.position t).inLoop = false

/-- A thread is where the action is done. -/
def Enabled (a : State τ) : Action τ → Prop
  | .run t | .stop t => a.position t = .out
  | .enter t => a.position t = .entering
  | .check t => a.position t = .checking
  | .leave t => a.position t = .leaving
  | .reset t => a.position t = .resetting
  | .request t => a.position t = .requesting
  | .finish t => a.position t = .finishing

def target (a : State τ) : Action τ → Position
  | .run _ => .entering
  | .enter _ => .checking
  | .check _ => if a.stopRequested then .leaving else .checking
  | .leave _ => .resetting
  | .stop _ => .requesting
  | .request _ => .finishing
  | .reset _ | .finish _ => .out

variable [DecidableEq τ]

def goes (a : State τ) (t : τ) (p : Position) : State τ :=
  { a with position := Function.update a.position t p }

def next (a : State τ) : Action τ → State τ
  | .run t => a.goes t .entering
  | .enter t => { a.goes t .checking with
      running := true
      told := fun u => u ≠ t ∧ a.told u }
  | .check t =>
      if a.stopRequested then { a.goes t .leaving with
        pending := False
        unseen := fun u => a.position u ≠ .finishing ∧ a.unseen u
        late := fun u => u ≠ t ∧ a.late u }
      else { a with late := fun u => u ≠ t ∧ a.late u }
  | .leave t => { a.goes t .resetting with running := false }
  | .reset t => { a.goes t .out with stopRequested := false }
  | .stop t => { a.goes t .requesting with unseen := fun u => if u = t then a.Idle else a.unseen u }
  | .request t => { a.goes t .finishing with
      stopRequested := true
      late := fun _ => True }
  | .finish t => { a.goes t .out with
      running := false
      told := fun u => a.told u ∨ (a.position u).inLoop
      pending := a.pending ∨ a.unseen t }

end State

def duxrtAsyncIsRunning {τ : Type u} (a : State τ) : Int := if a.running then 1 else 0

/-- The states of the runs whose actions all meet a condition. -/
inductive Reaches {τ : Type u} [DecidableEq τ] (Meets : State τ → Action τ → Prop) : State τ → Prop
  | start : Reaches Meets .start
  | step {a : State τ} {act : Action τ} (before : Reaches Meets a) (enabled : a.Enabled act)
      (meets : Meets a act) : Reaches Meets (a.next act)

/-- Some actions can be done one after the other, and all meet a condition. -/
def Runs {τ : Type u} [DecidableEq τ] (Meets : State τ → Action τ → Prop) :
    State τ → List (Action τ) → Prop
  | _, [] => True
  | a, act :: acts => a.Enabled act ∧ Meets a act ∧ Runs Meets (a.next act) acts

theorem reaches_of_runs {τ : Type u} [DecidableEq τ] {Meets : State τ → Action τ → Prop}
    {a : State τ} {acts : List (Action τ)} (before : Reaches Meets a) (runs : Runs Meets a acts) :
    Reaches Meets (acts.foldl State.next a) := by
  induction acts generalizing a with
  | nil => exact before
  | cons act acts ih => exact ih (.step before runs.1 runs.2.1) runs.2.2

/-! ## Stop requests -/

section Requests

variable {τ : Type u}

/-- While the flag is clear, no run is in its loop that was in it when a stop call returned, and
no stop call that was made when no run was has returned without being observed. -/
def Kept (a : State τ) : Prop :=
  a.stopRequested = false → (∀ t, a.told t → (a.position t).inLoop = false) ∧ ¬a.pending

/-- The flag is reset only by a run since whose last load no stop call has set it, and when each
run in its loop has entered it since the last stop call returned; and a stop call returns only
while the flag is set or no run is in its loop. -/
def Keeps (a : State τ) : Action τ → Prop
  | .reset t => ¬a.late t ∧ ∀ u, (a.position u).inLoop = true → ¬a.told u
  | .finish _ => a.stopRequested = true ∨ a.Idle
  | _ => True

/-- No stop call that has set the flag waits to be observed. -/
def AllSeen (a : State τ) : Prop := ¬a.pending ∧ ∀ u, a.position u = .finishing → ¬a.unseen u

/-- While the flag is clear, all is observed; and a run that has observed it has observed all but
what came later. -/
structure Invariant (a : State τ) : Prop where
  told : a.stopRequested = false → ∀ t, a.told t → (a.position t).inLoop = false
  clear : a.stopRequested = false → AllSeen a
  observed : ∀ t, a.position t = .leaving ∨ a.position t = .resetting → ¬a.late t → AllSeen a

theorem Invariant.kept {a : State τ} (inv : Invariant a) : Kept a :=
  fun clear => ⟨inv.told clear, (inv.clear clear).1⟩

theorem invariant_start : Invariant (State.start : State τ) where
  told _ _ told := told.elim
  clear _ := ⟨id, fun _ _ unseen => unseen⟩
  observed _ _ _ := ⟨id, fun _ _ unseen => unseen⟩

section Steps

variable [DecidableEq τ] {a : State τ} {act : Action τ} {u : τ}

theorem position_next (enabled : a.Enabled act) (u : τ) :
    (a.next act).position u = if u = act.thread then a.target act else a.position u := by
  cases act with
  | check t =>
    rw [State.next, State.target]
    cases a.stopRequested with
    | true => exact Function.update_apply _ _ _ _
    | false =>
      rw [if_neg Bool.false_ne_true, if_neg Bool.false_ne_true]
      split
      · next same => exact same ▸ enabled
      · rfl
  | _ => exact Function.update_apply _ _ _ _

theorem position_thread (enabled : a.Enabled act) :
    (a.next act).position act.thread = a.target act := by
  rw [position_next enabled, if_pos rfl]

theorem position_other (enabled : a.Enabled act) (other : u ≠ act.thread) :
    (a.next act).position u = a.position u := by
  rw [position_next enabled, if_neg other]

theorem of_position_next (enabled : a.Enabled act) {p : Position}
    (here : (a.next act).position u = p) (other : a.target act ≠ p) : a.position u = p := by
  rw [position_next enabled] at here
  split at here
  · exact absurd here other
  · exact here

theorem inLoop_next (enabled : a.Enabled act) (isIn : ((a.next act).position u).inLoop = true) :
    (a.position u).inLoop = true ∨ act = .enter u := by
  rw [position_next enabled] at isIn
  split at isIn
  · next same =>
    cases act with
    | enter t => exact .inr (congrArg Action.enter same.symm)
    | check t =>
      rw [same, show a.position (Action.check t).thread = _ from enabled]
      exact .inl rfl
    | leave t | run t | reset t | stop t | request t | finish t => cases isIn
  · exact .inl isIn

theorem inLoop_same (enabled : a.Enabled act)
    (same : (a.target act).inLoop = (a.position act.thread).inLoop) :
    ((a.next act).position u).inLoop = (a.position u).inLoop := by
  rw [position_next enabled]
  split
  · next isThread => rw [isThread, same]
  · rfl

omit [DecidableEq τ] in
theorem AllSeen.mono {b : State τ} (seen : AllSeen a) (pending : b.pending → a.pending)
    (unseen : ∀ u, b.position u = .finishing → b.unseen u →
      a.position u = .finishing ∧ a.unseen u) : AllSeen b :=
  ⟨fun waits => seen.1 (pending waits), fun u here waits =>
    seen.2 u (unseen u here waits).1 (unseen u here waits).2⟩

theorem AllSeen.next (seen : AllSeen a) (enabled : a.Enabled act)
    (other : ∀ t, act ≠ .request t) : AllSeen (a.next act) := by
  have still (u : τ) (here : (a.next act).position u = .finishing) : a.position u = .finishing := by
    apply of_position_next enabled here
    cases act with
    | request t => exact absurd rfl (other t)
    | check t =>
      rw [State.target]
      split <;> decide
    | run t | enter t | leave t | reset t | stop t | finish t =>
      intro same
      cases same
  cases act with
  | check t =>
    refine seen.mono ?_ fun u here waits => ⟨still u here, ?_⟩
    · rw [State.next]
      split
      · exact False.elim
      · exact id
    · rw [State.next] at waits
      split at waits
      · exact waits.2
      · exact waits
  | stop t =>
    refine seen.mono id fun u here waits => ⟨still u here, ?_⟩
    have apart : u ≠ t := by
      rintro rfl
      exact absurd (enabled.symm.trans (still u here)) (by decide)
    exact (if_neg apart).mp waits
  | finish t =>
    refine seen.mono (fun waits => waits.resolve_right (seen.2 t enabled)) ?_
    exact fun u here waits => ⟨still u here, waits⟩
  | request t => exact absurd rfl (other t)
  | run t | enter t | leave t | reset t =>
    exact seen.mono id fun u here waits => ⟨still u here, waits⟩

theorem allSeen_check {t : τ} (enabled : a.Enabled (.check t)) (flag : a.stopRequested = true) :
    AllSeen (a.next (.check t)) := by
  have still (u : τ) (here : (a.next (.check t)).position u = .finishing) :
      a.position u = .finishing := by
    apply of_position_next enabled here
    rw [State.target, if_pos flag]
    decide
  have run : a.next (.check t) = { a.goes t .leaving with
      pending := False
      unseen := fun u => a.position u ≠ .finishing ∧ a.unseen u
      late := fun u => u ≠ t ∧ a.late u } := if_pos flag
  constructor
  · rw [run]
    exact id
  · intro u here waits
    have before := still u here
    rw [run] at waits
    exact waits.1 before

theorem stopRequested_next (noRequest : ∀ t, act ≠ .request t) (noReset : ∀ t, act ≠ .reset t) :
    (a.next act).stopRequested = a.stopRequested := by
  cases act with
  | check t =>
    rw [State.next]
    split <;> rfl
  | request t => exact absurd rfl (noRequest t)
  | reset t => exact absurd rfl (noReset t)
  | run t | enter t | leave t | stop t | finish t => rfl

theorem Invariant.told_next (inv : Invariant a) (enabled : a.Enabled act) (keeps : Keeps a act)
    (clear : (a.next act).stopRequested = false) (told : (a.next act).told u) :
    ((a.next act).position u).inLoop = false := by
  by_contra isIn
  rw [Bool.not_eq_false] at isIn
  rcases inLoop_next enabled isIn with before | rfl
  · have still (clear : a.stopRequested = false) (told : a.told u) : False := by
      rw [inv.told clear u told] at before
      cases before
    cases act with
    | request t => cases clear
    | reset t => exact keeps.2 u before told
    | finish t =>
      rcases keeps with flag | idle
      · exact absurd (flag.symm.trans clear) (by decide)
      · exact absurd (before.symm.trans (idle u)) (by decide)
    | enter t => exact still clear told.2
    | check t =>
      rw [stopRequested_next nofun nofun] at clear
      rw [State.next] at told
      split at told <;> exact still clear told
    | run t | leave t | stop t => exact still clear told
  · exact told.1 rfl

theorem Invariant.clear_next (inv : Invariant a) (enabled : a.Enabled act) (keeps : Keeps a act)
    (clear : (a.next act).stopRequested = false) : AllSeen (a.next act) := by
  cases act with
  | request t => cases clear
  | reset t => exact (inv.observed t (.inr enabled) keeps.1).next enabled nofun
  | run t | enter t | check t | leave t | stop t | finish t =>
    rw [stopRequested_next nofun nofun] at clear
    exact (inv.clear clear).next enabled nofun

theorem Invariant.observed_next (inv : Invariant a) (enabled : a.Enabled act)
    (here : (a.next act).position u = .leaving ∨ (a.next act).position u = .resetting)
    (early : ¬(a.next act).late u) : AllSeen (a.next act) := by
  cases act with
  | request t => exact absurd trivial early
  | check t =>
    cases flag : a.stopRequested with
    | true => exact allSeen_check enabled flag
    | false => exact (inv.clear flag).next enabled nofun
  | leave t =>
    have before : a.position u = .leaving ∨ a.position u = .resetting := by
      by_cases same : u = t
      · subst same
        exact .inl enabled
      · rw [position_other enabled same] at here
        exact here
    exact (inv.observed u before early).next enabled nofun
  | run t | enter t | reset t | stop t | finish t =>
    have before := here.imp (fun here => of_position_next enabled here (by intro same; cases same))
      fun here => of_position_next enabled here (by intro same; cases same)
    exact (inv.observed u before early).next enabled nofun

theorem Invariant.step (inv : Invariant a) (enabled : a.Enabled act) (keeps : Keeps a act) :
    Invariant (a.next act) where
  told clear _ told := inv.told_next enabled keeps clear told
  clear clear := inv.clear_next enabled keeps clear
  observed _ here early := inv.observed_next enabled here early

end Steps

theorem kept_of_keeps [DecidableEq τ] {a : State τ} (reaches : Reaches Keeps a) : Kept a := by
  have inv : Invariant a := by
    induction reaches with
    | start => exact invariant_start
    | step _ enabled keeps ih => exact ih.step enabled keeps
  exact inv.kept

end Requests

/-! ## Whether the loop runs -/

section Running

variable {τ : Type u}

/-- One is returned exactly while some run is in its loop. -/
def Shown (a : State τ) : Prop := duxrtAsyncIsRunning a = 1 ↔ ∃ t, (a.position t).inLoop = true

/-- Zero is stored to `g_running` only while no other run is in its loop. -/
def Shows (a : State τ) : Action τ → Prop
  | .leave t => ∀ u, u ≠ t → (a.position u).inLoop = false
  | .finish _ => a.Idle
  | _ => True

theorem shown_iff {a : State τ} :
    Shown a ↔ (a.running = true ↔ ∃ t, (a.position t).inLoop = true) := by
  rw [Shown, duxrtAsyncIsRunning]
  cases a.running <;> simp

variable [DecidableEq τ]

theorem Shown.step {a : State τ} {act : Action τ} (shown : Shown a) (enabled : a.Enabled act)
    (shows : Shows a act) : Shown (a.next act) := by
  rw [shown_iff] at shown ⊢
  cases act with
  | enter t =>
    refine ⟨fun _ => ⟨t, ?_⟩, fun _ => rfl⟩
    exact congrArg Position.inLoop (position_thread enabled)
  | leave t =>
    refine iff_of_false Bool.false_ne_true ?_
    rintro ⟨u, isIn⟩
    by_cases same : u = t
    · subst same
      rw [show (a.next (.leave u)).position u = .resetting from position_thread enabled] at isIn
      cases isIn
    · rw [position_other enabled same, shows u same] at isIn
      cases isIn
  | finish t =>
    refine iff_of_false Bool.false_ne_true ?_
    rintro ⟨u, isIn⟩
    rcases inLoop_next enabled isIn with before | enters
    · rw [shows u] at before
      cases before
    · cases enters
  | check t =>
    have running : (a.next (.check t)).running = a.running := by
      rw [State.next]
      split <;> rfl
    have isIn : (a.target (.check t)).inLoop = true := by
      rw [State.target]
      split <;> rfl
    have before : (a.position t).inLoop = true := by rw [show a.position t = _ from enabled]; rfl
    rw [running, shown]
    exact exists_congr fun u => by rw [inLoop_same enabled (isIn.trans before.symm)]
  | run t | reset t | stop t | request t =>
    have before : (a.position t).inLoop = false := by rw [show a.position t = _ from enabled]; rfl
    refine shown.trans (exists_congr fun u => ?_)
    rw [inLoop_same enabled before.symm]

theorem shown_of_shows {a : State τ} (reaches : Reaches Shows a) : Shown a := by
  induction reaches with
  | start =>
    rw [shown_iff]
    refine iff_of_false Bool.false_ne_true ?_
    rintro ⟨t, isIn⟩
    cases isIn
  | step _ enabled shows ih => exact ih.step enabled shows

/-- Otherwise it is wrong at once. -/
theorem not_shown_of_not_shows {a : State τ} {act : Action τ} (enabled : a.Enabled act)
    (careless : ¬Shows a act) : ¬Shown (a.next act) := by
  rw [shown_iff]
  intro shown
  have empty (running : (a.next act).running = false) (u : τ) :
      ((a.next act).position u).inLoop = false := by
    rw [← Bool.not_eq_true]
    intro isIn
    rw [shown.mpr ⟨u, isIn⟩] at running
    cases running
  apply careless
  cases act with
  | leave t =>
    intro u other
    rw [← position_other enabled other]
    exact empty rfl u
  | finish t =>
    have before : (a.position t).inLoop = false := by rw [show a.position t = _ from enabled]; rfl
    intro u
    rw [← inLoop_same enabled before.symm]
    exact empty rfl u
  | run t | enter t | check t | reset t | stop t | request t => trivial

end Running

/-! ## Both flags -/

section Flags

variable {τ : Type u} [DecidableEq τ] {a : State τ} {t u : τ}

/-- A reset while a run is in its loop that a stop call has told loses the request at once. -/
theorem not_kept_of_reset (enabled : a.Enabled (.reset t)) (isIn : (a.position u).inLoop = true)
    (told : a.told u) : ¬Kept (a.next (.reset t)) := by
  intro kept
  have before : (a.position t).inLoop = false := by rw [show a.position t = _ from enabled]; rfl
  have isOut := (kept rfl).1 u told
  rw [inLoop_same enabled before.symm, isIn] at isOut
  cases isOut

/-- So does a stop call that returns while the flag is clear again and a run is in its loop. -/
theorem not_kept_of_finish (enabled : a.Enabled (.finish t)) (isIn : (a.position u).inLoop = true)
    (clear : a.stopRequested = false) : ¬Kept (a.next (.finish t)) := by
  intro kept
  have before : (a.position t).inLoop = false := by rw [show a.position t = _ from enabled]; rfl
  have isOut := (kept clear).1 u (.inr isIn)
  rw [inLoop_same enabled before.symm, isIn] at isOut
  cases isOut

/-- In the states of runs whose actions meet the conditions no stop request is lost, and it is
shown whether a run is in its loop. -/
theorem flags_right {a : State τ} :
    (Reaches Keeps a → Kept a) ∧ (Reaches Shows a → Shown a) :=
  ⟨kept_of_keeps, shown_of_shows⟩

theorem unseen_stop : (a.next (.stop t)).unseen t ↔ a.Idle := by
  change (if t = t then a.Idle else a.unseen t) ↔ a.Idle
  rw [if_pos rfl]

/-- A stop call is made before a run, which observes it and resets the flag. -/
def earlyStop : List (Action Unit) :=
  [.stop (), .request (), .finish (), .run (), .enter (), .check (), .leave (), .reset ()]

theorem flags_right_earlyStop : Kept (earlyStop.foldl State.next .start) ∧
    Shown (earlyStop.foldl State.next .start) := by
  constructor
  · apply flags_right.1 (reaches_of_runs .start _)
    refine ⟨rfl, trivial, rfl, trivial, rfl, .inl rfl, rfl, trivial, rfl, trivial, rfl, trivial,
      rfl, trivial, rfl, ⟨fun late => late.1 rfl, fun u isIn => ?_⟩, trivial⟩
    cases isIn
  · apply flags_right.2 (reaches_of_runs .start _)
    exact ⟨rfl, trivial, rfl, trivial, rfl, fun _ => rfl, rfl, trivial, rfl, trivial, rfl, trivial,
      rfl, fun u other => absurd rfl other, rfl, trivial, trivial⟩

/-- A stop call returns while a run is in its loop; another one between the last check of the run
and its reset. -/
def lateStop : List (Action Bool) :=
  [.run false, .enter false, .stop true, .request true, .finish true, .check false, .leave false,
    .stop true, .request true, .finish true, .reset false]

/-- The flag that is cleared by the first call is not right, and the request of the second one
is lost. -/
theorem not_flags_right : (¬∀ a : State Bool, Reaches (fun _ _ => True) a → Kept a) ∧
    ¬∀ a : State Bool, Reaches (fun _ _ => True) a → Shown a := by
  constructor
  · intro all
    have reaches : Reaches (fun _ _ => True) (lateStop.foldl State.next .start) :=
      reaches_of_runs .start ⟨rfl, trivial, rfl, trivial, rfl, trivial, rfl, trivial, rfl, trivial,
        rfl, trivial, rfl, trivial, rfl, trivial, rfl, trivial, rfl, trivial, rfl, trivial, trivial⟩
    have nobody : ((lateStop.take 7).foldl State.next .start).Idle := by
      intro t
      cases t <;> rfl
    have waits : (((lateStop.take 7).foldl State.next .start).next (.stop true)).unseen true :=
      unseen_stop.mpr nobody
    exact ((all _ reaches) rfl).2 (.inr waits)
  · intro all
    have reaches : Reaches (fun _ _ => True) ((lateStop.take 5).foldl State.next .start) :=
      reaches_of_runs .start ⟨rfl, trivial, rfl, trivial, rfl, trivial, rfl, trivial, rfl, trivial,
        trivial⟩
    have shown := (all _ reaches).mpr ⟨false, rfl⟩
    exact absurd shown (by decide)

end Flags

end Dux.Runtime.AsyncLoop
