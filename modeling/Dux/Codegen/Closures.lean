import Dux.Codegen.Captures
import Dux.Codegen.Emit

/-!
# Closures at run time

What a closure sees of the variables it captures.  `gen_lambda` stores the
addresses of the captured variables into the closure, and the body of the lambda
works on these addresses (`src/codegen/codegen.cpp`).  A variable that is
initialised by a lambda owns the closure and frees it at the end of its scope.

A run is a sequence of the things that generated code does to variables and
closures.  Beside the address of a captured variable, a closure remembers here
what the variable held when the lambda was evaluated, which no code reads.
-/

namespace Dux.Codegen.Closures

abbrev Value := Nat

/-- Where a variable lives: in the stack frame of a call, or for good. -/
inductive Home
  | frame (i : Nat)
  | global
  deriving DecidableEq

structure Addr where
  home : Home
  slot : Slot
  deriving DecidableEq

/-- A field of a closure, and what the variable held at the time. -/
structure Capture where
  name : String
  addr : Addr
  value : Option Value

/-- A closure.  `born` is when the lambda was evaluated. -/
structure Closure where
  captures : List Capture
  born : Nat
  freed : Bool := false

/-- A call under way, with the names its code knows, the closure whose body it
runs, and the captured variables that it has assigned to itself. -/
structure Activation where
  frame : Nat
  env : List (String × Addr)
  running : Option Closure := none
  own : List Addr := []

/-- What a read of a captured variable has found, and what the variable held
when the lambda was evaluated. -/
structure Read where
  found : Option Value
  expected : Option Value
  deriving DecidableEq

/-- The calls under way, the variables and when each was stored to last, and the
closures; what reads have found, and the calls of closures that were freed. -/
structure State where
  top : Activation
  below : List Activation := []
  frames : Nat := 1
  slots : Addr → Option Value := fun _ => none
  stored : Addr → Nat := fun _ => 0
  closures : List Closure := []
  clock : Nat := 0
  reads : List Read := []
  stale : List Nat := []

/-- Something generated code does: the declaration of a variable, an assignment,
a read, the clean-up of a variable at the end of its scope, the end of that scope,
the evaluation of a lambda, the clean-up of a variable that owns a closure, a call
of a function or of a closure, and the way out of a call. -/
inductive Action
  | declare (name : String) (slot : Slot) (v : Value)
  | assign (name : String) (v : Value)
  | read (name : String)
  | clean (name : String)
  | forget
  | lambda (params : List Param) (body : List Stmt)
  | free (i : Nat)
  | call
  | callClosure (i : Nat)
  | ret

namespace State

variable (s : State)

/-- Whether the call that a variable belongs to is under way. -/
def active (a : Addr) : Bool :=
  match a.home with
  | .frame i => (s.top :: s.below).any (·.frame = i)
  | .global => true

/-- What is at an address; nothing is to be found in the frame of a call that has
ended. -/
def contents (a : Addr) : Option Value := if s.active a then s.slots a else none

def put (a : Addr) (v : Option Value) : State :=
  { s with
    slots := fun b => if b = a then v else s.slots b
    stored := fun b => if b = a then s.clock else s.stored b }

/-- The captured variable that a name stands for in the body of a lambda. -/
def captured (name : String) : Option (Closure × Capture) := do
  let a ← s.top.env.lookup name
  let c ← s.top.running
  let capture ← c.captures.find? (·.addr = a)
  if a ∈ s.top.own then none else return (c, capture)

/-- The fields that `gen_lambda` stores. -/
def captureAll (params : List Param) (body : List Stmt) : List Capture :=
  (captures (fun name => (s.top.env.lookup name).isSome) params body).filterMap fun name =>
    (s.top.env.lookup name).map fun a => ⟨name, a, s.slots a⟩

def enter (env : List (String × Addr)) (running : Option Closure) : State :=
  { s with
    top := { frame := s.frames, env := env, running := running }
    below := s.top :: s.below
    frames := s.frames + 1 }

end State

section Steps

-- the variables of the module, which every function knows
variable (globals : List (String × Addr))

/-- What an action does; no code assigns to a name it does not know. -/
def act (s : State) : Action → Option State
  | .declare name slot v =>
      let a : Addr := ⟨.frame s.top.frame, slot⟩
      let s := s.put a (some v)
      some { s with top := { s.top with env := (name, a) :: s.top.env } }
  | .assign name v => do
      let a ← s.top.env.lookup name
      let s := s.put a (some v)
      return { s with top := { s.top with own := a :: s.top.own } }
  | .read name => do
      let _ ← s.top.env.lookup name
      match s.captured name with
      | none => return s
      | some (_, capture) =>
          return { s with reads := ⟨s.contents capture.addr, capture.value⟩ :: s.reads }
  | .clean name => do
      let a ← s.top.env.lookup name
      return s.put a none
  | .forget => some { s with top := { s.top with env := s.top.env.tail } }
  | .lambda params body =>
      some { s with closures := s.closures ++ [⟨s.captureAll params body, s.clock, false⟩] }
  | .free i => some { s with closures := s.closures.modify i fun c => { c with freed := true } }
  | .call => some (s.enter globals none)
  | .callClosure i => do
      let c ← s.closures[i]?
      let s := s.enter (c.captures.map fun capture => (capture.name, capture.addr)) (some c)
      return if c.freed then { s with stale := i :: s.stale } else s
  | .ret =>
      match s.below with
      | [] => none
      | caller :: rest => some { s with top := caller, below := rest }

def step (s : State) (a : Action) : Option State :=
  (act globals s a).map fun s' => { s' with clock := s.clock + 1 }

def run (s : State) : List Action → Option State
  | [] => some s
  | a :: rest => do
      let s' ← step globals s a
      run s' rest

def start : State where
  top := { frame := 0, env := globals }

end Steps

/-- Every call of a closure has seen the captured variables as they were when the
lambda was evaluated, and has found the closure at all. -/
structure ByValue (s : State) : Prop where
  reads : ∀ r ∈ s.reads, r.found = r.expected
  calls : s.stale = []

/-- A read of a captured variable comes while the call is under way that declared
the variable, and the variable has not been stored to or cleaned up since the
lambda was evaluated.  A closure is called before the variable that owns it is
cleaned up. -/
def State.settled (s : State) : Action → Bool
  | .read name =>
      (s.captured name).all fun (c, capture) =>
        s.active capture.addr && s.stored capture.addr ≤ c.born
  | .callClosure i => s.closures[i]?.all (!·.freed)
  | _ => true

/-- Every action of a run comes in such a state. -/
def settledRun (globals : List (String × Addr)) (s : State) : List Action → Bool
  | [] => true
  | a :: rest => s.settled a && (step globals s a).all fun s' => settledRun globals s' rest

/-! ## Closures keep what they have seen -/

/-- A captured variable that has not been stored to since is what it was. -/
structure Kept (s : State) (c : Closure) : Prop where
  past : c.born < s.clock
  values : ∀ capture ∈ c.captures, s.stored capture.addr ≤ c.born →
    s.slots capture.addr = capture.value

/-- What every action preserves. -/
structure Sound (s : State) : Prop where
  closures : ∀ c ∈ s.closures, Kept s c
  running : ∀ call ∈ s.top :: s.below, ∀ c ∈ call.running, Kept s c

section Preserved

variable {s s' : State} {c : Closure} {globals : List (String × Addr)}

theorem Kept.later (kept : Kept s c) (slots : s'.slots = s.slots) (stored : s'.stored = s.stored)
    (clock : s.clock ≤ s'.clock) : Kept s' c where
  past := Nat.lt_of_lt_of_le kept.past clock
  values := by
    rw [slots, stored]
    exact kept.values

theorem Kept.put (kept : Kept s c) (a : Addr) (v : Option Value) : Kept (s.put a v) c where
  past := kept.past
  values capture member unchanged := by
    by_cases here : capture.addr = a
    · simp only [State.put, here, if_true] at unchanged
      exact absurd unchanged (Nat.not_le.2 kept.past)
    · simp only [State.put, here, if_false] at unchanged ⊢
      exact kept.values capture member unchanged

theorem kept_captureAll (s : State) (params : List Param) (body : List Stmt) (freed : Bool)
    (slots : s'.slots = s.slots) (clock : s.clock < s'.clock) :
    Kept s' ⟨s.captureAll params body, s.clock, freed⟩ where
  past := clock
  values capture member _ := by
    obtain ⟨name, _, found⟩ := List.mem_filterMap.1 member
    obtain ⟨a, _, rfl⟩ := Option.map_eq_some_iff.1 found
    rw [slots]

theorem Sound.put (sound : Sound s) (a : Addr) (v : Option Value) : Sound (s.put a v) where
  closures c member := (sound.closures c member).put a v
  running call member c isRunning := (sound.running call member c isRunning).put a v

theorem Sound.later (sound : Sound s) (slots : s'.slots = s.slots) (stored : s'.stored = s.stored)
    (clock : s.clock ≤ s'.clock) (closures : ∀ c ∈ s'.closures, Kept s c)
    (running : ∀ call ∈ s'.top :: s'.below, call ∈ s.top :: s.below ∨
      ∀ c ∈ call.running, Kept s c) : Sound s' where
  closures c member := (closures c member).later slots stored clock
  running call member c isRunning := by
    rcases running call member with before | kept
    · exact (sound.running call before c isRunning).later slots stored clock
    · exact (kept c isRunning).later slots stored clock

theorem Sound.withTop (sound : Sound s) {top : Activation} (running : top.running = s.top.running) :
    Sound { s with top := top } := by
  refine sound.later rfl rfl (Nat.le_refl _) sound.closures fun call member => ?_
  rcases List.mem_cons.1 member with rfl | below
  · exact .inr fun c isRunning =>
      sound.running s.top List.mem_cons_self c (running ▸ isRunning)
  · exact .inl (List.mem_cons_of_mem _ below)

theorem Sound.enter (sound : Sound s) (env : List (String × Addr)) {running : Option Closure}
    (kept : ∀ c ∈ running, Kept s c) : Sound (s.enter env running) := by
  refine sound.later rfl rfl (Nat.le_refl _) sound.closures fun call member => ?_
  rcases List.mem_cons.1 member with rfl | below
  · exact .inr kept
  · exact .inl below

theorem Sound.tick (sound : Sound s) : Sound { s with clock := s.clock + 1 } :=
  sound.later rfl rfl (Nat.le_succ _) sound.closures fun _ member => .inl member

theorem Kept.free (kept : Kept s c) (freed : Bool) : Kept s { c with freed := freed } :=
  ⟨kept.past, kept.values⟩

theorem Sound.callClosure (sound : Sound s) {i : Nat} (found : s.closures[i]? = some c)
    (stale : List Nat) :
    Sound { s.enter (c.captures.map fun capture => (capture.name, capture.addr)) (some c) with
      stale := stale } := by
  have kept := sound.closures c (List.mem_of_getElem? found)
  exact (sound.enter _ (by rintro c' ⟨⟩; exact kept)).later rfl rfl (Nat.le_refl _)
    (sound.enter _ (by rintro c' ⟨⟩; exact kept)).closures fun _ member => .inl member

theorem Sound.step (sound : Sound s) {a : Action} (steps : step globals s a = some s') :
    Sound s' := by
  obtain ⟨t, acts, rfl⟩ := Option.map_eq_some_iff.1 steps
  have tick : Sound t → t.clock = s.clock → Sound { t with clock := s.clock + 1 } :=
    fun sound' clock => clock ▸ sound'.tick
  cases a with
  | declare name slot v =>
      cases acts
      exact tick ((sound.put _ _).withTop rfl) rfl
  | assign name v =>
      obtain ⟨a, _, rest⟩ := Option.bind_eq_some_iff.1 acts
      cases rest
      exact tick ((sound.put _ _).withTop rfl) rfl
  | read name =>
      obtain ⟨a, _, rest⟩ := Option.bind_eq_some_iff.1 acts
      split at rest
      · cases rest
        exact tick sound rfl
      · cases rest
        exact tick (sound.later rfl rfl (Nat.le_refl _) sound.closures fun _ member => .inl member)
          rfl
  | clean name =>
      obtain ⟨a, _, rest⟩ := Option.bind_eq_some_iff.1 acts
      cases rest
      exact tick (sound.put _ _) rfl
  | forget =>
      cases acts
      exact tick (sound.withTop rfl) rfl
  | lambda params body =>
      cases acts
      constructor
      · intro c member
        rcases List.mem_append.1 member with before | new
        · exact (sound.closures c before).later rfl rfl (Nat.le_succ _)
        · rw [List.mem_singleton.1 new]
          exact kept_captureAll s params body false rfl (Nat.lt_succ_self _)
      · intro call member c isRunning
        exact (sound.running call member c isRunning).later rfl rfl (Nat.le_succ _)
  | free i =>
      cases acts
      refine tick (sound.later rfl rfl (Nat.le_refl _) (fun c member => ?_)
        fun _ member => .inl member) rfl
      obtain ⟨j, found⟩ := List.getElem?_of_mem member
      rw [List.getElem?_modify] at found
      obtain ⟨c', before, rfl⟩ := Option.map_eq_some_iff.1 found
      have kept := sound.closures c' (List.mem_of_getElem? before)
      split
      · exact kept.free true
      · exact kept
  | call =>
      cases acts
      exact tick (sound.enter _ nofun) rfl
  | callClosure i =>
      obtain ⟨c, found, rest⟩ := Option.bind_eq_some_iff.1 acts
      have entered := sound.callClosure found
      dsimp only at rest
      split at rest
      · cases rest
        exact tick (entered _) rfl
      · cases rest
        exact tick (entered _) rfl
  | ret =>
      simp only [act] at acts
      split at acts
      · cases acts
      · next caller rest below =>
          cases acts
          refine tick (sound.later rfl rfl (Nat.le_refl _) sound.closures fun call member => ?_) rfl
          rw [below]
          exact .inl (List.mem_cons_of_mem _ member)

theorem mem_of_captured {name : String} {capture : Capture}
    (captured : s.captured name = some (c, capture)) :
    c ∈ s.top.running ∧ capture ∈ c.captures := by
  obtain ⟨a, _, rest⟩ := Option.bind_eq_some_iff.1 captured
  obtain ⟨c', running, rest⟩ := Option.bind_eq_some_iff.1 rest
  obtain ⟨capture', found, rest⟩ := Option.bind_eq_some_iff.1 rest
  split at rest
  · cases rest
  · cases rest
    exact ⟨running, List.mem_of_find?_eq_some found⟩

theorem Sound.contents_eq (sound : Sound s) {name : String} {capture : Capture}
    (captured : s.captured name = some (c, capture)) (settled : s.settled (.read name) = true) :
    s.contents capture.addr = capture.value := by
  obtain ⟨running, member⟩ := mem_of_captured captured
  simp only [State.settled, captured, Option.all_some, Bool.and_eq_true,
    decide_eq_true_eq] at settled
  rw [State.contents, if_pos settled.1]
  exact (sound.running s.top List.mem_cons_self c running).values capture member settled.2

theorem ByValue.step (byValue : ByValue s) (sound : Sound s) {a : Action}
    (settled : s.settled a = true) (steps : Closures.step globals s a = some s') : ByValue s' := by
  obtain ⟨t, acts, rfl⟩ := Option.map_eq_some_iff.1 steps
  cases a with
  | declare | forget | lambda | free | call =>
      cases acts
      exact ⟨byValue.reads, byValue.calls⟩
  | assign name v =>
      obtain ⟨a, _, rest⟩ := Option.bind_eq_some_iff.1 acts
      cases rest
      exact ⟨byValue.reads, byValue.calls⟩
  | clean name =>
      obtain ⟨a, _, rest⟩ := Option.bind_eq_some_iff.1 acts
      cases rest
      exact ⟨byValue.reads, byValue.calls⟩
  | read name =>
      obtain ⟨a, _, rest⟩ := Option.bind_eq_some_iff.1 acts
      split at rest
      · cases rest
        exact ⟨byValue.reads, byValue.calls⟩
      · next captured =>
          cases rest
          refine ⟨fun r member => ?_, byValue.calls⟩
          rcases List.mem_cons.1 member with rfl | before
          · exact sound.contents_eq captured settled
          · exact byValue.reads r before
  | callClosure i =>
      obtain ⟨c, found, rest⟩ := Option.bind_eq_some_iff.1 acts
      have notFreed : c.freed = false := by simpa [State.settled, found] using settled
      simp only [notFreed] at rest
      cases rest
      exact ⟨byValue.reads, byValue.calls⟩
  | ret =>
      simp only [act] at acts
      split at acts
      · cases acts
      · cases acts
        exact ⟨byValue.reads, byValue.calls⟩

end Preserved

/-! ## Runs -/

section Runs

variable {globals : List (String × Addr)}

theorem sound_start : Sound (start globals) where
  closures := nofun
  running call member c isRunning := by
    rw [List.mem_singleton.1 member] at isRunning
    cases isRunning

theorem byValue_run {s s' : State} (sound : Sound s) (byValue : ByValue s) {actions : List Action}
    (settled : settledRun globals s actions = true) (runs : run globals s actions = some s') :
    ByValue s' := by
  induction actions generalizing s with
  | nil =>
      cases runs
      exact byValue
  | cons a rest ih =>
      rw [settledRun, Bool.and_eq_true] at settled
      obtain ⟨next, steps, runs⟩ := Option.bind_eq_some_iff.1 runs
      rw [steps] at settled
      exact ih (sound.step steps) (byValue.step sound settled.1 steps) settled.2 runs

/-- In a run in which captured variables are read only while they are there and as
they were, every call of a closure sees them by value. -/
theorem byValue_of_settledRun {s : State} {actions : List Action}
    (settled : settledRun globals (start globals) actions = true)
    (runs : run globals (start globals) actions = some s) : ByValue s :=
  byValue_run sound_start ⟨nofun, rfl⟩ settled runs

end Runs

/-- A `main` with a variable, a lambda that captures it, an assignment to the
variable, and a call of the closure. -/
def laterAssignment : Program where
  decls := [.func {
    loc := ⟨1, 1⟩, returnType := { name := "int" }, name := "main", params := []
    body := some [
      .varDecl ⟨2, 1⟩ { name := "int" } false false [.mk "base" (some (.intLit 0 10))],
      .varDecl ⟨3, 1⟩ { name := "auto" } false false
        [.mk "get" (some (.lambda 0 [] [.returnStmt (some (.ident 0 "base"))] none ""))],
      .expr (.assign 0 .assign (.ident 0 "base") (.intLit 0 20)),
      .returnStmt (some (.call 0 (.ident 0 "get") []))] }]
  stmts := []

/-- What `main` does with a lambda of these parameters and this body, up to the
read in its call; `between` is done before the call. -/
def callOf (between : List Action) (params : List Param) (body : List Stmt) : List Action :=
  [.declare "base" ⟨⟨2, 1⟩, "base"⟩ 10, .lambda params body, .declare "get" ⟨⟨3, 1⟩, "get"⟩ 0] ++
    between ++ [.callClosure 0, .read "base", .ret]

theorem byValue_of_settledRun_get :
    ∃ s, run [] (start []) (callOf [] [] [.returnStmt (some (.ident 0 "base"))]) = some s ∧
      s.reads = [⟨some 10, some 10⟩] ∧ ByValue s := by
  refine ⟨_, rfl, by decide, ?_⟩
  exact @byValue_of_settledRun [] _ (callOf [] [] [.returnStmt (some (.ident 0 "base"))])
    (by decide) rfl

theorem not_byValue : ∃ prog' t, Sema.Accepts laterAssignment prog' t ∧
    ∃ params body, secondLambda prog' = some (params, body) ∧
      ∃ s, run [] (start []) (callOf [.assign "base" 20] params body) = some s ∧ ¬ByValue s := by
  obtain ⟨prog', t, accepts, shows⟩ := Sema.exists_accepts laterAssignment
    (fun prog' _ => (secondLambda prog').any fun l =>
      (run [] (start []) (callOf [.assign "base" 20] l.1 l.2)).any fun s =>
        s.reads = [⟨some 20, some 10⟩])
    (by decide +kernel)
  obtain ⟨⟨params, body⟩, isLambda, ran⟩ := Option.any_eq_true _ _ |>.1 shows
  obtain ⟨s, runs, reads⟩ := Option.any_eq_true _ _ |>.1 ran
  refine ⟨prog', t, accepts, params, body, isLambda, s, runs, fun byValue => ?_⟩
  have same := byValue.reads _ (of_decide_eq_true reads ▸ List.mem_singleton_self _)
  cases same

end Dux.Codegen.Closures
