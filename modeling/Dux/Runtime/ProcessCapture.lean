import Mathlib.Data.List.Basic
import Mathlib.Logic.Function.Basic
import Mathlib.Logic.Relation

/-!
# Captured processes

`duxrt_proc_spawn` and `duxrt_proc_wait` of `src/runtime/process_rt.c`: a child writes to its
standard output and error through pipes, and the parent reads all of the one and then all of
the other.
-/

namespace Dux.Runtime.ProcessCapture

open Relation (ReflTransGen)

inductive Stream
  | out
  | err
  deriving DecidableEq

/-- A child, given by what it writes, byte by byte; the streams that are captured, and how much
goes into a pipe. -/
structure Child where
  writes : List (Stream × UInt8)
  captured : Stream → Bool
  capacity : Nat
  room : 0 < capacity

/-- Where the parent is: outside `duxrt_proc_wait`, in the loop of `read_fd_to_str`, in
`waitpid`, or through with it. -/
inductive Parent
  | elsewhere
  | reading (s : Stream) (acc : List UInt8)
  | reaping
  | returned

/-- The state of both processes, with the strings of `DuxProc`. -/
structure State where
  child : List (Stream × UInt8)
  exited : Bool := false
  pipe : Stream → List UInt8 := fun _ => []
  parent : Parent := .elsewhere
  buf : Stream → Option (List UInt8) := fun _ => none

namespace Child

variable (c : Child)

/-- `duxrt_proc_wait`, at the second stream. -/
def readErr : Parent := if c.captured .err then .reading .err [] else .reaping

/-- `duxrt_proc_wait`, at the first stream. -/
def readOut : Parent := if c.captured .out then .reading .out [] else c.readErr

/-- Where the parent goes at the end of a stream. -/
def after : Stream → Parent
  | .out => c.readErr
  | .err => .reaping

/-- A step of one of the processes.  A read takes what is there, up to the size of the buffer,
and comes to the end of an empty pipe when the child is gone. -/
inductive Step : State → State → Prop
  | write {a : State} {s : Stream} {b : UInt8} {rest : List (Stream × UInt8)}
      (next : a.child = (s, b) :: rest) (isCaptured : c.captured s = true)
      (room : (a.pipe s).length < c.capacity) :
      Step a { a with child := rest, pipe := Function.update a.pipe s (a.pipe s ++ [b]) }
  | print {a : State} {s : Stream} {b : UInt8} {rest : List (Stream × UInt8)}
      (next : a.child = (s, b) :: rest) (isShown : c.captured s = false) :
      Step a { a with child := rest }
  | exit {a : State} (done : a.child = []) : Step a { a with exited := true }
  | wait {a : State} (here : a.parent = .elsewhere) : Step a { a with parent := c.readOut }
  | read {a : State} {s : Stream} {acc : List UInt8} (n : Nat) (here : a.parent = .reading s acc)
      (some' : 0 < n) (fits : n ≤ 4096) (available : n ≤ (a.pipe s).length) :
      Step a { a with
        pipe := Function.update a.pipe s ((a.pipe s).drop n)
        parent := .reading s (acc ++ (a.pipe s).take n) }
  | eof {a : State} {s : Stream} {acc : List UInt8} (here : a.parent = .reading s acc)
      (empty : a.pipe s = []) (isGone : a.exited = true) :
      Step a { a with parent := c.after s, buf := Function.update a.buf s (some acc) }
  | reap {a : State} (here : a.parent = .reaping) (isGone : a.exited = true) :
      Step a { a with parent := .returned }

/-- The state after `duxrt_proc_spawn`. -/
def spawned : State where
  child := c.writes

/-- A state of a run. -/
def Reaches (a : State) : Prop := ReflTransGen c.Step c.spawned a

/-- The parent waits for one stream, and the child for room in the other one. -/
def Deadlocked (a : State) : Prop :=
  ∃ s acc s' b rest, s ≠ s' ∧ a.parent = .reading s acc ∧ a.pipe s = [] ∧ a.exited = false ∧
    a.child = (s', b) :: rest ∧ c.captured s' = true ∧ c.capacity ≤ (a.pipe s').length

end Child

/-- What goes to a stream. -/
def written (writes : List (Stream × UInt8)) (s : Stream) : List UInt8 :=
  writes.filterMap fun (s', b) => if s' = s then some b else none

/-- What the parent has read of a stream. -/
def State.got (a : State) (s : Stream) : List UInt8 :=
  match a.parent with
  | .reading s' acc => if s' = s then acc else (a.buf s).getD []
  | _ => (a.buf s).getD []

section Invariant

variable {c : Child} {a b : State}

theorem written_cons (s : Stream) (v : UInt8) (rest : List (Stream × UInt8)) (s' : Stream) :
    written ((s, v) :: rest) s' = (if s = s' then [v] else []) ++ written rest s' := by
  unfold written
  rw [List.filterMap_cons]
  by_cases same : s = s'
  · simp [same]
  · simp [same]

/-- A stream that the parent is through with. -/
def State.Through (a : State) (s : Stream) : Prop :=
  a.exited = true ∧ a.pipe s = [] ∧ a.buf s ≠ none

/-- What the parent's place says about the streams. -/
def Phase (c : Child) (a : State) : Prop :=
  match a.parent with
  | .elsewhere => ∀ s, a.buf s = none
  | .reading .out _ => c.captured .out = true ∧ ∀ s, a.buf s = none
  | .reading .err _ => a.buf .err = none ∧ (c.captured .out = true → a.Through .out)
  | .reaping | .returned => ∀ s, c.captured s = true → a.Through s

/-- What holds in every state. -/
structure Kept (c : Child) (a : State) : Prop where
  conserved : ∀ s, c.captured s = true →
    a.got s ++ a.pipe s ++ written a.child s = written c.writes s
  gone : a.exited = true → a.child = []
  phase : Phase c a

theorem kept_spawned : Kept c c.spawned := ⟨fun _ _ => rfl, nofun, fun _ => rfl⟩

theorem Phase.congr (phase : Phase c a) (parent : b.parent = a.parent) (buf : b.buf = a.buf)
    (through : ∀ s, a.Through s → b.Through s) : Phase c b := by
  unfold Phase at *
  rw [parent, buf]
  cases place : a.parent with
  | elsewhere =>
    rw [place] at phase
    exact phase
  | reading s acc =>
    rw [place] at phase
    cases s with
    | out => exact phase
    | err => exact ⟨phase.1, fun isCaptured => through _ (phase.2 isCaptured)⟩
  | reaping | returned =>
    rw [place] at phase
    exact fun s isCaptured => through s (phase s isCaptured)

theorem Kept.moved (kept : Kept c a) (parent : b.parent = a.parent) (buf : b.buf = a.buf)
    (conserved : ∀ s, c.captured s = true →
      b.pipe s ++ written b.child s = a.pipe s ++ written a.child s)
    (gone : b.exited = true → b.child = []) (through : ∀ s, a.Through s → b.Through s) :
    Kept c b := by
  constructor
  · intro s isCaptured
    have got : b.got s = a.got s := by rw [State.got, State.got, parent, buf]
    rw [got, List.append_assoc, conserved s isCaptured, ← List.append_assoc]
    exact kept.conserved s isCaptured
  · exact gone
  · exact kept.phase.congr parent buf through

theorem readOut_cases (c : Child) : (c.readOut = .reading .out [] ∧ c.captured .out = true) ∨
    (c.readOut = c.readErr ∧ c.captured .out = false) := by
  unfold Child.readOut
  split
  · next isCaptured => exact .inl ⟨rfl, isCaptured⟩
  · next isShown => exact .inr ⟨rfl, (Bool.not_eq_true _).mp isShown⟩

theorem readErr_cases (c : Child) : (c.readErr = .reading .err [] ∧ c.captured .err = true) ∨
    (c.readErr = .reaping ∧ c.captured .err = false) := by
  unfold Child.readErr
  split
  · next isCaptured => exact .inl ⟨rfl, isCaptured⟩
  · next isShown => exact .inr ⟨rfl, (Bool.not_eq_true _).mp isShown⟩

theorem Kept.step (kept : Kept c a) (step : c.Step a b) : Kept c b := by
  have running {v : Stream × UInt8} {rest : List (Stream × UInt8)} (next : a.child = v :: rest) :
      a.exited ≠ true := fun isGone => by
    rw [kept.gone isGone] at next
    cases next
  have other : Stream.out ≠ .err := nofun
  cases step with
  | @write s v rest next isCaptured room =>
    refine kept.moved rfl rfl ?_ (fun isGone => absurd isGone (running next))
      fun _ through => absurd through.1 (running next)
    intro s' _
    rw [next, written_cons]
    by_cases same : s' = s
    · subst same
      simp
    · dsimp only
      rw [Function.update_of_ne same, if_neg (Ne.symm same), List.nil_append]
  | @print s v rest next isShown =>
    refine kept.moved rfl rfl ?_ (fun isGone => absurd isGone (running next))
      fun _ through => absurd through.1 (running next)
    intro s' isCaptured
    have other : s ≠ s' := by
      rintro rfl
      rw [isShown] at isCaptured
      cases isCaptured
    rw [next, written_cons, if_neg other, List.nil_append]
  | exit done =>
    exact kept.moved rfl rfl (fun _ _ => rfl) (fun _ => done) fun _ through => ⟨rfl, through.2⟩
  | wait here =>
    have phase := kept.phase
    rw [Phase, here] at phase
    refine ⟨?_, kept.gone, ?_⟩
    · intro s isCaptured
      have before : a.got s = [] := by
        rw [State.got, here]
        dsimp only
        rw [phase]
        rfl
      have after : State.got { a with parent := c.readOut } s = [] := by
        unfold State.got
        rcases readOut_cases c with ⟨same, -⟩ | ⟨same, -⟩
        · simp [same, phase]
        · rcases readErr_cases c with ⟨same', -⟩ | ⟨same', -⟩ <;> simp [same, same', phase]
      rw [after, ← before]
      exact kept.conserved s isCaptured
    · unfold Phase
      dsimp only
      rcases readOut_cases c with ⟨same, outCaptured⟩ | ⟨same, outShown⟩
      · rw [same]
        exact ⟨outCaptured, phase⟩
      · rw [same]
        rcases readErr_cases c with ⟨same', -⟩ | ⟨same', errShown⟩
        · rw [same']
          exact ⟨phase _, fun isCaptured => by rw [outShown] at isCaptured; cases isCaptured⟩
        · rw [same']
          rintro (_ | _) isCaptured
          · rw [outShown] at isCaptured
            cases isCaptured
          · rw [errShown] at isCaptured
            cases isCaptured
  | @read s acc n here some' fits available =>
    have phase := kept.phase
    rw [Phase, here] at phase
    refine ⟨?_, kept.gone, ?_⟩
    · intro s' isCaptured
      rw [← kept.conserved s' isCaptured]
      unfold State.got
      rw [here]
      dsimp only
      by_cases same : s' = s
      · subst same
        simp
      · rw [if_neg (Ne.symm same), if_neg (Ne.symm same), Function.update_of_ne same]
    · unfold Phase
      cases s with
      | out => exact phase
      | err =>
        refine ⟨phase.1, fun isCaptured => ?_⟩
        obtain ⟨isGone, empty, read⟩ := phase.2 isCaptured
        exact ⟨isGone, (Function.update_of_ne other ((a.pipe .err).drop n) a.pipe).trans empty,
          read⟩
  | @eof s acc here empty isGone =>
    have phase := kept.phase
    rw [Phase, here] at phase
    have through : State.Through { a with
        parent := c.after s, buf := Function.update a.buf s (some acc) } s := by
      refine ⟨isGone, empty, ?_⟩
      dsimp only
      rw [Function.update_self]
      exact nofun
    refine ⟨?_, kept.gone, ?_⟩
    · intro s' isCaptured
      rw [← kept.conserved s' isCaptured]
      congr 2
      unfold State.got
      rw [here]
      cases s with
      | out =>
        rcases readErr_cases c with ⟨same, -⟩ | ⟨same, -⟩ <;>
          cases s' <;> simp [Child.after, same, phase.2]
      | err => cases s' <;> simp [Child.after]
    · cases s with
      | out =>
        unfold Phase
        dsimp only [Child.after] at *
        rcases readErr_cases c with ⟨same, -⟩ | ⟨same, errShown⟩
        · rw [same] at through ⊢
          exact ⟨(Function.update_of_ne other.symm _ _).trans (phase.2 _), fun _ => through⟩
        · rw [same] at through ⊢
          rintro (_ | _) isCaptured
          · exact through
          · rw [errShown] at isCaptured
            cases isCaptured
      | err =>
        rintro (_ | _) isCaptured
        · obtain ⟨-, empty', read⟩ := phase.2 isCaptured
          have same : Function.update a.buf .err (some acc) .out = a.buf .out :=
            Function.update_of_ne other _ _
          exact ⟨isGone, empty', fun none' => read (same.symm.trans none')⟩
        · exact through
  | reap here isGone =>
    have phase := kept.phase
    rw [Phase, here] at phase
    refine ⟨?_, kept.gone, phase⟩
    intro s isCaptured
    rw [← kept.conserved s isCaptured]
    unfold State.got
    rw [here]

theorem kept_of_reaches (reaches : c.Reaches a) : Kept c a := by
  induction reaches with
  | refl => exact kept_spawned
  | tail _ step ih => exact ih.step step

theorem not_deadlocked (kept : Kept c a)
    (fits : c.captured .out = true → c.captured .err = true →
      (written c.writes .err).length ≤ c.capacity) : ¬c.Deadlocked a := by
  rintro ⟨s, acc, s', v, rest, differ, here, -, isRunning, next, isCaptured, full⟩
  have phase := kept.phase
  rw [Phase, here] at phase
  cases s with
  | out =>
    cases s' with
    | out => exact differ rfl
    | err =>
      have conserved := congrArg List.length (kept.conserved .err isCaptured)
      have none' : a.got .err = [] := by
        rw [State.got, here]
        dsimp only
        rw [if_neg nofun, phase.2]
        rfl
      rw [none', next, written_cons, if_pos rfl, List.nil_append, List.length_append,
        List.length_append, List.length_singleton] at conserved
      have := fits phase.1 isCaptured
      omega
  | err =>
    cases s' with
    | err => exact differ rfl
    | out =>
      rw [(phase.2 isCaptured).1] at isRunning
      cases isRunning

theorem exists_deadlocked (outCaptured : c.captured .out = true)
    (errCaptured : c.captured .err = true)
    (more : c.capacity < (written c.writes .err).length) :
    ∃ a, c.Reaches a ∧ c.Deadlocked a := by
  have waits : c.Reaches { c.spawned with parent := .reading .out [] } := by
    have step : c.Step c.spawned { c.spawned with parent := c.readOut } := .wait rfl
    rw [Child.readOut, if_pos outCaptured] at step
    exact .single step
  have fills (rest : List (Stream × UInt8)) : ∀ a acc, c.Reaches a → a.child = rest →
      a.parent = .reading .out acc → a.pipe .out = [] → a.exited = false →
      (a.pipe .err).length ≤ c.capacity →
      c.capacity < (a.pipe .err).length + (written rest .err).length →
      ∃ a, c.Reaches a ∧ c.Deadlocked a := by
    induction rest with
    | nil =>
      intro a acc _ _ _ _ _ fits more
      exact absurd more (Nat.not_lt_of_le fits)
    | cons v rest ih =>
      obtain ⟨s, v⟩ := v
      intro a acc reaches next here empty isRunning fits more
      cases s with
      | out =>
        -- the parent takes the byte at once
        have room : (a.pipe .out).length < c.capacity := by
          rw [empty]
          exact c.room
        have wrote := reaches.tail (.write next outCaptured room)
        have read := wrote.tail (.read 1 here Nat.one_pos (by decide) (by simp))
        rw [written_cons, if_neg nofun, List.nil_append] at more
        apply ih _ _ read rfl rfl
        · simp [empty]
        · exact isRunning
        · simpa using fits
        · simpa using more
      | err =>
        by_cases full : c.capacity ≤ (a.pipe .err).length
        · exact ⟨a, reaches, .out, acc, .err, v, rest, nofun, here, empty, isRunning, next,
            errCaptured, full⟩
        · have wrote := reaches.tail (.write next errCaptured (Nat.lt_of_not_le full))
          rw [written_cons, if_pos rfl, List.length_append, List.length_singleton] at more
          apply ih _ acc wrote rfl here
          · have other : Stream.out ≠ .err := nofun
            exact (Function.update_of_ne other (a.pipe .err ++ [v]) a.pipe).trans empty
          · exact isRunning
          · simp
            omega
          · simp
            omega
  exact fills c.writes _ [] waits rfl rfl rfl rfl (Nat.zero_le _)
    (Nat.lt_of_lt_of_eq more (Nat.zero_add _).symm)

/-- What a child writes is captured, and the two processes never wait for each other. -/
def Captures (c : Child) : Prop :=
  ∀ a, c.Reaches a → ¬c.Deadlocked a ∧
    (a.parent = .returned → ∀ s, c.captured s = true → a.buf s = some (written c.writes s))

theorem captured_of_returned (kept : Kept c a) (isReturned : a.parent = .returned) {s : Stream}
    (isCaptured : c.captured s = true) : a.buf s = some (written c.writes s) := by
  have phase := kept.phase
  rw [Phase, isReturned] at phase
  obtain ⟨isGone, empty, read⟩ := phase s isCaptured
  have conserved := kept.conserved s isCaptured
  rw [empty, kept.gone isGone, List.append_nil] at conserved
  obtain ⟨b, same⟩ := Option.ne_none_iff_exists'.1 read
  have got : a.got s = b := by
    rw [State.got, isReturned]
    dsimp only
    rw [same]
    rfl
  rw [same, ← got, ← conserved]
  exact congrArg some (List.append_nil _).symm

theorem captures_iff (c : Child) : Captures c ↔ (c.captured .out = true →
    c.captured .err = true → (written c.writes .err).length ≤ c.capacity) := by
  constructor
  · intro captures outCaptured errCaptured
    by_contra more
    obtain ⟨a, reaches, deadlocked⟩ :=
      exists_deadlocked outCaptured errCaptured (Nat.lt_of_not_le more)
    exact (captures a reaches).1 deadlocked
  · intro fits a reaches
    have kept := kept_of_reaches reaches
    exact ⟨not_deadlocked kept fits, fun isReturned _ => captured_of_returned kept isReturned⟩

theorem length_written_replicate (n : Nat) (s : Stream) (v : UInt8) :
    (written (List.replicate n (s, v)) s).length = n := by
  induction n with
  | zero => rfl
  | succ n ih =>
    rw [List.replicate_succ, written_cons, if_pos rfl, List.length_append, ih, Nat.add_comm]
    rfl

/-- A child that writes one byte more to its standard error than goes into a pipe. -/
def noisy : Child where
  writes := List.replicate 65537 (.err, 0)
  captured _ := true
  capacity := 65536
  room := by decide

theorem not_captures : ¬Captures noisy := by
  intro captures
  have more : noisy.capacity < (written noisy.writes .err).length := by
    rw [noisy, length_written_replicate]
    decide
  obtain ⟨a, reaches, deadlocked⟩ := exists_deadlocked rfl rfl more
  exact (captures a reaches).1 deadlocked

end Invariant

end Dux.Runtime.ProcessCapture
