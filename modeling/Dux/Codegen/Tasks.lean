import Dux.Codegen.Boxing
import Dux.Codegen.Cleanups
import Dux.Codegen.Functions
import Dux.Codegen.Registers

/-!
# The body of an asynchronous function

`gen_async_func` (`src/codegen/codegen.cpp`) emits the body as that of any
function, in scopes of its own.  Only `gen_return` differs: it passes its value
to `duxrt_future_set` in front of the clean-ups, where a plain function keeps the
value for the `ret` behind them.
-/

namespace Dux.Codegen

open Dux.Logic (Outcome Run)
open Dux.Logic.Run (Holds Post)

/-! ## The body -/

/-- The call of `duxrt_future_set`. -/
def futureSet : Op := .cleanup (.call "duxrt_future_set")

mutual

/-- An instruction in the body of an asynchronous function: every return sets the
future before it leaves the scopes. -/
def Instr.async : Instr → List Instr
  | .mark (.leaving .ret kept) => [.op futureSet, .mark (.leaving .ret kept)]
  | .branch c arms => [.branch c (asyncArms arms)]
  | .loop bodyFirst test c body next =>
      [.loop bodyFirst (asyncCode test) c (asyncCode body) (asyncCode next)]
  | .switch c cases => [.switch c (asyncArms cases)]
  | .tryCatch body final pad exit handler =>
      [.tryCatch (asyncCode body) final (asyncCode pad) (asyncCode exit) (asyncCode handler)]
  | .mark m => [.mark m]
  | .op o => [.op o]
  | .br k toHeader => [.br k toHeader]
  | .ret => [.ret]
  | .raise => [.raise]
  | .escape => [.escape]
  | .abort => [.abort]

def asyncCode : List Instr → List Instr
  | [] => []
  | i :: is => i.async ++ asyncCode is

def asyncArms : List (List Instr) → List (List Instr)
  | [] => []
  | is :: arms => asyncCode is :: asyncArms arms

end

/-! ## Running the body -/

/-- A run of the body: the results passed to `duxrt_future_set`, latest first,
each present if the `return` had a value. -/
structure Task (σ : Type) where
  world : σ
  hasValue : Bool := false
  results : List (Option LlvmValue) := []

section Running

-- what a `return` has computed, in the return type of the function
variable {σ : Type} (W : World σ) (value : σ → LlvmValue)

def taskOp (o : Op) (t : Task σ) : Answer × Task σ :=
  match o with
  | .cleanup (.call "duxrt_future_set") =>
      let result := if t.hasValue then some (value t.world) else none
      (.ok, { t with hasValue := false, results := result :: t.results })
  | .retainResult =>
      let (a, w) := W.op .retainResult t.world
      (a, { t with world := w, hasValue := a = .ok })
  | o =>
      let (a, w) := W.op o t.world
      (a, { t with world := w })

def taskWorld : World (Task σ) where
  op := taskOp W value
  choose c t :=
    let (i, w) := W.choose c t.world
    (i, { t with world := w })

def runTask (N : Nat) (is : List Instr) (w : σ) : Outcome × State (Task σ) :=
  exec (taskWorld W value) N is (startState [] ⟨w, false, []⟩)

end Running

def Step.isReturn : Step → Bool
  | .exit .ret _ _ => true
  | .exit .leave _ _ | .exit .jump _ _ | .land _ _ _ => false

/-- No exception leaves the body, and none leaves the clean-ups of a `return`. -/
def Calm {σ : Type} (run : Outcome × State σ) : Prop :=
  run.1 ≠ .raise ∧ run.1 ≠ .escape ∧
    ∀ r ∈ run.2.ghost.records, r.step.isReturn = true → r.done = true

/-! ## Returns and results -/

/-- The returns that have been begun. -/
def Ghost.begun (g : Ghost) : Nat := g.records.countP (·.step.isReturn)

/-- The returns that have been done to the end. -/
def Ghost.returned (g : Ghost) : Nat := g.log.countP fun r => r.step.isReturn && r.done

/-- The clean-ups in the code of a function set no future. -/
def SetsNoFuture (x : Item) : Prop := x ≠ .cleanup (.call "duxrt_future_set")

section Tally

variable {σ : Type}

/-- The steps under way, and how many returns have been done to the end; each
return begun has set the future. -/
structure Tally (steps : List Step) (n : Nat) (s : State (Task σ)) : Prop where
  steps : s.ghost.openSteps.map (·.step) = steps
  fresh : ∀ r ∈ s.ghost.openSteps, r.done = false
  returned : s.ghost.returned = n
  results : s.world.results.length = s.ghost.begun

/-- After another end: the steps begun since are still under way, and one more
return has been done if it ended so. -/
structure Tallied (steps : List Step) (n : Nat) (o : Outcome) (s : State (Task σ)) : Prop where
  steps : steps <:+ s.ghost.openSteps.map (·.step)
  fresh : ∀ r ∈ s.ghost.openSteps, r.done = false
  returned : s.ghost.returned = n + if o = .ret then 1 else 0
  results : s.world.results.length = s.ghost.begun

variable {steps : List Step} {n : Nat} {o : Outcome} {s : State (Task σ)}

theorem Tally.tallied (tally : Tally steps n s) (noReturn : o ≠ .ret) : Tallied steps n o s where
  steps := tally.steps ▸ List.suffix_refl _
  fresh := tally.fresh
  returned := by rw [if_neg noReturn, tally.returned, Nat.add_zero]
  results := tally.results

theorem Tallied.of_cons {step : Step} (tallied : Tallied (step :: steps) n o s) :
    Tallied steps n o s where
  steps := (List.suffix_cons _ _).trans tallied.steps
  fresh := tallied.fresh
  returned := tallied.returned
  results := tallied.results

theorem Tallied.outcome {o' : Outcome} (tallied : Tallied steps n o s)
    (same : o = .ret ↔ o' = .ret) : Tallied steps n o' s where
  steps := tallied.steps
  fresh := tallied.fresh
  returned := by rw [tallied.returned, if_congr same rfl rfl]
  results := tallied.results

theorem Tally.of_same {s' : State (Task σ)} (tally : Tally steps n s)
    (openSteps : s'.ghost.openSteps = s.ghost.openSteps) (log : s'.ghost.log = s.ghost.log)
    (results : s'.world.results = s.world.results) : Tally steps n s' where
  steps := by rw [openSteps, tally.steps]
  fresh := by rw [openSteps]; exact tally.fresh
  returned := by rw [Ghost.returned, log]; exact tally.returned
  results := by rw [results, Ghost.begun, Ghost.records, openSteps, log]; exact tally.results

/-! ## Marks -/

theorem Tally.run (tally : Tally steps n s) (e : Entry) :
    Tally steps n (s.withGhost (s.ghost.run e)) := by
  obtain ⟨same, fresh, returned, results⟩ := tally
  cases under : s.ghost.openSteps with
  | nil =>
      have stray : s.ghost.run e = { s.ghost with stray := s.ghost.stray ++ [e] } := by
        simp only [Ghost.run, under]
      rw [stray]
      exact ⟨same, fresh, returned, results⟩
  | cons r rs =>
      have ran : s.ghost.run e =
          { s.ghost with openSteps := { r with ran := r.ran ++ [e] } :: rs } := by
        simp only [Ghost.run, under]
      rw [ran]
      rw [under] at same fresh
      rw [Ghost.begun, Ghost.records, under] at results
      refine ⟨same, ?_, returned, results⟩
      exact List.forall_mem_cons.2 ⟨fresh r List.mem_cons_self,
        fun r' member => fresh r' (List.mem_cons_of_mem _ member)⟩

theorem Tally.leaving (tally : Tally steps n s) {kind : LeaveKind} (noReturn : kind ≠ .ret)
    (kept : Nat) : ∃ left outer, Tally (.exit kind left outer :: steps) n
      (s.withGhost (s.ghost.leaving kind kept)) := by
  refine ⟨_, _, congrArg (_ :: ·) tally.steps, List.forall_mem_cons.2 ⟨rfl, tally.fresh⟩,
    tally.returned, tally.results.trans ?_⟩
  cases kind with
  | ret => exact absurd rfl noReturn
  | leave | jump => simp [Ghost.begun, Ghost.records, Ghost.leaving, State.withGhost,
      Step.isReturn]

theorem Tally.returning (tally : Tally steps n s) (kept : Nat) (t : Task σ)
    (results : t.results.length = s.world.results.length + 1) :
    ∃ left outer, Tally (.exit .ret left outer :: steps) n
      { s with world := t, ghost := s.ghost.leaving .ret kept } := by
  refine ⟨_, _, congrArg (_ :: ·) tally.steps, List.forall_mem_cons.2 ⟨rfl, tally.fresh⟩,
    tally.returned, results.trans ?_⟩
  rw [tally.results]
  simp [Ghost.begun, Ghost.records, Ghost.leaving, Step.isReturn]

theorem Tally.left {step : Step} (tally : Tally (step :: steps) n s) :
    Tally steps (n + if step.isReturn then 1 else 0)
      (s.withGhost s.ghost.left) := by
  obtain ⟨same, fresh, returned, results⟩ := tally
  cases under : s.ghost.openSteps with
  | nil =>
      rw [under] at same
      cases same
  | cons r rs =>
      rw [under] at same fresh
      obtain ⟨rfl, rest⟩ := List.cons.inj same
      have left : s.ghost.left = { s.ghost with
          live := r.step.kept
          openSteps := rs
          log := { r with done := true } :: s.ghost.log } := by
        rw [Ghost.left, under]
      rw [left]
      refine ⟨rest, fun r' member => fresh r' (List.mem_cons_of_mem _ member), ?_, ?_⟩
      · rw [← returned]
        simp [Ghost.returned, State.withGhost, List.countP_cons]
      · rw [Ghost.begun, Ghost.records, under] at results
        simp only [State.withGhost, results, Ghost.begun, Ghost.records, List.countP_append,
          List.countP_cons]
        omega

theorem Tallied.settle (tallied : Tallied steps n o s) (noReturn : o ≠ .ret) :
    Tally steps n (s.withGhost (s.ghost.settle steps.length)) := by
  obtain ⟨suffix, fresh, returned, results⟩ := tallied
  rw [if_neg noReturn, Nat.add_zero] at returned
  refine ⟨?_, fun r member => fresh r (List.mem_of_mem_drop member), ?_, results.trans ?_⟩
  · have kept := List.suffix_iff_eq_drop.1 suffix
    rw [List.length_map, ← List.map_drop] at kept
    exact kept.symm
  · have interrupted : (s.ghost.interrupted steps.length).countP
        (fun r => r.step.isReturn && r.done) = 0 := by
      rw [List.countP_eq_zero]
      intro r member
      rw [fresh r (List.mem_of_mem_take member), Bool.and_false]
      exact Bool.false_ne_true
    rw [← returned]
    simp [Ghost.returned, Ghost.settle, State.withGhost, List.countP_append, interrupted]
  · have whole : s.ghost.openSteps.countP (·.step.isReturn) =
        (s.ghost.openSteps.take (s.ghost.openSteps.length - steps.length) ++
          s.ghost.openSteps.drop (s.ghost.openSteps.length - steps.length)).countP
            (·.step.isReturn) := by rw [List.take_append_drop]
    rw [List.countP_append] at whole
    simp only [Ghost.begun, Ghost.records, Ghost.settle, State.withGhost, List.countP_append,
      Ghost.interrupted, whole]
    omega

theorem Tallied.land (tallied : Tallied steps n .raise s) {saved : Ghost}
    (depth : saved.openSteps.length = steps.length) (final : List Entry) :
    ∃ owed kept, Tally (.land owed final kept :: steps) n
      (s.withGhost (s.ghost.land saved final)) := by
  obtain ⟨same, fresh, returned, results⟩ := tallied.settle (by simp)
  rw [← depth] at same fresh returned results
  refine ⟨_, _, congrArg (_ :: ·) same, List.forall_mem_cons.2 ⟨rfl, fresh⟩, returned,
    results.trans ?_⟩
  simp [Ghost.begun, Ghost.records, Ghost.land, Ghost.settle, State.withGhost, Step.isReturn]

end Tally

/-! ## Code -/

theorem asyncCode_append (is js : List Instr) :
    asyncCode (is ++ js) = asyncCode is ++ asyncCode js := by
  induction is with
  | nil => rfl
  | cons i is ih => simp [asyncCode, ih]

theorem asyncArms_eq (arms : List (List Instr)) : asyncArms arms = arms.map asyncCode := by
  induction arms with
  | nil => rfl
  | cons is arms ih => simp [asyncArms, ih]

section Rules

variable {σ : Type} (W : World σ) (value : σ → LlvmValue) (N : Nat)

/-- Code that counts the returns. -/
def Counts (live : Bool) (is : List Instr) : Prop :=
  ∀ steps n, Holds (Tally steps n) (exec (taskWorld W value) N (asyncCode is))
    (fun s => live = true ∧ Tally steps n s) (Tallied steps n)

variable {W value N} {steps : List Step} {n : Nat} {live : Bool} {s : State (Task σ)}

theorem results_taskOp {o : Op} (follows : o.Follows SetsNoFuture) (t : Task σ) :
    (taskOp W value o t).2.results = t.results := by
  unfold taskOp
  split
  · exact absurd rfl follows
  · rfl
  · rfl

theorem counts_of_holds {i j : Instr} (same : i.async = [j])
    (holds : ∀ steps n, Holds (Tally steps n) (execInstr (taskWorld W value) N j) (Tally steps n)
      (Tallied steps n)) : Counts W value N true [i] := by
  intro steps n
  rw [asyncCode, asyncCode, same]
  apply holds_single
  exact (holds steps n).post (fun _ tally => ⟨rfl, tally⟩) fun _ _ _ tallied => tallied

theorem counts_mark {m : Mark} (same : (Instr.mark m).async = [.mark m])
    (moves : ∀ steps n (s : State (Task σ)), Tally steps n s →
      Tally steps n (s.withGhost (s.ghost.mark m))) : Counts W value N true [.mark m] :=
  counts_of_holds same fun steps n => holds_mark fun s tally => moves steps n s tally

theorem counts_stop {i : Instr} {o : Outcome} (same : i.async = [i])
    (ends : ∀ s, execInstr (taskWorld W value) N i s = (o, s)) (notNormal : o ≠ .normal)
    (noReturn : o ≠ .ret) : Counts W value N false [i] := by
  intro steps n
  rw [asyncCode, asyncCode, same]
  apply holds_single
  intro s tally
  have tallied := tally.tallied noReturn
  rw [ends]
  cases o with
  | normal => exact absurd rfl notNormal
  | br | ret | raise | escape | abort | timeout => exact tallied

theorem holds_until_left {step : Step} {is js : List Instr} {Q : State (Task σ) → Prop}
    (counts : Counts W value N true is)
    (behind : Holds (Tally steps (n + if step.isReturn then 1 else 0))
      (exec (taskWorld W value) N js) Q (Tallied steps n)) :
    Holds (Tally (step :: steps) n)
      (exec (taskWorld W value) N (asyncCode is ++ .mark .left :: js)) Q (Tallied steps n) := by
  apply holds_append
  · exact (counts (step :: steps) n).post (fun _ ends => ends.2) fun _ _ _ => Tallied.of_cons
  · exact holds_cons (holds_mark fun _ => Tally.left) behind

theorem counts_leaving {kind : LeaveKind} (noReturn : kind ≠ .ret) {kept : Nat} {is : List Instr}
    (holds : ∀ steps n left outer, Holds (Tally (.exit kind left outer :: steps) n)
      (exec (taskWorld W value) N (asyncCode is)) (fun s => live = true ∧ Tally steps n s)
      (Tallied steps n)) : Counts W value N live (.mark (.leaving kind kept) :: is) := by
  intro steps n
  have same : (Instr.mark (.leaving kind kept)).async = [.mark (.leaving kind kept)] := by
    cases kind with
    | ret => exact absurd rfl noReturn
    | leave | jump => rfl
  rw [asyncCode, same]
  apply holds_cons (R := fun s => ∃ left outer, Tally (.exit kind left outer :: steps) n s)
  · exact holds_mark fun s tally => tally.leaving noReturn kept
  · rintro s ⟨left, outer, tally⟩
    exact holds steps n left outer s tally

theorem counts_leave {kept : Nat} {is : List Instr} (counts : Counts W value N true is) :
    Counts W value N true (.mark (.leaving .leave kept) :: (is ++ [.mark .left])) := by
  refine counts_leaving (by simp) fun steps n left outer => ?_
  rw [asyncCode_append]
  exact holds_until_left counts (holds_nil fun s tally => ⟨rfl, tally⟩)

theorem counts_abandon {kept : Nat} {is : List Instr} (counts : Counts W value N false is) :
    Counts W value N false (.mark (.leaving .leave kept) :: is) := by
  refine counts_leaving (by simp) fun steps n left outer => ?_
  exact (counts _ n).post (fun s ends => absurd ends.1 (by simp)) fun _ _ _ => Tallied.of_cons

theorem counts_jump {kept k : Nat} {toHeader : Bool} {is : List Instr}
    (counts : Counts W value N true is) :
    Counts W value N false
      (.mark (.leaving .jump kept) :: (is ++ [.mark .left, .br k toHeader])) := by
  refine counts_leaving (by simp) fun steps n left outer => ?_
  rw [asyncCode_append]
  refine holds_until_left counts (holds_single fun s tally => ?_)
  exact Tally.tallied tally (by simp)

theorem counts_ret {kept : Nat} {is : List Instr} (counts : Counts W value N true is) :
    Counts W value N false (.mark (.leaving .ret kept) :: (is ++ [.mark .left, .ret])) := by
  intro steps n
  rw [asyncCode, asyncCode_append]
  apply holds_append
    (R := fun s => ∃ left outer, Tally (.exit .ret left outer :: steps) n s)
  · intro s tally
    exact tally.returning kept _ rfl
  · rintro s ⟨left, outer, tally⟩
    refine holds_until_left counts (holds_single fun s tally => ?_) s tally
    exact ⟨tally.steps ▸ List.suffix_refl _, tally.fresh, tally.returned, tally.results⟩

/-! ## Branches, loops and exceptions -/

theorem Tally.choose (tally : Tally steps n s) (value : σ → LlvmValue) (c : Choice) :
    Tally steps n { s with world := ((taskWorld W value).choose c s.world).2 } :=
  tally.of_same rfl rfl rfl

theorem counts_op {o : Op} (follows : o.Follows SetsNoFuture) : Counts W value N true [.op o] := by
  refine counts_of_holds rfl fun steps n s tally => ?_
  have after : Tally steps n { s with world := ((taskWorld W value).op o s.world).2 } :=
    tally.of_same rfl rfl (results_taskOp follows s.world)
  simp only [execInstr, execOp]
  cases ((taskWorld W value).op o s.world).1 with
  | ok => exact after
  | raise | escape | abort => exact after.tallied (by simp [Answer.outcome])

theorem holds_arm {is : List Instr} (counts : Counts W value N live is) :
    Holds (Tally steps n) (exec (taskWorld W value) N (asyncCode is)) (Tally steps n)
      (Tallied steps n) :=
  (counts steps n).post (fun _ ends => ends.2) fun _ _ _ tallied => tallied

theorem counts_branch {c : Choice} {arms : List (List Instr)}
    (each : ∀ is ∈ arms, ∃ live, Counts W value N live is) :
    Counts W value N true [.branch c arms] := by
  refine counts_of_holds rfl fun steps n s tally => ?_
  simp only [execInstr, choosing, execArms_eq, asyncArms_eq, List.getElem?_map]
  have chosen := tally.choose (W := W) value c
  cases way : arms[((taskWorld W value).choose c s.world).1]? with
  | none => exact chosen
  | some is =>
      obtain ⟨live, counts⟩ := each is (List.mem_of_getElem? way)
      exact holds_arm counts _ chosen

/-- What is known behind a round of a loop, from the loop's point of view. -/
def RoundTallied (steps : List Step) (n : Nat) (o : Outcome) (s : State (Task σ)) : Prop :=
  (∀ toHeader, o = .br 0 toHeader → Tally steps n s) ∧
    (o.lower ≠ .normal → Tallied steps n o.lower s)

theorem Tallied.lower {o : Outcome} (tallied : Tallied steps n o s) : Tallied steps n o.lower s :=
  tallied.outcome (by
    cases o with
    | br k toHeader => cases k <;> simp [Outcome.lower]
    | normal | ret | raise | escape | abort | timeout => rfl)

theorem tally_settlingRound {run : Run (State (Task σ))}
    (holds : Holds (Tally steps n) run (Tally steps n) (Tallied steps n)) :
    Holds (Tally steps n) (settlingRound run) (Tally steps n) (RoundTallied steps n) := by
  intro s start
  have result := holds s start
  have depth : s.ghost.openSteps.length = steps.length := by
    rw [← start.steps, List.length_map]
  unfold settlingRound
  generalize run s = r at result ⊢
  rcases r with ⟨o, s'⟩
  cases o with
  | normal => exact result
  | br k toHeader =>
      cases k with
      | zero =>
          refine ⟨fun _ _ => ?_, fun passes => absurd rfl passes⟩
          rw [depth]
          exact Tallied.settle result (by simp)
      | succ k => exact ⟨by simp, fun _ => Tallied.lower result⟩
  | ret | raise | escape | abort | timeout => exact ⟨by simp, fun _ => Tallied.lower result⟩

theorem counts_loop {bodyFirst : Bool} {test body next : List Instr} {c : Choice}
    (testing : Counts W value N true test) (inBody : Counts W value N live body)
    (advancing : Counts W value N true next) :
    Counts W value N true [.loop bodyFirst test c body next] := by
  refine counts_of_holds rfl fun steps n => ?_
  have round : Holds (Tally steps n) (exec (taskWorld W value) N (asyncCode body)) (Tally steps n)
      (Tallied steps n) := holds_arm inBody
  have settled := tally_settlingRound round
  have again : Holds (Tally steps n) (Run.loop (exec (taskWorld W value) N (asyncCode test))
      (chooseRound (taskWorld W value) c)
      (settlingRound (exec (taskWorld W value) N (asyncCode body)))
      (exec (taskWorld W value) N (asyncCode next)) N) (Tally steps n) (Tallied steps n) := by
    apply Holds.loop (holds_arm testing) (fun _ tally => tally.choose value c) settled
    · exact fun s leaves => leaves.1 true rfl
    · exact fun s leaves => leaves.1 false rfl
    · exact fun o s _ passes leaves => leaves.2 passes
    · exact holds_arm advancing
    · exact fun s tally => tally.tallied (by simp)
  unfold execInstr
  cases bodyFirst with
  | false => exact again
  | true =>
      apply Holds.around settled
      · exact fun s leaves => leaves.1 true rfl
      · exact fun s leaves => leaves.1 false rfl
      · exact fun o s _ passes leaves => leaves.2 passes
      · exact (holds_arm advancing).seq again

theorem counts_switch {c : Choice} {cases : List (List Instr)}
    (each : ∀ is ∈ cases, ∃ live, Counts W value N live is) :
    Counts W value N true [.switch c cases] := by
  refine counts_of_holds rfl fun steps n => ?_
  have choosing : Holds (Tally steps n)
      (choosing (taskWorld W value) c fun i =>
        Run.fallThrough ((execArms (taskWorld W value) N (asyncArms cases)).drop i))
      (Tally steps n) (Tallied steps n) := by
    intro s tally
    apply Holds.fallThrough (P := Tally steps n)
    · intro run member
      rw [execArms_eq, asyncArms_eq, List.map_map, ← List.map_drop] at member
      obtain ⟨is, isCase, rfl⟩ := List.mem_map.1 member
      obtain ⟨live, counts⟩ := each is (List.mem_of_mem_drop isCase)
      exact holds_arm counts
    · exact tally.choose value c
  unfold execInstr
  apply Holds.breakable (tally_settlingRound choosing)
  · exact fun toHeader s leaves => leaves.1 toHeader rfl
  · exact fun o s _ passes leaves => leaves.2 passes

theorem counts_tryCatch {body pad exit handler : List Instr} {final : List Entry}
    {live' live'' : Bool} (inBody : Counts W value N live body) (inPad : Counts W value N true pad)
    (exiting : Counts W value N live' exit) (handling : Counts W value N live'' handler) :
    Counts W value N true [.tryCatch body final (pad ++ [.mark .left]) exit handler] := by
  refine counts_of_holds rfl fun steps n saved start => ?_
  rw [asyncCode_append]
  have pads : Holds (fun s => ∃ owed kept, Tally (.land owed final kept :: steps) n s)
      (exec (taskWorld W value) N (asyncCode pad ++ asyncCode [.mark .left])) (Tally steps n)
      (Tallied steps n) := by
    rintro s ⟨owed, kept, tally⟩
    exact holds_until_left inPad (holds_nil fun s tally => tally) s tally
  have depth : saved.ghost.openSteps.length = steps.length := by
    rw [← start.steps, List.length_map]
  have landing : Holds (Tallied steps n .raise)
      (Run.landing (fun s => s.withGhost (s.ghost.land saved.ghost final))
        (exec (taskWorld W value) N (asyncCode pad ++ asyncCode [.mark .left]))
        (exec (taskWorld W value) N (asyncCode handler)) N)
      (Tally steps n) (Tallied steps n) := by
    apply Holds.landing pads
    · exact fun s tallied => tallied.land depth final
    · exact fun s tallied => tallied
    · exact fun o s _ _ tallied => tallied
    · exact holds_arm handling
    · exact fun s tallied => tallied.outcome (by simp)
  unfold execInstr
  exact Holds.protect (holds_arm inBody) (holds_arm exiting) (fun s tallied => tallied) landing
    (fun o s _ _ tallied => tallied) saved start

theorem Counts.append {is js : List Instr} (first : Counts W value N true is)
    (second : Counts W value N live js) : Counts W value N live (is ++ js) := by
  intro steps n
  rw [asyncCode_append]
  exact holds_append (holds_arm first) (second steps n)

theorem countRules (W : World σ) (value : σ → LlvmValue) (N : Nat) :
    CodeRules SetsNoFuture (Counts W value N) where
  nil _ _ := holds_nil fun _ tally => ⟨rfl, tally⟩
  append := .append
  op := counts_op
  push := counts_mark rfl fun _ _ _ tally => tally.of_same rfl rfl rfl
  register _ := counts_mark rfl fun _ _ _ tally => tally.of_same rfl rfl rfl
  run e := counts_mark rfl fun _ _ _ tally => tally.run e
  leave := counts_leave
  abandon := counts_abandon
  jump := counts_jump
  ret := counts_ret
  raise := counts_stop rfl (fun _ => by rw [execInstr]) (by simp) (by simp)
  escape := counts_stop rfl (fun _ => by rw [execInstr]) (by simp) (by simp)
  abort := counts_stop rfl (fun _ => by rw [execInstr]) (by simp) (by simp)
  branch := counts_branch
  loop := counts_loop
  switch := counts_switch
  tryCatch := counts_tryCatch

/-! ## A whole run -/

theorem setsNoFuture_of_mem_items {ls : Layouts} {d : Declaration} {x : Item}
    (member : x ∈ d.items ls) : SetsNoFuture x := by
  rintro rfl
  cases slot_of_mem_items ls member

theorem admissible_setsNoFuture (ls : Layouts) : Admissible SetsNoFuture ls where
  endCatch := by simp [SetsNoFuture]
  deferBody _ _ :=
    ⟨fun _ _ _ _ member => setsNoFuture_of_mem_items member, fun _ => by simp [SetsNoFuture]⟩

/-- A run that returns has set the future once exactly if no exception has left the
clean-ups of a `return`. -/
theorem exists_results_iff {ls : Layouts} {nest : Nat} {body : List Stmt} {is : List Instr} {w : σ}
    (emits : genFunction ls nest [] body = some is)
    (returned : (runTask W value N (asyncCode is) w).1 = .ret) :
    (∃ v, (runTask W value N (asyncCode is) w).2.world.results = [v]) ↔
      ∀ r ∈ (runTask W value N (asyncCode is) w).2.ghost.records,
        r.step.isReturn = true → r.done = true := by
  obtain ⟨live, counts⟩ := holds_genFunction (countRules W value N) (admissible_setsNoFuture ls)
    (fun _ member => by cases member) (fun _ _ _ => setsNoFuture_of_mem_items) emits
  have start : Tally [] 0 (startState [] (⟨w, false, []⟩ : Task σ)) := ⟨rfl, nofun, rfl, rfl⟩
  have ends : Post _ (Tallied [] 0) (runTask W value N (asyncCode is) w) := counts [] 0 _ start
  generalize runTask W value N (asyncCode is) w = run at returned ends ⊢
  obtain ⟨o, s⟩ := run
  obtain rfl : o = .ret := returned
  have tallied : Tallied [] 0 .ret s := ends
  -- one return has been done to the end, the others have been interrupted
  have done : (s.ghost.records.filter (·.done)).countP (·.step.isReturn) = 1 := by
    have underWay : s.ghost.openSteps.filter (·.done) = [] :=
      List.filter_eq_nil_iff.2 fun r member => by simp [tallied.fresh r member]
    rw [Ghost.records, List.filter_append, underWay, List.nil_append, List.countP_filter]
    exact tallied.returned
  have begun := tallied.results
  rw [Ghost.begun, List.countP_eq_countP_filter_add _ _ (·.done), done] at begun
  rw [← List.length_eq_one_iff, begun, Nat.add_eq_left, List.countP_eq_zero]
  simp only [List.mem_filter, Bool.not_eq_true', and_imp]
  refine forall₂_congr fun r _ => ?_
  cases r.done <;> simp

theorem type_of_mem_results {t : LlvmType} (typed : ∀ w, (value w).type = t) (is : List Instr)
    (w : σ) : ∀ r ∈ (runTask W value N is w).2.world.results, ∀ v ∈ r, v.type = t := by
  refine exec_keeps (I := fun t' : Task σ => ∀ r ∈ t'.results, ∀ v ∈ r, v.type = t)
    (fun _ _ kept => kept) is (fun o _ t' kept => ?_) _ nofun
  simp only [taskWorld, taskOp]
  split
  · refine List.forall_mem_cons.2 ⟨fun v member => ?_, kept⟩
    split at member
    · cases member
      exact typed _
    · cases member
  · exact kept
  · exact kept

end Rules

end Dux.Codegen
