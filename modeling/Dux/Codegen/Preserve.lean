import Dux.Codegen.Exec

/-!
# Properties of the world that a run preserves

What every instruction that occurs in a piece of code preserves, a run of the
code preserves, whichever way it goes.
-/

namespace Dux.Codegen

open Dux.Logic (Outcome Run)
open Dux.Logic.Run (Keeps seq fallThrough breakable around protect)

mutual

def Instr.ops : Instr → List Op
  | .op o => [o]
  | .branch _ arms => armOps arms
  | .loop _ test _ body next => opsOf test ++ opsOf body ++ opsOf next
  | .switch _ cases => armOps cases
  | .tryCatch body _ pad exit handler => opsOf body ++ opsOf pad ++ opsOf exit ++ opsOf handler
  | .mark _ | .br _ _ | .ret | .raise | .escape | .abort => []

def opsOf : List Instr → List Op
  | [] => []
  | i :: is => i.ops ++ opsOf is

def armOps : List (List Instr) → List Op
  | [] => []
  | is :: arms => opsOf is ++ armOps arms

end

section Preserve

variable {σ : Type} {W : World σ} {N : Nat} {I : σ → Prop}

theorem keeps_settlingRound {run : Run (State σ)} (keeps : Keeps (fun s => I s.world) run) :
    Keeps (fun s => I s.world) (settlingRound run) := by
  intro s start
  have kept := keeps s start
  unfold settlingRound
  split
  · next same =>
      rw [same] at kept
      exact kept
  · exact kept

theorem keeps_choosing (choices : ∀ c w, I w → I (W.choose c w).2) {c : Choice}
    {run : Nat → Run (State σ)}
    (each : ∀ i, Keeps (fun s => I s.world) (run i)) :
    Keeps (fun s => I s.world) (choosing W c run) :=
  fun s start => each _ _ (choices c s.world start)

mutual

theorem execInstr_keeps (choices : ∀ c w, I w → I (W.choose c w).2) :
    ∀ i : Instr, (∀ o ∈ i.ops, ∀ w, I w → I (W.op o w).2) →
    Keeps (fun s => I s.world) (execInstr W N i)
  | .op o, ops => by
      intro s start
      simpa [execInstr, execOp] using ops o (by simp [Instr.ops]) s.world start
  | .mark m, _ => by
      intro s start
      simpa [execInstr, execMark, State.withGhost] using start
  | .branch c arms, ops => by
      unfold execInstr
      apply keeps_choosing choices
      intro k
      cases found : (execArms W N arms)[k]? with
      | none => exact Run.keeps_skip
      | some run => exact execArms_keeps choices arms ops run (List.mem_of_getElem? found)
  | .loop bodyFirst test c body next, ops => by
      simp only [Instr.ops, List.mem_append] at ops
      have testing := exec_keeps choices test fun o mem => ops o (.inl (.inl mem))
      have inBody := keeps_settlingRound
        (exec_keeps choices body fun o mem => ops o (.inl (.inr mem)))
      have advances := exec_keeps choices next fun o mem => ops o (.inr mem)
      have again : Keeps (fun s => I s.world) (Run.loop (exec W N test) (chooseRound W c)
          (settlingRound (exec W N body)) (exec W N next) N) :=
        Keeps.loop testing (fun s start => choices c s.world start) inBody advances N
      unfold execInstr
      cases bodyFirst with
      | false => exact again
      | true => exact inBody.around (advances.seq again)
  | .switch c cases, ops => by
      unfold execInstr
      apply Keeps.breakable
      apply keeps_settlingRound
      apply keeps_choosing choices
      intro k
      apply Keeps.fallThrough
      intro run mem
      exact execArms_keeps choices cases ops run (List.mem_of_mem_drop mem)
  | .tryCatch body final pad exit handler, ops => by
      simp only [Instr.ops, List.mem_append] at ops
      have inBody := exec_keeps choices body fun o mem => ops o (.inl (.inl (.inl mem)))
      have inPad := exec_keeps choices pad fun o mem => ops o (.inl (.inl (.inr mem)))
      have exiting := exec_keeps choices exit fun o mem => ops o (.inl (.inr mem))
      have handles := exec_keeps choices handler fun o mem => ops o (.inr mem)
      unfold execInstr
      intro s start
      have landing : Keeps (fun s => I s.world)
          (Run.landing (fun s' => s'.withGhost (s'.ghost.land s.ghost final))
            (exec W N pad) (exec W N handler) N) := by
        apply Keeps.landing _ inPad handles N
        exact fun _ start => start
      exact inBody.protect exiting landing s start
  | .br k toHeader, _ | .ret, _ | .raise, _ | .escape, _ | .abort, _ => by
      intro s start
      simpa [execInstr] using start

theorem exec_keeps (choices : ∀ c w, I w → I (W.choose c w).2) :
    ∀ is : List Instr, (∀ o ∈ opsOf is, ∀ w, I w → I (W.op o w).2) →
    Keeps (fun s => I s.world) (exec W N is)
  | [], _ => by
      unfold exec
      exact Run.keeps_skip
  | i :: is, ops => by
      simp only [opsOf, List.mem_append] at ops
      unfold exec
      exact (execInstr_keeps choices i fun o mem => ops o (.inl mem)).seq
        (exec_keeps choices is fun o mem => ops o (.inr mem))

theorem execArms_keeps (choices : ∀ c w, I w → I (W.choose c w).2) :
    ∀ arms : List (List Instr),
    (∀ o ∈ armOps arms, ∀ w, I w → I (W.op o w).2) →
    ∀ run ∈ execArms W N arms, Keeps (fun s => I s.world) run
  | [], _ => by simp [execArms]
  | is :: arms, ops => by
      simp only [armOps, List.mem_append] at ops
      simp only [execArms, List.mem_cons]
      rintro run (rfl | mem)
      · exact exec_keeps choices is fun o mem => ops o (.inl mem)
      · exact execArms_keeps choices arms (fun o mem => ops o (.inr mem)) run mem

end

end Preserve

end Dux.Codegen
