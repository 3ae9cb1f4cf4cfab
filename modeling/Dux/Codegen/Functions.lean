import Dux.Codegen.Destroy
import Dux.Codegen.Preserve

/-!
# Running functions

The code behind a symbol, and its run in any world.  What the instructions, the
choices and the destruction of fields preserve, the run of a function preserves.
-/

namespace Dux.Codegen

open Dux.Logic (Outcome Run)

/-- The code of a function, and of a destructor, whose fields are destroyed
between two pieces of code. -/
inductive FunctionCode
  | plain (code : List Instr)
  | dtor (code : DtorCode)

def Module.functionCode (m : Module) (nest : Nat) (globals : List Item) (symbol : String) :
    Option FunctionCode :=
  match m.functions.lookup symbol with
  | some (.func f) => f.body.bind fun body => (genFunction m.ls nest globals body).map .plain
  | some (.member cls f) =>
      f.body.bind fun body =>
        if f.isDtor then (m.genDtor nest globals cls body).map .dtor
        else (genFunction m.ls nest globals body).map .plain
  | some (.external _) => none
  | some (.runtime _ _) => none
  | none => none

section Running

variable {σ : Type} (W : World σ) (destroyFields : σ → Answer × σ) (globals : List Item) (N : Nat)

def startState (w : σ) : State σ := ⟨w, { live := [{}, ({} : LiveScope).addAll globals] }⟩

def FunctionCode.run (code : FunctionCode) (w : σ) : Outcome × σ :=
  match code with
  | .plain is =>
      let (o, s) := exec W N is (startState globals w)
      (o, s.world)
  | .dtor is =>
      match exec W N is.body (startState globals w) with
      | (.normal, s) =>
          if is.isOpen then
            let (a, w) := destroyFields s.world
            match a.outcome with
            | .normal =>
                let (o, s) := exec W N is.exit { s with world := w }
                (o, s.world)
            | o => (o, w)
          else (.normal, s.world)
      | (o, s) => (o, s.world)

variable {W destroyFields}

def FunctionCode.ops : FunctionCode → List Op
  | .plain is => opsOf is
  | .dtor is => opsOf is.body ++ opsOf is.exit

theorem FunctionCode.run_keeps_of_ops {I : σ → Prop} (code : FunctionCode)
    (ops : ∀ o ∈ code.ops, ∀ w, I w → I (W.op o w).2)
    (choices : ∀ c w, I w → I (W.choose c w).2) (fields : ∀ w, I w → I (destroyFields w).2)
    (w : σ) (start : I w) : I (code.run W destroyFields globals N w).2 := by
  cases code with
  | plain is => exact exec_keeps choices is ops _ start
  | dtor is =>
      simp only [FunctionCode.ops, List.mem_append] at ops
      have inBody := exec_keeps (N := N) choices is.body (fun o member => ops o (.inl member))
        (startState globals w) start
      have atExit := exec_keeps (N := N) choices is.exit fun o member => ops o (.inr member)
      simp only [FunctionCode.run]
      split
      · next s ran =>
          rw [ran] at inBody
          split
          · split
            · exact atExit { s with world := (destroyFields s.world).2 } (fields _ inBody)
            · exact fields _ inBody
          · exact inBody
      · next ran =>
          rw [ran] at inBody
          exact inBody

theorem FunctionCode.run_keeps {I : σ → Prop} (ops : ∀ o w, I w → I (W.op o w).2)
    (choices : ∀ c w, I w → I (W.choose c w).2) (fields : ∀ w, I w → I (destroyFields w).2)
    (code : FunctionCode) (w : σ) (start : I w) :
    I (code.run W destroyFields globals N w).2 :=
  code.run_keeps_of_ops globals N (fun o _ => ops o) choices fields w start

end Running

end Dux.Codegen
