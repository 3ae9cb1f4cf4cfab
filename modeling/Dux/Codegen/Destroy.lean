import Dux.Codegen.Construct
import Dux.Codegen.Exec

/-!
# Destruction

What happens to the fields of an instance when it is destroyed.  A destruction
(`emit_dtor` at the end of a scope, `gen_delete`) calls the destructor function
of a class that has been fixed at compile time, if there is one, and frees the
memory.  `gen_func` puts the destruction of the fields behind the body of the
destructor, where the block is still open (`src/codegen/codegen.cpp`).
-/

namespace Dux.Codegen

open Dux.Logic (Outcome Run)

/-- A field with the class that its value is destroyed as. -/
abbrev FieldDtor := FieldDecl × String

/-- The code of a destructor function: its body, and behind that, if the block is
still open there, the destruction of these fields and the way out. -/
structure DtorCode where
  body : List Instr
  isOpen : Bool
  fields : List FieldDtor
  exit : List Instr

namespace Module

variable (m : Module)

/-- The field whose destruction `gen_func` emits, if its type has a destructor
function. -/
def fieldDtor (fi : FieldInfo) : Option FieldDtor :=
  let fc := m.ls.types.nameOf fi.type
  if fc = "" ∨ fc = "<unknown>" ∨ fc = "<invalid>" then none
  else if (m.functions.lookup (fc ++ "___dtor")).isSome then some (fi.decl, fc)
  else none

/-- The fields that `gen_func` destroys at the end of a destructor. -/
def fieldDtors (cls : String) : List FieldDtor :=
  match m.ls.layouts.lookup cls with
  | none => []
  | some layout => layout.fields.reverse.filterMap m.fieldDtor

/-- `gen_func` for the destructor of a class, with `globals` registered in the
global scope and deferred blocks nested at most `n` deep. -/
def genDtor (n : Nat) (globals : List Item) (cls : String) (body : List Stmt) :
    Option DtorCode := do
  let r ← genLevel m.ls (n + 1) body ⟨[{}, globals.foldl Frame.add {}], []⟩
  let exit ← (if r.live then emitJump (genLevel m.ls n) .ret 1 .ret else Emitter.stop []) r.ctx
  return ⟨r.code, r.live, m.fieldDtors cls, exit.code⟩

/-- The destructor that a destruction calls before it frees the memory, if it
calls one.  `cls` is the class whose destructor it looks for; a `delete` without
a slot or a class looks for none. -/
def destruction (n : Nat) (globals : List Item) (cls : Option String) : Option (Option DtorCode) :=
  match cls with
  | none => some none
  | some cls =>
      match m.functions.lookup (cls ++ "___dtor") with
      | none => some none
      | some (.member _ f) => f.body.bind fun body => (m.genDtor n globals cls body).map some
      | some _ => none

end Module

section Exec

variable {σ : Type} (W : World σ) (N : Nat)

/-- Destroy fields one after the other, and list those whose destruction has
begun. -/
def destroyFields : List FieldDtor → State σ → Outcome × State σ × List FieldDtor
  | [], s => (.normal, s, [])
  | f :: fs, s =>
      match execOp W (.cleanup (.dtor ⟨⟨0, 0⟩, f.1.name⟩ f.2)) s with
      | (.normal, s') =>
          let (o, s'', destroyed) := destroyFields fs s'
          (o, s'', f :: destroyed)
      | (o, s') => (o, s', [f])

def DtorCode.run (code : DtorCode) (s : State σ) : Outcome × List FieldDtor :=
  match exec W N code.body s with
  | (.normal, s') =>
      if code.isOpen then
        match destroyFields W code.fields s' with
        | (.normal, s'', destroyed) => ((exec W N code.exit s'').1, destroyed)
        | (o, _, destroyed) => (o, destroyed)
      else (.normal, [])
  | (o, _) => (o, [])

def runDestruction (dtor : Option DtorCode) (s : State σ) : Outcome × List FieldDtor :=
  match dtor with
  | none => (.ret, [])
  | some code => code.run W N s

/-- There is a destructor, and its body runs to the end. -/
def FallsThrough (dtor : Option DtorCode) (s : State σ) : Prop :=
  ∃ code, dtor = some code ∧ code.isOpen = true ∧ (exec W N code.body s).1 = .normal

end Exec

def classFields (classes : List ClassDecl) (fields : List FieldDecl) : List FieldDtor :=
  fields.filterMap fun f =>
    if f.type.name ∈ classes.map (·.name) then some (f, f.type.name) else none

/-- Every field of a class type, own or inherited, is destroyed once, the last one
first, and only fields are read that have been set. -/
def DestroyedAll (classes : List ClassDecl) (runtimeClass : String) (isSet : FieldDecl → Prop)
    (destroyed : List FieldDtor) : Prop :=
  ∃ fields, AllFields classes runtimeClass fields ∧
    destroyed = (classFields classes fields).reverse ∧ ∀ f ∈ destroyed, isSet f.1

section Lemmas

variable {σ : Type} {W : World σ} {N : Nat}

theorem destroyFields_normal :
    ∀ {fs : List FieldDtor} {s s' : State σ} {destroyed : List FieldDtor},
    destroyFields W fs s = (.normal, s', destroyed) → destroyed = fs := by
  intro fs
  induction fs with
  | nil =>
      intro s s' destroyed run
      simp only [destroyFields, Prod.mk.injEq] at run
      exact run.2.2.symm
  | cons f fs ih =>
      intro s s' destroyed run
      simp only [destroyFields] at run
      split at run
      · next s₁ first =>
          cases rest : destroyFields W fs s₁ with
          | mk o result =>
              rcases result with ⟨s₂, others⟩
              simp only [rest, Prod.mk.injEq] at run
              rcases run with ⟨rfl, rfl, rfl⟩
              rw [ih rest]
      · next o s₁ notNormal _ =>
          simp only [Prod.mk.injEq] at run
          exact absurd run.1 (by rintro rfl; simp_all)

theorem execOp_ne_ret (o : Op) (s : State σ) : (execOp W o s).1 ≠ .ret := by
  have answers : ∀ answer : Answer, answer.outcome ≠ .ret := by
    intro answer
    cases answer <;> simp [Answer.outcome]
  exact answers _

theorem destroyFields_ne_ret : ∀ (fs : List FieldDtor) (s : State σ),
    (destroyFields W fs s).1 ≠ .ret := by
  intro fs
  induction fs with
  | nil => simp [destroyFields]
  | cons f fs ih =>
      intro s
      have first := execOp_ne_ret (W := W) (.cleanup (.dtor ⟨⟨0, 0⟩, f.1.name⟩ f.2)) s
      simp only [destroyFields]
      split
      · exact ih _
      · next o s' _ result =>
          rw [result] at first
          exact first

/-- A destructor that returns has destroyed its fields if its body runs to the
end, and none otherwise. -/
theorem DtorCode.run_eq_ret {code : DtorCode} {s : State σ} {destroyed : List FieldDtor}
    (returns : code.run W N s = (.ret, destroyed)) :
    (FallsThrough W N (some code) s ∧ destroyed = code.fields) ∨
      (¬FallsThrough W N (some code) s ∧ destroyed = []) := by
  unfold DtorCode.run at returns
  unfold FallsThrough
  rcases body : exec W N code.body s with ⟨o, s'⟩
  cases o with
  | normal =>
      simp only [body] at returns
      split at returns
      · next isOpen =>
          have fields := destroyFields_ne_ret (W := W) code.fields s'
          rcases destroys : destroyFields W code.fields s' with ⟨o, s'', destroyed'⟩
          rw [destroys] at fields
          cases o with
          | normal =>
              simp only [destroys, Prod.mk.injEq] at returns
              exact .inl ⟨⟨code, rfl, isOpen, by rw [body]⟩,
                returns.2 ▸ destroyFields_normal destroys⟩
          | _ =>
              simp only [destroys] at returns
              exact absurd (Prod.mk.inj returns).1 fields
      · simp at returns
  | _ =>
      simp only [body, Prod.mk.injEq] at returns
      refine .inr ⟨?_, returns.2.symm⟩
      rintro ⟨code', isCode, -, ends⟩
      obtain rfl := Option.some.inj isCode
      simp [body] at ends

/-! ## Destruction as a whole -/

/-- The fields that a destruction destroys behind the body of the destructor. -/
def Module.destroyedFields (m : Module) (cls : Option String) : List FieldDtor :=
  cls.elim [] m.fieldDtors

theorem fields_of_destruction {m : Module} {n : Nat} {globals : List Item} {cls : Option String}
    {code : DtorCode} (destroys : m.destruction n globals cls = some (some code)) :
    code.fields = m.destroyedFields cls := by
  unfold Module.destruction at destroys
  split at destroys
  · simp at destroys
  · next cls =>
      split at destroys
      · simp at destroys
      · simp only [Option.bind_eq_some_iff, Option.map_eq_some_iff, Option.some.injEq,
          Module.genDtor, Option.bind_eq_bind, Option.pure_def] at destroys
        rcases destroys with ⟨body, -, code', ⟨r, -, exit, -, rfl⟩, rfl⟩
        rfl
      · simp at destroys

/-- When a destruction destroys all fields: the body of the destructor runs to the
end and the fields destroyed behind it are those of a class type, all of them
set; or there are no such fields. -/
def Destructible (m : Module) (classes : List ClassDecl) (cls : Option String)
    (runtimeClass : String) (isSet : FieldDecl → Prop) (fallsThrough : Prop) : Prop :=
  ∃ fields, AllFields classes runtimeClass fields ∧
    (fallsThrough → m.destroyedFields cls = (classFields classes fields).reverse ∧
      ∀ f ∈ classFields classes fields, isSet f.1) ∧
    (¬fallsThrough → classFields classes fields = [])

end Lemmas

def destructor (name : String) (body : List Stmt) : ClassMember :=
  .func { loc := ⟨1, 1⟩, returnType := { name := "void" }, name := name, params := [],
          body := some body, isDtor := true }

def car (body : List Stmt) : ClassDecl where
  name := "Car"
  members := [.field { type := { name := "Engine" }, name := "engine" }, destructor "Car" body]

def garage (body : List Stmt) : Program where
  decls :=
    [.cls { name := "Engine", members := [destructor "Engine" [.expr (.this (-1))]] },
     .cls (car body)]
  stmts := []

def quietWorld : World Unit where
  op _ w := (.ok, w)
  choose _ w := (0, w)

end Dux.Codegen
