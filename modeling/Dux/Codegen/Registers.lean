import Dux.Codegen.Preserve

/-!
# What the emitted code cleans up

Every clean-up in the code of a body was registered by a declaration in that
body, or in the global scope.  So a property of what the declarations register
is a property of the clean-ups in the code, on every way out of every scope
(`src/codegen/codegen.cpp`, `env_define`, `env_pop`, `emit_all_scope_cleanups`,
`emit_all_str_releases`).
-/

namespace Dux.Codegen

open Emitter (code stop fail seq node fork arms register insideLoop)

/-- A local variable of a body; `deferred` says that a deferred block declares
it. -/
structure Declaration where
  slot : Slot
  type : TypeExpr
  isStatic : Bool
  init : Option Expr
  deferred : Bool

def Declaration.items (ls : Layouts) (d : Declaration) : List Item :=
  declaredItems ls d.type d.isStatic d.slot d.init

def declarators (deferred : Bool) (loc : SourceLoc) (type : TypeExpr) (isStatic : Bool) :
    List VarItem → List Declaration
  | [] => []
  | .mk name init :: ds =>
      ⟨⟨loc, name⟩, type, isStatic, init, deferred⟩ :: declarators deferred loc type isStatic ds

mutual

/-- The variables that a statement declares, outside of lambdas. -/
def declarations (deferred : Bool) : Stmt → List Declaration
  | .varDecl loc type isStatic isThreadLocal decls =>
      if isThreadLocal then [] else declarators deferred loc type isStatic decls
  | .block body | .whileStmt _ _ body | .doWhile body _ | .forIn _ _ _ body
  | .forC _ _ _ _ _ body | .unsafeStmt body => declarationsAll deferred body
  | .ifStmt _ thenBr elseBr => declarationsAll deferred thenBr ++ declarationsElse deferred elseBr
  | .switchStmt _ cases => declarationsCases deferred cases
  | .matchStmt _ arms => declarationsArms deferred arms
  | .tryCatch tryBody _ _ _ catchBody =>
      declarationsAll deferred tryBody ++ declarationsAll deferred catchBody
  | .defer _ body => declarationsAll true body
  | .expr _ | .returnStmt _ | .breakStmt _ | .continueStmt _ | .assertStmt _ | .deleteStmt _
  | .throwStmt _ => []

def declarationsAll (deferred : Bool) : List Stmt → List Declaration
  | [] => []
  | s :: ss => declarations deferred s ++ declarationsAll deferred ss

def declarationsElse (deferred : Bool) : ElseBr → List Declaration
  | .none => []
  | .block body => declarationsAll deferred body
  | .elif _ thenBr elseBr => declarationsAll deferred thenBr ++ declarationsElse deferred elseBr

def declarationsCase (deferred : Bool) : SwitchCase → List Declaration
  | .mk _ body => declarationsAll deferred body

def declarationsCases (deferred : Bool) : List SwitchCase → List Declaration
  | [] => []
  | c :: cs => declarationsCase deferred c ++ declarationsCases deferred cs

def declarationsArm (deferred : Bool) : MatchArm → List Declaration
  | .mk _ body => declarationsAll deferred body

def declarationsArms (deferred : Bool) : List MatchArm → List Declaration
  | [] => []
  | a :: as => declarationsArm deferred a ++ declarationsArms deferred as

end

section Rules

variable (A : Item → Prop)

/-- A clean-up in the code is an admitted one. -/
def Op.Follows : Op → Prop
  | .cleanup c => A (.cleanup c)
  | .releaseStr slot => A (.str slot)
  | _ => True

/-- Only admitted clean-ups in this code. -/
def Follow (is : List Instr) : Prop := ∀ o ∈ opsOf is, o.Follows A

structure Frame.Admits (frame : Frame) : Prop where
  cleanups : ∀ c ∈ frame.cleanups, A (.cleanup c)
  strs : ∀ slot ∈ frame.strs, A (.str slot)

def Ctx.Admits (ctx : Ctx) : Prop := ∀ frame ∈ ctx.scopes, frame.Admits A

/-- A way of putting code together that keeps a property of code.  `P live` is
about code whose end is reached if `live`, and never otherwise. -/
structure CodeRules (P : Bool → List Instr → Prop) : Prop where
  nil : P true []
  append : ∀ {live is js}, P true is → P live js → P live (is ++ js)
  op : ∀ {o : Op}, o.Follows A → P true [.op o]
  push : P true [.mark .push]
  register : ∀ e, P true [.mark (.register e)]
  run : ∀ e, P true [.mark (.run e)]
  leave : ∀ {kept is}, P true is →
    P true (.mark (.leaving .leave kept) :: (is ++ [.mark .left]))
  abandon : ∀ {kept is}, P false is → P false (.mark (.leaving .leave kept) :: is)
  jump : ∀ {kept k toHeader is}, P true is →
    P false (.mark (.leaving .jump kept) :: (is ++ [.mark .left, .br k toHeader]))
  ret : ∀ {kept is}, P true is → P false (.mark (.leaving .ret kept) :: (is ++ [.mark .left, .ret]))
  raise : P false [.raise]
  escape : P false [.escape]
  abort : P false [.abort]
  branch : ∀ {c arms}, (∀ is ∈ arms, ∃ live, P live is) → P true [.branch c arms]
  loop : ∀ {bodyFirst test c live body next}, P true test → P live body → P true next →
    P true [.loop bodyFirst test c body next]
  switch : ∀ {c cases}, (∀ is ∈ cases, ∃ live, P live is) → P true [.switch c cases]
  tryCatch : ∀ {body final pad exit handler live live' live''}, P live body → P true pad →
    P live' exit → P live'' handler →
      P true [.tryCatch body final (pad ++ [.mark .left]) exit handler]

variable (P : Bool → List Instr → Prop)

/-- Where only admitted items are registered, only those get registered, and the
code has the property. -/
def Emits (e : Emitter) : Prop :=
  ∀ ctx r, ctx.Admits A → e ctx = some r → r.ctx.Admits A ∧ P r.live r.code

variable {A P}

theorem CodeRules.cons (rules : CodeRules A P) {live : Bool} {i : Instr} {is : List Instr}
    (first : P true [i]) (rest : P live is) : P live (i :: is) :=
  rules.append first rest

theorem CodeRules.ops (rules : CodeRules A P) {os : List Op} (follows : ∀ o ∈ os, o.Follows A) :
    P true (os.map .op) := by
  induction os with
  | nil => exact rules.nil
  | cons o os ih =>
      exact rules.cons (rules.op (follows o (by simp)))
        (ih fun o' member => follows o' (by simp [member]))

variable {e e' : Emitter}

theorem emits_code {is : List Instr} (holds : P true is) : Emits A P (code is) := by
  rintro ctx _ admits ⟨⟩
  exact ⟨admits, holds⟩

theorem emits_stop {is : List Instr} (holds : P false is) : Emits A P (stop is) := by
  rintro ctx _ admits ⟨⟩
  exact ⟨admits, holds⟩

theorem emits_fail : Emits A P fail := by
  rintro ctx _ _ ⟨⟩

theorem Emits.seq (rules : CodeRules A P) (first : Emits A P e) (second : Emits A P e') :
    Emits A P (seq e e') := by
  intro ctx r admits emits
  obtain ⟨r₁, ran, rest⟩ := Option.bind_eq_some_iff.1 emits
  obtain ⟨admits₁, holds₁⟩ := first ctx r₁ admits ran
  cases live : r₁.live with
  | false =>
      rw [live] at rest
      cases rest
      exact ⟨admits₁, holds₁⟩
  | true =>
      rw [live] at rest holds₁
      obtain ⟨r₂, ran₂, rest⟩ := Option.bind_eq_some_iff.1 rest
      obtain ⟨admits₂, holds₂⟩ := second r₁.ctx r₂ admits₁ ran₂
      cases rest
      exact ⟨admits₂, rules.append holds₁ holds₂⟩

theorem Emits.node {make : List Instr → List Instr}
    (making : ∀ live is, P live is → P true (make is)) (inner : Emits A P e) :
    Emits A P (node make e) := by
  intro ctx r admits emits
  obtain ⟨r', ran, rest⟩ := Option.bind_eq_some_iff.1 emits
  cases rest
  exact ⟨(inner ctx r' admits ran).1, making _ _ (inner ctx r' admits ran).2⟩

theorem Ctx.Admits.of_scopes {ctx ctx' : Ctx} (admits : ctx.Admits A)
    (same : ctx'.scopes = ctx.scopes) : ctx'.Admits A := fun frame member =>
  admits frame (same ▸ member)

theorem Emits.insideLoop {hasHeader : Bool} {label : String} (inner : Emits A P e) :
    Emits A P (insideLoop hasHeader label e) := by
  intro ctx r admits emits
  obtain ⟨r', ran, rest⟩ := Option.bind_eq_some_iff.1 emits
  cases rest
  obtain ⟨admits', holds⟩ := inner (ctx.inLoop hasHeader label) r' (admits.of_scopes rfl) ran
  exact ⟨admits'.of_scopes rfl, holds⟩

theorem holds_arms {each : List Emitter} (inner : ∀ e ∈ each, Emits A P e) {ctx ctx' : Ctx}
    {codes : List (List Instr)} (admits : ctx.Admits A)
    (emits : arms each ctx = some (codes, ctx')) :
    ctx'.Admits A ∧ ∀ is ∈ codes, ∃ live, P live is := by
  induction each generalizing ctx ctx' codes with
  | nil =>
      cases emits
      exact ⟨admits, nofun⟩
  | cons e each ih =>
      obtain ⟨r, ran, rest⟩ := Option.bind_eq_some_iff.1 emits
      obtain ⟨⟨codes', ctx''⟩, ran', same⟩ := Option.bind_eq_some_iff.1 rest
      obtain ⟨admits', holds⟩ := inner e (by simp) ctx r admits ran
      obtain ⟨admits'', holds'⟩ := ih (fun e' member => inner e' (by simp [member])) admits' ran'
      cases same
      exact ⟨admits'', List.forall_mem_cons.2 ⟨⟨_, holds⟩, holds'⟩⟩

theorem Emits.fork {make : List (List Instr) → Instr} {each : List Emitter}
    (making : ∀ codes, (∀ is ∈ codes, ∃ live, P live is) → P true [make codes])
    (inner : ∀ e ∈ each, Emits A P e) : Emits A P (fork make each) := by
  intro ctx r admits emits
  obtain ⟨⟨codes, ctx'⟩, ran, rest⟩ := Option.bind_eq_some_iff.1 emits
  obtain ⟨admits', holds⟩ := holds_arms inner admits ran
  cases rest
  exact ⟨admits', making codes holds⟩

theorem Frame.Admits.add {frame : Frame} (admits : frame.Admits A) {x : Item} (admitted : A x) :
    (frame.add x).Admits A := by
  cases x with
  | cleanup c =>
      refine ⟨fun c' member => ?_, admits.strs⟩
      rcases List.mem_append.1 member with before | new
      · exact admits.cleanups c' before
      · rw [List.mem_singleton.1 new]
        exact admitted
  | str slot =>
      refine ⟨admits.cleanups, fun slot' member => ?_⟩
      rcases List.mem_append.1 member with before | new
      · exact admits.strs slot' before
      · rw [List.mem_singleton.1 new]
        exact admitted

theorem Frame.Admits.addAll {frame : Frame} (admits : frame.Admits A) {xs : List Item}
    (admitted : ∀ x ∈ xs, A x) : (xs.foldl Frame.add frame).Admits A := by
  induction xs generalizing frame with
  | nil => exact admits
  | cons x xs ih =>
      exact ih (admits.add (admitted x (by simp))) fun x' member => admitted x' (by simp [member])

theorem Ctx.Admits.register {ctx : Ctx} (admits : ctx.Admits A) {x : Item} (admitted : A x) :
    (ctx.register x).Admits A := by
  obtain ⟨scopes, loops⟩ := ctx
  cases scopes with
  | nil => exact admits
  | cons top rest =>
      intro frame member
      rcases List.mem_cons.1 member with rfl | below
      · exact (admits top (by simp)).add admitted
      · exact admits frame (List.mem_cons_of_mem _ below)

theorem emits_register (rules : CodeRules A P) {x : Item} (admitted : A x) :
    Emits A P (register x) := by
  rintro ctx _ admits ⟨⟩
  exact ⟨admits.register admitted, rules.register _⟩

theorem Ctx.Admits.push {ctx : Ctx} (admits : ctx.Admits A) : ctx.push.Admits A := by
  intro frame member
  rcases List.mem_cons.1 member with rfl | below
  · exact ⟨nofun, nofun⟩
  · exact admits frame below

theorem Ctx.Admits.pop {ctx : Ctx} (admits : ctx.Admits A) : ctx.pop.Admits A := fun frame member =>
  admits frame (List.mem_of_mem_tail member)

theorem Ctx.Admits.top {ctx : Ctx} (admits : ctx.Admits A) : ctx.top.Admits A := by
  obtain ⟨scopes, loops⟩ := ctx
  cases scopes with
  | nil => exact ⟨nofun, nofun⟩
  | cons top rest => exact admits top (by simp)

/-- What is emitted for deferred blocks that are admitted. -/
def Bodies (A : Item → Prop) (P : Bool → List Instr → Prop) (D : List Stmt → Emitter) : Prop :=
  ∀ loc body, A (.cleanup (.deferBody loc body)) → Emits A P (D body)

variable {D : List Stmt → Emitter}

section Cleanups

variable (rules : CodeRules A P)

include rules

theorem holds_releaseStrs {slots : List Slot} (admitted : ∀ slot ∈ slots, A (.str slot)) :
    P true (releaseStrs slots) := by
  induction slots with
  | nil => exact rules.nil
  | cons slot slots ih =>
      have here : P true [.mark (.run (.str slot)), .op (.releaseStr slot)] :=
        rules.cons (rules.run _) (rules.op (admitted slot (by simp)))
      exact rules.append here (ih fun slot' member => admitted slot' (by simp [member]))

theorem Emits.enterScope (inner : Emits A P e) : Emits A P (enterScope e) := by
  intro ctx r admits emits
  exact (emits_code rules.push).seq rules inner ctx.push r admits.push emits

variable (bodies : Bodies A P D)

include bodies

theorem emits_scopeCleanup {c : ScopeCleanup} (admitted : A (.cleanup c)) :
    Emits A P (emitScopeCleanup D c) := by
  cases c with
  | deferBody loc body => exact (emits_code (rules.run _)).seq rules (bodies loc body admitted)
  | dtor | release | call => exact emits_code (rules.cons (rules.run _) (rules.op admitted))

theorem emits_scopeCleanups {cs : List ScopeCleanup} (admitted : ∀ c ∈ cs, A (.cleanup c)) :
    Emits A P (emitScopeCleanups D cs) := by
  induction cs with
  | nil => exact emits_code rules.nil
  | cons c cs ih =>
      exact (emits_scopeCleanup rules bodies (admitted c (by simp))).seq rules
        (ih fun c' member => admitted c' (by simp [member]))

theorem emits_allScopeCleanups : Emits A P (emitAllScopeCleanups D) := by
  intro ctx r admits emits
  refine emits_scopeCleanups rules bodies (fun c member => ?_) ctx r admits emits
  obtain ⟨frame, inScopes, inFrame⟩ := List.mem_flatMap.1 member
  exact (admits frame inScopes).cleanups c (List.mem_reverse.1 inFrame)

theorem emitAll_code {ctx : Ctx} {r : Emitted} (admits : ctx.Admits A)
    (emits : emitAll D ctx = some r) :
    r.ctx.Admits A ∧ r.live = true ∧ ∃ is, P true is ∧ r.code = is ++ [.mark .left] := by
  obtain ⟨r', ran, rest⟩ := Option.bind_eq_some_iff.1 emits
  obtain ⟨admits', holds⟩ := emits_allScopeCleanups rules bodies ctx r' admits ran
  split at rest
  · next live =>
      rw [live] at holds
      cases rest
      refine ⟨admits', rfl, _, rules.append holds
        (holds_releaseStrs rules fun slot member => ?_), rfl⟩
      obtain ⟨frame, inScopes, inFrame⟩ := List.mem_flatMap.1 member
      exact (admits' frame inScopes).strs slot inFrame
  · cases rest

theorem emits_envPop : Emits A P (envPop D) := by
  intro ctx r admits emits
  obtain ⟨r', ran, rest⟩ := Option.bind_eq_some_iff.1 emits
  obtain ⟨admits', holds⟩ := emits_scopeCleanups rules bodies
    (fun c member => admits.top.cleanups c (List.mem_reverse.1 member)) ctx r' admits ran
  dsimp only at rest
  split at rest
  · next live =>
      rw [live] at holds
      cases rest
      exact ⟨admits', rules.leave (rules.append holds (holds_releaseStrs rules admits'.top.strs))⟩
  · next dead =>
      split at rest
      · cases rest
        rw [Bool.not_eq_true] at dead
        rw [dead] at holds
        exact ⟨admits', rules.abandon holds⟩
      · cases rest

theorem Emits.withScope (inner : Emits A P e) : Emits A P (withScope D e) := by
  intro ctx r admits emits
  obtain ⟨r', ran, rest⟩ := Option.bind_eq_some_iff.1 emits
  obtain ⟨admits', holds⟩ :=
    (inner.enterScope rules).seq rules (emits_envPop rules bodies) ctx r' admits ran
  cases rest
  exact ⟨admits'.pop, holds⟩

theorem emits_jump {kind : LeaveKind} {kept : Nat} {jump : Instr}
    (holds : ∀ is, P true is →
      P false (.mark (.leaving kind kept) :: (is ++ [.mark .left, jump]))) :
    Emits A P (emitJump D kind kept jump) := by
  intro ctx r admits emits
  have behind : (Emitter.seq (emitAll D) (stop [jump]) ctx).bind (fun after =>
      some ⟨[.mark (.leaving kind kept)] ++ after.code, after.ctx, after.live⟩) = some r := emits
  obtain ⟨after, ran, rest⟩ := Option.bind_eq_some_iff.1 behind
  obtain ⟨all, ran, last⟩ := Option.bind_eq_some_iff.1 ran
  obtain ⟨admits', live, is, inside, code⟩ := emitAll_code rules bodies admits ran
  rw [live] at last
  cases last
  cases rest
  refine ⟨admits', ?_⟩
  simpa [code, List.append_assoc] using holds is inside

theorem emits_return (kept : Nat) : Emits A P (emitJump D .ret kept .ret) :=
  emits_jump rules bodies fun _ => rules.ret

theorem emits_break (toHeader : Bool) (label : Option String) :
    Emits A P (emitBreak D toHeader label) := by
  intro ctx r admits emits
  unfold emitBreak at emits
  split at emits
  · exact emits_code rules.nil ctx r admits emits
  · cases emits
  · exact emits_jump rules bodies (fun _ => rules.jump) ctx r admits emits

theorem Emits.tryCatch (inBody : Emits A P e) (handles : Emits A P e') :
    Emits A P (emitTryCatch D e e') := by
  intro ctx r admits emits
  obtain ⟨b, ran, rest⟩ := Option.bind_eq_some_iff.1 emits
  obtain ⟨pad, ranPad, rest⟩ := Option.bind_eq_some_iff.1 rest
  obtain ⟨exit, ranExit, rest⟩ := Option.bind_eq_some_iff.1 rest
  obtain ⟨h, ranHandler, rest⟩ := Option.bind_eq_some_iff.1 rest
  obtain ⟨admitsBody, holdsBody⟩ := inBody.enterScope rules ctx b admits ran
  obtain ⟨admitsPad, _, is, holdsPad, padCode⟩ := emitAll_code rules bodies admitsBody ranPad
  -- behind a body that never ends nothing is popped
  have popped : exit.ctx.Admits A ∧ ∃ live, P live exit.code := by
    unfold popTry at ranExit
    split at ranExit
    · obtain ⟨admitsExit, holdsExit⟩ := emits_envPop rules bodies pad.ctx exit admitsPad ranExit
      exact ⟨admitsExit, _, holdsExit⟩
    · cases ranExit
      exact ⟨admitsPad, _, rules.nil⟩
  obtain ⟨admitsExit, _, holdsExit⟩ := popped
  obtain ⟨admitsHandler, holdsHandler⟩ := handles exit.ctx.pop h admitsExit.pop ranHandler
  cases rest
  rw [padCode]
  exact ⟨admitsHandler, rules.tryCatch holdsBody holdsPad holdsExit holdsHandler⟩

end Cleanups

end Rules

/-! ## Only admitted clean-ups -/

section Follow

variable {A : Item → Prop}

theorem opsOf_append (is js : List Instr) : opsOf (is ++ js) = opsOf is ++ opsOf js := by
  induction is with
  | nil => rfl
  | cons i is ih => simp [opsOf, ih]

theorem follow_nil : Follow A [] := fun _ member => by cases member

theorem Follow.append {is js : List Instr} (first : Follow A is) (second : Follow A js) :
    Follow A (is ++ js) := by
  intro o member
  rw [opsOf_append, List.mem_append] at member
  exact member.elim (first o) (second o)

theorem Follow.cons {i : Instr} {is : List Instr} (first : ∀ o ∈ i.ops, o.Follows A)
    (rest : Follow A is) : Follow A (i :: is) := by
  intro o member
  rw [opsOf, List.mem_append] at member
  exact member.elim (first o) (rest o)

theorem follow_single {i : Instr} (ops : ∀ o ∈ i.ops, o.Follows A) : Follow A [i] :=
  .cons ops follow_nil

theorem follow_leaf {i : Instr} (none : i.ops = []) : Follow A [i] :=
  follow_single fun o member => by
    rw [none] at member
    cases member

theorem follow_arms {arms : List (List Instr)} (each : ∀ is ∈ arms, ∃ _ : Bool, Follow A is) :
    ∀ o ∈ armOps arms, o.Follows A := by
  induction arms with
  | nil => exact fun _ member => by cases member
  | cons is arms ih =>
      intro o member
      obtain ⟨_, follow⟩ := each is (by simp)
      rcases List.mem_append.1 member with here | later
      · exact follow o here
      · exact ih (fun is' inArms => each is' (by simp [inArms])) o later

theorem followRules (A : Item → Prop) : CodeRules A fun _ => Follow A where
  nil := follow_nil
  append := .append
  op follows := follow_single fun _ member => by
    rw [List.mem_singleton.1 member]
    exact follows
  push := follow_leaf rfl
  register _ := follow_leaf rfl
  run _ := follow_leaf rfl
  leave inside := .cons nofun (inside.append (follow_leaf rfl))
  abandon inside := .cons nofun inside
  jump inside := .cons nofun (inside.append (.cons nofun (follow_leaf rfl)))
  ret inside := .cons nofun (inside.append (.cons nofun (follow_leaf rfl)))
  raise := follow_leaf rfl
  escape := follow_leaf rfl
  abort := follow_leaf rfl
  branch each := follow_single (follow_arms each)
  switch each := follow_single (follow_arms each)
  loop testing inBody advancing := follow_single fun o member => by
    simp only [Instr.ops, List.mem_append] at member
    rcases member with (inTest | inBody') | inNext
    · exact testing o inTest
    · exact inBody o inBody'
    · exact advancing o inNext
  tryCatch inBody inPad inExit inHandler := follow_single fun o member => by
    simp only [Instr.ops, List.mem_append] at member
    rcases member with ((body | pad) | exit) | handler
    · exact inBody o body
    · exact inPad.append (follow_leaf rfl) o pad
    · exact inExit o exit
    · exact inHandler o handler

end Follow

/-! ## Statements -/

section Statements

variable {A : Item → Prop} {P : Bool → List Instr → Prop} {ls : Layouts}

/-- What the declarations of a body register is admitted. -/
def Admitted (A : Item → Prop) (ls : Layouts) (ds : List Declaration) : Prop :=
  ∀ d ∈ ds, ∀ x ∈ d.items ls, A x

theorem admitted_append {ds ds' : List Declaration} :
    Admitted A ls (ds ++ ds') ↔ Admitted A ls ds ∧ Admitted A ls ds' := List.forall_mem_append

/-- A deferred block is admitted if what it declares is. -/
structure Admissible (A : Item → Prop) (ls : Layouts) : Prop where
  endCatch : A (.cleanup (.call "__cxa_end_catch"))
  deferBody : ∀ loc body,
    A (.cleanup (.deferBody loc body)) ↔ Admitted A ls (declarationsAll true body)

section Statement

variable (rules : CodeRules A P)

include rules

theorem emits_registerAll {xs : List Item} (admitted : ∀ x ∈ xs, A x) :
    Emits A P (registerAll xs) := by
  induction xs with
  | nil => exact emits_code rules.nil
  | cons x xs ih =>
      exact (emits_register rules (admitted x (by simp))).seq rules
        (ih fun x' member => admitted x' (by simp [member]))

theorem holds_initialise (isStatic : Bool) (slot : Slot) (init : Option Expr) :
    P true (initialise isStatic slot init) := by
  cases init with
  | none =>
      cases isStatic with
      | true => exact rules.nil
      | false => exact rules.op (by trivial)
  | some e =>
      have store : P true [.op (.eval e), .op (.declare slot)] :=
        rules.cons (rules.op (by trivial)) (rules.op (by trivial))
      cases isStatic with
      | true => exact rules.branch (List.forall_mem_cons.2 ⟨⟨_, store⟩, nofun⟩)
      | false => exact store

theorem emits_genVarDecl (deferred : Bool) {loc : SourceLoc} {type : TypeExpr} {isStatic : Bool}
    {decls : List VarItem}
    (admitted : Admitted A ls (declarators deferred loc type isStatic decls)) :
    Emits A P (genVarDecl ls loc type isStatic decls) := by
  induction decls with
  | nil => exact emits_code rules.nil
  | cons d ds ih =>
      obtain ⟨name, init⟩ := d
      obtain ⟨here, rest⟩ := List.forall_mem_cons.1 admitted
      exact (emits_code (holds_initialise rules _ _ _)).seq rules
        ((emits_registerAll rules here).seq rules (ih rest))

theorem emits_matchArms {arms : List (MatchPattern × Emitter)}
    (inner : ∀ a ∈ arms, Emits A P a.2) : ∀ e ∈ matchArms ls arms, Emits A P e := by
  intro e member
  rcases List.mem_append.1 member with cased | last
  · obtain ⟨a, filtered, rfl⟩ := List.mem_map.1 cased
    exact inner a (List.mem_of_mem_filter filtered)
  · split at last
    next a found =>
      rw [List.mem_singleton.1 last]
      exact inner a (List.mem_of_mem_filter (List.mem_of_getLast? found))
    next =>
      split at last
      · rw [List.mem_singleton.1 last]
        exact emits_code rules.nil
      · rw [List.mem_singleton.1 last]
        exact emits_stop rules.abort

theorem emits_forIn (varName : String) (iterable : Expr) {body : Emitter}
    (inner : Emits A P body) : Emits A P (emitForIn varName iterable body) := by
  have looping : ∀ live is, P live is →
      P true [.loop false [] (.more iterable) is [.op (.loopStep varName)]] := fun _ _ holds =>
    rules.loop rules.nil holds (rules.op (by trivial))
  unfold emitForIn
  split
  · rename_i bounds _
    have evals : P true ((bounds.map Op.eval).map .op) := rules.ops fun o member => by
      obtain ⟨e, _, rfl⟩ := List.mem_map.1 member
      trivial
    have start : P true (bounds.map (fun e => .op (.eval e)) ++ [.op (.loopInit varName)]) :=
      rules.append (by simpa [Function.comp_def] using evals) (rules.op (by trivial))
    exact (emits_code start).seq rules (.node looping inner.insideLoop)
  · have start : P true [.op (.eval iterable), .op (.loopInit varName)] :=
      rules.cons (rules.op (by trivial)) (rules.op (by trivial))
    exact (emits_code start).seq rules
      (.node looping ((emits_code (rules.op (by trivial))).seq rules inner.insideLoop))
  · exact .node (fun _ _ _ => rules.nil) inner.insideLoop

theorem holds_catchCheck (catchType : Option TypeExpr) : P true (catchCheck catchType) := by
  unfold catchCheck
  split
  · split
    · exact rules.branch (List.forall_mem_cons.2
        ⟨⟨_, rules.escape⟩, List.forall_mem_singleton.2 ⟨_, rules.nil⟩⟩)
    · exact rules.nil
  · exact rules.nil

theorem holds_caseValues (cases : List SwitchCase) : P true (caseValues cases) := by
  induction cases with
  | nil => exact rules.nil
  | cons c cs ih =>
      obtain ⟨value, body⟩ := c
      cases value with
      | none => exact ih
      | some e => exact rules.cons (rules.op (by trivial)) ih

end Statement

variable {D : List Stmt → Emitter}

/-- The property and what is emitted for deferred blocks fit together. -/
structure Fits (A : Item → Prop) (P : Bool → List Instr → Prop) (ls : Layouts)
    (D : List Stmt → Emitter) : Prop extends Admissible A ls where
  rules : CodeRules A P
  bodies : Bodies A P D

theorem emits_handler (fits : Fits A P ls D)
    (catchType : Option TypeExpr) (catchVar : Option String)
    {catchBody : Emitter} (inner : Emits A P catchBody) :
    Emits A P (emitHandler D catchType catchVar catchBody) := by
  obtain ⟨admissible, rules, bodies⟩ := fits
  have binds : P true (catchVar.toList.map fun v => .op (.bindCatch v)) := by
    cases catchVar with
    | none => exact rules.nil
    | some v => exact rules.op (by trivial)
  have entering := rules.append (holds_catchCheck rules catchType) binds
  have registered := (emits_register rules admissible.endCatch).seq rules
    (inner.withScope rules bodies)
  exact (emits_code (rules.op (by trivial))).seq rules
    (.withScope rules bodies ((emits_code entering).seq rules registered))

mutual

theorem emits_genStmt (fits : Fits A P ls D) (deferred : Bool) :
    ∀ s : Stmt, Admitted A ls (declarations deferred s) → Emits A P (genStmt ls D s)
  | .block body, admitted =>
      (emits_genStmts fits deferred body admitted).withScope fits.rules fits.bodies
  | .expr e, _ => emits_code (fits.rules.op (by trivial))
  | .varDecl loc type isStatic isThreadLocal decls, admitted => by
      cases isThreadLocal with
      | true => exact emits_code fits.rules.nil
      | false => exact emits_genVarDecl fits.rules deferred admitted
  | .ifStmt cond thenBr elseBr, admitted => by
      obtain ⟨inThen, inElse⟩ := admitted_append.1 admitted
      refine (emits_code (fits.rules.op (by trivial))).seq fits.rules
        (.fork (fun _ => fits.rules.branch) ?_)
      have whenThen :=
        (emits_genStmts fits deferred thenBr inThen).withScope fits.rules fits.bodies
      have whenElse := emits_genElse fits deferred elseBr inElse
      exact List.forall_mem_cons.2 ⟨whenThen, List.forall_mem_cons.2 ⟨whenElse, nofun⟩⟩
  | .whileStmt label cond body, admitted =>
      .node (fun _ _ holds => fits.rules.loop (fits.rules.op (by trivial)) holds fits.rules.nil)
        ((emits_genStmts fits deferred body admitted).withScope
          fits.rules fits.bodies).insideLoop
  | .doWhile body cond, admitted =>
      .node (fun _ _ holds => fits.rules.loop (fits.rules.op (by trivial)) holds fits.rules.nil)
        ((emits_genStmts fits deferred body admitted).withScope
          fits.rules fits.bodies).insideLoop
  | .forIn _ varName iterable body, admitted =>
      .withScope fits.rules fits.bodies (emits_forIn fits.rules varName iterable
        ((emits_genStmts fits deferred body admitted).withScope fits.rules fits.bodies))
  | .forC _ varName init cond incr body, admitted => by
      have start : P true [.op (.eval init), .op (.loopInit varName)] :=
        fits.rules.cons (fits.rules.op (by trivial)) (fits.rules.op (by trivial))
      refine .withScope fits.rules fits.bodies ((emits_code start).seq fits.rules
        (.node (fun _ _ holds => fits.rules.loop (fits.rules.op (by trivial)) holds
          (fits.rules.op (by trivial))) ?_))
      exact ((emits_genStmts fits deferred body admitted).withScope
        fits.rules fits.bodies).insideLoop
  | .switchStmt e cases, admitted =>
      (emits_code (fits.rules.append (holds_caseValues fits.rules cases)
        (fits.rules.op (by trivial)))).seq fits.rules
        (Emits.fork (fun _ => fits.rules.switch)
          (emits_genCases fits deferred cases admitted)).insideLoop
  | .matchStmt e arms, admitted =>
      (emits_code (fits.rules.op (by trivial))).seq fits.rules
        (.fork (fun _ => fits.rules.branch)
          (emits_matchArms fits.rules (emits_genArms fits deferred arms admitted)))
  | .tryCatch tryBody _ catchType catchVar catchBody, admitted => by
      obtain ⟨inTry, inCatch⟩ := admitted_append.1 admitted
      exact .tryCatch fits.rules fits.bodies (emits_genStmts fits deferred tryBody inTry)
        (emits_handler fits catchType catchVar
          (emits_genStmts fits deferred catchBody inCatch))
  | .returnStmt value, _ => by
      refine (emits_code ?_).seq fits.rules (emits_return fits.rules fits.bodies 1)
      cases value with
      | none => exact fits.rules.nil
      | some e => exact fits.rules.cons (fits.rules.op (by trivial)) (fits.rules.op (by trivial))
  | .breakStmt label, _ => emits_break fits.rules fits.bodies false label
  | .continueStmt label, _ => emits_break fits.rules fits.bodies true label
  | .assertStmt cond, _ =>
      emits_code (fits.rules.cons (fits.rules.op (by trivial)) (fits.rules.branch
        (List.forall_mem_cons.2 ⟨⟨_, fits.rules.nil⟩,
          List.forall_mem_cons.2 ⟨⟨_, fits.rules.abort⟩, nofun⟩⟩)))
  | .deleteStmt e, _ => emits_code (fits.rules.op (by trivial))
  | .defer loc body, admitted => emits_register fits.rules ((fits.deferBody loc body).2 admitted)
  | .throwStmt e, _ =>
      (emits_code (fits.rules.op (by trivial))).seq fits.rules (emits_stop fits.rules.raise)
  | .unsafeStmt body, admitted => emits_genStmts fits deferred body admitted

theorem emits_genStmts (fits : Fits A P ls D) (deferred : Bool) :
    ∀ ss : List Stmt, Admitted A ls (declarationsAll deferred ss) → Emits A P (genStmts ls D ss)
  | [], _ => emits_code fits.rules.nil
  | s :: ss, admitted => by
      obtain ⟨here, rest⟩ := admitted_append.1 admitted
      exact (emits_genStmt fits deferred s here).seq fits.rules
        (emits_genStmts fits deferred ss rest)

theorem emits_genElse (fits : Fits A P ls D) (deferred : Bool) :
    ∀ br : ElseBr, Admitted A ls (declarationsElse deferred br) → Emits A P (genElse ls D br)
  | .none, _ => emits_code fits.rules.nil
  | .block body, admitted =>
      (emits_genStmts fits deferred body admitted).withScope fits.rules fits.bodies
  | .elif cond thenBr elseBr, admitted => by
      obtain ⟨inThen, inElse⟩ := admitted_append.1 admitted
      refine (emits_code (fits.rules.op (by trivial))).seq fits.rules
        (.fork (fun _ => fits.rules.branch) ?_)
      have whenThen :=
        (emits_genStmts fits deferred thenBr inThen).withScope fits.rules fits.bodies
      have whenElse := emits_genElse fits deferred elseBr inElse
      exact List.forall_mem_cons.2 ⟨whenThen, List.forall_mem_cons.2 ⟨whenElse, nofun⟩⟩

theorem emits_genCases (fits : Fits A P ls D) (deferred : Bool) :
    ∀ cs : List SwitchCase, Admitted A ls (declarationsCases deferred cs) →
      ∀ e ∈ genCases ls D cs, Emits A P e
  | [], _ => nofun
  | c :: cs, admitted => by
      obtain ⟨here, rest⟩ := admitted_append.1 admitted
      exact List.forall_mem_cons.2
        ⟨emits_genCase fits deferred c here, emits_genCases fits deferred cs rest⟩

theorem emits_genCase (fits : Fits A P ls D) (deferred : Bool) :
    ∀ c : SwitchCase, Admitted A ls (declarationsCase deferred c) → Emits A P (genCase ls D c)
  | .mk _ body, admitted =>
      (emits_genStmts fits deferred body admitted).withScope fits.rules fits.bodies

theorem emits_genArms (fits : Fits A P ls D) (deferred : Bool) :
    ∀ as : List MatchArm, Admitted A ls (declarationsArms deferred as) →
      ∀ a ∈ genArms ls D as, Emits A P a.2
  | [], _ => nofun
  | a :: as, admitted => by
      obtain ⟨here, rest⟩ := admitted_append.1 admitted
      exact List.forall_mem_cons.2
        ⟨emits_genArm fits deferred a here, emits_genArms fits deferred as rest⟩

theorem emits_genArm (fits : Fits A P ls D) (deferred : Bool) :
    ∀ a : MatchArm, Admitted A ls (declarationsArm deferred a) → Emits A P (genArm ls D a).2
  | .mk _ body, admitted =>
      .withScope fits.rules fits.bodies ((emits_code (fits.rules.op (by trivial))).seq fits.rules
        (emits_genStmts fits deferred body admitted))

end

theorem admits_globals {globals : List Item} (inGlobals : ∀ x ∈ globals, A x) :
    Ctx.Admits A ⟨[{}, globals.foldl Frame.add {}], []⟩ := by
  intro frame member
  rcases List.mem_cons.1 member with rfl | global
  · exact ⟨nofun, nofun⟩
  · rw [List.mem_singleton.1 global]
    exact Frame.Admits.addAll ⟨nofun, nofun⟩ inGlobals

theorem bodies_genLevel (rules : CodeRules A P) (admissible : Admissible A ls) (n : Nat) :
    Bodies A P (genLevel ls n) := by
  induction n with
  | zero => exact fun _ _ _ => emits_fail
  | succ n ih =>
      intro loc body admitted
      exact emits_genStmts ⟨admissible, rules, ih⟩ true body
        ((admissible.deferBody loc body).1 admitted)

/-- What is emitted for a function whose declarations register only what is
admitted, below globals that are admitted. -/
theorem holds_genFunction (rules : CodeRules A P) (admissible : Admissible A ls) {n : Nat}
    {globals : List Item} {body : List Stmt} {is : List Instr} (inGlobals : ∀ x ∈ globals, A x)
    (inBody : Admitted A ls (declarationsAll false body))
    (emits : genFunction ls n globals body = some is) : ∃ live, P live is := by
  obtain ⟨r, ran, rest⟩ := Option.bind_eq_some_iff.1 emits
  cases rest
  have bodies := bodies_genLevel rules admissible n
  have inner := emits_genStmts ⟨admissible, rules, bodies⟩ false body inBody
  exact ⟨_, (inner.seq rules (emits_return rules bodies 1) _ r (admits_globals inGlobals) ran).2⟩

end Statements

/-! ## The variables that clean-ups are about -/

section Slots

def Item.slot : Item → Option Slot
  | .cleanup (.dtor slot _) | .cleanup (.release slot _) | .str slot => some slot
  | .cleanup (.deferBody _ _) | .cleanup (.call _) => none

variable (ls : Layouts) (P : Slot → Prop)

theorem slot_of_mem_items {d : Declaration} {x : Item} (member : x ∈ d.items ls) :
    x.slot = some d.slot := by
  simp only [Declaration.items, declaredItems, definedItem, List.mem_append] at member
  rcases member with defined | closure
  · split_ifs at defined <;> simp at defined <;> rw [defined] <;> rfl
  · split_ifs at closure <;> simp at closure
    rw [closure]
    rfl

/-- Only such variables are cleaned up, also in a deferred block. -/
def Concerns : Item → Prop
  | .cleanup (.deferBody _ body) =>
      ∀ d ∈ declarationsAll true body, ∀ x ∈ d.items ls, ∀ slot ∈ x.slot, P slot
  | x => ∀ slot ∈ x.slot, P slot

variable {ls P}

theorem concerns_of_mem_items {d : Declaration} {x : Item} (member : x ∈ d.items ls) :
    Concerns ls P x ↔ ∀ slot ∈ x.slot, P slot := by
  have notDeferred : ∀ loc body, x ≠ .cleanup (.deferBody loc body) := by
    rintro loc body rfl
    simp only [Declaration.items, declaredItems, definedItem, List.mem_append] at member
    rcases member with defined | closure
    · split_ifs at defined <;> simp at defined
    · split_ifs at closure <;> simp at closure
  cases x with
  | str slot => rfl
  | cleanup c =>
      cases c with
      | deferBody loc body => exact absurd rfl (notDeferred loc body)
      | dtor | release | call => rfl

theorem admitted_concerns_iff {ds : List Declaration} :
    Admitted (Concerns ls P) ls ds ↔ ∀ d ∈ ds, ∀ x ∈ d.items ls, ∀ slot ∈ x.slot, P slot := by
  constructor
  · exact fun admitted d inList x member =>
      (concerns_of_mem_items member).1 (admitted d inList x member)
  · exact fun each d inList x member =>
      (concerns_of_mem_items member).2 (each d inList x member)

theorem admissible_concerns : Admissible (Concerns ls P) ls where
  endCatch := nofun
  deferBody _ _ := admitted_concerns_iff.symm

end Slots

end Dux.Codegen
