import Dux.Sema.Places

/-!
# Bodies

What checking the bodies of functions and the initialisers of fields does, read off
their text: a property of computations and of what they come to that holds of the checks
that do not recurse, and that sequences, scopes and changes of the flags keep, holds of
all of it.
-/

namespace Dux.Sema

open Logic (keys Moves)

/-- Two states that differ in their flags only. -/
def Flagged (s s' : State) : Prop :=
  s'.types = s.types ∧ s'.scopes = s.scopes ∧ s'.errors = s.errors ∧ s'.warnings = s.warnings

/-- A change of the flags, taken back afterwards. -/
structure Flags (enter : State → State) (leave : State → State → State) : Prop where
  entering : ∀ s, Flagged s (enter s)
  leaving : ∀ saved s, Flagged s (leave saved s)

/-- One that leaves `in_await_` alone. -/
structure OtherFlags (enter : State → State) (leave : State → State → State) : Prop extends
    Flags enter leave where
  inAwait : ∀ s, (enter s).inAwait = s.inAwait
  inAwait' : ∀ saved s, (leave saved s).inAwait = s.inAwait

/-- A property of that kind; `known` is what it assumes of the states that are read. -/
structure Visits (known : State → Prop) (P : {α : Type} → Context → Trail → M α → Prop) : Prop where
  checks : ∀ {α : Type} {ctx : Context} {m : M α}, Checks known True m → P ctx .nothing m
  seq : ∀ {α β : Type} {ctx : Context} {trail : Trail} {m : M α} {next : α → Trail} {f : α → M β},
    P ctx trail m → (∀ a, P ctx (next a) (f a)) → P ctx (trail.seq m next) (m >>= f)
  context : ∀ {α : Type} {ctx ctx' : Context} {trail : Trail} {m : M α},
    ctx.place.awaits = ctx'.place.awaits → P ctx trail m → P ctx' trail m
  inScope : ∀ {α : Type} {ctx : Context} {trail : Trail} {m : M α}, P ctx trail m →
    P ctx trail.inScope (inScope m)
  bracket : ∀ {α : Type} {ctx : Context} {trail : Trail} {m : M α} {enter : State → State}
    {leave : State → State → State}, OtherFlags enter leave → P ctx trail m →
      P ctx (trail.enter enter) (bracket enter leave m)
  await : ∀ {α : Type} {ctx : Context} {trail : Trail} {m : M α}, P ctx.awaited trail m →
    P ctx (trail.enter fun s => { s with inAwait := true }) (insideAwait m)
  named : ∀ (ctx : Context) (sym : Symbol) (n : Nat),
    P ctx (.one (.named ctx sym)) (checkCallable sym n)
  target : ∀ (ctx : Context) (op : AssignOp) (target : Expr) (rhs : TypeId),
    P ctx (.one (.target ctx op target)) (checkAssignIdent op target rhs)
  passed : ∀ {α : Type} {ctx : Context} {trail : Trail} {m : M α} {site : State → Site},
    (∀ s, (site s).isPassed = true) → P ctx trail m → P ctx (trail.cons site) m

namespace Visits

section Rules

variable {α β : Type} {known : State → Prop} {P : {α : Type} → Context → Trail → M α → Prop}
  {ctx : Context} {trail trail' : Trail} {m m' : M α} {f : α → M β} {next : α → Trail}

theorem seq_nothing (trail : Trail) (m : M α) : trail.seq m (fun _ => .nothing) = trail := by
  funext s
  unfold Trail.seq Trail.after
  cases m.run s with
  | none => exact List.append_nil _
  | some result => exact List.append_nil _

theorem before (visits : Visits known P) (first : P ctx trail m)
    (second : ∀ a, Checks known True (f a)) : P ctx trail (m >>= f) := by
  have both := visits.seq first fun a => visits.checks (second a)
  rwa [seq_nothing] at both

theorem after (visits : Visits known P) (first : Checks known True m)
    (second : ∀ a, P ctx (next a) (f a)) : P ctx (.after m next) (m >>= f) :=
  visits.seq (visits.checks first) second

theorem result (visits : Visits known P) {g : α → β} (first : P ctx trail m) :
    P ctx trail (m >>= fun a => pure (g a)) := visits.before first fun _ => .pure _

theorem ite {c : Prop} [Decidable c] (yes : c → P ctx trail m) (no : ¬c → P ctx trail' m') :
    P ctx (if c then trail else trail') (if c then m else m') := by
  by_cases holds : c
  · rw [if_pos holds, if_pos holds]
    exact yes holds
  · rw [if_neg holds, if_neg holds]
    exact no holds

theorem inner (visits : Visits known P) (part : P ctx.inner trail m) : P ctx trail m := by
  apply visits.context _ part
  cases place : ctx.place <;> simp [Context.inner, place, Place.inner, Place.awaits]

theorem nested (visits : Visits known P) {names : List String}
    (inside : P (ctx.enter names) trail m) : P ctx trail.inScope (Sema.inScope m) := by
  have same : (ctx.enter names).place.awaits = ctx.place.awaits := rfl
  exact visits.inScope (visits.context same inside)

theorem beforeSite (visits : Visits known P) {site : α → State → Site}
    (passes : ∀ a s, (site a s).isPassed = true) (first : P ctx trail m)
    (second : ∀ a, Checks known True (f a)) :
    P ctx (trail.seq m fun a => .one (site a)) (m >>= f) :=
  visits.seq first fun a => visits.passed (passes a) (visits.checks (second a))

theorem afterWhen (visits : Visits known P) {c : State → Prop} [∀ s, Decidable (c s)]
    {m : M PUnit} {next : PUnit → M α} (first : Checks known True m)
    (rest : P ctx trail (next ())) :
    P ctx (.after (do if c (← get) then m) fun _ => trail)
      (get >>= fun s => if c s then m >>= next else next ()) := by
  have same : (get >>= fun s => if c s then m >>= next else next ()) =
      (do if c (← get) then m) >>= next := by
    rw [bind_assoc]
    congr 1
    funext s
    split <;> simp
  rw [same]
  exact visits.after (.read fun s _ => checks_when first) fun _ => rest

theorem insideLoop (visits : Visits known P) (inside : P ctx trail m) :
    P ctx trail.looped (insideLoop m) :=
  visits.bracket ⟨⟨fun _ => ⟨rfl, rfl, rfl, rfl⟩, fun _ _ => ⟨rfl, rfl, rfl, rfl⟩⟩, fun _ => rfl,
    fun _ _ => rfl⟩ inside

theorem insideUnsafe (visits : Visits known P) (inside : P ctx trail m) :
    P ctx (trail.enter fun s => { s with inUnsafe := true }) (insideUnsafe m) :=
  visits.bracket ⟨⟨fun _ => ⟨rfl, rfl, rfl, rfl⟩, fun _ _ => ⟨rfl, rfl, rfl, rfl⟩⟩, fun _ => rfl,
    fun _ _ => rfl⟩ inside

theorem returning (visits : Visits known P) (ret : TypeId) (inside : P ctx trail m) :
    P ctx (trail.returning ret) (returning ret m) :=
  visits.bracket ⟨⟨fun _ => ⟨rfl, rfl, rfl, rfl⟩, fun _ _ => ⟨rfl, rfl, rfl, rfl⟩⟩, fun _ => rfl,
    fun _ _ => rfl⟩ inside

end Rules

/-! ## The recursion over syntax -/

section Syntax

variable {known : State → Prop} {P : {α : Type} → Context → Trail → M α → Prop}

mutual

theorem expr (visits : Visits known P) : ∀ (ctx : Context) (e : Expr),
    P ctx (sitesExpr ctx e) (checkExpr e)
  | _, .intLit .. | _, .longLit .. | _, .floatLit .. | _, .realLit .. | _, .stringLit ..
  | _, .boolLit .. | _, .nullLit _ => visits.checks (.pure _)
  | _, .ident _ _ => visits.result (visits.checks (checks_checkIdent _))
  | _, .this _ => visits.result (visits.checks checks_checkThis)
  | _, .super _ => visits.result (visits.checks checks_checkSuper)
  | ctx, .binary _ _ left right =>
      visits.inner (visits.seq (expr visits ctx.inner left) fun _ =>
        visits.before (expr visits ctx.inner right) fun _ =>
          .bind (checks_checkBinary _ _ _) fun _ => .pure _)
  | ctx, .unary _ _ operand _ =>
      visits.inner (visits.beforeSite (fun _ _ => rfl) (expr visits ctx.inner operand) fun _ =>
        .bind (checks_checkUnary _ _) fun _ => .pure _)
  | ctx, .assign _ op target value => by
      refine visits.seq (visits.inner (expr visits ctx.inner value)) fun value => ?_
      refine visits.seq (visits.target _ _ _ _) fun found => ?_
      cases found with
      | some result => exact visits.checks (.pure _)
      | none =>
          exact visits.beforeSite (fun _ _ => rfl) (visits.inner (expr visits ctx.inner target))
            fun _ => .bind (checks_checkAssign _ _ _) fun _ => .pure _
  | ctx, .call _ callee values => by
      rw [sitesExpr, checkExpr]
      cases identName callee with
      | some name =>
          refine visits.after (checks_lookup _) fun found => ?_
          cases found with
          | none =>
              refine visits.inner (visits.after (.err _) fun _ => ?_)
              exact visits.result (exprs visits ctx.inner values)
          | some sym =>
              refine ite (fun _ => ?_) fun _ => ?_
              · exact visits.seq (visits.named _ _ _) fun _ =>
                  visits.inner (visits.result (args visits ctx.inner sym 0 values))
              · refine visits.inner (visits.seq (exprs visits ctx.inner values) fun _ => ?_)
                refine ite (fun _ => visits.checks (.pure _)) fun _ => ?_
                refine visits.after (checks_closureType _) fun closure => ?_
                cases closure with
                | none => exact visits.checks (.pure _)
                | some t =>
                    exact visits.before (exprs visits ctx.inner values) fun _ =>
                      .read fun _ _ => .pure _
      | none =>
          cases stdlibCall callee with
          | some t =>
              exact visits.passed (fun _ => rfl)
                (visits.inner (visits.result (exprs visits ctx.inner values)))
          | none =>
              refine visits.seq (visits.inner (expr visits ctx.inner callee)) fun _ => ?_
              exact visits.passed (fun _ => rfl)
                (visits.inner (visits.result (exprs visits ctx.inner values)))
  | ctx, .member _ object _ => by
      refine visits.inner (visits.after (checks_checkEnumMember _ _) fun found => ?_)
      cases found with
      | some t => exact visits.checks (.pure _)
      | none =>
          exact visits.before (expr visits ctx.inner object) fun _ =>
            .bind (checks_checkMember _ _) fun _ => .pure _
  | ctx, .index _ object index =>
      visits.inner (visits.seq (expr visits ctx.inner object) fun _ =>
        visits.before (expr visits ctx.inner index) fun _ =>
          .bind (checks_checkIndex _ _) fun _ => .pure _)
  | ctx, .new _ _ values =>
      visits.inner (visits.after (checks_checkNew _) fun _ =>
        visits.result (exprs visits ctx.inner values))
  | ctx, .list _ elements => visits.inner (visits.result (exprs visits ctx.inner elements))
  | ctx, .dict _ entries => visits.inner (visits.result (pairs visits ctx.inner entries))
  | ctx, .lambda _ _ body _ _ =>
      visits.inner (visits.before
        (visits.nested (visits.after (checks_defineParams (.inl rfl) _) fun _ =>
          visits.returning _ (stmts visits (ctx.inner.enter _) body)))
        fun _ => .bind (checks_checkLambda _ _ _) fun _ => .pure _)
  | ctx, .await _ operand => visits.result (visits.await (expr visits ctx.awaited operand))

theorem exprs (visits : Visits known P) (ctx : Context) : ∀ es : List Expr,
    P ctx (sitesExprs ctx es) (checkExprs es)
  | [] => visits.checks (.pure _)
  | e :: es => visits.seq (expr visits ctx e) fun _ => visits.result (exprs visits ctx es)

theorem args (visits : Visits known P) (ctx : Context) (sym : Symbol) :
    ∀ (i : Nat) (es : List Expr), P ctx (sitesArgs ctx sym i es) (checkArgs sym i es)
  | _, [] => visits.checks (.pure _)
  | i, e :: es =>
      visits.seq (expr visits ctx e) fun _ => visits.after (checks_checkArg _ _ _) fun _ =>
        visits.result (args visits ctx sym (i + 1) es)

theorem pair (visits : Visits known P) (ctx : Context) : ∀ p : DictPair,
    P ctx (sitesPair ctx p) (checkPair p)
  | .mk key value => visits.seq (expr visits ctx key) fun _ =>
      visits.result (expr visits ctx value)

theorem pairs (visits : Visits known P) (ctx : Context) : ∀ ps : List DictPair,
    P ctx (sitesPairs ctx ps) (checkPairs ps)
  | [] => visits.checks (.pure _)
  | p :: ps => visits.seq (pair visits ctx p) fun _ => visits.result (pairs visits ctx ps)

theorem opt (visits : Visits known P) (ctx : Context) : ∀ e : Option Expr,
    P ctx (sitesOpt ctx e) (checkOpt e)
  | none => visits.checks (.pure _)
  | some e => visits.result (expr visits ctx e)

theorem stmt (visits : Visits known P) (ctx : Context) : ∀ s : Stmt,
    P ctx (sitesStmt ctx s) (checkStmt s)
  | .block body => visits.result (visits.nested (stmts visits ctx.nested body))
  | .expr e => visits.result (expr visits ctx e)
  | .varDecl _ _ _ _ decls =>
      ite (fun _ => visits.checks (.bind (.err _) fun _ => .pure _)) fun _ =>
        visits.after (checks_typeFromTe _) fun _ =>
          visits.after (checks_checkThreadLocal _) fun _ =>
            visits.result (items visits ctx _ _ _ decls)
  | .ifStmt cond thenBr elseBr =>
      visits.seq (expr visits ctx cond) fun _ => visits.after (checks_requireBool _ _) fun _ =>
        visits.seq (visits.nested (stmts visits ctx.nested thenBr)) fun _ =>
          visits.result (branch visits ctx elseBr)
  | .whileStmt _ cond body =>
      visits.seq (expr visits ctx cond) fun _ => visits.after (checks_requireBool _ _) fun _ =>
        visits.result (visits.insideLoop (visits.nested (stmts visits ctx.nested body)))
  | .doWhile body cond =>
      visits.seq (visits.insideLoop (visits.nested (stmts visits ctx.nested body))) fun _ =>
        visits.before (expr visits ctx cond) fun _ =>
          .bind (checks_requireBool _ _) fun _ => .pure _
  | .forIn _ _ iterable body =>
      visits.seq (expr visits ctx iterable) fun _ =>
        visits.after (checks_checkIterable _) fun _ =>
          visits.result (visits.nested (visits.after (checks_defineLoopVar _ _) fun _ =>
            visits.insideLoop (visits.nested (stmts visits (ctx.enter _).nested body))))
  | .forC _ _ init cond incr body =>
      visits.nested (visits.after (checks_defineLoopVar _ _) fun _ =>
        visits.seq (expr visits (ctx.enter _) init) fun _ =>
          visits.after (checks_requireAssignable _ _ _) fun _ =>
            visits.seq (expr visits (ctx.enter _) cond) fun _ =>
              visits.seq (expr visits (ctx.enter _) incr) fun _ => visits.result
                (visits.insideLoop (visits.nested (stmts visits (ctx.enter _).nested body))))
  | .switchStmt e cases =>
      visits.seq (expr visits ctx e) fun _ =>
        visits.result (visits.insideLoop (switchCases visits ctx cases))
  | .matchStmt e arms =>
      visits.seq (expr visits ctx e) fun _ => visits.before (matchArms visits ctx arms) fun _ =>
        .bind (checks_checkScrutinee _ _) fun _ => .pure _
  | .tryCatch tryBody _ _ _ catchBody =>
      visits.seq (visits.nested (stmts visits ctx.nested tryBody)) fun _ =>
        visits.result (visits.nested (visits.after (checks_defineCatchVar _ _ _) fun _ =>
          visits.nested (stmts visits (ctx.enter _).nested catchBody)))
  | .returnStmt value =>
      visits.before (opt visits ctx value) fun _ => .bind (checks_checkReturn _) fun _ => .pure _
  | .breakStmt _ | .continueStmt _ =>
      visits.checks (.read fun _ _ => checks_whenThen (.err _) (.pure _))
  | .assertStmt cond =>
      visits.before (expr visits ctx cond) fun _ =>
        .bind (checks_requireBool _ _) fun _ => .pure _
  | .deleteStmt e =>
      visits.before (expr visits ctx e) fun _ => checks_whenThen (.warn _) (.pure _)
  | .defer _ body => visits.result (stmts visits ctx body)
  | .throwStmt e => visits.result (expr visits ctx e)
  | .unsafeStmt body => visits.result (visits.insideUnsafe (stmts visits ctx body))

theorem stmts (visits : Visits known P) (ctx : Context) : ∀ ss : List Stmt,
    P ctx (sitesStmts ctx ss) (checkStmts ss)
  | [] => visits.checks (.pure _)
  | s :: ss => visits.seq (stmt visits ctx s) fun _ => visits.result (stmts visits ctx ss)

theorem branch (visits : Visits known P) (ctx : Context) : ∀ br : ElseBr,
    P ctx (sitesElse ctx br) (checkElse br)
  | .none => visits.checks (.pure _)
  | .block body => visits.result (visits.nested (stmts visits ctx.nested body))
  | .elif cond thenBr elseBr =>
      visits.seq (expr visits ctx cond) fun _ => visits.after (checks_requireBool _ _) fun _ =>
        visits.seq (visits.nested (stmts visits ctx.nested thenBr)) fun _ =>
          visits.result (branch visits ctx elseBr)

theorem item (visits : Visits known P) (ctx : Context) (isConst isThreadLocal : Bool)
    (declType : TypeId) : ∀ d : VarItem, P ctx (sitesItem ctx isConst isThreadLocal d)
      (checkVarItem isConst isThreadLocal declType d)
  | .mk _ init =>
      visits.after (checks_checkDeclarator _ _ _ _) fun _ =>
        visits.before (opt visits ctx init) fun _ =>
          .bind (checks_defineVar _ _ _ _) fun _ => .pure _

theorem items (visits : Visits known P) (ctx : Context) (isConst isThreadLocal : Bool)
    (declType : TypeId) : ∀ ds : List VarItem,
      P ctx (sitesItems ctx isConst isThreadLocal declType ds)
        (checkVarItems isConst isThreadLocal declType ds)
  | [] => visits.checks (.pure _)
  | d :: ds => visits.seq (item visits ctx _ _ _ d) fun _ =>
      visits.result (items visits ctx _ _ _ ds)

theorem switchCase (visits : Visits known P) (ctx : Context) : ∀ c : SwitchCase,
    P ctx (sitesCase ctx c) (checkCase c)
  | .mk value body => visits.seq (opt visits ctx value) fun _ =>
      visits.result (visits.nested (stmts visits ctx.nested body))

theorem switchCases (visits : Visits known P) (ctx : Context) : ∀ cs : List SwitchCase,
    P ctx (sitesCases ctx cs) (checkCases cs)
  | [] => visits.checks (.pure _)
  | c :: cs => visits.seq (switchCase visits ctx c) fun _ =>
      visits.result (switchCases visits ctx cs)

theorem matchArm (visits : Visits known P) (ctx : Context) : ∀ a : MatchArm,
    P ctx (sitesArm ctx a) (checkArm a)
  | .mk _ body =>
      visits.after (checks_checkPattern _) fun _ =>
        visits.result (visits.nested (visits.after (checks_definePattern _) fun _ =>
          stmts visits ctx.nested body))

theorem matchArms (visits : Visits known P) (ctx : Context) : ∀ as : List MatchArm,
    P ctx (sitesArms ctx as) (checkArms as)
  | [] => visits.checks (.pure _)
  | a :: as => visits.seq (matchArm visits ctx a) fun _ =>
      visits.result (matchArms visits ctx as)

end

end Syntax

/-! ## Functions and members -/

section Members

variable {known : State → Prop} {P : {α : Type} → Context → Trail → M α → Prop}

theorem body (visits : Visits known P) (f : FunctionDecl) (ret : TypeId) :
    P .outside (sitesBody f ret) (Sema.returning ret do
      match f.body with
      | some body => return some (← checkStmts body)
      | none => return none) := by
  unfold sitesBody
  cases f.body with
  | none => exact visits.returning ret (visits.checks (.pure _))
  | some body =>
      have outside : (around f).place.awaits = Context.outside.place.awaits := rfl
      exact visits.returning ret (visits.result (visits.context outside (visits.stmts _ body)))

theorem func (visits : Visits known P) (f : FunctionDecl) :
    P .outside (sitesFunc .checked f) (checkFunc f) := by
  refine visits.after (checks_typeFromTe _) fun ret => visits.inScope ?_
  refine visits.afterWhen checks_defineThis ?_
  exact visits.after (checks_defineParams (.inr rfl) _) fun _ => visits.result (visits.body f ret)

theorem field (visits : Visits known P) (f : FieldDecl) :
    P .outside (Collector.checked.field f) (checkField f) := by
  unfold checkField
  dsimp only [Collector.checked]
  cases f.init with
  | none => exact visits.checks (.pure _)
  | some init =>
      exact visits.before (visits.expr .outside init) fun _ => .bind (checks_typeFromTe _) fun _ =>
        .bind (checks_requireAssignable _ _ _) fun _ => .pure _

theorem members (visits : Visits known P) (ms : List ClassMember) :
    P .outside (sitesMembers .checked ms) (checkMembers ms) := by
  induction ms with
  | nil => exact visits.checks (.pure _)
  | cons m ms ih =>
      cases m with
      | func f => exact visits.seq (visits.func f) fun _ => visits.result ih
      | field f => exact visits.seq (visits.field f) fun _ => visits.result ih

theorem classBody (visits : Visits known P) (c : ClassDecl) (type : TypeId) :
    P .outside
      ((Trail.after (defineMembers c.members) fun _ =>
        sitesMembers .checked c.members).inScope.enter
        fun s => { s with currentClassName := c.name, currentClassType := type })
      (insideClass c.name type do
        Sema.inScope do
          defineMembers c.members
          return { c with members := ← checkMembers c.members }) :=
  visits.bracket ⟨⟨fun _ => ⟨rfl, rfl, rfl, rfl⟩, fun _ _ => ⟨rfl, rfl, rfl, rfl⟩⟩, fun _ => rfl,
    fun _ _ => rfl⟩ (visits.inScope (visits.after (checks_defineMembers _) fun _ =>
      visits.result (visits.members c.members)))

end Members

end Visits

/-! ## Relations between the states -/

/-- A relation that holds across the checks that do not recurse, across a check in a
scope of its own, and across changes of the flags. -/
class Nested (R : State → State → Prop) : Prop extends Mild R where
  inScope : ∀ {α : Type} {check : M α}, Moves R check → Moves R (inScope check)
  flags : ∀ s s' : State, Flagged s s' → R s s'

section Relations

variable {α : Type} {R : State → State → Prop} [Nested R]

theorem nested_bracket {check : M α} {enter : State → State} {leave : State → State → State}
    (flags : Flags enter leave) (nested : Moves R check) :
    Moves R (bracket enter leave check) :=
  Moves.bind Moves.get fun saved =>
    Moves.bind (Moves.modify fun s => Nested.flags _ _ (flags.entering s)) fun _ =>
      Moves.bind nested fun _ =>
        Moves.bind (Moves.modify fun s => Nested.flags _ _ (flags.leaving saved s)) fun _ =>
          Moves.pure _

theorem nested_visits (R : State → State → Prop) [Nested R] :
    Visits (fun _ => True) fun _ _ m => Moves R m where
  checks := Checks.moves
  seq first second := Moves.bind first second
  context _ := id
  inScope := Nested.inScope
  bracket flags := nested_bracket flags.toFlags
  await := nested_bracket ⟨fun _ => ⟨rfl, rfl, rfl, rfl⟩, fun _ _ => ⟨rfl, rfl, rfl, rfl⟩⟩
  named _ _ _ := (checks_checkCallable _ _).moves
  target _ _ _ _ := (checks_checkAssignIdent _ _ _).moves
  passed _ := id

theorem nested_checkStmts (ss : List Stmt) : Moves R (checkStmts ss) :=
  (nested_visits R).stmts .outside ss

theorem nested_checkFunc (f : FunctionDecl) : Moves R (checkFunc f) := (nested_visits R).func f

theorem nested_checkClassBody (c : ClassDecl) (type : TypeId) :
    Moves R (insideClass c.name type do
      inScope do
        defineMembers c.members
        return { c with members := ← checkMembers c.members }) :=
  (nested_visits R).classBody c type

theorem run_checkClass_cases {c c' : ClassDecl} {s s' : State}
    (run : (checkClass c).run s = some (c', s')) :
    ∃ a s₁ b s₂, (checkBases (s.types.fromName c.name) c.bases).run s = some (a, s₁) ∧
      (checkContracts c c.bases).run s₁ = some (b, s₂) ∧ R s₁ s₂ ∧ R s₂ s' := by
  obtain ⟨_, _, got, run⟩ := Logic.run_bind_eq_some_iff.1 run
  obtain ⟨rfl, rfl⟩ := Logic.run_get_eq_some_iff.1 got
  obtain ⟨a, s₁, bases, run⟩ := Logic.run_bind_eq_some_iff.1 run
  obtain ⟨b, s₂, contracts, body⟩ := Logic.run_bind_eq_some_iff.1 run
  exact ⟨a, s₁, b, s₂, bases, contracts, (checks_checkContracts _ _).moves _ _ _ contracts,
    nested_checkClassBody _ _ _ _ _ body⟩

end Relations

end Dux.Sema
