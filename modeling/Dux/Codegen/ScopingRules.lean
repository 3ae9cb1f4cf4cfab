import Dux.Codegen.Scoping
import Mathlib.Data.List.Forall2

/-!
# Rules for generated names

A relation between makers that the parts of the generator respect is one that the
generator respects.  Three relations are of use: a maker that gets further than
another one, a maker that keeps to the scopes it is given, and a maker that works
above further scopes as it does on its own.
-/

namespace Dux.Codegen.Scoping

open Maker

/-! ## Relations the generator respects -/

/-- A relation between makers that goes through the parts of the generator, for
the fields `F` and the deferred blocks `D` on one side and `F'` and `D'` on the
other. -/
structure Congruent (R : Maker → Maker → Prop) (F F' : String → Bool)
    (D D' : List Stmt → Maker) : Prop where
  silent : R silent silent
  stop : R stop stop
  use : ∀ name, R (use name) (use name)
  define : ∀ name items, R (define name items) (define name items)
  call : R (register .call) (register .call)
  defer : ∀ body, R (registerDefer body) (registerDefer body)
  chain : ∀ {m m' : Maker} {next next' : Bool → Maker}, R m m' →
    (∀ live, R (next live) (next' live)) → R (chain m next) (chain m' next')
  assignName : ∀ name {m m' : Maker}, R m m' → R (assignName F name m) (assignName F' name m')
  insideLoop : ∀ hasHeader label {m m' : Maker}, R m m' →
    R (insideLoop hasHeader label m) (insideLoop hasHeader label m')
  withScope : ∀ {m m' : Maker}, R m m' → R (withScope D m) (withScope D' m')
  emitJump : R (emitJump D) (emitJump D')
  emitBreak : ∀ toHeader label, R (emitBreak D toHeader label) (emitBreak D' toHeader label)
  emitTry : ∀ {m m' : Maker}, R m m' → R (emitTry D m) (emitTry D' m')

namespace Congruent

variable {R : Maker → Maker → Prop} {F F' : String → Bool} {D D' : List Stmt → Maker}

section Parts

variable (rules : Congruent R F F' D D')

include rules

theorem seq {m m' n n' : Maker} (first : R m m') (second : R n n') :
    R (Maker.seq m n) (Maker.seq m' n') :=
  rules.chain first fun live => by
    cases live
    · exact rules.stop
    · exact second

theorem node {m m' : Maker} (inner : R m m') : R (Maker.node m) (Maker.node m') :=
  rules.chain inner fun _ => rules.silent

theorem fork {ms ms' : List Maker} (inner : List.Forall₂ R ms ms') :
    R (Maker.fork ms) (Maker.fork ms') := by
  induction inner with
  | nil => exact rules.silent
  | cons first _ rest => exact rules.seq (rules.node first) rest

theorem useAll (names : List String) : R (useAll names) (useAll names) := by
  induction names with
  | nil => exact rules.silent
  | cons name names rest => exact rules.seq (rules.use name) rest

theorem defineAll (names : List String) : R (defineAll names) (defineAll names) := by
  induction names with
  | nil => exact rules.silent
  | cons name names rest => exact rules.seq (rules.define name []) rest

theorem assign (target : Option String) {object object' value value' : Maker}
    (onObject : R object object') (onValue : R value value') :
    R (assign F target object value) (assign F' target object' value') := by
  cases target with
  | none => exact rules.seq onObject onValue
  | some name => exact rules.assignName name onValue

theorem callee (name : Option String) {m m' : Maker} (inner : R m m') :
    R (callee name m) (callee name m') := by
  unfold Scoping.callee
  split
  · exact rules.silent
  · exact inner

end Parts

mutual

theorem genExpr (rules : Congruent R F F' D D') :
    ∀ e : Expr, R (genExpr F e) (genExpr F' e)
  | .ident _ name => by simpa only [Scoping.genExpr] using rules.use name
  | .this _ => by simpa only [Scoping.genExpr] using rules.use "this"
  | .super _ => by simpa only [Scoping.genExpr] using rules.use "this"
  | .binary _ _ left right => by
      simpa only [Scoping.genExpr] using rules.seq (rules.genExpr left) (rules.genExpr right)
  | .unary _ _ operand _ => by simpa only [Scoping.genExpr] using rules.genExpr operand
  | .assign _ _ target value => by
      simpa only [Scoping.genExpr] using
        rules.assign (Sema.identName target) (rules.genExpr target) (rules.genExpr value)
  | .call _ fn args => by
      simpa only [Scoping.genExpr] using
        rules.seq (rules.callee (Sema.identName fn) (rules.genExpr fn)) (rules.genExprs args)
  | .member _ object _ => by simpa only [Scoping.genExpr] using rules.genExpr object
  | .index _ object index => by
      simpa only [Scoping.genExpr] using rules.seq (rules.genExpr object) (rules.genExpr index)
  | .new _ _ args => by simpa only [Scoping.genExpr] using rules.genExprs args
  | .list _ elements => by simpa only [Scoping.genExpr] using rules.genExprs elements
  | .dict _ pairs => by simpa only [Scoping.genExpr] using rules.genPairs pairs
  | .lambda _ params body _ _ => by
      simpa only [Scoping.genExpr] using rules.useAll (freeNames params body)
  | .await _ operand => by simpa only [Scoping.genExpr] using rules.genExpr operand
  | .intLit .. | .longLit .. | .floatLit .. | .realLit .. | .stringLit .. | .boolLit ..
  | .nullLit .. => by simpa only [Scoping.genExpr] using rules.silent

theorem genExprs (rules : Congruent R F F' D D') :
    ∀ es : List Expr, R (genExprs F es) (genExprs F' es)
  | [] => by simpa only [Scoping.genExprs] using rules.silent
  | e :: es => by
      simpa only [Scoping.genExprs] using rules.seq (rules.genExpr e) (rules.genExprs es)

theorem genPairs (rules : Congruent R F F' D D') :
    ∀ ps : List DictPair, R (genPairs F ps) (genPairs F' ps)
  | [] => by simpa only [Scoping.genPairs] using rules.silent
  | p :: ps => by
      simpa only [Scoping.genPairs] using rules.seq (rules.genPair p) (rules.genPairs ps)

theorem genPair (rules : Congruent R F F' D D') :
    ∀ p : DictPair, R (genPair F p) (genPair F' p)
  | .mk key value => by
      simpa only [Scoping.genPair] using rules.seq (rules.genExpr key) (rules.genExpr value)

end

section Statements

variable (rules : Congruent R F F' D D') (ls : Layouts)

include rules

theorem genOpt (e : Option Expr) : R (genOpt F e) (genOpt F' e) := by
  cases e with
  | none => exact rules.silent
  | some e => exact rules.genExpr e

theorem genOpts (es : List (Option Expr)) : R (genOpts F es) (genOpts F' es) := by
  induction es with
  | nil => exact rules.silent
  | cons e es rest => exact rules.seq (rules.genOpt e) rest

theorem genVarDecl (loc : SourceLoc) (type : TypeExpr) (isStatic : Bool) (ds : List VarItem) :
    R (genVarDecl ls F loc type isStatic ds) (genVarDecl ls F' loc type isStatic ds) := by
  induction ds with
  | nil => exact rules.silent
  | cons d ds rest =>
      cases d with
      | mk name init => exact rules.seq (rules.seq (rules.genOpt init) (rules.define name _)) rest

theorem emitFor (varName : String) {head head' next next' body body' : Maker}
    (onHead : R head head') (onNext : R next next') (onBody : R body body') :
    R (emitFor D varName head next body) (emitFor D' varName head' next' body') :=
  rules.withScope (rules.seq (rules.seq (rules.define varName []) onHead)
    (rules.node (rules.seq (rules.node (rules.insideLoop true "" (rules.withScope onBody)))
      onNext)))

theorem emitTryCatch (catchVar : Option String) {body body' handler handler' : Maker}
    (onBody : R body body') (onHandler : R handler handler') :
    R (emitTryCatch D body (emitHandler D catchVar handler))
      (emitTryCatch D' body' (emitHandler D' catchVar handler')) :=
  rules.seq (rules.emitTry onBody) (rules.node (rules.withScope
    (rules.seq (rules.defineAll catchVar.toList)
      (rules.seq rules.call (rules.withScope onHandler)))))

abbrev Arms (R : Maker → Maker → Prop) : List (MatchPattern × Maker) →
    List (MatchPattern × Maker) → Prop :=
  List.Forall₂ fun a a' => a.1 = a'.1 ∧ R a.2 a'.2

omit rules in
theorem patterns_eq {arms arms' : List (MatchPattern × Maker)} (inner : Arms R arms arms') :
    arms.map (·.1) = arms'.map (·.1) := by
  induction inner with
  | nil => rfl
  | cons first _ rest => rw [List.map_cons, List.map_cons, first.1, rest]

omit rules in
theorem filter_arms (p : MatchPattern → Bool) {arms arms' : List (MatchPattern × Maker)}
    (inner : Arms R arms arms') :
    Arms R (arms.filter fun a => p a.1) (arms'.filter fun a => p a.1) := by
  induction inner with
  | nil => exact .nil
  | @cons a a' _ _ first _ rest =>
      rw [List.filter_cons, List.filter_cons, ← first.1]
      split
      · exact .cons first rest
      · exact rest

omit rules in
theorem bodies_arms {arms arms' : List (MatchPattern × Maker)} (inner : Arms R arms arms') :
    List.Forall₂ R (arms.map (·.2)) (arms'.map (·.2)) := by
  induction inner with
  | nil => exact .nil
  | cons first _ rest => exact .cons first.2 rest

omit rules in
theorem last_arm {arms arms' : List (MatchPattern × Maker)} (inner : Arms R arms arms') :
    List.Forall₂ R (arms.getLast?.map (·.2)).toList (arms'.getLast?.map (·.2)).toList := by
  induction inner with
  | nil => exact .nil
  | @cons a a' as as' first others rest =>
      cases others with
      | nil => exact .cons first.2 .nil
      | cons second others => simpa only [List.getLast?_cons_cons] using rest

omit rules in
theorem generatedArms {arms arms' : List (MatchPattern × Maker)} (inner : Arms R arms arms') :
    List.Forall₂ R (generatedArms ls arms) (generatedArms ls arms') := by
  unfold Scoping.generatedArms
  rw [patterns_eq inner]
  exact List.rel_append (bodies_arms (filter_arms _ inner)) (last_arm (filter_arms _ inner))

end Statements

mutual

theorem genStmt (rules : Congruent R F F' D D') (ls : Layouts) :
    ∀ s : Stmt, R (genStmt ls F D s) (genStmt ls F' D' s)
  | .block body => by
      simpa only [Scoping.genStmt] using rules.withScope (rules.genStmts ls body)
  | .expr e => by simpa only [Scoping.genStmt] using rules.genExpr e
  | .varDecl loc type isStatic isThreadLocal decls => by
      simp only [Scoping.genStmt]
      split
      · exact rules.silent
      · exact rules.genVarDecl ls loc type isStatic decls
  | .ifStmt cond thenBr elseBr => by
      simpa only [Scoping.genStmt] using rules.seq (rules.genExpr cond)
        (rules.fork (.cons (rules.withScope (rules.genStmts ls thenBr))
          (.cons (rules.genElse ls elseBr) .nil)))
  | .whileStmt label cond body => by
      simpa only [Scoping.genStmt] using rules.seq (rules.genExpr cond)
        (rules.node (rules.insideLoop true _ (rules.withScope (rules.genStmts ls body))))
  | .doWhile body cond => by
      simpa only [Scoping.genStmt] using rules.seq
        (rules.node (rules.insideLoop true _ (rules.withScope (rules.genStmts ls body))))
        (rules.genExpr cond)
  | .forIn _ varName iterable body => by
      simpa only [Scoping.genStmt] using
        rules.emitFor varName (rules.genExprs _) rules.silent (rules.genStmts ls body)
  | .forC _ varName init cond incr body => by
      simpa only [Scoping.genStmt] using
        rules.emitFor varName (rules.genExprs _) (rules.genExpr incr) (rules.genStmts ls body)
  | .switchStmt e cases => by
      simpa only [Scoping.genStmt] using
        rules.seq (rules.seq (rules.genOpts _) (rules.genExpr e))
          (rules.insideLoop false _ (rules.fork (rules.genCases ls cases)))
  | .matchStmt e arms => by
      simpa only [Scoping.genStmt] using rules.seq (rules.genExpr e)
        (rules.fork (generatedArms ls (rules.genArms ls e.tid arms)))
  | .tryCatch tryBody _ _ catchVar catchBody => by
      simpa only [Scoping.genStmt] using
        rules.emitTryCatch catchVar (rules.genStmts ls tryBody) (rules.genStmts ls catchBody)
  | .returnStmt value => by
      simpa only [Scoping.genStmt] using rules.seq (rules.genOpt value) rules.emitJump
  | .breakStmt label => by simpa only [Scoping.genStmt] using rules.emitBreak false label
  | .continueStmt label => by simpa only [Scoping.genStmt] using rules.emitBreak true label
  | .assertStmt cond => by simpa only [Scoping.genStmt] using rules.genExpr cond
  | .deleteStmt e => by simpa only [Scoping.genStmt] using rules.genExpr e
  | .defer _ body => by simpa only [Scoping.genStmt] using rules.defer body
  | .throwStmt e => by
      simpa only [Scoping.genStmt] using rules.seq (rules.genExpr e) rules.stop
  | .unsafeStmt body => by simpa only [Scoping.genStmt] using rules.genStmts ls body

theorem genStmts (rules : Congruent R F F' D D') (ls : Layouts) :
    ∀ ss : List Stmt, R (genStmts ls F D ss) (genStmts ls F' D' ss)
  | [] => by simpa only [Scoping.genStmts] using rules.silent
  | s :: ss => by
      simpa only [Scoping.genStmts] using rules.seq (rules.genStmt ls s) (rules.genStmts ls ss)

theorem genElse (rules : Congruent R F F' D D') (ls : Layouts) :
    ∀ br : ElseBr, R (genElse ls F D br) (genElse ls F' D' br)
  | .none => by simpa only [Scoping.genElse] using rules.silent
  | .block body => by
      simpa only [Scoping.genElse] using rules.withScope (rules.genStmts ls body)
  | .elif cond thenBr elseBr => by
      simpa only [Scoping.genElse] using rules.seq (rules.genExpr cond)
        (rules.fork (.cons (rules.withScope (rules.genStmts ls thenBr))
          (.cons (rules.genElse ls elseBr) .nil)))

theorem genCases (rules : Congruent R F F' D D') (ls : Layouts) : ∀ cs : List SwitchCase,
    List.Forall₂ R (genCases ls F D cs) (genCases ls F' D' cs)
  | [] => by simpa only [Scoping.genCases] using .nil
  | c :: cs => by
      simpa only [Scoping.genCases] using .cons (rules.genCase ls c) (rules.genCases ls cs)

theorem genCase (rules : Congruent R F F' D D') (ls : Layouts) :
    ∀ c : SwitchCase, R (genCase ls F D c) (genCase ls F' D' c)
  | .mk _ body => by
      simpa only [Scoping.genCase] using rules.withScope (rules.genStmts ls body)

theorem genArms (rules : Congruent R F F' D D') (ls : Layouts) (subject : TypeId) :
    ∀ as : List MatchArm, Arms R (genArms ls F D subject as) (genArms ls F' D' subject as)
  | [] => by simpa only [Scoping.genArms] using .nil
  | a :: as => by
      simpa only [Scoping.genArms] using
        .cons (rules.genArm ls subject a) (rules.genArms ls subject as)

theorem genArm (rules : Congruent R F F' D D') (ls : Layouts) (subject : TypeId) :
    ∀ a : MatchArm, (genArm ls F D subject a).1 = (genArm ls F' D' subject a).1 ∧
      R (genArm ls F D subject a).2 (genArm ls F' D' subject a).2
  | .mk pattern body => by
      simpa only [Scoping.genArm, true_and] using
        rules.withScope (rules.seq (rules.defineAll _) (rules.genStmts ls body))

end

end Congruent

/-! ## Makers that get further -/

section Further

variable {ls : Layouts} {F : String → Bool} {D D' : List Stmt → Maker} {m m' : Maker}

/-- What comes out of a maker comes out of the other one too. -/
def Further (m m' : Maker) : Prop := ∀ c p, m c = some p → m' c = some p

theorem further_refl (m : Maker) : Further m m := fun _ _ ran => ran

theorem further_chain {next next' : Bool → Maker} (first : Further m m')
    (rest : ∀ live, Further (next live) (next' live)) :
    Further (chain m next) (chain m' next') := by
  intro c p ran
  simp only [chain, Option.bind_eq_some_iff, Option.map_eq_some_iff] at ran ⊢
  obtain ⟨q, ran, r, ranNext, joined⟩ := ran
  exact ⟨q, first c q ran, r, rest q.live q.place r ranNext, joined⟩

theorem further_seq {n n' : Maker} (first : Further m m') (second : Further n n') :
    Further (Maker.seq m n) (Maker.seq m' n') :=
  further_chain first fun live => by
    cases live
    · exact further_refl stop
    · exact second

variable (bodies : ∀ body, Further (D body) (D' body))

include bodies

theorem further_emitScopeCleanup (entry : Pending) :
    Further (emitScopeCleanup D entry) (emitScopeCleanup D' entry) := by
  cases entry with
  | clear slot => exact further_refl _
  | call => exact further_refl _
  | deferred scope body =>
      intro c p ran
      simp only [emitScopeCleanup, Option.map_eq_some_iff] at ran ⊢
      obtain ⟨q, ran, rfl⟩ := ran
      exact ⟨q, bodies body _ q ran, rfl⟩

theorem further_emitScopeCleanups (entries : List Pending) :
    Further (emitScopeCleanups D entries) (emitScopeCleanups D' entries) := by
  induction entries with
  | nil => exact further_refl silent
  | cons entry entries rest => exact further_seq (further_emitScopeCleanup bodies entry) rest

theorem further_envPop : Further (envPop D) (envPop D') := fun c =>
  further_chain (further_emitScopeCleanups bodies _) (fun _ => further_refl _) c

theorem further_emitAll : Further (emitAll D) (emitAll D') := by
  intro c p ran
  unfold emitAll at ran ⊢
  split at ran
  · cases ran
  · rename_i notDeferring
    rw [if_neg notDeferring]
    exact further_chain (further_emitScopeCleanups bodies _) (fun _ => further_refl _) c p ran

theorem further_emitJump : Further (emitJump D) (emitJump D') :=
  further_seq (further_emitAll bodies) (further_refl stop)

theorem congruent_further : Congruent Further F F D D' where
  silent := further_refl _
  stop := further_refl _
  use _ := further_refl _
  define _ _ := further_refl _
  call := further_refl _
  defer _ := further_refl _
  chain := further_chain
  assignName name m m' inner c :=
    further_chain (further_seq (further_refl (use name)) inner) (fun _ => further_refl _) c
  insideLoop hasHeader label m m' inner c p ran := by
    simp only [insideLoop, Option.map_eq_some_iff] at ran ⊢
    obtain ⟨q, ran, rfl⟩ := ran
    exact ⟨q, inner _ q ran, rfl⟩
  withScope inner c :=
    further_chain (further_seq inner (further_envPop bodies)) (fun _ => further_refl _) c.push
  emitJump := further_emitJump bodies
  emitBreak toHeader label c p ran := by
    unfold emitBreak at ran ⊢
    split at ran
    · exact ran
    · cases ran
    · exact further_emitJump bodies c p ran
  emitTry {m m'} inner c := by
    unfold emitTry
    refine further_chain (further_chain inner fun live => ?_) (fun _ => further_refl _) c.push
    refine further_chain (further_emitAll bodies) fun _ => ?_
    cases live
    · exact further_refl stop
    · exact further_envPop bodies

omit bodies in
theorem further_genLevel (n : Nat) (body : List Stmt) :
    Further (genLevel ls F n body) (genLevel ls F (n + 1) body) := by
  induction n generalizing body with
  | zero => exact fun _ _ ran => nomatch ran
  | succ n further => exact (congruent_further further).genStmts ls body

omit bodies in
theorem genLevel_mono {n k : Nat} (le : n ≤ k) {body : List Stmt} {c : Place} {p : Piece}
    (ran : genLevel ls F n body c = some p) : genLevel ls F k body c = some p := by
  induction le with
  | refl => exact ran
  | step _ reached => exact further_genLevel _ body c p reached

end Further

/-! ## Makers that keep to their scopes -/

section Keeps

variable (ls : Layouts) (F : String → Bool)

/-- A deferred block only sees what is visible in its scope. -/
def Scoped : List Layer → Prop
  | [] => True
  | layer :: outer =>
      (∀ scope body, Pending.deferred scope body ∈ layer.pending →
        scope <:+ visible (layer :: outer)) ∧ Scoped outer

/-- A place with slots of its own for all variables, none of them below `k`. -/
structure Place.Sound (k : Nat) (c : Place) : Prop where
  distinct : (c.vars.map (·.2)).Nodup
  range : ∀ b ∈ c.vars, k ≤ b.2 ∧ b.2 < c.next
  start : k ≤ c.next
  nonempty : c.layers ≠ []
  inScope : Scoped c.layers

def Pending.slot : Pending → Option Nat
  | .clear slot => some slot
  | .deferred _ _ => none
  | .call => none

/-- The variables of a scope, and those that it cleans up. -/
def Layer.holds (layer : Layer) : Bindings × List Nat × List Nat :=
  (layer.vars, layer.pending.filterMap Pending.slot, layer.strs)

/-- Variables are put into a scope. -/
structure Layer.Grows (layer layer' : Layer) : Prop where
  vars : layer.vars <:+ layer'.vars
  holds : layer'.vars = layer.vars → layer'.holds = layer.holds

structure Place.Grows (c c' : Place) : Prop where
  outer : c'.layers.tail = c.layers.tail
  top : c.top.Grows c'.top
  next : c.next ≤ c'.next

/-- What an emission is in a run: it starts in a sound place where everything is
visible that was visible at the statement, and it is what its block generates. -/
structure Emission.Real (e : Emission) : Prop where
  sound : e.before.Sound 0
  visible : e.scope <:+ e.before.vars
  made : ∃ n p, genLevel ls F n e.body { e.before with deferring := true } = some p ∧
    p.uses = e.uses ∧ p.place.layers = e.after.layers

/-- A piece keeps to the scopes of its place if it leaves a sound place behind, in
which only the innermost scope has grown, finds no slot below `k`, and all its
emissions are real. -/
structure Piece.Kept (k : Nat) (c : Place) (p : Piece) : Prop where
  sound : p.place.Sound k
  grows : c.Grows p.place
  uses : ∀ name slot, (name, some slot) ∈ p.uses → k ≤ slot
  real : ∀ e ∈ p.emissions, e.Real ls F

/-- A maker whose pieces keep to the scopes of their places. -/
def Keeps (k : Nat) (m : Maker) : Prop := ∀ c p, c.Sound k → m c = some p → p.Kept ls F k c

variable {ls F} {k : Nat} {c c' c'' : Place} {D : List Stmt → Maker} {m : Maker}

theorem Layer.Grows.refl (layer : Layer) : layer.Grows layer := ⟨List.suffix_rfl, fun _ => rfl⟩

theorem Layer.Grows.trans {l l' l'' : Layer} (first : l.Grows l') (second : l'.Grows l'') :
    l.Grows l'' where
  vars := first.vars.trans second.vars
  holds same := by
    have kept : l'.vars = l.vars := by
      refine (first.vars.eq_of_length_le ?_).symm
      exact same ▸ second.vars.length_le
    rw [second.holds (same.trans kept.symm), first.holds kept]

theorem Place.Grows.refl (c : Place) : c.Grows c := ⟨rfl, .refl _, Nat.le_refl _⟩

theorem Place.Grows.trans (first : c.Grows c') (second : c'.Grows c'') : c.Grows c'' where
  outer := second.outer.trans first.outer
  top := first.top.trans second.top
  next := Nat.le_trans first.next second.next

theorem Place.layers_eq (nonempty : c.layers ≠ []) : c.layers = c.top :: c.layers.tail := by
  unfold Place.top
  cases layers : c.layers with
  | nil => exact absurd layers nonempty
  | cons layer outer => rfl

theorem Place.Grows.vars (grows : c.Grows c') (nonempty : c.layers ≠ [])
    (nonempty' : c'.layers ≠ []) : c.vars <:+ c'.vars := by
  unfold Place.vars
  rw [Place.layers_eq nonempty, Place.layers_eq nonempty', grows.outer]
  obtain ⟨fresh, joined⟩ := grows.top.vars
  exact ⟨fresh, by simp only [Scoping.visible, List.flatMap_cons, ← joined, List.append_assoc]⟩

theorem Place.Sound.of_layers (sound : c.Sound k) (layers : c'.layers = c.layers)
    (next : c.next ≤ c'.next) : c'.Sound k := by
  have vars : c'.vars = c.vars := congrArg Scoping.visible layers
  refine ⟨vars ▸ sound.distinct, fun b member => ?_, Nat.le_trans sound.start next,
    layers ▸ sound.nonempty, layers ▸ sound.inScope⟩
  rw [vars] at member
  exact ⟨(sound.range b member).1, Nat.lt_of_lt_of_le (sound.range b member).2 next⟩

theorem Place.Grows.of_layers (layers : c'.layers = c.layers) (next : c.next ≤ c'.next) :
    c.Grows c' where
  outer := congrArg List.tail layers
  top := by
    unfold Place.top
    rw [layers]
    exact .refl _
  next := next

theorem Piece.Kept.append {p q : Piece} (first : p.Kept ls F k c)
    (second : q.Kept ls F k p.place) {cleaned : List Nat} {live : Bool} :
    Piece.Kept ls F k c ⟨p.uses ++ q.uses, cleaned, p.emissions ++ q.emissions, q.place, live⟩ where
  sound := second.sound
  grows := first.grows.trans second.grows
  uses name slot member :=
    (List.mem_append.1 member).elim (first.uses name slot) (second.uses name slot)
  real e member := (List.mem_append.1 member).elim (first.real e) (second.real e)

theorem keeps_chain {next : Bool → Maker} (first : Keeps ls F k m)
    (rest : ∀ live, Keeps ls F k (next live)) : Keeps ls F k (chain m next) := by
  intro c p sound ran
  simp only [chain, Option.bind_eq_some_iff, Option.map_eq_some_iff] at ran
  obtain ⟨q, ran, r, ranNext, rfl⟩ := ran
  have kept := first c q sound ran
  exact kept.append (rest q.live q.place r kept.sound ranNext)

theorem keeps_of_place (step : ∀ c p, c.Sound k → m c = some p →
    p.place.Sound k ∧ c.Grows p.place ∧ p.uses = [] ∧ p.emissions = []) : Keeps ls F k m := by
  intro c p sound ran
  obtain ⟨sound', grows, noUses, noEmissions⟩ := step c p sound ran
  refine ⟨sound', grows, ?_, ?_⟩
  · simp [noUses]
  · simp [noEmissions]

theorem keeps_silent : Keeps ls F k silent :=
  keeps_of_place fun c p sound ran => by
    cases ran
    exact ⟨sound, .refl c, rfl, rfl⟩

theorem keeps_stop : Keeps ls F k stop :=
  keeps_of_place fun c p sound ran => by
    cases ran
    exact ⟨sound, .refl c, rfl, rfl⟩

theorem keeps_seq {m' : Maker} (first : Keeps ls F k m) (second : Keeps ls F k m') :
    Keeps ls F k (Maker.seq m m') :=
  keeps_chain first fun live => by
    cases live
    · exact keeps_stop
    · exact second

theorem mem_of_lookup {bindings : Bindings} {name : String} {slot : Nat}
    (found : bindings.lookup name = some slot) : (name, slot) ∈ bindings := by
  rw [List.lookup_eq_some_iff] at found
  obtain ⟨before, after, rfl, _⟩ := found
  simp

theorem keeps_use (name : String) : Keeps ls F k (use name) := by
  intro c p sound ran
  cases ran
  refine ⟨sound, .refl c, fun name' slot member => ?_, fun e member => nomatch member⟩
  obtain ⟨rfl, found⟩ := Prod.mk.injEq .. ▸ List.mem_singleton.1 member
  exact (sound.range _ (mem_of_lookup found.symm)).1

/-! ### Declarations -/

theorem visible_cons (layer : Layer) (outer : List Layer) :
    visible (layer :: outer) = layer.vars ++ visible outer := by
  simp [visible]

theorem not_deferred_of_clearing {slot : Nat} {items : List Item} {scope : Bindings}
    {body : List Stmt} : Pending.deferred scope body ∉ items.filterMap (clearing slot) := by
  intro member
  obtain ⟨item, _, cleared⟩ := List.mem_filterMap.1 member
  cases item <;> cases cleared

theorem Place.Sound.define (sound : c.Sound k) (name : String) (items : List Item) :
    (c.define name items).Sound k := by
  obtain ⟨⟨_ | ⟨layer, outer⟩, next, loops, deferring⟩, rfl⟩ : ∃ c', c' = c := ⟨c, rfl⟩
  · exact absurd rfl sound.nonempty
  have vars : (Place.define name items ⟨layer :: outer, next, loops, deferring⟩).vars =
      (name, next) :: visible (layer :: outer) := by
    simp [Place.define, Place.vars, visible, Layer.add]
  have distinct := sound.distinct
  have range := sound.range
  refine ⟨?_, ?_, Nat.le_succ_of_le sound.start, List.cons_ne_nil _ _, ?_⟩
  · rw [vars, List.map_cons, List.nodup_cons]
    refine ⟨fun member => ?_, distinct⟩
    obtain ⟨b, member, same⟩ := List.mem_map.1 member
    exact absurd same (Nat.ne_of_lt (range b member).2)
  · intro b member
    cases member with
    | head => exact ⟨sound.start, Nat.lt_succ_self next⟩
    | tail _ member => exact ⟨(range b member).1, Nat.lt_succ_of_lt (range b member).2⟩
  · refine ⟨fun scope body member => ?_, sound.inScope.2⟩
    have old : Pending.deferred scope body ∈ layer.pending :=
      (List.mem_append.1 member).resolve_right not_deferred_of_clearing
    obtain ⟨fresh, joined⟩ := sound.inScope.1 scope body old
    exact ⟨(name, next) :: fresh, by
      rw [List.cons_append, joined, visible_cons, visible_cons]
      rfl⟩

theorem Place.grows_define (sound : c.Sound k) (name : String) (items : List Item) :
    c.Grows (c.define name items) := by
  obtain ⟨⟨_ | ⟨layer, outer⟩, next, loops, deferring⟩, rfl⟩ : ∃ c', c' = c := ⟨c, rfl⟩
  · exact absurd rfl sound.nonempty
  refine ⟨rfl, ⟨⟨[(name, next)], rfl⟩, fun same => ?_⟩, Nat.le_succ next⟩
  exact absurd same (List.cons_ne_self _ _)

theorem keeps_define (name : String) (items : List Item) :
    Keeps ls F k (define name items) :=
  keeps_of_place fun c p sound ran => by
    cases ran
    exact ⟨sound.define name items, Place.grows_define sound name items, rfl, rfl⟩

theorem Place.Sound.register (sound : c.Sound k) {entry : Pending}
    (within : ∀ scope body, entry = .deferred scope body → scope <:+ c.vars) :
    (c.register entry).Sound k := by
  obtain ⟨⟨_ | ⟨layer, outer⟩, next, loops, deferring⟩, rfl⟩ : ∃ c', c' = c := ⟨c, rfl⟩
  · exact absurd rfl sound.nonempty
  refine ⟨sound.distinct, sound.range, sound.start, List.cons_ne_nil _ _, ?_, sound.inScope.2⟩
  intro scope body member
  rcases List.mem_append.1 member with old | new
  · exact sound.inScope.1 scope body old
  · exact within scope body (List.mem_singleton.1 new).symm

theorem Place.grows_register (sound : c.Sound k) {entry : Pending} (owns : entry.slot = none) :
    c.Grows (c.register entry) := by
  obtain ⟨⟨_ | ⟨layer, outer⟩, next, loops, deferring⟩, rfl⟩ : ∃ c', c' = c := ⟨c, rfl⟩
  · exact absurd rfl sound.nonempty
  refine ⟨rfl, ⟨List.suffix_rfl, fun _ => ?_⟩, Nat.le_refl _⟩
  simp [Place.register, Place.top, Layer.register, Layer.holds, owns]

theorem keeps_register {entry : Pending} (owns : entry.slot = none)
    (within : ∀ c : Place, c.Sound k →
      ∀ scope body, entry = .deferred scope body → scope <:+ c.vars) :
    Keeps ls F k (Maker.register entry) :=
  keeps_of_place fun c p sound ran => by
    cases ran
    exact ⟨sound.register (within c sound), Place.grows_register sound owns, rfl, rfl⟩

theorem keeps_registerDefer (body : List Stmt) : Keeps ls F k (registerDefer body) :=
  keeps_of_place fun c p sound ran => by
    cases ran
    refine ⟨sound.register fun scope body same => ?_, Place.grows_register sound rfl, rfl, rfl⟩
    cases same
    exact List.suffix_rfl

theorem keeps_assignName (name : String) {value : Maker} (inner : Keeps ls F k value) :
    Keeps ls F k (assignName F name value) := fun c =>
  keeps_chain (keeps_seq (keeps_use name) inner)
    (fun _ => by
      split
      · exact keeps_silent
      · exact keeps_define name []) c

theorem keeps_insideLoop (hasHeader : Bool) (label : String) (inner : Keeps ls F k m) :
    Keeps ls F k (Maker.insideLoop hasHeader label m) := by
  intro c p sound ran
  simp only [Maker.insideLoop, Option.map_eq_some_iff] at ran
  obtain ⟨q, ran, rfl⟩ := ran
  have inside : Place.Sound k { c with loops := ⟨hasHeader, label, 0⟩ :: c.loops } :=
    sound.of_layers rfl (Nat.le_refl _)
  have kept := inner _ q inside ran
  exact ⟨kept.sound.of_layers rfl (Nat.le_refl _),
    ⟨kept.grows.outer, kept.grows.top, kept.grows.next⟩, kept.uses, kept.real⟩

/-! ### Clean-ups -/

theorem Place.Sound.weaken (sound : c.Sound k) : c.Sound 0 where
  distinct := sound.distinct
  range b member := ⟨Nat.zero_le _, (sound.range b member).2⟩
  start := Nat.zero_le _
  nonempty := sound.nonempty
  inScope := sound.inScope

/-- Entries whose deferred blocks see nothing that is not visible. -/
def Within (vars : Bindings) (entries : List Pending) : Prop :=
  ∀ scope body, Pending.deferred scope body ∈ entries → scope <:+ vars

theorem within_pending {layers : List Layer} (inScope : Scoped layers) :
    Within (visible layers) (layers.flatMap (·.pending.reverse)) := by
  induction layers with
  | nil => exact fun _ _ member => nomatch member
  | cons layer outer within =>
      intro scope body member
      rw [List.flatMap_cons, List.mem_append, List.mem_reverse] at member
      rcases member with member | member
      · exact inScope.1 scope body member
      · refine (within inScope.2 scope body member).trans ?_
        exact visible_cons layer outer ▸ List.suffix_append _ _

theorem within_top (sound : c.Sound k) : Within c.vars c.top.pending.reverse := by
  intro scope body member
  have inScope := sound.inScope
  unfold Place.vars
  rw [Place.layers_eq sound.nonempty] at inScope ⊢
  exact inScope.1 scope body (List.mem_reverse.1 member)

variable {n : Nat} (kept : ∀ body, Keeps ls F k (genLevel ls F n body))

include kept

theorem keeps_emitScopeCleanup {entry : Pending} {p : Piece} (sound : c.Sound k)
    (within : Within c.vars [entry])
    (ran : emitScopeCleanup (genLevel ls F n) entry c = some p) : p.Kept ls F k c := by
  cases entry with
  | clear slot =>
      cases ran
      exact ⟨sound, .refl c, fun _ _ member => (List.not_mem_nil member).elim,
        fun _ member => (List.not_mem_nil member).elim⟩
  | call => exact keeps_silent c p sound ran
  | deferred scope body =>
      simp only [emitScopeCleanup, Option.map_eq_some_iff] at ran
      obtain ⟨q, ran, rfl⟩ := ran
      have keptQ := kept body { c with deferring := true } q
        (sound.of_layers rfl (Nat.le_refl _)) ran
      refine ⟨keptQ.sound.of_layers rfl (Nat.le_refl _),
        ⟨keptQ.grows.outer, keptQ.grows.top, keptQ.grows.next⟩, keptQ.uses, fun e member => ?_⟩
      rcases List.mem_cons.1 member with rfl | member
      · exact ⟨sound.weaken, within scope body (List.mem_singleton_self _), n, q, ran, rfl, rfl⟩
      · exact keptQ.real e member

theorem keeps_emitScopeCleanups {entries : List Pending} {p : Piece} (sound : c.Sound k)
    (within : Within c.vars entries)
    (ran : emitScopeCleanups (genLevel ls F n) entries c = some p) : p.Kept ls F k c := by
  induction entries generalizing c p with
  | nil => exact keeps_silent c p sound ran
  | cons entry entries rest =>
      simp only [emitScopeCleanups, Maker.seq, chain, Option.bind_eq_some_iff,
        Option.map_eq_some_iff] at ran
      obtain ⟨q, ran, r, ranRest, rfl⟩ := ran
      have keptQ := keeps_emitScopeCleanup kept sound (fun scope body member =>
        within scope body (List.mem_singleton.1 member ▸ List.mem_cons_self)) ran
      refine keptQ.append ?_
      split at ranRest
      · refine rest keptQ.sound (fun scope body member => ?_) ranRest
        exact (within scope body (List.mem_cons_of_mem _ member)).trans
          (keptQ.grows.vars sound.nonempty keptQ.sound.nonempty)
      · exact keeps_stop q.place r keptQ.sound ranRest

omit kept in
theorem keeps_releaseStrs (strs : Place → List Nat) (live : Bool) :
    Keeps ls F k (releaseStrs strs live) :=
  keeps_of_place fun c p sound ran => by
    cases live with
    | true =>
        cases ran
        exact ⟨sound, .refl c, rfl, rfl⟩
    | false =>
        simp only [releaseStrs, Option.ite_none_right_eq_some, Option.some.injEq] at ran
        obtain ⟨_, rfl⟩ := ran
        exact ⟨sound, .refl c, rfl, rfl⟩

omit kept in
theorem kept_chain {next : Bool → Maker} {p : Piece}
    (first : ∀ q, m c = some q → q.Kept ls F k c) (rest : ∀ live, Keeps ls F k (next live))
    (ran : chain m next c = some p) : p.Kept ls F k c := by
  simp only [chain, Option.bind_eq_some_iff, Option.map_eq_some_iff] at ran
  obtain ⟨q, ran, r, ranNext, rfl⟩ := ran
  exact (first q ran).append (rest q.live q.place r (first q ran).sound ranNext)

theorem keeps_envPop : Keeps ls F k (envPop (genLevel ls F n)) := fun _ _ sound ran =>
  kept_chain (fun _ => keeps_emitScopeCleanups kept sound (within_top sound))
    (keeps_releaseStrs _) ran

theorem keeps_emitAll : Keeps ls F k (emitAll (genLevel ls F n)) := by
  intro c p sound ran
  unfold emitAll at ran
  split at ran
  · cases ran
  · refine kept_chain
      (fun _ => keeps_emitScopeCleanups kept sound (within_pending sound.inScope))
      (fun live => ?_) ran
    split
    · exact keeps_releaseStrs _ true
    · exact fun _ _ _ ran => nomatch ran

theorem keeps_emitJump : Keeps ls F k (emitJump (genLevel ls F n)) :=
  keeps_seq (keeps_emitAll kept) keeps_stop

omit kept in
theorem Place.Sound.push (sound : c.Sound k) : c.push.Sound k where
  distinct := sound.distinct
  range := sound.range
  start := sound.start
  nonempty := List.cons_ne_nil _ _
  inScope := ⟨fun _ _ member => (List.not_mem_nil member).elim, sound.inScope⟩

omit kept in
theorem keeps_inScope {live : Bool → Bool} (inner : Keeps ls F k m) :
    Keeps ls F k (inScope (chain m fun open_ => leave (live open_))) := by
  intro c p sound ran
  simp only [inScope, chain, Option.bind_eq_some_iff, Option.map_eq_some_iff] at ran
  obtain ⟨q, ran, r, left, rfl⟩ := ran
  cases left
  have kept := inner c.push q sound.push ran
  have layers : q.place.pop.layers = c.layers := kept.grows.outer
  exact {
    sound := sound.of_layers layers kept.grows.next
    grows := .of_layers layers kept.grows.next
    uses := by simpa using kept.uses
    real := by simpa using kept.real }

theorem congruent_keeps : Congruent (fun m _ => Keeps ls F k m) F F (genLevel ls F n)
    (genLevel ls F n) where
  silent := keeps_silent
  stop := keeps_stop
  use := keeps_use
  define := keeps_define
  call := keeps_register rfl fun _ _ _ _ same => nomatch same
  defer := keeps_registerDefer
  chain := keeps_chain
  assignName name _ _ := keeps_assignName name
  insideLoop hasHeader label _ _ := keeps_insideLoop hasHeader label
  withScope inner := keeps_inScope (keeps_seq inner (keeps_envPop kept))
  emitJump := keeps_emitJump kept
  emitBreak toHeader label c p sound ran := by
    unfold emitBreak at ran
    split at ran
    · exact keeps_silent c p sound ran
    · cases ran
    · exact keeps_emitJump kept c p sound ran
  emitTry inner := by
    refine keeps_inScope (keeps_chain inner fun live => ?_)
    refine keeps_chain (keeps_emitAll kept) fun _ => ?_
    cases live
    · exact keeps_stop
    · exact keeps_envPop kept

omit kept in
theorem keeps_genLevel (n : Nat) (body : List Stmt) : Keeps ls F k (genLevel ls F n body) := by
  induction n generalizing body with
  | zero => exact fun _ _ _ ran => nomatch ran
  | succ n kept => exact (congruent_keeps kept).genStmts ls body

end Keeps

end Dux.Codegen.Scoping
