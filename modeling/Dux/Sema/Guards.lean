import Dux.Sema.Bodies

/-!
# What the checks make sure of

Two checks of the analysis are about the place where something stands: a function that
is declared `async` is called by its name below an `await` only, and an assignment to a
name is one to a variable that is not constant.  In a program without errors both hold
at every place that the analysis comes to.
-/

namespace Dux.Sema

open Logic (Moves)

theorem run_bracket_eq_some_iff {α : Type} {enter : State → State}
    {leave : State → State → State} {m : M α} {s s' : State} {a : α} :
    (bracket enter leave m).run s = some (a, s') ↔
      ∃ s₁, m.run (enter s) = some (a, s₁) ∧ leave s s₁ = s' := by
  unfold bracket
  constructor
  · intro run
    obtain ⟨saved, s₀, got, run⟩ := Logic.run_bind_eq_some_iff.1 run
    obtain ⟨rfl, rfl⟩ := Logic.run_get_eq_some_iff.1 got
    obtain ⟨_, s₁, entered, run⟩ := Logic.run_bind_eq_some_iff.1 run
    obtain ⟨_, s₂, checked, run⟩ := Logic.run_bind_eq_some_iff.1 run
    obtain ⟨_, s₃, left, run⟩ := Logic.run_bind_eq_some_iff.1 run
    obtain ⟨rfl, rfl⟩ := Logic.run_pure_eq_some_iff.1 run
    rw [Logic.run_modify_eq_some_iff] at entered left
    subst entered left
    exact ⟨s₂, checked, rfl⟩
  · rintro ⟨s₁, checked, rfl⟩
    simp only [Logic.run_bind_eq_some_iff]
    exact ⟨s, s, rfl, (), enter s, rfl, a, s₁, checked, (), _, rfl, rfl⟩

theorem run_inScope {α : Type} {m : M α} {s s' : State} {a : α}
    (run : (inScope m).run s = some (a, s')) :
    ∃ s₁, m.run { s with scopes := [] :: s.scopes } = some (a, s₁) ∧ ∃ scopes,
      s' = { s₁ with scopes := scopes } := by
  obtain ⟨_, s₁, pushed, run⟩ := Logic.run_bind_eq_some_iff.1 run
  obtain ⟨_, s₂, checked, run⟩ := Logic.run_bind_eq_some_iff.1 run
  obtain ⟨_, s₃, popped, run⟩ := Logic.run_bind_eq_some_iff.1 run
  obtain ⟨rfl, rfl⟩ := Logic.run_pure_eq_some_iff.1 run
  rw [push, Logic.run_modify_eq_some_iff] at pushed
  rw [pop, Logic.run_modify_eq_some_iff] at popped
  subst pushed popped
  refine ⟨s₂, checked, ?_⟩
  split
  · exact ⟨_, rfl⟩
  · exact ⟨s₂.scopes, rfl⟩

/-- What a check makes sure of at a site. -/
def Site.Passes : Site → Prop
  | .named ctx sym _ => sym.isAsync = true → ctx.place.awaits = true
  | .target _ _ e s => ∀ name sym, identName e = some name →
      lookupScopes s.scopes name = some sym → sym.isConst = false
  | .called .. => True
  | .assigned .. => True
  | .operand .. => True

theorem Site.passes_of_isPassed {site : Site} (isPassed : site.isPassed = true) :
    site.Passes := by
  cases site with
  | named ctx sym s => cases isPassed
  | target ctx op e s => cases isPassed
  | called | assigned | operand => trivial

/-- From a state whose flag is that of the place, a computation comes back to the flag,
and gives no message only if the sites pass. -/
def Guards (ctx : Context) (sites : List Site) (s s' : State) : Prop :=
  s.inAwait = ctx.place.awaits → s'.inAwait = s.inAwait ∧
    (s'.errors = [] → s.errors = [] ∧ ∀ site ∈ sites, site.Passes)

section Rules

variable {α β : Type} {ctx : Context} {left right sites : List Site} {s s' : State}

theorem guards_of_eq (flag : s'.inAwait = s.inAwait) (silent : s'.errors = [] → s.errors = []) :
    Guards ctx [] s s' :=
  fun _ => ⟨flag, fun silent' => ⟨silent silent', fun _ member => by cases member⟩⟩

theorem Guards.trans (s₁ s₂ s₃ : State) (first : Guards ctx left s₁ s₂)
    (second : Guards ctx right s₂ s₃) : Guards ctx (left ++ right) s₁ s₃ := by
  intro flag
  obtain ⟨flag', quiet⟩ := first flag
  obtain ⟨flag'', quiet'⟩ := second (flag'.trans flag)
  constructor
  · exact flag''.trans flag'
  · intro silent
    obtain ⟨silent', ofRight⟩ := quiet' silent
    obtain ⟨silent'', ofLeft⟩ := quiet silent'
    exact ⟨silent'', List.forall_mem_append.2 ⟨ofLeft, ofRight⟩⟩

instance : Free (Guards ctx []) where
  refl _ := guards_of_eq rfl id
  trans _ _ _ := Guards.trans _ _ _
  err _ _ := guards_of_eq rfl fun silent => by simp at silent
  warn _ _ := guards_of_eq rfl id
  scopes _ _ := guards_of_eq rfl id
  types _ _ := guards_of_eq rfl id

theorem Guards.cons {site : Site} (passes : site.Passes) (guards : Guards ctx sites s s') :
    Guards ctx (site :: sites) s s' := by
  intro flag
  obtain ⟨flag', quiet⟩ := guards flag
  constructor
  · exact flag'
  · intro silent
    obtain ⟨silent', all⟩ := quiet silent
    exact ⟨silent', List.forall_mem_cons.2 ⟨passes, all⟩⟩

/-- A computation that makes sure of what it comes to. -/
def Guarded {α : Type} (ctx : Context) (trail : Trail) (m : M α) : Prop :=
  ∀ s a s', m.run s = some (a, s') → Guards ctx (trail s) s s'

theorem guarded_of_moves {m : M α} (moves : Moves (Guards ctx []) m) :
    Guarded ctx .nothing m := moves

theorem guarded_seq {trail : Trail} {m : M α} {next : α → Trail} {f : α → M β}
    (first : Guarded ctx trail m) (second : ∀ a, Guarded ctx (next a) (f a)) :
    Guarded ctx (trail.seq m next) (m >>= f) := by
  intro s b s'' run
  obtain ⟨a, s', run₁, run₂⟩ := Logic.run_bind_eq_some_iff.1 run
  rw [Trail.seq, Trail.after, run₁]
  exact Guards.trans _ _ _ (first _ _ _ run₁) (second a _ _ _ run₂)

theorem guarded_inScope {trail : Trail} {m : M α} (guarded : Guarded ctx trail m) :
    Guarded ctx trail.inScope (inScope m) := by
  intro s a s' run
  obtain ⟨s₁, checked, scopes, rfl⟩ := run_inScope run
  exact guarded _ _ _ checked

theorem guarded_bracket {trail : Trail} {m : M α} {enter : State → State}
    {leave : State → State → State} (flags : OtherFlags enter leave)
    (guarded : Guarded ctx trail m) :
    Guarded ctx (trail.enter enter) (bracket enter leave m) := by
  intro s a s' run flag
  obtain ⟨s₁, checked, rfl⟩ := run_bracket_eq_some_iff.1 run
  obtain ⟨flag', quiet⟩ := guarded _ _ _ checked ((flags.inAwait s).trans flag)
  constructor
  · rw [flags.inAwait', flag', flags.inAwait]
  · intro silent
    rw [(flags.leaving s s₁).2.2.1] at silent
    obtain ⟨silent', all⟩ := quiet silent
    rw [(flags.entering s).2.2.1] at silent'
    exact ⟨silent', all⟩

theorem guarded_insideAwait {trail : Trail} {m : M α} (guarded : Guarded ctx.awaited trail m) :
    Guarded ctx (trail.enter fun s => { s with inAwait := true }) (insideAwait m) := by
  intro s a s' run _
  obtain ⟨s₁, checked, rfl⟩ := run_bracket_eq_some_iff.1 run
  exact ⟨rfl, (guarded _ _ _ checked rfl).2⟩

theorem guarded_checkCallable (ctx : Context) (sym : Symbol) (n : Nat) :
    Guarded ctx (.one (.named ctx sym)) (checkCallable sym n) := by
  intro s a s' run
  obtain ⟨_, _, got, run⟩ := Logic.run_bind_eq_some_iff.1 run
  obtain ⟨rfl, rfl⟩ := Logic.run_get_eq_some_iff.1 got
  have rest : Moves (Guards ctx []) (if sym.params ≠ [] ∧ sym.params.length ≠ n then
      err ("'" ++ sym.name ++ "' expects " ++ toString sym.params.length ++
        " argument(s), got " ++ toString n) else pure ()) := Checks.moves (checks_when (.err _))
  by_cases refused : sym.isAsync = true ∧ s.inAwait = false
  · have isRefused : sym.isAsync = true ∧ (!s.inAwait) = true := by simpa using refused
    simp only [if_pos isRefused] at run
    obtain ⟨_, s₁, gave, run⟩ := Logic.run_bind_eq_some_iff.1 run
    intro flag
    obtain ⟨flag', quiet⟩ := rest _ _ _ run (by cases gave; exact flag)
    cases gave
    refine ⟨flag', fun silent => ?_⟩
    have kept := (quiet silent).1
    simp at kept
  · have notRefused : ¬(sym.isAsync = true ∧ (!s.inAwait) = true) := by simpa using refused
    simp only [if_neg notRefused] at run
    intro flag
    refine Guards.cons ?_ (rest _ _ _ run) flag
    intro isAsync
    rw [← flag]
    exact eq_true_of_ne_false fun outside => refused ⟨isAsync, outside⟩

theorem guarded_checkAssignIdent (ctx : Context) (op : AssignOp) (target : Expr) (rhs : TypeId) :
    Guarded ctx (.one (.target ctx op target)) (checkAssignIdent op target rhs) := by
  intro s a s' run
  have guards : Guards ctx [] s s' := (checks_checkAssignIdent op target rhs).moves _ _ _ run
  by_cases constant : ∃ name sym, identName target = some name ∧
      lookupScopes s.scopes name = some sym ∧ sym.isConst = true
  · obtain ⟨name, sym, isName, found, isConst⟩ := constant
    unfold checkAssignIdent at run
    rw [isName] at run
    obtain ⟨_, _, looked, run⟩ := Logic.run_bind_eq_some_iff.1 run
    cases looked
    rw [found] at run
    simp only [if_pos isConst] at run
    obtain ⟨_, s₁, gave, run⟩ := Logic.run_bind_eq_some_iff.1 run
    cases gave
    cases run
    intro _
    refine ⟨rfl, fun silent => ?_⟩
    simp at silent
  · refine Guards.cons ?_ guards
    intro name sym isName found
    exact eq_false_of_ne_true fun isConst => constant ⟨name, sym, isName, found, isConst⟩

end Rules

theorem guarded_visits : Visits (fun _ => True) fun ctx trail m => Guarded ctx trail m where
  checks checks := guarded_of_moves checks.moves
  seq := guarded_seq
  context same guarded s a s' run flag := guarded s a s' run (flag.trans same.symm)
  inScope := guarded_inScope
  bracket := guarded_bracket
  await := guarded_insideAwait
  named := guarded_checkCallable
  target := guarded_checkAssignIdent
  passed isPassed guarded s a s' run :=
    Guards.cons (Site.passes_of_isPassed (isPassed s)) (guarded s a s' run)

/-! ## Declarations -/

section Declarations

variable {α β : Type} {trail : Trail} {m : M α} {next : α → Trail} {f : α → M β}

theorem guarded_after (first : Moves (Guards .outside []) m)
    (second : ∀ a, Guarded .outside (next a) (f a)) :
    Guarded .outside (.after m next) (m >>= f) := guarded_seq (guarded_of_moves first) second

theorem guarded_result {g : α → β} (first : Guarded .outside trail m) :
    Guarded .outside trail (m >>= fun a => pure (g a)) := guarded_visits.result first

theorem guarded_checkClass (c : ClassDecl) :
    Guarded .outside (sitesClass .checked c) (checkClass c) :=
  guarded_after .get fun _ => guarded_after (tame_checkBases _ _) fun _ =>
    guarded_after (checks_checkContracts _ _).moves fun _ => guarded_visits.classBody c _

mutual

theorem guarded_checkDecl : ∀ d : Decl, Guarded .outside (sitesDecl .checked d) (checkDecl d)
  | .func f => guarded_result (guarded_visits.func f)
  | .cls c => guarded_result (guarded_checkClass c)
  | .namespaceDecl _ decls stmts =>
      guarded_inScope (guarded_after (free_hoistTop decls) fun _ =>
        guarded_seq (guarded_checkDecls decls) fun _ =>
          guarded_result (guarded_visits.stmts .outside stmts))
  | .iface i =>
      guarded_of_moves (Checks.moves (.bind (checks_checkInterface i.members) fun _ => .pure _))
  | .importDecl i => guarded_of_moves (Checks.moves (.bind (checks_checkImport i) fun _ => .pure _))
  | .enum _ | .packageDecl _ | .externDecl _ => guarded_of_moves (.pure _)

theorem guarded_checkDecls : ∀ ds : List Decl,
    Guarded .outside (sitesDecls .checked ds) (checkDecls ds)
  | [] => guarded_of_moves (.pure _)
  | d :: ds =>
      guarded_seq (guarded_checkDecl d) fun _ => guarded_result (guarded_checkDecls ds)

end

end Declarations

/-- In a program without errors, every site passes. -/
theorem passes_of_accepts {prog prog' : Program} {s : State} (accepts : Accepts prog prog' s) :
    ∀ site ∈ sitesOf .checked prog, site.Passes := by
  have guarded : Guarded .outside (.after (hoistTop prog.decls) fun _ =>
      (sitesDecls .checked prog.decls).seq (checkDecls prog.decls) fun _ =>
        sitesStmts .outside prog.stmts) (run prog) :=
    guarded_after (free_hoistTop prog.decls) fun _ =>
      guarded_seq (guarded_checkDecls prog.decls) fun _ =>
        guarded_result (guarded_visits.stmts .outside prog.stmts)
  exact ((guarded _ _ _ accepts.1 rfl).2 accepts.2).2

end Dux.Sema
