import Dux.Generics.Plain

/-!
# When an expansion is complete

An expansion is complete if no type is left instantiated, every instance that is
asked for has one declaration, and no template remains.  This holds exactly if
the program has nothing to expand where the walks do not look, every instance
has a template of its arity, and no template stands deeper than one namespace.
-/

namespace Dux.Generics

/-! ## Runs of the work list -/

/-- The instance that the next round adds. -/
def WorkState.next (s : WorkState) : Option InstKey :=
  match s.pending with
  | [] => none
  | key :: _ => if key.mangled ∈ s.done then none else some key

namespace GenericProgram

variable (prog : GenericProgram)

def step (s : WorkState) : Option WorkState :=
  workStep prog.templates (fixDecls true prog.decls).1 s

/-- The state after any number of rounds. -/
def Later : WorkState → WorkState → Prop :=
  Relation.ReflTransGen fun s s' => prog.step s = some s'

/-- The states that the work list goes through. -/
def Reaches (s : WorkState) : Prop := prog.Later prog.start s

/-- A walk has met an instance of this name.  There is no walk without templates. -/
def Mentions (name : String) : Prop :=
  prog.templates.isEmpty = false ∧ ∃ s, prog.Reaches s ∧ ∃ key ∈ s.pending, key.mangled = name

/-- The declaration that is generated for an instance. -/
def instanceOf (key : InstKey) : Option GenericDecl :=
  (prog.templates.find key).map fun t => (fixDecl false (t.clone key.mangled key.typeArgs).toDecl).1

end GenericProgram

/-- Whether a declaration is the class or the function of a name. -/
def GenericDecl.declares (name : String) : GenericDecl → Bool
  | .cls c => c.name = name
  | .func f => f.decl.name = name
  | _ => false

def Expansion.decls (x : Expansion) : List GenericDecl := x.generated ++ x.kept

/-- No type has arguments, every instance has one declaration, and there are no
templates. -/
structure Expansion.Complete (prog : GenericProgram) (x : Expansion) : Prop where
  plain : plainDecls x.decls = true ∧ plainStmts x.stmts = true
  once : ∀ name, prog.Mentions name → x.generated.countP (·.declares name) = 1
  concrete : concreteDecls x.decls = true

/-- The program has nothing to expand where the walks do not look, and every
instance the work list takes up has a template of its arity. -/
structure GenericProgram.Covered (prog : GenericProgram) : Prop where
  decls : blindDecls true (keptDecls prog.decls) = true
  stmts : blindStmts prog.stmts = true
  concrete : concreteDecls (keptDecls prog.decls) = true
  instances : ∀ s key, prog.Reaches s → s.next = some key →
    ∃ t, prog.templates.find key = some t ∧
      blindDecl false (t.clone key.mangled key.typeArgs).toDecl = true

/-- A program without templates has nothing to expand, any other is covered. -/
def GenericProgram.Expandable (prog : GenericProgram) : Prop :=
  if prog.templates.isEmpty then
    plainDecls prog.decls = true ∧ plainStmts prog.stmts = true ∧ concreteDecls prog.decls = true
  else prog.Covered

/-! ## One round -/

theorem declares_fixDecl (t : Template) (key : InstKey) (name : String) :
    (fixDecl false (t.clone key.mangled key.typeArgs).toDecl).1.declares name =
      decide (key.mangled = name) := by
  cases t with
  | cls c => simp [Template.clone, Template.toDecl, fixDecl, cloneClassDecl, GenericDecl.declares]
  | func f =>
      simp [Template.clone, Template.toDecl, fixDecl, cloneGenericFunc, fixFuncDecl,
        GenericDecl.declares]

namespace GenericProgram

variable {prog : GenericProgram} {s s' f : WorkState} {key : InstKey} {name : String}

theorem declares_instanceOf {d : GenericDecl} (isInstance : prog.instanceOf key = some d) :
    d.declares name = decide (key.mangled = name) := by
  simp only [instanceOf, Option.map_eq_some_iff] at isInstance
  rcases isInstance with ⟨t, -, rfl⟩
  exact declares_fixDecl t key name

variable (prog) in
theorem step_of_next (next : s.next = some key) :
    ∃ s', prog.step s = some s' ∧ key.mangled ∉ s.done ∧ key ∈ s.pending ∧
      s'.done = key.mangled :: s.done ∧
      s'.newDecls = s.newDecls ++ (prog.instanceOf key).toList ∧
      ∀ k ∈ s.pending, k = key ∨ k ∈ s'.pending := by
  unfold WorkState.next at next
  cases pending : s.pending with
  | nil => simp [pending] at next
  | cons k rest =>
      simp only [pending, Option.ite_none_left_eq_some, Option.some.injEq] at next
      rcases next with ⟨fresh, rfl⟩
      have run : prog.step s = some (takeUp prog.templates (fixDecls true prog.decls).1 k
          { s with done := k.mangled :: s.done, pending := rest }) := by
        simp only [step, workStep, pending, if_neg fresh]
      refine ⟨_, run, fresh, List.mem_cons_self, ?_⟩
      cases found : prog.templates.find k with
      | none => simp [takeUp, found, instanceOf]
      | some t =>
          simp only [takeUp, found, instanceOf, WorkState.push, Option.map_some,
            Option.toList_some, true_and, List.mem_cons, List.mem_append]
          rintro k' (rfl | inRest)
          · exact .inl rfl
          · exact .inr (.inr inRest)

theorem pending_of_no_next (next : s.next = none) (run : prog.step s = some s') :
    ∃ k, s.pending = k :: s'.pending ∧ k.mangled ∈ s.done ∧ s'.done = s.done ∧
      s'.newDecls = s.newDecls := by
  unfold WorkState.next at next
  cases pending : s.pending with
  | nil => simp [step, workStep, pending] at run
  | cons k rest =>
    have done : k.mangled ∈ s.done := by simpa [pending] using next
    simp only [step, workStep, pending, if_pos done, Option.some.injEq] at run
    subst run
    exact ⟨k, rfl, done, rfl, rfl⟩

theorem step_of_no_next (next : s.next = none) (run : prog.step s = some s') :
    s'.done = s.done ∧ s'.newDecls = s.newDecls ∧
      ∀ k ∈ s.pending, k.mangled ∈ s.done ∨ k ∈ s'.pending := by
  obtain ⟨k, pending, done, sameDone, sameDecls⟩ := prog.pending_of_no_next next run
  refine ⟨sameDone, sameDecls, fun k' isPending => ?_⟩
  rw [pending] at isPending
  rcases List.mem_cons.1 isPending with rfl | inRest
  · exact .inl done
  · exact .inr inRest

theorem step_cases (run : prog.step s = some s') :
    (s.next = none ∧ s'.done = s.done ∧ s'.newDecls = s.newDecls ∧
        ∀ k ∈ s.pending, k.mangled ∈ s.done ∨ k ∈ s'.pending) ∨
      ∃ key, s.next = some key ∧ key.mangled ∉ s.done ∧ s'.done = key.mangled :: s.done ∧
        s'.newDecls = s.newDecls ++ (prog.instanceOf key).toList ∧
        ∀ k ∈ s.pending, k = key ∨ k ∈ s'.pending := by
  cases next : s.next with
  | none => exact .inl ⟨rfl, step_of_no_next next run⟩
  | some key =>
      rcases prog.step_of_next next with ⟨s'', run', fresh, -, effect⟩
      obtain rfl : s'' = s' := Option.some.inj (run'.symm.trans run)
      exact .inr ⟨key, rfl, fresh, effect⟩

/-! ## Whole runs -/

theorem later_total (later : prog.Later s s') (later' : prog.Later s f) :
    prog.Later s' f ∨ prog.Later f s' :=
  Relation.ReflTransGen.total_of_right_unique
    (fun _ _ _ run run' => Option.some.inj (run.symm.trans run')) later later'

theorem later_of_finished (finished : f.pending = []) (reached : prog.Reaches s)
    (final : prog.Reaches f) : prog.Later s f := by
  rcases later_total reached final with later | later
  · exact later
  · cases later using Relation.ReflTransGen.head_induction_on with
    | refl => exact .refl
    | head run => simp [step, workStep, finished] at run

theorem Later.grows (later : prog.Later s s') :
    s.done ⊆ s'.done ∧ s.newDecls <+: s'.newDecls := by
  induction later with
  | refl => exact ⟨List.Subset.refl _, List.prefix_refl _⟩
  | tail _ run ih =>
      rcases step_cases run with ⟨-, done, newDecls, -⟩ | ⟨key, -, -, done, newDecls, -⟩
      · rw [done, newDecls]
        exact ih
      · rw [done, newDecls]
        exact ⟨List.subset_cons_of_subset _ ih.1, ih.2.trans (List.prefix_append _ _)⟩

theorem Later.done_of_pending (later : prog.Later s f) (finished : f.pending = [])
    (asked : key ∈ s.pending) : key.mangled ∈ f.done := by
  induction later using Relation.ReflTransGen.head_induction_on with
  | refl => simp [finished] at asked
  | head run later ih =>
      have grows := (Later.grows later).1
      rcases step_cases run with ⟨-, done, -, pending⟩ | ⟨k, -, -, done, -, pending⟩
      · rcases pending key asked with isDone | asked
        · exact grows (done ▸ isDone)
        · exact ih asked
      · rcases pending key asked with rfl | asked
        · exact grows (done ▸ List.mem_cons_self)
        · exact ih asked

theorem Reaches.taken (reached : prog.Reaches s) (isDone : name ∈ s.done) :
    ∃ s₀ key, prog.Reaches s₀ ∧ s₀.next = some key ∧ key.mangled = name := by
  induction reached with
  | refl => simp [start, WorkState.push] at isDone
  | tail reached run ih =>
      rcases step_cases run with ⟨-, done, -⟩ | ⟨key, next, -, done, -⟩
      · exact ih (done ▸ isDone)
      · rw [done] at isDone
        rcases List.mem_cons.mp isDone with rfl | isDone
        · exact ⟨_, key, reached, next, rfl⟩
        · exact ih isDone

theorem Reaches.generated {d : GenericDecl} (reached : prog.Reaches s) (isNew : d ∈ s.newDecls) :
    ∃ s₀ key, prog.Reaches s₀ ∧ s₀.next = some key ∧ prog.instanceOf key = some d := by
  induction reached with
  | refl => simp [start, WorkState.push] at isNew
  | tail reached run ih =>
      rcases step_cases run with ⟨-, -, newDecls, -⟩ | ⟨key, next, -, -, newDecls, -⟩
      · exact ih (newDecls ▸ isNew)
      · rw [newDecls] at isNew
        rcases List.mem_append.mp isNew with isNew | isNew
        · exact ih isNew
        · exact ⟨_, key, reached, next, by simpa using isNew⟩

theorem countP_instanceOf :
    (prog.instanceOf key).toList.countP (·.declares name) =
      if key.mangled = name then (prog.instanceOf key).toList.length else 0 := by
  cases isInstance : prog.instanceOf key with
  | none => simp
  | some d => by_cases same : key.mangled = name <;> simp [declares_instanceOf isInstance, same]

theorem Reaches.countP_eq_zero (reached : prog.Reaches s) (fresh : name ∉ s.done) :
    s.newDecls.countP (·.declares name) = 0 := by
  induction reached with
  | refl => simp [start, WorkState.push]
  | tail reached run ih =>
      rcases step_cases run with ⟨-, done, newDecls, -⟩ | ⟨key, -, -, done, newDecls, -⟩
      · rw [newDecls]
        exact ih (done ▸ fresh)
      · rw [done, List.mem_cons, not_or] at fresh
        rw [newDecls, List.countP_append, ih fresh.2, countP_instanceOf, if_neg (Ne.symm fresh.1)]

theorem Later.countP_eq (later : prog.Later s s') (isDone : name ∈ s.done) :
    s'.newDecls.countP (·.declares name) = s.newDecls.countP (·.declares name) := by
  induction later with
  | refl => rfl
  | tail later run ih =>
      rcases step_cases run with ⟨-, -, newDecls, -⟩ | ⟨key, -, fresh, -, newDecls, -⟩
      · rw [newDecls, ih]
      · have other : key.mangled ≠ name := by
          rintro rfl
          exact fresh ((Later.grows later).1 isDone)
        rw [newDecls, List.countP_append, ih, countP_instanceOf, if_neg other, Nat.add_zero]

/-- An instance that is taken up ends with the declaration it has then. -/
theorem Reaches.countP_taken (reached : prog.Reaches s) (next : s.next = some key)
    (final : prog.Reaches f) (finished : f.pending = []) :
    f.newDecls.countP (·.declares key.mangled) = (prog.instanceOf key).toList.length ∧
      ∀ d, prog.instanceOf key = some d → d ∈ f.newDecls := by
  rcases prog.step_of_next next with ⟨s', run, fresh, -, done, newDecls, -⟩
  have later : prog.Later s' f := later_of_finished finished (reached.tail run) final
  have isDone : key.mangled ∈ s'.done := done ▸ List.mem_cons_self
  constructor
  · rw [later.countP_eq isDone, newDecls, List.countP_append, reached.countP_eq_zero fresh,
      countP_instanceOf, if_pos rfl, Nat.zero_add]
  · intro d isInstance
    exact (Later.grows later).2.subset (by simp [newDecls, isInstance])

theorem pending_of_stop {ts : Templates} {decls : List GenericDecl}
    (stops : workStep ts decls s = none) : s.pending = [] := by
  unfold workStep at stops
  cases pending : s.pending with
  | nil => rfl
  | cons k rest =>
      simp only [pending] at stops
      split at stops <;> contradiction

theorem workLoop_reaches {fuel : Nat} :
    ∀ {s : WorkState}, workLoop prog.templates (fixDecls true prog.decls).1 fuel s = some f →
      prog.Later s f ∧ f.pending = [] := by
  induction fuel with
  | zero => simp [workLoop]
  | succ fuel ih =>
      intro s loop
      unfold workLoop at loop
      cases run : workStep prog.templates (fixDecls true prog.decls).1 s with
      | some s' =>
          simp only [run] at loop
          rcases ih loop with ⟨later, finished⟩
          exact ⟨later.head run, finished⟩
      | none =>
          simp only [run, Option.some.injEq] at loop
          subst loop
          exact ⟨.refl, pending_of_stop run⟩

end GenericProgram

/-! ## The expansion as a whole -/

theorem expandGenerics_cases {fuel : Nat} {prog : GenericProgram} {x : Expansion}
    (returns : expandGenerics fuel prog = some x) (templates : prog.templates.isEmpty = false) :
    ∃ f, prog.Reaches f ∧ f.pending = [] ∧ x.generated = f.newDecls ∧
      x.kept = (fixDecls true (keptDecls prog.decls)).1 ∧ x.stmts = (fixStmts prog.stmts).1 := by
  simp only [expandGenerics, templates, Bool.false_eq_true, if_false, Option.bind_eq_bind,
    Option.pure_def, Option.bind_eq_some_iff, Option.some.injEq] at returns
  rcases returns with ⟨f, loop, rfl⟩
  rcases GenericProgram.workLoop_reaches loop with ⟨final, finished⟩
  exact ⟨f, final, finished, rfl, keptDecls_fixDecls true prog.decls, rfl⟩

/-- An expansion is complete exactly if its program is expandable. -/
theorem expandGenerics_complete_iff {fuel : Nat} {prog : GenericProgram} {x : Expansion}
    (returns : expandGenerics fuel prog = some x) : x.Complete prog ↔ prog.Expandable := by
  unfold GenericProgram.Expandable
  cases templates : prog.templates.isEmpty with
  | true =>
      simp only [expandGenerics, templates, if_true, Option.some.injEq] at returns
      subst returns
      rw [if_pos rfl]
      constructor
      · rintro ⟨⟨decls, stmts⟩, -, concrete⟩
        exact ⟨decls, stmts, concrete⟩
      · rintro ⟨decls, stmts, concrete⟩
        exact ⟨⟨decls, stmts⟩, by simp [GenericProgram.Mentions, templates], concrete⟩
  | false =>
      rcases expandGenerics_cases returns templates with
        ⟨f, final, finished, generated, kept, stmts⟩
      rw [if_neg Bool.false_ne_true]
      have plainKept : plainDecls x.kept = blindDecls true (keptDecls prog.decls) := by
        rw [kept, plainDecls_fixDecls]
      have plainStmts : plainStmts x.stmts = blindStmts prog.stmts := by
        rw [stmts, plainStmts_fixStmts]
      have concreteKept : concreteDecls x.kept = concreteDecls (keptDecls prog.decls) := by
        rw [kept, concreteDecls_fixDecls]
      constructor
      · rintro ⟨⟨plain, plainSt⟩, once, concrete⟩
        rw [Expansion.decls, plainDecls_append, Bool.and_eq_true, plainDecls_iff] at plain
        rw [Expansion.decls, concreteDecls_append, Bool.and_eq_true] at concrete
        refine ⟨plainKept ▸ plain.2, plainStmts ▸ plainSt, concreteKept ▸ concrete.2, ?_⟩
        intro s key reached next
        rcases prog.step_of_next next with ⟨-, -, -, asked, -⟩
        rcases reached.countP_taken next final finished with ⟨count, isNew⟩
        rw [← generated, once _ ⟨templates, s, reached, key, asked, rfl⟩] at count
        cases found : prog.templates.find key with
        | none => simp [GenericProgram.instanceOf, found] at count
        | some t =>
            refine ⟨t, rfl, ?_⟩
            rw [← plainDecl_fixDecl]
            exact plain.1 _ (generated ▸ isNew _ (by simp [GenericProgram.instanceOf, found]))
      · rintro ⟨decls, stmts, concrete, instances⟩
        have ofInstance : ∀ d ∈ x.generated, plainDecl d = true ∧ concreteDecl d = true := by
          intro d isNew
          rcases final.generated (generated ▸ isNew) with ⟨s, key, reached, next, isInstance⟩
          rcases instances s key reached next with ⟨t, found, blind⟩
          simp only [GenericProgram.instanceOf, found, Option.map_some, Option.some.injEq]
            at isInstance
          subst isInstance
          exact ⟨(plainDecl_fixDecl _ _).trans blind,
            (concreteDecl_fixDecl _ _).trans (concreteDecl_clone _ _ _)⟩
        constructor
        · rw [Expansion.decls, plainDecls_append, Bool.and_eq_true, plainDecls_iff]
          exact ⟨⟨fun d isNew => (ofInstance d isNew).1, plainKept.trans decls⟩,
            plainStmts.trans stmts⟩
        · rintro name ⟨-, s, reached, key, asked, rfl⟩
          have later := GenericProgram.later_of_finished finished reached final
          rcases final.taken (later.done_of_pending finished asked) with
            ⟨s₀, key₀, reached₀, next, same⟩
          rcases instances s₀ key₀ reached₀ next with ⟨t, found, -⟩
          rw [generated, ← same, (reached₀.countP_taken next final finished).1]
          simp [GenericProgram.instanceOf, found]
        · rw [Expansion.decls, concreteDecls_append, Bool.and_eq_true, concreteDecls_iff]
          exact ⟨fun d isNew => (ofInstance d isNew).2, concreteKept.trans concrete⟩

/-- A template, a variable of one of its instances, and a class with a field of
the same instance that is initialised where it is declared. -/
def boxHolder (init : Option Expr) : GenericProgram where
  decls :=
    [.cls { name := "Box", typeParams := ["T"],
            members := [.field { type := { name := "T" }, name := "value" }] },
     .cls { name := "Holder", typeParams := [],
            members := [.field { type := { name := "Box", typeArgs := [{ name := "int" }] },
                                 name := "box", init := init }] }]
  stmts := []

/-- A field without an initialiser. -/
theorem expandGenerics_complete_boxHolder : ∃ x, expandGenerics 3 (boxHolder none) = some x ∧
    (x.Complete (boxHolder none) ↔ (boxHolder none).Expandable) := by
  have terminates : (expandGenerics 3 (boxHolder none)).isSome = true := rfl
  rcases Option.isSome_iff_exists.mp terminates with ⟨x, returns⟩
  exact ⟨x, returns, expandGenerics_complete_iff returns⟩

/-- A field initialised by `new Box<int>()` keeps the instantiated type, and no
error is reported. -/
theorem not_expandGenerics_complete :
    ¬ ∀ fuel prog x, expandGenerics fuel prog = some x → x.errors = [] → x.Complete prog := by
  intro always
  have complete := always 3
    (boxHolder (some (.new (-1) { name := "Box", typeArgs := [{ name := "int" }] } []))) _ rfl rfl
  exact absurd complete.plain.1 (by decide)

end Dux.Generics
