import Dux.Sema.Walks

/-!
# When the walks start

Hoisting makes links between classes but follows none.  Walks start where a
function, the body of a class or statements are checked.  These moments are listed with
the classes that the analysis has met before, as what these declare tells the parents.
-/

namespace Dux.Sema

open TypeRegistry
open Logic (Moves Returns)

/-! ## Hoisting returns -/

theorem Checks.returns {α : Type} {m : M α} (checks : Checks (fun _ => True) False m) :
    Returns m := by
  induction checks with
  | pure a => exact .pure a
  | bind _ _ first second => exact .bind first second
  | read _ each => exact .read fun s => each s trivial
  | err | warn => exact .modify _
  | define name sym => exact returns_define name sym
  | types _ => exact fun _ => ⟨_, _, rfl⟩
  | assignable allowed | unify allowed | memberFound allowed => exact allowed.elim

theorem returns_withTypes {α : Type} (f : TypeRegistry → α × TypeRegistry) :
    Returns (withTypes f) := fun _ => ⟨_, _, rfl⟩

theorem returns_err_unless (c : Bool) (msg : String) : Returns (if !c then err msg else pure ()) :=
  .ite (fun _ => .modify _) fun _ => .pure _

theorem returns_addInterfaces (id : TypeId) (bases : List String) :
    Returns (addInterfaces id bases) := by
  induction bases with
  | nil => exact .pure _
  | cons base bases ih =>
    apply Returns.read
    intro s
    exact .ite (fun _ => .bind (returns_withTypes _) fun _ => ih) fun _ => ih

theorem returns_hoistClass (c : ClassDecl) : Returns (hoistClass c) := by
  apply Returns.bind (returns_withTypes _)
  intro id
  have defines : Returns (do
      let isNew ← define c.name { name := c.name, kind := .cls, type := id, decl := .cls c }
      if !isNew then err ("class '" ++ c.name ++ "' already declared") : M Unit) :=
    .bind (returns_define _ _) fun _ => returns_err_unless _ _
  split
  · exact defines
  · apply Returns.read
    intro s
    apply Returns.bind (returns_withTypes _)
    exact fun _ => .bind (returns_addInterfaces _ _) fun _ => defines

theorem returns_hoistInterface (i : InterfaceDecl) : Returns (hoistInterface i) :=
  .bind (returns_withTypes _) fun _ =>
    .bind (returns_define _ _) fun _ => returns_err_unless _ _

theorem returns_defineVariants (enumName : String) (id : TypeId) (variants : List EnumVariant) :
    Returns (defineVariants enumName id variants) := by
  induction variants with
  | nil => exact .pure _
  | cons v vs ih => exact .bind (.modify _) fun _ => ih

theorem returns_hoistEnum (e : EnumDecl) : Returns (hoistEnum e) := by
  apply Returns.bind (returns_withTypes _)
  intro id
  apply Returns.read
  intro s
  apply Returns.bind (returns_withTypes _)
  intro _
  apply Returns.bind (returns_defineVariants _ _ _)
  exact fun _ => .bind (returns_define _ _) fun _ => returns_err_unless _ _

theorem returns_promote (ns : String) (sc : Scope) : Returns (promote ns sc) := by
  induction sc with
  | nil => exact .pure _
  | cons entry rest ih =>
    exact .bind (.modify _) fun _ => .bind (.modify _) fun _ => ih

mutual

theorem returns_hoistDecl : ∀ d : Decl, Returns (hoistDecl d)
  | .cls c => returns_hoistClass c
  | .iface i => returns_hoistInterface i
  | .enum e => returns_hoistEnum e
  | .func _ => .bind (checks_typeFromTe _).returns fun _ =>
      .bind (checks_typesOfParams _).returns fun _ =>
        .bind (returns_define _ _) fun _ => returns_err_unless _ _
  | .externDecl _ => .bind (checks_typeFromTe _).returns fun _ =>
      .bind (checks_typesOfParams _).returns fun _ =>
        .bind (returns_define _ _) fun _ => .pure _
  | .importDecl _ => .pure _
  | .packageDecl _ => .pure _
  | .namespaceDecl name decls _ =>
      .bind (returns_define _ _) fun _ => .bind (.modify _) fun _ =>
        .bind (returns_hoistTop decls) fun _ => .read fun _ =>
          .bind (returns_promote name _) fun _ => .modify _

theorem returns_hoistTop : ∀ ds : List Decl, Returns (hoistTop ds)
  | [] => .pure _
  | d :: ds => .bind (returns_hoistDecl d) fun _ => returns_hoistTop ds

end

theorem returns_checkBases (type : TypeId) (bases : List String) :
    Returns (checkBases type bases) := by
  induction bases with
  | nil => exact .pure _
  | cons base bases ih =>
    apply Returns.bind (.read fun _ => .pure _)
    intro found
    split
    · exact .bind (.modify _) fun _ => ih
    · exact .ite (fun _ => .bind (.modify _) fun _ => ih)
        fun _ => .bind (returns_withTypes _) fun _ => ih

/-! ## The moments -/

/-- A state in which walks start, with the classes met before. -/
structure Moment where
  events : List Event
  state : State

/-- The moment, seen from before some classes were met. -/
def Moment.behind (events : List Event) (m : Moment) : Moment :=
  { m with events := events ++ m.events }

mutual

/-- The moments of checking a declaration. -/
def checkMoments : Decl → State → List Moment
  | .func _, s => [⟨[], s⟩]
  | .cls c, s => [⟨[.check c s], stateAfter (checkBases (s.types.fromName c.name) c.bases) s⟩]
  | .namespaceDecl _ decls _, s =>
      let entered := stateAfter (do push; hoistTop decls) s
      let inside := checkMomentsAll decls entered ++
        [⟨checkEventsAll decls entered, stateAfter (checkDecls decls) entered⟩]
      inside.map (·.behind (hoistEventsAll decls (stateAfter push s)))
  | .iface _, _ | .enum _, _ | .externDecl _, _ | .importDecl _, _ | .packageDecl _, _ => []

/-- The moments of checking declarations, in order. -/
def checkMomentsAll : List Decl → State → List Moment
  | [], _ => []
  | d :: ds, s =>
      checkMoments d s ++
        (checkMomentsAll ds (stateAfter (checkDecl d) s)).map (·.behind (checkEvents d s))

end

/-- The moments of the analysis of a program; the last one stands before its statements. -/
def momentsOf (prog : Program) : List Moment :=
  let hoisted := stateAfter (hoistTop prog.decls) .initial
  let inside := checkMomentsAll prog.decls hoisted ++
    [⟨checkEventsAll prog.decls hoisted, stateAfter (checkDecls prog.decls) hoisted⟩]
  inside.map (·.behind (hoistEventsAll prog.decls .initial))

/-- The state is what the classes met before have led to. -/
def Moment.From (s : State) (m : Moment) : Prop := Follows m.events s m.state

theorem Moment.From.behind {s s' : State} {m : Moment} {events : List Event}
    (before : Follows events s s') (at' : m.From s') : (m.behind events).From s :=
  Follows.trans _ _ _ before at'

/-- No loop of the parents from these on at any of the moments. -/
def Never (up : TypeId → TypeId) (moments : List Moment) : Prop :=
  ∀ m ∈ moments, Unlooped (linked m.events up)

section Never

variable {up : TypeId → TypeId} {left right : List Moment}

theorem never_append : Never up (left ++ right) ↔ Never up left ∧ Never up right :=
  List.forall_mem_append

theorem never_behind {events : List Event} :
    Never up (left.map (·.behind events)) ↔ Never (linked events up) left := by
  unfold Never
  rw [List.forall_mem_map]
  simp only [Moment.behind, linked_append]

theorem never_singleton {m : Moment} : Never up [m] ↔ Unlooped (linked m.events up) :=
  List.forall_mem_singleton

end Never

theorem Follows.parents {events : List Event} {s s' : State} (follows : Follows events s s')
    (sound : SoundState s) : s'.types.parentOf = linked events s.types.parentOf :=
  funext (follows sound).2.2.1

theorem Follows.clear {events : List Event} {s s' : State} (follows : Follows events s s')
    (sound : SoundState s) (unlooped : Unlooped (linked events s.types.parentOf)) : Clear s' := by
  constructor
  · exact (follows sound).1
  · rw [follows.parents sound]
    exact unlooped

/-! ## What has led to the moments -/

mutual

theorem from_checkDecl : ∀ (d : Decl) {s s' : State} {d' : Decl},
    (checkDecl d).run s = some (d', s') → ∀ m ∈ checkMoments d s, m.From s
  | .func _, s, _, _, _, m, member => by
    cases List.mem_singleton.1 member
    exact IsPreorder.toRefl.refl (r := Follows []) s
  | .cls c, s, _, _, run, m, member => by
    cases List.mem_singleton.1 member
    obtain ⟨_, s₁, bases⟩ := returns_checkBases (s.types.fromName c.name) c.bases s
    rw [stateAfter_eq bases]
    exact follows_basesOf c bases
  | .namespaceDecl name decls stmts, s, s', _, run, m, member => by
    obtain ⟨_, s₁, pushed, run⟩ := Logic.run_bind_eq_some_iff.1 run
    obtain ⟨d', s₅, inside, run⟩ := Logic.run_bind_eq_some_iff.1 run
    obtain ⟨_, s₂, hoisted, inside⟩ := Logic.run_bind_eq_some_iff.1 inside
    obtain ⟨decls', s₃, checked, inside⟩ := Logic.run_bind_eq_some_iff.1 inside
    have entered : stateAfter (do push; hoistTop decls) s = s₂ :=
      stateAfter_eq (Logic.run_bind_eq_some_iff.2 ⟨_, _, pushed, hoisted⟩)
    have before : Follows (hoistEventsAll decls s₁) s s₂ :=
      Follows.trans _ _ _ (follows_push _ _ _ pushed) (traces_hoistTop decls hoisted)
    rw [checkMoments, stateAfter_eq pushed, entered] at member
    obtain ⟨m', member', rfl⟩ := List.mem_map.1 member
    apply Moment.From.behind before
    rcases List.mem_append.1 member' with inDecls | last
    · exact from_checkDecls decls checked m' inDecls
    · cases List.mem_singleton.1 last
      rw [stateAfter_eq checked]
      exact traces_checkDecls decls checked
  | .iface _, _, _, _, _, _, member | .enum _, _, _, _, _, _, member
  | .externDecl _, _, _, _, _, _, member | .importDecl _, _, _, _, _, _, member
  | .packageDecl _, _, _, _, _, _, member => by cases member

theorem from_checkDecls : ∀ (ds : List Decl) {s s' : State} {ds' : List Decl},
    (checkDecls ds).run s = some (ds', s') → ∀ m ∈ checkMomentsAll ds s, m.From s
  | [], _, _, _, _, _, member => by cases member
  | d :: ds, s, s', _, run, m, member => by
    obtain ⟨d', s₁, first, run⟩ := Logic.run_bind_eq_some_iff.1 run
    obtain ⟨ds', s₂, rest, done⟩ := Logic.run_bind_eq_some_iff.1 run
    rw [checkMomentsAll, stateAfter_eq first] at member
    rcases List.mem_append.1 member with here | behind
    · exact from_checkDecl d first m here
    · obtain ⟨m', member', rfl⟩ := List.mem_map.1 behind
      exact Moment.From.behind (traces_checkDecl d first) (from_checkDecls ds rest m' member')

end

theorem from_of_run {prog prog' : Program} {s : State}
    (returns : (run prog).run .initial = some (prog', s)) :
    ∀ m ∈ momentsOf prog, m.From .initial := by
  obtain ⟨_, s₁, hoisted, returns⟩ := Logic.run_bind_eq_some_iff.1 returns
  obtain ⟨decls, s₂, checked, returns⟩ := Logic.run_bind_eq_some_iff.1 returns
  intro m member
  rw [momentsOf, stateAfter_eq hoisted] at member
  obtain ⟨m', member', rfl⟩ := List.mem_map.1 member
  apply Moment.From.behind (traces_hoistTop prog.decls hoisted)
  rcases List.mem_append.1 member' with inDecls | last
  · exact from_checkDecls prog.decls checked m' inDecls
  · cases List.mem_singleton.1 last
    rw [stateAfter_eq checked]
    exact traces_checkDecls prog.decls checked

/-! ## Checking returns -/

mutual

theorem returns_checkDecl : ∀ (d : Decl) {s : State}, SoundState s →
    Never s.types.parentOf (checkMoments d s) → ∃ d' s', (checkDecl d).run s = some (d', s')
  | .func f, s, sound, never => by
    have clear : Clear s := ⟨sound, never_singleton.1 never⟩
    obtain ⟨f', s', run, -⟩ := settles_checkFunc f s clear
    exact ⟨.func f', s', Logic.run_bind_eq_some_iff.2 ⟨f', s', run, rfl⟩⟩
  | .cls c, s, sound, never => by
    obtain ⟨_, s₁, bases⟩ := returns_checkBases (s.types.fromName c.name) c.bases s
    have clear₁ : Clear s₁ := (follows_basesOf c bases).clear sound (never_singleton.1 never)
    obtain ⟨_, s₂, contracts, follows⟩ := (checks_checkContracts c c.bases).settles s₁ clear₁
    obtain ⟨c', s', body, -⟩ :=
      settles_checkClassBody c (s.types.fromName c.name) s₂ (clear₁.follows follows)
    have checked : (checkClass c).run s = some (c', s') := by
      unfold checkClass
      simp only [Logic.run_bind_eq_some_iff]
      exact ⟨s, s, rfl, (), s₁, bases, (), s₂, contracts, body⟩
    exact ⟨.cls c', s', Logic.run_bind_eq_some_iff.2 ⟨c', s', checked, rfl⟩⟩
  | .iface i, s, _, _ => by
    obtain ⟨_, s', run⟩ := (checks_checkInterface i.members).returns s
    exact ⟨.iface i, s', Logic.run_bind_eq_some_iff.2 ⟨(), s', run, rfl⟩⟩
  | .importDecl i, s, _, _ => by
    obtain ⟨_, s', run⟩ := (checks_checkImport i).returns s
    exact ⟨.importDecl i, s', Logic.run_bind_eq_some_iff.2 ⟨(), s', run, rfl⟩⟩
  | .enum e, s, _, _ => ⟨.enum e, s, rfl⟩
  | .packageDecl name, s, _, _ => ⟨.packageDecl name, s, rfl⟩
  | .externDecl e, s, _, _ => ⟨.externDecl e, s, rfl⟩
  | .namespaceDecl name decls stmts, s, sound, never => by
    obtain ⟨_, s₁, pushed⟩ : ∃ a s₁, push.run s = some (a, s₁) := ⟨_, _, rfl⟩
    obtain ⟨_, s₂, hoisted⟩ := returns_hoistTop decls s₁
    have entered : stateAfter (do push; hoistTop decls) s = s₂ :=
      stateAfter_eq (Logic.run_bind_eq_some_iff.2 ⟨_, _, pushed, hoisted⟩)
    have before : Follows (hoistEventsAll decls s₁) s s₂ :=
      Follows.trans _ _ _ (follows_push _ _ _ pushed) (traces_hoistTop decls hoisted)
    rw [checkMoments, stateAfter_eq pushed, entered, never_behind, ← before.parents sound,
      never_append, never_singleton] at never
    obtain ⟨decls', s₃, checked⟩ := returns_checkDecls decls (before sound).1 never.1
    have clear : Clear s₃ :=
      Follows.clear (traces_checkDecls decls checked) (before sound).1 never.2
    obtain ⟨stmts', s₄, bodies, -⟩ := settles_checkStmts stmts s₃ clear
    obtain ⟨_, s', popped⟩ : ∃ a s', pop.run s₄ = some (a, s') := ⟨_, _, rfl⟩
    refine ⟨.namespaceDecl name decls' stmts', s', ?_⟩
    unfold checkDecl inScope
    simp only [Logic.run_bind_eq_some_iff]
    exact ⟨_, s₁, pushed, _, s₄, ⟨_, s₂, hoisted, decls', s₃, checked, stmts', s₄, bodies, rfl⟩,
      _, s', popped, rfl⟩

theorem returns_checkDecls : ∀ (ds : List Decl) {s : State}, SoundState s →
    Never s.types.parentOf (checkMomentsAll ds s) → ∃ ds' s', (checkDecls ds).run s = some (ds', s')
  | [], s, _, _ => ⟨[], s, rfl⟩
  | d :: ds, s, sound, never => by
    rw [checkMomentsAll, never_append] at never
    obtain ⟨d', s₁, first⟩ := returns_checkDecl d sound never.1
    have before := traces_checkDecl (R := Follows) d first
    have after := never.2
    rw [stateAfter_eq first, never_behind, ← before.parents sound] at after
    obtain ⟨ds', s', rest⟩ := returns_checkDecls ds (before sound).1 after
    exact ⟨d' :: ds', s', Logic.run_bind_eq_some_iff.2 ⟨d', s₁, first,
      Logic.run_bind_eq_some_iff.2 ⟨ds', s', rest, rfl⟩⟩⟩

end

theorem returns_run {prog : Program}
    (never : Never TypeRegistry.initial.parentOf (momentsOf prog)) :
    ∃ prog' s, (run prog).run .initial = some (prog', s) := by
  obtain ⟨_, s₁, hoisted⟩ := returns_hoistTop prog.decls .initial
  have before := traces_hoistTop (R := Follows) prog.decls hoisted
  have parents := before.parents soundState_initial
  rw [momentsOf, stateAfter_eq hoisted, never_behind] at never
  rw [show TypeRegistry.initial = State.initial.types from rfl, ← parents, never_append,
    never_singleton] at never
  obtain ⟨decls, s₂, checked⟩ := returns_checkDecls prog.decls (before soundState_initial).1 never.1
  have clear : Clear s₂ :=
    Follows.clear (traces_checkDecls prog.decls checked) (before soundState_initial).1 never.2
  obtain ⟨stmts, s, bodies, -⟩ := settles_checkStmts prog.stmts s₂ clear
  refine ⟨⟨decls, stmts⟩, s, ?_⟩
  unfold run
  simp only [Logic.run_bind_eq_some_iff]
  exact ⟨_, s₁, hoisted, decls, s₂, checked, stmts, s, bodies, rfl⟩

/-! ## The walks at the moments -/

/-- Every walk from a type comes to its end. -/
structure WalksEnd (s : State) : Prop where
  isSubtype : ∀ child ancestor, (s.types.isSubtype child ancestor).isSome = true
  satisfies : ∀ cls iface, (s.types.satisfies cls iface).isSome = true
  memberFound : ∀ member t, (memberFound s.types (s.scopes.getLastD []) member
    (s.types.types.length + 1) t).isSome = true

theorem walksEnd_iff {s : State} (sound : SoundState s) :
    WalksEnd s ↔ Unlooped s.types.parentOf := by
  constructor
  · exact fun walks => sound.types.unlooped_of_answers fun child => walks.isSubtype child _
  · intro unlooped
    constructor
    · exact isSome_isSubtype sound.types unlooped
    · exact isSome_satisfies sound.types unlooped
    · exact fun member t =>
        isSome_memberFound _ member (sound.types.ends_parentStep unlooped t)

/-- The analysis returns, and wherever it starts walks, they end. -/
def AnalysisEnds (prog : Program) : Prop :=
  (∃ prog' s, (run prog).run .initial = some (prog', s)) ∧ ∀ m ∈ momentsOf prog, WalksEnd m.state

theorem analysisEnds_iff (prog : Program) :
    AnalysisEnds prog ↔ Never TypeRegistry.initial.parentOf (momentsOf prog) := by
  have ends {prog' : Program} {s : State} (returns : (run prog).run .initial = some (prog', s))
      {m : Moment} (member : m ∈ momentsOf prog) :
      WalksEnd m.state ↔ Unlooped (linked m.events TypeRegistry.initial.parentOf) := by
    have led : Follows m.events .initial m.state := from_of_run returns m member
    rw [walksEnd_iff (led soundState_initial).1, led.parents soundState_initial]
    rfl
  constructor
  · rintro ⟨⟨prog', s, returns⟩, walks⟩
    exact fun m member => (ends returns member).1 (walks m member)
  · intro never
    obtain ⟨prog', s, returns⟩ := returns_run never
    constructor
    · exact ⟨prog', s, returns⟩
    · exact fun m member => (ends returns member).2 (never m member)

end Dux.Sema
