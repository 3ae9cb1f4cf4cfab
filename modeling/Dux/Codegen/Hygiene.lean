import Dux.Codegen.ScopingRules

/-!
# Deferred blocks where they are generated

`emit_scope_cleanup`, `emit_all_scope_cleanups` and `gen_defer`
(`src/codegen/codegen.cpp`).  A deferred block is generated anew at every exit of
its scope, in whatever scopes are open there, and without a scope of its own.
-/

namespace Dux.Codegen.Scoping

open Maker

/-! ## Makers above further scopes -/

section Over

variable (base : List Layer)

/-- What a use finds above further scopes. -/
def useOver (use : String × Option Nat) : String × Option Nat :=
  (use.1, use.2.or ((visible base).lookup use.1))

/-- A clean-up registered above further scopes. -/
def Pending.over : Pending → Pending
  | .clear slot => .clear slot
  | .deferred scope body => .deferred (scope ++ visible base) body
  | .call => .call

/-- A scope opened above further scopes. -/
def Layer.over (layer : Layer) : Layer :=
  { layer with pending := layer.pending.map (·.over base) }

/-- A scope on top of the innermost of further scopes. -/
def Layer.onto (layer : Layer) : List Layer → List Layer
  | [] => [layer]
  | below :: outer =>
      ⟨layer.vars ++ below.vars, below.pending ++ layer.pending, below.strs ++ layer.strs⟩ :: outer

/-- Scopes above further scopes, with the innermost of which their last one is
merged. -/
def layersOver : List Layer → List Layer
  | [] => base
  | [layer] => (layer.over base).onto base
  | layer :: layer' :: layers => layer.over base :: layersOver (layer' :: layers)

/-- A place above further scopes. -/
def Place.over (c : Place) : Place := { c with layers := layersOver base c.layers }

/-- An emission above further scopes. -/
def Emission.over (e : Emission) : Emission where
  scope := e.scope ++ visible base
  body := e.body
  before := e.before.over base
  uses := e.uses.map (useOver base)
  after := e.after.over base

/-- A piece above further scopes. -/
def Piece.over (p : Piece) : Piece where
  uses := p.uses.map (useOver base)
  cleaned := p.cleaned
  emissions := p.emissions.map (·.over base)
  place := p.place.over base
  live := p.live

/-- In places with at least `k` scopes in which a deferred block is generated, a
maker does above further scopes what the other one does, and keeps the number of
scopes. -/
def Frames (k : Nat) (m m' : Maker) : Prop := ∀ c : Place, k ≤ c.layers.length →
  c.deferring = true → m (c.over base) = (m' c).map (·.over base) ∧
    ∀ p, m' c = some p → p.place.layers.length = c.layers.length ∧ p.place.deferring = true

variable {base}

theorem visible_over (layers : List Layer) (nonempty : layers ≠ []) :
    visible (layersOver base layers) = visible layers ++ visible base := by
  induction layers with
  | nil => exact absurd rfl nonempty
  | cons layer outer above =>
      cases outer with
      | nil =>
          cases base with
          | nil => simp [layersOver, Layer.onto, Layer.over, visible]
          | cons below outer => simp [layersOver, Layer.onto, Layer.over, visible]
      | cons layer' outer =>
          simp only [layersOver, visible_cons, Layer.over, List.append_assoc] at above ⊢
          rw [above (List.cons_ne_nil _ _)]

theorem lookup_over (name : String) (c : Place) (nonempty : c.layers ≠ []) :
    (c.over base).find name = (c.find name).or ((visible base).lookup name) := by
  simp only [Place.find, Place.vars, Place.over, visible_over c.layers nonempty,
    List.lookup_append]

theorem nonempty_of_le {k : Nat} {layers : List Layer} (le : k + 1 ≤ layers.length) :
    layers ≠ [] := by
  rintro rfl
  exact absurd le (Nat.not_succ_le_zero k)

theorem modifyHead_over {f g : Layer → Layer}
    (passes : ∀ layer, (f layer).over base = g (layer.over base))
    (merges : ∀ layer below, (g layer).onto below = (layer.onto below).modifyHead g)
    {layers : List Layer} (nonempty : layers ≠ []) :
    layersOver base (layers.modifyHead f) = (layersOver base layers).modifyHead g := by
  match layers, nonempty with
  | [layer], _ => exact (congrArg (·.onto base) (passes layer)).trans (merges _ base)
  | layer :: layer' :: outer, _ =>
      simp only [List.modifyHead_cons, layersOver, passes]

theorem clearing_over (slot : Nat) (items : List Item) :
    (items.filterMap (clearing slot)).map (·.over base) = items.filterMap (clearing slot) := by
  induction items with
  | nil => rfl
  | cons item items rest =>
      cases item with
      | cleanup _ => exact congrArg (Pending.clear slot :: ·) rest
      | str _ => exact rest

theorem define_over (name : String) (items : List Item) (c : Place) (nonempty : c.layers ≠ []) :
    (c.over base).define name items = (c.define name items).over base := by
  unfold Place.define Place.over
  rw [← modifyHead_over (f := (·.add name c.next items)) _ _ nonempty]
  · intro layer
    simp [Layer.over, Layer.add, clearing_over]
  · intro layer below
    cases below <;> simp [Layer.onto, Layer.add]

theorem register_over (entry : Pending) (c : Place) (nonempty : c.layers ≠ []) :
    (c.over base).register (entry.over base) = (c.register entry).over base := by
  unfold Place.register Place.over
  rw [← modifyHead_over (f := (·.register entry)) _ _ nonempty]
  · intro layer
    simp [Layer.over, Layer.register]
  · intro layer below
    cases below <;> simp [Layer.onto, Layer.register]

theorem push_over (c : Place) (nonempty : c.layers ≠ []) :
    (c.over base).push = c.push.over base := by
  unfold Place.push Place.over
  cases layers : c.layers with
  | nil => exact absurd layers nonempty
  | cons layer outer => rfl

theorem pop_over (c : Place) (two : 2 ≤ c.layers.length) :
    (c.over base).pop = c.pop.over base := by
  unfold Place.pop Place.over
  match layers : c.layers, two with
  | layer :: layer' :: outer, _ => rfl

theorem top_over (c : Place) (two : 2 ≤ c.layers.length) :
    (c.over base).top = c.top.over base := by
  unfold Place.top Place.over
  match layers : c.layers, two with
  | layer :: layer' :: outer, _ => rfl

/-! ### The parts of the generator -/

variable {k : Nat} {m m' : Maker}

theorem Frames.mono {k' : Nat} (le : k ≤ k') (frames : Frames base k m m') :
    Frames base k' m m' := fun c more deferring => frames c (Nat.le_trans le more) deferring

theorem frames_silent : Frames base k silent silent := fun c _ deferring =>
  ⟨rfl, fun p ran => by
    cases ran
    exact ⟨rfl, deferring⟩⟩

theorem frames_stop : Frames base k stop stop := fun c _ deferring =>
  ⟨rfl, fun p ran => by
    cases ran
    exact ⟨rfl, deferring⟩⟩

theorem frames_use (name : String) : Frames base 1 (use name) (use name) := by
  intro c one deferring
  refine ⟨?_, fun p ran => ?_⟩
  · simp only [use, Option.map_some, Piece.over, List.map_cons, List.map_nil, useOver,
      lookup_over name c (nonempty_of_le one)]
  · cases ran
    exact ⟨rfl, deferring⟩

theorem frames_define (name : String) (items : List Item) :
    Frames base 1 (define name items) (define name items) := by
  intro c one deferring
  refine ⟨?_, fun p ran => ?_⟩
  · simp only [define, Option.map_some, Piece.over, List.map_nil,
      define_over name items c (nonempty_of_le one)]
  · cases ran
    exact ⟨List.length_modifyHead, deferring⟩

theorem frames_call : Frames base 1 (Maker.register .call) (Maker.register .call) := by
  intro c one deferring
  refine ⟨?_, fun p ran => ?_⟩
  · have registered : (c.over base).register (Pending.call.over base) =
        (c.register .call).over base :=
      register_over .call c (nonempty_of_le one)
    simp only [Pending.over] at registered
    simp only [Maker.register, Option.map_some, Piece.over, List.map_nil, registered]
  · cases ran
    exact ⟨List.length_modifyHead, deferring⟩

theorem frames_registerDefer (body : List Stmt) :
    Frames base 1 (registerDefer body) (registerDefer body) := by
  intro c one deferring
  refine ⟨?_, fun p ran => ?_⟩
  · have nonempty := nonempty_of_le one
    have registered : (c.over base).register ((Pending.deferred c.vars body).over base) =
        (c.register (.deferred c.vars body)).over base := register_over _ c nonempty
    have vars : (c.over base).vars = c.vars ++ visible base := visible_over c.layers nonempty
    simp only [Pending.over] at registered
    simp only [registerDefer, Maker.register, Option.map_some, Piece.over, List.map_nil, vars,
      registered]
  · cases ran
    exact ⟨List.length_modifyHead, deferring⟩

theorem frames_chain {next next' : Bool → Maker} (first : Frames base k m m')
    (rest : ∀ live, Frames base k (next live) (next' live)) :
    Frames base k (chain m next) (chain m' next') := by
  intro c enough deferring
  obtain ⟨same, shape⟩ := first c enough deferring
  simp only [chain, same]
  cases ran : m' c with
  | none => exact ⟨rfl, fun _ none => by cases none⟩
  | some p =>
      obtain ⟨length, deferring'⟩ := shape p ran
      obtain ⟨sameNext, shapeNext⟩ := rest p.live p.place (length ▸ enough) deferring'
      simp only [Option.map_some, Option.bind_some, Piece.over, sameNext]
      cases ranNext : next' p.live p.place with
      | none => exact ⟨rfl, fun _ none => by cases none⟩
      | some q =>
          refine ⟨by simp, fun r joined => ?_⟩
          cases joined
          obtain ⟨lengthNext, deferringNext⟩ := shapeNext q ranNext
          exact ⟨lengthNext.trans length, deferringNext⟩

theorem frames_seq {n n' : Maker} (first : Frames base k m m') (second : Frames base k n n') :
    Frames base k (Maker.seq m n) (Maker.seq m' n') :=
  frames_chain first fun live => by
    cases live
    · exact frames_stop
    · exact second

theorem frames_insideLoop (hasHeader : Bool) (label : String) (inner : Frames base k m m') :
    Frames base k (Maker.insideLoop hasHeader label m) (Maker.insideLoop hasHeader label m') := by
  intro c enough deferring
  obtain ⟨same, shape⟩ :=
    inner { c with loops := ⟨hasHeader, label, 0⟩ :: c.loops } enough deferring
  simp only [Place.over] at same
  simp only [Maker.insideLoop, Place.over, same]
  cases ran : m' { c with loops := ⟨hasHeader, label, 0⟩ :: c.loops } with
  | none => exact ⟨rfl, fun _ none => by cases none⟩
  | some p =>
      refine ⟨rfl, fun q joined => ?_⟩
      cases joined
      exact shape p ran

theorem frames_assignName {F F' : String → Bool}
    (known : ∀ name, F' name = (F name || ((visible base).lookup name).isSome)) (name : String)
    (inner : Frames base 1 m m') :
    Frames base 1 (assignName F name m) (assignName F' name m') := by
  intro c one deferring
  have decides : (((c.over base).find name).isSome || F name) =
      ((c.find name).isSome || F' name) := by
    rw [lookup_over name c (nonempty_of_le one), Option.isSome_or, known, Bool.or_assoc,
      Bool.or_comm (F name)]
  unfold assignName
  rw [decides]
  refine frames_chain (frames_seq (frames_use name) inner) (fun _ => ?_) c one deferring
  split
  · exact frames_silent
  · exact frames_define name []

/-! ### Clean-ups -/

section Bodies

variable {D D' : List Stmt → Maker} (bodies : ∀ body, Frames base 1 (D body) (D' body))

include bodies

theorem frames_emitScopeCleanup (entry : Pending) :
    Frames base 1 (emitScopeCleanup D (entry.over base)) (emitScopeCleanup D' entry) := by
  cases entry with
  | clear slot =>
      exact fun c _ deferring => ⟨rfl, fun p ran => by
        cases ran
        exact ⟨rfl, deferring⟩⟩
  | call => exact frames_silent
  | deferred scope body =>
      intro c one deferring
      obtain ⟨same, shape⟩ := bodies body { c with deferring := true } one rfl
      simp only [Place.over] at same
      simp only [Pending.over, emitScopeCleanup, Place.over, same]
      cases ran : D' body { c with deferring := true } with
      | none => exact ⟨rfl, fun _ none => by cases none⟩
      | some p =>
          refine ⟨rfl, fun q joined => ?_⟩
          cases joined
          exact ⟨(shape p ran).1, deferring⟩

theorem frames_emitScopeCleanups (entries : List Pending) :
    Frames base 1 (emitScopeCleanups D (entries.map (·.over base)))
      (emitScopeCleanups D' entries) := by
  induction entries with
  | nil => exact frames_silent
  | cons entry entries rest => exact frames_seq (frames_emitScopeCleanup bodies entry) rest

omit bodies in
theorem frames_releaseStrs (live : Bool) :
    Frames base 2 (releaseStrs (·.top.strs) live) (releaseStrs (·.top.strs) live) := by
  intro c two deferring
  have strs : (c.over base).top.strs = c.top.strs := by rw [top_over c two]; rfl
  cases live with
  | true =>
      simp only [releaseStrs, strs]
      exact ⟨rfl, fun p ran => by
        cases ran
        exact ⟨rfl, deferring⟩⟩
  | false =>
      simp only [releaseStrs, strs]
      split
      · exact ⟨rfl, fun p ran => by
          cases ran
          exact ⟨rfl, deferring⟩⟩
      · exact ⟨rfl, fun _ none => by cases none⟩

theorem frames_envPop : Frames base 2 (envPop D) (envPop D') := by
  intro c two deferring
  unfold envPop
  have entries : (c.over base).top.pending.reverse =
      c.top.pending.reverse.map (·.over base) := by
    rw [top_over c two]
    exact List.map_reverse.symm
  rw [entries]
  exact frames_chain ((frames_emitScopeCleanups bodies _).mono (Nat.le_succ 1))
    frames_releaseStrs c two deferring

omit bodies in
theorem frames_inScope {live : Bool → Bool} (inner : Frames base 2 m m') :
    Frames base 1 (inScope (chain m fun open_ => leave (live open_)))
      (inScope (chain m' fun open_ => leave (live open_))) := by
  intro c one deferring
  obtain ⟨same, shape⟩ := inner c.push (Nat.succ_le_succ one) deferring
  simp only [inScope, chain, push_over c (nonempty_of_le one), same]
  cases ran : m' c.push with
  | none => exact ⟨rfl, fun _ none => by cases none⟩
  | some p =>
      obtain ⟨length, deferring'⟩ := shape p ran
      have two : 2 ≤ p.place.layers.length := length ▸ Nat.succ_le_succ one
      refine ⟨?_, fun q joined => ?_⟩
      · simp only [Option.map_some, Option.bind_some, leave, Piece.over, pop_over p.place two,
          List.append_nil]
      · cases joined
        refine ⟨?_, deferring'⟩
        simp only [Place.pop, List.length_tail, length]
        rfl

omit bodies in
theorem frames_emitJump : Frames base k (emitJump D) (emitJump D') := by
  intro c _ deferring
  have none : ∀ (D : List Stmt → Maker) (c : Place), c.deferring = true →
      emitJump D c = none := by
    intro D c deferring
    simp [emitJump, Maker.seq, chain, emitAll, deferring]
  rw [none D' c deferring, none D (c.over base) deferring]
  exact ⟨rfl, fun _ none => by cases none⟩

omit bodies in
theorem frames_emitTry (inner : Frames base 2 m m') :
    Frames base 1 (emitTry D m) (emitTry D' m') := by
  refine @frames_inScope base _ _ (fun _ => true) (frames_chain inner fun live => ?_)
  intro c _ deferring
  have none : ∀ (D : List Stmt → Maker) (c : Place), c.deferring = true → ∀ next,
      chain (emitAll D) next c = none := by
    intro D c deferring next
    simp [chain, emitAll, deferring]
  rw [none D' c deferring, none D (c.over base) deferring]
  exact ⟨rfl, fun _ none => by cases none⟩

theorem congruent_frames {F F' : String → Bool}
    (known : ∀ name, F' name = (F name || ((visible base).lookup name).isSome)) :
    Congruent (Frames base 1) F F' D D' where
  silent := frames_silent
  stop := frames_stop
  use := frames_use
  define := frames_define
  call := frames_call
  defer := frames_registerDefer
  chain := frames_chain
  assignName name _ _ := frames_assignName known name
  insideLoop hasHeader label _ _ := frames_insideLoop hasHeader label
  withScope inner :=
    frames_inScope (frames_seq (inner.mono (Nat.le_succ 1)) (frames_envPop bodies))
  emitJump := frames_emitJump
  emitBreak toHeader label c one deferring := by
    unfold emitBreak
    simp only [Place.over]
    split
    · exact frames_silent c one deferring
    · exact ⟨rfl, fun _ none => by cases none⟩
    · exact frames_emitJump c one deferring
  emitTry inner := frames_emitTry (inner.mono (Nat.le_succ 1))

omit bodies in
theorem frames_genLevel {ls : Layouts} {F F' : String → Bool}
    (known : ∀ name, F' name = (F name || ((visible base).lookup name).isSome)) (n : Nat)
    (body : List Stmt) : Frames base 1 (genLevel ls F n body) (genLevel ls F' n body) := by
  induction n generalizing body with
  | zero => exact fun _ _ _ => ⟨rfl, fun _ none => by cases none⟩
  | succ n frames => exact (congruent_frames frames known).genStmts ls body

end Bodies

end Over

/-! ## The end of a scope -/

section Cleaned

variable {D : List Stmt → Maker} {c : Place} {p : Piece} {slot : Nat}

theorem cleans_emitScopeCleanups {entries : List Pending}
    (ran : emitScopeCleanups D entries c = some p) (live : p.live = true)
    (member : Pending.clear slot ∈ entries) : slot ∈ p.cleaned := by
  induction entries generalizing c p with
  | nil => exact (List.not_mem_nil member).elim
  | cons entry entries rest =>
      simp only [emitScopeCleanups, Maker.seq, chain, Option.bind_eq_some_iff,
        Option.map_eq_some_iff] at ran
      obtain ⟨q, ran, r, ranRest, rfl⟩ := ran
      split at ranRest
      · cases member with
        | head =>
            cases ran
            exact List.mem_append_left _ (List.mem_singleton_self slot)
        | tail _ member => exact List.mem_append_right _ (rest ranRest live member)
      · cases ranRest
        cases live

/-- A scope whose end is reached cleans up all variables it holds. -/
theorem cleans_envPop (ran : envPop D c = some p) (live : p.live = true)
    (held : Pending.clear slot ∈ c.top.pending ∨ slot ∈ p.place.top.strs) :
    slot ∈ p.cleaned := by
  simp only [envPop, chain, Option.bind_eq_some_iff, Option.map_eq_some_iff] at ran
  obtain ⟨q, ran, r, released, rfl⟩ := ran
  cases open_ : q.live with
  | false =>
      rw [open_] at released
      simp only [releaseStrs, Option.ite_none_right_eq_some, Option.some.injEq] at released
      obtain ⟨_, rfl⟩ := released
      cases live
  | true =>
      rw [open_] at released
      cases released
      rcases held with clear | str
      · exact List.mem_append_left _
          (cleans_emitScopeCleanups ran open_ (List.mem_reverse.2 clear))
      · exact List.mem_append_right _ str

end Cleaned

/-! ## Hygiene -/

/-- The variables of the open scopes, and those that they clean up. -/
def Place.holds (c : Place) : List (Bindings × List Nat × List Nat) := c.layers.map Layer.holds

namespace Emission

variable (ls : Layouts) (F : String → Bool)

/-- A deferred block is generated as one with a scope of its own at the place of
its statement would be: every name in it stands for a variable that the block has
made itself, or for what it stands for at the statement, and the scopes of the
exit are left with the variables and clean-ups they had.  What the block declares
has then gone with scopes it opened itself, whose ends clean it up. -/
structure Hygienic (e : Emission) : Prop where
  resolves : ∀ name found, (name, found) ∈ e.uses →
    (∃ slot, found = some slot ∧ e.before.next ≤ slot) ∨ found = e.scope.lookup name
  contained : e.after.holds = e.before.holds

/-- The names that mean something at the exit: fields and variables. -/
def known (e : Emission) (name : String) : Bool := F name || (e.before.find name).isSome

def bare (e : Emission) : Place := { e.before with layers := [{}], deferring := true }

/-- The block takes a name from outside: it uses the name and has not declared it. -/
def Takes (e : Emission) (name : String) : Prop :=
  ∃ n p, genLevel ls (e.known F) n e.body e.bare = some p ∧ (name, none) ∈ p.uses

/-- The block declares a variable outside of the blocks in it. -/
def Declares (e : Emission) : Prop :=
  ∃ n p, genLevel ls (e.known F) n e.body e.bare = some p ∧ p.place.vars ≠ []

/-- A variable of that name has been declared since the statement, in a scope that
is open at the exit. -/
def Redeclared (e : Emission) (name : String) : Prop :=
  ∃ slot, (name, slot) ∈ e.before.vars ∧ (name, slot) ∉ e.scope

/-- No name the block takes from outside has been declared since its statement,
and the block declares no variable outside of the blocks in it. -/
structure Sheltered (e : Emission) : Prop where
  names : ∀ name, e.Takes ls F name → ¬e.Redeclared name
  nothing : ¬e.Declares ls F

end Emission

section Hygiene

variable {ls : Layouts} {F : String → Bool} {e : Emission}

/-- Among variables with slots of their own, a name stands for one of the older
ones exactly if no newer one has it. -/
theorem lookup_eq_of_suffix {vars scope : Bindings} (suffix : scope <:+ vars)
    (distinct : (vars.map (·.2)).Nodup) (name : String) :
    vars.lookup name = scope.lookup name ↔
      ¬∃ slot, (name, slot) ∈ vars ∧ (name, slot) ∉ scope := by
  obtain ⟨fresh, rfl⟩ := suffix
  rw [List.map_append, List.nodup_append] at distinct
  have apart : ∀ b ∈ fresh, b ∉ scope := fun b new old =>
    distinct.2.2 b.2 (List.mem_map_of_mem new) b.2 (List.mem_map_of_mem old) rfl
  rw [List.lookup_append]
  cases found : fresh.lookup name with
  | none =>
      refine iff_of_true rfl ?_
      rintro ⟨slot, member, newer⟩
      have new := (List.mem_append.1 member).resolve_right newer
      exact absurd (List.lookup_eq_none_iff.1 found _ new) (by simp)
  | some slot =>
      have new := mem_of_lookup found
      refine iff_of_false (fun same => ?_) fun none =>
        none ⟨slot, List.mem_append_left _ new, apart _ new⟩
      exact apart _ new (mem_of_lookup (same.symm.trans rfl))

theorem bare_over (nonempty : e.before.layers ≠ []) :
    e.bare.over e.before.layers = { e.before with deferring := true } := by
  unfold Emission.bare Place.over
  cases layers : e.before.layers with
  | nil => exact absurd layers nonempty
  | cons layer outer => simp [layersOver, Layer.over, Layer.onto, layers]

theorem sound_bare (e : Emission) : e.bare.Sound e.before.next where
  distinct := List.nodup_nil
  range _ member := (List.not_mem_nil member).elim
  start := Nat.le_refl _
  nonempty := List.cons_ne_nil _ _
  inScope := ⟨fun _ _ member => (List.not_mem_nil member).elim, trivial⟩

/-- What a deferred block is on its own. -/
structure Emission.Alone (ls : Layouts) (F : String → Bool) (e : Emission) (p : Piece)
    (layer : Layer) : Prop where
  made : ∃ n, genLevel ls (e.known F) n e.body e.bare = some p
  uses : e.uses = p.uses.map (useOver e.before.layers)
  own : p.place.layers = [layer]
  after : e.after.layers = layersOver e.before.layers [layer]
  grows : ({} : Layer).Grows layer
  fresh : ∀ name slot, (name, some slot) ∈ p.uses → e.before.next ≤ slot

theorem Emission.Real.alone (real : e.Real ls F) : ∃ p layer, e.Alone ls F p layer := by
  obtain ⟨n, p, ran, uses, layers⟩ := real.made
  have frames : Frames e.before.layers 1 (genLevel ls F n e.body)
      (genLevel ls (e.known F) n e.body) := frames_genLevel (fun _ => rfl) n e.body
  obtain ⟨same, shape⟩ := frames e.bare (Nat.le_refl 1) rfl
  rw [bare_over real.sound.nonempty, ran] at same
  obtain ⟨q, ranAlone, rfl⟩ := Option.map_eq_some_iff.1 same.symm
  obtain ⟨length, _⟩ := shape q ranAlone
  have kept := keeps_genLevel n e.body e.bare q (sound_bare e) ranAlone
  obtain ⟨layer, own⟩ := List.length_eq_one_iff.1 length
  refine ⟨q, layer, ⟨n, ranAlone⟩, uses.symm, own, ?_, ?_, kept.uses⟩
  · rw [← layers, ← own]
    rfl
  · have grows := kept.grows.top
    unfold Place.top at grows
    rw [own] at grows
    exact grows

variable {p q : Piece} {layer : Layer}

theorem Emission.Alone.unique (alone : e.Alone ls F p layer) {n : Nat}
    (ran : genLevel ls (e.known F) n e.body e.bare = some q) : q = p := by
  obtain ⟨k, made⟩ := alone.made
  have atTop := genLevel_mono (Nat.le_max_left n k) ran
  rw [genLevel_mono (Nat.le_max_right n k) made] at atTop
  exact (Option.some.inj atTop).symm

theorem Emission.Alone.takes_iff (alone : e.Alone ls F p layer) (name : String) :
    e.Takes ls F name ↔ (name, none) ∈ p.uses := by
  constructor
  · rintro ⟨n, q, ran, member⟩
    exact alone.unique ran ▸ member
  · intro member
    obtain ⟨n, made⟩ := alone.made
    exact ⟨n, p, made, member⟩

theorem Emission.Alone.declares_iff (alone : e.Alone ls F p layer) :
    e.Declares ls F ↔ layer.vars ≠ [] := by
  have vars : p.place.vars = layer.vars := by
    simp [Place.vars, alone.own, visible]
  constructor
  · rintro ⟨n, q, ran, some⟩
    rw [alone.unique ran, vars] at some
    exact some
  · intro some
    obtain ⟨n, made⟩ := alone.made
    exact ⟨n, p, made, vars ▸ some⟩

theorem lookup_ne_fresh (sound : e.before.Sound 0) (name : String) :
    ¬∃ slot, e.before.vars.lookup name = some slot ∧ e.before.next ≤ slot := by
  rintro ⟨slot, found, fresh⟩
  exact absurd (sound.range _ (mem_of_lookup found)).2 (Nat.not_lt.2 fresh)

/-- The names resolve as at the statement exactly if none of those taken from
outside has been declared since. -/
theorem resolves_iff (real : e.Real ls F) (alone : e.Alone ls F p layer) :
    (∀ name found, (name, found) ∈ e.uses →
      (∃ slot, found = some slot ∧ e.before.next ≤ slot) ∨ found = e.scope.lookup name) ↔
      ∀ name, e.Takes ls F name → ¬e.Redeclared name := by
  constructor
  · intro resolves name takes
    have taken := (alone.takes_iff name).1 takes
    have used : (name, e.before.vars.lookup name) ∈ e.uses := by
      rw [alone.uses]
      exact List.mem_map_of_mem taken
    have same := (resolves _ _ used).resolve_left (lookup_ne_fresh real.sound name)
    exact (lookup_eq_of_suffix real.visible real.sound.distinct name).1 same
  · intro names name found member
    rw [alone.uses] at member
    obtain ⟨⟨name', found'⟩, taken, same⟩ := List.mem_map.1 member
    cases same
    cases found' with
    | some slot => exact .inl ⟨slot, rfl, alone.fresh name' slot taken⟩
    | none =>
        have kept := names name' ((alone.takes_iff name').2 taken)
        exact .inr ((lookup_eq_of_suffix real.visible real.sound.distinct name').2 kept)

theorem filterMap_slot_over (base : List Layer) (entries : List Pending) :
    (entries.map (·.over base)).filterMap Pending.slot = entries.filterMap Pending.slot := by
  induction entries with
  | nil => rfl
  | cons entry entries rest =>
      cases entry with
      | clear slot => exact congrArg (slot :: ·) rest
      | deferred _ _ => exact rest
      | call => exact rest

/-- The scopes are left as they were exactly if the block declares nothing outside
of the blocks in it. -/
theorem contained_iff (real : e.Real ls F) (alone : e.Alone ls F p layer) :
    e.after.holds = e.before.holds ↔ ¬e.Declares ls F := by
  rw [alone.declares_iff, not_not]
  unfold Place.holds
  rw [alone.after]
  cases layers : e.before.layers with
  | nil => exact absurd layers real.sound.nonempty
  | cons below outer =>
      simp only [layersOver, Layer.over, Layer.onto, List.map_cons, Layer.holds,
        List.filterMap_append, filterMap_slot_over, List.cons.injEq, Prod.mk.injEq, and_true]
      constructor
      · rintro ⟨vars, _⟩
        exact List.append_left_eq_self.1 vars
      · intro none
        have holds := alone.grows.holds none
        simp only [Layer.holds, Prod.mk.injEq, List.filterMap_nil] at holds
        rw [holds.1, holds.2.1, holds.2.2]
        simp

theorem hygienic_iff_of_real (real : e.Real ls F) : e.Hygienic ↔ e.Sheltered ls F := by
  obtain ⟨p, layer, alone⟩ := real.alone
  constructor
  · intro hygienic
    exact ⟨(resolves_iff real alone).1 hygienic.resolves,
      (contained_iff real alone).1 hygienic.contained⟩
  · intro sheltered
    exact ⟨(resolves_iff real alone).2 sheltered.names,
      (contained_iff real alone).2 sheltered.nothing⟩

theorem sound_foldr_define (vars : Given) {c : Place} {k : Nat} (sound : c.Sound k) :
    (vars.foldr (fun v c => c.define v.1 v.2) c).Sound k := by
  induction vars with
  | nil => exact sound
  | cons v vars rest => exact rest.define v.1 v.2

theorem sound_push_start (outer : List Given) : (start outer).push.Sound 0 := by
  induction outer with
  | nil =>
      exact ⟨List.nodup_nil, fun _ member => (List.not_mem_nil member).elim, Nat.le_refl 0,
        List.cons_ne_nil _ _, fun _ _ member => (List.not_mem_nil member).elim, trivial⟩
  | cons vars outer rest => exact (sound_foldr_define vars rest).push

/-- Every deferred block that is generated anywhere in a body is an emission in a
run. -/
theorem real_of_mem {n : Nat} {params : Given} {outer : List Given} {body : List Stmt}
    (generated : genBody ls F n params outer body = some p) (emitted : e ∈ p.emissions) :
    e.Real ls F := by
  have keeps : Keeps ls F 0 (Maker.seq (genLevel ls F (n + 1) body)
      (emitJump (genLevel ls F n))) :=
    keeps_seq (keeps_genLevel (n + 1) body) (keeps_emitJump (keeps_genLevel n))
  exact (keeps _ p (sound_foldr_define params (sound_push_start outer)) generated).real e emitted

end Hygiene

/-- A deferred block that prints a variable, left by a `return` from a block that
declares nothing and by the end of the body. -/
def printsOwn : List Stmt := [
  .varDecl ⟨2, 3⟩ { name := "int" } false false [.mk "x" (some (.intLit 0 1))],
  .defer ⟨3, 3⟩ [.expr (.call (-1) (.ident 0 "println") [.ident 0 "x"])],
  .ifStmt (.boolLit 0 true) [.returnStmt (some (.intLit 0 0))] .none]

/-- A deferred block that prints a variable, left by a `return` from a block in
which another variable has that name. -/
def shadowed : Program where
  decls := [.func {
    loc := ⟨1, 1⟩, returnType := { name := "int" }, name := "main", params := []
    body := some [
      .varDecl ⟨2, 3⟩ { name := "int" } false false [.mk "x" (some (.intLit 0 1))],
      .defer ⟨3, 3⟩ [.expr (.call 0 (.ident 0 "println") [.ident 0 "x"])],
      .block [
        .varDecl ⟨5, 5⟩ { name := "int" } false false [.mk "x" (some (.intLit 0 2))],
        .returnStmt (some (.intLit 0 0))]] }]
  stmts := []

def onlyBody : Program → Option (List Stmt)
  | ⟨[.func { body := some body, .. }], _⟩ => some body
  | _ => none

end Dux.Codegen.Scoping
