import Dux.Codegen.Cleanups

/-!
# Emitted code runs what its frames list

The scope stack of the emitter and the live scopes of a run stay in step: where
a piece of code begins, the frames of the emitter are those of the live scopes.
From this every record that a run makes is faithful, whatever the world answers
and whichever way the code is left.
-/

namespace Dux.Codegen

open Dux.Logic (Outcome Run)
open Dux.Logic.Run (Holds Post)
open Emitter (code stop fail seq node arms fork register insideLoop)

/-! ## Registering -/

@[simp]
theorem Ctx.registerAll_nil (ctx : Ctx) : ctx.registerAll [] = ctx := rfl

theorem Ctx.registerAll_append (ctx : Ctx) (xs xs' : List Item) :
    ctx.registerAll (xs ++ xs') = (ctx.registerAll xs).registerAll xs' := by
  simp [registerAll, List.foldl_append]

theorem Ctx.registerAll_eq (ctx : Ctx) (xs : List Item) :
    ctx.registerAll xs =
      { ctx with scopes := ctx.scopes.modifyHead fun frame => xs.foldl Frame.add frame } := by
  induction xs generalizing ctx with
  | nil => rcases ctx with ⟨_ | ⟨top, scopes⟩, loops⟩ <;> rfl
  | cons x xs ih =>
      have next := ih (ctx.register x)
      rcases ctx with ⟨_ | ⟨top, scopes⟩, loops⟩ <;> exact next

@[simp]
theorem Ctx.registerAll_loops (ctx : Ctx) (xs : List Item) :
    (ctx.registerAll xs).loops = ctx.loops := by
  rw [registerAll_eq]

theorem Ctx.Quiet.registerAll {ls : Layouts} {ctx : Ctx} (quiet : ctx.Quiet ls) {xs : List Item}
    (quietItems : ∀ x ∈ xs, x.Quiet ls) : (ctx.registerAll xs).Quiet ls := by
  induction xs generalizing ctx with
  | nil => exact quiet
  | cons x xs ih =>
      apply ih (quiet.register (quietItems x List.mem_cons_self))
      exact fun x' member => quietItems x' (List.mem_cons_of_mem _ member)

@[simp]
theorem registerLive_nil (live : List LiveScope) : registerLive live [] = live := by
  cases live <;> rfl

theorem registerLive_append (live : List LiveScope) (xs xs' : List Item) :
    registerLive live (xs ++ xs') = registerLive (registerLive live xs) xs' := by
  cases live with
  | nil => rfl
  | cons scope live => simp [registerLive, LiveScope.addAll, List.foldl_append]

/-- The emitter lists for the live scopes what it has in its frames. -/
def Shows (live : List LiveScope) (ctx : Ctx) : Prop :=
  live.map (·.listed) = ctx.scopes.map (·.listed)

theorem Shows.scopes {live : List LiveScope} {ctx : Ctx} (shows_ : Shows live ctx) :
    ctx.scopes.map (·.listed) = live.map (·.listed) :=
  shows_.symm

@[simp]
theorem isStr_entry (c : ScopeCleanup) : c.entry.isStr = false := by
  cases c <;> rfl

@[simp]
theorem isStr_str (slot : Slot) : (Entry.str slot).isStr = true := rfl

@[simp]
theorem listed_add (frame : Frame) (x : Item) :
    (frame.add x).listed = addListed frame.listed x.entry := by
  cases x with
  | cleanup c => simp [Frame.add, Frame.listed, addListed, Item.entry]
  | str slot => simp [Frame.add, Frame.listed, addListed, Item.entry]

theorem listed_addAll {scope : LiveScope} {frame : Frame} (same : scope.listed = frame.listed)
    (xs : List Item) :
    (scope.addAll xs).listed = (xs.foldl Frame.add frame).listed := by
  induction xs generalizing scope frame with
  | nil => exact same
  | cons x xs ih =>
      apply ih
      rw [listed_add, ← same]
      rfl

theorem known_addAll {scope : LiveScope} (known : scope.listed = reordered scope.entries)
    (xs : List Item) :
    (scope.addAll xs).listed = reordered (scope.addAll xs).entries := by
  induction xs generalizing scope with
  | nil => exact known
  | cons x xs ih =>
      apply ih
      simp [LiveScope.add, reordered, known]

theorem Shows.registerAll {live : List LiveScope} {ctx : Ctx} (shows_ : Shows live ctx)
    (xs : List Item) : Shows (registerLive live xs) (ctx.registerAll xs) := by
  unfold Shows at shows_ ⊢
  rw [Ctx.registerAll_eq]
  rcases ctx with ⟨scopes, loops⟩
  cases live with
  | nil =>
      cases scopes with
      | nil => rfl
      | cons frame scopes => cases shows_
  | cons scope live =>
      cases scopes with
      | nil => cases shows_
      | cons frame scopes =>
          have both : scope.listed = frame.listed ∧
              live.map (·.listed) = scopes.map (·.listed) := by simpa using shows_
          simp [registerLive, listed_addAll both.1, both.2]

/-! ## Sound emitters -/

section Sound

variable {σ : Type} (W : World σ) (N : Nat) (ls : Layouts)

/-- The code of the emitter keeps the records faithful, and at its end the
items `xs` have been registered in the innermost scope.  When the block ends
before the end of the piece, it may be only the first of them. -/
def Sound (e : Emitter) (xs : List Item) : Prop :=
  ∀ ctx r, ctx.Quiet ls → e ctx = some r →
    ∃ new, new <+: xs ∧ (r.live = true → new = xs) ∧ r.ctx = ctx.registerAll new ∧
      ∀ live openSteps, Shows live ctx →
        Holds (At live openSteps) (exec W N r.code)
          (fun s => r.live = true ∧ At (registerLive live new) openSteps s)
          (Leaves ctx.loops live.tail openSteps)

/-- The code of the emitter keeps the records faithful and leaves all scopes as
they are. -/
def Closed (e : Emitter) : Prop :=
  ∀ ctx r, ctx.Quiet ls → e ctx = some r →
    r.ctx = ctx ∧ ∀ live openSteps, Shows live ctx →
      Holds (At live openSteps) (exec W N r.code)
        (fun s => r.live = true ∧ At live openSteps s) (Leaves ctx.loops live openSteps)

variable {W N ls} {e e' : Emitter} {xs xs' : List Item} {es es' : List Entry}

theorem Closed.sound (closed : Closed W N ls e) : Sound W N ls e [] := by
  intro ctx r quiet emits
  rcases closed ctx r quiet emits with ⟨same, holds⟩
  refine ⟨[], List.nil_prefix, fun _ => rfl, same, fun live openSteps shows_ => ?_⟩
  apply (holds live openSteps shows_).post
  · intro s ends
    rw [registerLive_nil]
    exact ends
  · exact fun o s _ leaves => leaves.tail

theorem seq_eq_some {ctx : Ctx} {r : Emitted} (emits : seq e e' ctx = some r) :
    ∃ first, e ctx = some first ∧
      (first.live = false ∧ r = first ∨
        ∃ second, first.live = true ∧ e' first.ctx = some second ∧
          r = ⟨first.code ++ second.code, second.ctx, second.live⟩) := by
  rcases Option.bind_eq_some_iff.mp emits with ⟨first, found, rest⟩
  refine ⟨first, found, ?_⟩
  cases live : first.live with
  | false =>
      left
      simpa [live, eq_comm] using rest
  | true =>
      right
      simp only [live, if_true] at rest
      rcases Option.bind_eq_some_iff.mp rest with ⟨second, found', same⟩
      exact ⟨second, rfl, found', by simpa [eq_comm] using same⟩

theorem Sound.seq (first : Sound W N ls e xs) (second : Sound W N ls e' xs')
    (quietItems : ∀ x ∈ xs, x.Quiet ls) : Sound W N ls (seq e e') (xs ++ xs') := by
  intro ctx r quiet emits
  rcases seq_eq_some emits with ⟨a, found, ⟨dead, rfl⟩ | ⟨b, alive, found', rfl⟩⟩
  · rcases first ctx r quiet found with ⟨new, begins, _, same, holds⟩
    refine ⟨new, begins.trans (List.prefix_append xs xs'), ?_, same, holds⟩
    simp [dead]
  · rcases first ctx a quiet found with ⟨new, _, all, same, holds⟩
    have whole : new = xs := all alive
    subst whole
    have quiet' : a.ctx.Quiet ls := by
      rw [same]
      exact quiet.registerAll quietItems
    rcases second a.ctx b quiet' found' with ⟨new', begins', all', same', holds'⟩
    refine ⟨new ++ new', (List.prefix_append_right_inj new).mpr begins', ?_, ?_, ?_⟩
    · intro alive'
      rw [all' alive']
    · rw [Ctx.registerAll_append, ← same, same']
    · intro live openSteps shows_
      have shows' : Shows (registerLive live new) a.ctx := by
        rw [same]
        exact shows_.registerAll new
      have loops : a.ctx.loops = ctx.loops := by rw [same, Ctx.registerAll_loops]
      have rest := holds' (registerLive live new) openSteps shows'
      apply holds_append
      · exact (holds live openSteps shows_).post (fun s ends => ends.2) fun o s _ leaves => leaves
      · apply rest.post
        · intro s ends
          rw [registerLive_append]
          exact ends
        · intro o s _ leaves
          rw [← loops]
          exact leaves.registerLive

theorem Closed.seq (first : Closed W N ls e) (second : Closed W N ls e') :
    Closed W N ls (seq e e') := by
  intro ctx r quiet emits
  rcases seq_eq_some emits with ⟨a, found, ⟨_, rfl⟩ | ⟨b, _, found', rfl⟩⟩
  · exact first ctx r quiet found
  · rcases first ctx a quiet found with ⟨same, holds⟩
    rw [same] at found'
    rcases second ctx b quiet found' with ⟨same', holds'⟩
    refine ⟨same', fun live openSteps shows_ => ?_⟩
    apply holds_append _ (holds' live openSteps shows_)
    exact (holds live openSteps shows_).post (fun s ends => ends.2) fun o s _ leaves => leaves

theorem closed_code {is : List Instr} (inert : Inert W N is) : Closed W N ls (code is) := by
  rintro ctx r _ ⟨⟩
  refine ⟨rfl, fun live openSteps _ => ?_⟩
  exact inert.holds.post (fun s same => ⟨rfl, same⟩) fun o s _ leaves => leaves

theorem closed_fail : Closed W N ls fail := by
  intro ctx r _ emits
  simp [fail] at emits

theorem closed_raise : Closed W N ls (stop [.raise]) := by
  rintro ctx r _ ⟨⟩
  refine ⟨rfl, fun live openSteps _ s here => ?_⟩
  simp only [exec, execInstr, Run.seq]
  exact here.leaves (by simp) (by simp)

theorem closed_abort : Closed W N ls (stop [.abort]) := by
  rintro ctx r _ ⟨⟩
  refine ⟨rfl, fun live openSteps _ s here => ?_⟩
  simp only [exec, execInstr, Run.seq]
  exact here.leaves (by simp) (by simp)

theorem sound_register (x : Item) : Sound W N ls (register x) [x] := by
  rintro ctx r _ ⟨⟩
  refine ⟨[x], List.prefix_rfl, fun _ => rfl, rfl, fun live openSteps _ => ?_⟩
  apply holds_single
  apply holds_mark
  intro s here
  refine ⟨rfl, ?_, here.openSteps, here.log, here.stray⟩
  show s.ghost.live.modifyHead _ = _
  rw [here.live]
  rfl

/-! ## Branches and loops -/

theorem arms_spec {each : List Emitter} (closed : ∀ e ∈ each, Closed W N ls e) {ctx ctx' : Ctx}
    {codes : List (List Instr)} (quiet : ctx.Quiet ls)
    (emits : arms each ctx = some (codes, ctx')) :
    ctx' = ctx ∧ ∀ is ∈ codes, ∀ live openSteps, Shows live ctx →
      Holds (At live openSteps) (exec W N is) (At live openSteps)
        (Leaves ctx.loops live openSteps) := by
  induction each generalizing codes ctx' with
  | nil =>
      have both : codes = [] ∧ ctx' = ctx := by simpa [arms, eq_comm] using emits
      simp [both.1, both.2]
  | cons e each ih =>
      rcases Option.bind_eq_some_iff.mp emits with ⟨r, found, rest⟩
      rcases Option.bind_eq_some_iff.mp rest with ⟨⟨codes', ctx''⟩, found', same⟩
      rcases closed e List.mem_cons_self ctx r quiet found with ⟨unchanged, holds⟩
      rw [unchanged] at found'
      rcases ih (fun e' member => closed e' (List.mem_cons_of_mem _ member)) found' with
        ⟨unchanged', holds'⟩
      have both : r.code :: codes' = codes ∧ ctx'' = ctx' := by simpa using same
      rcases both with ⟨rfl, rfl⟩
      refine ⟨unchanged', fun is member live openSteps shows_ => ?_⟩
      rcases List.mem_cons.mp member with rfl | later
      · exact (holds live openSteps shows_).post (fun s ends => ends.2) fun o s _ leaves => leaves
      · exact holds' is later live openSteps shows_

theorem fork_eq_some {make : List (List Instr) → Instr} {each : List Emitter} {ctx : Ctx}
    {r : Emitted} (emits : fork make each ctx = some r) :
    ∃ codes ctx', arms each ctx = some (codes, ctx') ∧ r = ⟨[make codes], ctx', true⟩ := by
  rcases Option.bind_eq_some_iff.mp emits with ⟨⟨codes, ctx'⟩, found, same⟩
  exact ⟨codes, ctx', found, by simpa [eq_comm] using same⟩

theorem closed_branch {c : Choice} {each : List Emitter}
    (closed : ∀ e ∈ each, Closed W N ls e) : Closed W N ls (fork (.branch c) each) := by
  intro ctx r quiet emits
  rcases fork_eq_some emits with ⟨codes, ctx', found, rfl⟩
  rcases arms_spec closed quiet found with ⟨same, holds⟩
  refine ⟨same, fun live openSteps shows_ => ?_⟩
  have branch : Holds (At live openSteps) (exec W N [.branch c codes]) (At live openSteps)
      (Leaves ctx.loops live openSteps) :=
    holds_branch fun is member => holds is member live openSteps shows_
  exact branch.post (fun s ends => ⟨rfl, ends⟩) fun o s _ leaves => leaves

theorem insideLoop_eq_some {hasHeader : Bool} {label : String} {ctx : Ctx} {r : Emitted}
    (emits : insideLoop hasHeader label e ctx = some r) :
    ∃ r', e (ctx.inLoop hasHeader label) = some r' ∧
      r = { r' with ctx := { r'.ctx with loops := ctx.loops } } := by
  rcases Option.bind_eq_some_iff.mp emits with ⟨r', found, same⟩
  exact ⟨r', found, by simpa [eq_comm] using same⟩

/-- The code of the emitter is a round of a loop. -/
def Round (W : World σ) (N : Nat) (ls : Layouts) (e : Emitter) : Prop :=
  ∀ ctx r, ctx.Quiet ls → e ctx = some r →
    r.ctx = ctx ∧ ∀ live openSteps, Shows live ctx →
      ∃ lc : LoopCtx, lc.depth = live.length ∧
        Holds (At live openSteps) (exec W N r.code) (At live openSteps)
          (Leaves (lc :: ctx.loops) live openSteps)

theorem Shows.length {live : List LiveScope} {ctx : Ctx} (shows_ : Shows live ctx) :
    ctx.depth = live.length := by
  have same := congrArg List.length shows_
  simpa [Ctx.depth, eq_comm] using same

theorem Closed.round (closed : Closed W N ls e) (hasHeader : Bool) (label : String) :
    Round W N ls (insideLoop hasHeader label e) := by
  intro ctx r quiet emits
  rcases insideLoop_eq_some emits with ⟨r', found, rfl⟩
  have quiet' : (ctx.inLoop hasHeader label).Quiet ls := quiet
  rcases closed _ r' quiet' found with ⟨same, holds⟩
  refine ⟨by simp [same, Ctx.inLoop], fun live openSteps shows_ => ?_⟩
  refine ⟨⟨hasHeader, label, ctx.depth⟩, shows_.length, ?_⟩
  exact (holds live openSteps shows_).post (fun s ends => ends.2) fun o s _ leaves => leaves

theorem Round.seq_code {is : List Instr} (inert : Inert W N is) (round : Round W N ls e) :
    Round W N ls (Emitter.seq (code is) e) := by
  intro ctx r quiet emits
  rcases seq_eq_some emits with ⟨a, ⟨⟩, ⟨dead, _⟩ | ⟨b, _, found, rfl⟩⟩
  · cases dead
  · rcases round ctx b quiet found with ⟨same, holds⟩
    refine ⟨same, fun live openSteps shows_ => ?_⟩
    rcases holds live openSteps shows_ with ⟨lc, depth, body⟩
    exact ⟨lc, depth, holds_append inert.holds body⟩

theorem closed_loop {bodyFirst : Bool} {test next : List Instr} {c : Choice}
    (testing : Inert W N test) (advancing : Inert W N next) (round : Round W N ls e) :
    Closed W N ls (node (fun is => [.loop bodyFirst test c is next]) e) := by
  intro ctx r quiet emits
  rcases Option.bind_eq_some_iff.mp emits with ⟨r', found, ⟨⟩⟩
  rcases round ctx r' quiet found with ⟨same, holds⟩
  refine ⟨same, fun live openSteps shows_ => ?_⟩
  rcases holds live openSteps shows_ with ⟨lc, depth, body⟩
  apply (holds_loop testing advancing depth body).post
  · exact fun s ends => ⟨rfl, ends⟩
  · exact fun o s _ leaves => leaves

theorem closed_noLoop (round : Round W N ls e) : Closed W N ls (node (fun _ => []) e) := by
  intro ctx r quiet emits
  rcases Option.bind_eq_some_iff.mp emits with ⟨r', found, ⟨⟩⟩
  refine ⟨(round ctx r' quiet found).1, fun live openSteps _ => ?_⟩
  exact holds_nil fun s here => ⟨rfl, here⟩

theorem closed_switch {c : Choice} {each : List Emitter} (closed : ∀ e ∈ each, Closed W N ls e) :
    Closed W N ls (insideLoop false "" (fork (.switch c) each)) := by
  intro ctx r quiet emits
  rcases insideLoop_eq_some emits with ⟨r', found, rfl⟩
  rcases fork_eq_some found with ⟨codes, ctx', found', rfl⟩
  have quiet' : (ctx.inLoop false "").Quiet ls := quiet
  rcases arms_spec closed quiet' found' with ⟨same, holds⟩
  refine ⟨by simp [same, Ctx.inLoop], fun live openSteps shows_ => ?_⟩
  have depth : (⟨false, "", ctx.depth⟩ : LoopCtx).depth = live.length := shows_.length
  have switch : Holds (At live openSteps) (exec W N [.switch c codes]) (At live openSteps)
      (Leaves ctx.loops live openSteps) :=
    holds_switch depth fun is member => holds is member live openSteps shows_
  exact switch.post (fun s ends => ⟨rfl, ends⟩) fun o s _ leaves => leaves

/-! ## Clean-ups -/

/-- The code runs the entries `es` for the step under way; when it is left
before its end, the first of them. -/
def RunsCode (W : World σ) (N : Nat) (loops : List LoopCtx) (live : List LiveScope) (step : Step)
    (rest : List Record) (alive : Prop) (is : List Instr) (es : List Entry) : Prop :=
  ∀ ran, Holds (At live (⟨step, ran, false⟩ :: rest)) (exec W N is)
    (fun s => alive ∧ At live (⟨step, ran ++ es, false⟩ :: rest) s)
    (fun o s => ∃ begun, begun <+: es ∧
      Leaves loops live.tail (⟨step, ran ++ begun, false⟩ :: rest) o s)

section RunsCode

variable {loops : List LoopCtx} {live : List LiveScope} {step : Step} {rest : List Record}
variable {alive alive' : Prop} {is js : List Instr}

theorem RunsCode.append (first : RunsCode W N loops live step rest alive is es)
    (second : RunsCode W N loops live step rest alive' js es') :
    RunsCode W N loops live step rest alive' (is ++ js) (es ++ es') := by
  intro ran
  apply holds_append
  · apply (first ran).post
    · exact fun s ends => ends.2
    · rintro o s _ ⟨begun, begins, leaves⟩
      exact ⟨begun, begins.trans (List.prefix_append es es'), leaves⟩
  · apply (second (ran ++ es)).post
    · intro s ends
      rw [← List.append_assoc]
      exact ends
    · rintro o s _ ⟨begun, begins, leaves⟩
      refine ⟨es ++ begun, (List.prefix_append_right_inj es).mpr begins, ?_⟩
      rw [← List.append_assoc]
      exact leaves

theorem runsCode_nil : RunsCode W N loops live step rest True [] [] := by
  intro ran
  apply holds_nil
  intro s here
  rw [List.append_nil]
  exact ⟨trivial, here⟩

theorem runsCode_mark (x : Entry) :
    RunsCode W N loops live step rest True [.mark (.run x)] [x] := by
  intro ran
  apply holds_single
  apply holds_mark
  intro s here
  have opened : (s.ghost.mark (.run x)) =
      { s.ghost with openSteps := ⟨step, ran ++ [x], false⟩ :: rest } := by
    simp [Ghost.mark, Ghost.run, here.openSteps]
  rw [opened]
  exact ⟨trivial, here.live, rfl, here.log, here.stray⟩

theorem runsCode_inert (inert : Inert W N is) :
    RunsCode W N loops live step rest True is [] := by
  intro ran
  apply inert.holds.post
  · intro s here
    rw [List.append_nil]
    exact ⟨trivial, here⟩
  · intro o s _ leaves
    refine ⟨[], List.nil_prefix, ?_⟩
    rw [List.append_nil]
    exact Leaves.tail leaves

theorem RunsCode.dead (runs : RunsCode W N loops live step rest alive is es) (dead : ¬alive) :
    RunsCode W N loops live step rest alive is (es ++ es') := by
  intro ran
  apply (runs ran).post
  · exact fun s ends => absurd ends.1 dead
  · rintro o s _ ⟨begun, begins, leaves⟩
    exact ⟨begun, begins.trans (List.prefix_append es es'), leaves⟩

theorem runsCode_releaseStrs (slots : List Slot) :
    RunsCode W N loops live step rest True (releaseStrs slots) (slots.map .str) := by
  induction slots with
  | nil => exact runsCode_nil
  | cons slot slots ih =>
      exact (runsCode_mark (.str slot)).append ((runsCode_inert (inert_op _)).append ih)

end RunsCode

/-- The code of the emitter runs the entries `es`. -/
def Runs (W : World σ) (N : Nat) (ls : Layouts) (e : Emitter) (es : List Entry) : Prop :=
  ∀ ctx r, ctx.Quiet ls → e ctx = some r →
    r.ctx = ctx ∧ ∀ live step rest, Shows live ctx →
      RunsCode W N ctx.loops live step rest (r.live = true) r.code es

theorem runs_code {is : List Instr}
    (runs : ∀ loops live step rest, RunsCode W N loops live step rest True is es) :
    Runs W N ls (code is) es := by
  rintro ctx r _ ⟨⟩
  refine ⟨rfl, fun live step rest _ ran => ?_⟩
  exact (runs ctx.loops live step rest ran).post (fun s ends => ⟨rfl, ends.2⟩)
    fun o s _ leaves => leaves

theorem Runs.seq (first : Runs W N ls e es) (second : Runs W N ls e' es') :
    Runs W N ls (Emitter.seq e e') (es ++ es') := by
  intro ctx r quiet emits
  rcases seq_eq_some emits with ⟨a, found, ⟨dead, rfl⟩ | ⟨b, alive, found', rfl⟩⟩
  · rcases first ctx r quiet found with ⟨same, holds⟩
    refine ⟨same, fun live step rest shows_ => ?_⟩
    apply (holds live step rest shows_).dead
    simp [dead]
  · rcases first ctx a quiet found with ⟨same, holds⟩
    rw [same] at found'
    rcases second ctx b quiet found' with ⟨same', holds'⟩
    refine ⟨same', fun live step rest shows_ => ?_⟩
    exact (holds live step rest shows_).append (holds' live step rest shows_)

section Cleanups

variable {D : List Stmt → Emitter}

theorem filter_isStr_listed (frame : Frame) :
    frame.listed.filter Entry.isStr = frame.strs.map .str := by
  simp [Frame.listed, List.filter_map, Function.comp_def]

theorem filter_not_isStr_listed (frame : Frame) :
    frame.listed.filter (fun e => !e.isStr) = frame.cleanups.reverse.map (·.entry) := by
  simp [Frame.listed, List.filter_map, Function.comp_def]

theorem emitted_listed (frames : List Frame) :
    emitted (frames.map (·.listed)) =
      (frames.flatMap (·.cleanups.reverse)).map (·.entry) ++
        (frames.flatMap (·.strs)).map Entry.str := by
  simp only [emitted, List.flatMap_map, filter_isStr_listed, filter_not_isStr_listed,
    List.map_flatMap]

/-- The code of a deferred block registers nothing. -/
def SoundBodies (W : World σ) (N : Nat) (ls : Layouts) (D : List Stmt → Emitter) : Prop :=
  ∀ body, registeredAll ls body = [] → areQuiet ls body = true → Sound W N ls (D body) []

theorem runs_body {body : List Stmt} (sound : Sound W N ls (D body) []) :
    Runs W N ls (D body) [] := by
  intro ctx r quiet emits
  rcases sound ctx r quiet emits with ⟨new, begins, _, same, holds⟩
  have none : new = [] := List.prefix_nil.mp begins
  subst none
  refine ⟨same, fun live step rest shows_ ran => ?_⟩
  apply (holds live (⟨step, ran, false⟩ :: rest) shows_).post
  · intro s ends
    rw [registerLive_nil] at ends
    rw [List.append_nil]
    exact ends
  · intro o s _ leaves
    refine ⟨[], List.nil_prefix, ?_⟩
    rw [List.append_nil]
    exact leaves

theorem runs_emitScopeCleanup (bodies : SoundBodies W N ls D) {c : ScopeCleanup}
    (quiet : c.Quiet ls) : Runs W N ls (emitScopeCleanup D c) [c.entry] := by
  have plain : Runs W N ls (code [.mark (.run c.entry), .op (.cleanup c)]) [c.entry] :=
    runs_code fun _ _ _ _ => (runsCode_mark _).append (runsCode_inert (inert_op _))
  cases c with
  | deferBody loc body =>
      have marked : Runs W N ls (code [.mark (.run (.defer loc))]) [.defer loc] :=
        runs_code fun _ _ _ _ => runsCode_mark _
      exact marked.seq (runs_body (bodies body quiet.1 quiet.2))
  | dtor slot className => exact plain
  | release slot releaseSym => exact plain
  | call fn => exact plain

theorem runs_emitScopeCleanups (bodies : SoundBodies W N ls D) {cs : List ScopeCleanup}
    (quiet : ∀ c ∈ cs, c.Quiet ls) : Runs W N ls (emitScopeCleanups D cs) (cs.map (·.entry)) := by
  induction cs with
  | nil => exact runs_code fun _ _ _ _ => runsCode_nil
  | cons c cs ih =>
      apply (runs_emitScopeCleanup bodies (quiet c List.mem_cons_self)).seq
      exact ih fun c' member => quiet c' (List.mem_cons_of_mem _ member)

variable {live : List LiveScope} {step : Step} {rest : List Record} {loops : List LoopCtx}

/-- The entries of a step and the mark at its end make a record that is faithful
wherever the code is left. -/
theorem holds_step {is : List Instr} {alive : Prop}
    (runs : RunsCode W N loops live step rest alive is step.emits)
    (known : ∀ left kept, step = .exit .leave left kept → Known left) :
    Holds (At live (⟨step, [], false⟩ :: rest)) (exec W N (is ++ [.mark .left]))
      (fun s => alive ∧ At step.kept rest s) (Leaves loops live.tail rest) := by
  apply holds_append
  · apply (runs []).post
    · exact fun s ends => ends
    · rintro o s _ ⟨begun, begins, leaves⟩
      exact Leaves.interrupt ⟨begins, by simp, known⟩ leaves
  · apply holds_single
    apply holds_mark
    rintro s ⟨ok, here⟩
    have ended : s.ghost.mark .left =
        { s.ghost with live := step.kept, openSteps := rest,
                       log := ⟨step, step.emits, true⟩ :: s.ghost.log } := by
      simp [Ghost.mark, Ghost.left, here.openSteps]
    rw [ended]
    refine ⟨ok, rfl, rfl, ?_, here.stray⟩
    intro r member
    rcases List.mem_cons.mp member with rfl | old
    · exact ⟨List.prefix_rfl, fun _ => rfl, known⟩
    · exact here.log r old

theorem emitAll_spec (bodies : SoundBodies W N ls D) {ctx : Ctx} {r : Emitted}
    (quiet : ctx.Quiet ls) (emits : emitAll D ctx = some r) :
    r.ctx = ctx ∧ r.live = true ∧ ∀ live step rest, Shows live ctx →
      step.emits = emitted (ctx.scopes.map (·.listed)) →
      (∀ left kept, step ≠ .exit .leave left kept) →
      Holds (At live (⟨step, [], false⟩ :: rest)) (exec W N r.code) (At step.kept rest)
        (Leaves ctx.loops live.tail rest) := by
  rcases Option.bind_eq_some_iff.mp emits with ⟨r', found, same⟩
  rcases runs_emitScopeCleanups bodies quiet.cleanups ctx r' quiet found with ⟨unchanged, runs⟩
  have alive : r'.live = true := by
    by_contra dead
    simp [dead] at same
  have result : r = ⟨r'.code ++ releaseStrs (r'.ctx.scopes.flatMap (·.strs)) ++ [.mark .left],
      r'.ctx, true⟩ := by
    simpa [alive, eq_comm] using same
  subst result
  refine ⟨unchanged, rfl, fun live step rest shows_ listed notLeave => ?_⟩
  have whole := (runs live step rest shows_).append
    (runsCode_releaseStrs (r'.ctx.scopes.flatMap (·.strs)))
  have entries : (ctx.scopes.flatMap (·.cleanups.reverse)).map (·.entry) ++
      (r'.ctx.scopes.flatMap (·.strs)).map Entry.str = step.emits := by
    rw [listed, unchanged, emitted_listed]
  rw [entries] at whole
  apply (holds_step whole fun left kept same => absurd same (notLeave left kept)).post
  · exact fun s ends => ends.2
  · exact fun o s _ leaves => leaves

theorem sound_emitJump (bodies : SoundBodies W N ls D) {kind : LeaveKind}
    (notLeave : kind ≠ .leave) {kept : Nat} {jump : Instr} {o : Outcome}
    (jumps : ∀ s, execInstr W N jump s = (o, s))
    (abnormal : o ≠ .normal) {ctx : Ctx} {r : Emitted} (quiet : ctx.Quiet ls)
    (emits : emitJump D kind kept jump ctx = some r)
    (target : ∀ k toHeader, o = .br k toHeader → ∃ lc, ctx.loops[k]? = some lc ∧ lc.depth = kept)
    (returns : o = .ret → kept = 1) :
    r.ctx = ctx ∧ ∀ live openSteps, Shows live ctx →
      Holds (At live openSteps) (exec W N r.code) (fun s => r.live = true ∧ At live openSteps s)
        (Leaves ctx.loops live.tail openSteps) := by
  rcases seq_eq_some emits with ⟨_, ⟨⟩, ⟨dead, _⟩ | ⟨b, _, found, rfl⟩⟩
  · cases dead
  rcases seq_eq_some found with ⟨all, found', ⟨dead, _⟩ | ⟨_, _, ⟨⟩, rfl⟩⟩
  · rcases emitAll_spec bodies quiet found' with ⟨_, alive, _⟩
    rw [alive] at dead
    cases dead
  rcases emitAll_spec bodies quiet found' with ⟨same, _, holds⟩
  refine ⟨same, fun live openSteps shows_ => ?_⟩
  have step := holds live (.exit kind (live.take (live.length - kept)) (outer kept live)) openSteps
    shows_
  apply holds_append
  · apply holds_single
    apply holds_mark (Q := At live
      (⟨.exit kind (live.take (live.length - kept)) (outer kept live), [], false⟩ :: openSteps))
    intro s here
    refine ⟨here.live, ?_, here.log, here.stray⟩
    simp [State.withGhost, Ghost.mark, Ghost.leaving, here.live, here.openSteps, outer]
  apply holds_append
  · apply step
    · cases kind with
      | leave => exact absurd rfl notLeave
      | jump => simp [Step.emits, outer, shows_.scopes]
      | ret => simp [Step.emits, outer, shows_.scopes]
    · rintro left kept' ⟨⟩
      exact notLeave rfl
  · apply holds_single
    intro s there
    rw [jumps]
    have leaves : Leaves ctx.loops live.tail openSteps o s :=
      { openSteps := ⟨[], there.openSteps, by simp⟩
        log := there.log
        stray := there.stray
        jumps := by
          intro k toHeader jump
          rcases target k toHeader jump with ⟨lc, found, depth⟩
          refine ⟨lc, found, fun inside => ?_⟩
          rw [outer_tail inside, depth]
          exact there.live
        returns := by
          intro ret inside
          rw [outer_tail inside, ← returns ret]
          exact there.live }
    cases o with
    | normal => exact absurd rfl abnormal
    | br | ret | raise | escape | abort | timeout => exact leaves

theorem sound_of_jump
    (spec : ∀ ctx r, ctx.Quiet ls → e ctx = some r → r.ctx = ctx ∧
      ∀ live openSteps, Shows live ctx →
        Holds (At live openSteps) (exec W N r.code) (fun s => r.live = true ∧ At live openSteps s)
          (Leaves ctx.loops live.tail openSteps)) : Sound W N ls e [] := by
  intro ctx r quiet emits
  rcases spec ctx r quiet emits with ⟨same, holds⟩
  refine ⟨[], List.nil_prefix, fun _ => rfl, same, fun live openSteps shows_ => ?_⟩
  rw [registerLive_nil]
  exact holds live openSteps shows_

theorem sound_return (bodies : SoundBodies W N ls D) :
    Sound W N ls (emitJump D .ret 1 .ret) [] := by
  apply sound_of_jump
  intro ctx r quiet emits
  apply sound_emitJump bodies (o := .ret) (by simp) _ (by simp) quiet emits
  · simp
  · simp
  · intro s
    simp [execInstr]

theorem jumpTarget_eq_to {loops : List LoopCtx} {toHeader : Bool} {label : Option String}
    {k depth : Nat} (found : jumpTarget loops toHeader label = .to k depth) :
    ∃ lc, loops[k]? = some lc ∧ lc.depth = depth := by
  unfold jumpTarget at found
  split at found
  · cases found
  · simp only at found
    split at found
    · cases found
    next j _ =>
      split at found
      · cases found
      next lc present =>
        split at found
        · cases found
        · cases found
          exact ⟨lc, present, rfl⟩

theorem sound_emitBreak (bodies : SoundBodies W N ls D) (toHeader : Bool) (label : Option String) :
    Sound W N ls (emitBreak D toHeader label) [] := by
  apply sound_of_jump
  intro ctx r quiet emits
  unfold emitBreak at emits
  split at emits
  · cases emits
    refine ⟨rfl, fun live openSteps _ => holds_nil fun s here => ⟨rfl, here⟩⟩
  · cases emits
  next k depth found =>
    apply sound_emitJump bodies (o := .br k toHeader) (by simp) _ (by simp) quiet emits
    · intro j toHeader' same
      cases same
      exact jumpTarget_eq_to found
    · simp
    · intro s
      simp [execInstr]

/-! ## Scopes -/

theorem At.leaveScope {scope : LiveScope} {live : List LiveScope} {openSteps : List Record}
    {s : State σ} {ctx : Ctx} (here : At (scope :: live) openSteps s)
    (shows_ : Shows (scope :: live) ctx) :
    At (scope :: live) (⟨.exit .leave [scope] live, [], false⟩ :: openSteps)
      (s.withGhost (s.ghost.mark (.leaving .leave (ctx.depth - 1)))) := by
  have depth := shows_.length
  refine ⟨here.live, ?_, here.log, here.stray⟩
  simp [State.withGhost, Ghost.mark, Ghost.leaving, here.live, here.openSteps, depth]

theorem emits_leave {scope : LiveScope} {live : List LiveScope} {ctx : Ctx}
    (shows_ : Shows (scope :: live) ctx) :
    ctx.top.cleanups.reverse.map (·.entry) ++ ctx.top.strs.map Entry.str =
      (Step.exit .leave [scope] live).emits := by
  have top : scope.listed = ctx.top.listed := by
    rcases ctx with ⟨_ | ⟨frame, scopes⟩, loops⟩
    · cases shows_
    · exact (List.cons.inj shows_).1
  have one := emitted_listed [ctx.top]
  simpa [Step.emits, top] using one.symm

theorem known_leave {scope : LiveScope} {live : List LiveScope}
    (asIs : scope.listed = reordered scope.entries) :
    ∀ left kept, Step.exit .leave [scope] live = .exit .leave left kept → Known left := by
  rintro left kept ⟨⟩ scope' member
  rw [List.mem_singleton.mp member]
  exact asIs

theorem envPop_spec (bodies : SoundBodies W N ls D) {ctx : Ctx} {r : Emitted}
    (quiet : ctx.Quiet ls) (emits : envPop D ctx = some r) :
    r.ctx = ctx ∧ ∀ scope live openSteps, Shows (scope :: live) ctx →
      scope.listed = reordered scope.entries →
      Holds (At (scope :: live) openSteps) (exec W N r.code)
        (fun s => r.live = true ∧ At live openSteps s) (Leaves ctx.loops live openSteps) := by
  have quietTop : ∀ c ∈ ctx.top.cleanups.reverse, c.Quiet ls := by
    intro c member
    rcases ctx with ⟨_ | ⟨top, scopes⟩, loops⟩
    · simp [Ctx.top] at member
    · exact quiet top List.mem_cons_self c (List.mem_reverse.mp member)
  rcases Option.bind_eq_some_iff.mp emits with ⟨r', found, same⟩
  rcases runs_emitScopeCleanups bodies quietTop ctx r' quiet found with ⟨unchanged, runs⟩
  cases alive : r'.live with
  | true =>
      simp only [alive, unchanged, if_true] at same
      rcases Option.some.inj same with rfl
      refine ⟨rfl, fun scope live openSteps shows_ asIs => ?_⟩
      have whole := (runs (scope :: live) (.exit .leave [scope] live) openSteps shows_).append
        (runsCode_releaseStrs ctx.top.strs)
      rw [emits_leave shows_] at whole
      apply holds_cons
      · exact holds_mark fun s here => here.leaveScope shows_
      · exact (holds_step whole (known_leave asIs)).post (fun s ends => ⟨rfl, ends.2⟩)
          fun o s _ leaves => leaves
  | false =>
      have noStrs : ctx.top.strs = [] := by
        by_contra some
        simp [alive, unchanged, some] at same
      simp only [alive, unchanged, noStrs, List.isEmpty_nil, Bool.false_eq_true, if_true,
        if_false] at same
      rcases Option.some.inj same with rfl
      refine ⟨rfl, fun scope live openSteps shows_ asIs => ?_⟩
      have whole := runs (scope :: live) (.exit .leave [scope] live) openSteps shows_
      have entries := emits_leave shows_
      rw [noStrs, List.map_nil, List.append_nil] at entries
      rw [entries] at whole
      apply holds_cons
      · exact holds_mark fun s here => here.leaveScope shows_
      · apply (whole []).post
        · intro s ends
          rw [alive] at ends
          cases ends.1
        · rintro o s _ ⟨begun, begins, leaves⟩
          exact Leaves.interrupt ⟨begins, by simp, known_leave asIs⟩ leaves

theorem At.push {live : List LiveScope} {openSteps : List Record} {s : State σ}
    (here : At live openSteps s) :
    At ({} :: live) openSteps (s.withGhost (s.ghost.mark .push)) := by
  refine ⟨?_, here.openSteps, here.log, here.stray⟩
  simp [State.withGhost, Ghost.mark, Ghost.push, here.live]

theorem Shows.push {live : List LiveScope} {ctx : Ctx} (shows_ : Shows live ctx) :
    Shows ({} :: live) ctx.push := by
  have none : ({} : Frame).listed = [] := rfl
  simp [Shows, Ctx.push, shows_.scopes, none]

theorem enterScope_spec (sound : Sound W N ls e xs) {ctx : Ctx} {r : Emitted}
    (quiet : ctx.Quiet ls) (emits : enterScope e ctx = some r) :
    ∃ new, new <+: xs ∧ r.ctx = ctx.push.registerAll new ∧ ∀ live openSteps, Shows live ctx →
      Holds (At live openSteps) (exec W N r.code)
        (fun s => r.live = true ∧ At (registerLive ({} :: live) new) openSteps s)
        (Leaves ctx.loops live openSteps) := by
  rcases seq_eq_some emits with ⟨_, ⟨⟩, ⟨dead, _⟩ | ⟨b, _, found, rfl⟩⟩
  · cases dead
  rcases sound ctx.push b quiet.push found with ⟨new, begins, _, same, holds⟩
  refine ⟨new, begins, same, fun live openSteps shows_ => ?_⟩
  apply holds_append
  · exact holds_single (holds_mark fun s here => here.push)
  · exact holds ({} :: live) openSteps shows_.push

theorem pop_registerAll_push (ctx : Ctx) (new : List Item) :
    (ctx.push.registerAll new).pop = ctx := by
  simp [Ctx.pop, Ctx.registerAll_eq, Ctx.push]

theorem closed_withScope (bodies : SoundBodies W N ls D) (sound : Sound W N ls e xs)
    (quietItems : ∀ x ∈ xs, x.Quiet ls) : Closed W N ls (withScope D e) := by
  intro ctx r quiet emits
  rcases Option.bind_eq_some_iff.mp emits with ⟨whole, found, ⟨⟩⟩
  rcases seq_eq_some found with ⟨b, entered, ⟨dead, rfl⟩ | ⟨p, alive, popped, rfl⟩⟩
  · rcases enterScope_spec sound quiet entered with ⟨new, _, same, holds⟩
    refine ⟨by rw [same, pop_registerAll_push], fun live openSteps shows_ => ?_⟩
    apply (holds live openSteps shows_).post
    · intro s ends
      rw [dead] at ends
      cases ends.1
    · exact fun o s _ leaves => leaves
  · rcases enterScope_spec sound quiet entered with ⟨new, begins, same, holds⟩
    have quietInner : b.ctx.Quiet ls := by
      rw [same]
      exact quiet.push.registerAll fun x member => quietItems x (begins.subset member)
    rcases envPop_spec bodies quietInner popped with ⟨unchanged, pops⟩
    refine ⟨by rw [unchanged, same, pop_registerAll_push], fun live openSteps shows_ => ?_⟩
    have showsInner : Shows (registerLive ({} :: live) new) b.ctx := by
      rw [same]
      exact shows_.push.registerAll new
    have loops : b.ctx.loops = ctx.loops := by simp [same, Ctx.push]
    have leaving := pops _ live openSteps showsInner (known_addAll rfl new)
    rw [loops] at leaving
    apply holds_append
    · exact (holds live openSteps shows_).post (fun s ends => ends.2) fun o s _ leaves => leaves
    · exact leaving

/-! ## Exceptions -/

theorem popTry_spec (bodies : SoundBodies W N ls D)
    {ctx inner : Ctx} {alive : Bool} {exit : Emitted}
    {new : List Item} (same : inner = ctx.push.registerAll new) (quiet : inner.Quiet ls)
    (exited : popTry D alive inner = some exit) :
    exit.ctx = inner ∧ ∀ live openSteps, Shows live ctx →
      Holds (fun s => alive = true ∧ At (registerLive ({} :: live) new) openSteps s)
        (exec W N exit.code) (At live openSteps) (Leaves ctx.loops live openSteps) := by
  cases alive with
  | false =>
      rcases Option.some.inj exited with rfl
      exact ⟨rfl, fun live openSteps _ s ends => by cases ends.1⟩
  | true =>
      rcases envPop_spec bodies quiet exited with ⟨unchanged, pops⟩
      refine ⟨unchanged, fun live openSteps shows_ => ?_⟩
      have showsInner : Shows (registerLive ({} :: live) new) inner := by
        rw [same]
        exact shows_.push.registerAll new
      have loops : inner.loops = ctx.loops := by simp [same, Ctx.push]
      have leaving := pops _ live openSteps showsInner (known_addAll rfl new)
      rw [loops] at leaving
      apply (leaving.pre fun s ends => ends.2).post
      · exact fun s ends => ends.2
      · exact fun o s _ leaves => leaves

theorem closed_emitTryCatch (bodies : SoundBodies W N ls D) {handler : Emitter}
    (sound : Sound W N ls e xs) (quietItems : ∀ x ∈ xs, x.Quiet ls)
    (handles : Closed W N ls handler) : Closed W N ls (emitTryCatch D e handler) := by
  intro ctx r quiet emits
  rcases Option.bind_eq_some_iff.mp emits with ⟨b, entered, rest⟩
  rcases Option.bind_eq_some_iff.mp rest with ⟨pad, landed, rest⟩
  rcases Option.bind_eq_some_iff.mp rest with ⟨exit, exited, rest⟩
  rcases Option.bind_eq_some_iff.mp rest with ⟨h, handled, ⟨⟩⟩
  rcases enterScope_spec sound quiet entered with ⟨new, begins, same, holds⟩
  have quietInner : b.ctx.Quiet ls := by
    rw [same]
    exact quiet.push.registerAll fun x member => quietItems x (begins.subset member)
  have loops : b.ctx.loops = ctx.loops := by simp [same, Ctx.push]
  rcases emitAll_spec bodies quietInner landed with ⟨padCtx, _, padHolds⟩
  rw [padCtx] at exited
  rcases popTry_spec bodies same quietInner exited with ⟨exitCtx, exitHolds⟩
  rw [exitCtx, same, pop_registerAll_push] at handled
  rcases handles ctx h quiet handled with ⟨hCtx, hHolds⟩
  refine ⟨hCtx, fun live openSteps shows_ => ?_⟩
  have pads : ∀ owed, Holds
      (At (⟨owed, b.ctx.top.listed⟩ :: live)
        (⟨.land owed b.ctx.top.listed live, [], false⟩ :: openSteps))
      (exec W N pad.code) (At live openSteps) (Leaves ctx.loops live openSteps) := by
    intro owed
    have showsPad : Shows (⟨owed, b.ctx.top.listed⟩ :: live) b.ctx := by
      simp [Shows, same, Ctx.registerAll_eq, Ctx.push, Ctx.top, shows_.scopes]
    have listed : (Step.land owed b.ctx.top.listed live).emits =
        emitted (b.ctx.scopes.map (·.listed)) := by
      rw [showsPad.scopes]
      rfl
    rw [← loops]
    exact padHolds _ (.land owed b.ctx.top.listed live) openSteps showsPad listed (by simp)
  have handling : Holds (At live openSteps) (exec W N h.code) (At live openSteps)
      (Leaves ctx.loops live openSteps) :=
    (hHolds live openSteps shows_).post (fun s ends => ends.2) fun o s _ leaves => leaves
  apply (holds_tryCatch (holds live openSteps shows_) (exitHolds live openSteps shows_) pads
    handling).post
  · exact fun s ends => ⟨rfl, ends⟩
  · exact fun o s _ leaves => leaves

theorem inert_catchCheck (catchType : Option TypeExpr) : Inert W N (catchCheck catchType) := by
  unfold catchCheck
  split
  · split
    · apply inert_branch
      intro is member
      simp only [List.mem_cons, List.not_mem_nil, or_false] at member
      rcases member with rfl | rfl
      · exact inert_escape
      · exact inert_nil
    · exact inert_nil
  · exact inert_nil

theorem closed_emitHandler (bodies : SoundBodies W N ls D) (catchType : Option TypeExpr)
    (catchVar : Option String) (sound : Sound W N ls e xs) (quietItems : ∀ x ∈ xs, x.Quiet ls) :
    Closed W N ls (emitHandler D catchType catchVar e) := by
  have check :
      Inert W N (catchCheck catchType ++ catchVar.toList.map fun v => .op (.bindCatch v)) := by
    apply (inert_catchCheck catchType).append
    cases catchVar with
    | none => exact inert_nil
    | some v => exact inert_op _
  have quietEnd : ∀ x ∈ [Item.cleanup (.call "__cxa_end_catch")], x.Quiet ls := by
    intro x member
    rw [List.mem_singleton.mp member]
    trivial
  have inner := (sound_register (.cleanup (.call "__cxa_end_catch"))).seq
    (closed_withScope bodies sound quietItems).sound quietEnd
  have whole := (closed_code check).sound.seq inner (by simp)
  exact (closed_code (inert_op _)).seq (closed_withScope bodies whole quietEnd)

end Cleanups

/-! ## Statements -/

theorem sound_registerAll {xs : List Item} (quietItems : ∀ x ∈ xs, x.Quiet ls) :
    Sound W N ls (registerAll xs) xs := by
  induction xs with
  | nil => exact (closed_code inert_nil).sound
  | cons x xs ih =>
      apply (sound_register x).seq
      · exact ih fun y member => quietItems y (List.mem_cons_of_mem _ member)
      · simpa using quietItems x List.mem_cons_self

theorem inert_initialise (isStatic : Bool) (slot : Slot) (init : Option Expr) :
    Inert W N (initialise isStatic slot init) := by
  cases init with
  | none =>
      cases isStatic with
      | true => exact inert_nil
      | false => exact inert_op _
  | some e =>
      have store : Inert W N [.op (.eval e), .op (.declare slot)] :=
        inert_ops [.eval e, .declare slot]
      cases isStatic with
      | true =>
          apply inert_branch
          intro is member
          rw [List.mem_singleton.mp member]
          exact store
      | false => exact store

theorem sound_genVarDecl (loc : SourceLoc) (type : TypeExpr) (isStatic : Bool)
    (decls : List VarItem) :
    Sound W N ls (genVarDecl ls loc type isStatic decls)
      (itemsRegistered ls loc type isStatic decls) := by
  have quietAll : ∀ x ∈ itemsRegistered ls loc type isStatic decls, x.Quiet ls :=
    quiet_itemsRegistered loc type isStatic decls
  induction decls with
  | nil => exact (closed_code inert_nil).sound
  | cons d ds ih =>
      rcases d with ⟨name, init⟩
      have quietHere : ∀ x ∈ declaredItems ls type isStatic ⟨loc, name⟩ init, x.Quiet ls :=
        fun x member => quietAll x (List.mem_append_left _ member)
      have rest := ih fun x member => quietAll x (List.mem_append_right _ member)
      apply (closed_code (inert_initialise isStatic ⟨loc, name⟩ init)).sound.seq _ (by simp)
      exact (sound_registerAll quietHere).seq rest quietHere

theorem closed_emitForIn (varName : String) (iterable : Expr) (closed : Closed W N ls e) :
    Closed W N ls (emitForIn varName iterable e) := by
  have round := closed.round true ""
  unfold emitForIn
  split
  next bounds _ =>
    apply Closed.seq
    · apply closed_code
      apply Inert.append _ (inert_op _)
      have evaluated := inert_ops (W := W) (N := N) (bounds.map .eval)
      rw [List.map_map] at evaluated
      exact evaluated
    · exact closed_loop inert_nil (inert_op _) round
  · apply (closed_code (inert_ops [.eval iterable, .loopInit varName])).seq
    exact closed_loop inert_nil (inert_op _) (round.seq_code (inert_op _))
  · exact closed_noLoop round

theorem inert_caseValues (cases_ : List SwitchCase) : Inert W N (caseValues cases_) := by
  induction cases_ with
  | nil => exact inert_nil
  | cons c cs ih =>
      rcases c with ⟨_ | e, body⟩
      · exact ih
      · exact ih.cons_op _

theorem closed_matchArms {arms : List (MatchPattern × Emitter)}
    (closed : ∀ a ∈ arms, Closed W N ls a.2) : ∀ e ∈ matchArms ls arms, Closed W N ls e := by
  intro e member
  rcases List.mem_append.mp member with cased | last
  · rcases List.mem_map.mp cased with ⟨a, filtered, rfl⟩
    exact closed a (List.mem_of_mem_filter filtered)
  · split at last
    next a found =>
      rw [List.mem_singleton.mp last]
      exact closed a (List.mem_of_mem_filter (List.mem_of_getLast? found))
    next =>
      split at last
      · rw [List.mem_singleton.mp last]
        exact closed_code inert_nil
      · rw [List.mem_singleton.mp last]
        exact closed_abort

section Statements

variable {D : List Stmt → Emitter} (bodies : SoundBodies W N ls D)

include bodies

theorem closed_scoped {body : List Stmt} (quiet : areQuiet ls body = true)
    (sound : Sound W N ls (genStmts ls D body) (registeredAll ls body)) :
    Closed W N ls (withScope D (genStmts ls D body)) :=
  closed_withScope bodies sound (quiet_registeredAll body quiet)

omit bodies in
theorem closed_if (cond : Expr) {thenBr elseBr : Emitter} (closedThen : Closed W N ls thenBr)
    (closedElse : Closed W N ls elseBr) :
    Closed W N ls
      (seq (code [.op (.eval cond)]) (fork (.branch (.cond cond)) [thenBr, elseBr])) := by
  apply (closed_code (inert_op _)).seq
  apply closed_branch
  intro e member
  simp only [List.mem_cons, List.not_mem_nil, or_false] at member
  rcases member with rfl | rfl
  · exact closedThen
  · exact closedElse

set_option linter.unusedSectionVars false in
mutual

theorem sound_genStmt :
    ∀ s : Stmt, isQuiet ls s = true → Sound W N ls (genStmt ls D s) (registered ls s)
  | .block body, quiet => (closed_scoped bodies quiet (sound_genStmts body quiet)).sound
  | .expr e, _ => (closed_code (inert_op _)).sound
  | .varDecl loc type isStatic isThreadLocal decls, _ => by
      cases isThreadLocal with
      | true => exact (closed_code inert_nil).sound
      | false => exact sound_genVarDecl loc type isStatic decls
  | .ifStmt cond thenBr elseBr, quiet => by
      have both : areQuiet ls thenBr = true ∧ isQuietElse ls elseBr = true := by
        simpa [isQuiet] using quiet
      have thenClosed := closed_scoped bodies both.1 (sound_genStmts thenBr both.1)
      exact (closed_if cond thenClosed (closed_genElse elseBr both.2)).sound
  | .whileStmt label cond body, quiet => by
      have inScope := closed_scoped bodies quiet (sound_genStmts body quiet)
      exact (closed_loop (inert_op _) inert_nil (inScope.round _ _)).sound
  | .doWhile body cond, quiet => by
      have inScope := closed_scoped bodies quiet (sound_genStmts body quiet)
      exact (closed_loop (inert_op _) inert_nil (inScope.round _ _)).sound
  | .forIn varType varName iterable body, quiet => by
      have inScope := closed_scoped bodies quiet (sound_genStmts body quiet)
      have inner := closed_emitForIn varName iterable inScope
      exact (closed_withScope bodies inner.sound (by simp)).sound
  | .forC varType varName init cond incr body, quiet => by
      have round := (closed_scoped bodies quiet (sound_genStmts body quiet)).round true ""
      have loop : Closed W N ls
          (node (fun is => [.loop false [.op (.eval cond)] (.cond cond) is [.op (.eval incr)]])
            (insideLoop true "" (withScope D (genStmts ls D body)))) :=
        closed_loop (inert_op _) (inert_op _) round
      have inner := (closed_code (inert_ops [.eval init, .loopInit varName])).seq loop
      exact (closed_withScope bodies inner.sound (by simp)).sound
  | .switchStmt e cases_, quiet => by
      have values := (inert_caseValues (W := W) (N := N) cases_).append (inert_op (.eval e))
      exact ((closed_code values).seq (closed_switch (closed_genCases cases_ quiet))).sound
  | .matchStmt e arms, quiet => by
      have inner := closed_matchArms (closed_genArms arms quiet)
      exact ((closed_code (inert_op _)).seq (closed_branch inner)).sound
  | .tryCatch tryBody catchAll catchType catchVar catchBody, quiet => by
      have both : areQuiet ls tryBody = true ∧ areQuiet ls catchBody = true := by
        simpa [isQuiet] using quiet
      have handler := closed_emitHandler bodies catchType catchVar
        (sound_genStmts catchBody both.2) (quiet_registeredAll catchBody both.2)
      exact (closed_emitTryCatch bodies (sound_genStmts tryBody both.1)
        (quiet_registeredAll tryBody both.1) handler).sound
  | .returnStmt value, _ => by
      have values :
          Inert W N (value.toList.flatMap fun e => [.op (.eval e), .op .retainResult]) := by
        cases value with
        | none => exact inert_nil
        | some e => exact inert_ops [.eval e, .retainResult]
      exact (closed_code values).sound.seq (sound_return bodies) (by simp)
  | .breakStmt label, _ => sound_emitBreak bodies false label
  | .continueStmt label, _ => sound_emitBreak bodies true label
  | .assertStmt cond, _ => by
      have check : Inert W N [.branch (.cond cond) [[], [.abort]]] := by
        apply inert_branch
        intro is member
        simp only [List.mem_cons, List.not_mem_nil, or_false] at member
        rcases member with rfl | rfl
        · exact inert_nil
        · exact inert_abort
      exact (closed_code ((inert_op _).append check)).sound
  | .deleteStmt e, _ => (closed_code (inert_op _)).sound
  | .defer loc body, _ => sound_register _
  | .throwStmt e, _ => ((closed_code (inert_op _)).seq closed_raise).sound
  | .unsafeStmt body, quiet => sound_genStmts body quiet

theorem sound_genStmts :
    ∀ ss : List Stmt, areQuiet ls ss = true → Sound W N ls (genStmts ls D ss) (registeredAll ls ss)
  | [], _ => (closed_code inert_nil).sound
  | s :: ss, quiet => by
      have both : isQuiet ls s = true ∧ areQuiet ls ss = true := by simpa [areQuiet] using quiet
      exact (sound_genStmt s both.1).seq (sound_genStmts ss both.2) (quiet_registered s both.1)

theorem closed_genElse :
    ∀ elseBr : ElseBr, isQuietElse ls elseBr = true → Closed W N ls (genElse ls D elseBr)
  | .none, _ => closed_code inert_nil
  | .block body, quiet => closed_scoped bodies quiet (sound_genStmts body quiet)
  | .elif cond thenBr elseBr, quiet => by
      have both : areQuiet ls thenBr = true ∧ isQuietElse ls elseBr = true := by
        simpa [isQuietElse] using quiet
      have thenClosed := closed_scoped bodies both.1 (sound_genStmts thenBr both.1)
      exact closed_if cond thenClosed (closed_genElse elseBr both.2)

theorem closed_genCases :
    ∀ cs : List SwitchCase, areQuietCases ls cs = true →
      ∀ e ∈ genCases ls D cs, Closed W N ls e
  | [], _ => by simp [genCases]
  | c :: cs, quiet => by
      have both : isQuietCase ls c = true ∧ areQuietCases ls cs = true := by
        simpa [areQuietCases] using quiet
      intro e member
      rcases List.mem_cons.mp member with rfl | later
      · exact closed_genCase c both.1
      · exact closed_genCases cs both.2 e later

theorem closed_genCase :
    ∀ c : SwitchCase, isQuietCase ls c = true → Closed W N ls (genCase ls D c)
  | .mk _ body, quiet => closed_scoped bodies quiet (sound_genStmts body quiet)

theorem closed_genArms :
    ∀ as : List MatchArm, areQuietArms ls as = true → ∀ a ∈ genArms ls D as, Closed W N ls a.2
  | [], _ => by simp [genArms]
  | a :: as, quiet => by
      have both : isQuietArm ls a = true ∧ areQuietArms ls as = true := by
        simpa [areQuietArms] using quiet
      intro x member
      rcases List.mem_cons.mp member with rfl | later
      · exact closed_genArm a both.1
      · exact closed_genArms as both.2 x later

theorem closed_genArm :
    ∀ a : MatchArm, isQuietArm ls a = true → Closed W N ls (genArm ls D a).2
  | .mk pattern body, quiet => by
      have inner : Sound W N ls (seq (code [.op (.bindPayload pattern)]) (genStmts ls D body))
          (registeredAll ls body) :=
        (closed_code (inert_op _)).sound.seq (sound_genStmts body quiet) (by simp)
      exact closed_withScope bodies inner (quiet_registeredAll body quiet)

end

end Statements

theorem soundBodies_genLevel (n : Nat) : SoundBodies W N ls (genLevel ls n) := by
  induction n with
  | zero => exact fun body _ _ => closed_fail.sound
  | succ n ih =>
      intro body silent quiet
      rw [← silent]
      exact sound_genStmts ih body quiet

theorem quiet_addAll {frame : Frame} (quiet : frame.Quiet ls) {xs : List Item}
    (quietItems : ∀ x ∈ xs, x.Quiet ls) : (xs.foldl Frame.add frame).Quiet ls := by
  induction xs generalizing frame with
  | nil => exact quiet
  | cons x xs ih =>
      apply ih (quiet.add (quietItems x List.mem_cons_self))
      exact fun y member => quietItems y (List.mem_cons_of_mem _ member)

/-- Every record that a run of a function makes is faithful, no entry is run
outside a step, and a run that returns has left every scope of the function. -/
theorem call_spec {n : Nat} {globals : List Item} (quietGlobals : ∀ x ∈ globals, x.Quiet ls)
    {body : List Stmt} (quiet : areQuiet ls body = true) {is : List Instr}
    (compiled : genFunction ls n globals body = some is) (w : σ) :
    (∀ r ∈ (call W N is globals w).2.ghost.records, r.Faithful) ∧
      (call W N is globals w).2.ghost.stray = [] ∧
      ((call W N is globals w).1 = .ret →
        (call W N is globals w).2.ghost.live = [({} : LiveScope).addAll globals]) := by
  rcases Option.bind_eq_some_iff.mp compiled with ⟨r, emits, ⟨⟩⟩
  have bodies : SoundBodies W N ls (genLevel ls n) := soundBodies_genLevel n
  have sound := (sound_genStmts bodies body quiet).seq (sound_return bodies)
    (quiet_registeredAll body quiet)
  have noCleanups : ({} : Frame).Quiet ls := fun c none => by cases none
  have quietCtx : Ctx.Quiet ls ⟨[{}, globals.foldl Frame.add {}], []⟩ := by
    intro frame member
    simp only [List.mem_cons, List.not_mem_nil, or_false] at member
    rcases member with rfl | rfl
    · exact noCleanups
    · exact quiet_addAll noCleanups quietGlobals
  have shows_ : Shows [{}, ({} : LiveScope).addAll globals]
      ⟨[{}, globals.foldl Frame.add {}], []⟩ := by
    have same : (({} : LiveScope).addAll globals).listed =
        (globals.foldl Frame.add {}).listed := listed_addAll rfl globals
    have none : ({} : Frame).listed = [] := rfl
    simp [Shows, same, none]
  rcases sound _ r quietCtx emits with ⟨new, _, _, _, holds⟩
  have start : At [{}, ({} : LiveScope).addAll globals] []
      (⟨w, { live := [{}, ({} : LiveScope).addAll globals] }⟩ : State σ) :=
    ⟨rfl, rfl, by simp, rfl⟩
  have result := holds _ [] shows_ _ start
  unfold call
  generalize exec W N r.code _ = run at result ⊢
  rcases run with ⟨o, s⟩
  have leave : ∀ o', Leaves [] [({} : LiveScope).addAll globals] [] o' s →
      (∀ r ∈ s.ghost.records, r.Faithful) ∧ s.ghost.stray = [] ∧
        (o' = .ret → s.ghost.live = [({} : LiveScope).addAll globals]) := by
    intro o' leaves
    rcases leaves.openSteps with ⟨inside, same, all⟩
    refine ⟨?_, leaves.stray, fun ret => leaves.returns ret (Nat.le_refl 1)⟩
    intro r' member
    rcases List.mem_append.mp member with open_ | closed_
    · apply all r'
      simpa [same] using open_
    · exact leaves.log r' closed_
  cases o with
  | normal =>
      have here : At _ [] s := result.2
      refine ⟨?_, here.stray, by simp⟩
      intro r' member
      rcases List.mem_append.mp member with open_ | closed_
      · rw [here.openSteps] at open_
        cases open_
      · exact here.log r' closed_
  | br | ret | raise | escape | abort | timeout => exact leave _ result

end Sound

end Dux.Codegen
