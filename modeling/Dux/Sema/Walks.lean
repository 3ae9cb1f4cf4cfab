import Dux.Logic.Chains
import Dux.Sema.Guards
import Dux.Sema.Heritage
import Mathlib.Tactic.SplitIfs

/-!
# The walks along the parents

`is_subtype`, `satisfies` (`src/sema/types.cpp`) and the lookup of members go from a type
to its parent.  Each stops at a type that is its own parent and looks out for no longer
loop.
-/

namespace Dux

open Relation (TransGen ReflTransGen)
open Logic (Steps ends)

/-- A step from an element of a table to another one. -/
def Lifts (up : TypeId → TypeId) (a b : TypeId) : Prop := 0 ≤ a ∧ up a = b ∧ a ≠ b

/-- No chain of steps comes back. -/
def Unlooped (up : TypeId → TypeId) : Prop := ∀ t, ¬TransGen (Lifts up) t t

namespace TypeRegistry

def satisfiesWithin (r : TypeRegistry) (iface : TypeId) : Nat → TypeId → Option Bool
  | 0, _ => none
  | n + 1, cls =>
      if cls = iface ∨ iface = TID_OBJECT then some true
      else if cls = TID_UNKNOWN ∨ iface = TID_UNKNOWN then some true
      else if cls < 0 then some false
      else match r.types[cls.toNat]? with
        | none => some false
        | some ti =>
            if iface ∈ ti.ifaces then some true
            else if ti.parent ≠ cls ∧ 0 ≤ ti.parent ∧ ti.parent ≠ TID_UNKNOWN then
              satisfiesWithin r iface n ti.parent
            else some false

def satisfies (r : TypeRegistry) (cls iface : TypeId) : Option Bool :=
  r.satisfiesWithin iface (r.types.length + 1) cls

/-- The step of the walks. -/
def parentStep (r : TypeRegistry) (t : TypeId) : Option TypeId :=
  if t < 0 ∨ (r.info t).parent = t then none else some (r.info t).parent

variable {r : TypeRegistry}

theorem parentStep_eq_some {t p : TypeId} :
    r.parentStep t = some p ↔ 0 ≤ t ∧ (r.info t).parent = p ∧ t ≠ p := by
  rw [parentStep]
  by_cases last : t < 0 ∨ (r.info t).parent = t
  · rw [if_pos last]
    constructor
    · exact fun none => by cases none
    · rintro ⟨nonneg, rfl, moves⟩
      rcases last with negative | same
      · exact absurd negative (Int.not_lt.2 nonneg)
      · exact absurd same.symm moves
  · rw [if_neg last]
    obtain ⟨nonneg, moves⟩ := not_or.1 last
    constructor
    · intro same
      cases same
      exact ⟨Int.not_lt.1 nonneg, rfl, Ne.symm moves⟩
    · rintro ⟨-, rfl, -⟩
      rfl

theorem info_of_not_has {t : TypeId} (nonneg : 0 ≤ t) (not : ¬r.Has t) : r.info t = r.info 0 := by
  have beyond : r.types.length ≤ t.toNat := by
    apply Nat.le_of_not_lt
    exact fun inside => not ⟨nonneg, (Int.toNat_lt nonneg).1 inside⟩
  rw [info, if_neg (Int.not_lt.2 nonneg), info, if_neg (by decide),
    List.getD_eq_getElem?_getD, List.getElem?_eq_none beyond]
  cases r.types <;> rfl

theorem Sound.has_zero (sound : r.Sound) : r.Has 0 :=
  ⟨Int.le_refl 0, lt_of_lt_of_le (by decide : (0 : Int) < builtins.length)
    (by exact_mod_cast sound.builtin)⟩

theorem Sound.known_parent (sound : r.Sound) {t : TypeId} (nonneg : 0 ≤ t) :
    (r.info t).parent = TID_UNKNOWN ∨ r.Has (r.info t).parent := by
  by_cases has : r.Has t
  · rw [Sema.parent_info has]
    exact sound.parents t has
  · rw [info_of_not_has nonneg has, Sema.parent_info sound.has_zero]
    exact sound.parents 0 sound.has_zero

theorem Sound.unlooped_parentStep (sound : r.Sound) (unlooped : Unlooped r.parentOf)
    (t : TypeId) : ¬TransGen (Steps r.parentStep) t t := by
  intro loop
  apply unlooped t
  apply Logic.loop_mono loop
  intro a b around step
  obtain ⟨z, -, into⟩ := TransGen.tail'_iff.1 around
  obtain ⟨nonneg, same, moves⟩ := parentStep_eq_some.1 step
  obtain ⟨nonneg', isParent, -⟩ := parentStep_eq_some.1 into
  have has : r.Has a := by
    rcases sound.known_parent nonneg' with unknown | has
    · rw [isParent] at unknown
      rw [unknown] at nonneg
      exact absurd nonneg (by decide)
    · rwa [isParent] at has
  rw [Sema.parent_info has] at same
  exact ⟨nonneg, same, moves⟩

theorem Sound.ends_parentStep (sound : r.Sound) (unlooped : Unlooped r.parentOf) (t : TypeId) :
    ends r.parentStep (r.types.length + 1) t = true := by
  have noLoop := sound.unlooped_parentStep unlooped
  have fromKnown {t : TypeId} (known : t = TID_UNKNOWN ∨ r.Has t) :
      ends r.parentStep (r.types.length + 1) t = true := by
    apply Logic.ends_of_finite (Finset.Ico (-1 : Int) r.types.length) _ noLoop
    · rw [Int.card_Ico]
      omega
    · intro b reached
      have isKnown : b = TID_UNKNOWN ∨ r.Has b := by
        induction reached with
        | refl => exact known
        | tail _ step _ =>
          obtain ⟨nonneg, same, -⟩ := parentStep_eq_some.1 step
          rw [← same]
          exact sound.known_parent nonneg
      rw [Finset.mem_Ico]
      rcases isKnown with rfl | has
      · exact ⟨Int.le_refl _, (by decide : (-1 : Int) < 0).trans_le (Int.natCast_nonneg _)⟩
      · exact ⟨(by decide : (-1 : Int) ≤ 0).trans has.1, has.2⟩
  by_cases negative : t < 0
  · apply Logic.ends_of_none
    rw [parentStep, if_pos (.inl negative)]
  · have nonneg := Int.not_lt.1 negative
    by_cases has : r.Has t
    · exact fromKnown (.inr has)
    · -- the step is that of the first type, which has as many steps left
      have first := fromKnown (.inr sound.has_zero)
      have same := info_of_not_has nonneg has
      cases step : r.parentStep t with
      | none => exact Logic.ends_of_none step
      | some p =>
        rw [Logic.ends_succ step]
        obtain ⟨-, isParent, -⟩ := parentStep_eq_some.1 step
        rw [same] at isParent
        cases step' : r.parentStep 0 with
        | some p' =>
          obtain ⟨-, isParent', -⟩ := parentStep_eq_some.1 step'
          rw [Logic.ends_succ step', ← isParent', isParent] at first
          exact first
        | none =>
          have isZero : p = 0 := by
            rw [parentStep] at step'
            split at step'
            · next last =>
              rw [← isParent]
              exact last.resolve_left (by decide)
            · cases step'
          obtain ⟨k, size⟩ := Nat.exists_eq_succ_of_ne_zero (Nat.ne_of_gt
            (Nat.lt_of_lt_of_le (by decide : 0 < builtins.length) sound.builtin))
          rw [isZero, size]
          exact Logic.ends_of_none step'

theorem step_of_going {t : TypeId} (nonneg : ¬t < 0) (moves : ¬(r.info t).parent = t) :
    r.parentStep t = some (r.info t).parent :=
  parentStep_eq_some.2 ⟨Int.not_lt.1 nonneg, rfl, Ne.symm moves⟩

theorem isSome_walkParents (ancestor : TypeId) {n : Nat} {t : TypeId}
    (enough : ends r.parentStep n t = true) : (r.walkParents ancestor n t).isSome = true := by
  induction n generalizing t with
  | zero => cases enough
  | succ n ih =>
    rw [walkParents]
    split
    · rfl
    · next going =>
      split
      · rfl
      · split
        · rfl
        · next moves =>
          rw [Logic.ends_succ (step_of_going (not_or.1 going).2 moves)] at enough
          exact ih enough

theorem isSome_satisfiesWithin (iface : TypeId) {n : Nat} {t : TypeId}
    (enough : ends r.parentStep n t = true) : (r.satisfiesWithin iface n t).isSome = true := by
  induction n generalizing t with
  | zero => cases enough
  | succ n ih =>
    rw [satisfiesWithin]
    split
    · rfl
    · split
      · rfl
      · split
        · rfl
        · next nonneg =>
          split
          · rfl
          · next ti found =>
            split
            · rfl
            · split
              · next going =>
                have same : (r.info t).parent = ti.parent := by
                  rw [info, if_neg nonneg, List.getD_eq_getElem?_getD, found]
                  rfl
                have moves : ¬(r.info t).parent = t := by
                  rw [same]
                  exact going.1
                rw [Logic.ends_succ (step_of_going nonneg moves), same] at enough
                exact ih enough
              · rfl

theorem isSome_memberFound (globals : Sema.Scope) (member : String) {n : Nat} {t : TypeId}
    (enough : ends r.parentStep n t = true) :
    (Sema.memberFound r globals member n t).isSome = true := by
  induction n generalizing t with
  | zero => cases enough
  | succ n ih =>
    rw [Sema.memberFound]
    split
    · rfl
    · next going =>
      split
      · split
        · rfl
        · split
          · rfl
          · next moves =>
            rw [Logic.ends_succ (step_of_going (not_or.1 (not_or.1 going).2).1 moves)] at enough
            exact ih enough
      · rfl

section Answers

variable (sound : r.Sound) (unlooped : Unlooped r.parentOf)

include sound unlooped

theorem isSome_isSubtype (child ancestor : TypeId) :
    (r.isSubtype child ancestor).isSome = true := by
  have walk := isSome_walkParents ancestor (sound.ends_parentStep unlooped child)
  unfold isSubtype
  split_ifs
  · rfl
  · rfl
  · rfl
  · rfl
  · exact walk

theorem isSome_satisfies (cls iface : TypeId) : (r.satisfies cls iface).isSome = true :=
  isSome_satisfiesWithin iface (sound.ends_parentStep unlooped cls)

theorem isSome_assignable (src dst : TypeId) : (r.assignable src dst).isSome = true := by
  have walk := isSome_isSubtype sound unlooped src dst
  unfold assignable
  dsimp only
  split_ifs
  any_goals rfl
  exact walk

theorem isSome_unify (a b : TypeId) : (r.unify a b).isSome = true := by
  obtain ⟨forth, isForth⟩ := Option.isSome_iff_exists.1 (isSome_isSubtype sound unlooped a b)
  obtain ⟨back, isBack⟩ := Option.isSome_iff_exists.1 (isSome_isSubtype sound unlooped b a)
  unfold unify
  split_ifs
  any_goals rfl
  rw [isForth, isBack]
  cases forth <;> cases back <;> rfl

end Answers

theorem Sound.has_of_loop (sound : r.Sound) {t : TypeId}
    (loop : TransGen (Lifts r.parentOf) t t) : r.Has t := by
  obtain ⟨b, ⟨nonneg, -, -⟩, -⟩ := TransGen.head'_iff.1 loop
  obtain ⟨a, -, nonneg', same, -⟩ := TransGen.tail'_iff.1 loop
  by_cases has : r.Has a
  · rcases sound.parents a has with unknown | hasParent
    · rw [same] at unknown
      rw [unknown] at nonneg
      exact absurd nonneg (by decide)
    · rwa [same] at hasParent
  · rw [parentOf_of_not_has nonneg' has] at same
    rw [← same]
    exact sound.has_object

theorem Sound.walkParents_of_loop (sound : r.Sound) {t : TypeId}
    (loop : TransGen (Lifts r.parentOf) t t) (n : Nat) :
    r.walkParents r.types.length n t = none := by
  apply Logic.eq_none_of_loop (fun _ => rfl) _ loop
  rintro m a b around ⟨nonneg, same, moves⟩
  have has := sound.has_of_loop around
  have parent : (r.info a).parent = b := (Sema.parent_info has).trans same
  have known : ¬(a = TID_UNKNOWN ∨ a < 0) := by
    rintro (rfl | negative)
    · exact absurd nonneg (by decide)
    · exact absurd nonneg (Int.not_le.2 negative)
  rw [walkParents, if_neg known, if_neg (Int.ne_of_lt has.2), parent, if_neg (Ne.symm moves)]

theorem Sound.unlooped_of_answers (sound : r.Sound)
    (answers : ∀ child, (r.isSubtype child r.types.length).isSome = true) :
    Unlooped r.parentOf := by
  have size : (11 : Int) < r.types.length :=
    lt_of_lt_of_le (by decide : (11 : Int) < builtins.length) (by exact_mod_cast sound.builtin)
  -- `null` is a subtype without a walk
  have notNull {t : TypeId} (loop : TransGen (Lifts r.parentOf) t t) : t = TID_NULL := by
    by_contra notNull
    have has := sound.has_of_loop loop
    have answer := answers t
    have known : ¬(t = TID_UNKNOWN ∨ (r.types.length : TypeId) = TID_UNKNOWN) := by
      rintro (rfl | unknown)
      · exact absurd has.1 (by decide)
      · exact absurd (unknown ▸ Int.natCast_nonneg _) (by decide)
    have notObject : (r.types.length : TypeId) ≠ TID_OBJECT := fun isObject =>
      absurd (isObject ▸ size) (by decide)
    rw [isSubtype, if_neg (Int.ne_of_lt has.2), if_neg notObject, if_neg notNull, if_neg known,
      sound.walkParents_of_loop loop] at answer
    cases answer
  intro t loop
  obtain ⟨b, step, back⟩ := TransGen.head'_iff.1 loop
  have around : TransGen (Lifts r.parentOf) b b := TransGen.tail' back step
  exact step.2.2 ((notNull loop).trans (notNull around).symm)

end TypeRegistry

namespace Sema

open TypeRegistry
open Logic (Moves Returns)

/-! ## Analysis that comes to its end -/

/-- A state whose parents have no loop. -/
structure Clear (s : State) : Prop extends SoundState s where
  unlooped : Unlooped s.types.parentOf

/-- From a clear state the computation returns, and leaves the parents alone. -/
def Settles {α : Type} (m : M α) : Prop :=
  ∀ s, Clear s → ∃ a s', m.run s = some (a, s') ∧ Follows [] s s'

section Settling

variable {α β : Type} {m : M α} {f : α → M β} {s s' : State}

theorem Clear.follows (clear : Clear s) (follows : Follows [] s s') : Clear s' := by
  obtain ⟨sound, -, parents, -⟩ := follows clear.toSoundState
  have same : s'.types.parentOf = s.types.parentOf := funext parents
  exact ⟨sound, same ▸ clear.unlooped⟩

theorem settles_of_moves (moves : Moves (Follows []) m)
    (returns : ∀ s, Clear s → ∃ a s', m.run s = some (a, s')) : Settles m := by
  intro s clear
  obtain ⟨a, s', run⟩ := returns s clear
  exact ⟨a, s', run, moves _ _ _ run⟩

theorem settles_bind (first : Settles m) (second : ∀ a, Settles (f a)) : Settles (m >>= f) := by
  intro s clear
  obtain ⟨a, s₁, run, follows⟩ := first s clear
  obtain ⟨b, s₂, run', follows'⟩ := second a s₁ (clear.follows follows)
  exact ⟨b, s₂, Logic.run_bind_eq_some_iff.2 ⟨a, s₁, run, run'⟩,
    Follows.trans _ _ _ follows follows'⟩

theorem settles_lift {x : Option α} (answers : x.isSome = true) : Settles (liftM x : M α) := by
  obtain ⟨a, rfl⟩ := Option.isSome_iff_exists.1 answers
  exact settles_of_moves (.lift _) fun s _ => ⟨a, s, rfl⟩

theorem returns_define (name : String) (sym : Symbol) : Returns (define name sym) := by
  apply Returns.read
  intro s
  split
  · exact Returns.pure _
  · exact Returns.bind (fun _ => ⟨_, _, rfl⟩) fun _ => Returns.pure _

theorem Checks.settles (checks : Checks Clear True m) : Settles m := by
  induction checks with
  | pure a => exact settles_of_moves (.pure a) fun s _ => ⟨a, s, rfl⟩
  | bind _ _ first second => exact settles_bind first second
  | read _ each =>
    intro s clear
    obtain ⟨a, s', run, follows⟩ := each s clear s clear
    exact ⟨a, s', Logic.run_bind_eq_some_iff.2 ⟨s, s, rfl, run⟩, follows⟩
  | err msg => exact settles_of_moves (Checks.err msg).moves fun s _ => ⟨(), _, rfl⟩
  | warn msg => exact settles_of_moves (Checks.warn msg).moves fun s _ => ⟨(), _, rfl⟩
  | define name sym notClass notInterface =>
    exact settles_of_moves (Checks.define name sym notClass notInterface).moves
      fun s _ => returns_define name sym s
  | types step => exact settles_of_moves (Checks.types step).moves fun s _ => ⟨_, _, rfl⟩
  | assignable _ clear src dst =>
    exact settles_lift (isSome_assignable clear.types clear.unlooped src dst)
  | unify _ clear a b => exact settles_lift (isSome_unify clear.types clear.unlooped a b)
  | memberFound _ clear member t =>
    exact settles_lift (isSome_memberFound _ member (clear.types.ends_parentStep clear.unlooped t))

theorem settles_inScope (settles : Settles m) : Settles (inScope m) := by
  intro s clear
  have pushed : Follows [] s { s with scopes := [] :: s.scopes } := follows_push s () _ rfl
  obtain ⟨a, s₁, run, follows⟩ := settles _ (clear.follows pushed)
  obtain ⟨s₂, popped⟩ : ∃ s₂, pop.run s₁ = some ((), s₂) := ⟨_, rfl⟩
  refine ⟨a, s₂, ?_, ?_⟩
  · unfold inScope
    simp only [Logic.run_bind_eq_some_iff]
    exact ⟨(), _, rfl, a, s₁, run, (), s₂, popped, rfl⟩
  · exact Follows.trans _ _ _ pushed (Follows.trans _ _ _ follows (follows_pop _ _ _ popped))

theorem settles_bracket {enter : State → State} {leave : State → State → State}
    (flags : Flags enter leave) (settles : Settles m) : Settles (bracket enter leave m) := by
  intro s clear
  have entered : Follows [] s (enter s) := Nested.flags _ _ (flags.entering s)
  obtain ⟨a, s₁, run, follows⟩ := settles _ (clear.follows entered)
  have left : Follows [] s₁ (leave s s₁) := Nested.flags _ _ (flags.leaving s s₁)
  refine ⟨a, leave s s₁, run_bracket_eq_some_iff.2 ⟨s₁, run, rfl⟩, ?_⟩
  exact Follows.trans _ _ _ entered (Follows.trans _ _ _ follows left)

end Settling

theorem settles_visits : Visits Clear fun _ _ m => Settles m where
  checks := Checks.settles
  seq first second := settles_bind first second
  context _ := id
  inScope := settles_inScope
  bracket flags := settles_bracket flags.toFlags
  await := settles_bracket ⟨fun _ => ⟨rfl, rfl, rfl, rfl⟩, fun _ _ => ⟨rfl, rfl, rfl, rfl⟩⟩
  named _ _ _ := (checks_checkCallable _ _).settles
  target _ _ _ _ := (checks_checkAssignIdent _ _ _).settles
  passed _ := id

theorem settles_checkStmts (ss : List Stmt) : Settles (checkStmts ss) :=
  settles_visits.stmts .outside ss

theorem settles_checkFunc (f : FunctionDecl) : Settles (checkFunc f) := settles_visits.func f

theorem settles_checkClassBody (c : ClassDecl) (type : TypeId) :
    Settles (insideClass c.name type do
      inScope do
        defineMembers c.members
        return { c with members := ← checkMembers c.members }) :=
  settles_visits.classBody c type

end Sema

end Dux
