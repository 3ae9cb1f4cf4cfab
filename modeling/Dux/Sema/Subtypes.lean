import Dux.Sema.Walks

/-!
# Subtyping as an order

What `is_subtype` and `unify` (`src/sema/types.cpp`) make of the types that an analysis leaves in
the registry.  `null` is a subtype of all of them, and left out.
-/

namespace Dux

open Relation (ReflTransGen TransGen)
open Logic (climb Climbs)
open Sema (run subtypeTest walkParents_eq_climb climb_iff_climbs isSubtype_eq_walkParents)

namespace TypeRegistry

variable {r : TypeRegistry} {a b c : TypeId}

/-- A type of values. -/
structure Proper (r : TypeRegistry) (t : TypeId) : Prop where
  has : r.Has t
  notNull : t ≠ TID_NULL

theorem Proper.known (proper : r.Proper a) : a ≠ TID_UNKNOWN := by
  rintro rfl
  exact absurd proper.has.1 (by decide)

theorem subtypeTest_eq_some_true_iff : subtypeTest b a = some true ↔ 0 ≤ a ∧ a = b := by
  unfold subtypeTest
  split_ifs with unknown same
  · have negative : a < 0 := unknown.elim (fun isUnknown => isUnknown ▸ by decide) id
    simp [Int.not_le.2 negative]
  · exact iff_of_true rfl ⟨Int.not_lt.1 (not_or.1 unknown).2, same⟩
  · simp [same]

theorem subtypeTest_eq_none_iff : subtypeTest b a = none ↔ 0 ≤ a ∧ a ≠ b := by
  unfold subtypeTest
  split_ifs with unknown same
  · have negative : a < 0 := unknown.elim (fun isUnknown => isUnknown ▸ by decide) id
    simp [Int.not_le.2 negative]
  · simp [same]
  · exact iff_of_true rfl ⟨Int.not_lt.1 (not_or.1 unknown).2, same⟩

/-- A walk finds what steps along the parents lead to. -/
theorem climbs_iff {up : TypeId → TypeId} (isType : 0 ≤ b) :
    Climbs (subtypeTest b) up a ↔ ReflTransGen (Lifts up) a b := by
  constructor
  · intro climbs
    induction climbs with
    | here yes => rw [(subtypeTest_eq_some_true_iff.1 yes).2]
    | @up a going above ih =>
        by_cases stays : a = up a
        · rwa [← stays] at ih
        · exact .head ⟨(subtypeTest_eq_none_iff.1 going).1, rfl, stays⟩ ih
  · intro path
    induction path using ReflTransGen.head_induction_on with
    | refl => exact .here (subtypeTest_eq_some_true_iff.2 ⟨isType, rfl⟩)
    | @head a p step path ih =>
        obtain ⟨nonneg, rfl, -⟩ := step
        by_cases here : a = b
        · exact .here (subtypeTest_eq_some_true_iff.2 ⟨nonneg, here⟩)
        · exact .up (subtypeTest_eq_none_iff.2 ⟨nonneg, here⟩) ih

theorem isSubtype_iff (sound : r.Sound) (proper : r.Proper a) (proper' : r.Proper b) :
    r.isSubtype a b = some true ↔ b = TID_OBJECT ∨ ReflTransGen (Lifts r.parentOf) a b := by
  by_cases same : a = b
  · subst same
    simp [isSubtype, ReflTransGen.refl]
  · by_cases object : b = TID_OBJECT
    · simp [isSubtype, object]
    · rw [isSubtype_eq_walkParents same object proper.notNull proper.known proper'.known,
        walkParents_eq_climb sound b _ (.inr proper.has),
        climb_iff_climbs sound rfl (.inr proper.has), climbs_iff proper'.has.1, or_iff_right object]

/-! ## The laws of an order -/

section Order

variable (sound : r.Sound) (noParent : r.parentOf TID_OBJECT = TID_UNKNOWN)
include sound noParent

omit sound in
theorem eq_object (proper : r.Proper a) (path : ReflTransGen (Lifts r.parentOf) TID_OBJECT a) :
    a = TID_OBJECT := by
  rcases path.cases_head with same | ⟨p, step, path⟩
  · exact same.symm
  · obtain ⟨-, rfl, -⟩ := step
    rw [noParent] at path
    rcases path.cases_head with same | ⟨p, step, -⟩
    · exact absurd same.symm proper.known
    · exact absurd step.1 (by decide)

theorem isSubtype_trans (properA : r.Proper a) (properB : r.Proper b) (properC : r.Proper c)
    (below : r.isSubtype a b = some true) (below' : r.isSubtype b c = some true) :
    r.isSubtype a c = some true := by
  rw [isSubtype_iff sound properB properC] at below'
  rw [isSubtype_iff sound properA properB] at below
  rw [isSubtype_iff sound properA properC]
  rcases below' with object | path'
  · exact .inl object
  · rcases below with rfl | path
    · exact .inl (eq_object noParent properC path')
    · exact .inr (path.trans path')

theorem isSubtype_antisymm (unlooped : Unlooped r.parentOf) (properA : r.Proper a)
    (properB : r.Proper b) (below : r.isSubtype a b = some true)
    (above : r.isSubtype b a = some true) : a = b := by
  rw [isSubtype_iff sound properA properB] at below
  rw [isSubtype_iff sound properB properA] at above
  rcases below with rfl | path
  · rcases above with same | path'
    · exact same
    · exact eq_object noParent properA path'
  · rcases above with rfl | path'
    · exact (eq_object noParent properB path).symm
    · rcases Relation.reflTransGen_iff_eq_or_transGen.1 path with same | loop
      · exact same.symm
      · exact absurd (loop.trans_left path') (unlooped a)

end Order

/-! ## Common types -/

theorem assignable_of_isSubtype (notNull : a ≠ TID_NULL) (below : r.isSubtype a b = some true) :
    r.assignable a b = some true := by
  unfold assignable
  dsimp only
  split_ifs
  all_goals first
    | rfl
    | exact below

theorem rank_inj (positive : 0 < rank a) (same : rank a = rank b) : a = b := by
  unfold rank at positive same
  split_ifs at positive same <;> simp_all

theorem isNumeric_of_rank (positive : 0 < rank a) : isNumeric a = true := by
  unfold rank at positive
  split_ifs at positive <;> simp_all [isNumeric]

theorem assignable_of_rank (positive : 0 < rank a) (positive' : 0 < rank b) :
    r.assignable a b = some true := by
  have numeric := isNumeric_of_rank positive
  have numeric' := isNumeric_of_rank positive'
  have notNull : a ≠ TID_NULL := by
    rintro rfl
    exact absurd positive (by decide)
  unfold assignable
  dsimp only
  split_ifs <;> simp_all

theorem unify_of_ne (properA : r.Proper a) (properB : r.Proper b) (apart : a ≠ b) :
    r.unify a b = if 0 < rank a ∧ 0 < rank b then some (if rank b ≤ rank a then a else b) else do
      if ← r.isSubtype a b then return b
      if ← r.isSubtype b a then return a
      return TID_OBJECT := by
  rw [unify, if_neg properA.known, if_neg properB.known, if_neg apart, if_neg properA.notNull,
    if_neg properB.notNull]

/-- Two types of values have a common type, the same in either order. -/
theorem exists_unify (sound : r.Sound) (noParent : r.parentOf TID_OBJECT = TID_UNKNOWN)
    (unlooped : Unlooped r.parentOf) (properA : r.Proper a) (properB : r.Proper b) :
    ∃ t, r.unify a b = some t ∧ r.unify b a = some t ∧ r.assignable a t = some true ∧
      r.assignable b t = some true := by
  by_cases same : a = b
  · subst same
    have self : r.assignable a a = some true :=
      assignable_of_isSubtype properA.notNull (if_pos rfl)
    refine ⟨a, ?_, ?_, self, self⟩
    all_goals rw [unify, if_neg properA.known, if_neg properA.known, if_pos rfl]
  rw [unify_of_ne properA properB same, unify_of_ne properB properA (Ne.symm same)]
  by_cases ranked : 0 < rank a ∧ 0 < rank b
  · rw [if_pos ranked, if_pos ranked.symm]
    rcases Nat.lt_or_ge (rank a) (rank b) with less | atLeast
    · exact ⟨b, by rw [if_neg (Nat.not_le.2 less)], by rw [if_pos less.le],
        assignable_of_rank ranked.1 ranked.2, assignable_of_rank ranked.2 ranked.2⟩
    · have greater : ¬rank a ≤ rank b := fun atMost =>
        same (rank_inj ranked.1 (Nat.le_antisymm atMost atLeast))
      exact ⟨a, by rw [if_pos atLeast], by rw [if_neg greater],
        assignable_of_rank ranked.1 ranked.1, assignable_of_rank ranked.2 ranked.1⟩
  · rw [if_neg ranked, if_neg (mt And.symm ranked)]
    have assigns {x y : TypeId} (proper : r.Proper x) (below : r.isSubtype x y = some true) :
        r.assignable x y = some true := assignable_of_isSubtype proper.notNull below
    have self {x : TypeId} : r.isSubtype x x = some true := if_pos rfl
    obtain ⟨forth, isForth⟩ := Option.isSome_iff_exists.1 (isSome_isSubtype sound unlooped a b)
    obtain ⟨back, isBack⟩ := Option.isSome_iff_exists.1 (isSome_isSubtype sound unlooped b a)
    rw [isForth, isBack]
    cases forth with
    | true =>
        cases back with
        | true =>
            exact absurd (isSubtype_antisymm sound noParent unlooped properA properB isForth isBack)
              same
        | false => exact ⟨b, rfl, rfl, assigns properA isForth, assigns properB self⟩
    | false =>
        cases back with
        | true => exact ⟨a, rfl, rfl, assigns properA self, assigns properB isBack⟩
        | false =>
            have top {x : TypeId} : r.isSubtype x TID_OBJECT = some true := by simp [isSubtype]
            exact ⟨TID_OBJECT, rfl, rfl, assigns properA top, assigns properB top⟩

end TypeRegistry

namespace Sema

open TypeRegistry

/-- Behind an analysis that has given `object` no parent and made no loop of parents, `is_subtype`
is an order on the types of values, and `unify` finds a type for any two of them that both can be
assigned to, the same in either order. -/
theorem ordered_of_run {prog prog' : Program} {s : State}
    (returns : (run prog).run .initial = some (prog', s))
    (noParent : s.types.parentOf TID_OBJECT = TID_UNKNOWN) (unlooped : Unlooped s.types.parentOf) :
    (∀ a, s.types.isSubtype a a = some true) ∧
      (∀ a b c, s.types.Proper a → s.types.Proper b → s.types.Proper c →
        s.types.isSubtype a b = some true → s.types.isSubtype b c = some true →
          s.types.isSubtype a c = some true) ∧
      (∀ a b, s.types.Proper a → s.types.Proper b → s.types.isSubtype a b = some true →
        s.types.isSubtype b a = some true → a = b) ∧
      ∀ a b, s.types.Proper a → s.types.Proper b → ∃ t, s.types.unify a b = some t ∧
        s.types.unify b a = some t ∧ s.types.assignable a t = some true ∧
          s.types.assignable b t = some true := by
  have sound : s.types.Sound := (parentOf_of_run returns).1.types
  exact ⟨fun a => if_pos rfl, fun a b c => isSubtype_trans sound noParent,
    fun a b => isSubtype_antisymm sound noParent unlooped,
    fun a b => exists_unify sound noParent unlooped⟩

/-- How far it is from a type of `derived` to one without a parent. -/
def height (t : TypeId) : Nat :=
  if t < 0 then 0 else if t = TID_OBJECT then 1 else if t = 13 then 3 else 2

theorem ordered_derived : ∃ prog' s, Accepts derived prog' s ∧
    ∃ t, s.types.unify 13 12 = some t ∧ s.types.unify 12 13 = some t ∧
      s.types.assignable 13 t = some true ∧ s.types.assignable 12 t = some true := by
  obtain ⟨prog', s, accepts, holds⟩ := exists_accepts derived
    (fun _ s => s.types.types.length = 14 ∧ s.types.parentOf TID_OBJECT = TID_UNKNOWN ∧
      ∀ t ∈ List.range 14, height (s.types.parentOf t) < height t) (by decide +kernel)
  obtain ⟨size, noParent, lower⟩ := of_decide_eq_true holds
  have lowers {a b : TypeId} (step : Lifts s.types.parentOf a b) : height b < height a := by
    obtain ⟨nonneg, rfl, moves⟩ := step
    by_cases has : s.types.Has a
    · obtain ⟨n, rfl⟩ := Int.eq_ofNat_of_zero_le nonneg
      apply lower n
      rw [List.mem_range, ← size]
      exact Int.ofNat_lt.1 has.2
    · rw [parentOf_of_not_has nonneg has] at moves ⊢
      have other : a ≠ 13 := by
        rintro rfl
        exact has ⟨nonneg, by rw [size]; decide⟩
      have object : height TID_OBJECT = 1 := rfl
      rw [object, height, if_neg (Int.not_lt.2 nonneg), if_neg moves, if_neg other]
      decide
  have unlooped : Unlooped s.types.parentOf := by
    intro t loop
    have less {a b : TypeId} (path : Relation.TransGen (Lifts s.types.parentOf) a b) :
        height b < height a := by
      induction path with
      | single step => exact lowers step
      | tail _ step ih => exact (lowers step).trans ih
    exact Nat.lt_irrefl _ (less loop)
  have proper {t : TypeId} (isClass : t = 12 ∨ t = 13) : s.types.Proper t := by
    rcases isClass with rfl | rfl <;> exact ⟨⟨by decide, by rw [size]; decide⟩, by decide⟩
  exact ⟨prog', s, accepts, (ordered_of_run accepts.1 noParent unlooped).2.2.2 13 12
    (proper (.inr rfl)) (proper (.inl rfl))⟩

end Sema

end Dux
