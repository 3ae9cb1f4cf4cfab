import Mathlib.Data.Finset.Card
import Mathlib.Data.List.Nodup
import Mathlib.Logic.Relation

/-!
# Depth-first visits

A graph gives for every vertex its successors in order.  A visit enters the vertices of
a list that were not entered before, each with all its successors, and puts what it
entered for a vertex before what it entered for those listed earlier.
-/

namespace Dux.Logic

universe u

variable {α : Type u}

/-! ## Reachable vertices -/

section Reach

variable (next : α → List α)

def Edge (v w : α) : Prop := w ∈ next v

/-- A vertex that can be reached from one of a list. -/
def Below (todo : List α) (w : α) : Prop := ∃ v ∈ todo, Relation.ReflTransGen (Edge next) v w

/-- No vertex under a list can be reached from itself. -/
def AcyclicBelow (todo : List α) : Prop :=
  ∀ v, Below next todo v → ¬Relation.TransGen (Edge next) v v

variable {next}

theorem not_below_nil (w : α) : ¬Below next [] w := by
  rintro ⟨v, member, -⟩
  cases member

theorem below_cons {v w : α} {todo : List α} :
    Below next (v :: todo) w ↔ Relation.ReflTransGen (Edge next) v w ∨ Below next todo w := by
  simp [Below]

theorem below_append {w : α} {left right : List α} :
    Below next (left ++ right) w ↔ Below next left w ∨ Below next right w := by
  simp [Below, or_and_right, exists_or]

theorem Below.tail {todo : List α} {v w : α} (below : Below next todo v)
    (path : Relation.ReflTransGen (Edge next) v w) : Below next todo w := by
  obtain ⟨t, member, upper⟩ := below
  exact ⟨t, member, upper.trans path⟩

theorem Below.of_next {v w : α} (below : Below next (next v) w) :
    Relation.TransGen (Edge next) v w := by
  obtain ⟨t, member, path⟩ := below
  exact Relation.TransGen.head' member path

theorem below_next_of_ne {v w : α} (path : Relation.ReflTransGen (Edge next) v w)
    (differ : w ≠ v) : Below next (next v) w := by
  rcases Relation.ReflTransGen.cases_head path with rfl | ⟨t, edge, rest⟩
  · exact absurd rfl differ
  · exact ⟨t, edge, rest⟩

theorem AcyclicBelow.mono {todo todo' : List α} (acyclic : AcyclicBelow next todo)
    (under : ∀ v, Below next todo' v → Below next todo v) : AcyclicBelow next todo' :=
  fun v below => acyclic v (under v below)

end Reach

/-! ## Visits -/

section Visit

variable (next : α → List α)

/-- Visiting `todo` when `seen` was entered before enters `out`, and `seen'` in the end. -/
inductive Visit : List α → List α → List α → List α → Prop
  | nil (seen : List α) : Visit [] seen [] seen
  | skip {v : α} {todo seen out seen' : List α} (known : v ∈ seen)
      (rest : Visit todo seen out seen') : Visit (v :: todo) seen out seen'
  | enter {v : α} {todo seen below seen₁ out seen' : List α} (fresh : v ∉ seen)
      (inside : Visit (next v) (v :: seen) below seen₁)
      (rest : Visit todo seen₁ out seen') : Visit (v :: todo) seen (out ++ (below ++ [v])) seen'

variable {next} {todo seen out seen' : List α}

theorem Visit.mem_seen (visit : Visit next todo seen out seen') (w : α) :
    w ∈ seen' ↔ w ∈ seen ∨ w ∈ out := by
  induction visit with
  | nil seen => simp
  | skip known rest ih => exact ih
  | enter fresh inside rest ihInside ihRest =>
    rw [ihRest, ihInside]
    simp only [List.mem_cons, List.mem_append, List.not_mem_nil, or_false]
    tauto

theorem Visit.fresh (visit : Visit next todo seen out seen') {w : α} (entered : w ∈ out) :
    w ∉ seen := by
  induction visit with
  | nil seen => cases entered
  | skip known rest ih => exact ih entered
  | @enter v _ seen _ _ _ _ fresh inside rest ihInside ihRest =>
    rcases List.mem_append.1 entered with inRest | entered
    · intro known
      exact ihRest inRest ((inside.mem_seen w).2 (.inl (List.mem_cons_of_mem v known)))
    · rcases List.mem_append.1 entered with isBelow | isSelf
      · exact fun known => ihInside isBelow (List.mem_cons_of_mem v known)
      · rwa [List.mem_singleton.1 isSelf]

theorem Visit.nodup (visit : Visit next todo seen out seen') : out.Nodup := by
  induction visit with
  | nil seen => exact List.nodup_nil
  | skip known rest ih => exact ih
  | @enter v _ seen below _ out _ fresh inside rest ihInside ihRest =>
    have apart : ∀ w ∈ below ++ [v], w ∉ out := by
      intro w entered later
      apply rest.fresh later
      rw [inside.mem_seen]
      rcases List.mem_append.1 entered with isBelow | isSelf
      · exact .inr isBelow
      · rw [List.mem_singleton.1 isSelf]
        exact .inl List.mem_cons_self
    have notBelow : v ∉ below := fun isBelow => inside.fresh isBelow List.mem_cons_self
    rw [List.nodup_append]
    constructor
    · exact ihRest
    · constructor
      · rw [List.nodup_append]
        constructor
        · exact ihInside
        · constructor
          · exact List.nodup_singleton v
          · intro w isBelow w' isSelf same
            rw [List.mem_singleton.1 isSelf] at same
            exact notBelow (same ▸ isBelow)
      · intro w later w' entered same
        exact apart w' entered (same ▸ later)

theorem Visit.reached (visit : Visit next todo seen out seen') {w : α} (entered : w ∈ out) :
    Below next todo w := by
  induction visit with
  | nil seen => cases entered
  | skip known rest ih => exact below_cons.2 (.inr (ih entered))
  | enter fresh inside rest ihInside ihRest =>
    rw [below_cons]
    rcases List.mem_append.1 entered with inRest | entered
    · exact .inr (ihRest inRest)
    · rcases List.mem_append.1 entered with isBelow | isSelf
      · exact .inl (ihInside isBelow).of_next.to_reflTransGen
      · rw [List.mem_singleton.1 isSelf]
        exact .inl .refl

theorem Visit.seen_mono (visit : Visit next todo seen out seen') {w : α} (known : w ∈ seen) :
    w ∈ seen' :=
  (visit.mem_seen w).2 (.inl known)

theorem Visit.todo_subset (visit : Visit next todo seen out seen') : ∀ v ∈ todo, v ∈ seen' := by
  induction visit with
  | nil seen => exact fun v member => absurd member List.not_mem_nil
  | skip known rest ih =>
    rintro w (_ | ⟨_, member⟩)
    · exact rest.seen_mono known
    · exact ih w member
  | enter fresh inside rest ihInside ihRest =>
    rintro w (_ | ⟨_, member⟩)
    · exact rest.seen_mono (inside.seen_mono List.mem_cons_self)
    · exact ihRest w member

theorem Visit.next_subset (visit : Visit next todo seen out seen') {v : α} (entered : v ∈ out) :
    ∀ w ∈ next v, w ∈ seen' := by
  induction visit with
  | nil seen => cases entered
  | skip known rest ih => exact ih entered
  | enter fresh inside rest ihInside ihRest =>
    intro w edge
    rcases List.mem_append.1 entered with inRest | entered
    · exact ihRest inRest w edge
    · apply rest.seen_mono
      rcases List.mem_append.1 entered with isBelow | isSelf
      · exact ihInside isBelow w edge
      · rw [List.mem_singleton.1 isSelf] at edge
        exact inside.todo_subset w edge

/-- A visit from scratch enters exactly what can be reached. -/
theorem Visit.mem_iff_below (visit : Visit next todo [] out seen') (w : α) :
    w ∈ out ↔ Below next todo w := by
  have entered {v : α} (known : v ∈ seen') : v ∈ out := by
    simpa using (visit.mem_seen v).1 known
  constructor
  · exact visit.reached
  · rintro ⟨t, member, path⟩
    induction path with
    | refl => exact entered (visit.todo_subset t member)
    | tail _ edge ih => exact entered (visit.next_subset ih _ edge)

theorem Visit.split {front rest : List α} (visit : Visit next (front ++ rest) seen out seen') :
    ∃ outFront outRest seen₁, out = outRest ++ outFront ∧
      Visit next front seen outFront seen₁ ∧ Visit next rest seen₁ outRest seen' := by
  induction front generalizing seen out with
  | nil => exact ⟨[], out, seen, (List.append_nil out).symm, .nil seen, visit⟩
  | cons v front ih =>
    cases visit with
    | skip known visit =>
      obtain ⟨outFront, outRest, seen₁, isOut, first, second⟩ := ih visit
      exact ⟨outFront, outRest, seen₁, isOut, .skip known first, second⟩
    | enter fresh inside visit =>
      obtain ⟨outFront, outRest, seen₁, rfl, first, second⟩ := ih visit
      exact ⟨_, outRest, seen₁, List.append_assoc .., .enter fresh inside first, second⟩

end Visit

/-! ## The order of a visit -/

section Order

variable (next : α → List α) (marked : α → Prop)

/-- Every vertex stands behind its marked successors. -/
def Sorted (out : List α) : Prop :=
  ∀ pre v post, out = pre ++ v :: post → ∀ w ∈ next v, marked w → w ∈ pre

/-- Every vertex of a list is under those before it or reaches no marked one that is. -/
def Apart (todo : List α) : Prop :=
  ∀ front v rest, todo = front ++ v :: rest → Below next front v ∨
    ∀ w, Relation.ReflTransGen (Edge next) v w → marked w → ¬Below next front w

variable {next marked} {todo seen out seen' : List α}

theorem Sorted.left {left right : List α} (sorted : Sorted next marked (left ++ right)) :
    Sorted next marked left := by
  rintro pre v post rfl w edge isMarked
  exact sorted pre v (post ++ right) (by simp) w edge isMarked

theorem Sorted.append {left right : List α} (first : Sorted next marked left)
    (second : ∀ pre v post, right = pre ++ v :: post → ∀ w ∈ next v, marked w → w ∈ left ++ pre) :
    Sorted next marked (left ++ right) := by
  intro pre v post isOut w edge isMarked
  rcases List.append_eq_append_iff.1 isOut with ⟨pre', rfl, isRight⟩ | ⟨rest, rfl, isRest⟩
  · exact second pre' v post isRight w edge isMarked
  · cases rest with
    | nil =>
      have early := second [] v post isRest.symm w edge isMarked
      simpa using early
    | cons v' rest =>
      obtain ⟨rfl, -⟩ := List.cons.inj isRest
      exact first pre v rest rfl w edge isMarked

theorem Sorted.right {left right : List α} (sorted : Sorted next marked (left ++ right))
    (apart : ∀ v ∈ right, ∀ w ∈ next v, w ∉ left) : Sorted next marked right := by
  rintro pre v post rfl w edge isMarked
  have early := sorted (left ++ pre) v post (by simp) w edge isMarked
  rcases List.mem_append.1 early with isLeft | isPre
  · exact absurd isLeft (apart v (by simp) w edge)
  · exact isPre

theorem Visit.apart_rest {v : α} {below seen₁ : List α}
    (inside : Visit next (next v) (v :: seen) below seen₁)
    (rest : Visit next todo seen₁ out seen') :
    ∀ u ∈ below ++ [v], ∀ w ∈ next u, w ∉ out := by
  intro u entered w edge later
  apply rest.fresh later
  rcases List.mem_append.1 entered with isBelow | isSelf
  · exact inside.next_subset isBelow w edge
  · rw [List.mem_singleton.1 isSelf] at edge
    exact inside.todo_subset w edge

theorem Visit.inside_of_sorted (visit : Visit next todo seen out seen')
    (sorted : Sorted next marked out) {v : α} (entered : v ∈ out) :
    ∃ seenV below seen₁, v ∉ seenV ∧ Visit next (next v) (v :: seenV) below seen₁ ∧
      Sorted next marked (below ++ [v]) := by
  induction visit with
  | nil seen => cases entered
  | skip known rest ih => exact ih sorted entered
  | @enter _ _ seen below _ out _ fresh inside rest ihInside ihRest =>
    have sortedHere := sorted.right (inside.apart_rest rest)
    rcases List.mem_append.1 entered with inRest | entered
    · exact ihRest sorted.left inRest
    · rcases List.mem_append.1 entered with isBelow | isSelf
      · exact ihInside sortedHere.left isBelow
      · cases List.mem_singleton.1 isSelf
        exact ⟨seen, below, _, fresh, inside, sortedHere⟩

theorem Visit.mem_of_below (visit : Visit next todo seen out seen')
    (closed : ∀ v ∈ seen, Below next todo v → ∀ w, Edge next v w → w ∈ seen) {w : α}
    (below : Below next todo w) : w ∈ seen' := by
  obtain ⟨t, member, path⟩ := below
  induction path with
  | refl => exact visit.todo_subset t member
  | @tail b c path edge ih =>
    rcases (visit.mem_seen b).1 ih with known | entered
    · exact visit.seen_mono (closed b known ⟨t, member, path⟩ c edge)
    · exact visit.next_subset entered c edge

theorem Sorted.mem_of_path (source : ∀ v w, Edge next v w → marked v) {v : α} {below : List α}
    (sorted : Sorted next marked (below ++ [v])) {w : α}
    (path : Relation.ReflTransGen (Edge next) v w) (isMarked : marked w) : w ∈ below ++ [v] := by
  induction path with
  | refl => simp
  | @tail b c _ edge ih =>
    obtain ⟨pre, post, isList⟩ := List.append_of_mem (ih (source b c edge))
    rw [isList]
    exact List.mem_append_left _ (sorted pre b post isList c edge isMarked)

theorem Visit.fresh_inside {v w : α} {below seen₁ : List α}
    (inside : Visit next (next v) (v :: seen) below seen₁) (fresh : v ∉ seen)
    (entered : w ∈ below ++ [v]) : w ∉ seen := by
  rcases List.mem_append.1 entered with isBelow | isSelf
  · exact fun known => inside.fresh isBelow (List.mem_cons_of_mem v known)
  · rwa [List.mem_singleton.1 isSelf]

theorem Visit.apart_of_sorted (source : ∀ v w, Edge next v w → marked v)
    (visit : Visit next todo seen out seen') (sorted : Sorted next marked out)
    (unseen : ∀ w, Below next todo w → marked w → w ∉ seen) : Apart next marked todo := by
  rintro front v rest rfl
  obtain ⟨outFront, outRest, seen₁, rfl, first, second⟩ := visit.split
  have inFront {w : α} (below : Below next front w) : w ∈ seen₁ := by
    apply first.mem_of_below _ below
    intro u known below w edge
    exact absurd known (unseen u (below_append.2 (.inl below)) (source u w edge))
  cases second with
  | skip known visit =>
    rcases (first.mem_seen v).1 known with known | entered
    · right
      intro w path isMarked
      have isBelow : Below next (front ++ v :: rest) v :=
        ⟨v, by simp, .refl⟩
      rcases Relation.ReflTransGen.cases_head path with rfl | ⟨u, edge, -⟩
      · exact absurd known (unseen v isBelow isMarked)
      · exact absurd known (unseen v isBelow (source v u edge))
    · exact .inl (first.reached entered)
  | enter fresh inside visit =>
    right
    intro w path isMarked below
    have sortedHere := sorted.left.right (inside.apart_rest visit)
    exact inside.fresh_inside fresh (sortedHere.mem_of_path source path isMarked) (inFront below)

theorem Visit.sorted_of_apart (source : ∀ v w, Edge next v w → marked v)
    (visit : Visit next todo seen out seen') (front : List α)
    (apart : Apart next marked (front ++ todo))
    (under : ∀ v, Below next todo v → Apart next marked (next v))
    (acyclic : AcyclicBelow next todo)
    (seenInFront : ∀ w, Below next todo w → marked w → w ∈ seen → Below next front w)
    (frontSeen : ∀ w, Below next front w → w ∈ seen) : Sorted next marked out := by
  induction visit generalizing front with
  | nil seen =>
    intro pre v post isOut
    simp at isOut
  | @skip v todo seen _ _ known rest ih =>
    apply ih (front ++ [v])
    · rwa [List.append_assoc]
    · exact fun w below => under w (below_cons.2 (.inr below))
    · exact acyclic.mono fun w below => below_cons.2 (.inr below)
    · intro w below isMarked known
      exact below_append.2 (.inl (seenInFront w (below_cons.2 (.inr below)) isMarked known))
    · intro w below
      rcases below_append.1 below with inFront | ⟨t, isSelf, path⟩
      · exact frontSeen w inFront
      · cases List.mem_singleton.1 isSelf
        rcases Relation.ReflTransGen.cases_head path with rfl | ⟨u, edge, -⟩
        · exact known
        · have isBelow : Below next (v :: todo) v := ⟨v, by simp, .refl⟩
          have inFront := seenInFront v isBelow (source v u edge) known
          exact frontSeen w (inFront.tail path)
  | @enter v todo seen below seen₁ out _ fresh inside rest ihInside ihRest =>
    have isBelow {w : α} (path : Relation.ReflTransGen (Edge next) v w) :
        Below next (v :: todo) w := ⟨v, by simp, path⟩
    -- nothing marked under `v` was seen
    have unseen : ∀ w, Relation.ReflTransGen (Edge next) v w → marked w → w ∉ seen := by
      intro w path isMarked known
      have inFront := seenInFront w (isBelow path) isMarked known
      rcases apart front v todo rfl with inFront' | apart
      · exact fresh (frontSeen v inFront')
      · exact apart w path isMarked inFront
    have unseenNext : ∀ w, Below next (next v) w → marked w → w ∉ v :: seen := by
      intro w below isMarked
      rintro (_ | ⟨_, known⟩)
      · exact acyclic v (isBelow .refl) below.of_next
      · exact unseen w below.of_next.to_reflTransGen isMarked known
    have sortedBelow : Sorted next marked below := by
      apply ihInside []
      · exact under v (isBelow .refl)
      · intro w below
        exact under w (isBelow below.of_next.to_reflTransGen)
      · exact acyclic.mono fun w below => isBelow below.of_next.to_reflTransGen
      · intro w below isMarked known
        exact absurd known (unseenNext w below isMarked)
      · exact fun w none => absurd none (not_below_nil w)
    have sortedSelf : Sorted next marked (below ++ [v]) := by
      apply sortedBelow.append
      intro pre u post isSelf w edge isMarked
      have isFirst : u = v := by
        have member : u ∈ [v] := isSelf ▸ List.mem_append_right pre List.mem_cons_self
        exact List.mem_singleton.1 member
      rw [isFirst] at edge
      rcases (inside.mem_seen w).1 (inside.todo_subset w edge) with known | entered
      · exact absurd known (unseenNext w ⟨w, edge, .refl⟩ isMarked)
      · exact List.mem_append_left _ entered
    suffices sortedRest : Sorted next marked out by
      apply sortedRest.append
      intro pre u post isList w edge isMarked
      exact List.mem_append_right _ (sortedSelf pre u post isList w edge isMarked)
    apply ihRest (front ++ [v])
    · rwa [List.append_assoc]
    · exact fun w below => under w (below_cons.2 (.inr below))
    · exact acyclic.mono fun w below => below_cons.2 (.inr below)
    · intro w below isMarked known
      rw [below_append]
      rcases (inside.mem_seen w).1 known with known | entered
      · rcases List.mem_cons.1 known with rfl | known
        · exact .inr ⟨w, by simp, .refl⟩
        · exact .inl (seenInFront w (below_cons.2 (.inr below)) isMarked known)
      · exact .inr ⟨v, by simp, (inside.reached entered).of_next.to_reflTransGen⟩
    · intro w below
      rcases below_append.1 below with inFront | ⟨t, isSelf, path⟩
      · exact inside.seen_mono (List.mem_cons_of_mem v (frontSeen w inFront))
      · cases List.mem_singleton.1 isSelf
        by_cases same : w = v
        · rw [same]
          exact inside.seen_mono List.mem_cons_self
        · apply inside.mem_of_below _ (below_next_of_ne path same)
          intro u known below w edge
          exact absurd known (unseenNext u below (source u w edge))

/-- A visit from scratch of a graph without cycles is sorted exactly if the list and the
successors of all vertices under it are apart. -/
theorem Visit.sorted_iff (source : ∀ v w, Edge next v w → marked v)
    (visit : Visit next todo [] out seen') (acyclic : AcyclicBelow next todo) :
    Sorted next marked out ↔
      Apart next marked todo ∧ ∀ v, Below next todo v → Apart next marked (next v) := by
  constructor
  · intro sorted
    constructor
    · exact visit.apart_of_sorted source sorted fun w _ _ => List.not_mem_nil
    · intro v below
      obtain ⟨seenV, belowV, seen₁, fresh, inside, sortedV⟩ :=
        visit.inside_of_sorted sorted ((visit.mem_iff_below v).2 below)
      apply inside.apart_of_sorted source sortedV.left
      intro w belowNext isMarked
      have path := belowNext.of_next
      rintro (_ | ⟨_, known⟩)
      · exact acyclic v below path
      · exact inside.fresh_inside fresh
          (sortedV.mem_of_path source path.to_reflTransGen isMarked) known
  · rintro ⟨apart, under⟩
    apply visit.sorted_of_apart source [] apart under acyclic
    · exact fun w _ _ known => absurd known List.not_mem_nil
    · exact fun w none => absurd none (not_below_nil w)

end Order

/-! ## Visits by recursion -/

section Search

variable [DecidableEq α]

/-- Visit the vertices of a list, with `enter` for those that were not seen. -/
def searchAll (enter : α → List α → Option (List α × List α)) :
    List α → List α → Option (List α × List α)
  | [], seen => some ([], seen)
  | v :: todo, seen =>
      if v ∈ seen then searchAll enter todo seen
      else
        (enter v (v :: seen)).bind fun inside =>
          (searchAll enter todo inside.2).map fun rest =>
            (rest.1 ++ (inside.1 ++ [v]), rest.2)

/-- Visit a list, at most that many vertices deep. -/
def search (next : α → List α) : Nat → List α → List α → Option (List α × List α)
  | 0 => fun _ _ => none
  | n + 1 => searchAll fun v seen => search next n (next v) seen

variable {next : α → List α}

theorem visit_of_search {n : Nat} {todo seen out seen' : List α}
    (found : search next n todo seen = some (out, seen')) : Visit next todo seen out seen' := by
  induction n generalizing todo seen out seen' with
  | zero => cases found
  | succ n ihDeep =>
    induction todo generalizing seen out with
    | nil =>
      cases found
      exact .nil _
    | cons v todo ih =>
      rw [search, searchAll] at found
      split at found
      · next known => exact .skip known (ih found)
      · next fresh =>
        obtain ⟨⟨below, seen₁⟩, inside, found⟩ := Option.bind_eq_some_iff.1 found
        obtain ⟨⟨out', seen''⟩, rest, result⟩ := Option.map_eq_some_iff.1 found
        cases result
        exact .enter fresh (ihDeep inside) (ih rest)

theorem exists_search {vertices : List α} (finite : ∀ v ∈ vertices, next v ⊆ vertices) {n : Nat}
    {todo seen : List α} (known : todo ⊆ vertices)
    (enough : (vertices.toFinset \ seen.toFinset).card < n) :
    ∃ out seen', search next n todo seen = some (out, seen') := by
  induction n generalizing todo seen with
  | zero => cases enough
  | succ n ihDeep =>
    induction todo generalizing seen with
    | nil => exact ⟨[], seen, rfl⟩
    | cons v todo ih =>
      have member : v ∈ vertices := known List.mem_cons_self
      have knownRest : todo ⊆ vertices := List.Subset.trans (List.subset_cons_self v todo) known
      by_cases isSeen : v ∈ seen
      · obtain ⟨out, seen', found⟩ := ih knownRest enough
        refine ⟨out, seen', ?_⟩
        rw [search, searchAll, if_pos isSeen]
        exact found
      · have fewer : (vertices.toFinset \ (v :: seen).toFinset).card < n := by
          apply Nat.lt_of_lt_of_le _ (Nat.le_of_lt_succ enough)
          apply Finset.card_lt_card
          rw [Finset.ssubset_iff_of_subset]
          · exact ⟨v, by simp [member, isSeen], by simp⟩
          · apply Finset.sdiff_subset_sdiff (Finset.Subset.refl _)
            simp [List.toFinset_cons]
        obtain ⟨below, seen₁, inside⟩ := ihDeep (finite v member) fewer
        have later : (vertices.toFinset \ seen₁.toFinset).card < n + 1 := by
          apply Nat.lt_of_le_of_lt _ enough
          apply Finset.card_le_card
          apply Finset.sdiff_subset_sdiff (Finset.Subset.refl _)
          intro w isSeen
          rw [List.mem_toFinset] at isSeen ⊢
          exact (visit_of_search inside).seen_mono (List.mem_cons_of_mem v isSeen)
        obtain ⟨out, seen', found⟩ := ih knownRest later
        refine ⟨out ++ (below ++ [v]), seen', ?_⟩
        rw [search] at found
        rw [search, searchAll, if_neg isSeen, inside, Option.bind_some, found]
        rfl

end Search

end Dux.Logic
