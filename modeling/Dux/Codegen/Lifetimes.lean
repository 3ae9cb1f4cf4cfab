import Dux.Codegen.Owners
import Mathlib.Algebra.BigOperators.Group.List.Basic
import Mathlib.Tactic.Abel

/-!
# Lifetimes of class instances

A run that nothing worth remembering happens in keeps every instance with one
owner.  So no destructor runs twice, and none runs for an instance that is
returned or stored.
-/

namespace Dux.Codegen

open Dux.Logic (Outcome Run)

/-- A later state of the same call: as long as nothing worth remembering has
happened, every instance has one owner, and an instance is freed for every one
that was and one at most for every destruction begun since. -/
structure Continues (s s' : Owners) : Prop where
  below : s'.below = s.below
  quiet : s'.events = [] → s.events = []
  frees : (s'.freed : Multiset Nat) + s.begun ≤ s'.begun + s.freed
  placed : s'.events = [] → s.Placed → s'.Placed

/-- What the run of a function does to its caller. -/
structure Returns (s s' : Owners) : Prop where
  continues : Continues s s'
  vars : s'.top.vars = s.top.vars

section Places

variable {s s' s'' : Owners} {i : Nat} {x : Slot}

namespace Continues

theorem refl (s : Owners) : Continues s s where
  below := rfl
  quiet := id
  frees := le_of_eq (add_comm _ _)
  placed _ := id

theorem trans (first : Continues s s') (second : Continues s' s'') : Continues s s'' where
  below := second.below.trans first.below
  quiet := first.quiet ∘ second.quiet
  frees := by
    apply le_of_add_le_add_right (a := (s'.freed + s'.begun : Multiset Nat))
    calc
      (s''.freed + s.begun + (s'.freed + s'.begun) : Multiset Nat) =
          (s''.freed + s'.begun) + (s'.freed + s.begun) := by abel
      _ ≤ (s''.begun + s'.freed) + (s'.begun + s.freed) :=
        add_le_add second.frees first.frees
      _ = s''.begun + s.freed + (s'.freed + s'.begun) := by abel
  placed quiet placed := second.placed quiet (first.placed (second.quiet quiet) placed)

theorem note (later : Continues s s') (es : List Event) : Continues s (s'.note es) where
  below := later.below
  quiet quiet := later.quiet (List.append_eq_nil_iff.mp quiet).2
  frees := later.frees
  placed quiet placed :=
    have before := later.placed (List.append_eq_nil_iff.mp quiet).2 placed
    ⟨before.nodup, before.bounded⟩

end Continues

theorem Owners.Placed.of_le (placed : s.Placed) (next : s'.next = s.next)
    (le : s'.places ≤ s.places) : s'.Placed where
  nodup := Multiset.nodup_of_le le placed.nodup
  bounded i mem := next ▸ placed.bounded i (Multiset.mem_of_le le mem)

theorem Continues.of_le (below : s'.below = s.below) (events : s'.events = s.events)
    (freed : s'.freed = s.freed) (begun : s'.begun = s.begun) (next : s'.next = s.next)
    (le : s'.places ≤ s.places) : Continues s s' where
  below := below
  quiet quiet := events ▸ quiet
  frees := by rw [freed, begun, add_comm]
  placed _ placed := placed.of_le next le

/-! ## What is owned where -/

theorem varsHeld_filter_le (vars : List (Slot × Content)) (keep : Slot × Content → Bool) :
    varsHeld (vars.filter keep) ≤ varsHeld vars := by
  induction vars with
  | nil => exact le_rfl
  | cons v rest ih =>
    rw [List.filter_cons]
    by_cases kept : keep v
    · rw [if_pos kept]
      exact add_le_add_right ih _
    · rw [if_neg kept]
      exact ih.trans (Multiset.le_add_left _ _)

theorem varsHeld_forget_le {vars : List (Slot × Content)} {v : Content}
    (found : vars.lookup x = some v) :
    v.held + varsHeld (vars.filter (·.1 ≠ x)) ≤ varsHeld vars := by
  induction vars with
  | nil => simp at found
  | cons w rest ih =>
    rw [List.lookup_cons] at found
    by_cases same : x = w.1
    · subst same
      simp only [BEq.rfl, Option.some.injEq] at found
      subst found
      rw [List.filter_cons_of_neg (by simp)]
      exact add_le_add_right (varsHeld_filter_le _ _) _
    · have other : (x == w.1) = false := beq_eq_false_iff_ne.mpr same
      rw [other] at found
      rw [List.filter_cons_of_pos (by simpa using Ne.symm same)]
      calc
        v.held + (w.2.held + varsHeld (rest.filter (·.1 ≠ x))) =
            w.2.held + (v.held + varsHeld (rest.filter (·.1 ≠ x))) := add_left_comm _ _ _
        _ ≤ w.2.held + varsHeld rest := add_le_add_right (ih found) _

theorem storedHeld_perm {l l' : List (Nat × Ownership)} (same : l.Perm l') :
    storedHeld l = storedHeld l' := List.Perm.sum_eq (same.map _)

theorem storedHeld_eraseIdx {stored : List (Nat × Ownership)} {k : Nat} {v : Nat × Ownership}
    (found : stored[k]? = some v) :
    storedHeld stored = v.2.held v.1 + storedHeld (stored.eraseIdx k) := by
  rcases List.getElem?_eq_some_iff.mp found with ⟨inside, rfl⟩
  exact (storedHeld_perm (List.getElem_cons_eraseIdx_perm inside)).symm

theorem storedHeld_set {stored : List (Nat × Ownership)} {k : Nat} {v : Nat × Ownership}
    (found : stored[k]? = some v) (i : Nat) :
    v.2.held v.1 + storedHeld (stored.set k (i, .begun)) = storedHeld stored := by
  have inside := (List.getElem?_eq_some_iff.mp found).1
  have begun : storedHeld (stored.set k (i, .begun)) = 0 + storedHeld (stored.eraseIdx k) :=
    storedHeld_perm (List.set_perm_cons_eraseIdx inside _)
  rw [begun, zero_add, storedHeld_eraseIdx found]

theorem storedHeld_erase_le (stored : List (Nat × Ownership)) (v : Nat × Ownership) :
    storedHeld (stored.erase v) ≤ storedHeld stored := by
  by_cases mem : v ∈ stored
  · rw [storedHeld_perm (List.perm_cons_erase mem)]
    exact Multiset.le_add_left _ _
  · rw [List.erase_of_not_mem mem]

/-- What a call below or a field owns, besides the call on top. -/
def Owners.rest (s : Owners) : Multiset Nat :=
  (s.below.map Activation.held).sum + (storedHeld s.stored + s.begun)

theorem places_eq (s : Owners) :
    s.places = varsHeld s.top.vars + (valueHeld s.top.value + resultHeld s.top.result) + s.rest :=
  rfl

theorem places_withValue_none_le (s : Owners) : (s.withValue none).places ≤ s.places := by
  unfold Owners.places Owners.withValue Activation.held
  gcongr
  exact Multiset.zero_le _

theorem places_forget_le {c : Content} (found : s.top.vars.lookup x = some c) (v : Content) :
    c.held + (s.setVar x v).places ≤ v.held + (s.withValue none).places := by
  have moved := varsHeld_forget_le found
  calc
    c.held + (s.setVar x v).places =
        v.held + ((c.held + varsHeld (s.top.vars.filter (·.1 ≠ x))) +
          (valueHeld none + resultHeld s.top.result) + s.rest) := by
      simp only [Owners.places, Owners.setVar, Activation.held, varsHeld, List.map_cons,
        List.sum_cons, Owners.rest]
      abel
    _ ≤ v.held + (varsHeld s.top.vars + (valueHeld none + resultHeld s.top.result) + s.rest) := by
      gcongr

theorem places_setVar_le (x : Slot) (v : Content) :
    (s.setVar x v).places ≤ v.held + (s.withValue none).places := by
  have kept := varsHeld_filter_le s.top.vars (·.1 ≠ x)
  calc
    (s.setVar x v).places = v.held + (varsHeld (s.top.vars.filter (·.1 ≠ x)) +
        (valueHeld none + resultHeld s.top.result) + s.rest) := by
      simp only [Owners.places, Owners.setVar, Activation.held, varsHeld, List.map_cons,
        List.sum_cons, Owners.rest]
      abel
    _ ≤ v.held + (varsHeld s.top.vars + (valueHeld none + resultHeld s.top.result) + s.rest) := by
      gcongr

theorem places_fresh (fresh : s.top.value = some (i, none)) :
    s.places = {i} + (s.withValue none).places := by
  simp only [Owners.places, Owners.withValue, Activation.held, fresh, valueHeld]
  abel

theorem places_begin (s : Owners) (i : Nat) : (s.begin i).places = {i} + s.places := by
  simp only [Owners.places, Owners.begin, ← Multiset.cons_coe, ← Multiset.singleton_add]
  abel

theorem places_withStored_le {stored : List (Nat × Ownership)} {v w : Multiset Nat}
    (le : v + storedHeld stored ≤ w + storedHeld s.stored) :
    v + (s.withStored stored).places ≤ w + s.places := by
  calc
    v + (s.withStored stored).places =
        s.top.held + ((s.below.map Activation.held).sum +
          ((v + storedHeld stored) + s.begun)) := by
      unfold Owners.places Owners.withStored
      abel
    _ ≤ s.top.held + ((s.below.map Activation.held).sum +
          ((w + storedHeld s.stored) + s.begun)) := by
      gcongr
    _ = w + s.places := by
      unfold Owners.places
      abel

theorem places_withResult_le (v : Option Nat) :
    (s.withResult v).places ≤ resultHeld v + s.places := by
  calc
    (s.withResult v).places =
        resultHeld v + (varsHeld s.top.vars + (valueHeld s.top.value + 0) + s.rest) := by
      rw [places_eq]
      simp only [Owners.withResult, Owners.rest]
      abel
    _ ≤ resultHeld v +
          (varsHeld s.top.vars + (valueHeld s.top.value + resultHeld s.top.result) + s.rest) := by
      gcongr
      exact Multiset.zero_le _

theorem owned_of_events {o : Ownership} (none : o.events i = []) : o = .owned := by
  cases o <;> simp_all [Ownership.events]

/-! ## Steps -/

theorem continues_withValue_none (s : Owners) : Continues s (s.withValue none) :=
  .of_le rfl rfl rfl rfl rfl (places_withValue_none_le s)

theorem continues_new (s : Owners) :
    Continues s ({ s with next := s.next + 1 }.withValue (some (s.next, none))) where
  below := rfl
  quiet := id
  frees := (Continues.refl s).frees
  placed := by
    intro _ placed
    have parts : ({ s with next := s.next + 1 }.withValue (some (s.next, none))).places =
        {s.next} + (s.withValue none).places := places_fresh rfl
    have before : (s.withValue none).Placed := placed.of_le rfl (places_withValue_none_le s)
    constructor
    · rw [parts, Multiset.singleton_add, Multiset.nodup_cons]
      constructor
      · intro mem
        exact absurd (before.bounded _ mem) (Nat.lt_irrefl _)
      · exact before.nodup
    · intro i mem
      rw [parts, Multiset.mem_add, Multiset.mem_singleton] at mem
      rcases mem with rfl | old
      · exact Nat.lt_succ_self _
      · exact (before.bounded i old).trans (Nat.lt_succ_self _)

theorem continues_stands (s : Owners) (x : Slot) (i : Nat) :
    Continues s (s.withValue (some (i, some x))) :=
  .of_le rfl rfl rfl rfl rfl (places_withValue_none_le s)

/-- What `Owners.take` leaves behind. -/
structure TakenOver (s : Owners) (r : Option Nat × Owners) : Prop where
  continues : Continues s r.2
  places : r.2.events = [] → resultHeld r.1 + r.2.places ≤ s.places

theorem takenOver_take (s : Owners) : TakenOver s s.take := by
  unfold Owners.take
  split
  · exact ⟨.refl s, fun _ => le_of_eq (zero_add _)⟩
  · next i fresh =>
      constructor
      · exact continues_withValue_none s
      · intro _
        exact le_of_eq (places_fresh fresh).symm
  · next i x stands =>
      split
      · next found =>
          have places : {i} + (s.setVar x (.holds i .moved)).places ≤ s.places := by
            apply (places_forget_le found (.holds i .moved)).trans
            rw [Content.held, Ownership.held, zero_add]
            exact places_withValue_none_le s
          constructor
          · exact .of_le rfl rfl rfl rfl rfl ((Multiset.le_add_left _ _).trans places)
          · exact fun _ => places
      · constructor
        · exact (continues_withValue_none s).note _
        · simp [Owners.note]

theorem TakenOver.goes {r : Option Nat × Owners} (taken : TakenOver s r)
    (below : s'.below = r.2.below) (events : s'.events = r.2.events)
    (freed : s'.freed = r.2.freed) (begun : s'.begun = r.2.begun) (next : r.2.next = s.next)
    (next' : s'.next = r.2.next) (le : s'.places ≤ resultHeld r.1 + r.2.places) :
    Continues s s' where
  below := below.trans taken.continues.below
  quiet quiet := taken.continues.quiet (events ▸ quiet)
  frees := by
    rw [freed, begun]
    exact taken.continues.frees
  placed quiet placed :=
    placed.of_le (next'.trans next) (le.trans (taken.places (events ▸ quiet)))

theorem next_take (s : Owners) : s.take.2.next = s.next := by
  unfold Owners.take
  split
  · rfl
  · rfl
  · split <;> rfl

theorem frees_begin (s : Owners) (i : Nat) :
    (s.freed : Multiset Nat) + s.begun ≤ ((s.begin i).begun : Multiset Nat) + s.freed := by
  rw [add_comm, Owners.begin, ← Multiset.cons_coe]
  exact add_le_add_left (Multiset.le_cons_self _ _) _

theorem Continues.begins (o : Ownership) (below : s'.below = s.below)
    (events : s'.events = o.events i ++ s.events) (freed : s'.freed = s.freed)
    (begun : s'.begun = i :: s.begun) (next : s'.next = s.next)
    (le : o = .owned → s'.places ≤ s.places) : Continues s s' where
  below := below
  quiet quiet := by
    rw [events, List.append_eq_nil_iff] at quiet
    exact quiet.2
  frees := by
    rw [freed, begun]
    exact frees_begin s i
  placed quiet placed := by
    rw [events, List.append_eq_nil_iff] at quiet
    exact placed.of_le next (le (owned_of_events quiet.1))

theorem Continues.frees_once {started : Owners} (before : Continues s started)
    (begun : started.begun = i :: s.begun) (freed : started.freed = s.freed)
    (inside : Continues started s') (after : Continues s' s'') (begun' : s''.begun = s'.begun)
    (freed' : s''.freed = s'.freed) : Continues s (s''.free i) where
  below := ((before.trans inside).trans after).below
  quiet := ((before.trans inside).trans after).quiet
  frees := by
    have frees := inside.frees
    rw [begun, freed, ← Multiset.cons_coe] at frees
    show ((i :: s''.freed : List Nat) : Multiset Nat) + s.begun ≤ s''.begun + s.freed
    rw [begun', freed', ← Multiset.cons_coe, Multiset.cons_add, ← Multiset.add_cons]
    exact frees
  placed quiet placed :=
    have last := ((before.trans inside).trans after).placed quiet placed
    ⟨last.nodup, last.bounded⟩

section Acts

variable {invoke : String → Owners → Answer × Owners}
variable (returns : ∀ symbol s, Returns s (invoke symbol s).2)

include returns in
theorem returns_callDtor (cls : Option String) (s : Owners) :
    Returns s (callDtor invoke cls s).2 := by
  cases cls with
  | none => exact ⟨.refl s, rfl⟩
  | some cls => exact returns _ s

include returns in
theorem continues_destroyVar (x : Slot) (cls : Option String) (s : Owners) :
    Continues s (destroyVar invoke x cls s).2 := by
  unfold destroyVar
  split
  · exact (Continues.refl s).note _
  · exact .refl s
  · next i o found =>
      have before : Continues s
          (((s.note (o.events i)).setVar x (.holds i .begun)).begin i) := by
        apply Continues.begins o
        · rfl
        · rfl
        · rfl
        · rfl
        · rfl
        · rintro rfl
          rw [places_begin]
          apply (places_forget_le found (.holds i .begun)).trans
          rw [Content.held, Ownership.held, zero_add]
          exact places_withValue_none_le s
      have called := returns_callDtor returns cls
        (((s.note (o.events i)).setVar x (.holds i .begun)).begin i)
      split
      · next s' run =>
          rw [run] at called
          have after : Continues s' (s'.setVar x .null) := by
            apply Continues.of_le
            · rfl
            · rfl
            · rfl
            · rfl
            · rfl
            · apply (places_setVar_le x .null).trans
              rw [Content.held, zero_add]
              exact places_withValue_none_le s'
          exact before.frees_once rfl rfl called.continues after rfl rfl
      · exact before.trans called.continues

include returns in
theorem continues_destroyStored (k : Nat) (cls : Option String) (s : Owners) :
    Continues s (destroyStored invoke k cls s).2 := by
  unfold destroyStored
  split
  · exact .refl s
  · next i o found =>
      have before : Continues s ((((s.withValue none).note (o.events i)).withStored
          (s.stored.set k (i, .begun))).begin i) := by
        apply Continues.begins o
        · rfl
        · rfl
        · rfl
        · rfl
        · rfl
        · rintro rfl
          rw [places_begin]
          have moved := storedHeld_set found i
          calc
            {i} + (((s.withValue none).note []).withStored (s.stored.set k (i, .begun))).places ≤
                0 + (s.withValue none).places :=
              places_withStored_le (le_of_eq (by rw [zero_add]; exact moved))
            _ = (s.withValue none).places := zero_add _
            _ ≤ s.places := places_withValue_none_le s
      have called := returns_callDtor returns cls
        ((((s.withValue none).note (o.events i)).withStored (s.stored.set k (i, .begun))).begin i)
      simp only
      split
      · next s' run =>
          rw [run] at called
          have after : Continues s' (s'.withStored (s'.stored.erase (i, .begun))) := by
            apply Continues.of_le
            · rfl
            · rfl
            · rfl
            · rfl
            · rfl
            · have fewer := storedHeld_erase_le s'.stored (i, .begun)
              simpa using places_withStored_le (s := s') (v := 0) (w := 0) (by simpa using fewer)
          exact before.frees_once rfl rfl called.continues after rfl rfl
      · exact before.trans called.continues

include returns in
theorem Act.continues_run (act : Act) (s : Owners) : Continues s (act.run invoke s).2 := by
  cases act with
  | new => exact continues_new s
  | read x =>
      simp only [Act.run]
      split
      · next i _ _ => exact continues_stands s x i
      · exact continues_withValue_none s
      · exact continues_withValue_none s
  | other => exact continues_withValue_none s
  | store =>
      apply (takenOver_take s).goes
      · rfl
      · rfl
      · rfl
      · rfl
      · exact next_take s
      · rfl
      · have stored : storedHeld (s.take.1.toList.map (·, Ownership.owned) ++ s.take.2.stored) =
            resultHeld s.take.1 + storedHeld s.take.2.stored := by
          cases s.take.1 with
          | none => simp [resultHeld]
          | some i => simp [storedHeld, resultHeld, Ownership.held]
        have moved := places_withStored_le (s := s.take.2) (v := 0) (w := resultHeld s.take.1)
          (by rw [zero_add, stored])
        rw [zero_add] at moved
        exact moved
  | unstore k =>
      simp only [Act.run]
      split
      · exact .refl s
      · next i o found =>
          constructor
          · rfl
          · exact ((Continues.refl s).note (o.events i)).quiet
          · exact (Continues.refl s).frees
          · intro quiet placed
            have owned := owned_of_events (List.append_eq_nil_iff.mp quiet).1
            subst owned
            apply placed.of_le
            · rfl
            · rw [places_fresh (i := i) rfl]
              have moved := places_withStored_le (s := s.withValue none) (v := {i}) (w := 0)
                (le_of_eq (by rw [zero_add]; exact (storedHeld_eraseIdx found).symm))
              rw [zero_add] at moved
              exact moved.trans (places_withValue_none_le s)
  | assign x =>
      simp only [Act.run]
      split
      · apply Continues.of_le
        · rfl
        · rfl
        · rfl
        · rfl
        · rfl
        · apply (places_setVar_le x .null).trans
          rw [Content.held, zero_add]
          exact places_withValue_none_le s
      · next i fresh =>
          apply Continues.of_le
          · rfl
          · rfl
          · rfl
          · rfl
          · rfl
          · rw [places_fresh fresh]
            exact places_setVar_le x (.holds i .owned)
      · next i y stands =>
          constructor
          · rfl
          · exact ((Continues.refl s).note [.shared i]).quiet
          · exact (Continues.refl s).frees
          · simp [Owners.note]
  | call symbol => exact (continues_withValue_none s).trans (returns symbol _).continues
  | deleteVar x cls => exact continues_destroyVar returns x cls s
  | deleteStored k cls => exact continues_destroyStored returns k cls s
  | deleteValue =>
      simp only [Act.run]
      split
      · next i fresh =>
          have begins : Continues s ((s.withValue none).begin i) := by
            apply Continues.begins .owned
            · rfl
            · rfl
            · rfl
            · rfl
            · rfl
            · intro _
              rw [places_begin, places_fresh fresh]
          exact begins.frees_once rfl rfl (.refl _) (.refl _) rfl rfl
      · next i x stands =>
          have begins : Continues s (((s.withValue none).note [.shared i]).begin i) := by
            constructor
            · rfl
            · exact ((Continues.refl s).note [.shared i]).quiet
            · exact frees_begin s i
            · simp [Owners.note, Owners.begin]
          exact begins.frees_once rfl rfl (.refl _) (.refl _) rfl rfl
      · exact .refl s
  | stop answer => exact .refl s

include returns in
theorem continues_runActs (acts : List Act) (s : Owners) :
    Continues s (runActs invoke s acts).2 := by
  induction acts generalizing s with
  | nil => exact .refl s
  | cons act acts ih =>
    have first := Act.continues_run returns act s
    unfold runActs
    split
    · next s' run =>
        rw [run] at first
        exact first.trans (ih s')
    · exact first

include returns in
theorem continues_runScript (fields : Bool) (s : Owners) :
    Continues s (runScript invoke fields s).2 := by
  unfold runScript
  split
  · exact .refl s
  · next script rest _ =>
      have told : Continues s { s with scripts := rest } := .of_le rfl rfl rfl rfl rfl le_rfl
      exact told.trans (continues_runActs returns _ _)

include returns in
theorem continues_ownersOp (o : Op) (s : Owners) : Continues s (ownersOp invoke o s).2 := by
  cases o with
  | eval e => exact continues_runScript returns false s
  | delete e => exact continues_runScript returns false s
  | declare x => exact Act.continues_run returns (.assign x) s
  | retainResult =>
      apply (takenOver_take s).goes
      · rfl
      · rfl
      · rfl
      · rfl
      · exact next_take s
      · rfl
      · exact places_withResult_le _
  | cleanup c =>
      cases c with
      | dtor x cls => exact continues_destroyVar returns x (some cls) s
      | release | deferBody | call => exact .refl s
  | releaseStr | loopInit | loopElement | loopStep | bindPayload | bindCatch | beginCatch =>
      exact .refl s

theorem continues_ownersChoice (c : Choice) (s : Owners) : Continues s (ownersChoice c s).2 :=
  .of_le rfl rfl rfl rfl rfl le_rfl

include returns in
theorem continues_run (globals : List Item) (N : Nat) (code : FunctionCode) (s : Owners) :
    Continues s (code.run (ownersWorld invoke) (runScript invoke true) globals N s).2 := by
  apply FunctionCode.run_keeps (I := Continues s)
  · exact fun o w before => before.trans (continues_ownersOp returns o w)
  · exact fun c w before => before.trans (continues_ownersChoice c w)
  · exact fun w before => before.trans (continues_runScript returns true w)
  · exact .refl s

end Acts

/-! ## Calls -/

theorem places_enter (s : Owners) : s.enter.places = (s.withValue none).places := by
  simp only [Owners.places, Owners.enter, Owners.withValue, List.map_cons, List.sum_cons]
  show 0 + (0 + 0) + _ = _
  abel

theorem continues_enter_leave {t : Owners} (run : Continues s.enter t)
    {v : Option (Nat × Option Slot)} (owned : valueHeld v ≤ resultHeld t.top.result) :
    Returns s (t.leave.withValue v) := by
  have back : t.leave.withValue v =
      { t with top := { s.top with value := v }, below := s.below } := by
    simp only [Owners.leave, run.below, Owners.enter, Owners.withValue]
  have le : (t.leave.withValue v).places ≤ t.places := by
    calc
      (t.leave.withValue v).places = varsHeld s.top.vars + (valueHeld v + resultHeld s.top.result) +
          ((s.below.map Activation.held).sum + (storedHeld t.stored + t.begun)) := by
        rw [back, places_eq]
        rfl
      _ ≤ varsHeld s.top.vars + (resultHeld t.top.result + resultHeld s.top.result) +
          ((s.below.map Activation.held).sum + (storedHeld t.stored + t.begun)) := by
        gcongr
      _ ≤ varsHeld t.top.vars + valueHeld t.top.value +
          (varsHeld s.top.vars + (resultHeld t.top.result + resultHeld s.top.result) +
            ((s.below.map Activation.held).sum + (storedHeld t.stored + t.begun))) :=
        Multiset.le_add_left _ _
      _ = t.places := by
        rw [places_eq, Owners.rest, run.below]
        simp only [Owners.enter, List.map_cons, List.sum_cons, Activation.held, valueHeld]
        abel
  constructor
  · constructor
    · rw [back]
    · rw [back]
      exact run.quiet
    · rw [back]
      exact run.frees
    · intro quiet placed
      rw [back] at quiet
      have entered : s.enter.Placed :=
        placed.of_le rfl ((le_of_eq (places_enter s)).trans (places_withValue_none_le s))
      exact (run.placed quiet entered).of_le (by rw [back]) le
  · rw [back]

theorem returns_returned {r : Outcome × Owners} (run : Continues s.enter r.2) :
    Returns s (Module.returned r).2 := by
  have raised : Returns s r.2.leave := by
    have back : r.2.leave = r.2.leave.withValue none := by
      simp only [Owners.leave, run.below, Owners.enter, Owners.withValue]
    rw [back]
    exact continues_enter_leave run (Multiset.zero_le _)
  have result : Returns s (r.2.leave.withValue (r.2.top.result.map fun i => (i, none))) := by
    apply continues_enter_leave run
    cases r.2.top.result with
    | none => exact le_rfl
    | some i => exact le_rfl
  unfold Module.returned
  cases r.1 with
  | normal | ret | br => exact result
  | raise | escape | abort | timeout => exact raised

theorem returns_runFunction (m : Module) (nest : Nat) (globals : List Item) (N : Nat) :
    ∀ depth symbol s, Returns s (m.runFunction nest globals N depth symbol s).2 := by
  intro depth
  induction depth with
  | zero => exact fun _ s => ⟨.refl s, rfl⟩
  | succ depth ih =>
      intro symbol s
      unfold Module.runFunction
      split
      · exact ⟨.refl s, rfl⟩
      · next code _ => exact returns_returned (continues_run ih globals N code s.enter)

theorem begun_le_places (s : Owners) : (s.begun : Multiset Nat) ≤ s.places := by
  unfold Owners.places
  rw [← add_assoc, ← add_assoc]
  exact Multiset.le_add_left _ _

theorem Owners.Single.destroyedOnce (single : s.Single) : s.DestroyedOnce := by
  have apart : ∀ {i} {owned : Multiset Nat}, i ∈ owned → owned + s.begun ≤ s.places →
      i ∉ s.begun ∧ i ∉ s.freed := by
    intro i owned mem le
    have disjoint := (Multiset.nodup_add.mp (Multiset.nodup_of_le le single.nodup)).2.2
    have notBegun : i ∉ s.begun := fun begun => Multiset.disjoint_left.mp disjoint mem begun
    exact ⟨notBegun, fun freed => notBegun (Multiset.mem_of_le single.freed freed)⟩
  have begun := Multiset.nodup_of_le (begun_le_places s) single.nodup
  constructor
  · exact Multiset.coe_nodup.mp begun
  · exact Multiset.coe_nodup.mp (Multiset.nodup_of_le single.freed begun)
  · intro i fresh
    apply apart (Multiset.mem_singleton_self i)
    rw [places_fresh fresh]
    exact add_le_add_right (begun_le_places (s.withValue none)) _
  · intro i isStored
    have mem : i ∈ storedHeld s.stored := by
      rw [storedHeld_perm (List.perm_cons_erase isStored)]
      exact Multiset.mem_add.mpr (.inl (Multiset.mem_singleton_self i))
    apply apart mem
    unfold Owners.places
    rw [← add_assoc]
    exact Multiset.le_add_left _ _

end Places

/-- A function that makes a tool and returns `result`. -/
def workshop (result : Expr) : Program where
  decls :=
    [.cls { name := "Tool", members := [destructor "Tool" [.expr (.this (-1))]] },
     .func
      { loc := ⟨3, 1⟩, returnType := { name := "Tool" }, name := "make", params := []
        body := some
          [.varDecl ⟨4, 1⟩ { name := "Tool" } false false
            [.mk "tool" (some (.new (-1) { name := "Tool" } []))],
           .returnStmt (some result)] }]
  stmts := []

def told (scripts : List (List Act)) : Owners := { scripts := scripts }

theorem single_told (scripts : List (List Act)) : (told scripts).Single where
  nodup := Multiset.nodup_zero
  bounded _ mem := absurd mem (Multiset.notMem_zero _)
  freed := le_rfl

end Dux.Codegen
