import Dux.Codegen.FStrings
import Mathlib.Tactic.Abel

/-!
# Strings stay as they are

Every step takes references from where they are and puts them somewhere else.
On the way they are in flight, and a step that nothing worth remembering happens
in leaves everything sound that is held or in flight.
-/

namespace Dux.Codegen.Str

open Dux.Logic (Outcome Run)

def Store.ids (s : Store) : List Nat := s.calls.map (·.id)

structure Moves (F : Multiset Holding) (s : Store) (F' : Multiset Holding) (s' : Store) : Prop where
  calls : s'.ids = s.ids
  quiet : s'.events = [] → s.events = []
  sound : s'.events = [] → s.Sound F → s'.Sound F'

abbrev Follows (s s' : Store) : Prop := Moves 0 s 0 s'

section Steps

variable {s s' s'' t : Store} {F F' F'' : Multiset Holding} {h : Holding} {d : Nat} {x : Slot}

theorem Moves.refl (F : Multiset Holding) (s : Store) : Moves F s F s := ⟨rfl, id, fun _ => id⟩

theorem Moves.trans (first : Moves F s F' s') (second : Moves F' s' F'' s'') :
    Moves F s F'' s'' where
  calls := second.calls.trans first.calls
  quiet := first.quiet ∘ second.quiet
  sound quiet sound := second.sound quiet (first.sound (second.quiet quiet) sound)

theorem quiet_noteIf {b : Bool} {e : Event} (quiet : (t.noteIf b e).events = []) :
    b = false ∧ t.noteIf b e = t := by
  unfold Store.noteIf at *
  cases b with
  | false => exact ⟨rfl, rfl⟩
  | true => simp [Store.note] at quiet

theorem ids_noteIf (b : Bool) (e : Event) : (t.noteIf b e).ids = t.ids := by
  cases b <;> rfl

theorem Moves.noteIf {b : Bool} {e : Event} (calls : t.ids = s.ids)
    (quiet : t.events = [] → s.events = [])
    (sound : b = false → t.events = [] → s.Sound F → t.Sound F') :
    Moves F s F' (t.noteIf b e) where
  calls := (ids_noteIf b e).trans calls
  quiet isQuiet := by
    have none := quiet_noteIf isQuiet
    exact quiet (none.2 ▸ isQuiet)
  sound isQuiet start := by
    have none := quiet_noteIf isQuiet
    rw [none.2] at isQuiet ⊢
    exact sound none.1 isQuiet start

theorem Moves.note (first : Moves F s F' t) (e : Event) : Moves F s F'' (t.note e) where
  calls := first.calls
  quiet := by simp [Store.note]
  sound := by simp [Store.note]

theorem Store.Sound.of_le (sound : s.Sound F)
    (le : F' + (s'.holdings : Multiset Holding) ≤ F + (s.holdings : Multiset Holding))
    (counts : s'.counts = s.counts) (texts : s'.texts = s.texts) (buffers : s'.buffers = s.buffers)
    (nextCall : s'.nextCall = s.nextCall) (envs : ∀ e ∈ s'.envs, s'.Holds e) : s'.Sound F' where
  counted := by
    rw [counts]
    exact (Multiset.filterMap_le_filterMap _ le).trans sound.counted
  reads h mem := by
    have before := sound.reads h (Multiset.mem_of_le le mem)
    unfold Store.read at before ⊢
    rw [counts, texts, buffers]
    exact before
  calls := by
    rw [buffers, nextCall]
    exact sound.calls
  envs := envs

theorem Moves.of_le (le : F' ≤ F) : Moves F s F' s where
  calls := rfl
  quiet := id
  sound _ sound := sound.of_le (add_le_add_left le _) rfl rfl rfl rfl sound.envs

/-! ## A call changes -/

theorem held_modify_le {g : Call → Call} {a b : Multiset Holding} :
    ∀ (calls : List Call) (d : Nat),
    (∀ c, calls[d]? = some c → a + (g c).holdings ≤ b + c.holdings) →
    (calls[d]? = none → a ≤ b) →
    a + ((calls.modify d g).flatMap Call.holdings : List Holding) ≤
      b + (calls.flatMap Call.holdings : List Holding) := by
  intro calls
  induction calls with
  | nil =>
      intro d _ missing
      cases d <;> simpa using missing
  | cons c cs ih =>
      intro d here missing
      cases d with
      | zero =>
          rw [List.modify_zero_cons, List.flatMap_cons, List.flatMap_cons, ← Multiset.coe_add,
            ← Multiset.coe_add, ← add_assoc, ← add_assoc]
          exact add_le_add_left (here c rfl) _
      | succ d =>
          have rest := ih d here missing
          rw [List.modify_succ_cons, List.flatMap_cons, List.flatMap_cons, ← Multiset.coe_add,
            ← Multiset.coe_add, add_left_comm, add_left_comm b]
          exact add_le_add_right rest _

theorem held_onCall_le {g : Call → Call} {a b : Multiset Holding}
    (here : ∀ c, s.calls[d]? = some c → a + (g c).holdings ≤ b + c.holdings)
    (missing : s.calls[d]? = none → a ≤ b) :
    a + ((s.onCall d g).holdings : Multiset Holding) ≤ b + (s.holdings : Multiset Holding) := by
  have calls := held_modify_le s.calls d here missing
  unfold Store.holdings
  rw [← Multiset.coe_add, ← Multiset.coe_add, ← add_assoc, ← add_assoc]
  exact add_le_add_left calls _

theorem map_modify_of {α : Type} (p : Call → α) {g : Call → Call} (same : ∀ c, p (g c) = p c)
    (calls : List Call) (d : Nat) : (calls.modify d g).map p = calls.map p := by
  induction calls generalizing d with
  | nil => cases d <;> rfl
  | cons c cs ih =>
    cases d with
    | zero => simp [same]
    | succ d => simp [ih]

theorem holds_onCall {g : Call → Call} {e : Nat × Slot} (ids : ∀ c, (g c).id = c.id)
    (vars : ∀ c, s.calls[d]? = some c → c.id = e.1 → (c.vars.lookup e.2).join.isSome →
      ((g c).vars.lookup e.2).join.isSome)
    (holds : s.Holds e) : (s.onCall d g).Holds e := by
  rcases holds with ⟨c, mem, isCall, held⟩
  rcases List.mem_iff_getElem?.mp mem with ⟨j, found⟩
  by_cases same : d = j
  · subst same
    refine ⟨g c, List.mem_iff_getElem?.mpr ⟨d, ?_⟩, (ids c).trans isCall, vars c found isCall held⟩
    simp [Store.onCall, found]
  · refine ⟨c, List.mem_iff_getElem?.mpr ⟨j, ?_⟩, isCall, held⟩
    simp [Store.onCall, same, found]

theorem Moves.onCall {g : Call → Call} (ids : ∀ c, (g c).id = c.id)
    (buffers : ∀ c, (g c).buffers = c.buffers)
    (vars : ∀ e ∈ s.envs, ∀ c, s.calls[d]? = some c → c.id = e.1 →
      (c.vars.lookup e.2).join.isSome → ((g c).vars.lookup e.2).join.isSome)
    (here : ∀ c, s.calls[d]? = some c → F' + (g c).holdings ≤ F + c.holdings)
    (missing : s.calls[d]? = none → F' ≤ F) : Moves F s F' (s.onCall d g) where
  calls := map_modify_of _ ids s.calls d
  quiet := id
  sound _ sound := by
    apply sound.of_le (held_onCall_le here missing) rfl rfl _ rfl
    · exact fun e mem => holds_onCall ids (vars e mem) (sound.envs e mem)
    · exact map_modify_of _ (fun c => by rw [ids, buffers]) s.calls d

/-! ## Operands -/

theorem Call.holdings_push (c : Call) (v : Operand) :
    (({ c with stack := v :: c.stack } : Call).holdings : Multiset Holding) =
      v.holding ::ₘ (c.holdings : Multiset Holding) := by
  simp only [Call.holdings, ← Multiset.coe_add, List.map_cons, List.cons_append,
    ← Multiset.cons_coe, ← Multiset.singleton_add]
  abel

theorem moves_push (h : Holding) (isCall : Bool) : Moves (h ::ₘ F) s F (s.push ⟨h, isCall⟩) := by
  apply Moves.onCall
  · exact fun c => rfl
  · exact fun c => rfl
  · exact fun _ _ _ _ _ held => held
  · intro c _
    rw [Call.holdings_push, Multiset.cons_add, Multiset.add_cons]
  · exact fun _ => Multiset.le_cons_self _ _

theorem moves_pop {v : Operand} (popped : s.pop = some (v, s')) :
    Moves F s (v.holding ::ₘ F) s' := by
  unfold Store.pop at popped
  split at popped
  · contradiction
  · next c cs isCalls =>
      split at popped
      · contradiction
      · next w ws isStack =>
          obtain ⟨rfl, rfl⟩ := Prod.mk.inj (Option.some.inj popped)
          have same : ({ s with calls := { c with stack := ws } :: cs } : Store) =
              s.onCall 0 fun c => { c with stack := c.stack.tail } := by
            simp [Store.onCall, isCalls, isStack]
          rw [same]
          apply Moves.onCall
          · exact fun c => rfl
          · exact fun c => rfl
          · exact fun _ _ _ _ _ held => held
          · intro c' found
            obtain rfl : c = c' := by simpa [isCalls] using found
            have before := Call.holdings_push { c with stack := ws } w
            rw [show ({ c with stack := w :: ws } : Call) = c by rw [← isStack]] at before
            rw [before, isStack, List.tail_cons, Multiset.cons_add, Multiset.add_cons]
          · intro missing
            simp [isCalls] at missing

/-! ## Variables -/

theorem lookup_filter_ne {α β : Type} [DecidableEq α] {l : List (α × β)} {x y : α}
    (other : y ≠ x) : (l.filter (·.1 ≠ x)).lookup y = l.lookup y := by
  induction l with
  | nil => rfl
  | cons w rest ih =>
    by_cases isX : w.1 = x
    · have notY : (y == w.1) = false := beq_eq_false_iff_ne.mpr (isX ▸ other)
      rw [List.filter_cons_of_neg (by simpa using isX), ih, List.lookup_cons, notY]
    · rw [List.filter_cons_of_pos (by simpa using isX), List.lookup_cons, List.lookup_cons, ih]

def varsHeld (vars : List (Slot × Option Holding)) : Multiset Holding :=
  (vars.filterMap (·.2) : List Holding)

theorem varsHeld_cons (v : Slot × Option Holding) (vars : List (Slot × Option Holding)) :
    varsHeld (v :: vars) = (v.2.toList : List Holding) + varsHeld vars := by
  rcases v with ⟨y, _ | k⟩
  · rfl
  · rfl

theorem varsHeld_filter_le (vars : List (Slot × Option Holding)) :
    varsHeld (vars.filter (·.1 ≠ x)) ≤ varsHeld vars :=
  Multiset.coe_le.mpr (List.filter_sublist.filterMap _).subperm

theorem varsHeld_forget_le {vars : List (Slot × Option Holding)} {v : Option Holding}
    (found : vars.lookup x = some v) :
    (v.toList : List Holding) + varsHeld (vars.filter (·.1 ≠ x)) ≤ varsHeld vars := by
  induction vars with
  | nil => simp at found
  | cons w rest ih =>
    rw [List.lookup_cons] at found
    rw [varsHeld_cons]
    by_cases same : x = w.1
    · subst same
      simp only [BEq.rfl, Option.some.injEq] at found
      subst found
      rw [List.filter_cons_of_neg (by simp)]
      exact add_le_add_right (varsHeld_filter_le rest) _
    · have other : (x == w.1) = false := beq_eq_false_iff_ne.mpr same
      rw [other] at found
      rw [List.filter_cons_of_pos (by simpa using Ne.symm same), varsHeld_cons, add_left_comm]
      exact add_le_add_right (ih found) _

theorem Call.holdings_vars (c : Call) (vars : List (Slot × Option Holding)) :
    (({ c with vars := vars } : Call).holdings : Multiset Holding) =
      varsHeld vars + (c.stack.map (·.holding) ++ c.result.toList : List Holding) := by
  simp only [Call.holdings, varsHeld, ← Multiset.coe_add]

theorem var_eq_some (held : s.var d x = some h) :
    ∃ c, s.calls[d]? = some c ∧ c.vars.lookup x = some (some h) := by
  simpa [Store.var, Option.join_eq_some_iff, Option.bind_eq_some_iff] using held

theorem moves_setVar (v : Option Holding) (old : Multiset Holding)
    (held : ∀ c, s.calls[d]? = some c →
      old + varsHeld (c.vars.filter (·.1 ≠ x)) ≤ varsHeld c.vars)
    (missing : s.calls[d]? = none → old = 0)
    (free : v = none → ∀ e ∈ s.envs, ∀ c, s.calls[d]? = some c → c.id = e.1 → e.2 ≠ x) :
    Moves ((v.toList : List Holding) + F) s (old + F) (s.setVar d x v) := by
  apply Moves.onCall
  · exact fun c => rfl
  · exact fun c => rfl
  · intro e mem c found isCall held
    rw [List.lookup_cons]
    split
    · next isX =>
        cases v with
        | none => exact absurd (beq_iff_eq.mp isX) (free rfl e mem c found isCall)
        | some k => rfl
    · next notX =>
        rw [lookup_filter_ne (beq_eq_false_iff_ne.mp notX)]
        exact held
  · intro c found
    have before := Call.holdings_vars c c.vars
    rw [Call.holdings_vars, varsHeld_cons, before]
    calc
      old + F + ((v.toList : List Holding) + varsHeld (c.vars.filter (·.1 ≠ x)) +
          (c.stack.map (·.holding) ++ c.result.toList : List Holding)) =
          (v.toList : List Holding) + F + ((old + varsHeld (c.vars.filter (·.1 ≠ x))) +
            (c.stack.map (·.holding) ++ c.result.toList : List Holding)) := by abel
      _ ≤ (v.toList : List Holding) + F + (varsHeld c.vars +
            (c.stack.map (·.holding) ++ c.result.toList : List Holding)) :=
        add_le_add_right (add_le_add_left (held c found) _) _
  · intro isNone
    rw [missing isNone, zero_add]
    exact Multiset.le_add_left _ _

theorem moves_putVar (h : Holding) : Moves (h ::ₘ F) s F (s.setVar d x (some h)) := by
  have moves := moves_setVar (s := s) (d := d) (x := x) (F := F) (some h) 0
    (fun c _ => by
      rw [zero_add]
      exact varsHeld_filter_le c.vars) (fun _ => rfl) (by simp)
  rw [zero_add] at moves
  exact moves

theorem moves_swapVar {old : Holding} (held : s.var d x = some old) (h : Holding) :
    Moves (h ::ₘ F) s (old ::ₘ F) (s.setVar d x (some h)) := by
  rcases var_eq_some held with ⟨c, found, isOld⟩
  apply moves_setVar (some h) {old}
  · intro c' found'
    obtain rfl := Option.some.inj (found.symm.trans found')
    exact varsHeld_forget_le isOld
  · intro missing
    rw [missing] at found
    contradiction
  · simp

theorem moves_takeVar {old : Holding} (held : s.var d x = some old)
    (free : ∀ e ∈ s.envs, ∀ c, s.calls[d]? = some c → c.id = e.1 → e.2 ≠ x) :
    Moves F s (old ::ₘ F) (s.setVar d x none) := by
  rcases var_eq_some held with ⟨c, found, isOld⟩
  have moves := moves_setVar (s := s) (d := d) (x := x) (F := F) none {old}
    (fun c' found' => by
      obtain rfl := Option.some.inj (found.symm.trans found')
      exact varsHeld_forget_le isOld)
    (fun missing => by
      rw [missing] at found
      contradiction) (fun _ => free)
  simpa using moves

/-! ## References -/

theorem mem_holdings_of_call {c : Call} (mem : c ∈ s.calls) (isHeld : h ∈ c.holdings) :
    h ∈ s.holdings :=
  List.mem_append_left _ (List.mem_flatMap.mpr ⟨c, mem, isHeld⟩)

theorem mem_holdings_of_var (held : s.var d x = some h) : h ∈ s.holdings := by
  rcases var_eq_some held with ⟨c, found, isHeld⟩
  apply mem_holdings_of_call (List.mem_of_getElem? found)
  have forget := varsHeld_forget_le isHeld
  exact List.mem_append_left _ (Multiset.mem_coe.mp
    (Multiset.mem_of_le forget (Multiset.mem_add.mpr (.inl (Multiset.mem_singleton_self h)))))

@[simp]
theorem countedRef_borrowed (h : Holding) : h.borrowed.countedRef = none := by
  unfold Holding.countedRef Holding.borrowed
  cases h.ref <;> simp

theorem Store.Sound.cons (sound : s.Sound F) (uncounted : h.countedRef = none)
    (reads : s.read h.ref = some h.text) : s.Sound (h ::ₘ F) where
  counted := by
    rw [Multiset.cons_add, Multiset.filterMap_cons_none _ _ uncounted]
    exact sound.counted
  reads k mem := by
    rw [Multiset.cons_add, Multiset.mem_cons] at mem
    rcases mem with rfl | mem
    · exact reads
    · exact sound.reads k mem
  calls := sound.calls
  envs := sound.envs

theorem moves_literal (text : String) : Moves F s (.literal text ::ₘ F) s where
  calls := rfl
  quiet := id
  sound _ sound := sound.cons rfl rfl

theorem moves_borrow (mem : h ∈ s.holdings) : Moves F s (h.borrowed ::ₘ F) s where
  calls := rfl
  quiet := id
  sound _ sound := sound.cons (countedRef_borrowed h)
    (sound.reads h (Multiset.mem_add.mpr (.inr (Multiset.mem_coe.mpr mem))))

theorem moves_borrow_flying : Moves (h ::ₘ F) s (h.borrowed ::ₘ h ::ₘ F) s where
  calls := rfl
  quiet := id
  sound _ sound := sound.cons (countedRef_borrowed h)
    (sound.reads h (Multiset.mem_add.mpr (.inl (Multiset.mem_cons_self h F))))

/-! ## Counts -/

theorem read_counts_of {counts : List Nat} {r : Ref} {text : String} (reads : s.read r = some text)
    (kept : ∀ i, r = .heap i → i ∈ s.counts → i ∈ counts) :
    ({ s with counts := counts } : Store).read r = some text := by
  cases r with
  | literal => exact reads
  | buffer => exact reads
  | heap i =>
      unfold Store.read at *
      simp only [Option.ite_none_right_eq_some] at reads ⊢
      exact ⟨kept i rfl reads.1, reads.2⟩

theorem moves_retain (h : Holding) : Moves (h ::ₘ F) s ((s.retain h).1 ::ₘ F) (s.retain h).2 := by
  unfold Store.retain
  split
  · next i isHeap =>
      constructor
      · rfl
      · exact id
      · intro _ sound
        have counted : ({ h with counted := true } : Holding).countedRef = some i := by
          simp [Holding.countedRef, isHeap]
        constructor
        · rw [Multiset.cons_add, Multiset.filterMap_cons_some _ _ _ counted, ← Multiset.cons_coe]
          apply Multiset.cons_le_cons
          exact (Multiset.filterMap_le_filterMap _ (by
            rw [Multiset.cons_add]
            exact Multiset.le_cons_self _ _)).trans sound.counted
        · intro k mem
          have before : s.read k.ref = some k.text := by
            rw [Multiset.cons_add, Multiset.mem_cons] at mem
            rcases mem with rfl | mem
            · exact sound.reads h (Multiset.mem_add.mpr (.inl (Multiset.mem_cons_self h F)))
            · apply sound.reads k
              rw [Multiset.cons_add]
              exact Multiset.mem_cons_of_mem mem
          exact read_counts_of before fun j _ isLive => List.mem_cons_of_mem i isLive
        · exact sound.calls
        · exact sound.envs
  · exact .refl _ s
  · exact .refl _ s

theorem moves_maybeRetain (v : Operand) :
    Moves (v.holding ::ₘ F) s ((s.maybeRetain v).1 ::ₘ F) (s.maybeRetain v).2 := by
  unfold Store.maybeRetain
  split
  · exact .refl _ s
  · exact moves_retain v.holding

theorem moves_allocate (text : String) :
    Moves F s ((s.allocate text).1 ::ₘ F) (s.allocate text).2 where
  calls := rfl
  quiet := id
  sound _ sound := by
    have older : ∀ {r : Ref} {t : String}, s.read r = some t →
        (s.allocate text).2.read r = some t := by
      intro r t reads
      cases r with
      | literal => exact reads
      | buffer => exact reads
      | heap i =>
          unfold Store.read at *
          simp only [Option.ite_none_right_eq_some] at reads ⊢
          constructor
          · exact List.mem_cons_of_mem _ reads.1
          · have inside : i < s.texts.length := (List.getElem?_eq_some_iff.mp reads.2).1
            show (s.texts ++ [text])[i]? = some t
            rw [List.getElem?_append_left inside]
            exact reads.2
    constructor
    · rw [Multiset.cons_add, Multiset.filterMap_cons_some _ _ _
        (show Holding.countedRef (s.allocate text).1 = some s.texts.length from rfl)]
      show _ ≤ ((s.texts.length :: s.counts : List Nat) : Multiset Nat)
      rw [← Multiset.cons_coe]
      exact Multiset.cons_le_cons _ sound.counted
    · intro k mem
      rw [Multiset.cons_add, Multiset.mem_cons] at mem
      rcases mem with rfl | mem
      · simp [Store.allocate, Store.read, Holding.fresh]
      · exact older (sound.reads k mem)
    · exact sound.calls
    · exact sound.envs

/-- The last count of a string is given back while nothing without a count points
to it. -/
theorem Moves.release (h : Holding) : Moves {h} s 0 (s.release h) := by
  have dropped : Moves {h} s 0 s := .of_le (Multiset.zero_le _)
  unfold Store.release
  split
  · next i isHeap =>
      apply Moves.noteIf
      · exact ids_noteIf _ _
      · intro quiet
        have none := quiet_noteIf quiet
        rw [none.2] at quiet
        exact quiet
      · intro borrows quiet sound
        have none := quiet_noteIf quiet
        rw [none.2]
        have counted : h.countedRef = some i := by
          simpa [Holding.countedRef, isHeap] using none.1
        have rest : (s.holdings : Multiset Holding).filterMap Holding.countedRef ≤
            ((s.counts.erase i : List Nat) : Multiset Nat) := by
          have all := sound.counted
          rw [Multiset.singleton_add, Multiset.filterMap_cons_some _ _ _ counted] at all
          have erased := Multiset.erase_le_erase i all
          rwa [Multiset.erase_cons_head, Multiset.coe_erase] at erased
        constructor
        · rw [zero_add]
          exact rest
        · intro k mem
          have before := sound.reads k (Multiset.mem_add.mpr (.inr mem))
          apply read_counts_of before
          intro j isRef isLive
          by_cases same : j = i
          · subst same
            by_contra gone
            have borrowed : ∀ h ∈ ({ s with counts := s.counts.erase j } : Store).holdings,
                h.ref = .heap j → h.counted = true := by
              simpa [gone] using borrows
            have owns : k.countedRef = some j := by
              simp [Holding.countedRef, isRef, borrowed k mem isRef]
            have owned := (Multiset.mem_filterMap Holding.countedRef _).mpr ⟨k, mem, owns⟩
            exact gone (Multiset.mem_coe.mp (Multiset.mem_of_le rest owned))
          · exact (List.mem_erase_of_ne same).mpr isLive
        · exact sound.calls
        · exact sound.envs
  · exact dropped
  · exact dropped

/-! ## Fields, containers and closures -/

theorem moves_withStored {stored : List Holding}
    (le : F' + (stored : Multiset Holding) ≤ F + (s.stored : Multiset Holding)) :
    Moves F s F' { s with stored := stored } where
  calls := rfl
  quiet := id
  sound _ sound := by
    have fewer : F' + (({ s with stored := stored } : Store).holdings : Multiset Holding) ≤
        F + (s.holdings : Multiset Holding) := by
      unfold Store.holdings
      rw [← Multiset.coe_add, ← Multiset.coe_add, add_left_comm, add_left_comm F]
      exact add_le_add_right le _
    exact sound.of_le fewer rfl rfl rfl rfl sound.envs

theorem moves_store (h : Holding) : Moves (h ::ₘ F) s F { s with stored := h :: s.stored } := by
  apply moves_withStored
  rw [← Multiset.cons_coe, Multiset.add_cons, Multiset.cons_add]

theorem moves_unstore {k : Nat} (found : s.stored[k]? = some h) :
    Moves F s (h ::ₘ F) { s with stored := s.stored.eraseIdx k } := by
  apply moves_withStored
  rcases List.getElem?_eq_some_iff.mp found with ⟨inside, rfl⟩
  have same : ((s.stored[k] :: s.stored.eraseIdx k : List Holding) : Multiset Holding) = s.stored :=
    Multiset.coe_eq_coe.mpr (List.getElem_cons_eraseIdx_perm inside)
  rw [← same, ← Multiset.cons_coe, Multiset.cons_add, Multiset.add_cons]

theorem follows_withEnvs {envs : List (Nat × Slot)}
    (holds : (∀ e ∈ s.envs, s.Holds e) → ∀ e ∈ envs, s.Holds e) :
    Follows s { s with envs := envs } where
  calls := rfl
  quiet := id
  sound _ sound := ⟨sound.counted, sound.reads, sound.calls, holds sound.envs⟩

/-! ## What the emitted code does -/

theorem follows_literal (text : String) : Follows s (s.push ⟨.literal text, false⟩) :=
  (moves_literal text).trans (moves_push _ _)

theorem follows_fresh (text : String) :
    Follows s ((s.allocate text).2.push ⟨(s.allocate text).1, true⟩) :=
  (moves_allocate text).trans (moves_push _ _)

theorem follows_borrow (mem : h ∈ s.holdings) (isCall : Bool) :
    Follows s (s.push ⟨h.borrowed, isCall⟩) :=
  (moves_borrow mem).trans (moves_push _ _)

theorem follows_popped (s : Store) (v : Operand) : Follows s (s.pop.getD (v, s)).2 := by
  cases popped : s.pop with
  | none => exact .refl 0 s
  | some r => exact (moves_pop popped).trans (.of_le (Multiset.zero_le _))

theorem follows_concat (s : Store) : Follows s s.concat :=
  ((follows_popped s _).trans (follows_popped _ _)).trans (follows_fresh _)

theorem follows_declare (s : Store) (isStr : Bool) : Follows s (s.declare x isStr) := by
  unfold Store.declare
  split
  · exact (moves_literal "").trans (moves_putVar _)
  · next v s₁ popped =>
      split
      · exact ((moves_pop popped).trans (moves_maybeRetain v)).trans (moves_putVar _)
      · exact (moves_pop popped).trans (moves_putVar _)

theorem follows_setResult (s : Store) (isStr : Bool) : Follows s (s.setResult isStr) := by
  have put : ∀ (s : Store) (h : Holding),
      Moves {h} s 0 (s.onCall 0 fun c => { c with result := some h }) := by
    intro s h
    apply Moves.onCall
    · exact fun c => rfl
    · exact fun c => rfl
    · exact fun _ _ _ _ _ held => held
    · intro c _
      simp only [Call.holdings, ← Multiset.coe_add, Option.toList_some, Multiset.coe_singleton]
      calc
        0 + ((c.vars.filterMap (·.2) : List Holding) +
            ((c.stack.map (·.holding) : List Holding) + {h})) =
            {h} + ((c.vars.filterMap (·.2) : List Holding) +
              ((c.stack.map (·.holding) : List Holding) + (0 : Multiset Holding))) := by abel
        _ ≤ _ := by
          gcongr
          exact Multiset.zero_le _
    · exact fun _ => Multiset.zero_le _
  unfold Store.setResult
  split
  · exact .refl 0 s
  · next v s₁ popped =>
      cases isStr with
      | true => exact ((moves_pop popped).trans (moves_maybeRetain v)).trans (put _ _)
      | false => exact (moves_pop popped).trans (put _ _)

theorem follows_releaseVar (s : Store) (x : Slot) : Follows s (s.releaseVar x) := by
  unfold Store.releaseVar
  split
  · exact (Moves.refl 0 s).note _
  · next old held =>
      have released := Moves.release (s := s.setVar 0 x none) old
      apply Moves.noteIf
      · apply released.calls.trans
        apply map_modify_of
        exact fun c => rfl
      · exact released.quiet
      · intro free quiet sound
        have taken : Moves 0 s {old} (s.setVar 0 x none) := by
          apply moves_takeVar held
          intro e mem c found isCall isX
          rw [List.any_eq_false] at free
          rw [← List.head?_eq_getElem?] at found
          simpa [found, isCall, isX] using free e mem
        exact released.sound quiet (taken.sound (released.quiet quiet) sound)

theorem follows_deleteVar {old : Holding} (held : s.var d x = some old) :
    Follows s ((s.setVar d x (some .null)).release old) :=
  ((moves_literal "").trans (moves_swapVar held .null)).trans (.release old)

theorem follows_releaseOld (s : Store) (d : Nat) (x : Slot) : Follows s (s.releaseOld d x) := by
  unfold Store.releaseOld
  split
  · exact .noteIf rfl id fun _ _ sound => sound
  · next old held => exact follows_deleteVar held

theorem follows_assign (s : Store) (d : Nat) (x : Slot) : Follows s (s.assign d x) := by
  have old := follows_releaseOld s d x
  simp only [Store.assign]
  split
  · exact old
  · next v s₁ popped =>
      have taken : Moves 0 s {(s₁.maybeRetain v).1} (s₁.maybeRetain v).2 :=
        (old.trans (moves_pop popped)).trans (moves_maybeRetain v)
      have copied : Moves 0 s {(s₁.maybeRetain v).1.borrowed, (s₁.maybeRetain v).1}
          (s₁.maybeRetain v).2 := taken.trans moves_borrow_flying
      rw [Multiset.pair_comm] at copied
      exact (copied.trans (moves_putVar _)).trans (moves_push _ _)

theorem follows_store (s : Store) (how : Storing) : Follows s (s.store how) := by
  unfold Store.store
  split
  · exact .refl 0 s
  · next v s₁ popped =>
      cases how with
      | always => exact ((moves_pop popped).trans (moves_retain _)).trans (moves_store _)
      | unlessCall => exact ((moves_pop popped).trans (moves_maybeRetain v)).trans (moves_store _)
      | never => exact (moves_pop popped).trans (moves_store _)

theorem read_rewrite {c : Call} {cs : List Call} (isCalls : s.calls = c :: cs) {site : Nat}
    {r : Ref} {text old : String} (reads : s.read r = some old)
    (same : r = .buffer c.id site → old = text) : (s.rewrite c cs site text).read r = some old := by
  cases r with
  | literal => exact reads
  | heap => exact reads
  | buffer call k =>
      simp only [Store.read, Store.buffers, Store.rewrite, isCalls, List.map_cons,
        List.lookup_cons] at reads ⊢
      by_cases isCall : call = c.id
      · subst isCall
        simp only [BEq.rfl, Option.bind_some] at reads ⊢
        rw [List.lookup_cons]
        by_cases isSite : k = site
        · subst isSite
          simp [same rfl]
        · rw [beq_eq_false_iff_ne.mpr isSite]
          simpa only [lookup_filter_ne isSite] using reads
      · rw [beq_eq_false_iff_ne.mpr isCall] at reads ⊢
        exact reads

theorem follows_format (s : Store) (site : Nat) (n : Int) : Follows s (s.format site n) := by
  unfold Store.format
  split
  · exact .refl 0 s
  · next c cs isCalls =>
      have flying : Moves 0 s {⟨.buffer c.id site, toString n, false⟩}
          ((s.rewrite c cs site (toString n)).noteIf
            (s.holdings.any fun h => h.ref = .buffer c.id site && h.text ≠ toString n)
            (.rewritten c.id site)) := by
        apply Moves.noteIf
        · simp [Store.ids, Store.rewrite, isCalls]
        · exact id
        · intro same _ sound
          have holdings : (s.rewrite c cs site (toString n)).holdings = s.holdings := by
            simp only [Store.holdings, Store.rewrite, isCalls, List.flatMap_cons]
            rfl
          have before : (s.rewrite c cs site (toString n)).Sound 0 := by
            constructor
            · rw [holdings]
              exact sound.counted
            · intro k mem
              rw [holdings] at mem
              apply read_rewrite isCalls (sound.reads k mem)
              intro isRef
              simpa [isRef] using List.any_eq_false.mp same k mem
            · intro e mem
              have all := sound.calls
              simp only [Store.buffers, isCalls, Store.rewrite, List.map_cons, List.mem_cons]
                at mem all
              rcases mem with rfl | mem
              · exact all (c.id, c.buffers) (.inl rfl)
              · exact all e (.inr mem)
            · intro e mem
              rcases sound.envs e mem with ⟨c', isCall, holds⟩
              rw [isCalls, List.mem_cons] at isCall
              rcases isCall with rfl | isCall
              · exact ⟨_, List.mem_cons_self, holds⟩
              · exact ⟨c', List.mem_cons_of_mem _ isCall, holds⟩
          apply before.cons rfl
          simp [Store.read, Store.buffers, Store.rewrite]
      exact flying.trans (moves_push _ _)

/-! ## Calls -/

theorem held_push_le (v : Operand) :
    ((s.push v).holdings : Multiset Holding) ≤ v.holding ::ₘ (s.holdings : Multiset Holding) := by
  have le := held_onCall_le (s := s) (d := 0) (a := 0) (b := {v.holding})
    (g := fun c => { c with stack := v :: c.stack })
    (fun c _ => by
      rw [zero_add, Multiset.singleton_add]
      exact le_of_eq (c.holdings_push v)) (fun _ => Multiset.zero_le _)
  exact le

theorem follows_dropOperands (s : Store) (args : Nat) :
    Follows s (s.onCall 0 fun c => { c with stack := c.stack.drop args }) := by
  apply Moves.onCall
  · exact fun c => rfl
  · exact fun c => rfl
  · exact fun _ _ _ _ _ held => held
  · intro c _
    rw [zero_add, zero_add, Multiset.coe_le]
    apply List.Sublist.subperm
    apply List.Sublist.append_left
    exact ((List.drop_sublist _ _).map _).append_right _
  · exact fun _ => le_rfl

theorem ids_onCall {g : Call → Call} (ids : ∀ c, (g c).id = c.id) :
    (s.onCall d g).ids = s.ids := map_modify_of _ ids s.calls d

theorem buffers_onCall {g : Call → Call} (ids : ∀ c, (g c).id = c.id)
    (buffers : ∀ c, (g c).buffers = c.buffers) : (s.onCall d g).buffers = s.buffers :=
  map_modify_of _ (fun c => by rw [ids, buffers]) s.calls d

theorem sound_newCall {vars : List (Slot × Option Holding)} (sound : s.Sound 0)
    (given : ∀ h ∈ vars.filterMap (·.2), h.countedRef = none ∧ s.read h.ref = some h.text) :
    (s.newCall vars).Sound 0 := by
  have older : ∀ {r : Ref} {text : String}, s.read r = some text →
      (s.newCall vars).read r = some text := by
    intro r text reads
    cases r with
    | literal => exact reads
    | heap => exact reads
    | buffer call k =>
        have other : call ≠ s.nextCall := by
          rintro rfl
          simp only [Store.read, Option.bind_eq_some_iff, List.lookup_eq_some_iff] at reads
          rcases reads with ⟨buffers, ⟨before, after, isCall, -⟩, -⟩
          exact Nat.lt_irrefl _ (sound.calls (s.nextCall, buffers) (by simp [isCall]))
        simp only [Store.read, Store.buffers, Store.newCall, List.map_cons,
          List.lookup_cons] at reads ⊢
        rw [beq_eq_false_iff_ne.mpr other]
        exact reads
  have holdings : (s.newCall vars).holdings = vars.filterMap (·.2) ++ s.holdings := by
    simp [Store.holdings, Store.newCall, Call.holdings]
  constructor
  · have uncounted : (vars.filterMap (·.2)).filterMap Holding.countedRef = [] :=
      List.filterMap_eq_nil_iff.mpr fun h mem => (given h mem).1
    rw [holdings, zero_add, Multiset.filterMap_coe, List.filterMap_append, uncounted,
      List.nil_append, ← Multiset.filterMap_coe]
    have before := sound.counted
    exact before
  · intro k mem
    rw [holdings, zero_add, Multiset.mem_coe, List.mem_append] at mem
    rcases mem with mem | mem
    · exact older (given k mem).2
    · exact older (sound.reads k (Multiset.mem_add.mpr (.inr (Multiset.mem_coe.mpr mem))))
  · intro e mem
    rcases List.mem_cons.mp mem with rfl | mem
    · exact Nat.lt_succ_self _
    · exact (sound.calls e mem).trans (Nat.lt_succ_self _)
  · intro e mem
    rcases sound.envs e mem with ⟨c, isCall, holds⟩
    exact ⟨c, List.mem_cons_of_mem _ isCall, holds⟩

theorem sound_enter (params : List Slot) (args : Nat) (sound : s.Sound 0) (quiet : s.events = []) :
    (s.enter params args).Sound 0 := by
  have dropped := (follows_dropOperands s args).sound quiet sound
  apply sound_newCall dropped
  intro h mem
  rcases List.mem_filterMap.mp mem with ⟨⟨x, v⟩, isParam, rfl⟩
  rcases List.mem_map.mp (List.of_mem_zip isParam).2 with ⟨v, isOperand, same⟩
  obtain rfl := Option.some.inj same
  constructor
  · exact countedRef_borrowed _
  · have buffers :
        (s.onCall 0 fun c => { c with stack := c.stack.drop args }).buffers = s.buffers := by
      apply buffers_onCall
      · exact fun c => rfl
      · exact fun c => rfl
    have isHeld : v.holding ∈ s.holdings := by
      have onStack := List.mem_of_mem_take (List.mem_reverse.mp isOperand)
      cases isCalls : s.calls with
      | nil => simp [isCalls] at onStack
      | cons c cs =>
          apply mem_holdings_of_call (c := c) (by simp [isCalls])
          apply List.mem_append_right
          apply List.mem_append_left
          exact List.mem_map_of_mem (by simpa [isCalls] using onStack)
    have reads := sound.reads v.holding (Multiset.mem_add.mpr (.inr (Multiset.mem_coe.mpr isHeld)))
    unfold Store.read at reads ⊢
    rw [buffers]
    exact reads

theorem held_backTo_le (cs : List Call) (r : Option Holding) (inTry : Bool) :
    ((s.backTo cs r inTry).holdings : Multiset Holding) ≤
      (r.toList : List Holding) +
        (({ s with calls := cs } : Store).holdings : Multiset Holding) := by
  cases r with
  | none => exact le_of_eq (zero_add _).symm
  | some h => exact held_push_le ⟨h, !inTry⟩

theorem buffers_backTo (cs : List Call) (r : Option Holding) (inTry : Bool) :
    (s.backTo cs r inTry).buffers = cs.map fun c => (c.id, c.buffers) := by
  cases r with
  | none => rfl
  | some h =>
      apply buffers_onCall
      · exact fun c => rfl
      · exact fun c => rfl

theorem ids_backTo (cs : List Call) (r : Option Holding) (inTry : Bool) :
    (s.backTo cs r inTry).ids = cs.map (·.id) := by
  cases r with
  | none => rfl
  | some h =>
      apply ids_onCall
      exact fun c => rfl

theorem holds_backTo {cs : List Call} (r : Option Holding) (inTry : Bool) {e : Nat × Slot}
    (holds : ({ s with calls := cs } : Store).Holds e) : (s.backTo cs r inTry).Holds e := by
  cases r with
  | none => exact holds
  | some h => exact holds_onCall (fun c => rfl) (fun _ _ _ held => held) holds

theorem backTo_same (cs : List Call) (r : Option Holding) (inTry : Bool) :
    (s.backTo cs r inTry).counts = s.counts ∧ (s.backTo cs r inTry).texts = s.texts ∧
      (s.backTo cs r inTry).envs = s.envs ∧ (s.backTo cs r inTry).nextCall = s.nextCall ∧
      (s.backTo cs r inTry).events = s.events := by
  cases r with
  | none => exact ⟨rfl, rfl, rfl, rfl, rfl⟩
  | some h => exact ⟨rfl, rfl, rfl, rfl, rfl⟩

theorem sound_backTo {c : Call} {cs : List Call} (isCalls : t.calls = c :: cs) (sound : t.Sound 0)
    {r : Option Holding} {inTry : Bool} (result : r.toList.Sublist c.result.toList)
    (away : ∀ h ∈ (t.backTo cs r inTry).holdings, h.ref.isBufferOf c.id = false)
    (envs : ∀ e ∈ t.envs, e.1 ≠ c.id) : (t.backTo cs r inTry).Sound 0 := by
  rcases backTo_same (s := t) cs r inTry with ⟨counts, texts, sameEnvs, nextCall, -⟩
  have fewer : ((t.backTo cs r inTry).holdings : Multiset Holding) ≤
      (t.holdings : Multiset Holding) := by
    apply (held_backTo_le cs r inTry).trans
    rw [Multiset.coe_add, Multiset.coe_le]
    simp only [Store.holdings, isCalls, List.flatMap_cons, List.append_assoc]
    apply List.Sublist.subperm
    apply List.Sublist.append_right
    exact (result.trans (List.sublist_append_right _ _)).trans (List.sublist_append_right _ _)
  constructor
  · rw [zero_add, counts]
    have before := sound.counted
    exact (Multiset.filterMap_le_filterMap _ fewer).trans before
  · intro h mem
    have before := sound.reads h (Multiset.mem_add.mpr (.inr (Multiset.mem_of_le fewer mem)))
    have notHere := away h mem
    unfold Store.read at before ⊢
    rw [counts, texts, buffers_backTo]
    cases isRef : h.ref with
    | literal | heap => simpa [isRef] using before
    | buffer call k =>
        simp only [isRef, Ref.isBufferOf, decide_eq_false_iff_not] at notHere before ⊢
        rw [Store.buffers, isCalls, List.map_cons, List.lookup_cons,
          beq_eq_false_iff_ne.mpr notHere] at before
        exact before
  · intro e mem
    rw [buffers_backTo] at mem
    rw [nextCall]
    apply sound.calls
    rw [Store.buffers, isCalls]
    exact List.mem_cons_of_mem _ mem
  · intro e mem
    rw [sameEnvs] at mem
    rcases sound.envs e mem with ⟨c', isCall, sameId, holds⟩
    apply holds_backTo
    rw [isCalls, List.mem_cons] at isCall
    rcases isCall with rfl | isCall
    · exact absurd sameId.symm (envs e mem)
    · exact ⟨c', isCall, sameId, holds⟩

theorem follows_leave {params : List Slot} {args : Nat}
    (run : Follows (s.enter params args) t) (returns inTry : Bool) :
    Follows s (t.leave returns inTry) := by
  have ids : t.ids = s.nextCall :: s.ids := by
    rw [run.calls, ← ids_onCall (s := s) (d := 0)
      (g := fun c => { c with stack := c.stack.drop args }) (fun c => rfl)]
    rfl
  unfold Store.leave
  split
  · next isNone =>
      simp [Store.ids, isNone] at ids
  · next c cs isCalls =>
      have events := (backTo_same (s := t) cs (if returns then c.result else none) inTry).2.2.2.2
      have quietBefore : (t.backTo cs (if returns then c.result else none) inTry).events = [] →
          s.events = [] := by
        rw [events]
        exact run.quiet
      apply Moves.noteIf
      · rw [ids_backTo]
        rw [Store.ids, isCalls] at ids
        exact (List.cons.inj ids).2
      · exact quietBefore
      · intro away quiet sound
        rw [Bool.or_eq_false_iff, List.any_eq_false, List.any_eq_false] at away
        rw [events] at quiet
        have entered := sound_enter params args sound (run.quiet quiet)
        apply sound_backTo isCalls (run.sound quiet entered)
        · cases returns <;> simp
        · simpa using away.1
        · intro e mem
          rw [(backTo_same (s := t) cs (if returns then c.result else none) inTry).2.2.1] at away
          simpa using away.2 e mem

theorem follows_clear (s : Store) : Follows s s.clear := by
  apply Moves.onCall
  · exact fun c => rfl
  · exact fun c => rfl
  · exact fun _ _ _ _ _ held => held
  · intro c _
    rw [zero_add, zero_add, Multiset.coe_le]
    simp only [Call.holdings, List.map_nil, List.nil_append]
    exact ((List.sublist_append_right _ _).append_left _).subperm
  · exact fun _ => le_rfl

theorem follows_strChoice (c : Choice) (s : Store) : Follows s (strChoice c s).2 := by
  cases c <;>
    exact ⟨rfl, id, fun _ sound => ⟨sound.counted, sound.reads, sound.calls, sound.envs⟩⟩

section Acts

variable {invoke : String → Nat → Bool → Store → Answer × Store}

mutual

theorem Act.follows_run
    (returns : ∀ symbol args inTry s, Follows s (invoke symbol args inTry s).2) :
    ∀ (act : Act) (s : Store), Follows s (act.run invoke s).2
  | .literal text, s => follows_literal text
  | .fresh text, s => follows_fresh text
  | .format site n, s => follows_format s site n
  | .concat, s => follows_concat s
  | .read d x, s => by
      simp only [Act.run]
      split
      · exact (Moves.refl 0 s).note _
      · next held => exact follows_borrow (mem_holdings_of_var held) false
  | .load k isCall, s => by
      simp only [Act.run]
      split
      · exact .refl 0 s
      · next found =>
          exact follows_borrow (List.mem_append_right _ (List.mem_of_getElem? found)) isCall
  | .drop, s => by
      simp only [Act.run]
      split
      · exact .refl 0 s
      · next popped => exact (moves_pop popped).trans (.of_le (Multiset.zero_le _))
  | .assign d x, s => follows_assign s d x
  | .bind x, s => by
      simp only [Act.run]
      split
      · exact .refl 0 s
      · next v s₁ popped =>
          have copied : Moves 0 s {v.holding.borrowed, v.holding} s₁ :=
            (moves_pop popped).trans moves_borrow_flying
          exact (copied.trans (moves_putVar _)).trans (.of_le (Multiset.zero_le _))
  | .store how, s => follows_store s how
  | .forget k, s => by
      apply moves_withStored
      exact add_le_add_right (Multiset.coe_le.mpr (List.eraseIdx_sublist _ _).subperm) _
  | .capture d x, s => by
      simp only [Act.run]
      split
      · next c h found held =>
          apply follows_withEnvs
          intro holds e mem
          rcases List.mem_cons.mp mem with rfl | mem
          · refine ⟨c, List.mem_of_getElem? found, rfl, ?_⟩
            rcases var_eq_some held with ⟨c', found', isHeld⟩
            obtain rfl := Option.some.inj (found.symm.trans found')
            simp [isHeld]
          · exact holds e mem
      · exact (Moves.refl 0 s).note _
  | .freeClosure k, s =>
      follows_withEnvs fun holds e mem => holds e ((List.eraseIdx_sublist _ _).mem mem)
  | .call symbol args inTry, s => returns symbol args inTry s
  | .lambda params body, s =>
      follows_leave (follows_runActs returns body (s.enter params params.length)) _ false
  | .declare x isStr, s => follows_declare s isStr
  | .release x, s => follows_releaseVar s x
  | .result isStr, s => follows_setResult s isStr
  | .deleteVar d x, s => by
      simp only [Act.run]
      split
      · exact (Moves.refl 0 s).note _
      · next held => exact follows_deleteVar held
  | .deleteStored k, s => by
      simp only [Act.run]
      split
      · exact .refl 0 s
      · next h found => exact (moves_unstore found).trans (.release h)
  | .deleteOperand, s => by
      simp only [Act.run]
      split
      · exact .refl 0 s
      · next v s₁ popped => exact (moves_pop popped).trans (.release v.holding)
  | .stop answer, s => .refl 0 s

theorem follows_runActs
    (returns : ∀ symbol args inTry s, Follows s (invoke symbol args inTry s).2) :
    ∀ (acts : List Act) (s : Store), Follows s (runActs invoke acts s).2
  | [], s => .refl 0 s
  | act :: acts, s => by
      have first := Act.follows_run returns act s
      simp only [runActs]
      split
      · next s' run =>
          rw [run] at first
          exact first.trans (follows_runActs returns acts s')
      · exact first

end

variable (returns : ∀ symbol args inTry s, Follows s (invoke symbol args inTry s).2)

include returns

theorem follows_runScript (s : Store) : Follows s (runScript invoke s).2 := by
  unfold runScript
  split
  · exact follows_clear s
  · next script rest _ =>
      have told : Follows s.clear { s.clear with scripts := rest } :=
        ⟨rfl, id, fun _ sound => ⟨sound.counted, sound.reads, sound.calls, sound.envs⟩⟩
      have run := ((follows_clear s).trans told).trans (follows_runActs returns script _)
      split
      · next s' ran =>
          rw [ran] at run
          exact run
      · next s' _ ran =>
          rw [ran] at run
          exact run.trans (follows_clear s')

variable (isStr : Slot → Bool) (returnsStr : Bool)

theorem follows_strOp (o : Op) (s : Store) : Follows s (strOp invoke isStr returnsStr o s).2 := by
  cases o with
  | eval | delete | loopElement | bindPayload => exact follows_runScript returns s
  | declare x => exact follows_declare s (isStr x)
  | retainResult => exact follows_setResult s returnsStr
  | releaseStr x => exact follows_releaseVar s x
  | cleanup c =>
      cases c with
      | dtor | release => exact follows_runScript returns s
      | deferBody | call => exact .refl 0 s
  | loopInit | loopStep | bindCatch | beginCatch => exact .refl 0 s

end Acts

theorem follows_returned {params : List Slot} {args : Nat} {r : Outcome × Store} (inTry : Bool)
    (run : Follows (s.enter params args) r.2) : Follows s (returned inTry r).2 := by
  unfold returned
  cases r.1 with
  | normal | ret | br => exact follows_leave run true inTry
  | raise | escape | abort | timeout => exact follows_leave run false inTry

theorem follows_runFunction (m : Module) (nest : Nat) (globals : List Item) (N : Nat) :
    ∀ depth symbol args inTry s,
      Follows s (runFunction m nest globals N depth symbol args inTry s).2 := by
  intro depth
  induction depth with
  | zero => exact fun _ _ _ s => .refl 0 s
  | succ depth ih =>
      intro symbol args inTry s
      unfold runFunction
      split
      · next f code _ _ =>
          have run : Follows (s.enter (paramSlots f) args) (code.run
              (strWorld (runFunction m nest globals N depth) (fun x => decide (x ∈ strVars code))
                (decide (m.ls.types.fromTypeExpr f.returnType = TypeRegistry.TID_STR)))
              (runScript (runFunction m nest globals N depth)) globals N
              (s.enter (paramSlots f) args)).2 := by
            apply FunctionCode.run_keeps (I := Follows (s.enter (paramSlots f) args))
            · exact fun o w before => before.trans (follows_strOp ih _ _ o w)
            · exact fun c w before => before.trans (follows_strChoice c w)
            · exact fun w before => before.trans (follows_runScript ih w)
            · exact .refl 0 _
          exact follows_returned inTry run
      · exact .refl 0 s

end Steps

/-- A function that returns an f-string. -/
def labels (parts : List (String × Expr)) : Program where
  decls :=
    [.func
      { loc := ⟨1, 1⟩, returnType := { name := "str" }, name := "label"
        params := [{ type := { name := "int" }, name := "n" }]
        body := some [.returnStmt (some (fstringExpr parts ""))] }]
  stmts := []

/-- What is done for the result of the function, if every integer is a seven. -/
def labelScript (prog : Program) : List Act :=
  let reading : Reading := ⟨fun _ => [], fun _ => 7, fun _ => true, fun _ => ""⟩
  match prog.decls with
  | [.func { body := some [.returnStmt (some e)], .. }] => (genStr reading e 0).1
  | _ => []

def caller (script : List Act) : Store :=
  { calls := [{ id := 0 }], nextCall := 1, scripts := [script] }

theorem sound_caller (script : List Act) : (caller script).Sound 0 where
  counted := Multiset.zero_le _
  reads h mem := by simp [caller, Store.holdings, Call.holdings] at mem
  calls e mem := by
    simp only [caller, Store.buffers, List.map_cons, List.map_nil, List.mem_singleton] at mem
    subst mem
    exact Nat.zero_lt_one
  envs e mem := by simp [caller] at mem

end Dux.Codegen.Str
