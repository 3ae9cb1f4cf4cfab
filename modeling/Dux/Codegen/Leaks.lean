import Dux.Codegen.Objects
import Mathlib.Tactic.Abel

/-!
# Accounts of counted objects

Every count that is taken is given back, or belongs to a reference somewhere, or was
lost.  Every step moves references from where they are to somewhere else; on the way
they are in flight.
-/

namespace Dux.Codegen.Objects

open Dux.Logic (Ledger Outcome)
open Dux.Codegen.Str (paramSlots)

/-! ## Counts that belong to references -/

def Holding.owned (h : Holding) : Multiset Nat := (h.counts : List Nat)

def owned (hs : List Holding) : Multiset Nat := (hs.flatMap Holding.counts : List Nat)

@[simp]
theorem owned_nil : owned [] = 0 := rfl

@[simp]
theorem owned_cons (h : Holding) (hs : List Holding) : owned (h :: hs) = h.owned + owned hs := by
  simp [owned, Holding.owned]

@[simp]
theorem owned_append (hs ks : List Holding) : owned (hs ++ ks) = owned hs + owned ks := by
  simp [owned]

theorem owned_toList (h : Option Holding) : owned h.toList = (h.getD {}).owned := by
  cases h with
  | none => rfl
  | some h => simp

namespace Holding

@[simp]
theorem owned_plain : Holding.owned {} = 0 := rfl

@[simp]
theorem owned_borrowed (h : Holding) : h.borrowed.owned = 0 := rfl

@[simp]
theorem owned_fresh (i : Nat) : (fresh i).owned = {i} := rfl

theorem owned_of_none {h : Holding} (isPlain : h.object = none) : h.owned = 0 := by
  simp [owned, counts, isPlain]

theorem owned_of_some {h : Holding} {i : Nat} (isObject : h.object = some i) :
    h.owned = if h.counted then {i} else 0 := by
  cases counted : h.counted <;> simp [owned, counts, isObject, counted]

end Holding

theorem owned_filter (p : Element → Bool) (es : List Element) :
    owned ((es.filter p).map Element.holding) +
      owned ((es.filter fun e => !p e).map Element.holding) = owned (es.map Element.holding) := by
  induction es with
  | nil => rfl
  | cons e es ih =>
    rw [List.map_cons, owned_cons, ← ih]
    cases kept : p e with
    | true => simp [kept, add_assoc]
    | false => simp [kept, add_left_comm]

theorem owned_take_drop (n : Nat) (vs : List Operand) :
    owned ((vs.take n).map Operand.holding) + owned ((vs.drop n).map Operand.holding) =
      owned (vs.map Operand.holding) := by
  rw [← owned_append, ← List.map_append, List.take_append_drop]

theorem owned_eraseIdx (k : Nat) (es : List Element) :
    ((es[k]?.map Element.holding).getD {}).owned + owned ((es.eraseIdx k).map Element.holding) =
      owned (es.map Element.holding) := by
  induction es generalizing k with
  | nil => rfl
  | cons e es ih =>
    cases k with
    | zero => simp
    | succ k =>
      rw [List.getElem?_cons_succ, List.eraseIdx_cons_succ, List.map_cons, List.map_cons,
        owned_cons, owned_cons, ← ih k, add_left_comm]

def Vars.owned (vars : Vars) : Multiset Nat := Objects.owned (vars.map Prod.snd)

@[simp]
theorem Vars.owned_cons (v : Slot × Holding) (vars : Vars) :
    Vars.owned (v :: vars) = v.2.owned + vars.owned :=
  Objects.owned_cons v.2 _

theorem Vars.owned_update (f : Option Holding → Holding) (vars : Vars) (x : Slot) :
    ((vars.update f x).1.getD {}).owned + (vars.update f x).2.owned =
      (f (vars.update f x).1).owned + vars.owned := by
  induction vars with
  | nil => simp [Vars.update, Vars.owned]
  | cons v vars ih =>
    rcases v with ⟨y, h⟩
    simp only [Vars.update]
    by_cases same : y = x
    · simp only [if_pos same, Vars.owned_cons, Option.getD_some]
      exact add_left_comm _ _ _
    · simp only [if_neg same, Vars.owned_cons]
      rw [add_left_comm, ih, add_left_comm]

/-! ## Accounts -/

def Call.owned (c : Call) : Multiset Nat :=
  c.vars.owned + Objects.owned (c.stack.map Operand.holding) + (c.result.getD {}).owned

@[simp]
theorem Call.owned_empty : Call.owned {} = 0 := rfl

namespace Store

def held (s : Store) : Multiset Nat :=
  s.frame.owned + (s.callers.map Call.owned).sum + owned (s.stored.map Element.holding)

def lost (s : Store) : Multiset Nat := (s.losses.map Loss.object : List Nat)

/-- The counts taken are those given back and those that belong to references, in flight
or not, and those that were lost.  A reference without a count that gives one back is
taken to have had it. -/
def Settled (flying : Multiset Nat) (s : Store) : Prop :=
  (s.ledger.acquire s.unowned).Balanced (flying + (s.held + s.lost))

end Store

/-- A later state with other counts in flight, and with as many calls under way. -/
structure Moves (F : Multiset Nat) (s : Store) (F' : Multiset Nat) (s' : Store) : Prop where
  callers : s'.callers.length = s.callers.length
  settled : s.Settled F → s'.Settled F'

/-- A later state of the same call. -/
abbrev Follows (s s' : Store) : Prop := Moves 0 s 0 s'

section Steps

variable {s s' s'' : Store} {F F' F'' : Multiset Nat} {h : Holding} {d i : Nat} {x : Slot}

theorem Moves.refl (F : Multiset Nat) (s : Store) : Moves F s F s := ⟨rfl, id⟩

theorem Moves.trans (first : Moves F s F' s') (second : Moves F' s' F'' s'') :
    Moves F s F'' s'' :=
  ⟨second.callers.trans first.callers, second.settled ∘ first.settled⟩

theorem Store.Settled.of_eq (settled : s.Settled F)
    (same : F' + (s'.held + s'.lost) = F + (s.held + s.lost))
    (ledger : s'.ledger = s.ledger) (unowned : s'.unowned = s.unowned) :
    s'.Settled F' := by
  unfold Store.Settled at *
  rw [ledger, unowned, same]
  exact settled

theorem Moves.of_eq (same : F' + (s'.held + s'.lost) = F + (s.held + s.lost))
    (callers : s'.callers.length = s.callers.length)
    (ledger : s'.ledger = s.ledger) (unowned : s'.unowned = s.unowned) :
    Moves F s F' s' where
  callers := callers
  settled settled := settled.of_eq same ledger unowned

/-! ## Operands -/

theorem moves_withFrame {c : Call} (same : F' + c.owned = F + s.frame.owned) :
    Moves F s F' { s with frame := c } := by
  refine .of_eq ?_ rfl rfl rfl
  change F' + (c.owned + (s.callers.map Call.owned).sum + owned (s.stored.map Element.holding) +
    s.lost) = F + (s.frame.owned + (s.callers.map Call.owned).sum +
      owned (s.stored.map Element.holding) + s.lost)
  simp only [← add_assoc, same]

theorem moves_lose (place : Place) (hs : List Holding) :
    Moves (owned hs + F) s F (s.lose place hs) := by
  have lost : (s.lose place hs).lost = owned hs + s.lost := by
    simp [Store.lose, Store.lost, owned, Function.comp_def]
  refine .of_eq ?_ rfl rfl rfl
  rw [lost]
  change F + (s.held + _) = _
  abel

theorem moves_loseOne (place : Place) (h : Holding) :
    Moves (h.owned + F) s F (s.lose place [h]) := by
  have moves := moves_lose (s := s) (F := F) place [h]
  rw [owned_cons, owned_nil, add_zero] at moves
  exact moves

theorem moves_push (v : Operand) : Moves (v.holding.owned + F) s F (s.push v) := by
  apply moves_withFrame
  simp only [Call.owned, List.map_cons, owned_cons]
  abel

theorem follows_push {v : Operand} (uncounted : v.holding.owned = 0) : Follows s (s.push v) := by
  have moves := moves_push (s := s) (F := 0) v
  rw [uncounted, zero_add] at moves
  exact moves

theorem owned_pop (vs : List Operand) :
    (vs.headD {}).holding.owned + owned (vs.tail.map Operand.holding) =
      owned (vs.map Operand.holding) := by
  cases vs <;> simp

theorem moves_pop (s : Store) : Moves F s (s.pop.1.holding.owned + F) s.pop.2 := by
  apply moves_withFrame
  simp only [Store.pop, Call.owned, ← owned_pop s.frame.stack]
  abel

theorem follows_drop (s : Store) (n : Nat) : Follows s (s.drop n) := by
  apply Moves.trans _ (moves_lose _ _)
  apply moves_withFrame
  simp only [Call.owned, ← owned_take_drop n s.frame.stack]
  abel

theorem follows_clear (s : Store) : Follows s s.clear := follows_drop s _

/-! ## Variables -/

theorem sum_modify {g : Call → Call} {a b : Multiset Nat} {c : Call} (cs : List Call) (d : Nat)
    (found : cs[d]? = some c) (same : a + (g c).owned = b + c.owned) :
    a + ((cs.modify d g).map Call.owned).sum = b + (cs.map Call.owned).sum := by
  induction cs generalizing d with
  | nil => simp at found
  | cons c' cs ih =>
    cases d with
    | zero =>
      obtain rfl : c' = c := by simpa using found
      simp only [List.modify_zero_cons, List.map_cons, List.sum_cons, ← add_assoc, same]
    | succ d =>
      simp only [List.modify_succ_cons, List.map_cons, List.sum_cons]
      rw [add_left_comm, ih d found, add_left_comm]

theorem moves_withVars {c : Call} {vars : Vars} (found : s.call? d = some c)
    (same : F' + vars.owned = F + c.vars.owned) : Moves F s F' (s.withVars d vars) := by
  cases d with
  | zero =>
    obtain rfl : s.frame = c := by simpa [Store.call?] using found
    apply moves_withFrame
    simp only [Call.owned, ← add_assoc, same]
  | succ d =>
    have sums := sum_modify (a := F') (b := F) (g := fun c => { c with vars := vars }) s.callers d
      (by simpa [Store.call?] using found)
      (by
        simp only [Call.owned, ← add_assoc]
        rw [same])
    refine .of_eq ?_ (by simp [Store.withVars]) rfl rfl
    · simp only [Store.withVars, Store.held]
      calc
        F' + (s.frame.owned + ((s.callers.modify d fun c => { c with vars := vars }).map
            Call.owned).sum + owned (s.stored.map Element.holding) + s.lost) =
            (F' + ((s.callers.modify d fun c => { c with vars := vars }).map Call.owned).sum) +
              (s.frame.owned + owned (s.stored.map Element.holding) + s.lost) := by abel
        _ = _ := by
          rw [sums]
          abel

theorem moves_setVar (s : Store) (d : Nat) (x : Slot) (h : Holding) :
    Moves (h.owned + F) s F (s.setVar d x h) := by
  unfold Store.setVar
  split
  · exact moves_loseOne .variable h
  · next c found =>
    have update := Vars.owned_update (fun _ => h) c.vars x
    rw [← owned_toList] at update
    apply (moves_withVars found _).trans (moves_lose _ _)
    rw [add_right_comm, update]
    abel

/-! ## Fields and containers -/

theorem moves_withStored {stored : List Element}
    (same : F' + owned (stored.map Element.holding) = F + owned (s.stored.map Element.holding)) :
    Moves F s F' { s with stored := stored } := by
  refine .of_eq ?_ rfl rfl rfl
  change F' + (s.frame.owned + (s.callers.map Call.owned).sum +
    owned (stored.map Element.holding) + s.lost) = F + (s.frame.owned +
      (s.callers.map Call.owned).sum + owned (s.stored.map Element.holding) + s.lost)
  calc
    F' + (s.frame.owned + (s.callers.map Call.owned).sum + owned (stored.map Element.holding) +
        s.lost) = (F' + owned (stored.map Element.holding)) +
          (s.frame.owned + (s.callers.map Call.owned).sum + s.lost) := by abel
    _ = _ := by
      rw [same]
      abel

theorem moves_store (owner : Option Nat) :
    Moves (h.owned + F) s F { s with stored := ⟨owner, h⟩ :: s.stored } := by
  apply moves_withStored
  rw [List.map_cons, owned_cons]
  abel

theorem moves_unstore (s : Store) (k : Nat) :
    Moves F s (((s.stored[k]?.map Element.holding).getD {}).owned + F)
      { s with stored := s.stored.eraseIdx k } := by
  apply moves_withStored
  rw [← owned_eraseIdx k s.stored]
  abel

theorem follows_forget (s : Store) (k : Nat) : Follows s (s.forget k) := by
  have taken := moves_unstore (F := 0) s k
  rw [← owned_toList] at taken
  exact taken.trans (moves_lose _ _)

theorem moves_free (s : Store) (i : Nat) : Moves F s F (s.free i) := by
  have parts := owned_filter (fun e => e.owner = some i) s.stored
  apply Moves.trans _ (moves_lose _ _)
  apply moves_withStored
  rw [← parts]
  simp only [decide_not]
  abel

/-! ## Counts -/

theorem Moves.acquire (refs : Multiset Nat) (ledger : s'.ledger = s.ledger.acquire refs)
    (unowned : s'.unowned = s.unowned) (held : s'.held = s.held)
    (lost : s'.lost = s.lost)
    (callers : s'.callers.length = s.callers.length) : Moves F s (refs + F) s' where
  callers := callers
  settled settled := by
    have taken := settled.acquire refs
    rw [Ledger.acquire_acquire, add_comm, ← Ledger.acquire_acquire, ← add_assoc] at taken
    unfold Store.Settled
    rw [ledger, unowned, held, lost]
    exact taken

theorem moves_make (s : Store) : Moves F s (s.make.1.owned + F) s.make.2 :=
  .acquire _ rfl rfl rfl rfl rfl

theorem moves_retain (s : Store) (h : Holding) :
    Moves (h.owned + F) s ((s.retain h).1.owned + F) (s.retain h).2 := by
  unfold Store.retain
  split
  · exact .refl _ s
  · next i isObject =>
    have taken : Moves (h.owned + F) s ({i} + (h.owned + F))
        { s with ledger := s.ledger.acquire {i} } := .acquire _ rfl rfl rfl rfl rfl
    rw [add_left_comm] at taken
    exact taken.trans (moves_loseOne .retained h)

theorem moves_maybeRetain (s : Store) (v : Operand) :
    Moves (v.holding.owned + F) s ((s.maybeRetain v).1.owned + F) (s.maybeRetain v).2 := by
  unfold Store.maybeRetain
  split
  · exact .refl _ s
  · exact moves_retain s v.holding

theorem moves_take (s : Store) (isRc : Bool) (v : Operand) :
    Moves (v.holding.owned + F) s ((s.take isRc v).1.owned + F) (s.take isRc v).2 := by
  cases isRc with
  | false => exact .refl _ s
  | true => exact moves_maybeRetain s v

theorem moves_giveBack (s : Store) (isObject : h.object = some i) :
    Moves (h.owned + F) s F (s.giveBack h i) where
  callers := rfl
  settled settled := by
    unfold Store.Settled Store.giveBack at *
    rw [Holding.owned_of_some isObject, add_assoc] at settled
    cases counted : h.counted with
    | true =>
      rw [if_pos counted] at settled
      exact settled.release
    | false =>
      -- a count that the reference does not have is taken before it is given back
      have taken := settled.acquire {i}
      rw [counted, if_neg Bool.false_ne_true, zero_add, Ledger.acquire_acquire] at taken
      exact taken.release

theorem moves_release (s : Store) (h : Holding) : Moves (h.owned + F) s F (s.release h) := by
  unfold Store.release
  split
  · next isPlain =>
    rw [Holding.owned_of_none isPlain, zero_add]
    exact .refl F s
  · next i isObject =>
    split
    · exact (moves_giveBack s isObject).trans (moves_free _ i)
    · exact moves_giveBack s isObject

theorem moves_releaseVar (s : Store) (d : Nat) (x : Slot) (nulls : Bool) :
    Moves F s F (s.releaseVar d x nulls) := by
  unfold Store.releaseVar
  split
  · exact .refl F s
  · next c found =>
    have update := Vars.owned_update
      (fun old => if nulls then {} else (old.getD {}).borrowed) c.vars x
    apply Moves.trans _ (moves_release _ _)
    apply moves_withVars found
    rw [add_right_comm, update]
    cases nulls <;> simp [add_comm]

/-! ## What the emitted code does -/

theorem follows_declare (s : Store) (x : Slot) (isRc : Bool) : Follows s (s.declare x isRc) :=
  ((moves_pop s).trans (moves_take _ isRc _)).trans (moves_setVar _ 0 x _)

theorem moves_withResult (s : Store) (h : Holding) : Moves (h.owned + F) s F (s.withResult h) := by
  apply Moves.trans _ (moves_lose _ _)
  apply moves_withFrame
  simp only [Call.owned, Option.getD_some, owned_toList]
  abel

theorem follows_setResult (s : Store) (isRc : Bool) : Follows s (s.setResult isRc) :=
  ((moves_pop s).trans (moves_take _ isRc _)).trans (moves_withResult _ _)

theorem follows_assign (s : Store) (d : Nat) (x : Slot) (isRc : Bool) :
    Follows s (s.assign d x isRc) := by
  have old : ∀ (t : Store) (G : Multiset Nat),
      Moves G t G (if isRc then t.releaseVar d x false else t) := by
    intro t G
    cases isRc with
    | false => exact .refl G t
    | true => exact moves_releaseVar t d x false
  have taken := ((moves_pop (F := 0) s).trans (old _ _)).trans (moves_take _ isRc _)
  exact (taken.trans (moves_setVar _ d x _)).trans (follows_push (Holding.owned_borrowed _))

theorem follows_store (s : Store) (how : Storing) (container : Nat) :
    Follows s (s.store how container) := by
  have popped := moves_pop (F := 0) s
  have stored : ∀ (t : Store) (h : Holding) (owner : Option Nat) (isCall : Bool),
      Moves (h.owned + 0) t 0
        ({ t with stored := ⟨owner, h⟩ :: t.stored }.push ⟨h.borrowed, isCall⟩) :=
    fun t h owner isCall => (moves_store owner).trans (follows_push (Holding.owned_borrowed h))
  cases how with
  | always => exact (popped.trans (moves_retain _ _)).trans (stored _ _ _ _)
  | unlessCall => exact (popped.trans (moves_maybeRetain _ _)).trans (stored _ _ _ _)
  | never => exact popped.trans (stored _ _ _ _)

theorem follows_runtime (s : Store) (args : Nat) (returned : Returned) (inTry : Bool) :
    Follows s (s.runtime args returned inTry) := by
  have dropped := follows_drop s args
  cases returned with
  | plain => exact dropped.trans (follows_push Holding.owned_plain)
  | fresh => exact (dropped.trans (moves_make _)).trans (moves_push ⟨_, !inTry⟩)
  | argument k =>
    have borrowed : Moves 0 (s.drop args) ((s.frame.stack[k]?.getD {}).holding.borrowed.owned + 0)
        (s.drop args) := by
      rw [Holding.owned_borrowed, zero_add]
      exact .refl 0 _
    exact ((dropped.trans borrowed).trans (moves_retain _ _)).trans (moves_push ⟨_, !inTry⟩)

/-! ## Calls -/

theorem owned_zip_borrowed (params : List Slot) (vs : List Operand) :
    Vars.owned (params.zip (vs.map fun v => v.holding.borrowed)) = 0 := by
  induction params generalizing vs with
  | nil => rfl
  | cons x params ih =>
    cases vs with
    | nil => rfl
    | cons v vs => simp [ih vs]

theorem settled_enter (s : Store) (params : List Slot) (args : Nat) (settled : s.Settled 0) :
    (s.enter params args).Settled 0 := by
  have dropped := (follows_drop s args).settled settled
  have held : (s.enter params args).held = (s.drop args).held := by
    simp only [Store.enter, Store.held, Call.owned, List.map_cons, List.sum_cons,
      owned_zip_borrowed]
    change 0 + 0 + 0 + _ + _ = _
    abel
  refine dropped.of_eq ?_ rfl rfl
  rw [held]
  rfl

theorem settled_quit (s : Store) (settled : s.Settled 0) :
    s.quit.Settled ((s.frame.result.getD {}).owned + 0) := by
  have callers : (s.callers.headD {}).owned + (s.callers.tail.map Call.owned).sum =
      (s.callers.map Call.owned).sum := by
    cases s.callers with
    | nil => rfl
    | cons c cs => simp
  apply (moves_lose .frame (s.frame.vars.map Prod.snd ++ s.frame.stack.map Operand.holding)).settled
  refine settled.of_eq ?_ rfl rfl
  unfold Store.held
  rw [callers, owned_append]
  unfold Call.owned Vars.owned
  abel

theorem settled_leave (s : Store) (returns inTry : Bool) (settled : s.Settled 0) :
    (s.leave returns inTry).Settled 0 := by
  have quit := settled_quit s settled
  unfold Store.leave
  split
  · next none =>
    rw [none] at quit
    exact quit
  · next h some =>
    rw [some] at quit
    split
    · exact (moves_push ⟨h, !inTry⟩).settled quit
    · exact (moves_loseOne .result h).settled quit

theorem callers_leave (s : Store) (returns inTry : Bool) :
    (s.leave returns inTry).callers = s.callers.tail := by
  unfold Store.leave
  split
  · rfl
  · split <;> rfl

theorem follows_leave {t : Store} {params : List Slot} {args : Nat}
    (run : Follows (s.enter params args) t) (returns inTry : Bool) :
    Follows s (t.leave returns inTry) where
  callers := by
    have depth : t.callers.length = s.callers.length + 1 := run.callers
    rw [callers_leave, List.length_tail, depth, Nat.add_sub_cancel]
  settled settled :=
    settled_leave t returns inTry (run.settled (settled_enter s params args settled))

section Acts

variable {invoke : String → Nat → Bool → Store → Answer × Store}

mutual

theorem Act.follows_run
    (returns : ∀ symbol args inTry s, Follows s (invoke symbol args inTry s).2) :
    ∀ (act : Act) (s : Store), Follows s (act.run invoke s).2
  | .plain, _ => follows_push Holding.owned_plain
  | .read _ _, _ => follows_push (Holding.owned_borrowed _)
  | .load _ _, _ => follows_push (Holding.owned_borrowed _)
  | .runtime args returned inTry, s => follows_runtime s args returned inTry
  | .call symbol args inTry, s => returns symbol args inTry s
  | .lambda params body, s =>
      follows_leave (follows_runActs returns body (s.enter params params.length)) _ false
  | .assign d x isRc, s => follows_assign s d x isRc
  | .bind x, s => (moves_pop s).trans (moves_setVar _ 0 x _)
  | .declare x isRc, s => follows_declare s x isRc
  | .release x nulls, s => moves_releaseVar s 0 x nulls
  | .result isRc, s => follows_setResult s isRc
  | .store how container, s => follows_store s how container
  | .forget k, s => follows_forget s k
  | .drop, s => follows_drop s 1
  | .deleteVar d x, s => moves_releaseVar s d x true
  | .deleteElement k, s => (moves_unstore s k).trans (moves_release _ _)
  | .deleteOperand, s => (moves_pop s).trans (moves_release _ _)
  | .stop _, s => .refl 0 s

theorem follows_runActs
    (returns : ∀ symbol args inTry s, Follows s (invoke symbol args inTry s).2) :
    ∀ (acts : List Act) (s : Store), Follows s (runActs invoke acts s).2
  | [], s => .refl 0 s
  | act :: acts, s => by
      have first := Act.follows_run returns act s
      simp only [runActs]
      split
      · next s' run =>
          rw [run] at first
          exact first.trans (follows_runActs returns acts s')
      · exact first

end

variable (returns : ∀ symbol args inTry s, Follows s (invoke symbol args inTry s).2)

include returns

theorem follows_runScript (s : Store) : Follows s (runScript invoke s).2 := by
  unfold runScript
  split
  · exact follows_clear s
  · next script rest _ =>
      have told : Follows s.clear { s.clear with scripts := rest } := .of_eq rfl rfl rfl rfl
      have run := ((follows_clear s).trans told).trans (follows_runActs returns script _)
      split
      · next s' ran =>
          rw [ran] at run
          exact run
      · next s' _ ran =>
          rw [ran] at run
          exact run.trans (follows_clear s')

variable (isRc : Slot → Bool) (returnsRc : Bool)

theorem follows_objectOp (o : Op) (s : Store) :
    Follows s (objectOp invoke isRc returnsRc o s).2 := by
  cases o with
  | eval | delete | loopElement | bindPayload => exact follows_runScript returns s
  | declare x => exact follows_declare s x (isRc x)
  | retainResult => exact follows_setResult s returnsRc
  | releaseStr x => exact moves_releaseVar s 0 x false
  | cleanup c =>
      cases c with
      | dtor => exact follows_runScript returns s
      | release x => exact moves_releaseVar s 0 x true
      | deferBody | call => exact .refl 0 s
  | loopInit | loopStep | bindCatch | beginCatch => exact .refl 0 s

end Acts

theorem follows_returned {params : List Slot} {args : Nat} {r : Outcome × Store} (inTry : Bool)
    (run : Follows (s.enter params args) r.2) : Follows s (returned inTry r).2 := by
  unfold returned
  cases r.1 with
  | normal | ret | br => exact follows_leave run true inTry
  | raise | escape | abort | timeout => exact follows_leave run false inTry

section Module

variable (m : Module) (nest : Nat) (globals : List Item) (N : Nat)

theorem follows_runFunction (depth : Nat) (symbol : String) (args : Nat) (inTry : Bool)
    (s : Store) : Follows s (runFunction m nest globals N depth symbol args inTry s).2 := by
  induction depth generalizing symbol args inTry s with
  | zero => exact .refl 0 s
  | succ depth ih =>
      unfold runFunction
      split
      · next f code _ _ =>
          have run : Follows (s.enter (paramSlots f) args) (code.run
              (objectWorld (runFunction m nest globals N depth)
                (fun x => decide (x ∈ countedVars code))
                (isRcType (m.ls.types.fromTypeExpr f.returnType)))
              (runScript (runFunction m nest globals N depth)) globals N
              (s.enter (paramSlots f) args)).2 := by
            apply FunctionCode.run_keeps (I := Follows (s.enter (paramSlots f) args))
            · exact fun o w before => before.trans (follows_objectOp ih _ _ o w)
            · exact fun c w before => before.trans (.of_eq rfl rfl rfl rfl)
            · exact fun w before => before.trans (follows_runScript ih w)
            · exact .refl 0 _
          exact follows_returned inTry run
      · exact .refl 0 s

end Module

end Steps

/-! ## Ways out of scopes -/

/-- No count belongs to what the variable holds. -/
def Store.Spent (s : Store) (x : Slot) : Prop := ((s.var 0 x).getD {}).counted = false

section Exits

variable {x y : Slot}

theorem Vars.lookup_update_self (f : Option Holding → Holding) (vars : Vars) (x : Slot) :
    (vars.update f x).2.lookup x = some (f (vars.update f x).1) := by
  induction vars with
  | nil => simp [Vars.update]
  | cons v vars ih =>
    rcases v with ⟨y, h⟩
    simp only [Vars.update]
    by_cases same : y = x
    · simp [same]
    · rw [if_neg same, List.lookup_cons, beq_eq_false_iff_ne.mpr (Ne.symm same)]
      exact ih

theorem Vars.lookup_update_ne (f : Option Holding → Holding) (vars : Vars) (other : y ≠ x) :
    (vars.update f x).2.lookup y = vars.lookup y := by
  induction vars with
  | nil => simp [Vars.update, List.lookup_cons, beq_eq_false_iff_ne.mpr other]
  | cons v vars ih =>
    rcases v with ⟨z, h⟩
    simp only [Vars.update]
    by_cases same : z = x
    · subst same
      simp [List.lookup_cons, beq_eq_false_iff_ne.mpr other]
    · simp only [if_neg same, List.lookup_cons, ih]

theorem frame_release (s : Store) (h : Holding) : (s.release h).frame = s.frame := by
  unfold Store.release
  split
  · rfl
  · split <;> rfl

theorem var_releaseVar (s : Store) (nulls : Bool) (y : Slot) :
    (s.releaseVar 0 x nulls).var 0 y =
      (s.frame.vars.update (fun old => if nulls then {} else (old.getD {}).borrowed) x).2.lookup y
        := by
  simp only [Store.releaseVar, Store.call?, List.getElem?_cons_zero, Store.var, frame_release]
  rfl

theorem spent_releaseVar (s : Store) (nulls : Bool) : (s.releaseVar 0 x nulls).Spent x := by
  unfold Store.Spent
  rw [var_releaseVar, Vars.lookup_update_self]
  cases nulls <;> rfl

theorem Store.Spent.releaseVar {s : Store} (spent : s.Spent y) (x : Slot) (nulls : Bool) :
    (s.releaseVar 0 x nulls).Spent y := by
  by_cases same : y = x
  · subst same
    exact spent_releaseVar s nulls
  · unfold Store.Spent at *
    rw [var_releaseVar, Vars.lookup_update_ne _ _ same]
    exact spent

/-- The variable that an instruction releases. -/
def releases : Instr → Option Slot
  | .op (.releaseStr x) => some x
  | .op (.cleanup (.release x _)) => some x
  | _ => none

variable {invoke : String → Nat → Bool → Store → Answer × Store} {isRc : Slot → Bool}
  {returnsRc : Bool} {N : Nat}

/-- Whether an instruction does nothing but release a variable. -/
def IsRelease (i : Instr) : Prop := (∃ m, i = .mark m) ∨ (releases i).isSome

theorem execInstr_releases {i : Instr} (only : IsRelease i) (s : State Store) :
    ∃ s', execInstr (objectWorld invoke isRc returnsRc) N i s = (.normal, s') ∧
      ∀ y, s.world.Spent y ∨ releases i = some y → s'.world.Spent y := by
  have step : ∀ (nulls : Bool) (x y : Slot), s.world.Spent y ∨ some x = some y →
      (s.world.releaseVar 0 x nulls).Spent y := by
    rintro nulls x y (spent | same)
    · exact spent.releaseVar x nulls
    · obtain rfl := Option.some.inj same
      exact spent_releaseVar _ nulls
  rcases only with ⟨m, rfl⟩ | isRelease
  · refine ⟨_, rfl, ?_⟩
    rintro y (spent | noRelease)
    · exact spent
    · cases noRelease
  · unfold releases at isRelease
    split at isRelease
    · exact ⟨_, rfl, step false _⟩
    · exact ⟨_, rfl, step true _⟩
    · cases isRelease

theorem exec_releases (is : List Instr) (only : ∀ i ∈ is, IsRelease i) (s : State Store) :
    ∃ s', exec (objectWorld invoke isRc returnsRc) N is s = (.normal, s') ∧
      ∀ y, s.world.Spent y ∨ (∃ i ∈ is, releases i = some y) → s'.world.Spent y := by
  induction is generalizing s with
  | nil =>
    refine ⟨s, rfl, ?_⟩
    rintro y (spent | ⟨i, mem, -⟩)
    · exact spent
    · cases mem
  | cons i is ih =>
    rcases execInstr_releases (only i List.mem_cons_self) s with ⟨s₁, first, spent₁⟩
    rcases ih (fun j mem => only j (List.mem_cons_of_mem i mem)) s₁ with ⟨s₂, rest, spent₂⟩
    constructor
    constructor
    · rw [exec, Dux.Logic.Run.seq, first]
      exact rest
    · rintro y (spent | ⟨j, mem, isRelease⟩)
      · exact spent₂ y (.inl (spent₁ y (.inl spent)))
      · rcases List.mem_cons.mp mem with rfl | mem
        · exact spent₂ y (.inl (spent₁ y (.inr isRelease)))
        · exact spent₂ y (.inr ⟨j, mem, isRelease⟩)

variable {D : List Stmt → Emitter}

/-- A clean-up that releases a list or dictionary. -/
def IsRcCleanup (c : ScopeCleanup) : Prop := ∃ x sym, c = .release x sym

/-- The code of such clean-ups. -/
def rcCleanups (cs : List ScopeCleanup) : List Instr :=
  cs.flatMap fun c => [.mark (.run c.entry), .op (.cleanup c)]

theorem emitScopeCleanups_rc {cs : List ScopeCleanup} (only : ∀ c ∈ cs, IsRcCleanup c) (ctx : Ctx) :
    emitScopeCleanups D cs ctx = some ⟨rcCleanups cs, ctx, true⟩ := by
  induction cs with
  | nil => rfl
  | cons c cs ih =>
    rcases only c List.mem_cons_self with ⟨x, sym, rfl⟩
    have rest := ih fun c mem => only c (List.mem_cons_of_mem _ mem)
    simp [emitScopeCleanups, emitScopeCleanup, Emitter.seq, Emitter.code, rest, rcCleanups]

theorem isRelease_of_mem_rcCleanups {cs : List ScopeCleanup} (only : ∀ c ∈ cs, IsRcCleanup c)
    {i : Instr} (mem : i ∈ rcCleanups cs) : IsRelease i := by
  rcases List.mem_flatMap.mp mem with ⟨c, isCleanup, isInstr⟩
  rcases only c isCleanup with ⟨x, sym, rfl⟩
  simp only [List.mem_cons, List.not_mem_nil, or_false] at isInstr
  rcases isInstr with rfl | rfl
  · exact .inl ⟨_, rfl⟩
  · exact .inr rfl

theorem isRelease_of_mem_releaseStrs {xs : List Slot} {i : Instr} (mem : i ∈ releaseStrs xs) :
    IsRelease i := by
  rcases List.mem_flatMap.mp mem with ⟨x, -, isInstr⟩
  simp only [List.mem_cons, List.not_mem_nil, or_false] at isInstr
  rcases isInstr with rfl | rfl
  · exact .inl ⟨_, rfl⟩
  · exact .inr rfl

/-- Where scopes hold nothing but strings, lists and dictionaries, the code of a return or
jump out of them goes on with no count in any of their variables. -/
theorem spent_emitAll {ctx : Ctx} {r : Emitted}
    (only : ∀ frame ∈ ctx.scopes, ∀ c ∈ frame.cleanups, IsRcCleanup c)
    (emitted : emitAll D ctx = some r) (s : State Store) :
    ∃ s', exec (objectWorld invoke isRc returnsRc) N r.code s = (.normal, s') ∧
      ∀ frame ∈ ctx.scopes, ∀ x,
        x ∈ frame.strs ∨ (∃ sym, .release x sym ∈ frame.cleanups) → s'.world.Spent x := by
  have only' : ∀ c ∈ ctx.scopes.flatMap (·.cleanups.reverse), IsRcCleanup c := by
    intro c mem
    rcases List.mem_flatMap.mp mem with ⟨frame, isScope, isCleanup⟩
    exact only frame isScope c (List.mem_reverse.mp isCleanup)
  simp only [emitAll, emitAllScopeCleanups, emitScopeCleanups_rc only', Option.bind_eq_bind,
    Option.bind_some, if_true, Option.pure_def, Option.some.injEq] at emitted
  subst emitted
  have releasing : ∀ i ∈ rcCleanups (ctx.scopes.flatMap (·.cleanups.reverse)) ++
      releaseStrs (ctx.scopes.flatMap (·.strs)) ++ [.mark .left], IsRelease i := by
    intro i mem
    simp only [List.mem_append, List.mem_singleton] at mem
    rcases mem with (mem | mem) | rfl
    · exact isRelease_of_mem_rcCleanups only' mem
    · exact isRelease_of_mem_releaseStrs mem
    · exact .inl ⟨_, rfl⟩
  rcases exec_releases _ releasing s with ⟨s', run, spent⟩
  refine ⟨s', run, fun frame isScope x registered => spent x (.inr ?_)⟩
  rcases registered with isStr | ⟨sym, isCleanup⟩
  · refine ⟨.op (.releaseStr x), ?_, rfl⟩
    have isReleased : x ∈ ctx.scopes.flatMap (·.strs) :=
      List.mem_flatMap.mpr ⟨frame, isScope, isStr⟩
    simp only [List.mem_append, releaseStrs, List.mem_flatMap]
    exact .inl (.inr ⟨x, List.mem_flatMap.mp isReleased, by simp⟩)
  · refine ⟨.op (.cleanup (.release x sym)), ?_, rfl⟩
    simp only [List.mem_append, rcCleanups, List.mem_flatMap]
    exact .inl (.inl ⟨_, ⟨frame, isScope, List.mem_reverse.mpr isCleanup⟩, by simp⟩)

/-- A block with a string in a block with a list. -/
def strInList (str list : Slot) : Ctx :=
  ⟨[{ strs := [str] }, { cleanups := [.release list "duxrt_list_release"] }], []⟩

theorem spent_strInList :
    let str : Slot := ⟨⟨2, 1⟩, "s"⟩
    let list : Slot := ⟨⟨1, 1⟩, "l"⟩
    let s : State Store := ⟨{ frame.vars := [(str, .fresh 0), (list, .fresh 1)] }, ⟨[], [], [], []⟩⟩
    ∃ r s', emitAll (fun _ => Emitter.fail) (strInList str list) = some r ∧
      exec (objectWorld (fun _ _ _ s => (.ok, s)) (fun _ => true) false) 0 r.code s =
        (.normal, s') ∧
      s'.world.Spent str ∧ s'.world.Spent list := by
  intro str list s
  have only : ∀ frame ∈ (strInList str list).scopes, ∀ c ∈ frame.cleanups, IsRcCleanup c := by
    simp [strInList, IsRcCleanup]
  obtain ⟨s', run, spent⟩ := spent_emitAll (D := fun _ => Emitter.fail) only rfl s
  exact ⟨_, s', rfl, run, spent _ (.head _) _ (.inl (.head _)),
    spent _ (.tail _ (.head _)) _ (.inr ⟨_, .head _⟩)⟩

end Exits

/-! ## Whole programs -/

theorem stored_of_mem_owned {s : Store} {i : Nat}
    (mem : i ∈ owned (s.stored.map Element.holding)) : s.Stored i := by
  simp only [owned, Multiset.mem_coe, List.mem_flatMap, List.mem_map] at mem
  rcases mem with ⟨_, ⟨e, isStored, rfl⟩, counted⟩
  unfold Holding.counts at counted
  split at counted
  · exact ⟨e, isStored, Option.mem_toList.mp counted⟩
  · cases counted

theorem count_lost_eq_zero {s : Store} {i : Nat} : s.lost.count i = 0 ↔ ¬ s.Lost i := by
  rw [Multiset.count_eq_zero]
  simp [Store.lost, Store.Lost]

theorem not_lost_of_nil {s : Store} {i : Nat} (none : s.losses = []) : ¬ s.Lost i := by
  rintro ⟨_, member, _⟩
  rw [none] at member
  cases member

theorem released_of_accounts {s : Store}
    (accounts : s.ledger.released + (owned (s.stored.map Element.holding) + s.lost) =
      s.unowned + s.ledger.acquired) (i : Nat) :
    (¬ s.Lost i → s.Released i ∨ s.Stored i) ∧
      (s.Lost i → i ∉ s.unowned → ¬ s.Released i) := by
  have ofObject := congrArg (Multiset.count i) accounts
  simp only [Multiset.count_add] at ofObject
  unfold Store.Released
  constructor
  · intro kept
    have none : s.lost.count i = 0 := count_lost_eq_zero.mpr kept
    by_cases holds : s.Stored i
    · exact .inr holds
    · left
      have free : (owned (s.stored.map Element.holding)).count i = 0 :=
        Multiset.count_eq_zero.mpr fun mem => holds (stored_of_mem_owned mem)
      omega
  · intro lost honest released
    have some : s.lost.count i ≠ 0 := fun none => count_lost_eq_zero.mp none lost
    have none : Multiset.count i s.unowned = 0 := Multiset.count_eq_zero.mpr honest
    omega

section Programs

variable (m : Module) (nest : Nat) (globals : List Item) (N depth : Nat)
  (scripts : List (List Act)) (choices : List Nat)

/-- When a program has ended, the counts taken are those given back, those that fields and
containers own, and those that were lost. -/
theorem settled_runMain :
    let s := (runMain m nest globals N depth scripts choices).2
    s.ledger.released + (owned (s.stored.map Element.holding) + s.lost) =
      s.unowned + s.ledger.acquired := by
  let start : Store := { scripts, choices }
  let t := (runFunction m nest globals N depth "main" 0 false start).2
  have run : Follows start t := follows_runFunction m nest globals N depth "main" 0 false start
  have settled : (t.leave false false).Settled 0 := settled_leave t false false (run.settled rfl)
  have none : t.callers = [] := List.eq_nil_of_length_eq_zero run.callers
  have held : (t.leave false false).held =
      owned ((t.leave false false).stored.map Element.holding) := by
    have frame : (t.leave false false).frame = {} := by
      unfold Store.leave
      split <;> simp [Store.quit, Store.lose, none]
    rw [Store.held, callers_leave, none, frame]
    simp
  unfold Store.Settled at settled
  rw [held, zero_add] at settled
  exact settled

end Programs

def greeting (e : Expr) : Program where
  decls :=
    [.func
      { loc := ⟨1, 1⟩, returnType := { name := "void" }, name := "main", params := []
        body := some [.varDecl ⟨2, 1⟩ { name := "str" } false false [.mk "greeting" (some e)]] }]
  stmts := []

def greetingScripts (prog : Program) : List (List Act) :=
  match prog.decls with
  | [.func { body := some [.varDecl _ _ _ _ [.mk _ (some e)]], .. }] =>
      [genValue ⟨fun _ => [], fun _ => 0⟩ e]
  | _ => []

/-- The sum of two strings. -/
def plus (left right : Expr) : Expr := .binary (-1) .add left right

def text (s : String) : Expr := .stringLit (-1) s

end Dux.Codegen.Objects
