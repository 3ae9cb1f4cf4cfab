import Dux.Runtime.DictMap

/-!
# The growth of a dictionary

`duxrt_dict_set` doubles a table when the keys and the counted tombstones fill three quarters of it
(`src/runtime/dict.c`).  A tombstone is counted when a key is deleted, and not discounted when
`dict_insert_raw` writes over it.
-/

namespace Dux.Runtime

open Probing

/-- Whether a place holds a tombstone. -/
def DuxDictEntry.isTombstone (e : DuxDictEntry) : Bool := e.key = .tombstone

namespace DuxDict

def tombstones (d : DuxDict) : Nat := d.entries.countP DuxDictEntry.isTombstone

def CounterRight (d : DuxDict) : Prop := d.tomb = d.tombstones

/-- The next key that is set makes the table grow. -/
def Full (d : DuxDict) : Prop := d.cap * DICT_LOAD_NUM ≤ (d.len + d.tomb) * DICT_LOAD_DEN

instance instDecidableFull (d : DuxDict) : Decidable d.Full := inferInstanceAs (Decidable (_ ≤ _))

/-- The key is not in the table, and a tombstone stands before the first empty place of its
probe sequence. -/
def MeetsTombstone (d : DuxDict) (key : CString) : Prop :=
  (∀ p < d.cap, d.slot p ≠ .live key) ∧
    ∃ i < d.cap, d.slot (probe d.cap (home key) i) = .tombstone ∧
      ∀ j < i, d.slot (probe d.cap (home key) j) ≠ .empty

end DuxDict

/-- A call that writes over a tombstone. -/
def DictCall.Reuses (d : DuxDict) (c : DictCall) : Prop :=
  ∃ key val, c = .set key val ∧ ¬d.Full ∧ d.MeetsTombstone key

/-- A call that makes the table grow. -/
def DictCall.Grows (d : DuxDict) (c : DictCall) : Prop := ∃ key val, c = .set key val ∧ d.Full

/-- A call that writes over no tombstone, and that makes the table grow only when it has fewer
than three times as many places as keys. -/
def DictCall.Spares (d : DuxDict) (c : DictCall) : Prop :=
  ¬c.Reuses d ∧ (c.Grows d → d.cap < 3 * max d.len 16)

/-- What holds in every state of a run. -/
def AllStates (Q : DuxDict → Prop) : DuxDict → List DictCall → Prop
  | d, [] => Q d
  | d, c :: cs => Q d ∧ ∀ d' reply, c.exec d = some (d', reply) → AllStates Q d' cs

theorem AllStates.last {Q : DuxDict → Prop} {d d' : DuxDict} {cs : List DictCall}
    {replies : List DictReply} (all : AllStates Q d cs)
    (returns : execCalls d cs = some (d', replies)) : Q d' := by
  induction cs generalizing d replies with
  | nil =>
    cases returns
    exact all
  | cons c cs ih =>
    rcases Option.bind_eq_some_iff.mp returns with ⟨⟨d₁, reply⟩, first, rest⟩
    rcases Option.bind_eq_some_iff.mp rest with ⟨⟨d₂, others⟩, later, ⟨⟩⟩
    exact ih (all.2 d₁ reply first) later

/-- What holds of every call of a run in the state before it. -/
def AllCalls (P : DuxDict → DictCall → Prop) : DuxDict → List DictCall → Prop
  | _, [] => True
  | d, c :: cs => P d c ∧ ∀ d' reply, c.exec d = some (d', reply) → AllCalls P d' cs

/-- In every state the counter is right, and the capacity is below a multiple of the keys that
there are at most. -/
def Proportional (multiple : Nat) (cs : List DictCall) : Prop :=
  AllStates DuxDict.CounterRight duxrtDictNew cs ∧
    ∀ n, AllStates (fun d => d.len ≤ n) duxrtDictNew cs →
      AllStates (fun d => d.cap < multiple * max n 16) duxrtDictNew cs

/-! ## Places of tombstones -/

section Probing

variable {κ : Type*} [DecidableEq κ] {n h s : Nat} {slot : Nat → Slot κ} {key : κ}

theorem insertPlace_tombstone_iff (fuel : Nat) {i : Nat} {tomb : Option Nat} {q : Nat}
    {known : Bool} (steps : i ≤ s) (ends : EndsAt n h slot key s)
    (isEmpty : slot (probe n h s) = .empty) (isTomb : ∀ t ∈ tomb, slot t = .tombstone)
    (place : insertPlace n slot key fuel (probe n h i) tomb = some (q, known)) :
    slot q = .tombstone ↔
      tomb.isSome ∨ ∃ j, i ≤ j ∧ j < s ∧ slot (probe n h j) = .tombstone := by
  induction fuel generalizing i tomb with
  | zero => cases place
  | succ fuel ih =>
    rw [insertPlace] at place
    rcases Nat.eq_or_lt_of_le steps with rfl | less
    · rw [isEmpty] at place
      cases place
      cases tomb with
      | none =>
        refine iff_of_false ?_ ?_
        · rw [Option.getD_none, isEmpty]
          intro same
          cases same
        · rintro (isSome | ⟨j, low, high, -⟩)
          · cases isSome
          · omega
      | some t => exact iff_of_true (isTomb t rfl) (.inl rfl)
    · have passes := ends.before i less
      cases found : slot (probe n h i) with
      | empty => exact absurd found passes.1
      | tombstone =>
        rw [found] at place
        have isTombstone : ∀ t ∈ some (tomb.getD (probe n h i)), slot t = .tombstone := by
          rintro t ⟨⟩
          cases tomb with
          | none => exact found
          | some t => exact isTomb t rfl
        rw [← probe_succ] at place
        have next := ih less isTombstone place
        rw [next]
        exact iff_of_true (.inl rfl) (.inr ⟨i, Nat.le_refl i, less, found⟩)
      | live k =>
        rw [found] at place
        dsimp only at place
        rw [if_neg fun same => passes.2 (by rw [found, same]), ← probe_succ] at place
        rw [ih less isTomb place]
        refine or_congr_right ⟨?_, ?_⟩
        · rintro ⟨j, low, high, isTombstone⟩
          exact ⟨j, Nat.le_of_succ_le low, high, isTombstone⟩
        · rintro ⟨j, low, high, isTombstone⟩
          refine ⟨j, Nat.lt_of_le_of_ne low ?_, high, isTombstone⟩
          rintro rfl
          rw [found] at isTombstone
          cases isTombstone

end Probing

/-! ## The counter -/

section Counter

variable {d d' : DuxDict} {m : DictMap} {key : CString} {val : Ptr}

theorem DuxDictEntry.isTombstone_iff {e : DuxDictEntry} : e.isTombstone ↔ e.slot = .tombstone := by
  cases isKey : e.key <;> simp [isTombstone, slot, isKey]

theorem DuxDict.tombstones_setEntry {p : Nat} (bound : p < d.entries.length) (e : DuxDictEntry) :
    (d.setEntry p e).tombstones + (if (d.entryAt p).isTombstone then 1 else 0) =
      d.tombstones + (if e.isTombstone then 1 else 0) :=
  countP_setEntry DuxDictEntry.isTombstone bound e

theorem dictInsertRaw_noTombstones {h : UInt64} (none : d.tombstones = 0)
    (returns : dictInsertRaw d key h val = some d') : d'.tombstones = 0 := by
  rw [DuxDict.tombstones, List.countP_eq_zero] at none ⊢
  have blank : ¬({} : DuxDictEntry).isTombstone := by decide
  have notAt : ∀ p, ¬(d.entryAt p).isTombstone := by
    intro p
    rw [DuxDict.entryAt, List.getD_eq_getElem?_getD]
    cases atP : d.entries[p]? with
    | none => exact blank
    | some e => exact none e (List.mem_of_getElem? atP)
  rcases Option.bind_eq_some_iff.mp returns with ⟨⟨q, known⟩, -, written⟩
  cases known with
  | true =>
    cases written
    intro e member
    rcases List.mem_or_eq_of_mem_set member with old | rfl
    · exact none e old
    · exact notAt q
  | false =>
    cases written
    intro e member
    rcases List.mem_or_eq_of_mem_set member with old | rfl
    · exact none e old
    · simp [DuxDictEntry.isTombstone]

theorem rehash_noTombstones (es : List DuxDictEntry) (none : d.tombstones = 0)
    (returns : rehash es d = some d') : d'.tombstones = 0 := by
  induction es generalizing d with
  | nil =>
    cases returns
    exact none
  | cons e es ih =>
    rw [rehash] at returns
    cases isKey : e.key with
    | null =>
      rw [isKey] at returns
      exact ih none returns
    | tombstone =>
      rw [isKey] at returns
      exact ih none returns
    | str s =>
      rw [isKey] at returns
      rcases Option.bind_eq_some_iff.mp returns with ⟨d₁, inserted, rest⟩
      exact ih (dictInsertRaw_noTombstones none inserted) rest

theorem dictGrow_noTombstones (returns : dictGrow d = some d') : d'.tombstones = 0 := by
  apply rehash_noTombstones d.entries ?_ returns
  rw [DuxDict.tombstones, List.countP_eq_zero]
  intro e member
  rw [List.eq_of_mem_replicate member]
  decide

theorem DuxDict.Refines.tombstones_dictInsertRaw (refines : d.Refines m)
    (returns : Runtime.dictInsertRaw d key (hashStr key) val = some d') :
    (d.MeetsTombstone key → d'.tombstones + 1 = d.tombstones) ∧
      (¬d.MeetsTombstone key → d'.tombstones = d.tombstones) := by
  have inv := refines.inv
  have walk := inv.insertLoop_eq key d.cap (d.start (hashStr key)) none
  rw [inv.start_eq] at walk
  rw [Runtime.dictInsertRaw, inv.start_eq, walk] at returns
  cases found : m.lookup key with
  | some old =>
    rcases refines.exists_place found with ⟨p, hp, live, -⟩
    rw [inv.table.insertPlace_live hp live] at returns
    cases returns
    have bound : p < d.entries.length := by rw [inv.length]; exact hp
    have same := tombstones_setEntry bound { d.entryAt p with val := val }
    refine ⟨fun meets => absurd live (meets.1 p hp), fun _ => ?_⟩
    exact Nat.add_right_cancel same
  | none =>
    have absent := refines.no_place found
    rcases inv.table.insertPlace_absent absent with ⟨q, place, free⟩
    rcases inv.table.endsAt_empty absent with ⟨s, ends, isEmpty⟩
    have noTomb : ∀ t ∈ (none : Option Nat), d.slot t = .tombstone := by simp
    have takes := insertPlace_tombstone_iff d.cap s.zero_le ends isEmpty noTomb place
    rw [place] at returns
    cases returns
    have hq : q < d.cap := by
      rcases free.onTheWay with ⟨i, -, rfl, -⟩
      exact probe_lt (Nat.zero_lt_of_lt ends.bound) _ _
    have bound : q < d.entries.length := by rw [inv.length]; exact hq
    have counted := tombstones_setEntry bound (newEntry key val)
    have isNew : (newEntry key val).isTombstone = false := rfl
    have meets : d.MeetsTombstone key ↔ (d.entryAt q).isTombstone := by
      rw [DuxDictEntry.isTombstone_iff]
      refine Iff.trans ⟨?_, ?_⟩ takes.symm
      · rintro ⟨-, i, hi, isTomb, noEmpty⟩
        have early : i < s := by
          by_contra late
          rcases Nat.lt_or_eq_of_le (Nat.le_of_not_lt late) with after | here
          · exact noEmpty s after isEmpty
          · rw [← here, isEmpty] at isTomb
            cases isTomb
        exact .inr ⟨i, i.zero_le, early, isTomb⟩
      · rintro (isSome | ⟨i, -, early, isTomb⟩)
        · cases isSome
        · exact ⟨absent, i, early.trans ends.bound, isTomb,
            fun j less => (ends.before j (less.trans early)).1⟩
    rw [isNew] at counted
    rw [meets]
    constructor
    · intro isTomb
      rw [if_pos isTomb] at counted
      exact counted
    · intro notTomb
      rw [if_neg notTomb] at counted
      exact counted

theorem dictInsertRaw_counters {h : UInt64} (returns : dictInsertRaw d key h val = some d') :
    d'.cap = d.cap ∧ d'.tomb = d.tomb := by
  rcases Option.bind_eq_some_iff.mp returns with ⟨⟨q, known⟩, -, written⟩
  cases known <;> cases written <;> exact ⟨rfl, rfl⟩

theorem duxrtDictSet_eq (d : DuxDict) (key : CString) (val : Ptr) :
    duxrtDictSet d (some key) val =
      (if d.Full then dictGrow d else some d).bind
        fun d₁ => dictInsertRaw d₁ key (hashStr key) val := by
  by_cases full : d.Full
  · rw [if_pos full]
    exact if_pos full
  · rw [if_neg full]
    exact if_neg full

/-- Setting a key keeps the counter right, unless a tombstone is written over. -/
theorem DuxDict.Refines.counterRight_duxrtDictSet (refines : d.Refines m)
    (right : d.CounterRight) (returns : Runtime.duxrtDictSet d (some key) val = some d') :
    d'.CounterRight ↔ ¬(DictCall.set key val).Reuses d := by
  rw [duxrtDictSet_eq] at returns
  rcases Option.bind_eq_some_iff.mp returns with ⟨d₁, room, inserted⟩
  have counters := dictInsertRaw_counters inserted
  by_cases full : d.Full
  · have grown : Runtime.dictGrow d = some d₁ := by rwa [if_pos full] at room
    have none := dictInsertRaw_noTombstones (dictGrow_noTombstones grown) inserted
    rcases refines.dictGrow with ⟨d₂, grown₂, -, -, noTomb⟩
    obtain rfl : d₁ = d₂ := Option.some.inj (grown.symm.trans grown₂)
    refine iff_of_true ?_ ?_
    · rw [CounterRight, counters.2, noTomb, none]
    · rintro ⟨_, _, -, notFull, -⟩
      exact notFull full
  · rw [if_neg full] at room
    cases room
    have takes := refines.tombstones_dictInsertRaw inserted
    rw [CounterRight, counters.2, right]
    by_cases meets : d.MeetsTombstone key
    · have fewer := takes.1 meets
      refine iff_of_false (by omega) ?_
      exact not_not_intro ⟨key, val, rfl, full, meets⟩
    · refine iff_of_true (takes.2 meets).symm ?_
      rintro ⟨_, _, ⟨⟩, -, meets'⟩
      exact meets meets'

theorem DuxDict.Refines.counterRight_duxrtDictDel (refines : d.Refines m)
    (right : d.CounterRight) (returns : Runtime.duxrtDictDel d (some key) = some d') :
    d'.CounterRight := by
  rcases Option.bind_eq_some_iff.mp returns with ⟨place, search, buried⟩
  cases found : m.lookup key with
  | some val =>
    rcases refines.findKey_some found with ⟨p, hp, atP, live, -⟩
    rw [atP] at search
    cases search
    cases buried
    have bound : p < d.entries.length := by rw [refines.inv.length]; exact hp
    have counted := tombstones_setEntry bound { key := .tombstone, hash := 0, val := .null }
    have before : (d.entryAt p).isTombstone = false := by
      rw [slot_eq_live] at live
      simp [DuxDictEntry.isTombstone, live]
    have after : ({ key := .tombstone, hash := 0, val := .null } : DuxDictEntry).isTombstone =
        true := rfl
    rw [before, after] at counted
    calc d.tomb + 1 = d.tombstones + 1 := by rw [right]
      _ = _ := counted.symm
  | none =>
    rw [refines.findKey_none found] at search
    cases search
    cases buried
    exact right

theorem DictCall.exec_counter (refines : d.Refines m) (right : d.CounterRight) {c : DictCall}
    {reply : DictReply} (returns : c.exec d = some (d', reply)) :
    d'.CounterRight ↔ ¬c.Reuses d := by
  have noSet : (∀ key val, c ≠ .set key val) → ¬c.Reuses d := by
    rintro other ⟨key, val, isSet, -⟩
    exact other key val isSet
  cases c with
  | set key val =>
    rcases Option.bind_eq_some_iff.mp returns with ⟨d₁, sets, ⟨⟩⟩
    exact refines.counterRight_duxrtDictSet right sets
  | del key =>
    rcases Option.bind_eq_some_iff.mp returns with ⟨d₁, dels, ⟨⟩⟩
    exact iff_of_true (refines.counterRight_duxrtDictDel right dels) (noSet (by simp))
  | get key =>
    rcases Option.bind_eq_some_iff.mp returns with ⟨p, -, ⟨⟩⟩
    exact iff_of_true right (noSet (by simp))
  | has key =>
    rcases Option.bind_eq_some_iff.mp returns with ⟨n, -, ⟨⟩⟩
    exact iff_of_true right (noSet (by simp))
  | len =>
    cases returns
    exact iff_of_true right (noSet (by simp))

/-- The counter is right all along a run exactly when no call writes over a tombstone. -/
theorem allStates_counterRight (cs : List DictCall) (refines : d.Refines m)
    (right : d.CounterRight) :
    AllStates DuxDict.CounterRight d cs ↔ AllCalls (fun d c => ¬c.Reuses d) d cs := by
  induction cs generalizing d m with
  | nil => exact iff_of_true right trivial
  | cons c cs ih =>
    rcases c.exec_refines refines with ⟨d₁, first, refines₁⟩
    have counter := c.exec_counter refines right first
    simp only [AllStates, AllCalls]
    constructor
    · rintro ⟨-, rest⟩
      have after := rest _ _ first
      have right₁ : d₁.CounterRight := by
        cases cs with
        | nil => exact after
        | cons => exact after.1
      refine ⟨counter.mp right₁, ?_⟩
      intro d' reply returns
      rw [first] at returns
      cases returns
      exact (ih refines₁ right₁).mp after
    · rintro ⟨noReuse, rest⟩
      have right₁ := counter.mpr noReuse
      refine ⟨right, ?_⟩
      intro d' reply returns
      have after := rest _ _ returns
      rw [first] at returns
      cases returns
      exact (ih refines₁ right₁).mpr after

end Counter

/-! ## The capacity -/

section Capacity

variable {d d' : DuxDict} {m : DictMap}

theorem DictCall.exec_cap (refines : d.Refines m) {c : DictCall} {reply : DictReply}
    (returns : c.exec d = some (d', reply)) :
    (c.Grows d ∧ d'.cap = d.cap * 2) ∨ (¬c.Grows d ∧ d'.cap = d.cap) := by
  have noSet : (∀ key val, c ≠ .set key val) → ¬c.Grows d := by
    rintro other ⟨key, val, isSet, -⟩
    exact other key val isSet
  cases c with
  | set key val =>
    rcases Option.bind_eq_some_iff.mp returns with ⟨d₁, sets, ⟨⟩⟩
    rw [duxrtDictSet_eq] at sets
    rcases Option.bind_eq_some_iff.mp sets with ⟨d₂, room, inserted⟩
    have sameCap := (dictInsertRaw_counters inserted).1
    by_cases full : d.Full
    · rw [if_pos full] at room
      rcases refines.dictGrow with ⟨d₃, grown, -, doubled, -⟩
      obtain rfl : d₂ = d₃ := Option.some.inj (room.symm.trans grown)
      exact .inl ⟨⟨key, val, rfl, full⟩, sameCap.trans doubled⟩
    · rw [if_neg full] at room
      cases room
      refine .inr ⟨?_, sameCap⟩
      rintro ⟨_, _, -, isFull⟩
      exact full isFull
  | del key =>
    rcases Option.bind_eq_some_iff.mp returns with ⟨d₁, dels, ⟨⟩⟩
    rcases Option.bind_eq_some_iff.mp dels with ⟨place, -, buried⟩
    refine .inr ⟨noSet (by simp), ?_⟩
    cases place <;> cases buried <;> rfl
  | get key =>
    rcases Option.bind_eq_some_iff.mp returns with ⟨p, -, ⟨⟩⟩
    exact .inr ⟨noSet (by simp), rfl⟩
  | has key =>
    rcases Option.bind_eq_some_iff.mp returns with ⟨n, -, ⟨⟩⟩
    exact .inr ⟨noSet (by simp), rfl⟩
  | len =>
    cases returns
    exact .inr ⟨noSet (by simp), rfl⟩

theorem AllCalls.mono {P Q : DuxDict → DictCall → Prop} (weaker : ∀ d c, P d c → Q d c)
    {d : DuxDict} {cs : List DictCall} (all : AllCalls P d cs) : AllCalls Q d cs := by
  induction cs generalizing d with
  | nil => trivial
  | cons c cs ih => exact ⟨weaker d c all.1, fun d' reply returns => ih (all.2 d' reply returns)⟩

/-- A run whose tables grow only below three times their keys keeps the capacity below six
times the keys that there are at most. -/
theorem allStates_cap (cs : List DictCall) {n : Nat} (refines : d.Refines m)
    (small : d.cap < 6 * max n 16)
    (sparing : AllCalls (fun d c => c.Grows d → d.cap < 3 * max d.len 16) d cs)
    (bounded : AllStates (fun d => d.len ≤ n) d cs) :
    AllStates (fun d => d.cap < 6 * max n 16) d cs := by
  induction cs generalizing d m with
  | nil => exact small
  | cons c cs ih =>
    rcases c.exec_refines refines with ⟨d₁, first, refines₁⟩
    have small₁ : d₁.cap < 6 * max n 16 := by
      rcases c.exec_cap refines first with ⟨grows, doubled⟩ | ⟨-, same⟩
      · have spared := sparing.1 grows
        have fewer : d.len ≤ n := bounded.1
        omega
      · rwa [same]
    refine ⟨small, ?_⟩
    intro d' reply returns
    have rest := sparing.2 _ _ returns
    have fewer := bounded.2 _ _ returns
    rw [first] at returns
    cases returns
    exact ih refines₁ small₁ rest fewer

theorem counterRight_duxrtDictNew : duxrtDictNew.CounterRight := by
  rw [DuxDict.CounterRight, DuxDict.tombstones]
  exact (List.countP_eq_zero.mpr fun e member => by
    rw [List.eq_of_mem_replicate member]
    decide).symm

end Capacity

/-! ## One key that is set and deleted -/

section Churn

variable {d : DuxDict} {m : DictMap} {key : CString} {val : Ptr}

/-- Rounds that set a key and delete it. -/
def churn (key : CString) (val : Ptr) : Nat → List DictCall
  | 0 => []
  | rounds + 1 => .set key val :: .del key :: churn key val rounds

theorem DuxDict.Refines.tomb_duxrtDictDel {d' : DuxDict} (refines : d.Refines m)
    (found : m.lookup key = some val) (returns : Runtime.duxrtDictDel d (some key) = some d') :
    d'.tomb = d.tomb + 1 := by
  rcases Option.bind_eq_some_iff.mp returns with ⟨place, search, buried⟩
  rcases refines.findKey_some found with ⟨p, -, atP, -, -⟩
  rw [atP] at search
  cases search
  cases buried
  rfl

theorem exec_churn (refines : d.Refines ∅) (key : CString) (val : Ptr) :
    ∃ d₁ d₂, (DictCall.set key val).exec d = some (d₁, .done) ∧
      (DictCall.del key).exec d₁ = some (d₂, .done) ∧ d₁.len = 1 ∧ d₂.Refines ∅ ∧
      (d₂.cap = d.cap * 2 ∨ d₂.cap = d.cap ∧ d₂.tomb = d.tomb + 1) := by
  rcases (DictCall.set key val).exec_refines refines with ⟨d₁, sets, refines₁⟩
  rcases (DictCall.del key).exec_refines refines₁ with ⟨d₂, dels, refines₂⟩
  have found : ((∅ : DictMap).insert key val).lookup key = some val := Finmap.lookup_insert _
  have single : ((∅ : DictMap).insert key val).keys = {key} := by
    ext k
    simp [Finmap.mem_keys, Finmap.mem_insert, Finmap.notMem_empty]
  have gone : ((∅ : DictMap).insert key val).erase key = ∅ := by
    apply Finmap.ext_lookup
    intro k
    by_cases same : k = key
    · rw [same, Finmap.lookup_erase, Finmap.lookup_empty]
    · rw [Finmap.lookup_erase_ne same, Finmap.lookup_insert_of_ne _ same]
  have one : d₁.len = 1 := by
    rw [refines₁.len]
    exact congrArg Finset.card single |>.trans (Finset.card_singleton key)
  have empty : d₂.Refines ∅ := gone ▸ refines₂
  refine ⟨d₁, d₂, sets, dels, one, empty, ?_⟩
  have keeps : d₂.cap = d₁.cap := by
    rcases (DictCall.del key).exec_cap refines₁ dels with ⟨⟨_, _, ⟨⟩, -⟩, -⟩ | ⟨-, same⟩
    exact same
  have counts : d₂.tomb = d₁.tomb + 1 := by
    rcases Option.bind_eq_some_iff.mp dels with ⟨d₃, buried, ⟨⟩⟩
    exact refines₁.tomb_duxrtDictDel found buried
  rcases (DictCall.set key val).exec_cap refines sets with ⟨-, doubled⟩ | ⟨noGrowth, same⟩
  · exact .inl (keeps.trans doubled)
  · have notFull : ¬d.Full := fun full => noGrowth ⟨key, val, rfl, full⟩
    rcases Option.bind_eq_some_iff.mp sets with ⟨d₃, inserted, ⟨⟩⟩
    rw [duxrtDictSet_eq, if_neg notFull] at inserted
    have sameTomb := (dictInsertRaw_counters inserted).2
    exact .inr ⟨keeps.trans same, by rw [counts, sameTomb]⟩

theorem allStates_churn_len (rounds : Nat) (refines : d.Refines ∅) :
    AllStates (fun d => d.len ≤ 1) d (churn key val rounds) := by
  have noKey : d.len ≤ 1 := by
    rw [refines.len]
    exact Nat.zero_le 1
  induction rounds generalizing d with
  | zero => exact noKey
  | succ rounds ih =>
    rcases exec_churn refines key val with ⟨d₁, d₂, sets, dels, one, refines₂, -⟩
    refine ⟨noKey, fun d' reply returns => ?_⟩
    rw [sets] at returns
    cases returns
    refine ⟨one.le, fun d' reply returns => ?_⟩
    rw [dels] at returns
    cases returns
    apply ih refines₂
    rw [refines₂.len]
    exact Nat.zero_le 1

/-- Enough rounds pass any bound: each doubles the capacity or fills the table further. -/
theorem not_forall_churn_cap (bound : Nat) (d : DuxDict) (refines : d.Refines ∅) :
    ¬∀ rounds, AllStates (fun d => d.cap < bound) d (churn key val rounds) := by
  intro all
  rcases exec_churn refines key val with ⟨d₁, d₂, sets, dels, -, refines₂, grows⟩
  have below : d.cap < bound := all 0
  have positive : 16 ≤ d.cap := refines.inv.atLeast
  have load := refines₂.inv.load
  have rest : ∀ rounds, AllStates (fun d => d.cap < bound) d₂ (churn key val rounds) :=
    fun rounds => ((all (rounds + 1)).2 d₁ _ sets).2 d₂ _ dels
  exact not_forall_churn_cap bound d₂ refines₂ rest
termination_by (bound - d.cap, d.cap - d.tomb)
decreasing_by
  rcases grows with doubled | ⟨same, more⟩
  · exact Prod.Lex.left _ _ (by omega)
  · rw [same]
    exact Prod.Lex.right _ (by omega)

end Churn

end Dux.Runtime
