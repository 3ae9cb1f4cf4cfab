import Dux.Logic.Probing
import Dux.Runtime.Dict
import Mathlib.Data.Finmap

/-!
# Dictionaries are finite maps

Every sequence of calls on a new dictionary returns what the same calls on a
finite map return.  The table is an instance of linear probing with the cached
hashes of the keys as their homes.
-/

namespace Dux.Runtime

open Probing

/-- The abstract dictionary. -/
abbrev DictMap := Finmap fun _ : CString => Ptr

def DictCall.spec (m : DictMap) : DictCall → DictMap × DictReply
  | .set key val => (m.insert key val, .done)
  | .get key => (m, .ptr ((m.lookup key).getD .null))
  | .has key => (m, .int (if key ∈ m then 1 else 0))
  | .del key => (m.erase key, .done)
  | .len => (m, .int m.keys.card)

def specCalls (m : DictMap) : List DictCall → DictMap × List DictReply
  | [] => (m, [])
  | c :: cs =>
      let (m, r) := c.spec m
      let (m, rs) := specCalls m cs
      (m, r :: rs)

/-! ## The table behind a dictionary -/

/-- An entry as a place of a probing table. -/
def DuxDictEntry.slot (e : DuxDictEntry) : Slot CString :=
  match e.key with
  | .null => .empty
  | .tombstone => .tombstone
  | .str s => .live s

/-- The places of a dictionary. -/
def DuxDict.slot (d : DuxDict) (idx : Nat) : Slot CString := (d.entryAt idx).slot

def home (key : CString) : Nat := (hashStr key).toNat

/-- Whether a place has been used. -/
def DuxDictEntry.used (e : DuxDictEntry) : Bool := e.key ≠ .null

/-- The invariant of a dictionary.  A tombstone that is used again stays counted
in `tomb`, so the counters only bound the number of used places. -/
structure DuxDict.Inv (d : DuxDict) : Prop where
  capacity : ∃ j, d.cap = 2 ^ j
  atLeast : DICT_INIT_CAP ≤ d.cap
  length : d.entries.length = d.cap
  hashed : ∀ idx key, (d.entryAt idx).key = .str key → (d.entryAt idx).hash = hashStr key
  table : WellFormed d.cap home d.slot
  occupied : d.entries.countP DuxDictEntry.used ≤ d.len + d.tomb
  load : d.len + d.tomb < d.cap

/-- The dictionary stands for a finite map. -/
structure DuxDict.Refines (d : DuxDict) (m : DictMap) : Prop where
  inv : d.Inv
  lookup : ∀ key val, m.lookup key = some val ↔
    ∃ idx < d.cap, (d.entryAt idx).key = .str key ∧ (d.entryAt idx).val = val
  len : d.len = m.keys.card

section Entries

variable {d : DuxDict} {idx : Nat}

@[simp]
theorem DuxDictEntry.slot_eq_empty {e : DuxDictEntry} : e.slot = .empty ↔ e.key = .null := by
  cases h : e.key <;> simp [slot, h]

@[simp]
theorem DuxDictEntry.slot_eq_live {e : DuxDictEntry} {key : CString} :
    e.slot = .live key ↔ e.key = .str key := by
  cases h : e.key <;> simp [slot, h]

@[simp]
theorem DuxDict.slot_eq_empty : d.slot idx = .empty ↔ (d.entryAt idx).key = .null :=
  DuxDictEntry.slot_eq_empty

@[simp]
theorem DuxDict.slot_eq_live {key : CString} :
    d.slot idx = .live key ↔ (d.entryAt idx).key = .str key :=
  DuxDictEntry.slot_eq_live

theorem DuxDict.entryAt_setEntry (bound : idx < d.entries.length) (e : DuxDictEntry) (i : Nat) :
    (d.setEntry idx e).entryAt i = if i = idx then e else d.entryAt i := by
  by_cases same : i = idx
  · subst same
    simp [entryAt, setEntry, List.getD_eq_getElem?_getD, bound]
  · have differs : idx ≠ i := fun h => same h.symm
    simp [entryAt, setEntry, List.getD_eq_getElem?_getD, same, differs]

theorem DuxDict.slot_setEntry (bound : idx < d.entries.length) (e : DuxDictEntry) :
    (d.setEntry idx e).slot = Function.update d.slot idx e.slot := by
  funext i
  by_cases same : i = idx
  · subst same
    simp [slot, entryAt_setEntry bound]
  · simp [slot, entryAt_setEntry bound, same]

theorem DuxDict.countP_setEntry (P : DuxDictEntry → Bool) (bound : idx < d.entries.length)
    (e : DuxDictEntry) :
    (d.setEntry idx e).entries.countP P + (if P (d.entryAt idx) then 1 else 0) =
      d.entries.countP P + (if P e then 1 else 0) := by
  have atIdx : d.entryAt idx = d.entries[idx] := by
    simp [entryAt, List.getD_eq_getElem?_getD, bound]
  have some : P d.entries[idx] = true → 0 < d.entries.countP P := fun here =>
    List.countP_pos_iff.mpr ⟨_, List.getElem_mem bound, here⟩
  rw [atIdx, setEntry, List.countP_set bound]
  by_cases here : P d.entries[idx] = true
  · have := some here
    simp only [here, if_true]
    omega
  · simp [here]

theorem DuxDict.exists_empty (length : d.entries.length = d.cap)
    (load : d.entries.countP DuxDictEntry.used < d.cap) : ∃ p < d.cap, d.slot p = .empty := by
  have someUnused : ¬ ∀ e ∈ d.entries, e.used = true := by
    rw [← List.countP_eq_length]
    omega
  push Not at someUnused
  rcases someUnused with ⟨e, member, unused⟩
  rcases List.getElem_of_mem member with ⟨p, hp, atP⟩
  refine ⟨p, length ▸ hp, ?_⟩
  have isNull : e.key = .null := by simpa [DuxDictEntry.used] using unused
  simp [entryAt, List.getD_eq_getElem?_getD, hp, atP, isNull]

end Entries

/-! ## The loops are searches -/

section Loops

variable {d : DuxDict} (inv : d.Inv)

include inv

theorem DuxDict.Inv.next_eq (idx : Nat) : d.next idx = (idx + 1) % d.cap := by
  rcases inv.capacity with ⟨j, cap⟩
  simp [next, cap, Nat.and_two_pow_sub_one_eq_mod]

theorem DuxDict.Inv.iterate_next (h : UInt64) (steps : Nat) :
    d.next^[steps] (d.start h) = probe d.cap h.toNat steps := by
  induction steps with
  | zero =>
      rcases inv.capacity with ⟨j, cap⟩
      simp [start, probe, cap, Nat.and_two_pow_sub_one_eq_mod]
  | succ steps ih => rw [Function.iterate_succ_apply', ih, inv.next_eq, probe_succ]

theorem DuxDict.Inv.start_eq (key : CString) :
    d.start (hashStr key) = probe d.cap (home key) 0 :=
  inv.iterate_next (hashStr key) 0

theorem DuxDict.Inv.matches_iff {idx : Nat} {s key : CString}
    (isStr : (d.entryAt idx).key = .str s) :
    ((d.entryAt idx).hash = hashStr key ∧ s = key) ↔ s = key := by
  constructor
  · exact And.right
  · rintro rfl
    exact ⟨inv.hashed idx s isStr, rfl⟩

theorem DuxDict.Inv.findLoop_eq (key : CString) (fuel idx : Nat) :
    findLoop d key (hashStr key) fuel idx = search d.cap d.slot key fuel idx := by
  induction fuel generalizing idx with
  | zero => rfl
  | succ fuel ih =>
      cases isKey : (d.entryAt idx).key with
      | null => simp [findLoop, search, slot, DuxDictEntry.slot, isKey]
      | tombstone => simp [findLoop, search, slot, DuxDictEntry.slot, isKey, ih, inv.next_eq]
      | str s =>
          simp [findLoop, search, slot, DuxDictEntry.slot, isKey, ih, inv.next_eq,
            inv.matches_iff isKey]

theorem DuxDict.Inv.insertLoop_eq (key : CString) (fuel idx : Nat) (tomb : Option Nat) :
    insertLoop d key (hashStr key) fuel idx tomb =
      insertPlace d.cap d.slot key fuel idx tomb := by
  induction fuel generalizing idx tomb with
  | zero => rfl
  | succ fuel ih =>
      cases isKey : (d.entryAt idx).key with
      | null => simp [insertLoop, insertPlace, slot, DuxDictEntry.slot, isKey]
      | tombstone =>
          simp [insertLoop, insertPlace, slot, DuxDictEntry.slot, isKey, ih, inv.next_eq]
      | str s =>
          simp [insertLoop, insertPlace, slot, DuxDictEntry.slot, isKey, ih, inv.next_eq,
            inv.matches_iff isKey]

theorem DuxDict.Inv.findKey_eq (key : CString) :
    findKey d key = search d.cap d.slot key d.cap (probe d.cap (home key) 0) := by
  rw [findKey, inv.findLoop_eq, inv.start_eq]

end Loops

/-! ## The operations on maps -/

section Operations

variable {d : DuxDict} {m : DictMap} {key : CString} {val : Ptr}

theorem DuxDict.Refines.exists_place (refines : d.Refines m) (found : m.lookup key = some val) :
    ∃ p < d.cap, d.slot p = .live key ∧ (d.entryAt p).val = val := by
  rcases (refines.lookup key val).mp found with ⟨p, hp, isKey, isVal⟩
  exact ⟨p, hp, by simp [isKey], isVal⟩

theorem DuxDict.Refines.no_place (refines : d.Refines m) (absent : m.lookup key = none) :
    ∀ p < d.cap, d.slot p ≠ .live key := by
  intro p hp live
  have found := (refines.lookup key (d.entryAt p).val).mpr ⟨p, hp, by simpa using live, rfl⟩
  simp [absent] at found

theorem DuxDict.Refines.findKey_some (refines : d.Refines m) (found : m.lookup key = some val) :
    ∃ p < d.cap, findKey d key = some (some p) ∧ d.slot p = .live key ∧
      (d.entryAt p).val = val := by
  rcases refines.exists_place found with ⟨p, hp, live, isVal⟩
  have place : findKey d key = some (some p) := by
    rw [refines.inv.findKey_eq, refines.inv.table.search_live hp live]
  exact ⟨p, hp, place, live, isVal⟩

theorem DuxDict.Refines.findKey_none (refines : d.Refines m) (absent : m.lookup key = none) :
    findKey d key = some none := by
  rw [refines.inv.findKey_eq, refines.inv.table.search_absent (refines.no_place absent)]

theorem DuxDict.Inv.place_unique (inv : d.Inv) {p q : Nat} (hp : p < d.cap) (hq : q < d.cap)
    (atP : (d.entryAt p).key = .str key) (atQ : (d.entryAt q).key = .str key) : p = q :=
  inv.table.unique p hp q hq key (by simp [atP]) (by simp [atQ])

theorem DuxDict.Refines.lookup_write (refines : d.Refines m) {p : Nat} (hp : p < d.cap)
    {e : DuxDictEntry} (isKey : e.key = .str key) (isVal : e.val = val)
    (hereOnly : ∀ i < d.cap, (d.entryAt i).key = .str key → i = p)
    (noOther : ∀ k, (d.entryAt p).key = .str k → k = key) (k : CString) (v : Ptr) :
    (m.insert key val).lookup k = some v ↔
      ∃ i < d.cap, ((d.setEntry p e).entryAt i).key = .str k ∧
        ((d.setEntry p e).entryAt i).val = v := by
  have bound : p < d.entries.length := by rw [refines.inv.length]; exact hp
  by_cases sameKey : k = key
  · subst sameKey
    rw [Finmap.lookup_insert]
    constructor
    · intro found
      exact ⟨p, hp, by simpa [entryAt_setEntry bound, isKey, isVal] using found⟩
    · rintro ⟨i, hi, atI, hasVal⟩
      by_cases same : i = p
      · simpa [entryAt_setEntry bound, same, isVal] using hasVal
      · rw [entryAt_setEntry bound, if_neg same] at atI
        exact absurd (hereOnly i hi atI) same
  · rw [Finmap.lookup_insert_of_ne _ sameKey, refines.lookup]
    constructor
    · rintro ⟨i, hi, atI, hasVal⟩
      have away : i ≠ p := by
        rintro rfl
        exact sameKey (noOther k atI)
      exact ⟨i, hi, by simpa [entryAt_setEntry bound, away] using ⟨atI, hasVal⟩⟩
    · rintro ⟨i, hi, atI, hasVal⟩
      by_cases same : i = p
      · simp [entryAt_setEntry bound, same, isKey] at atI
        exact absurd atI.symm sameKey
      · rw [entryAt_setEntry bound, if_neg same] at atI hasVal
        exact ⟨i, hi, atI, hasVal⟩

theorem DuxDict.Refines.update (refines : d.Refines m) {p : Nat} (hp : p < d.cap)
    (live : d.slot p = .live key) (val : Ptr) :
    (d.setEntry p { d.entryAt p with val := val }).Refines (m.insert key val) := by
  have inv := refines.inv
  have bound : p < d.entries.length := by rw [inv.length]; exact hp
  have isKey : (d.entryAt p).key = .str key := by simpa using live
  have sameSlots : (d.setEntry p { d.entryAt p with val := val }).slot = d.slot := by
    rw [slot_setEntry bound]
    exact Function.update_eq_self p d.slot
  constructor
  · constructor
    · exact inv.capacity
    · exact inv.atLeast
    · simp [setEntry, inv.length]
    · intro i k
      rw [entryAt_setEntry bound]
      by_cases same : i = p
      · subst same
        simpa using inv.hashed i k
      · simpa [same] using inv.hashed i k
    · rw [sameSlots]
      exact inv.table
    · have counted := countP_setEntry DuxDictEntry.used bound { d.entryAt p with val := val }
      have occupied := inv.occupied
      have before : (d.entryAt p).used = true := by simp [DuxDictEntry.used, isKey]
      have after : { d.entryAt p with val := val }.used = true := by
        simp [DuxDictEntry.used, isKey]
      simp only [before, after, if_true] at counted
      simp only [setEntry] at counted ⊢
      omega
    · exact inv.load
  · exact refines.lookup_write hp (by simp [isKey]) rfl
      (fun i hi atI => inv.place_unique hi hp atI isKey)
      (fun k atP => by simpa [isKey] using atP.symm)
  · have present : key ∈ m :=
      Finmap.mem_of_lookup_eq_some ((refines.lookup key _).mpr ⟨p, hp, isKey, rfl⟩)
    have sameKeys : (m.insert key val).keys = m.keys := by
      ext k
      simp only [Finmap.mem_keys, Finmap.mem_insert]
      constructor
      · rintro (rfl | member)
        · exact present
        · exact member
      · exact Or.inr
    rw [sameKeys]
    exact refines.len

/-- The entry that `dict_insert_raw` writes for a new key. -/
def newEntry (key : CString) (val : Ptr) : DuxDictEntry :=
  { key := .str key, hash := hashStr key, val := val }

theorem DuxDict.Refines.add (refines : d.Refines m) (absent : m.lookup key = none) {q : Nat}
    (free : Free d.cap (home key) d.slot q) (small : d.len + d.tomb + 1 < d.cap) (val : Ptr) :
    { d.setEntry q (newEntry key val) with len := d.len + 1 }.Refines (m.insert key val) := by
  have inv := refines.inv
  have positive : 0 < d.cap := by omega
  have hq : q < d.cap := by
    rcases free.onTheWay with ⟨i, _, rfl, _⟩
    exact probe_lt positive _ _
  have bound : q < d.entries.length := by rw [inv.length]; exact hq
  have notHere : ∀ k, (d.entryAt q).key ≠ .str k := fun k atQ =>
    free.notLive k (by simp [atQ])
  have counted := countP_setEntry DuxDictEntry.used bound (newEntry key val)
  have occupied := inv.occupied
  have isUsed : (newEntry key val).used = true := by simp [newEntry, DuxDictEntry.used]
  simp only [isUsed, if_true] at counted
  constructor
  · constructor
    · exact inv.capacity
    · exact inv.atLeast
    · simp [setEntry, inv.length]
    · intro i k
      change ((d.setEntry q _).entryAt i).key = _ → ((d.setEntry q _).entryAt i).hash = _
      rw [entryAt_setEntry bound]
      by_cases same : i = q
      · simp only [same, if_true, newEntry, EntryKey.str.injEq]
        rintro rfl
        rfl
      · simpa [same] using inv.hashed i k
    · have someEmpty := exists_empty (d := d.setEntry q (newEntry key val))
        (by simp [setEntry, inv.length]) (by simp only [setEntry] at counted ⊢; omega)
      have room : ∃ p < d.cap, p ≠ q ∧ d.slot p = .empty := by
        rcases someEmpty with ⟨p, hp, isEmpty⟩
        rw [slot_setEntry bound] at isEmpty
        have differs : p ≠ q := by
          rintro rfl
          simp [newEntry] at isEmpty
        exact ⟨p, hp, differs, by rwa [Function.update_of_ne differs] at isEmpty⟩
      have filled := inv.table.fill (refines.no_place absent) free room
      have isLive : (newEntry key val).slot = .live key := by simp [newEntry]
      rw [← isLive, ← slot_setEntry bound] at filled
      exact filled
    · simp only [setEntry] at counted ⊢
      omega
    · simp only [setEntry]
      omega
  · exact refines.lookup_write hq rfl rfl
      (fun i hi atI => absurd (by simp [atI]) (refines.no_place absent i hi))
      (fun k atQ => absurd atQ (notHere k))
  · have notMember : key ∉ m.keys := by
      rw [Finmap.mem_keys]
      exact Finmap.lookup_eq_none.mp absent
    have grown : (m.insert key val).keys = insert key m.keys := by
      ext k
      simp [Finmap.mem_keys, Finmap.mem_insert]
    rw [grown, Finset.card_insert_of_notMem notMember, ← refines.len]

theorem DuxDict.Refines.dictInsertRaw (refines : d.Refines m) (key : CString) (val : Ptr)
    (small : d.len + d.tomb + 1 < d.cap) :
    ∃ d', dictInsertRaw d key (hashStr key) val = some d' ∧ d'.Refines (m.insert key val) ∧
      d'.cap = d.cap ∧ d'.tomb = d.tomb ∧ d'.len ≤ d.len + 1 := by
  have inv := refines.inv
  have walk := inv.insertLoop_eq key d.cap (d.start (hashStr key)) none
  rw [inv.start_eq] at walk
  cases found : m.lookup key with
  | some old =>
      rcases refines.exists_place found with ⟨p, hp, live, _⟩
      rw [inv.table.insertPlace_live hp live] at walk
      refine ⟨d.setEntry p { d.entryAt p with val := val }, ?_, refines.update hp live val, rfl,
        rfl, Nat.le_succ _⟩
      simp [Runtime.dictInsertRaw, inv.start_eq, walk]
  | none =>
      rcases inv.table.insertPlace_absent (refines.no_place found) with ⟨q, place, free⟩
      rw [place] at walk
      refine ⟨{ d.setEntry q (newEntry key val) with len := d.len + 1 }, ?_,
        refines.add found free small val, rfl, rfl, Nat.le_refl _⟩
      simp [Runtime.dictInsertRaw, inv.start_eq, walk, newEntry]

theorem DuxDict.Refines.bury (refines : d.Refines m) {p : Nat} (hp : p < d.cap)
    (live : d.slot p = .live key) :
    { d.setEntry p { key := .tombstone, hash := 0, val := .null } with
      len := d.len - 1, tomb := d.tomb + 1 }.Refines (m.erase key) := by
  have inv := refines.inv
  have bound : p < d.entries.length := by rw [inv.length]; exact hp
  have isKey : (d.entryAt p).key = .str key := by simpa using live
  have member : key ∈ m.keys := by
    rw [Finmap.mem_keys]
    exact Finmap.mem_of_lookup_eq_some ((refines.lookup key _).mpr ⟨p, hp, isKey, rfl⟩)
  have counts : 0 < d.len := by
    rw [refines.len]
    exact Finset.card_pos.mpr ⟨key, member⟩
  have counted := countP_setEntry DuxDictEntry.used bound
    { key := .tombstone, hash := 0, val := .null }
  have occupied := inv.occupied
  have load := inv.load
  constructor
  · constructor
    · exact inv.capacity
    · exact inv.atLeast
    · simp [setEntry, inv.length]
    · intro i k
      change ((d.setEntry p _).entryAt i).key = _ → ((d.setEntry p _).entryAt i).hash = _
      rw [entryAt_setEntry bound]
      by_cases same : i = p
      · simp [same]
      · simpa [same] using inv.hashed i k
    · have buried := inv.table.bury live
      have slots := slot_setEntry bound { key := .tombstone, hash := 0, val := .null }
      simp only [DuxDictEntry.slot] at slots
      rw [← slots] at buried
      exact buried
    · have before : (d.entryAt p).used = true := by simp [DuxDictEntry.used, isKey]
      have after : ({ key := .tombstone, hash := 0, val := .null } : DuxDictEntry).used = true := by
        simp [DuxDictEntry.used]
      simp only [before, after, if_true] at counted
      simp only [setEntry] at counted ⊢
      omega
    · simp only [setEntry]
      omega
  · intro k v
    change _ ↔ ∃ i < d.cap, ((d.setEntry p _).entryAt i).key = _ ∧
      ((d.setEntry p _).entryAt i).val = _
    by_cases sameKey : k = key
    · subst sameKey
      rw [Finmap.lookup_erase]
      constructor
      · simp
      · rintro ⟨i, hi, atI, _⟩
        by_cases same : i = p
        · simp [entryAt_setEntry bound, same] at atI
        · rw [entryAt_setEntry bound, if_neg same] at atI
          exact absurd (inv.place_unique hi hp atI isKey) same
    · rw [Finmap.lookup_erase_ne sameKey, refines.lookup]
      constructor
      · rintro ⟨i, hi, atI, isVal⟩
        have away : i ≠ p := by
          rintro rfl
          rw [isKey] at atI
          exact sameKey (by simpa using atI.symm)
        exact ⟨i, hi, by simpa [entryAt_setEntry bound, away] using ⟨atI, isVal⟩⟩
      · rintro ⟨i, hi, atI, isVal⟩
        by_cases same : i = p
        · simp [entryAt_setEntry bound, same] at atI
        · rw [entryAt_setEntry bound, if_neg same] at atI isVal
          exact ⟨i, hi, atI, isVal⟩
  · rw [Finmap.keys_erase, Finset.card_erase_of_mem member, ← refines.len]

end Operations

/-! ## Rehashing -/

section Growth

/-- A table without entries. -/
def blank (cap : Nat) : DuxDict :=
  { len := 0, cap := cap, tomb := 0, entries := List.replicate cap {} }

theorem refines_blank (cap : Nat) {j : Nat} (power : cap = 2 ^ j)
    (atLeast : DICT_INIT_CAP ≤ cap) :
    (blank cap).Refines ∅ := by
  have noEntry : ∀ i, (blank cap).entryAt i = {} := by
    intro i
    simp only [blank, DuxDict.entryAt, List.getD_eq_getElem?_getD, List.getElem?_replicate]
    split <;> rfl
  have positive : 0 < cap := Nat.lt_of_lt_of_le (by decide) atLeast
  constructor
  · constructor
    · exact ⟨j, power⟩
    · exact atLeast
    · simp [blank]
    · simp [noEntry]
    · exact .blank positive fun p => by simp [noEntry]
    · simp [blank, List.countP_replicate, DuxDictEntry.used]
    · exact positive
  · simp [noEntry]
  · simp [blank]

/-- The live entries of a list, added to a map. -/
def addEntries (m : DictMap) : List DuxDictEntry → DictMap
  | [] => m
  | e :: es =>
      match e.key with
      | .str s => addEntries (m.insert s e.val) es
      | .null => addEntries m es
      | .tombstone => addEntries m es

/-- The keys of a list of entries are distinct. -/
def DistinctKeys (es : List DuxDictEntry) : Prop :=
  es.Pairwise fun a b => ∀ key, a.key = .str key → b.key ≠ .str key

theorem lookup_addEntries (es : List DuxDictEntry) (m : DictMap) (distinct : DistinctKeys es)
    (fresh : ∀ e ∈ es, ∀ key, e.key = .str key → m.lookup key = none)
    (key : CString) (val : Ptr) :
    (addEntries m es).lookup key = some val ↔
      m.lookup key = some val ∨ ∃ e ∈ es, e.key = .str key ∧ e.val = val := by
  induction es generalizing m with
  | nil => simp [addEntries]
  | cons e es ih =>
      rcases List.pairwise_cons.mp distinct with ⟨first, rest⟩
      have freshRest : ∀ e' ∈ es, ∀ k, e'.key = .str k → m.lookup k = none :=
        fun e' member => fresh e' (List.mem_cons_of_mem e member)
      cases isKey : e.key with
      | null => simp [addEntries, isKey, ih m rest freshRest]
      | tombstone => simp [addEntries, isKey, ih m rest freshRest]
      | str s =>
          have freshHere : m.lookup s = none := fresh e List.mem_cons_self s isKey
          have freshAfter : ∀ e' ∈ es, ∀ k, e'.key = .str k →
              (m.insert s e.val).lookup k = none := by
            intro e' member k atK
            have differs : k ≠ s := by
              rintro rfl
              exact first e' member k isKey atK
            rw [Finmap.lookup_insert_of_ne _ differs]
            exact freshRest e' member k atK
          simp only [addEntries, isKey, ih _ rest freshAfter]
          by_cases same : key = s
          · subst same
            have notLater : ¬ ∃ e' ∈ es, e'.key = .str key ∧ e'.val = val := by
              rintro ⟨e', member, atK, _⟩
              exact first e' member key isKey atK
            simp [Finmap.lookup_insert, freshHere, notLater, isKey]
          · have differs : s ≠ key := fun h => same h.symm
            simp [Finmap.lookup_insert_of_ne _ same, isKey, differs]

theorem rehash_refines (es : List DuxDictEntry) {d : DuxDict} {m : DictMap}
    (refines : d.Refines m)
    (hashed : ∀ e ∈ es, ∀ key, e.key = .str key → e.hash = hashStr key)
    (small : d.len + d.tomb + es.length < d.cap) :
    ∃ d', rehash es d = some d' ∧ d'.Refines (addEntries m es) ∧ d'.cap = d.cap ∧
      d'.tomb = d.tomb := by
  induction es generalizing d m with
  | nil => exact ⟨d, rfl, refines, rfl, rfl⟩
  | cons e es ih =>
      have hashedRest : ∀ e' ∈ es, ∀ key, e'.key = .str key → e'.hash = hashStr key :=
        fun e' member => hashed e' (List.mem_cons_of_mem e member)
      simp only [List.length_cons] at small
      cases isKey : e.key with
      | null =>
          rcases ih refines hashedRest (by omega) with ⟨d', returns, refines', cap, tomb⟩
          exact ⟨d', by simpa [rehash, isKey] using returns,
            by simpa [addEntries, isKey] using refines', cap, tomb⟩
      | tombstone =>
          rcases ih refines hashedRest (by omega) with ⟨d', returns, refines', cap, tomb⟩
          exact ⟨d', by simpa [rehash, isKey] using returns,
            by simpa [addEntries, isKey] using refines', cap, tomb⟩
      | str s =>
          rcases refines.dictInsertRaw s e.val (by omega) with
            ⟨d₁, inserted, refines₁, cap₁, tomb₁, len₁⟩
          rcases ih refines₁ hashedRest (by omega) with ⟨d', returns, refines', cap, tomb⟩
          have isHash : e.hash = hashStr s := hashed e List.mem_cons_self s isKey
          exact ⟨d', by simpa [rehash, isKey, isHash, inserted] using returns,
            by simpa [addEntries, isKey] using refines', cap.trans cap₁, tomb.trans tomb₁⟩

variable {d : DuxDict} {m : DictMap}

theorem DuxDict.mem_entries_iff (length : d.entries.length = d.cap) (e : DuxDictEntry) :
    e ∈ d.entries ↔ ∃ idx < d.cap, d.entryAt idx = e := by
  rw [List.mem_iff_getElem, ← length]
  constructor
  · rintro ⟨idx, hi, atIdx⟩
    exact ⟨idx, hi, by simp [entryAt, List.getD_eq_getElem?_getD, hi, atIdx]⟩
  · rintro ⟨idx, hi, atIdx⟩
    exact ⟨idx, hi, by simpa [entryAt, List.getD_eq_getElem?_getD, hi] using atIdx⟩

theorem DuxDict.Inv.distinctKeys (inv : d.Inv) : DistinctKeys d.entries := by
  refine List.pairwise_iff_getElem.mpr fun i j hi hj less key atI atJ => ?_
  have entry : ∀ k (hk : k < d.entries.length), d.entryAt k = d.entries[k] := fun k hk => by
    simp [entryAt, List.getD_eq_getElem?_getD, hk]
  have same : i = j := inv.place_unique (by rw [← inv.length]; exact hi)
    (by rw [← inv.length]; exact hj) (by rw [entry i hi, atI]) (by rw [entry j hj, atJ])
  omega

theorem DuxDict.Refines.dictGrow (refines : d.Refines m) :
    ∃ d', dictGrow d = some d' ∧ d'.Refines m ∧ d'.cap = d.cap * 2 ∧ d'.tomb = 0 := by
  have inv := refines.inv
  rcases inv.capacity with ⟨j, power⟩
  have atLeast : 16 ≤ d.cap := inv.atLeast
  have blankRefines : (blank (d.cap * 2)).Refines ∅ :=
    refines_blank (d.cap * 2) (j := j + 1) (by rw [power, Nat.pow_succ])
      (inv.atLeast.trans (by omega))
  have hashed : ∀ e ∈ d.entries, ∀ key, e.key = .str key → e.hash = hashStr key := by
    intro e member key isKey
    rcases (mem_entries_iff inv.length e).mp member with ⟨idx, _, rfl⟩
    exact inv.hashed idx key isKey
  have length := inv.length
  rcases rehash_refines d.entries blankRefines hashed (by simp only [blank]; omega) with
    ⟨d', returns, refines', cap, tomb⟩
  have sameMap : addEntries ∅ d.entries = m := by
    apply Finmap.ext_lookup
    intro key
    apply Option.ext
    intro val
    rw [lookup_addEntries d.entries ∅ inv.distinctKeys (by simp), refines.lookup]
    constructor
    · rintro (inEmpty | ⟨e, member, isKey, isVal⟩)
      · simp at inEmpty
      · rcases (mem_entries_iff inv.length e).mp member with ⟨idx, hi, rfl⟩
        exact ⟨idx, hi, isKey, isVal⟩
    · rintro ⟨idx, hi, isKey, isVal⟩
      exact Or.inr ⟨_, (mem_entries_iff inv.length _).mpr ⟨idx, hi, rfl⟩, isKey, isVal⟩
  rw [sameMap] at refines'
  exact ⟨d', returns, refines', cap, tomb⟩

end Growth

/-! ## Calls -/

section Calls

variable {d : DuxDict} {m : DictMap}

theorem DuxDict.Refines.duxrtDictSet (refines : d.Refines m) (key : CString) (val : Ptr) :
    ∃ d', duxrtDictSet d (some key) val = some d' ∧ d'.Refines (m.insert key val) := by
  have atLeast : 16 ≤ d.cap := refines.inv.atLeast
  have load := refines.inv.load
  by_cases full : d.cap * 3 ≤ (d.len + d.tomb) * 4
  · rcases refines.dictGrow with ⟨d₁, grown, refines₁, cap, tomb⟩
    have sameLen : d₁.len = d.len := by rw [refines₁.len, refines.len]
    rcases refines₁.dictInsertRaw key val (by omega) with ⟨d', inserted, refines', _⟩
    exact ⟨d', by simp [Runtime.duxrtDictSet, full, grown, inserted], refines'⟩
  · rcases refines.dictInsertRaw key val (by omega) with ⟨d', inserted, refines', _⟩
    exact ⟨d', by simp [Runtime.duxrtDictSet, full, inserted], refines'⟩

theorem DuxDict.Refines.duxrtDictGet (refines : d.Refines m) (key : CString) :
    duxrtDictGet d (some key) = some ((m.lookup key).getD .null) := by
  cases found : m.lookup key with
  | some val =>
      rcases refines.findKey_some found with ⟨p, _, place, _, isVal⟩
      simp [Runtime.duxrtDictGet, place, isVal]
  | none => simp [Runtime.duxrtDictGet, refines.findKey_none found]

theorem DuxDict.Refines.duxrtDictHas (refines : d.Refines m) (key : CString) :
    duxrtDictHas d (some key) = some (if key ∈ m then 1 else 0) := by
  cases found : m.lookup key with
  | some val =>
      rcases refines.findKey_some found with ⟨p, _, place, _, _⟩
      simp [Runtime.duxrtDictHas, place, Finmap.mem_of_lookup_eq_some found]
  | none => simp [Runtime.duxrtDictHas, refines.findKey_none found, Finmap.lookup_eq_none.mp found]

theorem DuxDict.Refines.duxrtDictDel (refines : d.Refines m) (key : CString) :
    ∃ d', duxrtDictDel d (some key) = some d' ∧ d'.Refines (m.erase key) := by
  cases found : m.lookup key with
  | some val =>
      rcases refines.findKey_some found with ⟨p, hp, place, live, _⟩
      exact ⟨_, by simp [Runtime.duxrtDictDel, place], refines.bury hp live⟩
  | none =>
      have unchanged : m.erase key = m := by
        apply Finmap.ext_lookup
        intro k
        by_cases same : k = key
        · rw [same, Finmap.lookup_erase, found]
        · exact Finmap.lookup_erase_ne same
      exact ⟨d, by simp [Runtime.duxrtDictDel, refines.findKey_none found], by rwa [unchanged]⟩

theorem DictCall.exec_refines (refines : d.Refines m) (c : DictCall) :
    ∃ d', c.exec d = some (d', (c.spec m).2) ∧ d'.Refines (c.spec m).1 := by
  cases c with
  | set key val =>
      rcases refines.duxrtDictSet key val with ⟨d', returns, refines'⟩
      exact ⟨d', by simp [exec, spec, returns], refines'⟩
  | get key => exact ⟨d, by simp [exec, spec, refines.duxrtDictGet], refines⟩
  | has key => exact ⟨d, by simp [exec, spec, refines.duxrtDictHas], refines⟩
  | del key =>
      rcases refines.duxrtDictDel key with ⟨d', returns, refines'⟩
      exact ⟨d', by simp [exec, spec, returns], refines'⟩
  | len => exact ⟨d, by simp [exec, spec, duxrtDictLen, refines.len], refines⟩

/-- Calls one after the other do to the dictionary what they do to the map. -/
theorem execCalls_refines (cs : List DictCall) (refines : d.Refines m) :
    ∃ d', execCalls d cs = some (d', (specCalls m cs).2) ∧ d'.Refines (specCalls m cs).1 := by
  induction cs generalizing d m with
  | nil => exact ⟨d, rfl, refines⟩
  | cons c cs ih =>
      rcases DictCall.exec_refines refines c with ⟨d₁, first, refines₁⟩
      rcases ih refines₁ with ⟨d', rest, refines'⟩
      exact ⟨d', by simp [execCalls, specCalls, first, rest], refines'⟩

theorem refines_duxrtDictNew : duxrtDictNew.Refines ∅ :=
  refines_blank DICT_INIT_CAP (j := 4) rfl (Nat.le_refl _)

/-- Every sequence of calls on a new dictionary returns, with the replies of a
finite map; after it no key has two live places, and the probe sequence of every
hash meets an empty place. -/
theorem dict_refines_finmap (cs : List DictCall) :
    ∃ d, execCalls duxrtDictNew cs = some (d, (specCalls ∅ cs).2) ∧
      (∀ p < d.cap, ∀ q < d.cap, ∀ key, (d.entryAt p).key = .str key →
        (d.entryAt q).key = .str key → p = q) ∧
      ∀ h : UInt64, ∃ steps < d.cap,
        (d.entryAt (d.next^[steps] (d.start h))).key = .null := by
  rcases execCalls_refines cs refines_duxrtDictNew with ⟨d, returns, refines⟩
  have inv := refines.inv
  refine ⟨d, returns, fun p hp q hq key => inv.place_unique hp hq, fun h => ?_⟩
  rcases inv.table.room with ⟨p, hp, isEmpty⟩
  rcases exists_probe_eq h.toNat hp with ⟨steps, bound, atP⟩
  exact ⟨steps, bound, by simpa [inv.iterate_next, atP] using isEmpty⟩

end Calls

end Dux.Runtime
