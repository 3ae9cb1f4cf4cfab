import Mathlib.Data.Nat.Find
import Mathlib.Data.Nat.ModEq
import Mathlib.Logic.Function.Basic

/-!
# Linear probing

Open addressing over `n` places: a key is looked for at its home and at the
places behind it, around the end, until an empty place ends the search.  A
removed key leaves a tombstone, which does not end a search and may be used
again.

The loops are given fuel and return `none` when it runs out.  With fuel `n` that
happens only when no place of the whole table ends the search.
-/

namespace Dux.Probing

universe u

inductive Slot (κ : Type u)
  | empty
  | tombstone
  | live (key : κ)

variable {κ : Type u}

/-! ## Probe sequences -/

/-- The place that a key with home `h` is looked for at after `i` steps. -/
def probe (n h i : Nat) : Nat := (h + i) % n

theorem probe_lt {n : Nat} (positive : 0 < n) (h i : Nat) : probe n h i < n :=
  Nat.mod_lt _ positive

theorem probe_succ (n h i : Nat) : probe n h (i + 1) = (probe n h i + 1) % n := by
  simp [probe, ← Nat.add_assoc]

theorem probe_injective {n h i j : Nat} (hi : i < n) (hj : j < n)
    (same : probe n h i = probe n h j) : i = j := by
  have congruent : h + i ≡ h + j [MOD n] := same
  have cancelled : i % n = j % n := Nat.ModEq.add_left_cancel' h congruent
  rwa [Nat.mod_eq_of_lt hi, Nat.mod_eq_of_lt hj] at cancelled

theorem exists_probe_eq {n p : Nat} (h : Nat) (hp : p < n) : ∃ i < n, probe n h i = p := by
  have positive : 0 < n := Nat.zero_lt_of_lt hp
  have homeBound : h % n < n := Nat.mod_lt h positive
  refine ⟨(p + (n - h % n)) % n, Nat.mod_lt _ positive, ?_⟩
  calc probe n h ((p + (n - h % n)) % n)
      = (h % n + (p + (n - h % n))) % n := by simp [probe]
    _ = (p + n) % n := by congr 1; omega
    _ = p := by simp [Nat.mod_eq_of_lt hp]

/-! ## Tables -/

/-- The keys of a table are distinct, a search for any of them meets no empty
place before it, and some place is empty. -/
structure WellFormed (n : Nat) (home : κ → Nat) (slot : Nat → Slot κ) : Prop where
  room : ∃ p < n, slot p = .empty
  unique : ∀ p < n, ∀ q < n, ∀ key, slot p = .live key → slot q = .live key → p = q
  reachable : ∀ p < n, ∀ key, slot p = .live key →
    ∃ i < n, probe n (home key) i = p ∧ ∀ j < i, slot (probe n (home key) j) ≠ .empty

/-- A search does not end at this place. -/
def Passes (key : κ) (s : Slot κ) : Prop := s ≠ .empty ∧ s ≠ .live key

section Search

variable {n : Nat} {home : κ → Nat} {slot : Nat → Slot κ} {key : κ}

/-- The first step at which a search for `key` ends. -/
structure EndsAt (n h : Nat) (slot : Nat → Slot κ) (key : κ) (s : Nat) : Prop where
  bound : s < n
  before : ∀ j < s, Passes key (slot (probe n h j))

theorem WellFormed.endsAt_live (table : WellFormed n home slot) {p : Nat} (hp : p < n)
    (live : slot p = .live key) :
    ∃ s, EndsAt n (home key) slot key s ∧ probe n (home key) s = p := by
  rcases table.reachable p hp key live with ⟨i, hi, atP, filled⟩
  refine ⟨i, ⟨hi, fun j hj => ⟨filled j hj, ?_⟩⟩, atP⟩
  intro found
  have positive : 0 < n := Nat.zero_lt_of_lt hp
  have samePlace : probe n (home key) j = probe n (home key) i := by
    rw [atP]
    exact table.unique _ (probe_lt positive _ _) p hp key found live
  have := probe_injective (hj.trans hi) hi samePlace
  omega

theorem WellFormed.endsAt_empty (table : WellFormed n home slot)
    (absent : ∀ p < n, slot p ≠ .live key) :
    ∃ s, EndsAt n (home key) slot key s ∧ slot (probe n (home key) s) = .empty := by
  classical
  rcases table.room with ⟨p, hp, isEmpty⟩
  rcases exists_probe_eq (home key) hp with ⟨i, hi, atP⟩
  have positive : 0 < n := Nat.zero_lt_of_lt hp
  have someEmpty : ∃ i, slot (probe n (home key) i) = .empty := ⟨i, by rw [atP, isEmpty]⟩
  refine ⟨Nat.find someEmpty, ⟨?_, fun j hj => ⟨Nat.find_min someEmpty hj, ?_⟩⟩,
    Nat.find_spec someEmpty⟩
  · have minimal : Nat.find someEmpty ≤ i := Nat.find_min' someEmpty (by rw [atP, isEmpty])
    omega
  · exact absent _ (probe_lt positive _ _)

variable [DecidableEq κ]

/-- Look for a key from place `idx` on; the result is its place, if any. -/
def search (n : Nat) (slot : Nat → Slot κ) (key : κ) : Nat → Nat → Option (Option Nat)
  | 0, _ => none
  | fuel + 1, idx =>
      match slot idx with
      | .empty => some none
      | .tombstone => search n slot key fuel ((idx + 1) % n)
      | .live k => if k = key then some (some idx) else search n slot key fuel ((idx + 1) % n)

/-- Look for a place for a key from place `idx` on, with the first tombstone met
so far.  The result is the place and whether it holds the key already. -/
def insertPlace (n : Nat) (slot : Nat → Slot κ) (key : κ) :
    Nat → Nat → Option Nat → Option (Nat × Bool)
  | 0, _, _ => none
  | fuel + 1, idx, tomb =>
      match slot idx with
      | .empty => some (tomb.getD idx, false)
      | .tombstone => insertPlace n slot key fuel ((idx + 1) % n) (some (tomb.getD idx))
      | .live k =>
          if k = key then some (idx, true)
          else insertPlace n slot key fuel ((idx + 1) % n) tomb

theorem search_passes {h i s : Nat} (fuel : Nat) (steps : i ≤ s) (enough : s < i + fuel)
    (before : ∀ j < s, Passes key (slot (probe n h j))) :
    ∃ fuel', search n slot key fuel (probe n h i) =
      search n slot key (fuel' + 1) (probe n h s) := by
  induction fuel generalizing i with
  | zero => omega
  | succ fuel ih =>
      rcases Nat.eq_or_lt_of_le steps with same | less
      · subst same
        exact ⟨fuel, rfl⟩
      · rcases ih (i := i + 1) less (by omega) with ⟨fuel', rest⟩
        refine ⟨fuel', ?_⟩
        have passes := before i less
        rw [← rest, probe_succ]
        cases found : slot (probe n h i) with
        | empty => exact absurd found passes.1
        | tombstone => simp only [search, found]
        | live k =>
            have differs : k ≠ key := fun same => passes.2 (by rw [found, same])
            simp only [search, found, if_neg differs]

theorem WellFormed.search_live (table : WellFormed n home slot) {p : Nat} (hp : p < n)
    (live : slot p = .live key) :
    search n slot key n (probe n (home key) 0) = some (some p) := by
  rcases table.endsAt_live hp live with ⟨s, ends, atP⟩
  rcases search_passes n s.zero_le (by have := ends.bound; omega) ends.before
    with ⟨fuel', eq⟩
  simp [eq, atP, search, live]

theorem WellFormed.search_absent (table : WellFormed n home slot)
    (absent : ∀ p < n, slot p ≠ .live key) :
    search n slot key n (probe n (home key) 0) = some none := by
  rcases table.endsAt_empty absent with ⟨s, ends, isEmpty⟩
  rcases search_passes n s.zero_le (by have := ends.bound; omega) ends.before
    with ⟨fuel', eq⟩
  simp [eq, search, isEmpty]

/-- A place on the way of a search for `key` that holds no key. -/
structure Free (n h : Nat) (slot : Nat → Slot κ) (q : Nat) : Prop where
  onTheWay : ∃ i < n, probe n h i = q ∧ ∀ j < i, slot (probe n h j) ≠ .empty
  notLive : ∀ key, slot q ≠ .live key

theorem insertPlace_passes {h i s : Nat} (fuel : Nat) {tomb : Option Nat} (steps : i ≤ s)
    (enough : s < i + fuel) (bound : s < n)
    (before : ∀ j < s, Passes key (slot (probe n h j)))
    (free : ∀ q, tomb = some q → Free n h slot q) :
    ∃ fuel' tomb', (∀ q, tomb' = some q → Free n h slot q) ∧
      insertPlace n slot key fuel (probe n h i) tomb =
        insertPlace n slot key (fuel' + 1) (probe n h s) tomb' := by
  induction fuel generalizing i tomb with
  | zero => omega
  | succ fuel ih =>
      rcases Nat.eq_or_lt_of_le steps with same | less
      · subst same
        exact ⟨fuel, tomb, free, rfl⟩
      · have passes := before i less
        cases found : slot (probe n h i) with
        | empty => exact absurd found passes.1
        | tombstone =>
            have free' : ∀ q, some (tomb.getD (probe n h i)) = some q → Free n h slot q := by
              intro q same
              cases tomb with
              | some t => exact free q (by simpa using same)
              | none =>
                  obtain rfl : probe n h i = q := by simpa using same
                  exact ⟨⟨i, less.trans bound, rfl, fun j hj => (before j (hj.trans less)).1⟩,
                    by simp [found]⟩
            rcases ih (i := i + 1) less (by omega) free' with ⟨fuel', tomb', freeEnd, rest⟩
            refine ⟨fuel', tomb', freeEnd, ?_⟩
            rw [← rest, probe_succ]
            simp only [insertPlace, found]
        | live k =>
            have differs : k ≠ key := fun same => passes.2 (by rw [found, same])
            rcases ih (i := i + 1) less (by omega) free with ⟨fuel', tomb', freeEnd, rest⟩
            refine ⟨fuel', tomb', freeEnd, ?_⟩
            rw [← rest, probe_succ]
            simp only [insertPlace, found, if_neg differs]

theorem WellFormed.insertPlace_live (table : WellFormed n home slot) {p : Nat} (hp : p < n)
    (live : slot p = .live key) :
    insertPlace n slot key n (probe n (home key) 0) none = some (p, true) := by
  rcases table.endsAt_live hp live with ⟨s, ends, atP⟩
  have bound := ends.bound
  have noTomb : ∀ q, none = some q → Free n (home key) slot q := by simp
  rcases insertPlace_passes n s.zero_le (by omega) bound ends.before noTomb with
    ⟨fuel', tomb', _, eq⟩
  simp [eq, atP, insertPlace, live]

theorem WellFormed.insertPlace_absent (table : WellFormed n home slot)
    (absent : ∀ p < n, slot p ≠ .live key) :
    ∃ q, insertPlace n slot key n (probe n (home key) 0) none = some (q, false) ∧
      Free n (home key) slot q := by
  rcases table.endsAt_empty absent with ⟨s, ends, isEmpty⟩
  have bound := ends.bound
  have noTomb : ∀ q, none = some q → Free n (home key) slot q := by simp
  rcases insertPlace_passes n s.zero_le (by omega) bound ends.before noTomb with
    ⟨fuel', tomb', free, eq⟩
  cases tomb' with
  | some q => exact ⟨q, by simp [eq, insertPlace, isEmpty], free q rfl⟩
  | none =>
      exact ⟨probe n (home key) s, by simp [eq, insertPlace, isEmpty],
        ⟨s, bound, rfl, fun j hj => (ends.before j hj).1⟩, by simp [isEmpty]⟩

end Search

/-! ## Updates -/

section Updates

variable {n : Nat} {home : κ → Nat} {slot : Nat → Slot κ} {key : κ}

theorem WellFormed.fill (table : WellFormed n home slot)
    (absent : ∀ p < n, slot p ≠ .live key) {q : Nat} (free : Free n (home key) slot q)
    (room : ∃ p < n, p ≠ q ∧ slot p = .empty) :
    WellFormed n home (Function.update slot q (.live key)) := by
  have staysFilled : ∀ p, slot p ≠ .empty →
      Function.update slot q (.live key) p ≠ .empty := by
    intro p filled
    by_cases same : p = q
    · simp [same]
    · simpa [Function.update_of_ne same] using filled
  constructor
  · rcases room with ⟨p, hp, differs, isEmpty⟩
    exact ⟨p, hp, by rwa [Function.update_of_ne differs]⟩
  · intro p hp p' hp' k live live'
    by_cases first : p = q <;> by_cases second : p' = q
    · rw [first, second]
    · have isKey : key = k := by simpa [first] using live
      rw [Function.update_of_ne second, ← isKey] at live'
      exact absurd live' (absent p' hp')
    · have isKey : key = k := by simpa [second] using live'
      rw [Function.update_of_ne first, ← isKey] at live
      exact absurd live (absent p hp)
    · rw [Function.update_of_ne first] at live
      rw [Function.update_of_ne second] at live'
      exact table.unique p hp p' hp' k live live'
  · intro p hp k live
    by_cases same : p = q
    · have isKey : key = k := by simpa [same] using live
      subst isKey same
      rcases free.onTheWay with ⟨i, hi, atQ, filled⟩
      exact ⟨i, hi, atQ, fun j hj => staysFilled _ (filled j hj)⟩
    · rw [Function.update_of_ne same] at live
      rcases table.reachable p hp k live with ⟨i, hi, atP, filled⟩
      exact ⟨i, hi, atP, fun j hj => staysFilled _ (filled j hj)⟩

theorem WellFormed.bury (table : WellFormed n home slot) {q : Nat} (live : slot q = .live key) :
    WellFormed n home (Function.update slot q .tombstone) := by
  have stillLive : ∀ p k, Function.update slot q .tombstone p = .live k → slot p = .live k := by
    intro p k stays
    by_cases same : p = q
    · simp [same] at stays
    · rwa [Function.update_of_ne same] at stays
  constructor
  · rcases table.room with ⟨p, hp, isEmpty⟩
    have differs : p ≠ q := by
      rintro rfl
      simp [live] at isEmpty
    exact ⟨p, hp, by rwa [Function.update_of_ne differs]⟩
  · intro p hp p' hp' k first second
    exact table.unique p hp p' hp' k (stillLive p k first) (stillLive p' k second)
  · intro p hp k stays
    rcases table.reachable p hp k (stillLive p k stays) with ⟨i, hi, atP, filled⟩
    refine ⟨i, hi, atP, fun j hj => ?_⟩
    by_cases same : probe n (home k) j = q
    · simp [same]
    · simpa [Function.update_of_ne same] using filled j hj

theorem WellFormed.blank (positive : 0 < n) (empty : ∀ p, slot p = .empty) :
    WellFormed n home slot := by
  constructor
  · exact ⟨0, positive, empty 0⟩
  · simp [empty]
  · simp [empty]

end Updates

end Dux.Probing
