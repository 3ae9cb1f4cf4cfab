import Mathlib.Data.Nat.Basic

/-!
# Files with several names

Places that lead to files, where two places may lead to one file, and what opening and writing
does to them.
-/

namespace Dux.Logic

/-- The files at some places, by their numbers; a number that is not less than `next` is not in
use. -/
structure Files (Place : Type*) where
  entry : Place → Option Nat
  content : Nat → List UInt8
  next : Nat
  used : ∀ p i, entry p = some i → i < next

namespace Files

variable {Place : Type*}

/-- What a file at a place holds. -/
def read (fs : Files Place) (p : Place) : Option (List UInt8) := (fs.entry p).map fs.content

def write (fs : Files Place) (i : Nat) (bytes : List UInt8) : Files Place where
  entry := fs.entry
  content j := if j = i then bytes else fs.content j
  next := fs.next
  used := fs.used

/-- Another place, which does not lead to the same file either. -/
def Apart (fs : Files Place) (p q : Place) : Prop :=
  p ≠ q ∧ ∀ i, fs.entry p = some i → fs.entry q ≠ some i

variable {fs : Files Place} {p q : Place} {i : Nat} {bytes : List UInt8}

theorem entry_write : (fs.write i bytes).entry p = fs.entry p := rfl

theorem content_write_self : (fs.write i bytes).content i = bytes := if_pos rfl

theorem content_write_other {j : Nat} (other : j ≠ i) :
    (fs.write i bytes).content j = fs.content j :=
  if_neg other

theorem read_of_entry (found : fs.entry p = some i) : fs.read p = some (fs.content i) := by
  rw [read, found, Option.map_some]

theorem read_write_self (found : fs.entry p = some i) :
    (fs.write i bytes).read p = some bytes := by
  rw [read_of_entry (entry_write.trans found), content_write_self]

theorem read_write_other (other : fs.entry p ≠ some i) :
    (fs.write i bytes).read p = fs.read p := by
  cases found : fs.entry p with
  | none => rw [read, read, entry_write, found, Option.map_none, Option.map_none]
  | some j =>
    have apart : j ≠ i := by
      rintro rfl
      exact other found
    rw [read_of_entry (entry_write.trans found), content_write_other apart, read_of_entry found]

/-! ## Files with one place each -/

/-- No two places lead to one file. -/
def Single (fs : Files Place) : Prop := ∀ p q i, fs.entry p = some i → fs.entry q = some i → p = q

/-- A file was opened at a place, with this content, and nothing else has changed. -/
structure Opened (fs : Files Place) (p : Place) (start : List UInt8) (i : Nat)
    (fs' : Files Place) : Prop where
  entry : fs'.entry p = some i
  content : fs'.content i = start
  single : fs'.Single
  others : ∀ q, q ≠ p → fs'.read q = fs.read q

theorem Single.apart (single : fs.Single) (other : q ≠ p) : fs.Apart q p :=
  ⟨other, fun i found same => other (single q p i found same)⟩

/-- What was opened is written. -/
theorem Opened.write {start : List UInt8} {fs' : Files Place} (opened : fs.Opened p start i fs')
    (bytes : List UInt8) : (fs'.write i bytes).Single ∧ (fs'.write i bytes).read p = some bytes ∧
      ∀ q, q ≠ p → (fs'.write i bytes).read q = fs.read q := by
  refine ⟨opened.single, read_write_self opened.entry, fun q other => ?_⟩
  rw [read_write_other fun found => other (opened.single q p i found opened.entry)]
  exact opened.others q other

/-! ## Opening -/

variable [DecidableEq Place]

/-- The files with a new one, which is empty. -/
def create (fs : Files Place) (p : Place) : Files Place where
  entry q := if q = p then some fs.next else fs.entry q
  content j := if j = fs.next then [] else fs.content j
  next := fs.next + 1
  used q i found := by
    split at found
    · cases found
      exact Nat.lt_succ_self _
    · exact Nat.lt_succ_of_lt (fs.used q i found)

/-- Open a file for writing: it is made or truncated. -/
def truncate (fs : Files Place) (p : Place) : Nat × Files Place :=
  match fs.entry p with
  | some i => (i, fs.write i [])
  | none => (fs.next, fs.create p)

theorem entry_create_other (other : q ≠ p) : (fs.create p).entry q = fs.entry q := if_neg other

theorem content_create_old (old : i < fs.next) : (fs.create p).content i = fs.content i :=
  if_neg (Nat.ne_of_lt old)

theorem entry_truncate (fs : Files Place) (p : Place) :
    (fs.truncate p).2.entry p = some (fs.truncate p).1 := by
  rw [truncate]
  cases found : fs.entry p with
  | none => exact if_pos rfl
  | some i => exact found

theorem content_truncate_other (found : fs.entry q = some i) (other : fs.entry p ≠ some i) :
    (fs.truncate p).2.content i = fs.content i := by
  rw [truncate]
  cases isEntry : fs.entry p with
  | none => exact content_create_old (fs.used q i found)
  | some j =>
    rw [isEntry] at other
    exact content_write_other fun same => other (congrArg some same.symm)

theorem content_truncate_self (found : fs.entry p = some i) :
    (fs.truncate p).2.content i = [] := by
  rw [truncate, found]
  exact content_write_self

theorem apart_truncate (apart : fs.Apart q p) :
    (fs.truncate p).2.entry q ≠ some (fs.truncate p).1 ∧
      (fs.truncate p).2.read q = fs.read q := by
  rw [truncate]
  cases found : fs.entry p with
  | none =>
    have same : (fs.create p).entry q = fs.entry q := entry_create_other apart.1
    dsimp only
    cases isEntry : fs.entry q with
    | none =>
      rw [read, read, same, isEntry, Option.map_none, Option.map_none]
      exact ⟨nofun, rfl⟩
    | some i =>
      have old := fs.used q i isEntry
      rw [read_of_entry (same.trans isEntry), content_create_old old, read_of_entry isEntry, same,
        isEntry]
      refine ⟨?_, rfl⟩
      intro new
      injection new with new
      exact Nat.ne_of_lt old new
  | some i =>
    have other : fs.entry q ≠ some i := fun same => apart.2 i same found
    exact ⟨other, read_write_other other⟩

theorem read_apart (apart : fs.Apart q p) :
    ((fs.truncate p).2.write (fs.truncate p).1 bytes).read q = fs.read q := by
  obtain ⟨other, same⟩ := apart_truncate apart
  rw [read_write_other other, same]

/-- Open a file for appending: it is made if there is none. -/
def openAppend (fs : Files Place) (p : Place) : Nat × Files Place :=
  match fs.entry p with
  | some i => (i, fs)
  | none => (fs.next, fs.create p)

/-- Take the file away from a place. -/
def remove (fs : Files Place) (p : Place) : Files Place where
  entry q := if q = p then none else fs.entry q
  content := fs.content
  next := fs.next
  used q i found := by
    split at found
    · cases found
    · exact fs.used q i found

theorem single_create (single : fs.Single) (p : Place) : (fs.create p).Single := by
  intro q r i atQ atR
  have old {q : Place} (found : fs.entry q = some fs.next) : False :=
    Nat.lt_irrefl _ (fs.used q _ found)
  simp only [create] at atQ atR
  split at atQ <;> split at atR
  · next isQ isR => rw [isQ, isR]
  · cases atQ
    exact (old atR).elim
  · cases atR
    exact (old atQ).elim
  · exact single q r i atQ atR

theorem opened_truncate (single : fs.Single) (p : Place) :
    fs.Opened p [] (fs.truncate p).1 (fs.truncate p).2 where
  entry := entry_truncate fs p
  content := by
    rw [truncate]
    cases fs.entry p with
    | none => exact if_pos rfl
    | some i => exact content_write_self
  single := by
    rw [truncate]
    cases fs.entry p with
    | none => exact single_create single p
    | some i => exact single
  others _ other := (apart_truncate (single.apart other)).2

theorem opened_openAppend (single : fs.Single) (p : Place) :
    fs.Opened p ((fs.read p).getD []) (fs.openAppend p).1 (fs.openAppend p).2 := by
  have opened := opened_truncate single p
  rw [openAppend, read]
  rw [truncate] at opened
  cases found : fs.entry p with
  | none => simpa only [found, Option.map_none, Option.getD_none] using opened
  | some i => exact ⟨found, rfl, single, fun _ _ => rfl⟩

theorem single_remove (single : fs.Single) (p : Place) : (fs.remove p).Single := by
  intro q r i atQ atR
  simp only [remove] at atQ atR
  split at atQ <;> split at atR
  · next isQ isR => rw [isQ, isR]
  · cases atQ
  · cases atR
  · exact single q r i atQ atR

theorem read_remove (fs : Files Place) (p q : Place) :
    (fs.remove p).read q = if q = p then none else fs.read q := by
  simp only [read, remove]
  split <;> rfl

theorem read_place (fs : Files Place) (p : Place) (bytes : List UInt8) :
    ((fs.truncate p).2.write (fs.truncate p).1 bytes).read p = some bytes :=
  read_write_self (entry_truncate fs p)

end Files

end Dux.Logic
