import Dux.Logic.CText
import Dux.Logic.Files
import Dux.Runtime.Str

/-!
# Copying files

`duxrt_file_copy` of `src/runtime/file_rt.c` and `duxrt_fs_copy` of `src/runtime/fs_rt.c`, where
each call of the C library may fail.
-/

namespace Dux.Runtime.FileCopy

open Logic (cText Files)

/-! ## The functions -/

/-- How the calls of a copy end, with the turns of the loop by their numbers. -/
structure Outcomes where
  /-- The source can be opened, if there is one. -/
  opensIn : Bool
  /-- The destination can be opened. -/
  opensOut : Bool
  /-- `fread` meets an error behind so many bytes. -/
  readError : Nat → Option Nat
  /-- `fwrite` fails, and of its bytes no more than so many are taken. -/
  writeError : Nat → Option Nat
  /-- `fclose` of the destination fails, and of all bytes taken no more than so many are in the
  file. -/
  closeError : Option Nat

def bufSize : Nat := 65536

/-- The bytes that `fread` returns if there are so many left. -/
def Outcomes.amount (o : Outcomes) (i : Nat) : Nat :=
  match o.readError i with
  | none => bufSize
  | some n => min bufSize n

/-- The loop, with what is left of the source and what the destination has taken; at the end,
`ok`. -/
def copyLoop (o : Outcomes) (i : Nat) (rest taken : Bytes) : Bool × Bytes :=
  if (rest.take (o.amount i)).length = 0 then (true, taken)
  else
    match o.writeError i with
    | none =>
        copyLoop o (i + 1) (rest.drop (o.amount i)) (taken ++ rest.take (o.amount i))
    | some n =>
        let buf := rest.take (o.amount i)
        (false, taken ++ buf.take (min n (buf.length - 1)))
termination_by rest.length
decreasing_by
  rw [List.length_take] at *
  rw [List.length_drop]
  omega

/-- What `fclose` leaves in the file. -/
def Outcomes.closed (o : Outcomes) (taken : Bytes) : Bytes :=
  match o.closeError with
  | none => taken
  | some n => taken.take n

section Copy

variable {Place : Type*} [DecidableEq Place] (place : Bytes → Place)

/-- The body of both functions.  The source is opened first, but read only behind the opening of
the destination; while the loop turns it does not change, as the loop does not turn if both are
one file. -/
def copy (o : Outcomes) (src dst : Option Bytes) (fs : Files Place) : Int × Files Place :=
  match src, dst with
  | some src, some dst =>
      match if o.opensIn then fs.entry (place (cText src)) else none with
      | none => (-1, fs)
      | some source =>
          if o.opensOut then
            let (out, fs) := fs.truncate (place (cText dst))
            let (ok, taken) := copyLoop o 0 (fs.content source) []
            (if ok then 0 else -1, fs.write out (o.closed taken))
          else (-1, fs)
  | _, _ => (-1, fs)

def duxrtFileCopy (o : Outcomes) (src dst : Option Bytes) (fs : Files Place) : Int × Files Place :=
  copy place o src dst fs

def duxrtFsCopy (o : Outcomes) (src dst : Option Bytes) (fs : Files Place) : Int × Files Place :=
  copy place o src dst fs

end Copy

/-! ## The loop -/

/-- The bytes that the reads before a turn return, if there are so many. -/
def Outcomes.before (o : Outcomes) : Nat → Nat
  | 0 => 0
  | i + 1 => o.before i + o.amount i

section Loop

variable {o : Outcomes} {c : Bytes} {i n : Nat}

theorem before_mono (o : Outcomes) : Monotone o.before :=
  monotone_nat_of_le_succ fun i => Nat.le_add_right (o.before i) (o.amount i)

/-- The turns before one of them copied something. -/
def Turned (o : Outcomes) (c : Bytes) (n : Nat) : Prop :=
  ∀ i < n, o.amount i ≠ 0 ∧ o.before i < c.length ∧ o.writeError i = none

/-- How the loop ends at a turn: with `ok`, when nothing is read, or without, when a write fails. -/
def Ends (o : Outcomes) (c : Bytes) (n : Nat) (result : Bool × Bytes) : Prop :=
  (o.amount n = 0 ∨ c.length ≤ o.before n) ∧ result = (true, c.take (o.before n)) ∨
    o.amount n ≠ 0 ∧ o.before n < c.length ∧ o.writeError n ≠ none ∧ result.1 = false

theorem copyLoop_ends (turned : Turned o c i) : ∃ n, Turned o c n ∧
    Ends o c n (copyLoop o i (c.drop (o.before i)) (c.take (o.before i))) := by
  induction left : c.length - o.before i using Nat.strong_induction_on generalizing i with
  | _ left ih =>
    subst left
    rw [copyLoop]
    by_cases nothing : ((c.drop (o.before i)).take (o.amount i)).length = 0
    · rw [if_pos nothing]
      rw [List.length_take, List.length_drop] at nothing
      exact ⟨i, turned, .inl ⟨by omega, rfl⟩⟩
    · rw [if_neg nothing]
      rw [List.length_take, List.length_drop] at nothing
      have some : o.amount i ≠ 0 ∧ o.before i < c.length := by omega
      cases writes : o.writeError i with
      | some m =>
        exact ⟨i, turned, .inr ⟨some.1, some.2, by rw [writes]; exact Option.some_ne_none m, rfl⟩⟩
      | none =>
        have turned' : Turned o c (i + 1) := by
          intro j less
          rcases Nat.lt_succ_iff_lt_or_eq.mp less with less | rfl
          · exact turned j less
          · exact ⟨some.1, some.2, writes⟩
        have shorter : c.length - o.before (i + 1) < c.length - o.before i := by
          rw [Outcomes.before]
          omega
        dsimp only
        rw [List.drop_drop, ← List.take_add]
        exact ih _ shorter turned' rfl

theorem closed_nil (o : Outcomes) : o.closed [] = [] := by
  rw [Outcomes.closed]
  split
  · rfl
  · exact List.take_nil

theorem length_closed_le (o : Outcomes) (taken : Bytes) :
    (o.closed taken).length ≤ taken.length := by
  rw [Outcomes.closed]
  split
  · exact le_rfl
  · exact List.length_take_le' _ _

theorem closed_eq_self_iff {taken : Bytes} :
    o.closed taken = taken ↔ ∀ m ∈ o.closeError, taken.length ≤ m := by
  rw [Outcomes.closed]
  cases o.closeError with
  | none => exact iff_of_true rfl nofun
  | some m => simp

theorem ended_ok (turned : Turned o c n) (stops : o.amount n = 0 ∨ c.length ≤ o.before n) :
    o.closed (c.take (o.before n)) = c ↔
      c = [] ∨ (∀ i, o.amount i = 0 → o.before i < c.length → ∃ j < i, o.writeError j ≠ none) ∧
        ((∀ m ∈ o.closeError, c.length ≤ m) ∨
          ∃ i, o.before i < c.length ∧ o.writeError i ≠ none) := by
  by_cases empty : c = []
  · subst empty
    rw [List.take_nil]
    exact iff_of_true (closed_nil o) (.inl rfl)
  · rw [or_iff_right empty]
    by_cases whole : c.length ≤ o.before n
    · have early (i : Nat) (inside : o.before i < c.length) : i < n := by
        by_contra late
        exact absurd (whole.trans (before_mono o (Nat.le_of_not_lt late))) (Nat.not_le.mpr inside)
      have reads (i : Nat) (nothing : o.amount i = 0) (inside : o.before i < c.length) :
          ∃ j < i, o.writeError j ≠ none :=
        absurd nothing (turned i (early i inside)).1
      have writes : ¬∃ i, o.before i < c.length ∧ o.writeError i ≠ none := by
        rintro ⟨i, inside, fails⟩
        exact fails (turned i (early i inside)).2.2
      rw [List.take_of_length_le whole, closed_eq_self_iff, or_iff_left writes]
      exact ⟨fun kept => ⟨reads, kept⟩, fun suits => suits.2⟩
    · have nothing := stops.resolve_right whole
      apply iff_of_false
      · intro same
        have short := length_closed_le o (c.take (o.before n))
        rw [same, List.length_take] at short
        omega
      · rintro ⟨reads, -⟩
        obtain ⟨j, less, fails⟩ := reads n nothing (Nat.lt_of_not_le whole)
        exact fails (turned j less).2.2

theorem ended_failed (turned : Turned o c n) (reads : o.amount n ≠ 0)
    (inside : o.before n < c.length) (fails : o.writeError n ≠ none) :
    (∀ i, o.amount i = 0 → o.before i < c.length → ∃ j < i, o.writeError j ≠ none) ∧
      ((∀ m ∈ o.closeError, c.length ≤ m) ∨
        ∃ i, o.before i < c.length ∧ o.writeError i ≠ none) := by
  refine ⟨fun i nothing _ => ⟨n, ?_, fails⟩, .inr ⟨n, inside, fails⟩⟩
  rcases Nat.lt_trichotomy i n with less | rfl | more
  · exact absurd nothing (turned i less).1
  · exact absurd nothing reads
  · exact more

end Loop

/-! ## When a copy is faithful -/

section Faithful

variable {Place : Type*} (place : Bytes → Place)

/-- If zero is returned, the destination holds what the source held; and no file but the
destination changes, nor does the source. -/
def Faithful (call : Option Bytes → Option Bytes → Files Place → Int × Files Place)
    (src dst : Bytes) (fs : Files Place) : Prop :=
  let r := call (some src) (some dst) fs
  (r.1 = 0 → r.2.read (place (cText dst)) = fs.read (place (cText src))) ∧
    (∀ p, fs.Apart p (place (cText dst)) → r.2.read p = fs.read p) ∧
    r.2.read (place (cText src)) = fs.read (place (cText src))

/-- If both files are opened, the source is empty, or the destination is another file, no read
returns nothing before the end of the source unless a write has failed before, and a write fails
or the close loses nothing. -/
def Suits (o : Outcomes) (src dst : Bytes) (fs : Files Place) : Prop :=
  ∀ source, o.opensIn = true → o.opensOut = true → fs.entry (place (cText src)) = some source →
    fs.content source = [] ∨
      fs.entry (place (cText dst)) ≠ some source ∧
      (∀ i, o.amount i = 0 → o.before i < (fs.content source).length →
        ∃ j < i, o.writeError j ≠ none) ∧
      ((∀ n ∈ o.closeError, (fs.content source).length ≤ n) ∨
        ∃ i, o.before i < (fs.content source).length ∧ o.writeError i ≠ none)

variable {place} {o : Outcomes} {src dst : Bytes} {fs : Files Place}

theorem faithful_of_unchanged
    {call : Option Bytes → Option Bytes → Files Place → Int × Files Place}
    (unchanged : call (some src) (some dst) fs = (-1, fs)) : Faithful place call src dst fs := by
  rw [Faithful, unchanged]
  exact ⟨nofun, fun _ _ => rfl, rfl⟩

variable [DecidableEq Place]

theorem copy_opened {source : Nat} (opensIn : o.opensIn = true) (opensOut : o.opensOut = true)
    (found : fs.entry (place (cText src)) = some source) :
    copy place o (some src) (some dst) fs =
      (if (copyLoop o 0 ((fs.truncate (place (cText dst))).2.content source) []).1 then 0 else -1,
        (fs.truncate (place (cText dst))).2.write (fs.truncate (place (cText dst))).1
          (o.closed (copyLoop o 0 ((fs.truncate (place (cText dst))).2.content source) []).2)) := by
  rw [copy, if_pos opensIn, found]
  dsimp only
  rw [if_pos opensOut]

/-- A file that is copied onto itself is lost, and zero is returned. -/
theorem faithful_same {source : Nat} (opensIn : o.opensIn = true) (opensOut : o.opensOut = true)
    (found : fs.entry (place (cText src)) = some source)
    (same : fs.entry (place (cText dst)) = some source) :
    Faithful place (copy place o) src dst fs ↔ fs.content source = [] := by
  have run : copyLoop o 0 [] [] = (true, []) := by
    rw [copyLoop, List.take_nil, if_pos List.length_nil]
  have isSource : (fs.truncate (place (cText dst))).1 = source := by
    rw [Files.truncate, same]
  have isEntry : (fs.truncate (place (cText dst))).2.entry (place (cText src)) = some source := by
    rw [Files.truncate, same]
    exact found
  rw [Faithful, copy_opened opensIn opensOut found, Files.content_truncate_self same, run,
    closed_nil, Files.read_of_entry found]
  dsimp only
  rw [Files.read_place, isSource, Files.read_write_self isEntry, if_pos rfl,
    forall_prop_of_true rfl, Option.some.injEq]
  constructor
  · rintro ⟨copied, -⟩
    exact copied.symm
  · intro empty
    refine ⟨empty.symm, fun p apart => ?_, empty.symm⟩
    rw [← isSource]
    exact Files.read_apart apart

theorem faithful_apart {source : Nat} (opensIn : o.opensIn = true) (opensOut : o.opensOut = true)
    (found : fs.entry (place (cText src)) = some source)
    (other : fs.entry (place (cText dst)) ≠ some source) :
    Faithful place (copy place o) src dst fs ↔
      ((copyLoop o 0 (fs.content source) []).1 = true →
        o.closed (copyLoop o 0 (fs.content source) []).2 = fs.content source) := by
  have apart : fs.Apart (place (cText src)) (place (cText dst)) := by
    constructor
    · intro same
      rw [same] at found
      exact other found
    · intro i isEntry
      rw [← isEntry, found]
      exact other
  rw [Faithful, copy_opened opensIn opensOut found, Files.content_truncate_other found other,
    Files.read_of_entry found]
  dsimp only
  rw [Files.read_place, Files.read_apart apart, Files.read_of_entry found, Option.some.injEq]
  have verdict (b : Bool) : (if b = true then (0 : Int) else -1) = 0 ↔ b = true := by
    cases b <;> decide
  rw [verdict]
  exact and_iff_left ⟨fun p apart => Files.read_apart apart, rfl⟩

/-- The bytes taken are all of them exactly where the reads, the writes and the close suit. -/
theorem taken_iff (o : Outcomes) (c : Bytes) :
    ((copyLoop o 0 c []).1 = true → o.closed (copyLoop o 0 c []).2 = c) ↔
      c = [] ∨ (∀ i, o.amount i = 0 → o.before i < c.length → ∃ j < i, o.writeError j ≠ none) ∧
        ((∀ m ∈ o.closeError, c.length ≤ m) ∨
          ∃ i, o.before i < c.length ∧ o.writeError i ≠ none) := by
  have first : Turned o c 0 := nofun
  obtain ⟨n, turned, ends⟩ := copyLoop_ends first
  rw [Outcomes.before, List.drop_zero, List.take_zero] at ends
  rcases ends with ⟨stops, result⟩ | ⟨reads, inside, fails, notOk⟩
  · rw [result, forall_prop_of_true rfl]
    exact ended_ok turned stops
  · rw [notOk]
    exact iff_of_true nofun (.inr (ended_failed turned reads inside fails))

theorem copy_unopened (unopened : ¬(o.opensIn = true ∧ o.opensOut = true ∧
    ∃ source, fs.entry (place (cText src)) = some source)) :
    copy place o (some src) (some dst) fs = (-1, fs) := by
  rw [copy]
  dsimp only
  cases found : if o.opensIn = true then fs.entry (place (cText src)) else none with
  | none => rfl
  | some source =>
    dsimp only
    split at found
    · next opensIn =>
      rw [if_neg fun opensOut => unopened ⟨opensIn, opensOut, source, found⟩]
    · cases found

/-- The body of both functions is faithful exactly where the files and the outcomes suit. -/
theorem copy_faithful_iff :
    Faithful place (copy place o) src dst fs ↔ Suits place o src dst fs := by
  by_cases opened : o.opensIn = true ∧ o.opensOut = true ∧
      ∃ source, fs.entry (place (cText src)) = some source
  · obtain ⟨opensIn, opensOut, source, found⟩ := opened
    have one : Suits place o src dst fs ↔ _ :=
      ⟨fun suits => suits source opensIn opensOut found, fun suits source' _ _ found' => by
        cases found.symm.trans found'
        exact suits⟩
    rw [one]
    by_cases same : fs.entry (place (cText dst)) = some source
    · rw [faithful_same opensIn opensOut found same]
      exact ⟨.inl, fun suits => suits.resolve_right fun other => other.1 same⟩
    · rw [faithful_apart opensIn opensOut found same, and_iff_right same]
      exact taken_iff o (fs.content source)
  · refine iff_of_true (faithful_of_unchanged (copy_unopened opened)) ?_
    intro source opensIn opensOut found
    exact absurd ⟨opensIn, opensOut, source, found⟩ opened

/-- Both functions are faithful exactly where the files and the outcomes suit. -/
theorem faithful_iff_suits (place : Bytes → Place) (o : Outcomes) (src dst : Bytes)
    (fs : Files Place) :
    (Faithful place (duxrtFileCopy place o) src dst fs ↔ Suits place o src dst fs) ∧
      (Faithful place (duxrtFsCopy place o) src dst fs ↔ Suits place o src dst fs) :=
  ⟨copy_faithful_iff, copy_faithful_iff⟩

end Faithful

/-- One file with one byte. -/
def oneByte : Files Bytes where
  entry p := if p = [97] then some 0 else none
  content _ := [120]
  next := 1
  used p i found := by
    split at found
    · cases found
      exact Nat.one_pos
    · cases found

/-- A file is copied onto itself, and no call fails. -/
theorem not_copy_faithful :
    ¬∀ (o : Outcomes) (src dst : Bytes) (fs : Files Bytes),
      Faithful id (duxrtFileCopy id o) src dst fs := by
  intro all
  have faithful := all ⟨true, true, fun _ => none, fun _ => none, none⟩ [97] [97] oneByte
  have found : oneByte.entry (id (cText [97])) = some 0 := by decide
  have empty := (faithful_same rfl rfl found found).mp faithful
  exact List.cons_ne_nil _ _ empty

end Dux.Runtime.FileCopy
