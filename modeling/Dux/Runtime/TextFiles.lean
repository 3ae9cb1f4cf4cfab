import Dux.Logic.CText
import Dux.Logic.Files
import Dux.Logic.Lines
import Dux.Runtime.StrBuild

/-!
# Files of text

The functions of `src/runtime/file_rt.c` that read and save whole files: `duxrt_file_read`,
`duxrt_file_read_lines`, `duxrt_file_write`, `duxrt_file_append` and `duxrt_file_remove`.  Each
call of the C library may fail.
-/

namespace Dux.Runtime.TextFiles

open Logic (cText Files lines terminated unlines)
open Text (int32Max)

/-! ## The functions -/

/-- How the calls of the C library end that save a text. -/
structure Saving where
  /-- `fopen` returns a file. -/
  opens : Bool
  /-- `fwrite` takes no more than so many bytes. -/
  writeError : Option Nat
  /-- `fclose` leaves no more than so many of them in the file. -/
  closeError : Option Nat

/-- How those end that read a file. -/
structure Loading where
  /-- `fopen` returns a file. -/
  opens : Bool
  /-- `fseek` and `ftell` tell its size, and there is a buffer for it. -/
  measures : Bool
  /-- No more than so many bytes are read. -/
  readError : Option Nat

/-- As many bytes as a limit allows. -/
def upTo (limit : Option Nat) (bytes : Bytes) : Bytes := limit.elim bytes bytes.take

/-- The bytes of a text that are in the file at the end. -/
def Saving.saved (o : Saving) (text : Bytes) : Bytes := upTo o.closeError (upTo o.writeError text)

/-- `duxrt_str_new` for the bytes of a full buffer, which aborts if they are too many. -/
def strNew (text : Bytes) : Option Bytes := if text.length ≤ int32Max then some text else none

def newline : UInt8 := 0x0a

section Functions

variable {Place : Type*} [DecidableEq Place] (place : Bytes → Place)

/-- The body of the two functions that save a text, which open the file in their own modes. -/
def save (fopen : Files Place → Place → Nat × Files Place) (o : Saving)
    (path content : Option Bytes) (fs : Files Place) : Int × Files Place :=
  match path, content with
  | some path, some content =>
      if o.opens then
        let (file, fs) := fopen fs (place (cText path))
        let written := (upTo o.writeError content).length
        (if written = content.length then 0 else -1,
          fs.write file (fs.content file ++ o.saved content))
      else (-1, fs)
  | _, _ => (-1, fs)

def duxrtFileWrite := save place Files.truncate

def duxrtFileAppend := save place Files.openAppend

def duxrtFileRemove (removes : Bool) (path : Option Bytes) (fs : Files Place) :
    Int × Files Place :=
  match path with
  | some path =>
      if removes && (fs.entry (place (cText path))).isSome then
        (0, fs.remove (place (cText path)))
      else (-1, fs)
  | none => (-1, fs)

def opened (o : Loading) (path : Option Bytes) (fs : Files Place) : Option Bytes :=
  path.bind fun path => if o.opens then fs.read (place (cText path)) else none

/-- `duxrt_file_read`; there is no result if the program is aborted. -/
def duxrtFileRead (o : Loading) (path : Option Bytes) (fs : Files Place) : Option Bytes :=
  match opened place o path fs with
  | none => some []
  | some content => if o.measures then strNew (upTo o.readError content) else some []

/-- `duxrt_file_read_lines`, where `getline` gives the lines. -/
def duxrtFileReadLines (o : Loading) (path : Option Bytes) (fs : Files Place) :
    Option (List Bytes) :=
  match opened place o path fs with
  | none => some []
  | some content => (lines newline (upTo o.readError content)).mapM strNew

/-- A call of one of the functions that change a file. -/
inductive Call
  | save (appends : Bool) (o : Saving) (path content : Option Bytes)
  | remove (removes : Bool) (path : Option Bytes)

def Call.run : Call → Files Place → Int × Files Place
  | .save true o path content => duxrtFileAppend place o path content
  | .save false o path content => duxrtFileWrite place o path content
  | .remove removes path => duxrtFileRemove place removes path

/-- Where a call works. -/
def Call.target : Call → Option Place
  | .save _ _ path _ | .remove _ path => path.map fun path => place (cText path)

/-- The files behind a list of calls. -/
def runCalls (calls : List Call) (fs : Files Place) : Files Place :=
  calls.foldl (fun fs c => (c.run place fs).2) fs

end Functions

/-! ## What a run makes of a file -/

/-- A call that saves a text and opens its file also gets all of the text into it. -/
def Call.Settled : Call → Prop
  | .save _ o _ content => ∀ text ∈ content, o.opens = true → o.saved text = text
  | .remove .. => True

/-- What a settled call makes of the content of its file. -/
def Call.effect : Call → Option Bytes → Option Bytes
  | .save appends o _ content, old =>
      if o.opens then
        content.elim old fun text => some ((if appends then old.getD [] else []) ++ text)
      else old
  | .remove removes _, old => if removes then none else old

section Runs

variable {Place : Type*} [DecidableEq Place] {place : Bytes → Place} {fs : Files Place}
  {p : Place} {c : Call}

theorem read_save {fopen : Files Place → Place → Nat × Files Place} {start : Option Bytes → Bytes}
    (opens : ∀ p, fs.Opened p (start (fs.read p)) (fopen fs p).1 (fopen fs p).2)
    (single : fs.Single) (o : Saving) (path content : Option Bytes) :
    (save place fopen o path content fs).2.Single ∧ ∀ q,
      (save place fopen o path content fs).2.read q =
        if path.map (fun path => place (cText path)) = some q ∧ o.opens = true then
          content.elim (fs.read q) fun text => some (start (fs.read q) ++ o.saved text)
        else fs.read q := by
  cases path with
  | none => exact ⟨single, fun q => by simp [save]⟩
  | some path =>
    cases content with
    | none => exact ⟨single, fun q => by simp [save]⟩
    | some text =>
      rw [save]
      cases isOpen : o.opens with
      | false => exact ⟨single, fun q => by simp⟩
      | true =>
        have opened := opens (place (cText path))
        obtain ⟨single', here, others⟩ := opened.write
          (start (fs.read (place (cText path))) ++ o.saved text)
        simp only [if_true, and_true, Option.map_some, Option.some.injEq, Option.elim_some,
          opened.content]
        refine ⟨single', fun q => ?_⟩
        by_cases isIt : place (cText path) = q
        · rw [if_pos isIt, ← isIt, here]
        · rw [if_neg isIt, others q (Ne.symm isIt)]

theorem run_call (single : fs.Single) (c : Call) : (c.run place fs).2.Single ∧
    ∀ q, (c.target place = some q → c.Settled) →
      (c.run place fs).2.read q =
        if c.target place = some q then c.effect (fs.read q) else fs.read q := by
  cases c with
  | save appends o path content =>
    have saved : (Call.save appends o path content).run place fs =
        save place (if appends then Files.openAppend else Files.truncate) o path content fs := by
      cases appends <;> rfl
    have opens (p : Place) : fs.Opened p (if appends then (fs.read p).getD [] else [])
        ((if appends then Files.openAppend else Files.truncate) fs p).1
        ((if appends then Files.openAppend else Files.truncate) fs p).2 := by
      cases appends
      · exact Files.opened_truncate single p
      · exact Files.opened_openAppend single p
    obtain ⟨single', reads⟩ := @read_save Place _ place fs _
      (fun old => if appends then old.getD [] else []) opens single o path content
    rw [saved]
    refine ⟨single', fun q settled => ?_⟩
    rw [reads]
    by_cases isIt : (Call.save appends o path content).target place = some q
    · have whole := settled isIt
      rw [if_pos isIt, Call.effect]
      cases isOpen : o.opens with
      | false => simp
      | true =>
        rw [if_pos ⟨isIt, rfl⟩, if_pos rfl]
        cases content with
        | none => rfl
        | some text => simp only [Option.elim_some, whole text rfl isOpen]
    · rw [if_neg isIt, if_neg fun both => isIt both.1]
  | remove removes path =>
    cases path with
    | none => exact ⟨single, fun q _ => by simp [Call.run, Call.target, duxrtFileRemove]⟩
    | some path =>
      simp only [Call.run, duxrtFileRemove]
      split
      · next both =>
        rw [Bool.and_eq_true] at both
        refine ⟨Files.single_remove single _, fun q _ => ?_⟩
        rw [Files.read_remove, Call.effect, if_pos both.1]
        simp only [Call.target, Option.map_some, Option.some.injEq, eq_comm]
      · next other =>
        refine ⟨single, fun q _ => ?_⟩
        split
        · next isIt =>
          obtain rfl := Option.some.inj isIt
          cases removes with
          | false => rfl
          | true =>
            rw [Bool.true_and, Bool.not_eq_true, Option.isSome_eq_false_iff,
              Option.isNone_iff_eq_none] at other
            rw [Files.read, other]
            rfl
        · rfl

/-- What `duxrt_file_read` gives behind any run of calls is what those calls on the same file, in
their order, have made of it: the last text written, the texts appended to it since, and nothing if
it was removed.  Neither calls on other files matter nor whether these fail. -/
theorem read_runCalls (single : fs.Single) (calls : List Call) (path : Bytes)
    (settled : ∀ c ∈ calls, c.target place = some (place (cText path)) → c.Settled) :
    duxrtFileRead place ⟨true, true, none⟩ (some path) (runCalls place calls fs) =
      (((calls.filter (·.target place = some (place (cText path)))).foldl
        (fun old c => c.effect old) (fs.read (place (cText path)))).elim (some []) strNew) := by
  have reads : (runCalls place calls fs).read (place (cText path)) =
      (calls.filter (·.target place = some (place (cText path)))).foldl (fun old c => c.effect old)
        (fs.read (place (cText path))) := by
    induction calls generalizing fs with
    | nil => rfl
    | cons c calls ih =>
      rw [List.forall_mem_cons] at settled
      obtain ⟨single', step⟩ := @run_call _ _ place fs single c
      rw [runCalls, List.foldl_cons, ← runCalls, ih single' settled.2, step _ settled.1,
        List.filter_cons]
      by_cases isIt : c.target place = some (place (cText path)) <;> simp [isIt]
  rw [duxrtFileRead, opened, Option.bind_some, if_pos rfl, reads]
  cases (calls.filter _).foldl _ _ <;> rfl

/-- Writes to two files, `a` and `b`, of which those to `b` fail. -/
def twoFiles : List Call :=
  [.save false ⟨true, none, none⟩ (some [0x61]) (some [1, 2]),
    .save false ⟨true, none, some 0⟩ (some [0x62]) (some [9]),
    .save true ⟨false, none, none⟩ (some [0x62]) (some [8]),
    .save true ⟨true, none, none⟩ (some [0x61]) (some [3])]

theorem read_twoFiles : duxrtFileRead id ⟨true, true, none⟩ (some [0x61])
    (runCalls id twoFiles ⟨fun _ => none, fun _ => [], 0, fun _ _ found => by cases found⟩) =
      some [1, 2, 3] := by
  have settled : ∀ c ∈ twoFiles, c.target id = some (cText [0x61]) → c.Settled := by
    have other : cText [0x62] ≠ cText [0x61] := by decide
    simp [twoFiles, Call.target, Call.Settled, Saving.saved, upTo, other]
  exact (read_runCalls (fun p q i found => by cases found) twoFiles [0x61] settled).trans
    (by decide +kernel)

end Runs

/-! ## Lines -/

section Lines

variable {Place : Type*} {place : Bytes → Place} {fs : Files Place}

theorem mapM_strNew_eq_some_iff {ls ls' : List Bytes} :
    ls.mapM strNew = some ls' ↔ ls = ls' ∧ ∀ line ∈ ls, line.length ≤ int32Max := by
  induction ls generalizing ls' with
  | nil => simp [eq_comm]
  | cons line ls ih =>
    rw [List.mapM_cons, List.forall_mem_cons, strNew]
    by_cases small : line.length ≤ int32Max
    · simp only [if_pos small, Option.bind_eq_bind, Option.bind_some, Option.bind_eq_some_iff, ih,
        Option.pure_def, Option.some.injEq]
      constructor
      · rintro ⟨rest, ⟨rfl, all⟩, rfl⟩
        exact ⟨rfl, small, all⟩
      · rintro ⟨rfl, -, all⟩
        exact ⟨ls, ⟨rfl, all⟩, rfl⟩
    · simp [small]

/-- The lines that `duxrt_file_read_lines` gives of a file have no newlines, fit into strings, and
are the only ones whose text is that of the file, with a newline at its end. -/
theorem readLines_iff {path content : Bytes} (found : fs.read (place (cText path)) = some content)
    {ls : List Bytes} : duxrtFileReadLines place ⟨true, true, none⟩ (some path) fs = some ls ↔
      (∀ line ∈ ls, newline ∉ line) ∧ (∀ line ∈ ls, line.length ≤ int32Max) ∧
        unlines newline ls = terminated newline content := by
  rw [duxrtFileReadLines, opened, Option.bind_some, if_pos rfl, found]
  dsimp only
  rw [mapM_strNew_eq_some_iff, upTo, Option.elim_none]
  constructor
  · rintro ⟨isLines, small⟩
    obtain ⟨plain, same⟩ := Logic.lines_eq_iff.1 isLines
    exact ⟨plain, isLines ▸ small, same⟩
  · rintro ⟨plain, small, same⟩
    have isLines := Logic.lines_eq_iff.2 ⟨plain, same⟩
    exact ⟨isLines, isLines.symm ▸ small⟩

theorem readLines_ab : duxrtFileReadLines id ⟨true, true, none⟩ (some [0x66])
    ⟨fun _ => some 0, fun _ => [0x61, 0x0a, 0x62], 1, fun _ _ found => by cases found; decide⟩ =
      some [[0x61], [0x62]] :=
  (readLines_iff rfl).2 ⟨by decide, by decide, by decide⟩

end Lines

end Dux.Runtime.TextFiles
