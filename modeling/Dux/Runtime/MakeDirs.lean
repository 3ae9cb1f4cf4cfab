import Dux.Logic.CText
import Dux.Logic.FileTree
import Dux.Runtime.Str

/-!
# Making directories

`mkdir_p` and `duxrt_fs_mkdir_all` of `src/runtime/fs_rt.c`, on a tree where nobody lacks a
permission.  A path is the list of its bytes.
-/

namespace Dux.Runtime.MakeDirs

open Logic (cText)
open Logic.FileTree

/-- The tree and `errno`. -/
structure State where
  fs : FileSystem
  errno : Int

def mkdir (path : Bytes) (s : State) : Int × State :=
  match s.fs.mkdir path with
  | .ok fs => (0, { s with fs := fs })
  | .error e => (-1, { s with errno := e })

/-- The loop of `mkdir_p`, from a position on; the bytes before it are a path where the byte at
it is a slash. -/
def mkdirAncestors (before : Bytes) : Bytes → State → State
  | [], s => s
  | b :: rest, s =>
      mkdirAncestors (before ++ [b]) rest (if b = slash then (mkdir before s).2 else s)

/-- The bytes that are there for a path in `char tmp[4096]`. -/
def room : Nat := 4095

/-- A path without the slash at its end. -/
def strip (tmp : Bytes) : Bytes := if tmp.getLast? = some slash then tmp.dropLast else tmp

/-- `mkdir_p`.  From `/` nothing is left; the loop then starts at the terminator behind it. -/
def mkdirP (path : Bytes) (s : State) : Int × State :=
  let tmp := path.take room
  if tmp.length = 0 then (-1, s)
  else
    let tmp := strip tmp
    mkdir tmp (mkdirAncestors (tmp.take 1) (tmp.drop 1) s)

def duxrtFsMkdirAll (path : Option Bytes) (s : State) : Int × State :=
  match path with
  | none => (-1, s)
  | some path =>
      let (r, s) := mkdirP (cText path) s
      (if r = 0 ∨ s.errno = eexist then 0 else -1, s)

/-! ## What is made -/

section Made

variable {fs : FileSystem} {place : Place} {left cur : Bytes} {s : State}

theorem mkdir_made (nonempty : left ++ cur ≠ []) (ended : Ended left) (noSlash : slash ∉ cur)
    (isStart : fs.start (left ++ cur) = place)
    (made : fs.Made s.fs (fs.clear place (components left))) :
    fs.Made (mkdir (left ++ cur) s).2.fs (fs.clear place (components (left ++ cur))) ∧
      ((mkdir (left ++ cur) s).1 = 0 ∨ (mkdir (left ++ cur) s).2.errno = eexist ↔
        ¬fs.Blocked place (components (left ++ cur)).dropLast) := by
  subst isStart
  have isPath : components (left ++ cur) = components left ++ single cur := by
    rw [components_append ended, components_noSlash noSlash]
  rcases List.eq_nil_or_concat' (components (left ++ cur)) with nameless | ⟨names, name, named⟩
  · have same : components left = [] :=
      (List.append_eq_nil_iff.mp (isPath.symm.trans nameless)).1
    have fails : s.fs.mkdir (left ++ cur) = .error eexist :=
      FileSystem.mkdir_nameless nonempty nameless
    rw [same] at made
    rw [mkdir, fails, nameless]
    refine ⟨made, fun _ => ?_, fun _ => .inr rfl⟩
    rintro ⟨p, onWay, -⟩
    exact List.not_mem_nil onWay
  · have lower (p : Place) (member : p ∈ fs.clear (fs.start (left ++ cur)) names) :
        p ∈ fs.clear (fs.start (left ++ cur)) (components left) := by
      by_cases empty : cur = []
      · rw [single, if_pos empty, List.append_nil] at isPath
        rw [← isPath, named]
        exact FileSystem.mem_clear_append member _
      · rw [single, if_neg empty, named] at isPath
        rw [← (List.append_inj' isPath rfl).1]
        exact member
    have upper (p : Place) (member : p ∈ fs.clear (fs.start (left ++ cur)) (components left)) :
        p ∈ fs.clear (fs.start (left ++ cur)) (names ++ [name]) := by
      rw [← named, isPath]
      exact FileSystem.mem_clear_append member _
    rw [named, List.dropLast_concat, mkdir]
    rcases made.mkdir nonempty named lower upper with
      ⟨fs', makes, free, made'⟩ | ⟨e, fails, iff, made'⟩
    · rw [makes]
      exact ⟨made', fun _ => free, fun _ => .inl rfl⟩
    · rw [fails]
      refine ⟨made', ?_⟩
      rw [← iff]
      exact ⟨fun outcome => outcome.resolve_left (show (-1 : Int) ≠ 0 by decide), .inr⟩

theorem mkdirAncestors_made {rest : Bytes} (nonempty : left ++ cur ≠ []) (ended : Ended left)
    (noSlash : slash ∉ cur) (isStart : fs.start (left ++ cur) = place)
    (made : fs.Made s.fs (fs.clear place (components left))) :
    ∃ left' cur', left ++ cur ++ rest = left' ++ cur' ∧ Ended left' ∧ slash ∉ cur' ∧
      fs.Made (mkdirAncestors (left ++ cur) rest s).fs (fs.clear place (components left')) := by
  induction rest generalizing left cur s with
  | nil => exact ⟨left, cur, List.append_nil _, ended, noSlash, made⟩
  | cons b rest ih =>
    have sameStart : fs.start (left ++ cur ++ [b]) = place :=
      (fs.start_append nonempty [b]).trans isStart
    have nonempty' : left ++ cur ++ [b] ≠ [] := List.concat_ne_nil _ _
    rw [mkdirAncestors, List.append_cons]
    by_cases isSlash : b = slash
    · rw [if_pos isSlash]
      subst isSlash
      have made' := (mkdir_made nonempty ended noSlash isStart made).1
      rw [← components_concat_slash] at made'
      have next := @ih (left ++ cur ++ [slash]) [] (mkdir (left ++ cur) s).2
      simp only [List.append_nil] at next
      exact next nonempty' (.inr ⟨_, rfl⟩) List.not_mem_nil sameStart made'
    · rw [if_neg isSlash, List.append_assoc left]
      rw [List.append_assoc] at nonempty' sameStart
      refine ih nonempty' ended ?_ sameStart made
      rw [List.mem_append, List.mem_singleton, not_or]
      exact ⟨noSlash, Ne.symm isSlash⟩

theorem made_nil (fs : FileSystem) : fs.Made fs [] := ⟨rfl, nofun, fun _ _ => rfl⟩

theorem strip_eq {tmp : Bytes} (nonempty : tmp ≠ []) (notRoot : tmp ≠ [slash]) :
    strip tmp ≠ [] ∧ components (strip tmp) = components tmp ∧
      fs.start (strip tmp) = fs.start tmp := by
  rw [strip]
  by_cases isLast : tmp.getLast? = some slash
  · rw [if_pos isLast]
    have eq := List.dropLast_append_getLast? _ isLast
    have nonempty' : tmp.dropLast ≠ [] := by
      intro empty
      rw [empty] at eq
      exact notRoot eq.symm
    refine ⟨nonempty', ?_, ?_⟩
    · rw [← components_concat_slash, eq]
    · rw [← fs.start_append nonempty' [slash], eq]
  · rw [if_neg isLast]
    exact ⟨nonempty, rfl, rfl⟩

theorem take_room {path : Bytes} (nonempty : path ≠ []) (notRoot : path ≠ [slash]) :
    path.take room ≠ [] ∧ path.take room ≠ [slash] := by
  constructor
  · intro empty
    exact (List.take_eq_nil_iff.mp empty).elim (by decide) nonempty
  · intro isRoot
    have length := congrArg List.length isRoot
    rw [List.length_take, List.length_singleton, room] at length
    rw [List.take_of_length_le (by rw [room]; omega)] at isRoot
    exact notRoot isRoot

theorem mkdirP_made {path : Bytes} (nonempty : path ≠ []) (notRoot : path ≠ [slash]) (s : State) :
    s.fs.Made (mkdirP path s).2.fs
        (s.fs.clear (s.fs.start path) (components (path.take room))) ∧
      ((mkdirP path s).1 = 0 ∨ (mkdirP path s).2.errno = eexist ↔
        ¬s.fs.Blocked (s.fs.start path) (components (path.take room)).dropLast) := by
  obtain ⟨cut, cutNotRoot⟩ := take_room nonempty notRoot
  have isStart : s.fs.start (path.take room) = s.fs.start path := by
    rw [← s.fs.start_append cut (path.drop room), List.take_append_drop]
  obtain ⟨nonempty', sameNames, sameStart⟩ := @strip_eq s.fs _ cut cutNotRoot
  rw [mkdirP, if_neg (mt List.length_eq_zero_iff.mp cut), ← sameNames, ← isStart, ← sameStart]
  dsimp only
  generalize strip (path.take room) = tmp at nonempty'
  cases tmp with
  | nil => exact absurd rfl nonempty'
  | cons b rest =>
    -- the first byte is not looked at
    have firsts : ∃ left cur, [b] = left ++ cur ∧ Ended left ∧ slash ∉ cur ∧
        components left = [] := by
      by_cases isSlash : b = slash
      · subst isSlash
        exact ⟨[slash], [], rfl, .inr ⟨[], rfl⟩, List.not_mem_nil, rfl⟩
      · exact ⟨[], [b], rfl, .inl rfl, by simpa using Ne.symm isSlash, rfl⟩
    obtain ⟨left, cur, isFirst, ended, noSlash, noNames⟩ := firsts
    have made : s.fs.Made s.fs (s.fs.clear (s.fs.start (b :: rest)) (components left)) := by
      rw [noNames]
      exact made_nil s.fs
    have first : left ++ cur ≠ [] := by
      rw [← isFirst]
      exact List.cons_ne_nil b []
    have startFirst : s.fs.start (left ++ cur) = s.fs.start (b :: rest) := by
      rw [← isFirst]
      rfl
    obtain ⟨left', cur', eq, ended', noSlash', made'⟩ :=
      @mkdirAncestors_made s.fs _ left cur s rest first ended noSlash startFirst made
    rw [← isFirst] at eq made'
    have eq : b :: rest = left' ++ cur' := eq
    have all := mkdir_made (by rw [← eq]; exact nonempty') ended' noSlash' (by rw [← eq]) made'
    rw [← eq] at all
    exact all

end Made

/-! ## When all of a path is made -/

/-- The places that a path leads through. -/
def onWay (fs : FileSystem) (path : Bytes) : List Place := ways (fs.start path) (components path)

/-- Success is reported exactly when the path names a directory, and nothing is made but
directories that were missing on its way. -/
def MakesAll (path : Bytes) (s : State) : Prop :=
  let r := duxrtFsMkdirAll (some path) s
  (r.1 = 0 ↔ r.2.fs.IsDirectory (cText path)) ∧
    ∀ p, r.2.fs.node p = s.fs.node p ∨
      s.fs.node p = none ∧ r.2.fs.node p = some .directory ∧ p ∈ onWay s.fs (cText path)

/-- The path is not the root, nor empty while `errno` is `EEXIST`.  As far as it has room, a file
stands before its end, or both it and the path lead through directories and the same missing
places; what stands at its end may be a file if the path goes elsewhere. -/
def Suits (path : Bytes) (s : State) : Prop :=
  let t := cText path
  (t = [] → s.errno ≠ eexist) ∧ t ≠ [slash] ∧
    (s.fs.Blocked (s.fs.start t) (components (t.take room)).dropLast ∨
      (∀ p ∈ onWay s.fs t, s.fs.node p = some .directory ∨
        s.fs.node p = none ∧ p ∈ onWay s.fs (t.take room)) ∧
      ∀ p ∈ onWay s.fs (t.take room), s.fs.node p ≠ none ∨ p ∈ onWay s.fs t)

section Suits

variable {path : Bytes} {s : State}

theorem verdict_iff (nonempty : cText path ≠ []) (notRoot : cText path ≠ [slash]) :
    (duxrtFsMkdirAll (some path) s).1 = 0 ↔ ¬s.fs.Blocked (s.fs.start (cText path))
      (components ((cText path).take room)).dropLast := by
  rw [← (mkdirP_made nonempty notRoot s).2, duxrtFsMkdirAll]
  dsimp only
  split
  · next success => exact ⟨fun _ => success, fun _ => rfl⟩
  · next failure =>
      exact ⟨fun zero => absurd zero (by decide), fun success => absurd success failure⟩

theorem mem_onWay {p : Place} (fs : FileSystem) (t : Bytes)
    (member : p ∈ ways (fs.start t) (components (t.take room)).dropLast) : p ∈ onWay fs t := by
  have isPrefix := dropLast_components_isPrefix (t.take room) (t.drop room)
  rw [List.take_append_drop] at isPrefix
  obtain ⟨more, eq⟩ := isPrefix
  rw [onWay, ← eq, ways_append]
  exact List.mem_append_left _ member

theorem isDirectory_iff_made {fs fs' : FileSystem} {places : List Place} {t : Bytes}
    (nonempty : t ≠ []) (made : fs.Made fs' places) : fs'.IsDirectory t ↔
      ∀ p ∈ onWay fs t, fs.node p = some .directory ∨ fs.node p = none ∧ p ∈ places := by
  have sameStart : fs'.start t = fs.start t := by
    rw [FileSystem.start, FileSystem.start, made.cwd]
  rw [FileSystem.isDirectory_iff, sameStart, and_iff_right nonempty]
  exact forall₂_congr fun p _ => made.directory_iff

theorem onlyWay_iff {fs fs' : FileSystem} {places : List Place} {t : Bytes}
    (made : fs.Made fs' places) :
    (∀ p, fs'.node p = fs.node p ∨
      fs.node p = none ∧ fs'.node p = some .directory ∧ p ∈ onWay fs t) ↔
      ∀ p, fs.node p = none → p ∈ places → p ∈ onWay fs t := by
  apply forall_congr'
  intro p
  constructor
  · intro kept missing member
    rcases kept with same | ⟨-, -, isOnWay⟩
    · rw [missing, made.new p member missing] at same
      cases same
    · exact isOnWay
  · intro isOnWay
    by_cases missing : fs.node p = none
    · by_cases member : p ∈ places
      · exact .inr ⟨missing, made.new p member missing, isOnWay missing member⟩
      · exact .inl (made.old p (.inr member))
    · exact .inl (made.old p (.inl missing))

theorem makesAll_of_blocked (nonempty : cText path ≠ []) (notRoot : cText path ≠ [slash])
    (blocked : s.fs.Blocked (s.fs.start (cText path))
      (components ((cText path).take room)).dropLast) : MakesAll path s := by
  have made := (mkdirP_made nonempty notRoot s).1
  constructor
  · have failure := mt (verdict_iff nonempty notRoot).mp (fun free => free blocked)
    refine ⟨fun success => absurd success failure, fun isDir => ?_⟩
    obtain ⟨p, before, isFile⟩ := blocked
    have others := (isDirectory_iff_made nonempty made).mp isDir p (mem_onWay s.fs _ before)
    rw [isFile] at others
    rcases others with isDir | ⟨missing, -⟩
    · cases isDir
    · cases missing
  · apply (onlyWay_iff made).mpr
    intro p missing member
    apply mem_onWay s.fs
    rcases List.eq_nil_or_concat' (components ((cText path).take room)) with
      nameless | ⟨before, last, eq⟩
    · rw [nameless] at member
      exact absurd member List.not_mem_nil
    · rw [eq, List.dropLast_concat] at blocked
      rw [eq, FileSystem.clear_append_of_blocked blocked] at member
      rw [eq, List.dropLast_concat]
      exact FileSystem.mem_ways_of_mem_clear member

theorem makesAll_iff_of_free (nonempty : cText path ≠ []) (notRoot : cText path ≠ [slash])
    (free : ¬s.fs.Blocked (s.fs.start (cText path))
      (components ((cText path).take room)).dropLast) :
    MakesAll path s ↔
      (∀ p ∈ onWay s.fs (cText path), s.fs.node p = some .directory ∨
        s.fs.node p = none ∧ p ∈ onWay s.fs ((cText path).take room)) ∧
      ∀ p ∈ onWay s.fs ((cText path).take room),
        s.fs.node p ≠ none ∨ p ∈ onWay s.fs (cText path) := by
  have made := (mkdirP_made nonempty notRoot s).1
  have success := (verdict_iff nonempty notRoot).mpr free
  have sameStart : s.fs.start ((cText path).take room) = s.fs.start (cText path) := by
    rw [← s.fs.start_append (take_room nonempty notRoot).1 ((cText path).drop room),
      List.take_append_drop]
  have clear (p : Place) (missing : s.fs.node p = none) :
      p ∈ s.fs.clear (s.fs.start (cText path)) (components ((cText path).take room)) ↔
        p ∈ onWay s.fs ((cText path).take room) := by
    rw [onWay, sameStart]
    exact FileSystem.mem_clear_of_missing free missing
  rw [MakesAll]
  apply and_congr
  · rw [iff_true_left success]
    refine (isDirectory_iff_made nonempty made).trans (forall₂_congr fun p _ => ?_)
    exact or_congr_right (and_congr_right fun missing => clear p missing)
  · refine (onlyWay_iff made).trans (forall_congr' fun p => ?_)
    constructor
    · intro made onCut
      by_cases missing : s.fs.node p = none
      · exact .inr (made missing ((clear p missing).mpr onCut))
      · exact .inl missing
    · intro suits missing member
      exact (suits ((clear p missing).mp member)).resolve_left (fun found => found missing)

theorem makesAll_iff_of_empty (empty : cText path = []) : MakesAll path s ↔ s.errno ≠ eexist := by
  have noDirectory : ¬s.fs.IsDirectory [] := fun isDir => isDir.1 rfl
  have run : duxrtFsMkdirAll (some path) s = (if s.errno = eexist then 0 else -1, s) := by
    have stale : (-1 : Int) = 0 ∨ s.errno = eexist ↔ s.errno = eexist := or_iff_right (by decide)
    rw [duxrtFsMkdirAll, empty]
    exact Prod.ext (if_congr stale rfl rfl) rfl
  rw [MakesAll, run, empty, iff_false_right noDirectory]
  dsimp only
  constructor
  · rintro ⟨failure, -⟩ isExist
    exact failure (if_pos isExist)
  · intro other
    rw [if_neg other]
    exact ⟨by decide, fun p => .inl rfl⟩

theorem not_makesAll_root (isRoot : cText path = [slash]) : ¬MakesAll path s := by
  have run : duxrtFsMkdirAll (some path) s = (-1, { s with errno := enoent }) := by
    rw [duxrtFsMkdirAll, isRoot]
    rfl
  have isDir : s.fs.IsDirectory [slash] := by
    rw [FileSystem.isDirectory_iff]
    exact ⟨List.cons_ne_nil _ _, fun p isOnWay => absurd isOnWay List.not_mem_nil⟩
  rw [MakesAll, run, isRoot]
  rintro ⟨success, -⟩
  have failure : (-1 : Int) ≠ 0 := by decide
  exact failure (success.mpr isDir)

/-- All of a path is made exactly where the path and the tree suit. -/
theorem makesAll_iff_suits (path : Bytes) (s : State) : MakesAll path s ↔ Suits path s := by
  rw [Suits]
  by_cases empty : cText path = []
  · have trivially : (∀ p ∈ onWay s.fs (cText path), s.fs.node p = some .directory ∨
        s.fs.node p = none ∧ p ∈ onWay s.fs ((cText path).take room)) ∧
        ∀ p ∈ onWay s.fs ((cText path).take room),
          s.fs.node p ≠ none ∨ p ∈ onWay s.fs (cText path) := by
      rw [empty]
      exact ⟨fun p onWay => absurd onWay List.not_mem_nil,
        fun p onWay => absurd onWay List.not_mem_nil⟩
    have notRoot : cText path ≠ [slash] := by
      rw [empty]
      exact (List.cons_ne_nil _ _).symm
    rw [makesAll_iff_of_empty empty]
    exact ⟨fun other => ⟨fun _ => other, notRoot, .inr trivially⟩, fun suits => suits.1 empty⟩
  · by_cases isRoot : cText path = [slash]
    · exact ⟨fun makes => absurd makes (not_makesAll_root isRoot),
        fun suits => absurd isRoot suits.2.1⟩
    · rw [and_iff_right fun isEmpty => absurd isEmpty empty, and_iff_right isRoot]
      by_cases blocked : s.fs.Blocked (s.fs.start (cText path))
          (components ((cText path).take room)).dropLast
      · exact ⟨fun _ => .inl blocked, fun _ => makesAll_of_blocked empty isRoot blocked⟩
      · rw [makesAll_iff_of_free empty isRoot blocked, or_iff_right blocked]

/-- Where the path has room, it must not lead to a file whose ancestors are, or can be made,
directories. -/
theorem makesAll_iff_of_room (hasRoom : (cText path).length ≤ room) (nonempty : cText path ≠ [])
    (notRoot : cText path ≠ [slash]) : MakesAll path s ↔
      (s.fs.Blocked (s.fs.start (cText path)) (components (cText path)) →
        s.fs.Blocked (s.fs.start (cText path)) (components (cText path)).dropLast) := by
  have whole : (cText path).take room = cText path := List.take_of_length_le hasRoom
  by_cases blocked : s.fs.Blocked (s.fs.start (cText path)) (components (cText path)).dropLast
  · exact ⟨fun _ _ => blocked,
      fun _ => makesAll_of_blocked nonempty notRoot (by rw [whole]; exact blocked)⟩
  · have iff := makesAll_iff_of_free nonempty notRoot (by rw [whole]; exact blocked)
    rw [iff, whole]
    constructor
    · rintro ⟨places, -⟩ ⟨p, isOnWay, isFile⟩
      rcases places p isOnWay with isDir | ⟨missing, -⟩
      · cases isFile.symm.trans isDir
      · cases isFile.symm.trans missing
    · intro noFile
      refine ⟨fun p isOnWay => ?_, fun p isOnWay => .inr isOnWay⟩
      cases isNode : s.fs.node p with
      | none => exact .inr ⟨rfl, isOnWay⟩
      | some kind =>
        cases kind with
        | directory => exact .inl rfl
        | file => exact absurd (noFile ⟨p, isOnWay, isNode⟩) blocked

end Suits

def oneFile : FileSystem where
  node p := if p = [] then some .directory else if p = [[102]] then some .file else none
  root := rfl
  parent name place found := by
    by_cases isFile : name :: place = [[102]]
    · injection isFile with _ isRoot
      rw [isRoot]
      rfl
    · rw [if_neg (List.cons_ne_nil _ _), if_neg isFile] at found
      exact absurd rfl found
  cwd := []
  cwd_directory := rfl

/-- For a file, success is reported. -/
theorem not_makesAll : ¬∀ path s, MakesAll path s := by
  intro all
  have isDir := (all [102] ⟨oneFile, 0⟩).1.mp (by decide +kernel)
  have onWay := (FileSystem.isDirectory_iff.mp isDir).2 [[102]] (by decide +kernel)
  exact absurd onWay (by decide +kernel)

end Dux.Runtime.MakeDirs
