import Mathlib.Data.List.Basic
import Mathlib.Data.List.Induction
import Mathlib.Data.List.TakeWhile

/-!
# Trees of files

Directories and files without links, how a path leads to a place of the tree, and `mkdir` as
POSIX describes it, where nobody lacks a permission.
-/

namespace Dux.Logic.FileTree

/-! ## Paths -/

abbrev Name := List UInt8

/-- A place of a tree: the names from the innermost one out to the root. -/
abbrev Place := List Name

def slash : UInt8 := 47

/-- The name `cur`, unless it is empty. -/
def single (cur : Name) : List Name := if cur = [] then [] else [cur]

/-- The names of a path, of which `cur` has been read. -/
def split : Name → List UInt8 → List Name
  | cur, [] => single cur
  | cur, b :: rest => if b = slash then single cur ++ split [] rest else split (cur ++ [b]) rest

/-- The names of a path; slashes that follow each other are one. -/
def components (path : List UInt8) : List Name := split [] path

/-- The place that a name leads to: `.` stays, and `..` goes out, but not out of the root. -/
def enter (place : Place) (name : Name) : Place :=
  if name = [46] then place else if name = [46, 46] then place.tail else name :: place

/-- The place that some names lead to. -/
def leads (place : Place) (names : List Name) : Place := names.foldl enter place

def ways : Place → List Name → List Place
  | _, [] => []
  | place, name :: names => enter place name :: ways (enter place name) names

section Paths

variable {cur left right path : List UInt8} {place : Place} {names : List Name}

/-- A text is empty or its last byte is a slash. -/
def Ended (text : List UInt8) : Prop := text = [] ∨ ∃ before, text = before ++ [slash]

theorem split_append_slash (cur left right : List UInt8) :
    split cur (left ++ slash :: right) = split cur left ++ components right := by
  induction left generalizing cur with
  | nil => simp [split, components]
  | cons b left ih =>
    rw [List.cons_append, split, split]
    by_cases isSlash : b = slash
    · rw [if_pos isSlash, if_pos isSlash, ih, List.append_assoc]
    · rw [if_neg isSlash, if_neg isSlash, ih]

theorem split_noSlash (noSlash : slash ∉ left) : split cur left = single (cur ++ left) := by
  induction left generalizing cur with
  | nil => rw [split, List.append_nil]
  | cons b left ih =>
    rw [List.mem_cons, not_or] at noSlash
    rw [split, if_neg (Ne.symm noSlash.1), ih noSlash.2, List.append_assoc]
    rfl

theorem components_concat_slash (path : List UInt8) :
    components (path ++ [slash]) = components path := by
  rw [components, split_append_slash, components, split, single, if_pos rfl, List.append_nil]
  rfl

theorem components_append (ended : Ended left) (right : List UInt8) :
    components (left ++ right) = components left ++ components right := by
  rcases ended with rfl | ⟨before, rfl⟩
  · rfl
  · rw [components_concat_slash, List.append_assoc, components]
    exact split_append_slash [] before right

theorem components_noSlash (noSlash : slash ∉ cur) : components cur = single cur :=
  split_noSlash noSlash

theorem exists_ended (path : List UInt8) :
    ∃ left cur, path = left ++ cur ∧ Ended left ∧ slash ∉ cur := by
  induction path using List.reverseRecOn with
  | nil => exact ⟨[], [], rfl, .inl rfl, List.not_mem_nil⟩
  | append_singleton path b ih =>
    by_cases isSlash : b = slash
    · refine ⟨path ++ [b], [], (List.append_nil _).symm, .inr ⟨path, ?_⟩, List.not_mem_nil⟩
      rw [isSlash]
    · obtain ⟨left, cur, eq, ended, noSlash⟩ := ih
      refine ⟨left, cur ++ [b], ?_, ended, ?_⟩
      · rw [eq, List.append_assoc]
      · rw [List.mem_append, List.mem_singleton, not_or]
        exact ⟨noSlash, Ne.symm isSlash⟩

theorem dropLast_components_isPrefix (left right : List UInt8) :
    (components left).dropLast <+: components (left ++ right) := by
  obtain ⟨before, cur, rfl, ended, noSlash⟩ := exists_ended left
  rw [components_append ended, components_noSlash noSlash, List.append_assoc,
    components_append ended]
  by_cases empty : cur = []
  · rw [single, if_pos empty, List.append_nil]
    exact (List.dropLast_prefix _).trans (List.prefix_append _ _)
  · rw [single, if_neg empty, List.dropLast_concat]
    exact List.prefix_append _ _

theorem ways_append (place : Place) (names more : List Name) :
    ways place (names ++ more) = ways place names ++ ways (leads place names) more := by
  induction names generalizing place with
  | nil => rfl
  | cons name names ih => exact congrArg (enter place name :: ·) (ih (enter place name))

theorem ways_concat (place : Place) (names : List Name) (name : Name) :
    ways place (names ++ [name]) = ways place names ++ [enter (leads place names) name] :=
  ways_append place names [name]

end Paths

/-! ## Trees -/

inductive Kind
  | directory
  | file
  deriving DecidableEq, Repr

/-- A tree, with the directory that relative paths are looked up from. -/
structure FileSystem where
  node : Place → Option Kind
  root : node [] = some .directory
  parent : ∀ name place, node (name :: place) ≠ none → node place = some .directory
  cwd : Place
  cwd_directory : node cwd = some .directory

def enoent : Int := 2

def eexist : Int := 17

def enotdir : Int := 20

namespace FileSystem

/-- The place that a path is looked up from. -/
def start (fs : FileSystem) (path : List UInt8) : Place :=
  if path.head? = some slash then [] else fs.cwd

theorem start_append (fs : FileSystem) {path : List UInt8} (nonempty : path ≠ [])
    (more : List UInt8) : fs.start (path ++ more) = fs.start path := by
  cases path with
  | nil => exact absurd rfl nonempty
  | cons b path => rfl

/-- The place that some names lead to, if each of them is looked up in a directory. -/
def walk (fs : FileSystem) : Place → List Name → Except Int Place
  | place, [] => if fs.node place = none then .error enoent else .ok place
  | place, name :: names =>
      match fs.node place with
      | none => .error enoent
      | some .file => .error enotdir
      | some .directory => fs.walk (enter place name) names

/-- A path names a directory. -/
def IsDirectory (fs : FileSystem) (path : List UInt8) : Prop :=
  path ≠ [] ∧ ∃ place, fs.walk (fs.start path) (components path) = .ok place ∧
    fs.node place = some .directory

theorem start_directory (fs : FileSystem) (path : List UInt8) :
    fs.node (fs.start path) = some .directory := by
  rw [start]
  split
  · exact fs.root
  · exact fs.cwd_directory

theorem enter_missing {fs : FileSystem} {place : Place} {name : Name}
    (isDir : fs.node place = some .directory) (missing : fs.node (enter place name) = none) :
    enter place name = name :: place := by
  unfold enter at missing ⊢
  by_cases dot : name = [46]
  · rw [if_pos dot, isDir] at missing
    cases missing
  · rw [if_neg dot] at missing ⊢
    by_cases dots : name = [46, 46]
    · rw [if_pos dots] at missing
      cases place with
      | nil =>
        rw [List.tail_nil, fs.root] at missing
        cases missing
      | cons inner place =>
        have outer := fs.parent inner place (by rw [isDir]; exact Option.some_ne_none _)
        rw [List.tail_cons, outer] at missing
        cases missing
    · rw [if_neg dots]

def add (fs : FileSystem) {place : Place} {name : Name} (isDir : fs.node place = some .directory)
    (missing : fs.node (enter place name) = none) : FileSystem where
  node p := if p = enter place name then some .directory else fs.node p
  root := by
    rw [fs.root, ite_self]
  parent inner outer found := by
    by_cases isNew : inner :: outer = enter place name
    · rw [enter_missing isDir missing] at isNew ⊢
      injection isNew with _ isPlace
      rw [isPlace, isDir, ite_self]
    · rw [if_neg isNew] at found
      rw [fs.parent inner outer found, ite_self]
  cwd := fs.cwd
  cwd_directory := by
    rw [fs.cwd_directory, ite_self]

/-- `mkdir`, or the error it ends with. -/
def mkdir (fs : FileSystem) (path : List UInt8) : Except Int FileSystem :=
  if path = [] then .error enoent
  else
    match (components path).getLast? with
    | none => .error eexist
    | some name =>
        match fs.walk (fs.start path) (components path).dropLast with
        | .error e => .error e
        | .ok place =>
            if isDir : fs.node place = some .directory then
              if missing : fs.node (enter place name) = none then .ok (fs.add isDir missing)
              else .error eexist
            else .error enotdir

/-! ## What a path names -/

section Lookup

variable {fs : FileSystem} {place q : Place} {names : List Name}

/-- All places that some names lead through are directories. -/
def Passable (fs : FileSystem) (place : Place) (names : List Name) : Prop :=
  ∀ p ∈ ways place names, fs.node p = some .directory

theorem passable_cons {name : Name} : fs.Passable place (name :: names) ↔
    fs.node (enter place name) = some .directory ∧ fs.Passable (enter place name) names :=
  List.forall_mem_cons

theorem walk_of_not_directory (other : fs.node place ≠ some .directory) :
    ¬(fs.walk place names = .ok q ∧ fs.node q = some .directory) := by
  rintro ⟨found, isDir⟩
  cases names with
  | nil =>
    rw [walk] at found
    split at found
    · cases found
    · cases found
      exact other isDir
  | cons name names =>
    rw [walk] at found
    split at found
    · cases found
    · cases found
    · next passes => exact other passes

theorem walk_iff_passable (isDir : fs.node place = some .directory) :
    fs.walk place names = .ok q ∧ fs.node q = some .directory ↔
      fs.Passable place names ∧ q = leads place names := by
  induction names generalizing place with
  | nil =>
    rw [walk, if_neg (by rw [isDir]; exact Option.some_ne_none _)]
    constructor
    · rintro ⟨found, -⟩
      cases found
      exact ⟨nofun, rfl⟩
    · rintro ⟨-, rfl⟩
      exact ⟨rfl, isDir⟩
  | cons name names ih =>
    rw [walk, isDir, passable_cons]
    dsimp only
    by_cases next : fs.node (enter place name) = some .directory
    · rw [ih next]
      exact ⟨fun found => ⟨⟨next, found.1⟩, found.2⟩, fun found => ⟨found.1.2, found.2⟩⟩
    · exact ⟨fun found => absurd found (walk_of_not_directory next),
        fun found => absurd found.1.1 next⟩

theorem isDirectory_iff {path : List UInt8} : fs.IsDirectory path ↔
    path ≠ [] ∧ fs.Passable (fs.start path) (components path) := by
  apply and_congr_right
  intro _
  constructor
  · rintro ⟨place, found⟩
    exact ((walk_iff_passable (fs.start_directory path)).mp found).1
  · intro passable
    exact ⟨_, (walk_iff_passable (fs.start_directory path)).mpr ⟨passable, rfl⟩⟩

theorem walk_error_ne (fs : FileSystem) (place : Place) (names : List Name) :
    fs.walk place names ≠ .error eexist := by
  induction names generalizing place with
  | nil =>
    rw [walk]
    split
    · intro same
      injection same with same
      exact absurd same (by decide)
    · intro same
      cases same
  | cons name names ih =>
    rw [walk]
    split
    · intro same
      injection same with same
      exact absurd same (by decide)
    · intro same
      injection same with same
      exact absurd same (by decide)
    · exact ih _

end Lookup

/-! ## Making directories -/

section Making

variable {fs : FileSystem} {names : List Name} {name : Name} {path : List UInt8}

theorem mkdir_nameless (nonempty : path ≠ []) (nameless : components path = []) :
    fs.mkdir path = .error eexist := by
  rw [mkdir, if_neg nonempty, nameless]
  rfl

theorem mkdir_found (nonempty : path ≠ []) (isPath : components path = names ++ [name])
    (passable : fs.Passable (fs.start path) names)
    (found : fs.node (enter (leads (fs.start path) names) name) ≠ none) :
    fs.mkdir path = .error eexist := by
  obtain ⟨walks, isDir⟩ := (walk_iff_passable (fs.start_directory path)).mpr ⟨passable, rfl⟩
  rw [mkdir, if_neg nonempty, isPath, List.getLast?_concat, List.dropLast_concat]
  dsimp only
  rw [walks]
  dsimp only
  rw [dif_pos isDir, dif_neg found]

theorem mkdir_missing (nonempty : path ≠ []) (isPath : components path = names ++ [name])
    (passable : fs.Passable (fs.start path) names)
    (missing : fs.node (enter (leads (fs.start path) names) name) = none) :
    ∃ fs', fs.mkdir path = .ok fs' ∧ fs'.cwd = fs.cwd ∧ ∀ p, fs'.node p =
      if p = enter (leads (fs.start path) names) name then some .directory else fs.node p := by
  obtain ⟨walks, isDir⟩ := (walk_iff_passable (fs.start_directory path)).mpr ⟨passable, rfl⟩
  refine ⟨fs.add isDir missing, ?_, rfl, fun p => rfl⟩
  rw [mkdir, if_neg nonempty, isPath, List.getLast?_concat, List.dropLast_concat]
  dsimp only
  rw [walks]
  dsimp only
  rw [dif_pos isDir, dif_pos missing]

theorem mkdir_not_passable (nonempty : path ≠ []) (isPath : components path = names ++ [name])
    (other : ¬fs.Passable (fs.start path) names) :
    ∃ e, fs.mkdir path = .error e ∧ e ≠ eexist := by
  rw [mkdir, if_neg nonempty, isPath, List.getLast?_concat, List.dropLast_concat]
  dsimp only
  cases walks : fs.walk (fs.start path) names with
  | error e =>
    refine ⟨e, rfl, ?_⟩
    rintro rfl
    exact walk_error_ne fs _ _ walks
  | ok place =>
    have isFile : fs.node place ≠ some .directory := by
      intro isDir
      exact other ((walk_iff_passable (fs.start_directory path)).mp ⟨walks, isDir⟩).1
    refine ⟨enotdir, ?_, by decide⟩
    dsimp only
    rw [dif_neg isFile]

end Making

/-! ## Making ancestors -/

/-- A file stands on the way of some names. -/
def Blocked (fs : FileSystem) (place : Place) (names : List Name) : Prop :=
  ∃ p ∈ ways place names, fs.node p = some .file

instance (fs : FileSystem) (place : Place) (names : List Name) :
    Decidable (fs.Blocked place names) :=
  inferInstanceAs (Decidable (∃ p ∈ ways place names, _))

/-- The places that some names lead through before the first file. -/
def clear (fs : FileSystem) (place : Place) (names : List Name) : List Place :=
  (ways place names).takeWhile (fs.node · ≠ some .file)

/-- The second tree is the first one with the missing ones of some places as directories. -/
structure Made (fs fs' : FileSystem) (places : List Place) : Prop where
  cwd : fs'.cwd = fs.cwd
  new : ∀ p ∈ places, fs.node p = none → fs'.node p = some .directory
  old : ∀ p, fs.node p ≠ none ∨ p ∉ places → fs'.node p = fs.node p

section Ancestors

variable {fs fs' : FileSystem} {place : Place} {names : List Name} {name : Name}

theorem mem_ways_of_mem_clear {p : Place} (member : p ∈ fs.clear place names) :
    p ∈ ways place names :=
  (List.takeWhile_sublist _).subset member

theorem not_file_of_mem_clear {p : Place} (member : p ∈ fs.clear place names) :
    fs.node p ≠ some .file := by
  simpa using List.mem_takeWhile_imp member

theorem clear_append_of_blocked (blocked : fs.Blocked place names) (more : List Name) :
    fs.clear place (names ++ more) = fs.clear place names := by
  obtain ⟨p, onWay, isFile⟩ := blocked
  rw [clear, ways_append, List.takeWhile_append, if_neg]
  · rfl
  · intro whole
    rw [← (List.takeWhile_prefix _).eq_of_length whole] at onWay
    exact not_file_of_mem_clear onWay isFile

theorem mem_clear_append {p : Place} (member : p ∈ fs.clear place names) (more : List Name) :
    p ∈ fs.clear place (names ++ more) := by
  rw [clear, ways_append, List.takeWhile_append]
  split
  · exact List.mem_append_left _ (mem_ways_of_mem_clear member)
  · exact member

theorem clear_of_not_blocked (free : ¬fs.Blocked place names) :
    fs.clear place names = ways place names := by
  rw [clear, List.takeWhile_eq_self_iff]
  intro p onWay
  rw [decide_eq_true_iff]
  exact fun isFile => free ⟨p, onWay, isFile⟩

theorem mem_clear_concat {p : Place} (free : ¬fs.Blocked place names) :
    p ∈ fs.clear place (names ++ [name]) ↔
      p ∈ ways place names ∨ p = enter (leads place names) name ∧ fs.node p ≠ some .file := by
  have whole := congrArg List.length (clear_of_not_blocked free)
  rw [clear] at whole
  rw [clear, ways_concat, List.takeWhile_append, if_pos whole, List.mem_append]
  apply or_congr_right
  by_cases isFile : fs.node (enter (leads place names) name) = some .file
  · rw [List.takeWhile_cons_of_neg (by simp [isFile])]
    constructor
    · exact fun member => absurd member List.not_mem_nil
    · rintro ⟨rfl, other⟩
      exact absurd isFile other
  · rw [List.takeWhile_cons_of_pos (by simp [isFile]), List.takeWhile_nil, List.mem_singleton]
    constructor
    · rintro rfl
      exact ⟨rfl, isFile⟩
    · exact fun member => member.1

theorem mem_clear_of_missing {p : Place} (free : ¬fs.Blocked place names.dropLast)
    (missing : fs.node p = none) : p ∈ fs.clear place names ↔ p ∈ ways place names := by
  rcases List.eq_nil_or_concat' names with rfl | ⟨before, last, rfl⟩
  · rfl
  · rw [List.dropLast_concat] at free
    rw [mem_clear_concat free, ways_concat, List.mem_append, List.mem_singleton]
    apply or_congr_right
    apply and_iff_left
    rw [missing]
    exact nofun

section Made

variable {places more : List Place}

theorem Made.of_subset (made : Made fs fs' places) (upper : ∀ p ∈ places, p ∈ more)
    (found : ∀ p ∈ more, p ∈ places ∨ fs'.node p ≠ none) : Made fs fs' more where
  cwd := made.cwd
  new p member missing := by
    by_cases before : p ∈ places
    · exact made.new p before missing
    · have there := (found p member).resolve_left before
      rw [made.old p (.inr before), missing] at there
      exact absurd rfl there
  old p unchanged := made.old p (unchanged.imp_right fun absent before => absent (upper p before))

theorem Made.concat {fs'' : FileSystem} {place : Place} (made : Made fs fs' places)
    (cwd : fs''.cwd = fs'.cwd)
    (node : ∀ p, fs''.node p = if p = place then some .directory else fs'.node p)
    (missing : fs'.node place = none) (upper : ∀ p ∈ places, p ∈ more) (isOne : place ∈ more)
    (others : ∀ p ∈ more, p ∈ places ∨ p = place) : Made fs fs'' more where
  cwd := cwd.trans made.cwd
  new p member isMissing := by
    rw [node]
    by_cases same : p = place
    · rw [if_pos same]
    · rw [if_neg same]
      exact made.new p ((others p member).resolve_right same) isMissing
  old p unchanged := by
    have other : p ≠ place := by
      rintro rfl
      rcases unchanged with found | absent
      · rw [made.old p (.inl found)] at missing
        exact found missing
      · exact absent isOne
    rw [node, if_neg other]
    exact made.old p (unchanged.imp_right fun absent before => absent (upper p before))

theorem Made.found {p : Place} (made : Made fs fs' places) {kind : Kind}
    (isNode : fs.node p = some kind) : fs'.node p = some kind := by
  rw [made.old p (.inl (by rw [isNode]; exact Option.some_ne_none _)), isNode]

theorem Made.directory_iff (made : Made fs fs' places) {p : Place} :
    fs'.node p = some .directory ↔
      fs.node p = some .directory ∨ fs.node p = none ∧ p ∈ places := by
  cases isNode : fs.node p with
  | some kind =>
    rw [made.found isNode]
    exact ⟨.inl, fun directory => directory.resolve_right (fun new => nomatch new.1)⟩
  | none =>
    by_cases member : p ∈ places
    · exact ⟨fun _ => .inr ⟨rfl, member⟩, fun _ => made.new p member isNode⟩
    · rw [made.old p (.inr member), isNode]
      exact ⟨.inl, fun directory => directory.resolve_right (fun new => member new.2)⟩

theorem Made.passable_iff (made : Made fs fs' places)
    (clears : ∀ p ∈ fs.clear place names, p ∈ places) :
    fs'.Passable place names ↔ ¬fs.Blocked place names := by
  constructor
  · rintro passable ⟨p, onWay, isFile⟩
    have isDir := passable p onWay
    rw [made.found isFile] at isDir
    cases isDir
  · intro free p onWay
    cases isNode : fs.node p with
    | none =>
      apply made.new p _ isNode
      apply clears
      rw [clear_of_not_blocked free]
      exact onWay
    | some kind =>
      rw [made.found isNode]
      cases kind with
      | directory => rfl
      | file => exact absurd ⟨p, onWay, isNode⟩ free

theorem Made.mkdir {path : List UInt8} (made : Made fs fs' places)
    (nonempty : path ≠ []) (isPath : components path = names ++ [name])
    (lower : ∀ p ∈ fs.clear (fs.start path) names, p ∈ places)
    (upper : ∀ p ∈ places, p ∈ fs.clear (fs.start path) (names ++ [name])) :
    (∃ fs'', fs'.mkdir path = .ok fs'' ∧ ¬fs.Blocked (fs.start path) names ∧
      Made fs fs'' (fs.clear (fs.start path) (names ++ [name]))) ∨
    (∃ e, fs'.mkdir path = .error e ∧ (e = eexist ↔ ¬fs.Blocked (fs.start path) names) ∧
      Made fs fs' (fs.clear (fs.start path) (names ++ [name]))) := by
  have sameStart : fs'.start path = fs.start path := by rw [start, start, made.cwd]
  have passable := made.passable_iff lower
  by_cases blocked : fs.Blocked (fs.start path) names
  · have other : ¬fs'.Passable (fs'.start path) names := by
      rw [sameStart, passable]
      exact fun free => free blocked
    obtain ⟨e, fails, ne⟩ := mkdir_not_passable nonempty isPath other
    refine .inr ⟨e, fails, ⟨fun same => absurd same ne, fun free => absurd blocked free⟩,
      made.of_subset upper fun p member => .inl ?_⟩
    rw [clear_append_of_blocked blocked] at member
    exact lower p member
  · have isPassable : fs'.Passable (fs'.start path) names := by
      rw [sameStart]
      exact passable.mpr blocked
    -- what is clear was clear without the last name, or is where that one leads
    have others (p : Place) (member : p ∈ fs.clear (fs.start path) (names ++ [name])) :
        p ∈ places ∨ p = enter (leads (fs.start path) names) name := by
      refine ((mem_clear_concat blocked).mp member).imp (fun onWay => lower p ?_) And.left
      rw [clear_of_not_blocked blocked]
      exact onWay
    cases isNode : fs'.node (enter (leads (fs.start path) names) name) with
    | none =>
      obtain ⟨fs'', makes, cwd, node⟩ :=
        mkdir_missing nonempty isPath isPassable (by rw [sameStart]; exact isNode)
      rw [sameStart] at node
      refine .inl ⟨fs'', makes, blocked, made.concat cwd node isNode upper ?_ others⟩
      refine (mem_clear_concat blocked).mpr (.inr ⟨rfl, fun isFile => ?_⟩)
      rw [made.found isFile] at isNode
      cases isNode
    | some kind =>
      have there : fs'.node (enter (leads (fs.start path) names) name) ≠ none := by
        rw [isNode]
        exact Option.some_ne_none _
      have fails := mkdir_found nonempty isPath isPassable (by rw [sameStart]; exact there)
      refine .inr ⟨eexist, fails, ⟨fun _ => blocked, fun _ => rfl⟩,
        made.of_subset upper fun p member => (others p member).imp_right ?_⟩
      rintro rfl
      exact there

end Made

end Ancestors

end FileSystem

end Dux.Logic.FileTree
