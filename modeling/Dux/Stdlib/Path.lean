import Dux.Logic.CText
import Dux.Runtime.Str

/-!
# Paths

`join`, `basename`, `dirname`, `ext` and `stem` of `stdlib/io/path.dux`.  A string is the list of
its bytes.
-/

namespace Dux.Stdlib.Path

open Dux.Logic (ascii)
open Dux.Runtime (Bytes)

/-! ## Strings -/

/-- `duxrt_str_index`: a string of one byte, or none outside the string. -/
def duxrtStrIndex (s : Bytes) (i : Int) : Bytes :=
  let i := if i < 0 then i + s.length else i
  if i < 0 ∨ s.length ≤ i then [] else (s.drop i.toNat).take 1

def duxrtStrSlice (s : Bytes) (start stop : Int) : Bytes :=
  let start := if start < 0 then 0 else start
  let stop := if s.length < stop then (s.length : Int) else stop
  if stop ≤ start then [] else (s.drop start.toNat).take (stop - start).toNat

def len (s : Bytes) : Int := s.length

/-- What a turn of a loop does: it goes on with a state, or returns. -/
inductive Turn (σ : Type*)
  | next (s : σ)
  | done (result : Bytes)

/-- `while i >= 0`, where each turn looks at `p[i]` and ends with `i = i - 1`; behind the loop
something is returned.  `none` when the turns are not enough. -/
def whileBack {σ : Type*} (p : Bytes) (body : Int → Bytes → σ → Turn σ) (after : σ → Bytes) :
    Nat → Int → σ → Option Bytes
  | 0, _, _ => none
  | turns + 1, i, s =>
      if 0 ≤ i then
        match body i (duxrtStrIndex p i) s with
        | .next s => whileBack p body after turns (i - 1) s
        | .done result => some result
      else some (after s)

/-! ## The functions -/

def slash : Bytes := ascii "/"

def dot : Bytes := ascii "."

def join (a b : Bytes) : Bytes :=
  if len a = 0 then b
  else if len b = 0 then a
  else
    let last := duxrtStrIndex a (len a - 1)
    if last = slash then a ++ b else a ++ slash ++ b

def basenameTurn (p : Bytes) (i : Int) (ch : Bytes) (s : Unit) : Turn Unit :=
  if ch = slash then .done (duxrtStrSlice p (i + 1) (len p)) else .next s

def basename (turns : Nat) (p : Bytes) : Option Bytes :=
  whileBack p (basenameTurn p) (fun _ => p) turns (len p - 1) ()

def dirnameTurn (p : Bytes) (i : Int) (ch : Bytes) (s : Unit) : Turn Unit :=
  if ch = slash then
    if i = 0 then .done slash else .done (duxrtStrSlice p 0 i)
  else .next s

def dirname (turns : Nat) (p : Bytes) : Option Bytes :=
  whileBack p (dirnameTurn p) (fun _ => dot) turns (len p - 1) ()

def extTurn (p : Bytes) (n : Int) (ch : Bytes) (s : Unit) : Turn Unit :=
  if ch = slash then .done []
  else if ch = dot then
    if n = 0 then .done [] else .done (duxrtStrSlice p n (len p))
  else .next s

def ext (turns : Nat) (p : Bytes) : Option Bytes :=
  whileBack p (extTurn p) (fun _ => []) turns (len p - 1) ()

def stemTurn (p : Bytes) (n : Int) (ch : Bytes) (dotPos : Int) : Turn Int :=
  if ch = slash then
    if dotPos < 0 then .done (duxrtStrSlice p (n + 1) (len p))
    else .done (duxrtStrSlice p (n + 1) dotPos)
  else if ch = dot then
    if dotPos < 0 then
      if 0 < n then .next n else .next dotPos
    else .next dotPos
  else .next dotPos

/-- What `stem` returns behind its loop. -/
def stemRest (p : Bytes) (dotPos : Int) : Bytes :=
  if dotPos < 0 then p else duxrtStrSlice p 0 dotPos

def stem (turns : Nat) (p : Bytes) : Option Bytes :=
  whileBack p (stemTurn p) (stemRest p) turns (len p - 1) (-1)

/-! ## The loop -/

section Loop

variable {σ : Type*} {p : Bytes} {body : Int → Bytes → σ → Turn σ} {after : σ → Bytes}

/-- The loop as a recursion over the bytes that are left, the last one first. -/
def scanBack (body : Int → Bytes → σ → Turn σ) (after : σ → Bytes) : Bytes → σ → Bytes
  | [], s => after s
  | c :: left, s =>
      match body left.length [c] s with
      | .next s => scanBack body after left s
      | .done result => result

theorem duxrtStrIndex_append (front : Bytes) (c : UInt8) (back : Bytes) :
    duxrtStrIndex (front ++ c :: back) front.length = [c] := by
  have inside : (front.length : Int) < (front ++ c :: back).length := by
    rw [List.length_append, List.length_cons]
    omega
  rw [duxrtStrIndex, if_neg (by omega), if_neg (by omega), Int.toNat_natCast, List.drop_left]
  rfl

theorem whileBack_eq (left : Bytes) {back : Bytes} (isText : p = left.reverse ++ back) {turns : Nat}
    (enough : left.length < turns) (s : σ) :
    whileBack p body after turns (left.length - 1) s = some (scanBack body after left s) := by
  induction left generalizing back turns s with
  | nil =>
    cases turns with
    | zero => cases enough
    | succ turns => exact if_neg (by decide)
  | cons c left ih =>
    cases turns with
    | zero => cases enough
    | succ turns =>
      rw [List.length_cons] at enough
      rw [List.reverse_cons, List.append_assoc] at isText
      have atEnd : ((c :: left).length : Int) - 1 = left.length := by
        rw [List.length_cons]
        omega
      have look : duxrtStrIndex p left.length = [c] := by
        rw [isText, ← left.length_reverse]
        exact duxrtStrIndex_append left.reverse c back
      rw [whileBack, atEnd, if_pos (by omega), look, scanBack]
      cases body left.length [c] s with
      | next s' => exact ih isText (by omega) s'
      | done result => rfl

theorem whileBack_whole {turns : Nat} (enough : p.length < turns) (s : σ) :
    whileBack p body after turns (len p - 1) s = some (scanBack body after p.reverse s) := by
  have isText : p = p.reverse.reverse ++ [] := by rw [List.reverse_reverse, List.append_nil]
  have whole : whileBack p body after turns (p.reverse.length - 1) s = _ :=
    whileBack_eq p.reverse isText (by rwa [List.length_reverse]) s
  rwa [List.length_reverse] at whole

theorem scanBack_append {passed left : Bytes} {s : σ}
    (passes : ∀ c ∈ passed, ∀ i : Nat, body i [c] s = .next s) :
    scanBack body after (passed ++ left) s = scanBack body after left s := by
  induction passed with
  | nil => rfl
  | cons c passed ih =>
    rw [List.cons_append, scanBack, passes c List.mem_cons_self]
    exact ih fun c' member => passes c' (List.mem_cons_of_mem c member)

theorem scanBack_all {left : Bytes} {s : σ}
    (passes : ∀ c ∈ left, ∀ i : Nat, body i [c] s = .next s) :
    scanBack body after left s = after s := by
  rw [← List.append_nil left, scanBack_append passes]
  rfl

end Loop

/-! ## What is returned -/

section Returns

variable {front back l r : Bytes}

theorem split_last {c : UInt8} {text : Bytes} (member : c ∈ text) :
    ∃ front back, text = front ++ c :: back ∧ c ∉ back := by
  rcases List.eq_append_cons_of_mem (List.mem_reverse.mpr member) with ⟨r, l, isText, absent⟩
  refine ⟨l.reverse, r.reverse, ?_, by rwa [List.mem_reverse]⟩
  have reversed := congrArg List.reverse isText
  rw [List.reverse_reverse] at reversed
  rw [reversed, List.reverse_append, List.reverse_cons, List.append_assoc]
  rfl

theorem duxrtStrSlice_append (front mid back : Bytes) {start stop : Int}
    (isStart : start = front.length) (isStop : stop = front.length + mid.length) :
    duxrtStrSlice (front ++ (mid ++ back)) start stop = mid := by
  have length : ((front ++ (mid ++ back)).length : Int) =
      front.length + (mid.length + back.length) := by
    rw [List.length_append, List.length_append]
    omega
  have notNegative : ¬start < 0 := by omega
  have inside : ¬((front ++ (mid ++ back)).length : Int) < stop := by omega
  rw [duxrtStrSlice, if_neg notNegative, if_neg inside]
  by_cases empty : mid = []
  · rw [if_pos, empty]
    rw [isStop, isStart, empty, List.length_nil]
    omega
  · have some : 0 < mid.length := List.length_pos_iff.mpr empty
    have size : (stop - start).toNat = mid.length := by omega
    rw [if_neg (by omega), size, isStart, Int.toNat_natCast, List.drop_left, List.take_left]

theorem duxrtStrSlice_cons (front : Bytes) (c : UInt8) (mid back : Bytes) {start stop : Int}
    (isStart : start = front.length + 1) (isStop : stop = front.length + 1 + mid.length) :
    duxrtStrSlice (front ++ c :: (mid ++ back)) start stop = mid := by
  have length : ((front ++ [c]).length : Int) = front.length + 1 := by
    rw [List.length_append, List.length_singleton]
    omega
  rw [List.append_cons]
  exact duxrtStrSlice_append (front ++ [c]) mid back (by omega) (by omega)

theorem reverse_split (front : Bytes) (c : UInt8) (back : Bytes) :
    (front ++ c :: back).reverse = back.reverse ++ c :: front.reverse := by
  rw [List.reverse_append, List.reverse_cons, List.append_assoc]
  rfl

theorem ne_slash {text : Bytes} (noSlash : 0x2f ∉ text) : ∀ c ∈ text.reverse, [c] ≠ slash := by
  intro c member isSlash
  rw [List.mem_reverse, List.singleton_inj.mp isSlash] at member
  exact noSlash member

theorem ne_dot {text : Bytes} (noDot : 0x2e ∉ text) : ∀ c ∈ text.reverse, [c] ≠ dot := by
  intro c member isDot
  rw [List.mem_reverse, List.singleton_inj.mp isDot] at member
  exact noDot member

theorem isSlash : [0x2f] = slash := rfl

theorem isDot : [0x2e] = dot := rfl

/-! ### The last component -/

theorem basename_of_notMem {p : Bytes} (noSlash : 0x2f ∉ p) {turns : Nat}
    (enough : p.length < turns) : basename turns p = some p := by
  rw [basename, whileBack_whole enough, scanBack_all]
  intro c member i
  exact if_neg (ne_slash noSlash c member)

theorem basename_append (front : Bytes) (noSlash : 0x2f ∉ back) {turns : Nat}
    (enough : (front ++ 0x2f :: back).length < turns) :
    basename turns (front ++ 0x2f :: back) = some back := by
  have rest : duxrtStrSlice (front ++ 0x2f :: (back ++ [])) (front.reverse.length + 1)
      (len (front ++ 0x2f :: back)) = back := by
    apply duxrtStrSlice_cons
    · rw [List.length_reverse]
    · rw [len, List.length_append, List.length_cons]
      omega
  rw [List.append_nil] at rest
  rw [basename, whileBack_whole enough, reverse_split, scanBack_append, scanBack, basenameTurn,
    if_pos isSlash]
  · exact congrArg some rest
  · intro c member i
    exact if_neg (ne_slash noSlash c member)

/-! ### The directory -/

theorem dirname_of_notMem {p : Bytes} (noSlash : 0x2f ∉ p) {turns : Nat}
    (enough : p.length < turns) : dirname turns p = some dot := by
  rw [dirname, whileBack_whole enough, scanBack_all]
  intro c member i
  exact if_neg (ne_slash noSlash c member)

theorem dirname_append (front : Bytes) (noSlash : 0x2f ∉ back) {turns : Nat}
    (enough : (front ++ 0x2f :: back).length < turns) :
    dirname turns (front ++ 0x2f :: back) = some (if front = [] then slash else front) := by
  have rest : duxrtStrSlice ([] ++ (front ++ 0x2f :: back)) 0 front.reverse.length = front := by
    apply duxrtStrSlice_append
    · rfl
    · rw [List.length_reverse, List.length_nil]
      omega
  rw [dirname, whileBack_whole enough, reverse_split, scanBack_append, scanBack, dirnameTurn,
    if_pos isSlash]
  · by_cases root : front = []
    · rw [root]
      rfl
    · have positive : 0 < front.length := List.length_pos_iff.mpr root
      rw [if_neg root, if_neg (by rw [List.length_reverse]; omega)]
      exact congrArg some rest
  · intro c member i
    exact if_neg (ne_slash noSlash c member)

/-! ### The extension -/

theorem extTurn_next {p : Bytes} {c : UInt8} {i : Int} (noSlash : [c] ≠ slash) (noDot : [c] ≠ dot) :
    extTurn p i [c] () = .next () := by
  rw [extTurn, if_neg noSlash, if_neg noDot]

theorem ext_of_notMem {p : Bytes} (noSlash : 0x2f ∉ p) (noDot : 0x2e ∉ p) {turns : Nat}
    (enough : p.length < turns) : ext turns p = some [] := by
  rw [ext, whileBack_whole enough, scanBack_all]
  intro c member i
  exact extTurn_next (ne_slash noSlash c member) (ne_dot noDot c member)

theorem ext_slash (front : Bytes) (noSlash : 0x2f ∉ back) (noDot : 0x2e ∉ back) {turns : Nat}
    (enough : (front ++ 0x2f :: back).length < turns) :
    ext turns (front ++ 0x2f :: back) = some [] := by
  rw [ext, whileBack_whole enough, reverse_split, scanBack_append, scanBack, extTurn,
    if_pos isSlash]
  intro c member i
  exact extTurn_next (ne_slash noSlash c member) (ne_dot noDot c member)

theorem ext_dot (l : Bytes) (noSlash : 0x2f ∉ r) (noDot : 0x2e ∉ r) {turns : Nat}
    (enough : (l ++ 0x2e :: r).length < turns) :
    ext turns (l ++ 0x2e :: r) = some (if l = [] then [] else 0x2e :: r) := by
  have rest : duxrtStrSlice (l ++ (0x2e :: r ++ [])) l.reverse.length (len (l ++ 0x2e :: r)) =
      0x2e :: r := by
    apply duxrtStrSlice_append
    · rw [List.length_reverse]
    · rw [len, List.length_append]
      omega
  rw [List.append_nil] at rest
  have differs : [(0x2e : UInt8)] ≠ slash := by decide
  rw [ext, whileBack_whole enough, reverse_split, scanBack_append, scanBack, extTurn,
    if_neg differs, if_pos isDot]
  · by_cases hidden : l = []
    · rw [hidden]
      rfl
    · have positive : 0 < l.length := List.length_pos_iff.mpr hidden
      rw [if_neg hidden, if_neg (by rw [List.length_reverse]; omega)]
      exact congrArg some rest
  · intro c member i
    exact extTurn_next (ne_slash noSlash c member) (ne_dot noDot c member)

/-! ### The stem -/

theorem stemTurn_next {p : Bytes} {c : UInt8} {i dotPos : Int} (noSlash : [c] ≠ slash)
    (passes : [c] ≠ dot ∨ 0 ≤ dotPos) : stemTurn p i [c] dotPos = .next dotPos := by
  rw [stemTurn, if_neg noSlash]
  by_cases isDot : [c] = dot
  · rw [if_pos isDot, if_neg (by have := passes.resolve_left (not_not_intro isDot); omega)]
  · rw [if_neg isDot]

theorem stem_of_notMem {p : Bytes} (noSlash : 0x2f ∉ p) (noDot : 0x2e ∉ p) {turns : Nat}
    (enough : p.length < turns) : stem turns p = some p := by
  rw [stem, whileBack_whole enough, scanBack_all, stemRest, if_pos (by decide)]
  intro c member i
  exact stemTurn_next (ne_slash noSlash c member) (.inl (ne_dot noDot c member))

theorem stem_slash (front : Bytes) (noSlash : 0x2f ∉ back) (noDot : 0x2e ∉ back) {turns : Nat}
    (enough : (front ++ 0x2f :: back).length < turns) :
    stem turns (front ++ 0x2f :: back) = some back := by
  have rest : duxrtStrSlice (front ++ 0x2f :: (back ++ [])) (front.reverse.length + 1)
      (len (front ++ 0x2f :: back)) = back := by
    apply duxrtStrSlice_cons
    · rw [List.length_reverse]
    · rw [len, List.length_append, List.length_cons]
      omega
  rw [List.append_nil] at rest
  rw [stem, whileBack_whole enough, reverse_split, scanBack_append, scanBack, stemTurn,
    if_pos isSlash, if_pos (by decide)]
  · exact congrArg some rest
  · intro c member i
    exact stemTurn_next (ne_slash noSlash c member) (.inl (ne_dot noDot c member))

theorem scanBack_stemTurn {p : Bytes} {after : Int → Bytes} (l : Bytes) (noSlash : 0x2f ∉ r)
    (noDot : 0x2e ∉ r) (some : l ≠ []) :
    scanBack (stemTurn p) after (l ++ 0x2e :: r).reverse (-1) =
      scanBack (stemTurn p) after l.reverse l.length := by
  have differs : [(0x2e : UInt8)] ≠ slash := by decide
  have positive : 0 < l.length := List.length_pos_iff.mpr some
  rw [reverse_split, scanBack_append, scanBack, stemTurn, if_neg differs, if_pos isDot,
    if_pos (by decide), if_pos (by rw [List.length_reverse]; omega), List.length_reverse]
  intro c member i
  exact stemTurn_next (ne_slash noSlash c member) (.inl (ne_dot noDot c member))

theorem stem_dot (noSlash : 0x2f ∉ l ++ 0x2e :: r) (noDot : 0x2e ∉ r) {turns : Nat}
    (enough : (l ++ 0x2e :: r).length < turns) :
    stem turns (l ++ 0x2e :: r) = some (if l = [] then 0x2e :: r else l) := by
  have noSlashL : 0x2f ∉ l := fun member => noSlash (List.mem_append_left _ member)
  have noSlashR : 0x2f ∉ r := fun member =>
    noSlash (List.mem_append_right _ (List.mem_cons_of_mem _ member))
  rw [stem, whileBack_whole enough]
  by_cases hidden : l = []
  · have differs : [(0x2e : UInt8)] ≠ slash := by decide
    rw [if_pos hidden, hidden, reverse_split, scanBack_append, scanBack, stemTurn,
      if_neg differs, if_pos isDot, if_pos (by decide), if_neg (by decide)]
    · rfl
    · intro c member i
      exact stemTurn_next (ne_slash noSlashR c member) (.inl (ne_dot noDot c member))
  · have rest : duxrtStrSlice ([] ++ (l ++ 0x2e :: r)) 0 l.length = l := by
      apply duxrtStrSlice_append
      · rfl
      · rw [List.length_nil]
        omega
    rw [if_neg hidden, scanBack_stemTurn l noSlashR noDot hidden, scanBack_all, stemRest,
      if_neg (by omega)]
    · exact congrArg some rest
    · intro c member i
      exact stemTurn_next (ne_slash noSlashL c member) (.inr (by omega))

theorem stem_slash_dot (front : Bytes) (noSlash : 0x2f ∉ l ++ 0x2e :: r) (noDot : 0x2e ∉ r)
    {turns : Nat} (enough : (front ++ 0x2f :: (l ++ 0x2e :: r)).length < turns) :
    stem turns (front ++ 0x2f :: (l ++ 0x2e :: r)) = some l := by
  have noSlashL : 0x2f ∉ l := fun member => noSlash (List.mem_append_left _ member)
  have noSlashR : 0x2f ∉ r := fun member =>
    noSlash (List.mem_append_right _ (List.mem_cons_of_mem _ member))
  have rest : duxrtStrSlice (front ++ 0x2f :: (l ++ 0x2e :: r)) (front.reverse.length + 1)
      (front ++ 0x2f :: l).length = l := by
    apply duxrtStrSlice_cons
    · rw [List.length_reverse]
    · rw [List.length_append, List.length_cons]
      omega
  have regroup : front ++ 0x2f :: (l ++ 0x2e :: r) = (front ++ 0x2f :: l) ++ 0x2e :: r := by
    rw [List.append_assoc]
    rfl
  have some : front ++ 0x2f :: l ≠ [] := by simp
  rw [stem, whileBack_whole enough]
  rw [regroup, scanBack_stemTurn _ noSlashR noDot some, ← regroup, reverse_split, scanBack_append,
    scanBack, stemTurn, if_pos isSlash, if_neg (by omega)]
  · exact congrArg Option.some rest
  · intro c member i
    exact stemTurn_next (ne_slash noSlashL c member) (.inr (by omega))

end Returns

/-! ## The laws -/

section Laws

/-- The functions return, and stem and extension make the last component. -/
theorem stem_ext_basename (p : Bytes) : ∃ s e, ∀ turns, p.length < turns →
    stem turns p = some s ∧ ext turns p = some e ∧ basename turns p = some (s ++ e) := by
  by_cases hasSlash : 0x2f ∈ p
  · rcases split_last hasSlash with ⟨front, back, rfl, noSlash⟩
    by_cases hasDot : 0x2e ∈ back
    · rcases split_last hasDot with ⟨l, r, rfl, noDot⟩
      have noSlashR : 0x2f ∉ r := fun member =>
        noSlash (List.mem_append_right _ (List.mem_cons_of_mem _ member))
      refine ⟨l, 0x2e :: r, fun turns enough => ⟨stem_slash_dot front noSlash noDot enough, ?_,
        basename_append front noSlash enough⟩⟩
      have regroup : front ++ 0x2f :: (l ++ 0x2e :: r) = (front ++ 0x2f :: l) ++ 0x2e :: r := by
        rw [List.append_assoc]
        rfl
      rw [regroup] at enough ⊢
      rw [ext_dot _ noSlashR noDot enough, if_neg (by simp)]
    · refine ⟨back, [], fun turns enough => ⟨stem_slash front noSlash hasDot enough,
        ext_slash front noSlash hasDot enough, ?_⟩⟩
      rw [List.append_nil]
      exact basename_append front noSlash enough
  · by_cases hasDot : 0x2e ∈ p
    · rcases split_last hasDot with ⟨l, r, rfl, noDot⟩
      have noSlashR : 0x2f ∉ r := fun member =>
        hasSlash (List.mem_append_right _ (List.mem_cons_of_mem _ member))
      refine ⟨if l = [] then 0x2e :: r else l, if l = [] then [] else 0x2e :: r,
        fun turns enough => ⟨stem_dot hasSlash noDot enough, ext_dot l noSlashR noDot enough, ?_⟩⟩
      rw [basename_of_notMem hasSlash enough]
      split
      · next hidden => rw [hidden, List.append_nil, List.nil_append]
      · rfl
    · refine ⟨p, [], fun turns enough => ⟨stem_of_notMem hasSlash hasDot enough,
        ext_of_notMem hasSlash hasDot enough, ?_⟩⟩
      rw [List.append_nil]
      exact basename_of_notMem hasSlash enough

/-- The last slash stands neither at the end nor behind another. -/
def SplitsAtSlash (p : Bytes) : Prop :=
  ∃ front back, p = front ++ 0x2f :: back ∧ 0x2f ∉ back ∧ back ≠ [] ∧ front.getLast? ≠ some 0x2f

theorem join_slash {front back : Bytes} (nonempty : back ≠ [])
    (single : front.getLast? ≠ some 0x2f) :
    join (if front = [] then slash else front) back = front ++ 0x2f :: back := by
  have notZero {text : Bytes} (nonempty : text ≠ []) : len text ≠ 0 := by
    rw [len, Int.natCast_ne_zero]
    exact mt List.length_eq_zero_iff.mp nonempty
  rcases List.eq_nil_or_concat front with rfl | ⟨init, c, rfl⟩
  · rw [if_pos rfl, join, if_neg (by decide), if_neg (notZero nonempty)]
    exact if_pos (by decide)
  · rw [List.concat_eq_append] at single ⊢
    have lastAt : len (init ++ [c]) - 1 = init.length := by
      rw [len, List.length_append, List.length_singleton]
      omega
    have differs : [c] ≠ slash := by
      intro isSlash
      rw [List.getLast?_append_of_ne_nil _ (List.cons_ne_nil _ _),
        List.singleton_inj.mp isSlash] at single
      exact single rfl
    rw [if_neg (by simp), join, if_neg (notZero (by simp)), if_neg (notZero nonempty), lastAt,
      duxrtStrIndex_append]
    exact (if_neg differs).trans (List.append_assoc _ _ _)

/-- The functions return, and joining what they return gives the path. -/
theorem join_dirname_basename (p : Bytes) : ∃ d b, (∀ turns, p.length < turns →
    dirname turns p = some d ∧ basename turns p = some b) ∧ (SplitsAtSlash p → join d b = p) := by
  by_cases hasSlash : 0x2f ∈ p
  · rcases split_last hasSlash with ⟨front, back, rfl, noSlash⟩
    refine ⟨if front = [] then slash else front, back, fun turns enough =>
      ⟨dirname_append front noSlash enough, basename_append front noSlash enough⟩, ?_⟩
    rintro ⟨front', back', same, noSlash', nonempty, single⟩
    have isBack := basename_append front noSlash (Nat.lt_succ_self _)
    rw [same, basename_append front' noSlash' (Nat.lt_succ_self _), Option.some.injEq] at isBack
    subst isBack
    rw [List.append_cancel_right same]
    exact join_slash nonempty single
  · refine ⟨dot, p, fun turns enough =>
      ⟨dirname_of_notMem hasSlash enough, basename_of_notMem hasSlash enough⟩, ?_⟩
    rintro ⟨front, back, rfl, -⟩
    exact absurd (List.mem_append_right _ List.mem_cons_self) hasSlash

/-- For every string all scans return, the stem and the extension make the base name, and a
directory joined with the base name gives the string, as long as its last slash stands neither at
its end nor behind another. -/
theorem path_laws (p : Bytes) : ∃ s e b d,
    (∀ turns, p.length < turns → stem turns p = some s ∧ ext turns p = some e ∧
      basename turns p = some b ∧ dirname turns p = some d) ∧
    s ++ e = b ∧ (SplitsAtSlash p → join d b = p) := by
  rcases stem_ext_basename p with ⟨s, e, parts⟩
  rcases join_dirname_basename p with ⟨d, b, returns, joins⟩
  have isBase : s ++ e = b := by
    have atParts := (parts (p.length + 1) (Nat.lt_succ_self _)).2.2
    rw [(returns (p.length + 1) (Nat.lt_succ_self _)).2] at atParts
    exact (Option.some.inj atParts).symm
  refine ⟨s, e, b, d, fun turns enough => ?_, isBase, joins⟩
  rcases parts turns enough with ⟨isStem, isExt, -⟩
  exact ⟨isStem, isExt, (returns turns enough).2, (returns turns enough).1⟩

end Laws

end Dux.Stdlib.Path
