import Dux.Logic.Blocks
import Dux.Logic.CText
import Dux.Runtime.Str

/-!
# Regular expressions

`duxrt_regex_find_all`, `duxrt_regex_replace_all` and `duxrt_regex_split` of
`src/runtime/regex_rt.c`, over any pattern.  A pointer into the subject is the rest of it, and a
pointer behind its terminator is a fault.  How much memory the result has is left out.
-/

namespace Dux.Runtime.Regex

open Logic

/-- A pattern that `regcomp` accepts, and `regexec`: the offsets of the leftmost match and, of those
that start there, of the longest. -/
structure DuxRegex where
  Matches : Bytes → Nat → Nat → Prop
  regexec : Bytes → Option (Nat × Nat)
  inText : ∀ {text i j}, Matches text i j → i ≤ j ∧ j ≤ text.length
  isMatch : ∀ {text i j}, regexec text = some (i, j) → Matches text i j
  leftmost : ∀ {text i j}, regexec text = some (i, j) →
    ∀ i' j', Matches text i' j' → i ≤ i' ∧ (i' = i → j' ≤ j)
  noMatch : ∀ {text}, regexec text = none → ∀ i j, ¬Matches text i j

/-- Move a pointer; behind the terminator it cannot be read. -/
def advance (s : Bytes) (n : Nat) : Except Stop Bytes :=
  if n ≤ s.length then .ok (s.drop n) else .error .fault

def slice (s : Bytes) (so eo : Nat) : Bytes := (s.drop so).take (eo - so)

theorem length_of_advance {s rest : Bytes} {n : Nat} (moved : advance s n = .ok rest)
    (positive : 0 < n) : rest.length < s.length := by
  unfold advance at moved
  split at moved
  · cases moved
    rw [List.length_drop]
    omega
  · cases moved

section Loops

variable (re : DuxRegex)

namespace DuxRegex

variable {re}

theorem pos_of_ne {s : Bytes} {so eo : Nat} (found : re.regexec s = some (so, eo))
    (other : eo ≠ so) : 0 < eo := by
  have atMost := (re.inText (re.isMatch found)).1
  omega

end DuxRegex

/-- The loop of `duxrt_regex_find_all`. -/
def findAllLoop (s : Bytes) : Except Stop (List Bytes) :=
  if s = [] then .ok []
  else
    match _found : re.regexec s with
    | none => .ok []
    | some (so, eo) =>
        match _moved : advance s (if eo = so then eo + 1 else eo) with
        | .error stop => .error stop
        | .ok rest => do
            let list ← findAllLoop rest
            return slice s so eo :: list
termination_by s.length
decreasing_by
  refine length_of_advance _moved ?_
  split
  · exact Nat.succ_pos eo
  · next other => exact DuxRegex.pos_of_ne _found other

/-- The loop of `duxrt_regex_split`, with the bytes from `prev` on. -/
def splitLoop (prev s : Bytes) : Except Stop (List Bytes) :=
  if s = [] then .ok [prev ++ s]
  else
    match _found : re.regexec s with
    | none => .ok [prev ++ s]
    | some (so, eo) =>
        if _empty : eo = so then
          match _moved : advance s 1 with
          | .error stop => .error stop
          | .ok rest => splitLoop (prev ++ s.take 1) rest
        else
          match _moved : advance s eo with
          | .error stop => .error stop
          | .ok rest => do
              let list ← splitLoop [] rest
              return (prev ++ s.take so) :: list
termination_by s.length
decreasing_by
  · exact length_of_advance _moved Nat.one_pos
  · exact length_of_advance _moved (DuxRegex.pos_of_ne _found _empty)

/-- The loop of `duxrt_regex_replace_all`, with the bytes that are in the buffer. -/
def replaceAllLoop (repl buf cur : Bytes) : Except Stop Bytes :=
  if cur = [] then .ok (buf ++ cur)
  else
    match _found : re.regexec cur with
    | none => .ok (buf ++ cur)
    | some (so, eo) =>
        if _empty : eo = so then
          match _moved : advance cur 1 with
          | .error stop => .error stop
          | .ok rest => replaceAllLoop repl (buf ++ cur.take 1) rest
        else
          match _moved : advance cur eo with
          | .error stop => .error stop
          | .ok rest => replaceAllLoop repl (buf ++ cur.take so ++ repl) rest
termination_by cur.length
decreasing_by
  · exact length_of_advance _moved Nat.one_pos
  · exact length_of_advance _moved (DuxRegex.pos_of_ne _found _empty)

end Loops

/-- `duxrt_regex_find_all`; the handle is null or not valid where there is no pattern. -/
def duxrtRegexFindAll (handle : Option DuxRegex) (text : Option Bytes) :
    Except Stop (List Bytes) :=
  match handle, text with
  | some re, some text => findAllLoop re (cText text)
  | _, _ => .ok []

def duxrtRegexSplit (handle : Option DuxRegex) (text : Option Bytes) : Except Stop (List Bytes) :=
  match handle, text with
  | some re, some text => splitLoop re [] (cText text)
  | none, some text => .ok [text]
  | _, none => .ok []

def duxrtRegexReplaceAll (handle : Option DuxRegex) (text replacement : Option Bytes) :
    Except Stop Bytes :=
  match handle, text, replacement with
  | some re, some text, some repl => replaceAllLoop re (cText repl) [] (cText text)
  | _, text, _ => .ok (text.getD [])

/-- Pieces and matches in turn. -/
def interleave : List Bytes → List Bytes → Bytes
  | piece :: pieces, found :: rest => piece ++ (found ++ interleave pieces rest)
  | pieces, [] => pieces.flatten
  | [], rest => rest.flatten

/-- The three operations agree on the matches. -/
def Agrees (handle : Option DuxRegex) (subject replacement : Bytes) : Prop :=
  ∃ found pieces, duxrtRegexFindAll handle (some subject) = .ok found ∧
    duxrtRegexSplit handle (some subject) = .ok pieces ∧
    interleave pieces (found.filter (· ≠ [])) = subject ∧
    duxrtRegexReplaceAll handle (some subject) (some replacement) =
      .ok (replacement.intercalate pieces)

/-! ## Searches -/

section Searches

variable (re : DuxRegex)

/-- The next match that is not empty, where the search goes on behind a place in the empty ones. -/
def nextMatch (skip : Nat → Nat) (s : Bytes) : Option (Nat × Nat) :=
  if s = [] then none
  else
    match re.regexec s with
    | none => none
    | some (so, eo) =>
        if eo = so then
          (nextMatch skip (s.drop (skip so + 1))).map fun r =>
            (skip so + 1 + r.1, skip so + 1 + r.2)
        else some (so, eo)
termination_by s.length
decreasing_by
  rw [List.length_drop]
  have positive := List.length_pos_iff.2 ‹s ≠ []›
  omega

/-- Where the searches of `find_all` start. -/
inductive Visits (subject : Bytes) : Bytes → Prop
  | start : Visits subject subject
  | next {s : Bytes} {so eo : Nat} (visits : Visits subject s) (more : s ≠ [])
      (found : re.regexec s = some (so, eo)) :
      Visits subject (s.drop (if eo = so then eo + 1 else eo))

/-- No empty match is found at the end of a text that is not empty. -/
def InBounds (subject : Bytes) : Prop :=
  ∀ s, Visits re subject s → s ≠ [] → re.regexec s ≠ some (s.length, s.length)

/-- Where the searches for the next match start. -/
inductive Reached (subject : Bytes) : Bytes → Prop
  | start : Reached subject subject
  | behind {s : Bytes} {so eo : Nat} (reached : Reached subject s)
      (found : nextMatch re id s = some (so, eo)) : Reached subject (s.drop eo)

/-- Going on behind an empty match leads to the same match as going on behind the first byte. -/
def SameNext (subject : Bytes) : Prop :=
  ∀ s, Reached re subject s → nextMatch re id s = nextMatch re (fun _ => 0) s

end Searches

/-! ## One round -/

section Rounds

variable {re : DuxRegex} {s : Bytes} {so eo : Nat} {repl : Bytes}

theorem DuxRegex.bounds (found : re.regexec s = some (so, eo)) : so ≤ eo ∧ eo ≤ s.length :=
  re.inText (re.isMatch found)

theorem advance_of_le {n : Nat} (inside : n ≤ s.length) : advance s n = .ok (s.drop n) :=
  if_pos inside

theorem findAllLoop_nil : findAllLoop re [] = .ok [] := by
  rw [findAllLoop, if_pos rfl]

theorem findAllLoop_none (none : re.regexec s = none) : findAllLoop re s = .ok [] := by
  rw [findAllLoop]
  split
  · rfl
  · split
    · rfl
    · next found =>
      rw [none] at found
      cases found

theorem findAllLoop_some (more : s ≠ []) (found : re.regexec s = some (so, eo)) {n : Nat}
    (isStep : (if eo = so then eo + 1 else eo) = n) :
    findAllLoop re s = advance s n >>= fun rest =>
      (slice s so eo :: ·) <$> findAllLoop re rest := by
  rw [findAllLoop, if_neg more]
  split
  · next none =>
    rw [none] at found
    cases found
  · next found' =>
    rw [found'] at found
    cases found
    split
    · next fault =>
      rw [isStep] at fault
      rw [fault]
      rfl
    · next moved =>
      rw [isStep] at moved
      rw [moved]
      rfl

theorem splitLoop_nil (prev : Bytes) : splitLoop re prev [] = .ok [prev] := by
  rw [splitLoop, if_pos rfl, List.append_nil]

theorem splitLoop_none (prev : Bytes) (none : re.regexec s = none) :
    splitLoop re prev s = .ok [prev ++ s] := by
  rw [splitLoop]
  split
  · rfl
  · split
    · rfl
    · next found =>
      rw [none] at found
      cases found

theorem splitLoop_empty (prev : Bytes) (more : s ≠ []) (found : re.regexec s = some (so, so)) :
    splitLoop re prev s = splitLoop re (prev ++ s.take 1) (s.drop 1) := by
  have moved := advance_of_le (List.length_pos_iff.2 more)
  rw [splitLoop, if_neg more]
  split
  · next none =>
    rw [none] at found
    cases found
  · next found' =>
    rw [found'] at found
    cases found
    rw [dif_pos rfl]
    split
    · next fault =>
      rw [moved] at fault
      cases fault
    · next moved' =>
      rw [moved] at moved'
      cases moved'
      rfl

theorem splitLoop_some (prev : Bytes) (more : s ≠ []) (found : re.regexec s = some (so, eo))
    (other : eo ≠ so) :
    splitLoop re prev s = ((prev ++ s.take so) :: ·) <$> splitLoop re [] (s.drop eo) := by
  have moved := advance_of_le (DuxRegex.bounds found).2
  rw [splitLoop, if_neg more]
  split
  · next none =>
    rw [none] at found
    cases found
  · next found' =>
    rw [found'] at found
    cases found
    rw [dif_neg other]
    split
    · next fault =>
      rw [moved] at fault
      cases fault
    · next moved' =>
      rw [moved] at moved'
      cases moved'
      rfl

theorem replaceAllLoop_nil (buf : Bytes) : replaceAllLoop re repl buf [] = .ok buf := by
  rw [replaceAllLoop, if_pos rfl, List.append_nil]

theorem replaceAllLoop_none (buf : Bytes) (none : re.regexec s = none) :
    replaceAllLoop re repl buf s = .ok (buf ++ s) := by
  rw [replaceAllLoop]
  split
  · rfl
  · split
    · rfl
    · next found =>
      rw [none] at found
      cases found

theorem replaceAllLoop_empty (buf : Bytes) (more : s ≠ [])
    (found : re.regexec s = some (so, so)) :
    replaceAllLoop re repl buf s = replaceAllLoop re repl (buf ++ s.take 1) (s.drop 1) := by
  have moved := advance_of_le (List.length_pos_iff.2 more)
  rw [replaceAllLoop, if_neg more]
  split
  · next none =>
    rw [none] at found
    cases found
  · next found' =>
    rw [found'] at found
    cases found
    rw [dif_pos rfl]
    split
    · next fault =>
      rw [moved] at fault
      cases fault
    · next moved' =>
      rw [moved] at moved'
      cases moved'
      rfl

theorem replaceAllLoop_some (buf : Bytes) (more : s ≠ []) (found : re.regexec s = some (so, eo))
    (other : eo ≠ so) :
    replaceAllLoop re repl buf s =
      replaceAllLoop re repl (buf ++ s.take so ++ repl) (s.drop eo) := by
  have moved := advance_of_le (DuxRegex.bounds found).2
  rw [replaceAllLoop, if_neg more]
  split
  · next none =>
    rw [none] at found
    cases found
  · next found' =>
    rw [found'] at found
    cases found
    rw [dif_neg other]
    split
    · next fault =>
      rw [moved] at fault
      cases fault
    · next moved' =>
      rw [moved] at moved'
      cases moved'
      rfl

variable {skip : Nat → Nat}

theorem nextMatch_nil : nextMatch re skip [] = none := by
  rw [nextMatch, if_pos rfl]

theorem nextMatch_none (none : re.regexec s = none) : nextMatch re skip s = Option.none := by
  rw [nextMatch]
  split
  · rfl
  · rw [none]

theorem nextMatch_empty (more : s ≠ []) (found : re.regexec s = some (so, so)) :
    nextMatch re skip s = (nextMatch re skip (s.drop (skip so + 1))).map fun r =>
      (skip so + 1 + r.1, skip so + 1 + r.2) := by
  rw [nextMatch, if_neg more, found]
  exact if_pos rfl

theorem nextMatch_some (more : s ≠ []) (found : re.regexec s = some (so, eo)) (other : eo ≠ so) :
    nextMatch re skip s = some (so, eo) := by
  rw [nextMatch, if_neg more, found]
  exact if_neg other

theorem round_cases (re : DuxRegex) (s : Bytes) :
    s = [] ∨ s ≠ [] ∧ (re.regexec s = none ∨ (∃ so, re.regexec s = some (so, so)) ∨
      ∃ so eo, re.regexec s = some (so, eo) ∧ eo ≠ so) := by
  by_cases isNil : s = []
  · exact .inl isNil
  · refine .inr ⟨isNil, ?_⟩
    cases re.regexec s with
    | none => exact .inl rfl
    | some r =>
      by_cases empty : r.2 = r.1
      · exact .inr (.inl ⟨r.1, congrArg some (Prod.ext rfl empty)⟩)
      · exact .inr (.inr ⟨r.1, r.2, rfl, empty⟩)

theorem length_drop_lt (more : s ≠ []) {n : Nat} (positive : 0 < n) :
    (s.drop n).length < s.length := by
  have := List.length_pos_iff.2 more
  rw [List.length_drop]
  omega

end Rounds

/-! ## From match to match -/

section Next

variable {re : DuxRegex} {s : Bytes} {so eo : Nat} {skip : Nat → Nat}

theorem nextMatch_bounds (found : nextMatch re skip s = some (so, eo)) :
    so < eo ∧ eo ≤ s.length := by
  induction size : s.length using Nat.strong_induction_on generalizing s so eo with
  | _ n ih =>
    subst size
    rcases round_cases re s with rfl | ⟨more, none | ⟨i, empty⟩ | ⟨i, j, found', other⟩⟩
    · rw [nextMatch_nil] at found
      cases found
    · rw [nextMatch_none none] at found
      cases found
    · rw [nextMatch_empty more empty] at found
      obtain ⟨r, next, result⟩ := Option.map_eq_some_iff.1 found
      cases result
      obtain ⟨inside, atMost⟩ := ih _ (length_drop_lt more (Nat.succ_pos _)) next rfl
      rw [List.length_drop] at atMost
      omega
    · rw [nextMatch_some more found' other] at found
      cases found
      obtain ⟨inside, atMost⟩ := DuxRegex.bounds found'
      exact ⟨Nat.lt_of_le_of_ne inside (Ne.symm other), atMost⟩

theorem ne_nil_of_nextMatch (found : nextMatch re skip s = some (so, eo)) : s ≠ [] := by
  rintro rfl
  rw [nextMatch_nil] at found
  cases found

theorem splitLoop_of_none (prev : Bytes) (none : nextMatch re (fun _ => 0) s = none) :
    splitLoop re prev s = .ok [prev ++ s] := by
  induction size : s.length using Nat.strong_induction_on generalizing s prev with
  | _ n ih =>
    subst size
    rcases round_cases re s with rfl | ⟨more, absent | ⟨i, empty⟩ | ⟨i, j, found, other⟩⟩
    · rw [splitLoop_nil, List.append_nil]
    · exact splitLoop_none prev absent
    · rw [nextMatch_empty more empty, Option.map_eq_none_iff] at none
      rw [splitLoop_empty prev more empty, ih _ (length_drop_lt more Nat.one_pos) _ none rfl,
        List.append_assoc, List.take_append_drop]
    · rw [nextMatch_some more found other] at none
      cases none

theorem splitLoop_of_some (prev : Bytes) (next : nextMatch re (fun _ => 0) s = some (so, eo)) :
    splitLoop re prev s = ((prev ++ s.take so) :: ·) <$> splitLoop re [] (s.drop eo) := by
  induction size : s.length using Nat.strong_induction_on generalizing s prev so eo with
  | _ n ih =>
    subst size
    rcases round_cases re s with rfl | ⟨more, absent | ⟨i, empty⟩ | ⟨i, j, found, other⟩⟩
    · rw [nextMatch_nil] at next
      cases next
    · rw [nextMatch_none absent] at next
      cases next
    · rw [nextMatch_empty more empty] at next
      obtain ⟨r, next', result⟩ := Option.map_eq_some_iff.1 next
      cases result
      rw [splitLoop_empty prev more empty, ih _ (length_drop_lt more Nat.one_pos) _ next' rfl,
        List.append_assoc, List.drop_drop]
      have front : s.take 1 ++ (s.drop 1).take r.1 = s.take (0 + 1 + r.1) := by
        rw [Nat.zero_add, List.take_add]
      rw [front]
    · rw [nextMatch_some more found other] at next
      cases next
      exact splitLoop_some prev more found other

theorem replaceAllLoop_append (re : DuxRegex) (repl : Bytes) (prev s : Bytes) :
    ∃ pieces, splitLoop re prev s = .ok pieces ∧ pieces ≠ [] ∧
      ∀ buf, replaceAllLoop re repl (buf ++ prev) s = .ok (buf ++ repl.intercalate pieces) := by
  induction size : s.length using Nat.strong_induction_on generalizing s prev with
  | _ n ih =>
    subst size
    rcases round_cases re s with rfl | ⟨more, absent | ⟨i, empty⟩ | ⟨i, j, found, other⟩⟩
    · refine ⟨[prev], splitLoop_nil prev, List.cons_ne_nil _ _, fun buf => ?_⟩
      rw [replaceAllLoop_nil, List.intercalate_singleton]
    · refine ⟨[prev ++ s], splitLoop_none prev absent, List.cons_ne_nil _ _, fun buf => ?_⟩
      rw [replaceAllLoop_none _ absent, List.intercalate_singleton, List.append_assoc]
    · obtain ⟨pieces, split, nonempty, replaced⟩ :=
        ih _ (length_drop_lt more Nat.one_pos) (prev ++ s.take 1) _ rfl
      refine ⟨pieces, (splitLoop_empty prev more empty).trans split, nonempty, fun buf => ?_⟩
      rw [replaceAllLoop_empty _ more empty, List.append_assoc, replaced]
    · have positive := DuxRegex.pos_of_ne found other
      obtain ⟨pieces, split, nonempty, replaced⟩ := ih _ (length_drop_lt more positive) [] _ rfl
      refine ⟨(prev ++ s.take i) :: pieces, ?_, List.cons_ne_nil _ _, fun buf => ?_⟩
      · rw [splitLoop_some prev more found other, split]
        rfl
      · obtain ⟨piece, pieces, rfl⟩ := List.exists_cons_of_ne_nil nonempty
        have rest := replaced (buf ++ prev ++ s.take i ++ repl)
        rw [List.append_nil] at rest
        rw [replaceAllLoop_some _ more found other, rest, List.intercalate_cons_cons]
        simp only [List.append_assoc]

theorem replaceAllLoop_eq (re : DuxRegex) (repl buf s : Bytes) :
    ∃ pieces, splitLoop re [] s = .ok pieces ∧ pieces ≠ [] ∧
      (pieces.length = 1 ↔ nextMatch re (fun _ => 0) s = none) ∧
      replaceAllLoop re repl buf s = .ok (buf ++ repl.intercalate pieces) := by
  obtain ⟨pieces, split, nonempty, replaced⟩ := replaceAllLoop_append re repl [] s
  have joined := replaced buf
  rw [List.append_nil] at joined
  refine ⟨pieces, split, nonempty, ?_, joined⟩
  cases next : nextMatch re (fun _ => 0) s with
  | none =>
    rw [splitLoop_of_none [] next] at split
    cases split
    simp
  | some r =>
    obtain ⟨rest, splits, more, -⟩ := replaceAllLoop_append re repl [] (s.drop r.2)
    rw [splitLoop_of_some [] next, splits] at split
    cases split
    simp [more]

theorem length_slice (found : so < eo ∧ eo ≤ s.length) : slice s so eo ≠ [] := by
  rw [← List.length_pos_iff, slice, List.length_take, List.length_drop]
  omega

theorem take_slice_drop (inside : so ≤ eo) : s.take so ++ (slice s so eo ++ s.drop eo) = s := by
  have behind : s.drop eo = (s.drop so).drop (eo - so) := by
    rw [List.drop_drop, Nat.add_sub_cancel' inside]
  rw [slice, behind, List.take_append_drop, List.take_append_drop]

theorem slice_self (s : Bytes) (so : Nat) : slice s so so = [] := by
  rw [slice, Nat.sub_self, List.take_zero]

theorem slice_drop (s : Bytes) (n : Nat) : slice (s.drop n) so eo = slice s (n + so) (n + eo) := by
  rw [slice, slice, List.drop_drop, Nat.add_sub_add_left]

theorem findAllLoop_filter {found : List Bytes} (runs : findAllLoop re s = .ok found) :
    (nextMatch re id s = none ∧ found.filter (· ≠ []) = []) ∨
      ∃ so eo rest, nextMatch re id s = some (so, eo) ∧ findAllLoop re (s.drop eo) = .ok rest ∧
        found.filter (· ≠ []) = slice s so eo :: rest.filter (· ≠ []) := by
  induction size : s.length using Nat.strong_induction_on generalizing s found with
  | _ n ih =>
    subst size
    rcases round_cases re s with rfl | ⟨more, absent | ⟨i, empty⟩ | ⟨i, j, isFound, other⟩⟩
    · rw [findAllLoop_nil] at runs
      cases runs
      exact .inl ⟨nextMatch_nil, rfl⟩
    · rw [findAllLoop_none absent] at runs
      cases runs
      exact .inl ⟨nextMatch_none absent, rfl⟩
    · rw [findAllLoop_some more empty (if_pos rfl)] at runs
      obtain ⟨rest, moved, runs'⟩ := bind_eq_ok_iff.1 runs
      unfold advance at moved
      split at moved
      · cases moved
        obtain ⟨list, inner, isList⟩ : ∃ list, findAllLoop re (s.drop (i + 1)) = .ok list ∧
            slice s i i :: list = found := by
          cases inner : findAllLoop re (s.drop (i + 1)) with
          | error stop =>
            rw [inner] at runs'
            cases runs'
          | ok list =>
            rw [inner] at runs'
            exact ⟨list, rfl, Except.ok.inj runs'⟩
        have filtered : found.filter (· ≠ []) = list.filter (· ≠ []) := by
          rw [← isList, slice_self]
          rfl
        rw [filtered, nextMatch_empty more empty]
        rcases ih _ (length_drop_lt more (Nat.succ_pos i)) inner rfl with ⟨none, isNil⟩ |
            ⟨so, eo, rest, next, later, isCons⟩
        · exact .inl ⟨by rw [id, none]; rfl, isNil⟩
        · refine .inr ⟨i + 1 + so, i + 1 + eo, rest, by rw [id, next]; rfl, ?_, ?_⟩
          · rwa [List.drop_drop] at later
          · rwa [slice_drop] at isCons
      · cases moved
    · rw [findAllLoop_some more isFound (if_neg other),
        advance_of_le (DuxRegex.bounds isFound).2, ok_bind] at runs
      cases inner : findAllLoop re (s.drop j) with
      | error stop =>
        rw [inner] at runs
        cases runs
      | ok list =>
        rw [inner] at runs
        have bounds := DuxRegex.bounds isFound
        refine .inr ⟨i, j, list, nextMatch_some more isFound other, inner, ?_⟩
        rw [← Except.ok.inj runs, List.filter_cons_of_pos]
        rw [decide_eq_true_iff]
        exact length_slice ⟨Nat.lt_of_le_of_ne bounds.1 (Ne.symm other), bounds.2⟩

/-! ## The pieces and the matches -/

theorem SameNext.behind (same : SameNext re s) (found : nextMatch re id s = some (so, eo)) :
    SameNext re (s.drop eo) := by
  intro s' reached
  apply same
  induction reached with
  | start => exact .behind .start found
  | behind _ found' ih => exact .behind ih found'

theorem interleave_eq (same : SameNext re s) {found pieces : List Bytes}
    (finds : findAllLoop re s = .ok found) (splits : splitLoop re [] s = .ok pieces) :
    interleave pieces (found.filter (· ≠ [])) = s := by
  induction size : s.length using Nat.strong_induction_on generalizing s found pieces with
  | _ n ih =>
    subst size
    have next := same s .start
    rcases findAllLoop_filter finds with ⟨none, isNil⟩ | ⟨so, eo, rest, some, later, isCons⟩
    · rw [none] at next
      rw [splitLoop_of_none [] next.symm] at splits
      cases splits
      rw [isNil]
      exact List.append_nil s
    · rw [some] at next
      rw [splitLoop_of_some [] next.symm] at splits
      have bounds := nextMatch_bounds some
      have shorter := length_drop_lt (ne_nil_of_nextMatch some) (Nat.zero_lt_of_lt bounds.1)
      cases inner : splitLoop re [] (s.drop eo) with
      | error stop =>
        rw [inner] at splits
        cases splits
      | ok list =>
        rw [inner] at splits
        rw [← Except.ok.inj splits, isCons, interleave,
          ih _ shorter (same.behind some) later inner rfl]
        exact take_slice_drop bounds.1.le

end Next

/-! ## Bounds -/

section Bounds

variable {re : DuxRegex} {s : Bytes} {so eo n : Nat}

theorem Visits.cases_start {s' : Bytes} (more : s ≠ []) (found : re.regexec s = some (so, eo))
    (isStep : (if eo = so then eo + 1 else eo) = n) (visits : Visits re s s') :
    s' = s ∨ Visits re (s.drop n) s' := by
  induction visits with
  | start => exact .inl rfl
  | @next s' so' eo' visits more' found' ih =>
    right
    rcases ih with rfl | later
    · rw [found] at found'
      cases found'
      rw [isStep]
      exact .start
    · exact .next later more' found'

theorem Visits.of_next {s' : Bytes} (more : s ≠ []) (found : re.regexec s = some (so, eo))
    (isStep : (if eo = so then eo + 1 else eo) = n) (visits : Visits re (s.drop n) s') :
    Visits re s s' := by
  induction visits with
  | start =>
    rw [← isStep]
    exact .next .start more found
  | next _ more' found' ih => exact .next ih more' found'

theorem Visits.eq_start {s' : Bytes} (stops : s = [] ∨ re.regexec s = none)
    (visits : Visits re s s') : s' = s := by
  induction visits with
  | start => rfl
  | next _ more' found' ih =>
    subst ih
    rcases stops with isNil | none
    · exact absurd isNil more'
    · rw [none] at found'
      cases found'

theorem findAllLoop_iff (re : DuxRegex) (s : Bytes) :
    (∃ found, findAllLoop re s = .ok found) ↔ InBounds re s := by
  induction size : s.length using Nat.strong_induction_on generalizing s with
  | _ n ih =>
    subst size
    rcases round_cases re s with rfl | ⟨more, absent | hit⟩
    · refine iff_of_true ⟨[], findAllLoop_nil⟩ fun s' visits more => ?_
      exact absurd (visits.eq_start (.inl rfl)) more
    · refine iff_of_true ⟨[], findAllLoop_none absent⟩ fun s' visits _ => ?_
      rw [visits.eq_start (.inr absent), absent]
      exact nofun
    · obtain ⟨so, eo, found⟩ : ∃ so eo, re.regexec s = some (so, eo) := by
        rcases hit with ⟨so, empty⟩ | ⟨so, eo, found, -⟩
        · exact ⟨so, so, empty⟩
        · exact ⟨so, eo, found⟩
      obtain ⟨n, isStep⟩ : ∃ n, (if eo = so then eo + 1 else eo) = n := ⟨_, rfl⟩
      have bounds := DuxRegex.bounds found
      rw [findAllLoop_some more found isStep]
      by_cases inside : n ≤ s.length
      · have positive : 0 < n := by
          rw [← isStep]
          split <;> omega
        have rest := ih _ (length_drop_lt more positive) (s.drop n) rfl
        have runs : (∃ list, (advance s n >>= fun rest =>
            (slice s so eo :: ·) <$> findAllLoop re rest) = .ok list) ↔
              ∃ list, findAllLoop re (s.drop n) = .ok list := by
          rw [advance_of_le inside, ok_bind]
          cases findAllLoop re (s.drop n) with
          | error stop => exact iff_of_false nofun nofun
          | ok list => exact iff_of_true ⟨_, rfl⟩ ⟨_, rfl⟩
        rw [runs, rest]
        constructor
        · intro inBounds s' visits more'
          rcases visits.cases_start more found isStep with rfl | later
          · rw [found]
            intro atEnd
            cases atEnd
            rw [if_pos rfl] at isStep
            omega
          · exact inBounds s' later more'
        · intro inBounds s' visits more'
          exact inBounds s' (visits.of_next more found isStep) more'
      · -- an empty match at the end
        have atEnd : eo = so ∧ eo = s.length := by
          rw [← isStep] at inside
          split at inside <;> omega
        refine iff_of_false ?_ fun inBounds => ?_
        · rw [advance, if_neg inside]
          exact nofun
        · apply inBounds s .start more
          rw [found, ← atEnd.1, atEnd.2]

end Bounds

/-! ## When the operations agree -/

theorem length_intercalate_cons (sep piece : Bytes) (pieces : List Bytes) :
    (sep.intercalate (piece :: pieces)).length =
      pieces.length * sep.length + (piece :: pieces).flatten.length := by
  induction pieces generalizing piece with
  | nil => simp [List.intercalate_singleton]
  | cons next pieces ih =>
    rw [List.intercalate_cons_cons, List.length_append, List.length_append, ih]
    simp only [List.length_cons, List.flatten_cons, List.length_append, Nat.add_mul, Nat.one_mul]
    omega

theorem intercalate_cText_iff {pieces : List Bytes} (nonempty : pieces ≠ []) (r : Bytes) :
    (cText r).intercalate pieces = r.intercalate pieces ↔ 0 ∉ r ∨ pieces.length = 1 := by
  obtain ⟨piece, pieces, rfl⟩ := List.exists_cons_of_ne_nil nonempty
  constructor
  · intro same
    by_cases nul : 0 ∈ r
    · have lengths := congrArg List.length same
      rw [length_intercalate_cons, length_intercalate_cons, Nat.add_right_cancel_iff] at lengths
      have shorter : (cText r).length < r.length := by
        refine Nat.lt_of_le_of_ne (List.takeWhile_prefix _).length_le fun equal => ?_
        exact cText_eq_self_iff.1 ((List.takeWhile_prefix _).eq_of_length equal) nul
      right
      rcases Nat.eq_zero_or_pos pieces.length with none | positive
      · rw [List.length_cons, none]
      · exact absurd lengths (Nat.ne_of_lt (Nat.mul_lt_mul_of_pos_left shorter positive))
    · exact .inl nul
  · rintro (noNul | single)
    · rw [cText_eq_self_iff.2 noNul]
    · have isNil : pieces = [] := List.length_eq_zero_iff.1 (Nat.succ.inj single)
      rw [isNil, List.intercalate_singleton, List.intercalate_singleton]

theorem lineEnd_takeWhile (text : Bytes) :
    (text.takeWhile (· ≠ 0x0a)).length = text.length ∨
      text[(text.takeWhile (· ≠ 0x0a)).length]? = some 0x0a := by
  induction text with
  | nil => exact .inl rfl
  | cons b text ih =>
    by_cases feed : b = 0x0a
    · exact .inr (by simp [feed])
    · rw [List.takeWhile_cons_of_pos (by simp [feed])]
      simpa using ih

theorem le_of_lineEnd {text : Bytes} {i : Nat} (ends : i = text.length ∨ text[i]? = some 0x0a) :
    (text.takeWhile (· ≠ 0x0a)).length ≤ i := by
  rcases ends with rfl | feed
  · exact (List.takeWhile_prefix _).length_le
  · by_contra inside
    have member := List.mem_takeWhile_imp
      (List.getElem_mem (l := text.takeWhile (· ≠ 0x0a)) (Nat.not_le.1 inside))
    rw [List.IsPrefix.getElem (List.takeWhile_prefix _)] at member
    obtain ⟨bound, isFeed⟩ := List.getElem?_eq_some_iff.1 feed
    rw [isFeed] at member
    exact absurd member (by decide)

/-- The pattern `$`: the end of a line. -/
def lineEnd : DuxRegex where
  Matches text i j := i = j ∧ i ≤ text.length ∧ (i = text.length ∨ text[i]? = some 0x0a)
  regexec text := some ((text.takeWhile (· ≠ 0x0a)).length, (text.takeWhile (· ≠ 0x0a)).length)
  inText isMatch := ⟨isMatch.1.le, isMatch.1 ▸ isMatch.2.1⟩
  isMatch found := by
    cases found
    exact ⟨rfl, (List.takeWhile_prefix _).length_le, lineEnd_takeWhile _⟩
  leftmost found i' j' isMatch := by
    cases found
    exact ⟨le_of_lineEnd isMatch.2.2, fun same => (isMatch.1.symm.trans same).le⟩
  noMatch none := by cases none

end Dux.Runtime.Regex
