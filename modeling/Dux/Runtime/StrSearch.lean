import Dux.Logic.Occurrences
import Dux.Runtime.StrBuild

/-!
# Searching, replacing and splitting

`duxrt_str_find`, `duxrt_str_rfind`, `duxrt_str_replace`, `duxrt_str_replace_all` and
`duxrt_str_split` of `src/runtime/str.c`.  A comparison of memory at an index is the question
whether one string occurs there in the other.
-/

namespace Dux.Runtime.Text

open Logic

def duxrtStrFind (haystack needle : Option DuxStr) : Int :=
  match haystack, needle with
  | some h, some n =>
      if n.len = 0 then 0
      else
        match memFind h.chars n.chars with
        | some i => i
        | none => -1
  | _, _ => -1

/-- The loop of `duxrt_str_rfind` over some of the indices. -/
def rfindLoop (h n : Bytes) (last : Int) (indices : List Nat) : Int :=
  indices.foldl (fun last i => if OccursAt n h i then (i : Int) else last) last

def duxrtStrRfind (haystack needle : Option DuxStr) : Int :=
  match haystack, needle with
  | some h, some n =>
      if n.len = 0 then h.len
      else if h.len < n.len then -1
      else rfindLoop h.chars n.chars (-1) (List.range (h.len - n.len + 1).toNat)
  | _, _ => -1

/-- `duxrt_str_retain`: the string as it is. -/
def retained (s : DuxStr) : Except Stop Built := .ok (Built.ofChars s.chars)

/-- `total` in `duxrt_str_replace`. -/
def replaceTotal (s pat : DuxStr) (repl : Option DuxStr) (idx : Int) : Int :=
  int64 (idx + DuxStr.length repl + (s.len - idx - pat.len))

def duxrtStrReplace (s pat repl : Option DuxStr) : Except Stop Built :=
  match s, pat with
  | none, _ => duxrtStrNew (some []) 0
  | some s, none => retained s
  | some s, some pat =>
      if pat.len = 0 then retained s
      else
        let idx := duxrtStrFind (some s) (some pat)
        if idx < 0 then retained s
        else do
          let total := replaceTotal s pat repl idx
          let out ← duxrtStrNew none total
          let data ← out.data.memcpy 0 s.chars idx
          let data ← data.memcpy idx (DuxStr.text repl) (DuxStr.length repl)
          let data ← data.memcpy (idx + DuxStr.length repl)
            (s.chars.drop (idx.toNat + pat.chars.length)) (s.len - idx - pat.len)
          let data ← data.write total [0]
          return { out with data := data }

/-- The loop of `duxrt_str_replace_all` from an index on. -/
def replaceAllLoop (s pat : DuxStr) (repl : Option DuxStr) (_nonempty : pat.chars ≠ [])
    (buf : DuxStrBuf) (i : Nat) : Except Stop (DuxStrBuf × Nat) :=
  if _more : (i : Int) ≤ s.len - pat.len then
    if OccursAt pat.chars s.chars i then do
      let piece ← duxrtStrNew (some (DuxStr.text repl)) (DuxStr.length repl)
      let buf ← duxrtStrbufAppendStr buf piece
      replaceAllLoop s pat repl _nonempty buf (i + pat.chars.length)
    else do
      let ch ← duxrtStrNew (some (s.chars.drop i)) 1
      let buf ← duxrtStrbufAppendStr buf ch
      replaceAllLoop s pat repl _nonempty buf (i + 1)
  else .ok (buf, i)
termination_by s.chars.length - i
decreasing_by
  all_goals
    have positive := List.length_pos_iff.2 _nonempty
    simp only [DuxStr.len] at _more
    omega

/-- What `duxrt_str_replace_all` has in its buffer in the end. -/
def replaceAllBuffer (s pat : DuxStr) (repl : Option DuxStr) (nonempty : pat.chars ≠ []) :
    Except Stop DuxStrBuf := do
  let buf ← duxrtStrbufNew
  let (buf, i) ← replaceAllLoop s pat repl nonempty buf 0
  if (i : Int) < s.len then do
    let tail ← duxrtStrNew (some (s.chars.drop i)) (s.len - i)
    duxrtStrbufAppendStr buf tail
  else .ok buf

def duxrtStrReplaceAll (s pat repl : Option DuxStr) : Except Stop Built :=
  match s, pat with
  | none, _ => duxrtStrNew (some []) 0
  | some s, none => retained s
  | some s, some pat =>
      if nonempty : pat.chars = [] then retained s
      else do
        let buf ← replaceAllBuffer s pat repl nonempty
        duxrtStrbufBuild buf

/-- The loop of `duxrt_str_split` from an index on. -/
def splitLoop (s sep : DuxStr) (_nonempty : sep.chars ≠ []) (prev i : Nat) :
    Except Stop (List Built) :=
  if _more : (i : Int) ≤ s.len - sep.len then
    if OccursAt sep.chars s.chars i then do
      let piece ← duxrtStrNew (some (s.chars.drop prev)) (i - prev)
      let rest ← splitLoop s sep _nonempty (i + sep.chars.length) (i + sep.chars.length)
      return piece :: rest
    else splitLoop s sep _nonempty prev (i + 1)
  else do
    let piece ← duxrtStrNew (some (s.chars.drop prev)) (s.len - prev)
    return [piece]
termination_by s.chars.length - i
decreasing_by
  all_goals
    have positive := List.length_pos_iff.2 _nonempty
    simp only [DuxStr.len] at _more
    omega

/-- `duxrt_str_split`; every character is a piece where there is no separator. -/
def duxrtStrSplit (s sep : Option DuxStr) : Except Stop (List Built) :=
  match s, sep with
  | none, _ => .ok []
  | some s, none => s.chars.mapM fun c => duxrtStrNew (some [c]) 1
  | some s, some sep =>
      if nonempty : sep.chars = [] then s.chars.mapM fun c => duxrtStrNew (some [c]) 1
      else splitLoop s sep nonempty 0 0

/-! ## Searching -/

section Search

variable {h n : Bytes}

theorem isPrefixOf_drop_iff {i : Nat} : n.isPrefixOf (h.drop i) = true ↔ OccursAt n h i :=
  List.isPrefixOf_iff_prefix

theorem memFind_eq_some_iff (nonempty : n ≠ []) {k : Nat} :
    memFind h n = some k ↔ IsLeast {i | OccursAt n h i} k := by
  rw [memFind, if_neg nonempty, List.find?_range_eq_some]
  simp only [List.mem_range, Bool.not_eq_true', ← Bool.not_eq_true, isPrefixOf_drop_iff]
  constructor
  · rintro ⟨found, -, before⟩
    exact ⟨found, fun i occurs => Nat.le_of_not_lt fun less => before i less occurs⟩
  · rintro ⟨found, least⟩
    have inside := OccursAt.le nonempty found
    exact ⟨found, by omega, fun i less occurs => absurd (least occurs) (Nat.not_le.2 less)⟩

theorem memFind_eq_none_iff (nonempty : n ≠ []) :
    memFind h n = none ↔ ∀ i, ¬OccursAt n h i := by
  rw [memFind, if_neg nonempty, List.find?_range_eq_none]
  simp only [Bool.not_eq_true', ← Bool.not_eq_true, isPrefixOf_drop_iff]
  constructor
  · intro none' i occurs
    have inside := occurs.le nonempty
    exact none' i (by omega) occurs
  · exact fun none' i _ => none' i

theorem rfindLoop_range (h n : Bytes) (m : Nat) :
    (∃ k : Nat, rfindLoop h n (-1) (List.range m) = k ∧
      IsGreatest {i | i < m ∧ OccursAt n h i} k) ∨
    (rfindLoop h n (-1) (List.range m) = -1 ∧ ∀ i < m, ¬OccursAt n h i) := by
  induction m with
  | zero => exact .inr ⟨rfl, fun i none' => absurd none' (Nat.not_lt_zero i)⟩
  | succ m ih =>
    have step : rfindLoop h n (-1) (List.range (m + 1)) =
        if OccursAt n h m then (m : Int) else rfindLoop h n (-1) (List.range m) := by
      rw [rfindLoop, List.range_succ, List.foldl_append]
      rfl
    by_cases last : OccursAt n h m
    · rw [step, if_pos last]
      exact .inl ⟨m, rfl, ⟨Nat.lt_succ_self m, last⟩, fun i member => Nat.le_of_lt_succ member.1⟩
    · rw [step, if_neg last]
      rcases ih with ⟨k, found, ⟨inside, occurs⟩, greatest⟩ | ⟨absent, none'⟩
      · refine .inl ⟨k, found, ⟨Nat.lt_succ_of_lt inside, occurs⟩, fun i member => ?_⟩
        rcases Nat.lt_succ_iff_lt_or_eq.1 member.1 with before | rfl
        · exact greatest ⟨before, member.2⟩
        · exact absurd member.2 last
      · refine .inr ⟨absent, fun i inside => ?_⟩
        rcases Nat.lt_succ_iff_lt_or_eq.1 inside with before | rfl
        · exact none' i before
        · exact last

end Search

/-! ## The loops over a string -/

section Cut

variable {s sep : DuxStr}

theorem DuxStr.strOf_eq {chars : Bytes} (fits : chars.length ≤ s.chars.length) :
    strOf chars = .ok (Built.ofChars chars) :=
  if_pos (Nat.le_trans fits s.small)

theorem take_succ_drop {text : Bytes} {prev i : Nat} (before : prev ≤ i)
    (inside : i < text.length) :
    (text.take (i + 1)).drop prev = (text.take i).drop prev ++ [text[i]] := by
  rw [List.take_succ_eq_append_getElem inside, List.drop_append_of_le_length]
  rw [List.length_take]
  omega

theorem pieces_at_end {i prev : Nat} (nonempty : sep.chars ≠ []) (before : prev ≤ i)
    (inside : i ≤ s.chars.length) (done : ¬(i : Int) ≤ s.len - sep.len) :
    pieces sep.chars ((s.chars.take i).drop prev) (s.chars.drop i) = [s.chars.drop prev] := by
  rw [pieces_of_absent, ← List.drop_append_of_le_length, List.take_append_drop]
  · rw [List.length_take]
    omega
  · intro j _ occurs
    have room := occurs.le nonempty
    simp only [DuxStr.len] at done
    rw [List.length_drop] at room
    omega

theorem splitLoop_eq (nonempty : sep.chars ≠ []) {prev i : Nat} (before : prev ≤ i)
    (inside : i ≤ s.chars.length) :
    splitLoop s sep nonempty prev i =
      .ok ((pieces sep.chars ((s.chars.take i).drop prev) (s.chars.drop i)).map
        Built.ofChars) := by
  fun_induction splitLoop s sep nonempty prev i with
  | case1 prev i more found ih =>
    simp only [DuxStr.len] at more
    have length : ((s.chars.drop prev).take (i - prev)).length ≤ s.chars.length := by
      rw [List.length_take, List.length_drop]
      omega
    have piece : duxrtStrNew (some (s.chars.drop prev)) ((i : Int) - prev) =
        .ok (Built.ofChars ((s.chars.take i).drop prev)) := by
      rw [← Nat.cast_sub before, duxrtStrNew_take (by rw [List.length_drop]; omega),
        DuxStr.strOf_eq length, List.drop_take]
    rw [piece, ok_bind, ih (Nat.le_refl _) (by omega), ok_bind,
      pieces_of_isPrefix nonempty found, List.drop_drop, List.drop_take_self]
    rfl
  | case2 prev i more other ih =>
    simp only [DuxStr.len] at more
    have positive := List.length_pos_iff.2 nonempty
    have here : i < s.chars.length := by omega
    rw [OccursAt, List.drop_eq_getElem_cons here] at other
    rw [ih (by omega) (by omega), List.drop_eq_getElem_cons here,
      pieces_cons_of_not_isPrefix other, take_succ_drop before here]
  | case3 prev i done =>
    have piece : duxrtStrNew (some (s.chars.drop prev)) (s.len - prev) =
        .ok (Built.ofChars (s.chars.drop prev)) := by
      rw [DuxStr.len, ← Nat.cast_sub (by omega), duxrtStrNew_take (by rw [List.length_drop]),
        List.take_of_length_le (by rw [List.length_drop]),
        DuxStr.strOf_eq (s := s) (by rw [List.length_drop]; omega)]
    rw [piece, ok_bind, pieces_at_end nonempty before inside done]
    rfl

/-- The pieces into which a string is split. -/
def splitPieces (s : Option DuxStr) (sep : DuxStr) : List Bytes :=
  s.elim [] fun s => pieces sep.chars [] s.chars

theorem duxrtStrSplit_eq (s : Option DuxStr) (nonempty : sep.chars ≠ []) :
    duxrtStrSplit s (some sep) = .ok ((splitPieces s sep).map Built.ofChars) := by
  cases s with
  | none => rfl
  | some s =>
    rw [duxrtStrSplit, dif_neg nonempty, splitLoop_eq nonempty (Nat.le_refl 0) (Nat.zero_le _)]
    rfl

theorem replaceAllLoop_eq (nonempty : sep.chars ≠ []) (repl : Option DuxStr) {buf : DuxStrBuf}
    {i : Nat} {front : Bytes} (holds : buf.Holds front) (inside : i ≤ s.chars.length)
    (short : front.length ≤ i * int32Max) :
    ∃ buf' j front', replaceAllLoop s sep repl nonempty buf i = .ok (buf', j) ∧
      buf'.Holds front' ∧ j ≤ s.chars.length ∧ front'.length ≤ j * int32Max ∧
      front' ++ s.chars.drop j =
        front ++ (DuxStr.text repl).intercalate (pieces sep.chars [] (s.chars.drop i)) := by
  have limit : int32Max = 2147483647 := rfl
  have small := s.small
  induction remaining : s.chars.length - i using Nat.strong_induction_on
    generalizing buf i front with
  | _ k ih =>
    have positive := List.length_pos_iff.2 nonempty
    rw [replaceAllLoop]
    split
    · next more =>
      simp only [DuxStr.len] at more
      have room : i * int32Max + int32Max + 1 ≤ 2 ^ 62 := by
        rw [limit] at small ⊢
        omega
      split
      · next found =>
        have text : duxrtStrNew (some (DuxStr.text repl)) (DuxStr.length repl) =
            .ok (Built.ofChars (DuxStr.text repl)) := by
          rw [DuxStr.length_eq, duxrtStrNew_some, strOf, if_pos (DuxStr.length_text_le repl)]
        have length := DuxStr.length_text_le repl
        obtain ⟨buf₁, appended, holds₁⟩ := holds.append (DuxStr.text repl) (by omega)
        have next : (front ++ DuxStr.text repl).length ≤
            (i + sep.chars.length) * int32Max := by
          rw [List.length_append, limit]
          rw [limit] at short length
          omega
        obtain ⟨buf', j, front', runs, holds', inside', short', rest⟩ :=
          ih _ (by omega) holds₁ (by omega) next rfl
        refine ⟨buf', j, front', ?_, holds', inside', short', ?_⟩
        · rw [text, ok_bind, appended, ok_bind, runs]
        · rw [rest, intercalate_pieces_of_isPrefix _ nonempty found, List.drop_drop,
            List.append_assoc]
      · next other =>
        have here : i < s.chars.length := by omega
        have text : duxrtStrNew (some (s.chars.drop i)) 1 = .ok (Built.ofChars [s.chars[i]]) := by
          rw [List.drop_eq_getElem_cons here]
          exact duxrtStrNew_take (n := 1) (Nat.le_add_left _ _)
        obtain ⟨buf₁, appended, holds₁⟩ := holds.append ([s.chars[i]]) (by
          rw [List.length_singleton]
          omega)
        have next : (front ++ [s.chars[i]]).length ≤ (i + 1) * int32Max := by
          rw [List.length_append, List.length_singleton]
          rw [limit] at short ⊢
          omega
        obtain ⟨buf', j, front', runs, holds', inside', short', rest⟩ :=
          ih _ (by omega) holds₁ (by omega) next rfl
        refine ⟨buf', j, front', ?_, holds', inside', short', ?_⟩
        · rw [text, ok_bind, appended, ok_bind, runs]
        · rw [OccursAt, List.drop_eq_getElem_cons here] at other
          rw [rest, List.drop_eq_getElem_cons here, intercalate_pieces_cons _ other,
            List.append_assoc, List.singleton_append]
    · next done =>
      refine ⟨buf, i, front, rfl, holds, inside, short, ?_⟩
      have last := pieces_at_end nonempty (Nat.le_refl i) inside done
      rw [List.drop_take_self] at last
      rw [last, List.intercalate_singleton]

/-- The text in which every occurrence is replaced. -/
def replaced (s : Option DuxStr) (sep : DuxStr) (repl : Option DuxStr) : Bytes :=
  (DuxStr.text repl).intercalate (splitPieces s sep)

theorem replaceAllBuffer_eq (nonempty : sep.chars ≠ []) (repl : Option DuxStr) :
    ∃ buf, replaceAllBuffer s sep repl nonempty = .ok buf ∧
      buf.Holds (replaced (some s) sep repl) ∧
        (replaced (some s) sep repl).length ≤ s.chars.length * int32Max := by
  have limit : int32Max = 2147483647 := rfl
  have small := s.small
  obtain ⟨buf₀, made, holds₀⟩ := holds_duxrtStrbufNew
  obtain ⟨buf, j, front, runs, holds, inside, short, whole⟩ :=
    replaceAllLoop_eq (s := s) nonempty repl holds₀ (Nat.zero_le _) (Nat.zero_le _)
  rw [List.drop_zero, List.nil_append] at whole
  have whole : front ++ s.chars.drop j = replaced (some s) sep repl := whole
  have length := congrArg List.length whole
  rw [List.length_append, List.length_drop] at length
  have bound : (replaced (some s) sep repl).length ≤ s.chars.length * int32Max := by
    rw [limit] at short ⊢
    omega
  suffices ∃ buf, replaceAllBuffer s sep repl nonempty = .ok buf ∧
      buf.Holds (replaced (some s) sep repl) by
    obtain ⟨buf, filled, holds⟩ := this
    exact ⟨buf, filled, holds, bound⟩
  rw [replaceAllBuffer, made, ok_bind, runs, ok_bind]
  dsimp only
  split
  · next more =>
    rw [DuxStr.len] at more
    have tail : duxrtStrNew (some (s.chars.drop j)) (s.len - j) =
        .ok (Built.ofChars (s.chars.drop j)) := by
      rw [DuxStr.len, ← Nat.cast_sub inside, ← List.length_drop, duxrtStrNew_some,
        DuxStr.strOf_eq (s := s) (by rw [List.length_drop]; omega)]
    obtain ⟨buf', appended, holds'⟩ := holds.append (s.chars.drop j) (by
      rw [List.length_drop]
      rw [limit] at bound small
      omega)
    rw [whole] at holds'
    rw [tail, ok_bind, appended]
    exact ⟨buf', rfl, holds'⟩
  · next done =>
    rw [DuxStr.len] at done
    rw [List.drop_of_length_le (by omega), List.append_nil] at whole
    exact ⟨buf, rfl, whole ▸ holds⟩

theorem duxrtStrReplaceAll_eq (s : Option DuxStr) (nonempty : sep.chars ≠ [])
    (repl : Option DuxStr) :
    duxrtStrReplaceAll s (some sep) repl = strOf (replaced s sep repl) := by
  cases s with
  | none => exact duxrtStrNew_some []
  | some s =>
    obtain ⟨buf, filled, holds, -⟩ := replaceAllBuffer_eq (s := s) nonempty repl
    rw [duxrtStrReplaceAll, dif_neg nonempty, filled, ok_bind, holds.build]

/-! ### What is found -/

theorem text_ne_nil_iff : sep.len = 0 ↔ sep.chars = [] := by
  rw [DuxStr.len, Nat.cast_eq_zero, List.length_eq_zero_iff]

theorem not_occursAt_nil {i : Nat} (nonempty : sep.chars ≠ []) : ¬OccursAt sep.chars [] i := by
  rw [OccursAt, List.drop_nil, List.prefix_nil]
  exact nonempty

theorem duxrtStrFind_cases (s : Option DuxStr) (nonempty : sep.chars ≠ []) :
    (∃ k : Nat, duxrtStrFind s (some sep) = k ∧
      IsLeast {i | OccursAt sep.chars (DuxStr.text s) i} k) ∨
    (duxrtStrFind s (some sep) = -1 ∧ ∀ i, ¬OccursAt sep.chars (DuxStr.text s) i) := by
  cases s with
  | none => exact .inr ⟨rfl, fun i => not_occursAt_nil nonempty⟩
  | some s =>
    rw [duxrtStrFind, if_neg (mt text_ne_nil_iff.1 nonempty)]
    cases found : memFind s.chars sep.chars with
    | some k => exact .inl ⟨k, rfl, (memFind_eq_some_iff nonempty).1 found⟩
    | none => exact .inr ⟨rfl, (memFind_eq_none_iff nonempty).1 found⟩

theorem duxrtStrRfind_cases (s : Option DuxStr) (nonempty : sep.chars ≠ []) :
    (∃ k : Nat, duxrtStrRfind s (some sep) = k ∧
      IsGreatest {i | OccursAt sep.chars (DuxStr.text s) i} k) ∨
    (duxrtStrRfind s (some sep) = -1 ∧ ∀ i, ¬OccursAt sep.chars (DuxStr.text s) i) := by
  cases s with
  | none => exact .inr ⟨rfl, fun i => not_occursAt_nil nonempty⟩
  | some s =>
    have length : s.len = s.chars.length := rfl
    have length' : sep.len = sep.chars.length := rfl
    rw [duxrtStrRfind, if_neg (mt text_ne_nil_iff.1 nonempty)]
    by_cases longer : s.len < sep.len
    · rw [if_pos longer]
      refine .inr ⟨rfl, fun i occurs => ?_⟩
      have inside := occurs.le nonempty
      simp only [DuxStr.text, Option.elim_some] at inside
      omega
    · rw [if_neg longer]
      have within {i : Nat} (occurs : OccursAt sep.chars s.chars i) :
          i < (s.len - sep.len + 1).toNat := by
        have inside := occurs.le nonempty
        omega
      rcases rfindLoop_range s.chars sep.chars (s.len - sep.len + 1).toNat with
        ⟨k, found, ⟨-, occurs⟩, greatest⟩ | ⟨absent, none'⟩
      · exact .inl ⟨k, found, occurs, fun i occurs' => greatest ⟨within occurs', occurs'⟩⟩
      · exact .inr ⟨absent, fun i occurs => none' i (within occurs) occurs⟩

theorem duxrtStrReplace_of_find {s : DuxStr} (repl : Option DuxStr) {k : Nat}
    (nonempty : sep.chars ≠ []) (found : duxrtStrFind (some s) (some sep) = k)
    (inside : k + sep.chars.length ≤ s.chars.length) :
    replaceTotal s sep repl k = (s.chars.take k ++ DuxStr.text repl ++
      s.chars.drop (k + sep.chars.length)).length ∧
    duxrtStrReplace (some s) (some sep) repl =
      strOf (s.chars.take k ++ DuxStr.text repl ++ s.chars.drop (k + sep.chars.length)) := by
  have limit : int32Max = 2147483647 := rfl
  have small := s.small
  have small' := DuxStr.length_text_le repl
  have front : (s.chars.take k).length = k := List.length_take_of_le (by omega)
  have back : (s.chars.drop (k + sep.chars.length)).length =
      s.chars.length - (k + sep.chars.length) := List.length_drop
  have length : (s.chars.take k ++ DuxStr.text repl ++
      s.chars.drop (k + sep.chars.length)).length =
        k + (DuxStr.text repl).length + (s.chars.length - (k + sep.chars.length)) := by
    rw [List.length_append, List.length_append, front, back]
  have total : replaceTotal s sep repl k = (s.chars.take k ++ DuxStr.text repl ++
      s.chars.drop (k + sep.chars.length)).length := by
    rw [replaceTotal, DuxStr.length_eq, DuxStr.len, DuxStr.len, length]
    rw [show (k : Int) + (DuxStr.text repl).length + (s.chars.length - k - sep.chars.length) =
      (k + (DuxStr.text repl).length + (s.chars.length - (k + sep.chars.length)) : Nat) by omega]
    exact int64_of_natCast (by omega)
  refine ⟨total, ?_⟩
  rw [duxrtStrReplace, if_neg (mt text_ne_nil_iff.1 nonempty), found]
  dsimp only
  rw [if_neg (by omega), total]
  by_cases fits : (s.chars.take k ++ DuxStr.text repl ++
      s.chars.drop (k + sep.chars.length)).length ≤ int32Max
  · obtain ⟨data, allocated, filling⟩ := duxrtStrNew_null fits
    obtain ⟨first, copied₁, filling₁⟩ := filling.write (s.chars.take k) (by
      rw [List.length_nil, front]
      omega)
    rw [List.nil_append] at filling₁
    obtain ⟨second, copied₂, filling₂⟩ := filling₁.memcpy (DuxStr.text repl) (by
      rw [front]
      omega)
    obtain ⟨third, copied₃, filling₃⟩ := filling₂.memcpy
      (s.chars.drop (k + sep.chars.length)) (by
        rw [List.length_append, front, back]
        omega)
    rw [← Block.memcpy_of_le _ _ (by omega), List.length_nil, Nat.cast_zero] at copied₁
    rw [front] at copied₂
    rw [List.length_append, front, back, Nat.cast_add] at copied₃
    rw [← terminate filling₃ fits, allocated, ok_bind, DuxStr.length_eq, copied₁, ok_bind,
      copied₂, ok_bind, Int.toNat_natCast, show s.len - k - sep.len =
        (s.chars.length - (k + sep.chars.length) : Nat) by
          simp only [DuxStr.len]
          omega, copied₃, ok_bind]
  · rw [duxrtStrNew_abort (by omega), error_bind, strOf, if_neg fits]

theorem duxrtStrReplace_of_absent {s : DuxStr} {repl : Option DuxStr}
    (absent : duxrtStrFind (some s) (some sep) = -1) :
    duxrtStrReplace (some s) (some sep) repl = strOf s.chars := by
  have same : retained s = strOf s.chars := (DuxStr.strOf_eq (Nat.le_refl _)).symm
  rw [duxrtStrReplace]
  split
  · exact same
  · rw [absent]
    exact same

end Cut

/-- The replacement in the heap is the same. -/
theorem replaceLoop_eq {needle repl : Bytes} (nonempty : needle ≠ []) {fuel : Nat} {text : Bytes}
    (enough : text.length ≤ fuel) :
    replaceLoop needle repl fuel text = repl.intercalate (pieces needle [] text) := by
  induction fuel generalizing text with
  | zero =>
    obtain rfl := List.eq_nil_of_length_eq_zero (Nat.le_zero.1 enough)
    rw [replaceLoop, pieces, List.intercalate_singleton]
  | succ fuel ih =>
    cases text with
    | nil =>
      rw [replaceLoop, pieces, List.intercalate_singleton]
      exact Nat.succ_ne_zero fuel
    | cons c rest =>
      have positive := List.length_pos_iff.2 nonempty
      rw [List.length_cons] at enough
      by_cases found : needle <+: c :: rest
      · rw [replaceLoop, if_pos (List.isPrefixOf_iff_prefix.2 found), ih,
          intercalate_pieces_of_isPrefix repl nonempty found]
        rw [List.length_drop, List.length_cons]
        omega
      · rw [replaceLoop, if_neg (mt List.isPrefixOf_iff_prefix.1 found),
          ih (Nat.le_of_succ_le_succ enough), intercalate_pieces_cons repl found]

/-- Searching, splitting and replacing by one separator agree. -/
structure SearchesAgree (s : Option DuxStr) (sep : DuxStr) : Prop where
  split : ∃ ps : List Bytes, duxrtStrSplit s (some sep) = .ok (ps.map Built.ofChars) ∧
    sep.chars.intercalate ps = DuxStr.text s ∧ (∀ p ∈ ps, ¬sep.chars <:+: p) ∧
      ∀ repl, duxrtStrReplaceAll s (some sep) repl = strOf ((DuxStr.text repl).intercalate ps)
  find : ∀ k : Nat, duxrtStrFind s (some sep) = k ↔
    IsLeast {i | OccursAt sep.chars (DuxStr.text s) i} k
  find_absent : duxrtStrFind s (some sep) = -1 ↔ ¬sep.chars <:+: DuxStr.text s
  rfind : ∀ k : Nat, duxrtStrRfind s (some sep) = k ↔
    IsGreatest {i | OccursAt sep.chars (DuxStr.text s) i} k
  rfind_absent : duxrtStrRfind s (some sep) = -1 ↔ ¬sep.chars <:+: DuxStr.text s
  replace : ∀ repl, ∀ k : Nat, duxrtStrFind s (some sep) = k →
    duxrtStrReplace s (some sep) repl = strOf ((DuxStr.text s).take k ++ DuxStr.text repl ++
      (DuxStr.text s).drop (k + sep.chars.length))
  replace_absent : ∀ repl, duxrtStrFind s (some sep) = -1 →
    duxrtStrReplace s (some sep) repl = strOf (DuxStr.text s)

theorem search_iff {P : Nat → Prop} {absent : Prop} {r : Int} (unique : ∀ i j, P i → P j → i = j)
    (excludes : ∀ i, P i → ¬absent) (cases' : (∃ k : Nat, r = k ∧ P k) ∨ (r = -1 ∧ absent)) :
    (∀ k : Nat, r = k ↔ P k) ∧ (r = -1 ↔ absent) := by
  rcases cases' with ⟨k, found, holds⟩ | ⟨notFound, holds⟩
  · refine ⟨fun j => ⟨fun same => ?_, fun holds' => ?_⟩, fun none' => ?_, fun none' => ?_⟩
    · obtain rfl : k = j := by omega
      exact holds
    · rw [found, unique k j holds holds']
    · omega
    · exact absurd none' (excludes k holds)
  · refine ⟨fun j => ⟨fun same => ?_, fun holds' => ?_⟩, fun _ => holds, fun _ => notFound⟩
    · omega
    · exact absurd holds (excludes j holds')

theorem searches_agree (s : Option DuxStr) {sep : DuxStr} (nonempty : sep.chars ≠ []) :
    SearchesAgree s sep := by
  have finds := search_iff (fun _ _ => IsLeast.unique) (fun i least none' => none' i least.1)
    (duxrtStrFind_cases s nonempty)
  have rfinds := search_iff (fun _ _ => IsGreatest.unique) (fun i most none' => none' i most.1)
    (duxrtStrRfind_cases s nonempty)
  rw [← not_exists, ← infix_iff_exists_occursAt] at finds rfinds
  refine ⟨⟨splitPieces s sep, duxrtStrSplit_eq s nonempty, ?_, ?_, ?_⟩, finds.1, finds.2,
    rfinds.1, rfinds.2, ?_, ?_⟩
  · cases s with
    | none => rfl
    | some s => exact intercalate_pieces nonempty s.chars
  · intro p member
    cases s with
    | none => exact absurd member List.not_mem_nil
    | some s =>
      have passed : ∀ i < ([] : Bytes).length, ¬OccursAt sep.chars ([] ++ s.chars) i :=
        fun i before => absurd before (Nat.not_lt_zero i)
      exact not_infix_of_mem_pieces nonempty passed member
  · exact duxrtStrReplaceAll_eq s nonempty
  · intro repl k found
    cases s with
    | none => exact absurd ((finds.1 k).1 found).1 (not_occursAt_nil nonempty)
    | some s => exact (duxrtStrReplace_of_find _ nonempty found
        (((finds.1 k).1 found).1.le nonempty)).2
  · intro repl absent
    cases s with
    | none => exact duxrtStrNew_some []
    | some s => exact duxrtStrReplace_of_absent absent

/-- A separator that overlaps itself. -/
theorem searches_agree_overlapping :
    SearchesAgree (some ⟨[0x61, 0x61, 0x61], by decide⟩) ⟨[0x61, 0x61], by decide⟩ :=
  searches_agree _ (by decide)

end Dux.Runtime.Text
