import Dux.Runtime.StrSearch

/-!
# Lengths of strings that are built

Every function of `src/runtime/str.c` that builds a string computes its length first.  Sums of
a few lengths are below 2³³, and the string buffer never needs more than 2⁶², but the product
in `duxrt_str_repeat` and the sum over a list in `duxrt_str_join_list` may wrap.
-/

namespace Dux.Runtime.Text

open Logic

/-- A call of a function that builds a string. -/
inductive StrCall
  | concat (a b : Option DuxStr)
  | joinList (parts : Option (List (Option DuxStr))) (count : Int)
  | replace (s pat repl : Option DuxStr)
  | replaceAll (s pat repl : Option DuxStr)
  | repeated (s : Option DuxStr) (n : Int)

namespace StrCall

def run : StrCall → Except Stop Built
  | concat a b => duxrtStrConcat a b
  | joinList parts count => duxrtStrJoinList parts count
  | replace s pat repl => duxrtStrReplace s pat repl
  | replaceAll s pat repl => duxrtStrReplaceAll s pat repl
  | repeated s n => duxrtStrRepeat s n

/-- The length that the call computes for its result. -/
def total : StrCall → Except Stop Int
  | concat a b => .ok (int64 (DuxStr.length a + DuxStr.length b))
  | joinList none _ => .ok 0
  | joinList (some parts) count => if count ≤ 0 then .ok 0 else sumLoop parts 0 0 count.toNat
  | replace (some s) (some pat) repl =>
      let idx := duxrtStrFind (some s) (some pat)
      if pat.len = 0 ∨ idx < 0 then .ok s.len else .ok (replaceTotal s pat repl idx)
  | replaceAll (some s) (some pat) repl =>
      if nonempty : pat.chars = [] then .ok s.len
      else do
        let buf ← replaceAllBuffer s pat repl nonempty
        return buf.len
  | replace s _ _ | replaceAll s _ _ => .ok (DuxStr.length s)
  | repeated none _ => .ok 0
  | repeated (some s) n => if s.len = 0 ∨ n ≤ 0 then .ok 0 else .ok (repeatTotal s n)

def chars : StrCall → Bytes
  | concat a b => DuxStr.text a ++ DuxStr.text b
  | joinList parts count => joined ((parts.getD []).take count.toNat)
  | replace s pat repl =>
      if DuxStr.text pat = [] ∨ duxrtStrFind s pat < 0 then DuxStr.text s
      else (DuxStr.text s).take (duxrtStrFind s pat).toNat ++ DuxStr.text repl ++
        (DuxStr.text s).drop ((duxrtStrFind s pat).toNat + (DuxStr.text pat).length)
  | replaceAll s none _ => DuxStr.text s
  | replaceAll s (some pat) repl =>
      if pat.chars = [] then DuxStr.text s else replaced s pat repl
  | repeated s n => Text.repeated (DuxStr.text s) n.toNat

/-- The result is allocated with its true length and filled, or the run is given up; and the
length that is computed is the true one. -/
structure Sound (c : StrCall) : Prop where
  run : c.run = .ok (Built.ofChars c.chars) ∨ c.run = .error .abort ∨ c.run = .error .thrown
  total : ∀ total, c.total = .ok total → total = c.chars.length

/-- The product or the sum of the lengths is a 64-bit word.  An index beyond the list raises
an exception before anything is allocated. -/
def Fits : StrCall → Prop
  | joinList (some parts) count =>
      parts.length < count ∨ (joined (parts.take count.toNat)).length < 2 ^ 63
  | repeated s n => n.toNat * (DuxStr.text s).length < 2 ^ 63
  | _ => True

variable {c : StrCall}

theorem run_of_strOf (run : c.run = strOf c.chars) :
    c.run = .ok (Built.ofChars c.chars) ∨ c.run = .error .abort ∨ c.run = .error .thrown := by
  rw [run, strOf]
  split
  · exact .inl rfl
  · exact .inr (.inl rfl)

theorem sound_of_strOf {n : Int} (run : c.run = strOf c.chars) (total : c.total = .ok n)
    (exact' : n = c.chars.length) : c.Sound where
  run := run_of_strOf run
  total m isTotal := by
    rw [total, Except.ok.injEq] at isTotal
    rw [← isTotal, exact']

theorem sound_concat (a b : Option DuxStr) : (concat a b).Sound := by
  have limit : int32Max = 2147483647 := rfl
  have shortA := DuxStr.length_text_le a
  have shortB := DuxStr.length_text_le b
  refine sound_of_strOf (duxrtStrConcat_eq a b) rfl ?_
  rw [chars, List.length_append, DuxStr.length_eq, DuxStr.length_eq, ← Nat.cast_add]
  exact int64_of_natCast (by omega)

theorem strOf_text (s : DuxStr) : retained s = strOf s.chars :=
  (DuxStr.strOf_eq (Nat.le_refl _)).symm

theorem sound_replace (s pat repl : Option DuxStr) : (replace s pat repl).Sound := by
  have kept {s : Option DuxStr} (run : (replace s pat repl).run = strOf (DuxStr.text s))
      (total : (replace s pat repl).total = .ok (DuxStr.length s))
      (chars : (replace s pat repl).chars = DuxStr.text s) : (replace s pat repl).Sound := by
    refine sound_of_strOf (chars.symm ▸ run) total ?_
    rw [chars, DuxStr.length_eq]
  cases s with
  | none =>
    have absent : duxrtStrFind none pat = -1 := rfl
    refine kept (duxrtStrNew_some []) rfl ?_
    rw [chars, absent]
    exact if_pos (Or.inr (by decide))
  | some s =>
    cases pat with
    | none =>
      have empty : DuxStr.text none = [] := rfl
      refine kept (strOf_text s) rfl ?_
      rw [chars, if_pos (Or.inl empty)]
    | some pat =>
      by_cases empty : pat.chars = []
      · have empty' : DuxStr.text (some pat) = [] := empty
        refine kept ?_ (if_pos (Or.inl (text_ne_nil_iff.2 empty))) (if_pos (Or.inl empty'))
        rw [run, duxrtStrReplace, if_pos (text_ne_nil_iff.2 empty)]
        exact strOf_text s
      · rcases duxrtStrFind_cases (some s) empty with ⟨k, found, least⟩ | ⟨absent, -⟩
        · obtain ⟨total, replaced⟩ :=
            duxrtStrReplace_of_find repl empty found (least.1.le empty)
          have some' : ¬(DuxStr.text (some pat) = [] ∨ (k : Int) < 0) :=
            not_or.2 ⟨empty, by omega⟩
          have isChars : (replace (some s) (some pat) repl).chars = s.chars.take k ++
              DuxStr.text repl ++ s.chars.drop (k + pat.chars.length) := by
            rw [chars, found, if_neg some']
            rfl
          refine sound_of_strOf (isChars.symm ▸ replaced) ?_ (isChars.symm ▸ total)
          rw [StrCall.total, found]
          exact if_neg (not_or.2 ⟨mt text_ne_nil_iff.1 empty, by omega⟩)
        · refine kept (duxrtStrReplace_of_absent absent) ?_ ?_
          · rw [total, absent]
            exact if_pos (Or.inr (by decide))
          · rw [chars, absent]
            exact if_pos (Or.inr (by decide))

theorem sound_replaceAll (s pat repl : Option DuxStr) : (replaceAll s pat repl).Sound := by
  cases s with
  | none =>
    have isChars : (replaceAll none pat repl).chars = [] := by
      cases pat with
      | none => rfl
      | some pat => exact ite_self _
    exact sound_of_strOf (isChars.symm ▸ duxrtStrNew_some []) rfl (isChars.symm ▸ rfl)
  | some s =>
    cases pat with
    | none => exact sound_of_strOf (strOf_text s) rfl rfl
    | some pat =>
      by_cases empty : pat.chars = []
      · have isChars : (replaceAll (some s) (some pat) repl).chars = s.chars := if_pos empty
        refine sound_of_strOf ?_ (dif_pos empty) (isChars.symm ▸ rfl)
        rw [isChars, run, duxrtStrReplaceAll, dif_pos empty]
        exact strOf_text s
      · have isChars : (replaceAll (some s) (some pat) repl).chars =
          replaced (some s) pat repl := if_neg empty
        obtain ⟨buf, filled, holds, -⟩ := replaceAllBuffer_eq (s := s) empty repl
        refine sound_of_strOf (n := buf.len) ?_ ?_ ?_
        · rw [isChars]
          exact duxrtStrReplaceAll_eq (some s) empty repl
        · rw [total, dif_neg empty, filled, ok_bind, pure_eq_ok]
        · rw [isChars]
          exact holds.len

theorem sound_joinList_iff (parts : Option (List (Option DuxStr))) (count : Int) :
    (joinList parts count).Sound ↔ (joinList parts count).Fits := by
  cases parts with
  | none =>
    refine iff_of_true (sound_of_strOf ?_ rfl ?_) trivial
    · rw [chars, Option.getD_none, List.take_nil]
      exact duxrtStrNew_some []
    · rw [chars, Option.getD_none, List.take_nil]
      rfl
  | some parts =>
    by_cases beyond : parts.length < count
    · refine iff_of_true ⟨.inr (.inr (duxrtStrJoinList_thrown beyond)), fun n isTotal => ?_⟩
        (.inl beyond)
      rw [total, if_neg (by omega), sumLoop_thrown (Nat.zero_le _) (by omega)] at isTotal
      cases isTotal
    · have isTotal : (joinList (some parts) count).total =
          .ok (int64 (joined (parts.take count.toNat)).length) := by
        rw [total]
        split
        · next none' =>
          rw [Int.toNat_of_nonpos none', List.take_zero]
          exact congrArg Except.ok (int64_of_natCast (n := 0) (by decide)).symm
        · exact sumLoop_total (by omega)
      constructor
      · intro sound
        have same := sound.total _ isTotal
        have bound := int64_lt (joined (parts.take count.toNat)).length
        rw [same] at bound
        exact .inr (by exact_mod_cast bound)
      · rintro (beyond' | small)
        · exact absurd beyond' beyond
        · exact sound_of_strOf (duxrtStrJoinList_eq (Int.not_lt.1 beyond) small) isTotal
            (int64_of_natCast small)

theorem sound_repeated_iff (s : Option DuxStr) (n : Int) :
    (repeated s n).Sound ↔ (repeated s n).Fits := by
  have length : (repeated s n).chars.length = n.toNat * (DuxStr.text s).length :=
    length_repeated _ _
  cases s with
  | none =>
    have isChars : (repeated none n).chars = [] :=
      List.eq_nil_of_length_eq_zero (by rw [length]; rfl)
    exact iff_of_true (sound_of_strOf (isChars.symm ▸ duxrtStrNew_some []) rfl (isChars.symm ▸ rfl))
      (Nat.lt_of_le_of_lt (Nat.le_of_eq (Nat.mul_zero _)) (by decide))
  | some s =>
    constructor
    · intro sound
      by_cases none' : s.len = 0 ∨ n ≤ 0
      · have nothing := sound.total 0 (if_pos none')
        rw [length] at nothing
        rw [Fits]
        omega
      · have same := sound.total _ (if_neg none')
        have bound := int64_lt (s.len * n)
        rw [← repeatTotal, same, length] at bound
        rw [Fits]
        exact_mod_cast bound
    · intro small
      refine sound_of_strOf (n := n.toNat * s.chars.length) (duxrtStrRepeat_eq small) ?_ ?_
      · rw [total]
        split
        · next none' =>
          rw [Except.ok.injEq, eq_comm, ← Int.natCast_mul, Nat.cast_eq_zero, Nat.mul_eq_zero]
          rcases none' with isNil | isNone
          · exact .inr (Nat.cast_eq_zero.1 isNil)
          · exact .inl (Int.toNat_of_nonpos isNone)
        · next some' =>
          have positive := Int.not_le.1 (not_or.1 some').2
          rw [repeatTotal_eq (Int.le_of_lt positive) small, Int.natCast_mul]
      · rw [length, Int.natCast_mul]
        rfl

/-- A call is sound exactly when its length does not wrap. -/
theorem sound_iff_fits (c : StrCall) : c.Sound ↔ c.Fits := by
  cases c with
  | concat a b => exact iff_of_true (sound_concat a b) trivial
  | joinList parts count => exact sound_joinList_iff parts count
  | replace s pat repl => exact iff_of_true (sound_replace s pat repl) trivial
  | replaceAll s pat repl => exact iff_of_true (sound_replaceAll s pat repl) trivial
  | repeated s n => exact sound_repeated_iff s n

def aaaa : DuxStr := ⟨[0x61, 0x61, 0x61, 0x61], by decide⟩

/-- Four characters repeated 2⁶² times: nothing is allocated for them. -/
theorem not_sound_repeated_wraps : duxrtStrRepeat (some aaaa) (2 ^ 62) = .error .fault ∧
    ¬(repeated (some aaaa) (2 ^ 62)).Sound := by
  have leaves : duxrtStrRepeat (some aaaa) (2 ^ 62) = .error .fault :=
    duxrtStrRepeat_fault (by decide) (by decide) (by decide) (by decide)
  refine ⟨leaves, fun sound => ?_⟩
  have run := sound.run
  rw [StrCall.run, leaves] at run
  rcases run with run | run | run <;> cases run

end StrCall

end Dux.Runtime.Text
