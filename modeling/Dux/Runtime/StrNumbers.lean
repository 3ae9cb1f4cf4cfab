import Dux.Logic.CText
import Dux.Runtime.StrBuild

/-!
# Integers as strings

`duxrt_str_to_long_valid`, `duxrt_str_to_long_val`, `duxrt_str_from_int` and `duxrt_fmt_int` of
`src/runtime/str.c`.  A `long` has 64 bits, and the locale is that of C.
-/

namespace Dux.Runtime.Text

open Logic (Stop cText scanInt printInt isSpace Denotes)

/-- `strtol` for the base 10: the number, cut off at the ends of its range, and the text at
`*endptr`.  Without a number this is the whole text. -/
def strtol (p : Bytes) : Int64 × Bytes :=
  match scanInt p with
  | none => (0, p)
  | some (n, rest) => (Int64.ofIntClamp n, rest)

def duxrtStrToLongValid : Option DuxStr → Int
  | none => 0
  | some s =>
      if s.len = 0 then 0
      else
        let p := cText s.chars
        let e := (strtol p).2
        if e ≠ p ∧ e = [] then 1 else 0

def duxrtStrToLongVal : Option DuxStr → Int64
  | none => 0
  | some s => if s.len = 0 then 0 else (strtol (cText s.chars)).1

/-- `snprintf(buf, size, "%ld", v)`: what is in the buffer, and the length of the whole text. -/
def snprintfLong (size : Nat) (v : Int64) : Bytes × Int :=
  ((printInt v.toInt).take (size - 1) ++ [0], (printInt v.toInt).length)

def duxrtStrFromInt (v : Int64) : Except Stop Built :=
  let (buf, n) := snprintfLong 32 v
  duxrtStrNew (some buf) (if 0 < n then n else 0)

/-- `duxrt_fmt_int`: what is in the buffer, and the count that it returns. -/
def duxrtFmtInt (v : Int64) : Bytes × Int :=
  let (buf, n) := snprintfLong 32 v
  (buf, if 0 < n then n else 0)

/-! ## Printing -/

theorem length_printInt_toInt (v : Int64) : (printInt v.toInt).length ≤ 20 := by
  have lower := v.le_toInt
  have upper := v.toInt_lt
  have digits : (Logic.decimal v.toInt.natAbs).length ≤ 19 :=
    Logic.length_decimal_le (by decide) (by omega)
  rw [printInt]
  split
  · rw [List.length_cons]
    omega
  · omega

theorem duxrtFmtInt_eq (v : Int64) :
    duxrtFmtInt v = (printInt v.toInt ++ [0], ((printInt v.toInt).length : Int)) := by
  have short := length_printInt_toInt v
  have some : 0 < (printInt v.toInt).length :=
    List.length_pos_iff.mpr (Logic.denotes_printInt v.toInt).ne_nil
  rw [duxrtFmtInt, snprintfLong]
  dsimp only
  rw [List.take_of_length_le (by omega), if_pos (by omega)]

theorem duxrtStrFromInt_eq (v : Int64) : duxrtStrFromInt v = strOf (printInt v.toInt) := by
  have printed := duxrtFmtInt_eq v
  rw [duxrtFmtInt, Prod.mk.injEq] at printed
  rw [duxrtStrFromInt]
  dsimp only at printed ⊢
  rw [printed.1, printed.2, duxrtStrNew_take (by simp), List.take_left]

/-! ## Reading -/

section Reading

variable {s : Option DuxStr}

theorem duxrtStrToLongValid_iff_scanInt :
    duxrtStrToLongValid s = 1 ↔ ∃ n, scanInt (cText (DuxStr.text s)) = some (n, []) := by
  have nothing : ¬∃ n, scanInt (cText []) = some (n, []) := by
    rintro ⟨n, ⟨⟩⟩
  cases s with
  | none => exact iff_of_false (by decide) nothing
  | some s =>
    have isText : DuxStr.text (some s) = s.chars := rfl
    rw [isText, duxrtStrToLongValid]
    by_cases empty : s.len = 0
    · have isNil : s.chars = [] := List.length_eq_zero_iff.mp (Int.natCast_eq_zero.mp empty)
      rw [if_pos empty, isNil]
      exact iff_of_false (by decide) nothing
    · rw [if_neg empty]
      dsimp only
      rw [ite_eq_left_iff, imp_iff_not_or, not_not]
      rw [or_iff_left (by decide), strtol]
      cases scanned : scanInt (cText s.chars) with
      | none =>
        refine iff_of_false (fun accepted => accepted.1 rfl) ?_
        rintro ⟨n, ⟨⟩⟩
      | some read =>
        rcases read with ⟨n, rest⟩
        dsimp only
        constructor
        · rintro ⟨-, rfl⟩
          exact ⟨n, rfl⟩
        · rintro ⟨n', isRead⟩
          cases isRead
          refine ⟨?_, rfl⟩
          intro isNil
          rw [← isNil] at scanned
          cases scanned

/-- What is accepted is white space and a numeral, up to the first terminator. -/
theorem duxrtStrToLongValid_iff : duxrtStrToLongValid s = 1 ↔
    ∃ n spaces numeral, cText (DuxStr.text s) = spaces ++ numeral ∧
      (∀ b ∈ spaces, isSpace b = true) ∧ Denotes numeral n :=
  duxrtStrToLongValid_iff_scanInt.trans (exists_congr fun _ => Logic.scanInt_eq_some_nil_iff)

theorem duxrtStrToLongVal_eq {spaces numeral : Bytes} {n : Int}
    (isText : cText (DuxStr.text s) = spaces ++ numeral)
    (isSpaces : ∀ b ∈ spaces, isSpace b = true) (denotes : Denotes numeral n) :
    duxrtStrToLongVal s = Int64.ofIntClamp n := by
  have scanned := Logic.scanInt_eq_some_nil_iff.mpr ⟨spaces, numeral, isText, isSpaces, denotes⟩
  cases s with
  | none => cases scanned
  | some s =>
    have isChars : DuxStr.text (some s) = s.chars := rfl
    rw [isChars] at scanned
    rw [duxrtStrToLongVal, if_neg, strtol, scanned]
    intro empty
    rw [List.length_eq_zero_iff.mp (Int.natCast_eq_zero.mp empty)] at scanned
    cases scanned

/-- An accepted text stands as a whole for the number that is returned. -/
def Agrees (s : Option DuxStr) : Prop :=
  duxrtStrToLongValid s = 1 → Denotes (DuxStr.text s) (duxrtStrToLongVal s).toInt

/-- A numeral behind white space that ends at a terminator, or with the text, has no white space
before it, no terminator behind it and a value of 64 bits. -/
def PlainNumeral (text : Bytes) : Prop :=
  ∀ spaces numeral n, cText text = spaces ++ numeral → (∀ b ∈ spaces, isSpace b = true) →
    Denotes numeral n → spaces = [] ∧ 0 ∉ text ∧ -2 ^ 63 ≤ n ∧ n < 2 ^ 63

theorem toInt_ofIntClamp {n : Int} (lower : -2 ^ 63 ≤ n) (upper : n < 2 ^ 63) :
    (Int64.ofIntClamp n).toInt = n :=
  Int64.toInt_ofIntClamp lower (Int.le_sub_one_of_lt upper)

/-- The whole text stands for the number exactly when it is a plain numeral. -/
theorem agrees_iff_plainNumeral (s : Option DuxStr) :
    Agrees s ↔ PlainNumeral (DuxStr.text s) := by
  constructor
  · intro agrees spaces numeral n isText isSpaces denotes
    have accepted := duxrtStrToLongValid_iff.mpr ⟨n, spaces, numeral, isText, isSpaces, denotes⟩
    have whole := agrees accepted
    rw [duxrtStrToLongVal_eq isText isSpaces denotes] at whole
    have noNul : 0 ∉ DuxStr.text s := fun member => (whole.visible 0 member).2 rfl
    have isNumeral : DuxStr.text s = spaces ++ numeral := by
      rwa [Logic.cText_eq_self_iff.mpr noNul] at isText
    have noSpace : spaces = [] := by
      apply List.eq_nil_iff_forall_not_mem.mpr
      intro b member
      have visible := (whole.visible b (isNumeral ▸ List.mem_append_left _ member)).1
      rw [isSpaces b member] at visible
      cases visible
    rw [noSpace, List.nil_append] at isNumeral
    rw [isNumeral] at whole
    have value := denotes.unique whole
    have lower := (Int64.ofIntClamp n).le_toInt
    have upper := (Int64.ofIntClamp n).toInt_lt
    rw [← value] at lower upper
    exact ⟨noSpace, noNul, lower, upper⟩
  · intro plain accepted
    rcases duxrtStrToLongValid_iff.mp accepted with ⟨n, spaces, numeral, isText, isSpaces, denotes⟩
    rcases plain spaces numeral n isText isSpaces denotes with ⟨noSpace, noNul, lower, upper⟩
    rw [duxrtStrToLongVal_eq isText isSpaces denotes, toInt_ofIntClamp lower upper]
    rw [Logic.cText_eq_self_iff.mpr noNul, noSpace, List.nil_append] at isText
    rwa [isText]

end Reading

/-- An accepted text stands for the number that is returned exactly when it is a plain numeral;
and every number of 64 bits is accepted when it was printed, and read back. -/
theorem toLong_agrees_iff (s : Option DuxStr) (v : Int64) :
    (Agrees s ↔ PlainNumeral (DuxStr.text s)) ∧
      ∃ s : DuxStr, duxrtStrFromInt v = .ok (Built.ofChars s.chars) ∧
        duxrtStrToLongValid (some s) = 1 ∧ duxrtStrToLongVal (some s) = v := by
  refine ⟨agrees_iff_plainNumeral s, ?_⟩
  have short := length_printInt_toInt v
  have small : (printInt v.toInt).length ≤ int32Max := by
    have limit : int32Max = 2147483647 := rfl
    omega
  have denotes := Logic.denotes_printInt v.toInt
  have noNul : 0 ∉ printInt v.toInt := fun member => (denotes.visible 0 member).2 rfl
  have isText : cText (DuxStr.text (some ⟨printInt v.toInt, small⟩)) = [] ++ printInt v.toInt :=
    Logic.cText_eq_self_iff.mpr noNul
  refine ⟨⟨printInt v.toInt, small⟩, ?_, ?_, ?_⟩
  · rw [duxrtStrFromInt_eq, strOf, if_pos small]
  · exact duxrtStrToLongValid_iff.mpr ⟨_, _, _, isText, by simp, denotes⟩
  · rw [duxrtStrToLongVal_eq isText (by simp) denotes, Int64.ofIntClamp_toInt]

/-- A number out of the range, a terminator inside the text and white space before the number are
all accepted. -/
theorem not_toLong_agrees :
    ¬Agrees (some ⟨Logic.ascii "9223372036854775808", by decide⟩) ∧
      ¬Agrees (some ⟨Logic.ascii "1" ++ 0 :: Logic.ascii "2", by decide⟩) ∧
      ¬Agrees (some ⟨Logic.ascii " 1", by decide⟩) := by
  have notPlain {text : Bytes} {small} (n : Int) (spaces : Bytes)
      (isSpaces : ∀ b ∈ spaces, isSpace b = true)
      (isText : cText text = spaces ++ printInt n)
      (bad : ¬(spaces = [] ∧ 0 ∉ text ∧ -2 ^ 63 ≤ n ∧ n < 2 ^ 63)) :
      ¬Agrees (some ⟨text, small⟩) := by
    rw [agrees_iff_plainNumeral]
    exact fun plain => bad (plain _ _ n isText isSpaces (Logic.denotes_printInt n))
  refine ⟨?_, ?_, ?_⟩
  · exact notPlain (2 ^ 63) [] (by simp) (by decide +kernel) (by decide)
  · exact notPlain 1 [] (by simp) (by decide +kernel) (by decide)
  · exact notPlain 1 [0x20] (by simp [isSpace]) (by decide +kernel) (by decide)

end Dux.Runtime.Text
