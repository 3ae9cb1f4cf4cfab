import Mathlib.Data.List.TakeWhile
import Mathlib.Data.Nat.Digits.Lemmas
import Mathlib.Tactic.IntervalCases

/-!
# Texts of C

A text is the list of the bytes before its terminator, and a pointer into it is the rest
of the list.  The functions of `<string.h>` search such texts.
-/

namespace Dux.Logic

/-- The bytes of a buffer up to the first terminator. -/
def cText (buf : List UInt8) : List UInt8 := buf.takeWhile (· ≠ 0)

theorem cText_noNul (buf : List UInt8) : 0 ∉ cText buf := by
  intro member
  simpa using List.mem_takeWhile_imp member

theorem cText_eq_self_iff {buf : List UInt8} : cText buf = buf ↔ 0 ∉ buf := by
  rw [cText, List.takeWhile_eq_self_iff]
  constructor
  · intro all member
    simpa using all 0 member
  · intro noNul b member
    rw [decide_eq_true_iff]
    rintro rfl
    exact noNul member

theorem cText_append_of_noNul {left : List UInt8} (noNul : 0 ∉ left) (right : List UInt8) :
    cText (left ++ right) = left ++ cText right := by
  apply List.takeWhile_append_of_pos
  intro b member
  rw [decide_eq_true_iff]
  rintro rfl
  exact noNul member

theorem cText_append_nul {left : List UInt8} (noNul : 0 ∉ left) (right : List UInt8) :
    cText (left ++ 0 :: right) = left := by
  rw [cText_append_of_noNul noNul]
  exact List.append_nil left

/-! ## Searching -/

/-- `strstr`: the text before the first place where `pat` stands, and from there on. -/
def strstr (pat : List UInt8) : List UInt8 → Option (List UInt8 × List UInt8)
  | [] => if pat = [] then some ([], []) else none
  | b :: rest =>
      if pat <+: b :: rest then some ([], b :: rest)
      else (strstr pat rest).map fun r => (b :: r.1, r.2)

/-- `strchr`: the text before the first place where a byte stands, and from there on. -/
def strchr (c : UInt8) (text : List UInt8) : Option (List UInt8 × List UInt8) := strstr [c] text

section Search

variable {pat : List UInt8}

theorem strstr_of_isPrefix {text : List UInt8} (found : pat <+: text) :
    strstr pat text = some ([], text) := by
  cases text with
  | nil => rw [strstr, if_pos (List.prefix_nil.1 found)]
  | cons b rest => rw [strstr, if_pos found]

theorem strstr_cons_of_not_isPrefix {b : UInt8} {rest : List UInt8} (other : ¬pat <+: b :: rest) :
    strstr pat (b :: rest) = (strstr pat rest).map fun r => (b :: r.1, r.2) := by
  rw [strstr, if_neg other]

theorem strstr_append_of_notMem {c : UInt8} {left : List UInt8} (absent : c ∉ left)
    (right : List UInt8) : strstr (c :: pat) (left ++ right) =
      (strstr (c :: pat) right).map fun r => (left ++ r.1, r.2) := by
  induction left with
  | nil => simp
  | cons b left ih =>
    rw [List.mem_cons, not_or] at absent
    rw [List.cons_append, strstr_cons_of_not_isPrefix, ih absent.2, Option.map_map]
    · rfl
    · rw [List.cons_prefix_cons]
      exact fun same => absent.1 same.1

theorem strstr_eq_none_of_notMem {c : UInt8} {text : List UInt8} (absent : c ∉ text) :
    strstr (c :: pat) text = none := by
  have searched : strstr (c :: pat) (text ++ []) = _ := strstr_append_of_notMem absent []
  rwa [List.append_nil] at searched

theorem strstr_some {text before found : List UInt8}
    (isFound : strstr pat text = some (before, found)) :
    text = before ++ found ∧ pat <+: found := by
  induction text generalizing before with
  | nil =>
    rw [strstr] at isFound
    split at isFound
    · next isNil =>
      cases isFound
      exact ⟨rfl, isNil ▸ List.nil_prefix⟩
    · cases isFound
  | cons b rest ih =>
    rw [strstr] at isFound
    split at isFound
    · next isPrefix =>
      cases isFound
      exact ⟨rfl, isPrefix⟩
    · obtain ⟨⟨before', found'⟩, inRest, result⟩ := Option.map_eq_some_iff.1 isFound
      cases result
      obtain ⟨rfl, isPrefix⟩ := ih inRest
      exact ⟨rfl, isPrefix⟩

end Search

/-! ## Numbers -/

/-- The bytes of a text in the source. -/
def ascii (s : String) : List UInt8 := s.toList.map fun c => UInt8.ofNat c.toNat

/-- The digits of a number. -/
def decimal (n : Nat) : List UInt8 :=
  if n = 0 then [0x30] else (Nat.digits 10 n).reverse.map fun d => UInt8.ofNat (0x30 + d)

/-- `%d`. -/
def printInt (n : Int) : List UInt8 :=
  if n < 0 then 0x2d :: decimal n.natAbs else decimal n.natAbs

def isDigit (b : UInt8) : Bool := 0x30 ≤ b && b ≤ 0x39

/-- `isspace` in the C locale. -/
def isSpace (b : UInt8) : Bool := b = 0x20 || (0x09 ≤ b && b ≤ 0x0d)

def digitsValue (digits : List UInt8) : Nat :=
  digits.foldl (fun n b => 10 * n + (b.toNat - 0x30)) 0

/-- The digits at the front of a text as a number, and the rest. -/
def scanDigits (negative : Bool) (text : List UInt8) : Option (Int × List UInt8) :=
  if text.takeWhile isDigit = [] then none
  else
    some (if negative then -digitsValue (text.takeWhile isDigit)
      else digitsValue (text.takeWhile isDigit), text.dropWhile isDigit)

/-- `%d` of `sscanf`: a number behind white space, and the rest. -/
def scanInt (text : List UInt8) : Option (Int × List UInt8) :=
  match text.dropWhile isSpace with
  | [] => none
  | b :: rest =>
      if b = 0x2d then scanDigits true rest
      else if b = 0x2b then scanDigits false rest
      else scanDigits false (b :: rest)

theorem head_dropWhile (p : UInt8 → Bool) (text : List UInt8) :
    ∀ b ∈ (text.dropWhile p).head?, p b = false := by
  intro b isHead
  have stops := List.head?_dropWhile_not p text
  rw [Option.mem_def] at isHead
  simpa only [isHead, Bool.not_eq_true'] using stops

theorem isDigit_ofNat {d : Nat} (small : d < 10) : isDigit (UInt8.ofNat (0x30 + d)) = true := by
  interval_cases d <;> rfl

theorem toNat_ofNat_digit {d : Nat} (small : d < 10) :
    (UInt8.ofNat (0x30 + d)).toNat - 0x30 = d := by
  interval_cases d <;> rfl

theorem isDigit_decimal {n : Nat} {b : UInt8} (member : b ∈ decimal n) : isDigit b = true := by
  unfold decimal at member
  split at member
  · rw [List.mem_singleton.1 member]
    rfl
  · obtain ⟨d, isDigit', rfl⟩ := List.mem_map.1 member
    exact isDigit_ofNat (Nat.digits_lt_base (by decide) (List.mem_reverse.1 isDigit'))

theorem decimal_ne_nil (n : Nat) : decimal n ≠ [] := by
  unfold decimal
  split
  · exact List.cons_ne_nil _ _
  · next positive =>
    simp [Nat.digits_ne_nil_iff_ne_zero, positive]

theorem length_decimal_le {n k : Nat} (positive : 0 < k) (small : n < 10 ^ k) :
    (decimal n).length ≤ k := by
  unfold decimal
  split
  · exact positive
  · rw [List.length_map, List.length_reverse, Nat.digits_length_le_iff (by decide)]
    exact small

theorem digitsValue_decimal (n : Nat) : digitsValue (decimal n) = n := by
  unfold decimal digitsValue
  split
  · next zero =>
    rw [zero]
    rfl
  · have value (digits : List Nat) (small : ∀ d ∈ digits, d < 10) :
        (digits.reverse.map fun d => UInt8.ofNat (0x30 + d)).foldl
          (fun n b => 10 * n + (b.toNat - 0x30)) 0 = Nat.ofDigits 10 digits := by
      rw [List.foldl_map, List.foldl_reverse]
      induction digits with
      | nil => rfl
      | cons d digits ih =>
        rw [List.foldr_cons, ih fun d' member => small d' (List.mem_cons_of_mem d member),
          Nat.ofDigits_cons, toNat_ofNat_digit (small d List.mem_cons_self)]
        exact Nat.add_comm _ _
    rw [value _ fun d member => Nat.digits_lt_base (by decide) member, Nat.ofDigits_digits]

theorem scanDigits_decimal (negative : Bool) (n : Nat) {rest : List UInt8}
    (ends : ∀ b ∈ rest.head?, isDigit b = false) :
    scanDigits negative (decimal n ++ rest) =
      some (if negative then -(n : Int) else n, rest) := by
  have front : (decimal n ++ rest).takeWhile isDigit = decimal n := by
    rw [List.takeWhile_append_of_pos fun b member => isDigit_decimal member]
    cases rest with
    | nil => simp
    | cons b rest => simp [ends b rfl]
  have back : (decimal n ++ rest).dropWhile isDigit = rest := by
    rw [List.dropWhile_append_of_pos fun b member => isDigit_decimal member]
    cases rest with
    | nil => rfl
    | cons b rest => simp [ends b rfl]
  rw [scanDigits.eq_def, front, back, if_neg (decimal_ne_nil n), digitsValue_decimal]

theorem isSpace_of_isDigit {b : UInt8} (digit : isDigit b = true) : isSpace b = false := by
  simp only [isDigit, Bool.and_eq_true, decide_eq_true_eq, UInt8.le_iff_toNat_le] at digit
  have bound : (0x30 : UInt8).toNat = 48 := rfl
  simp only [isSpace, Bool.or_eq_false_iff, decide_eq_false_iff_not, Bool.and_eq_false_iff,
    UInt8.le_iff_toNat_le]
  constructor
  · rintro rfl
    exact absurd digit.1 (by decide)
  · right
    have nine : (0x0d : UInt8).toNat = 13 := rfl
    omega

theorem scanInt_printInt (n : Int) {rest : List UInt8}
    (ends : ∀ b ∈ rest.head?, isDigit b = false) :
    scanInt (printInt n ++ rest) = some (n, rest) := by
  unfold scanInt printInt
  by_cases negative : n < 0
  · have scanned := scanDigits_decimal true n.natAbs ends
    rw [if_pos negative, List.cons_append, List.dropWhile_cons_of_neg (by decide)]
    simp only [if_true, scanned]
    congr 2
    omega
  · have scanned := scanDigits_decimal false n.natAbs ends
    rw [if_neg negative]
    cases digits : decimal n.natAbs with
    | nil => exact absurd digits (decimal_ne_nil _)
    | cons b front =>
      have digit : isDigit b = true := isDigit_decimal (n := n.natAbs) (by simp [digits])
      rw [digits] at scanned
      have noSign : b ≠ 0x2d ∧ b ≠ 0x2b := by
        constructor <;> rintro rfl <;> exact absurd digit (by decide)
      rw [List.cons_append] at scanned ⊢
      rw [List.dropWhile_cons_of_neg (by simp [isSpace_of_isDigit digit])]
      simp only [if_neg noSign.1, if_neg noSign.2, scanned]
      congr 2
      simp only [Bool.false_eq_true, if_false]
      omega

/-! ## Numerals -/

/-- Digits, at least one. -/
def IsDigits (text : List UInt8) : Prop := text ≠ [] ∧ ∀ b ∈ text, isDigit b = true

/-- The number that a text of digits has by their places. -/
def placeValue (text : List UInt8) : Nat :=
  Nat.ofDigits 10 (text.reverse.map fun b => b.toNat - 0x30)

/-- The whole text stands for an integer: digits behind at most one sign. -/
inductive Denotes : List UInt8 → Int → Prop
  | digits {text : List UInt8} (isDigits : IsDigits text) : Denotes text (placeValue text)
  | plus {text : List UInt8} (isDigits : IsDigits text) : Denotes (0x2b :: text) (placeValue text)
  | minus {text : List UInt8} (isDigits : IsDigits text) :
      Denotes (0x2d :: text) (-(placeValue text : Int))

section Numerals

variable {text : List UInt8} {n : Int}

theorem digitsValue_eq_placeValue (text : List UInt8) : digitsValue text = placeValue text := by
  have forward (acc : Nat) : text.foldl (fun n b => 10 * n + (b.toNat - 0x30)) acc =
      Nat.ofDigits 10 (text.reverse.map fun b => b.toNat - 0x30) + 10 ^ text.length * acc := by
    induction text generalizing acc with
    | nil => simp
    | cons b text ih =>
      rw [List.foldl_cons, ih, List.reverse_cons, List.map_append, Nat.ofDigits_append,
        List.length_map, List.length_reverse, List.length_cons, List.map_singleton,
        Nat.ofDigits_singleton, pow_succ]
      ring
  rw [digitsValue, forward, placeValue, Nat.mul_zero, Nat.add_zero]

theorem scanDigits_eq_some_nil_iff {negative : Bool} : scanDigits negative text = some (n, []) ↔
    IsDigits text ∧ n = if negative then -(placeValue text : Int) else placeValue text := by
  by_cases all : ∀ b ∈ text, isDigit b = true
  · have front : text.takeWhile isDigit = text := List.takeWhile_eq_self_iff.mpr all
    have back : text.dropWhile isDigit = [] := List.dropWhile_eq_nil_iff.mpr all
    rw [scanDigits, front, back, IsDigits, digitsValue_eq_placeValue]
    by_cases none : text = []
    · simp [none]
    · rw [if_neg none, Option.some.injEq, Prod.mk.injEq]
      constructor
      · rintro ⟨rfl, -⟩
        exact ⟨⟨none, all⟩, rfl⟩
      · rintro ⟨-, rfl⟩
        exact ⟨rfl, rfl⟩
  · refine iff_of_false ?_ fun isDigits => all isDigits.1.2
    rw [scanDigits]
    split
    · rintro ⟨⟩
    · rw [Option.some.injEq, Prod.mk.injEq]
      rintro ⟨-, back⟩
      exact all (List.dropWhile_eq_nil_iff.mp back)

theorem IsDigits.head_ne {b : UInt8} (isDigits : IsDigits (b :: text)) : b ≠ 0x2d ∧ b ≠ 0x2b := by
  have digit := isDigits.2 b List.mem_cons_self
  constructor <;> rintro rfl <;> exact absurd digit (by decide)

theorem Denotes.visible (denotes : Denotes text n) : ∀ b ∈ text, isSpace b = false ∧ b ≠ 0 := by
  have ofDigits {text : List UInt8} (isDigits : IsDigits text) :
      ∀ b ∈ text, isSpace b = false ∧ b ≠ 0 := by
    intro b member
    have digit := isDigits.2 b member
    refine ⟨isSpace_of_isDigit digit, ?_⟩
    rintro rfl
    exact absurd digit (by decide)
  intro b member
  cases denotes with
  | digits isDigits => exact ofDigits isDigits b member
  | plus isDigits =>
    rcases List.mem_cons.mp member with rfl | inDigits
    · decide
    · exact ofDigits isDigits b inDigits
  | minus isDigits =>
    rcases List.mem_cons.mp member with rfl | inDigits
    · decide
    · exact ofDigits isDigits b inDigits

theorem Denotes.ne_nil (denotes : Denotes text n) : text ≠ [] := by
  cases denotes with
  | digits isDigits => exact isDigits.1
  | plus => exact List.cons_ne_nil _ _
  | minus => exact List.cons_ne_nil _ _

theorem scanInt_eq_some_nil_iff : scanInt text = some (n, []) ↔
    ∃ spaces numeral, text = spaces ++ numeral ∧ (∀ b ∈ spaces, isSpace b = true) ∧
      Denotes numeral n := by
  constructor
  · intro scanned
    refine ⟨text.takeWhile isSpace, text.dropWhile isSpace, (List.takeWhile_append_dropWhile).symm,
      fun b member => List.mem_takeWhile_imp member, ?_⟩
    rw [scanInt] at scanned
    cases left : text.dropWhile isSpace with
    | nil =>
      rw [left] at scanned
      cases scanned
    | cons b rest =>
      rw [left] at scanned
      dsimp only at scanned
      by_cases isMinus : b = 0x2d
      · rw [if_pos isMinus, scanDigits_eq_some_nil_iff] at scanned
        rcases scanned with ⟨isDigits, rfl⟩
        rw [isMinus]
        exact .minus isDigits
      · rw [if_neg isMinus] at scanned
        by_cases isPlus : b = 0x2b
        · rw [if_pos isPlus, scanDigits_eq_some_nil_iff] at scanned
          rcases scanned with ⟨isDigits, rfl⟩
          rw [isPlus]
          exact .plus isDigits
        · rw [if_neg isPlus, scanDigits_eq_some_nil_iff] at scanned
          rcases scanned with ⟨isDigits, rfl⟩
          exact .digits isDigits
  · rintro ⟨spaces, numeral, rfl, isSpaces, denotes⟩
    have visible := denotes.visible
    have left : (spaces ++ numeral).dropWhile isSpace = numeral := by
      rw [List.dropWhile_append_of_pos isSpaces]
      cases numeral with
      | nil => rfl
      | cons b rest =>
        rw [List.dropWhile_cons_of_neg]
        rw [(visible b List.mem_cons_self).1]
        exact Bool.false_ne_true
    rw [scanInt, left]
    cases denotes with
    | plus isDigits => exact scanDigits_eq_some_nil_iff.mpr ⟨isDigits, rfl⟩
    | minus isDigits => exact scanDigits_eq_some_nil_iff.mpr ⟨isDigits, rfl⟩
    | digits isDigits =>
      cases numeral with
      | nil => exact absurd rfl isDigits.1
      | cons b rest =>
        have noSign := isDigits.head_ne
        dsimp only
        rw [if_neg noSign.1, if_neg noSign.2]
        exact scanDigits_eq_some_nil_iff.mpr ⟨isDigits, rfl⟩

theorem Denotes.unique {m : Int} (denotes : Denotes text n) (other : Denotes text m) : n = m := by
  have scanned := scanInt_eq_some_nil_iff.mpr ⟨[], text, rfl, by simp, denotes⟩
  have scanned' := scanInt_eq_some_nil_iff.mpr ⟨[], text, rfl, by simp, other⟩
  rw [scanned] at scanned'
  exact (Prod.mk.inj (Option.some.inj scanned')).1

theorem denotes_printInt (n : Int) : Denotes (printInt n) n := by
  have isDigits : IsDigits (decimal n.natAbs) := ⟨decimal_ne_nil _, fun b => isDigit_decimal⟩
  have value : placeValue (decimal n.natAbs) = n.natAbs := by
    rw [← digitsValue_eq_placeValue, digitsValue_decimal]
  rw [printInt]
  by_cases negative : n < 0
  · have denotes := Denotes.minus isDigits
    rw [value, Int.ofNat_natAbs_of_nonpos negative.le, neg_neg] at denotes
    rwa [if_pos negative]
  · have denotes := Denotes.digits isDigits
    rw [value, Int.natAbs_of_nonneg (not_lt.mp negative)] at denotes
    rwa [if_neg negative]

end Numerals

end Dux.Logic
