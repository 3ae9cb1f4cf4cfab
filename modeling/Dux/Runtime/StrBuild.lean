import Dux.Logic.Blocks
import Dux.Runtime.Str

/-!
# How strings are built

The functions of `src/runtime/str.c` that allocate a string and fill it: `duxrt_str_new`,
`duxrt_str_concat`, `duxrt_str_join_list`, `duxrt_str_repeat` and the string buffer.  Lengths
are 64-bit words.  Short strings are stored behind their header and long ones in a buffer of
their own, of one byte more than the characters in either case.  An allocation that fails
aborts and is not shown.
-/

namespace Dux.Runtime.Text

open Logic (Block Stop int64 doubled ok_bind error_bind pure_eq_ok)
open Logic.Block (fresh memcpy)

def int32Max : Nat := 2147483647

/-- A `DuxStr`, of a length that its `len` can hold. -/
structure DuxStr where
  chars : Bytes
  small : chars.length ≤ int32Max

namespace DuxStr

def len (s : DuxStr) : Int := s.chars.length

/-- The characters of a string; a null pointer has none. -/
def text (s : Option DuxStr) : Bytes := s.elim [] chars

def length (s : Option DuxStr) : Int := s.elim 0 len

end DuxStr

/-- A string in memory: the characters with their terminator, and `len`. -/
structure Built where
  data : Block
  len : Int

/-- `if (src) memcpy(dst, src, len)`. -/
def copyUnlessNull (dst : Block) (src : Option Bytes) (len : Int) : Except Stop Block :=
  match src with
  | none => .ok dst
  | some src => dst.memcpy 0 src len

def duxrtStrNew (src : Option Bytes) (len : Int) : Except Stop Built :=
  if len < 0 ∨ int32Max < len then .error .abort
  else do
    let data ← copyUnlessNull (fresh (len + 1).toNat) src len
    let data ← data.write len [0]
    return ⟨data, len⟩

def duxrtStrConcat (a b : Option DuxStr) : Except Stop Built := do
  let la := DuxStr.length a
  let lb := DuxStr.length b
  let out ← duxrtStrNew none (int64 (la + lb))
  let data ← out.data.memcpy 0 (DuxStr.text a) la
  let data ← data.memcpy la (DuxStr.text b) lb
  let data ← data.write (int64 (la + lb)) [0]
  return { out with data := data }

/-- `duxrt_list_get` of a list of strings. -/
def listGet (parts : List (Option DuxStr)) (i : Nat) : Except Stop (Option DuxStr) :=
  match parts[i]? with
  | some s => .ok s
  | none => .error .thrown

/-- The first pass of `duxrt_str_join_list` from an index on. -/
def sumLoop (parts : List (Option DuxStr)) (total : Int) (i : Nat) : Nat → Except Stop Int
  | 0 => .ok total
  | left + 1 => do
      let s ← listGet parts i
      sumLoop parts (s.elim total fun s => int64 (total + s.len)) (i + 1) left

/-- The second pass, with the place to write to. -/
def copyLoop (parts : List (Option DuxStr)) (data : Block) (dst : Int) (i : Nat) :
    Nat → Except Stop (Block × Int)
  | 0 => .ok (data, dst)
  | left + 1 => do
      let s ← listGet parts i
      match s with
      | none => copyLoop parts data dst (i + 1) left
      | some s => do
          let data ← data.memcpy dst s.chars s.len
          copyLoop parts data (dst + s.len) (i + 1) left

def duxrtStrJoinList (parts : Option (List (Option DuxStr))) (count : Int) : Except Stop Built :=
  match parts with
  | none => duxrtStrNew (some []) 0
  | some parts =>
      if count ≤ 0 then duxrtStrNew (some []) 0
      else do
        let total ← sumLoop parts 0 0 count.toNat
        let out ← duxrtStrNew none total
        let (data, dst) ← copyLoop parts out.data 0 0 count.toNat
        let data ← data.write dst [0]
        return { out with data := data }

/-- `total` in `duxrt_str_repeat`. -/
def repeatTotal (s : DuxStr) (n : Int) : Int := int64 (s.len * n)

/-- The loop of `duxrt_str_repeat` from a round on. -/
def repeatLoop (s : DuxStr) (data : Block) (i : Nat) : Nat → Except Stop Block
  | 0 => .ok data
  | left + 1 => do
      let data ← data.memcpy (int64 (i * s.len)) s.chars s.len
      repeatLoop s data (i + 1) left

def duxrtStrRepeat (s : Option DuxStr) (n : Int) : Except Stop Built :=
  match s with
  | none => duxrtStrNew (some []) 0
  | some s =>
      if s.len = 0 ∨ n ≤ 0 then duxrtStrNew (some []) 0
      else do
        let total := repeatTotal s n
        let out ← duxrtStrNew none total
        let data ← repeatLoop s out.data 0 n.toNat
        let data ← data.write total [0]
        return { out with data := data }

/-! ## The string buffer -/

structure DuxStrBuf where
  data : Block
  len : Int
  cap : Int

def strbufInitCap : Nat := 64

def strbufGrow (b : DuxStrBuf) (extra : Int) : Except Stop DuxStrBuf :=
  if int64 (b.len + extra + 1) ≤ b.cap then .ok b
  else do
    let nc ← doubled (if b.cap ≠ 0 then b.cap else strbufInitCap) (int64 (b.len + extra + 1))
    return { b with data := b.data.resize nc.toNat, cap := nc }

def duxrtStrbufNew : Except Stop DuxStrBuf := do
  let data ← (fresh strbufInitCap).write 0 [0]
  return { data := data, len := 0, cap := strbufInitCap }

def duxrtStrbufAppendStr (b : DuxStrBuf) (s : Built) : Except Stop DuxStrBuf :=
  if s.len = 0 then .ok b
  else do
    let b ← strbufGrow b s.len
    let src ← s.data.read 0 s.len.toNat
    let data ← b.data.memcpy b.len src s.len
    let len := int64 (b.len + s.len)
    let data ← data.write len [0]
    return { b with data := data, len := len }

def duxrtStrbufBuild (b : DuxStrBuf) : Except Stop Built := do
  let src ← b.data.read 0 b.len.toNat
  duxrtStrNew (some src) b.len

/-! ## What is built -/

/-- The string that holds characters. -/
def Built.ofChars (chars : Bytes) : Built := ⟨(chars ++ [0]).map some, chars.length⟩

/-- A string of the given characters, exactly filled; the program aborts when they are too
many. -/
def strOf (chars : Bytes) : Except Stop Built :=
  if chars.length ≤ int32Max then .ok (Built.ofChars chars) else .error .abort

theorem DuxStr.length_eq (s : Option DuxStr) : DuxStr.length s = (DuxStr.text s).length := by
  cases s <;> rfl

theorem DuxStr.length_text_le (s : Option DuxStr) : (DuxStr.text s).length ≤ int32Max := by
  cases s with
  | none => exact Nat.zero_le _
  | some s => exact s.small

theorem duxrtStrNew_null {n : Nat} (small : n ≤ int32Max) :
    ∃ data, duxrtStrNew none n = .ok ⟨data, n⟩ ∧ data.Filling (n + 1) [] := by
  have size : (Block.fresh ((n : Int) + 1).toNat).length = n + 1 := Block.length_fresh _
  obtain ⟨data, written⟩ : ∃ data, (Block.fresh ((n : Int) + 1).toNat).write n [0] = .ok data :=
    ⟨_, if_pos (by rw [size, List.length_singleton]; omega)⟩
  refine ⟨data, ?_, Block.holds_nil _, (Block.length_write written).trans size⟩
  rw [duxrtStrNew, if_neg (by omega), copyUnlessNull, ok_bind, written, ok_bind, pure_eq_ok]

theorem duxrtStrNew_abort {src : Option Bytes} {len : Int} (long : int32Max < len) :
    duxrtStrNew src len = .error .abort :=
  if_pos (.inr long)

theorem duxrtStrNew_take {src : Bytes} {n : Nat} (fits : n ≤ src.length) :
    duxrtStrNew (some src) n = strOf (src.take n) := by
  have length : (src.take n).length = n := List.length_take_of_le fits
  by_cases small : n ≤ int32Max
  · obtain ⟨data, copied, filling⟩ :=
      (Block.filling_fresh (n + 1)).write (src.take n) (by
        rw [length, List.length_nil]
        omega)
    have size : ((n : Int) + 1).toNat = n + 1 := rfl
    rw [List.nil_append] at filling
    rw [← Block.memcpy_of_le _ _ fits, List.length_nil, Nat.cast_zero] at copied
    have ended := (length.symm ▸ filling : data.Filling ((src.take n).length + 1) _).write_last 0
    rw [length] at ended
    rw [duxrtStrNew, if_neg (by omega), strOf, if_pos (by rw [length]; exact small),
      copyUnlessNull, size, copied, ok_bind, ended, ok_bind, Built.ofChars, length]
    rfl
  · rw [duxrtStrNew_abort (by omega), strOf, if_neg (by rw [length]; exact small)]

theorem duxrtStrNew_some (chars : Bytes) : duxrtStrNew (some chars) chars.length = strOf chars := by
  rw [duxrtStrNew_take (Nat.le_refl _), List.take_length]

theorem terminate {data : Block} {chars : Bytes} (filling : data.Filling (chars.length + 1) chars)
    (small : chars.length ≤ int32Max) :
    (do
      let data ← data.write chars.length [0]
      return (⟨data, chars.length⟩ : Built)) = strOf chars := by
  rw [filling.write_last, strOf, if_pos small]
  rfl

theorem duxrtStrConcat_eq (a b : Option DuxStr) :
    duxrtStrConcat a b = strOf (DuxStr.text a ++ DuxStr.text b) := by
  have shortA := DuxStr.length_text_le a
  have shortB := DuxStr.length_text_le b
  have limit : int32Max = 2147483647 := rfl
  have total : int64 (DuxStr.length a + DuxStr.length b) =
      (DuxStr.text a ++ DuxStr.text b).length := by
    rw [DuxStr.length_eq, DuxStr.length_eq, List.length_append, ← Nat.cast_add]
    exact Logic.int64_of_natCast (by omega)
  by_cases small : (DuxStr.text a ++ DuxStr.text b).length ≤ int32Max
  · obtain ⟨data, allocated, filling⟩ := duxrtStrNew_null small
    obtain ⟨first, copied, filling⟩ := filling.memcpy (DuxStr.text a) (by
      rw [List.length_append, List.length_nil]
      omega)
    rw [List.nil_append] at filling
    rw [List.length_nil, Nat.cast_zero] at copied
    obtain ⟨both, copied', filling⟩ := filling.memcpy (DuxStr.text b) (by
      rw [List.length_append]
      omega)
    rw [← terminate filling small, duxrtStrConcat, total, allocated, DuxStr.length_eq,
      DuxStr.length_eq, ok_bind, copied, ok_bind, copied', ok_bind]
  · rw [duxrtStrConcat, total, duxrtStrNew_abort (by omega), strOf, if_neg small, error_bind]

/-! ### Joining -/

section Join

variable {parts : List (Option DuxStr)}

/-- The characters of all strings of a list. -/
def joined (parts : List (Option DuxStr)) : Bytes := parts.flatMap DuxStr.text

theorem listGet_of_lt {i : Nat} (inside : i < parts.length) :
    listGet parts i = .ok parts[i] := by
  rw [listGet, List.getElem?_eq_getElem inside]

theorem listGet_of_le {i : Nat} (outside : parts.length ≤ i) :
    listGet parts i = .error .thrown := by
  rw [listGet, List.getElem?_eq_none outside]

theorem joined_step {i left : Nat} (inside : i < parts.length) :
    joined ((parts.drop i).take (left + 1)) =
      DuxStr.text parts[i] ++ joined ((parts.drop (i + 1)).take left) := by
  rw [List.drop_eq_getElem_cons inside, List.take_succ_cons]
  rfl

theorem sumLoop_eq (parts : List (Option DuxStr)) (x : Int) (i left : Nat)
    (inside : i + left ≤ parts.length) :
    sumLoop parts (int64 x) i left =
      .ok (int64 (x + (joined ((parts.drop i).take left)).length)) := by
  induction left generalizing x i with
  | zero =>
    rw [List.take_zero]
    simp [sumLoop, joined]
  | succ left ih =>
    have here : i < parts.length := by omega
    have next : (parts[i].elim (int64 x) fun s => int64 (int64 x + s.len)) =
        int64 (x + (DuxStr.text parts[i]).length) := by
      cases parts[i] with
      | none => exact congrArg int64 (Int.add_zero x).symm
      | some s => exact Logic.int64_int64_add x _
    rw [sumLoop, listGet_of_lt here, ok_bind, next, ih _ _ (by omega), joined_step here,
      List.length_append, Nat.cast_add, Int.add_assoc]

theorem sumLoop_thrown {total : Int} {i left : Nat} (start : i ≤ parts.length)
    (beyond : parts.length < i + left) : sumLoop parts total i left = .error .thrown := by
  induction left generalizing total i with
  | zero => omega
  | succ left ih =>
    rw [sumLoop]
    by_cases here : i < parts.length
    · rw [listGet_of_lt here, ok_bind, ih here (by omega)]
    · rw [listGet_of_le (Nat.le_of_not_lt here), error_bind]

theorem copyLoop_eq (parts : List (Option DuxStr)) {data : Block} {size : Nat} {chars : Bytes}
    (i left : Nat)
    (filling : data.Filling size chars) (inside : i + left ≤ parts.length)
    (fits : chars.length + (joined ((parts.drop i).take left)).length ≤ size) :
    ∃ data', copyLoop parts data chars.length i left =
        .ok (data', (chars ++ joined ((parts.drop i).take left)).length) ∧
      data'.Filling size (chars ++ joined ((parts.drop i).take left)) := by
  induction left generalizing data chars i with
  | zero =>
    rw [List.take_zero, joined, List.flatMap_nil, List.append_nil]
    exact ⟨data, rfl, filling⟩
  | succ left ih =>
    have here : i < parts.length := by omega
    rw [joined_step here, List.length_append] at fits
    rw [joined_step here, copyLoop, listGet_of_lt here, ok_bind]
    cases isPart : parts[i] with
    | none => exact ih (i + 1) filling (by omega) (by omega)
    | some s =>
      rw [isPart] at fits
      obtain ⟨data', copied, filling'⟩ := filling.memcpy s.chars (by
        exact Nat.le_trans (Nat.add_le_add_left (Nat.le_add_right _ _) _) fits)
      obtain ⟨data'', runs, filling''⟩ := ih (i + 1) filling' (by omega) (by
        rw [List.length_append, Nat.add_assoc]
        exact fits)
      rw [List.append_assoc] at runs filling''
      refine ⟨data'', ?_, filling''⟩
      rw [List.length_append, Nat.cast_add] at runs
      simp only [DuxStr.len, copied, ok_bind]
      exact runs

theorem sumLoop_total {count : Nat} (inside : count ≤ parts.length) :
    sumLoop parts 0 0 count = .ok (int64 (joined (parts.take count)).length) := by
  have total := sumLoop_eq parts 0 0 count (by omega)
  rw [List.drop_zero, Int.zero_add] at total
  exact total

theorem duxrtStrJoinList_eq {count : Int} (inside : count ≤ parts.length)
    (small : (joined (parts.take count.toNat)).length < 2 ^ 63) :
    duxrtStrJoinList (some parts) count = strOf (joined (parts.take count.toNat)) := by
  rw [duxrtStrJoinList]
  by_cases none' : count ≤ 0
  · rw [if_pos none', Int.toNat_of_nonpos none']
    exact duxrtStrNew_some []
  · rw [if_neg none', sumLoop_total (by omega), ok_bind, Logic.int64_of_natCast small]
    by_cases fits : (joined (parts.take count.toNat)).length ≤ int32Max
    · obtain ⟨data, allocated, filling⟩ := duxrtStrNew_null fits
      obtain ⟨data', copied, filling'⟩ := copyLoop_eq parts 0
        count.toNat filling (by omega) (by
          rw [List.drop_zero, List.length_nil]
          omega)
      rw [List.drop_zero, List.nil_append] at copied filling'
      rw [allocated, ok_bind, ← terminate filling' fits]
      exact congrArg (· >>= _) copied
    · rw [duxrtStrNew_abort (by omega), error_bind, strOf, if_neg fits]

theorem duxrtStrJoinList_thrown {count : Int} (beyond : parts.length < count) :
    duxrtStrJoinList (some parts) count = .error .thrown := by
  rw [duxrtStrJoinList, if_neg (by omega), sumLoop_thrown (Nat.zero_le _) (by omega), error_bind]

end Join

/-! ### Repeating -/

section Repeat

variable {s : DuxStr}

/-- The characters of a string that is repeated. -/
def repeated (chars : Bytes) (n : Nat) : Bytes := (List.replicate n chars).flatten

theorem length_repeated (chars : Bytes) (n : Nat) :
    (repeated chars n).length = n * chars.length := by
  rw [repeated, List.length_flatten, List.map_replicate, List.sum_replicate_nat]

theorem repeated_succ (chars : Bytes) (n : Nat) :
    repeated chars (n + 1) = repeated chars n ++ chars := by
  rw [repeated, List.replicate_succ', List.flatten_append, List.flatten_singleton]
  rfl

theorem repeatLoop_eq {data : Block} {size : Nat} (i left : Nat)
    (filling : data.Filling size (repeated s.chars i)) (small : size < 2 ^ 63)
    (fits : (i + left) * s.chars.length ≤ size) :
    ∃ data', repeatLoop s data i left = .ok data' ∧
      data'.Filling size (repeated s.chars (i + left)) := by
  induction left generalizing data i with
  | zero => exact ⟨data, rfl, filling⟩
  | succ left ih =>
    have next : (i + 1) * s.chars.length ≤ size :=
      Nat.le_trans (Nat.mul_le_mul_right _ (by omega)) fits
    have front : i * s.chars.length ≤ (i + 1) * s.chars.length :=
      Nat.mul_le_mul_right _ (Nat.le_succ i)
    obtain ⟨data', copied, filling'⟩ := filling.memcpy s.chars (by
      rw [length_repeated, ← Nat.succ_mul]
      exact next)
    rw [← repeated_succ] at filling'
    have place : int64 (i * s.len) = (repeated s.chars i).length := by
      rw [length_repeated, DuxStr.len, ← Int.natCast_mul]
      exact Logic.int64_of_natCast (by omega)
    rw [repeatLoop, place, DuxStr.len, copied, ok_bind]
    rw [show i + (left + 1) = i + 1 + left by omega] at fits ⊢
    exact ih (i + 1) filling' fits

theorem repeatTotal_eq {n : Int} (nonneg : 0 ≤ n) (small : n.toNat * s.chars.length < 2 ^ 63) :
    repeatTotal s n = (n.toNat * s.chars.length : Nat) := by
  rw [repeatTotal, DuxStr.len, Int.mul_comm, ← Int.toNat_of_nonneg nonneg, Int.toNat_natCast,
    ← Int.natCast_mul]
  exact Logic.int64_of_natCast small

theorem duxrtStrRepeat_eq {n : Int} (small : n.toNat * s.chars.length < 2 ^ 63) :
    duxrtStrRepeat (some s) n = strOf (repeated s.chars n.toNat) := by
  rw [duxrtStrRepeat]
  split
  · next none' =>
    have empty : repeated s.chars n.toNat = [] := by
      apply List.eq_nil_of_length_eq_zero
      rw [length_repeated]
      rcases none' with isNil | isNone
      · rw [DuxStr.len, Nat.cast_eq_zero] at isNil
        rw [isNil, Nat.mul_zero]
      · rw [Int.toNat_of_nonpos isNone, Nat.zero_mul]
    rw [empty]
    exact duxrtStrNew_some []
  · next some' =>
    rw [not_or, Int.not_le] at some'
    have total : repeatTotal s n = (repeated s.chars n.toNat).length := by
      rw [repeatTotal_eq (Int.le_of_lt some'.2) small, length_repeated]
    rw [total]
    by_cases fits : (repeated s.chars n.toNat).length ≤ int32Max
    · obtain ⟨data, allocated, filling⟩ := duxrtStrNew_null fits
      have bound : int32Max = 2147483647 := rfl
      obtain ⟨data', copied, filling'⟩ := repeatLoop_eq 0 n.toNat filling
        (by omega) (by
          rw [Nat.zero_add, ← length_repeated]
          exact Nat.le_succ _)
      rw [Nat.zero_add] at filling'
      rw [← terminate filling' fits]
      simp only [allocated, ok_bind, copied]
    · have long : (int32Max : Int) < (repeated s.chars n.toNat).length := by omega
      simp only [duxrtStrNew_abort long, error_bind]
      rw [strOf, if_neg fits]

theorem repeatLoop_fault {data : Block} {i left : Nat} (small : data.length < 2 ^ 63)
    (inside : i * s.chars.length ≤ data.length)
    (beyond : data.length < (i + left) * s.chars.length) :
    repeatLoop s data i left = .error .fault := by
  induction left generalizing data i with
  | zero => exact absurd beyond (Nat.not_lt.2 inside)
  | succ left ih =>
    have place : int64 (i * s.len) = (i * s.chars.length : Nat) := by
      rw [DuxStr.len, ← Int.natCast_mul]
      exact Logic.int64_of_natCast (by omega)
    rw [repeatLoop, place, DuxStr.len, Block.memcpy_self]
    rcases Block.write_cases data (i * s.chars.length : Nat) s.chars with
      fault | ⟨data', copied, length, -, room⟩
    · rw [fault, error_bind]
    · rw [copied, ok_bind]
      apply ih
      · rw [length]
        exact small
      · rw [Nat.succ_mul, length]
        omega
      · rw [length, show i + 1 + left = i + (left + 1) by omega]
        exact beyond

theorem duxrtStrRepeat_fault {n : Int} (some' : s.chars ≠ []) (positive : 0 < n)
    (wraps : 2 ^ 63 ≤ n.toNat * s.chars.length)
    (accepted : 0 ≤ repeatTotal s n ∧ repeatTotal s n ≤ int32Max) :
    duxrtStrRepeat (some s) n = .error .fault := by
  have bound : int32Max = 2147483647 := rfl
  have length : s.len ≠ 0 := by
    rw [DuxStr.len, Ne, Nat.cast_eq_zero, List.length_eq_zero_iff]
    exact some'
  have isNat : repeatTotal s n = (repeatTotal s n).toNat := (Int.toNat_of_nonneg accepted.1).symm
  obtain ⟨data, allocated, filling⟩ := duxrtStrNew_null (n := (repeatTotal s n).toNat) (by omega)
  have size := filling.length
  have leaves : repeatLoop s data 0 n.toNat = .error .fault :=
    repeatLoop_fault (by omega) (by omega) (by
      rw [Nat.zero_add]
      omega)
  rw [duxrtStrRepeat, if_neg (not_or.2 ⟨length, Int.not_le.2 positive⟩)]
  dsimp only
  rw [isNat, allocated, ok_bind, leaves, error_bind]

end Repeat

/-! ### The string buffer -/

structure DuxStrBuf.Holds (b : DuxStrBuf) (chars : Bytes) : Prop where
  holds : b.data.Holds (chars ++ [0])
  len : b.len = chars.length
  cap : b.data.length = b.cap
  positive : 0 < b.cap

theorem holds_duxrtStrbufNew : ∃ b, duxrtStrbufNew = .ok b ∧ b.Holds [] := by
  obtain ⟨data, written, filling⟩ :=
    (Block.filling_fresh strbufInitCap).write [0] (by decide)
  rw [List.length_nil, Nat.cast_zero] at written
  rw [duxrtStrbufNew, written]
  exact ⟨_, rfl, filling.holds, rfl, congrArg _ filling.length, Int.natCast_pos.2 (by decide)⟩

theorem DuxStrBuf.Holds.grow {b : DuxStrBuf} {chars : Bytes} (holds : b.Holds chars) {extra : Nat}
    (small : chars.length + extra + 1 ≤ 2 ^ 62) :
    ∃ b', strbufGrow b extra = .ok b' ∧ b'.Holds chars ∧ chars.length + extra + 1 ≤ b'.cap := by
  have needed : int64 (b.len + extra + 1) = (chars.length + extra + 1 : Nat) := by
    rw [holds.len]
    exact Logic.int64_of_natCast (n := chars.length + extra + 1) (by omega)
  rw [strbufGrow, needed]
  split
  · next enough => exact ⟨b, rfl, holds, enough⟩
  · rw [if_pos (ne_of_gt holds.positive)]
    obtain ⟨nc, runs, above, enough, -⟩ :=
      Logic.doubled_of_le (chars.length + extra + 1 : Nat) holds.positive (by omega)
    rw [runs, ok_bind]
    refine ⟨_, rfl, ⟨holds.holds.resize ?_, holds.len, ?_, ?_⟩, enough⟩
    · rw [List.length_append, List.length_singleton]
      omega
    · rw [Block.length_resize]
      exact Int.toNat_of_nonneg (Int.le_trans (Int.le_of_lt holds.positive) above)
    · exact Int.lt_of_lt_of_le holds.positive above

theorem DuxStrBuf.Holds.append {b : DuxStrBuf} {chars : Bytes} (holds : b.Holds chars) (src : Bytes)
    (small : chars.length + src.length + 1 ≤ 2 ^ 62) :
    ∃ b', duxrtStrbufAppendStr b (Built.ofChars src) = .ok b' ∧ b'.Holds (chars ++ src) := by
  rw [duxrtStrbufAppendStr]
  split
  · next empty =>
    rw [Built.ofChars, Nat.cast_eq_zero, List.length_eq_zero_iff] at empty
    rw [empty, List.append_nil]
    exact ⟨b, rfl, holds⟩
  · obtain ⟨b', grown, holds', room⟩ := holds.grow small
    have length := holds'.cap
    have read : (Built.ofChars src).data.read 0 (Built.ofChars src).len.toNat = .ok src :=
      Block.Holds.read [] src [0] (List.prefix_refl _)
    obtain ⟨first, copied, held, same⟩ := holds'.holds.of_append.write src (by omega)
    obtain ⟨last, ended, held', same'⟩ := held.write [0] (by
      rw [List.length_append, List.length_singleton]
      omega)
    have total : int64 (b'.len + (Built.ofChars src).len) = (chars ++ src).length := by
      rw [holds'.len, List.length_append]
      exact Logic.int64_of_natCast (n := chars.length + src.length) (by omega)
    have start : b'.len = chars.length := holds'.len
    refine ⟨{ b' with data := last, len := (chars ++ src).length }, ?_, held', rfl, ?_,
      holds'.positive⟩
    · rw [← Block.memcpy_self] at copied
      simp only [show (Built.ofChars src).len = src.length from rfl] at grown read total ⊢
      rw [grown, ok_bind, read, ok_bind, start, copied, ok_bind, ← start, total, ended, ok_bind]
      rfl
    · exact (congrArg _ (same'.trans same)).trans length

theorem DuxStrBuf.Holds.build {b : DuxStrBuf} {chars : Bytes} (holds : b.Holds chars) :
    duxrtStrbufBuild b = strOf chars := by
  have read : b.data.read 0 chars.length = .ok chars :=
    Block.Holds.read [] _ [0] holds.holds
  rw [duxrtStrbufBuild, holds.len, Int.toNat_natCast, read, ok_bind, duxrtStrNew_some]

end Dux.Runtime.Text
