import Dux.Codegen.Boxing
import Dux.Codegen.Recorded
import Dux.Nodes
import Dux.Runtime.StrNumbers

/-!
# What `println` and f-strings write

`rt_println` and the case `__fstr_to_str` of `gen_call` (`src/codegen/codegen.cpp`) choose a
conversion by the type that analysis has recorded for the expression, and by the LLVM type of the
value if none is recorded.  Integers are extended with their sign, a `bool` among them.
-/

namespace Dux.Codegen.Rendering

open TypeRegistry Dux.Runtime.Text
open Dux.Runtime (Bytes)
open Logic (ascii cText printInt)

/-! ## Casts and libraries -/

/-- Floating-point numbers, by their bits: `fpext` from `float` to `double`, and what `%g` writes
for a `double`, which is short. -/
structure Floating where
  fpext : BitVec 32 → BitVec 64
  general : BitVec 64 → Bytes
  length_general (b : BitVec 64) : (general b).length < 64
  noNul_general (b : BitVec 64) : 0 ∉ general b
  general_one : general 0x3FF0000000000000 = ascii "1"
  general_least : general 1 = ascii "4.94066e-324"

abbrev Strings := BitVec 64 → Option DuxStr

/-- `CreateTrunc` to `i1`; a value that has the type already is left alone. -/
def truncToI1 : LlvmValue → Option (BitVec 1)
  | .i1 b => some b
  | .i32 b => some (b.setWidth 1)
  | .i64 b => some (b.setWidth 1)
  | .void | .float _ | .double _ | .ptr _ => none

/-- `CreateSExt` to `i64`. -/
def sextToI64 : LlvmValue → Option (BitVec 64)
  | .i1 b => some (b.signExtend 64)
  | .i32 b => some (b.signExtend 64)
  | .i64 b => some b
  | .void | .float _ | .double _ | .ptr _ => none

/-- `CreateFPExt` to `double`. -/
def fpextToDouble (fp : Floating) : LlvmValue → Option (BitVec 64)
  | .float b => some (fp.fpext b)
  | .double b => some b
  | .void | .i1 _ | .i32 _ | .i64 _ | .ptr _ => none

/-- `CreateSelect` between the two literals. -/
def boolText (cond : BitVec 1) : Bytes := ascii (if cond = 1 then "true" else "false")

/-- `duxrt_println_str`, without the end of the line. -/
def duxrtPrintlnStr (strings : Strings) (p : BitVec 64) : Option Bytes :=
  if p = 0 then some (ascii "(null)") else (strings p).map fun s => cText s.chars

def duxrtPrintlnInt (v : BitVec 64) : Bytes := printInt v.toInt

def duxrtPrintlnDouble (fp : Floating) (v : BitVec 64) : Bytes := fp.general v

/-- `snprintf(buf, size, "%g", v)`: what is in the buffer, and the length of the whole text. -/
def snprintfDouble (fp : Floating) (size : Nat) (v : BitVec 64) : Bytes × Int :=
  ((fp.general v).take (size - 1) ++ [0], (fp.general v).length)

def duxrtStrFromDouble (fp : Floating) (v : BitVec 64) : Except Logic.Stop Built :=
  let (buf, n) := snprintfDouble fp 64 v
  duxrtStrNew (some buf) (if 0 < n then n else 0)

/-! ## The two conversions -/

/-- The type by which a value is rendered: of an unknown one the type is inferred. -/
def inferred (v : LlvmValue) (t : TypeId) : TypeId :=
  if t = TID_UNKNOWN then
    if v.type.isInt then TID_INT else if v.type.isFp then TID_DOUBLE else TID_STR
  else t

/-- `rt_println`: the line that is written.  There is none if a cast is not valid, and none is
determined if a slot on the stack is taken for a string. -/
def rtPrintln (fp : Floating) (strings : Strings) (v : LlvmValue) (tid : TypeId) :
    Option Bytes :=
  let t := inferred v tid
  if t = TID_BOOL then (truncToI1 v).map boolText
  else if t = TID_INT ∨ t = TID_LONG then (sextToI64 v).map duxrtPrintlnInt
  else if t = TID_DOUBLE ∨ t = TID_REAL then (fpextToDouble fp v).map (duxrtPrintlnDouble fp)
  else
    match v with
    | .ptr p => duxrtPrintlnStr strings p
    | .void | .i1 _ | .i32 _ | .i64 _ | .float _ | .double _ => none

/-- The characters of the string that a value points to; a null pointer is no string. -/
def charsAt (strings : Strings) : LlvmValue → Option Bytes
  | .ptr p => if p = 0 then none else (strings p).map DuxStr.chars
  | .void | .i1 _ | .i32 _ | .i64 _ | .float _ | .double _ => none

/-- The characters of a string on the stack: as many of the buffer as its `len` says. -/
def charsOfBuffer (formatted : Bytes × Int) : Bytes := formatted.1.take formatted.2.toNat

def charsOfBuilt (built : Except Logic.Stop Built) : Option Bytes :=
  (built.bind fun s => s.data.read 0 s.len.toNat).toOption

/-- `gen_call` for `__fstr_to_str`: the characters of the string that comes out. -/
def fstrToStr (fp : Floating) (strings : Strings) (v : LlvmValue) (tid : TypeId) :
    Option Bytes :=
  let t := inferred v tid
  if t = TID_STR then charsAt strings v
  else if t = TID_BOOL then (truncToI1 v).map boolText
  else if t = TID_INT ∨ t = TID_LONG then
    (sextToI64 v).map fun n => charsOfBuffer (duxrtFmtInt (.ofBitVec n))
  else if t = TID_DOUBLE ∨ t = TID_REAL then
    (fpextToDouble fp v).bind fun b => charsOfBuilt (duxrtStrFromDouble fp b)
  else charsAt strings v

/-! ## What is documented -/

/-- The types with a documented rendering. -/
inductive Scalar
  | bool | int | long | real | double | str
  deriving DecidableEq

def Scalar.tid : Scalar → TypeId
  | bool => TID_BOOL
  | int => TID_INT
  | long => TID_LONG
  | real => TID_REAL
  | double => TID_DOUBLE
  | str => TID_STR

def Scalar.lowered : Scalar → LlvmType
  | bool => .i1
  | int => .i32
  | long => .i64
  | real => .float
  | double => .double
  | str => .ptr

inductive IsValue (strings : Strings) : Scalar → LlvmValue → Prop
  | bool (b : BitVec 1) : IsValue strings .bool (.i1 b)
  | int (b : BitVec 32) : IsValue strings .int (.i32 b)
  | long (b : BitVec 64) : IsValue strings .long (.i64 b)
  | real (b : BitVec 32) : IsValue strings .real (.float b)
  | double (b : BitVec 64) : IsValue strings .double (.double b)
  | null : IsValue strings .str (.ptr 0)
  | str {p : BitVec 64} {s : DuxStr} (isString : strings p = some s) : IsValue strings .str (.ptr p)

/-- The documented text of a value: `true` or `false`, the decimal number, or the string itself. -/
inductive Documented (fp : Floating) (strings : Strings) : Scalar → LlvmValue → Bytes → Prop
  | bool (b : BitVec 1) : Documented fp strings .bool (.i1 b) (boolText b)
  | int (b : BitVec 32) : Documented fp strings .int (.i32 b) (printInt b.toInt)
  | long (b : BitVec 64) : Documented fp strings .long (.i64 b) (printInt b.toInt)
  | real (b : BitVec 32) : Documented fp strings .real (.float b) (fp.general (fp.fpext b))
  | double (b : BitVec 64) : Documented fp strings .double (.double b) (fp.general b)
  | str {p : BitVec 64} {s : DuxStr} (notNull : p ≠ 0) (isString : strings p = some s) :
      Documented fp strings .str (.ptr p) s.chars

/-- A string that is there and has no terminator inside; any number. -/
def Printable (strings : Strings) : LlvmValue → Prop
  | .ptr p => p ≠ 0 ∧ ∀ s, strings p = some s → 0 ∉ s.chars
  | .void | .i1 _ | .i32 _ | .i64 _ | .float _ | .double _ => True

/-- Both conversions give the documented text. -/
def Rendered (fp : Floating) (strings : Strings) (T : Scalar) (x v : LlvmValue) (tid : TypeId) :
    Prop :=
  ∃ text, Documented fp strings T x text ∧ rtPrintln fp strings v tid = some text ∧
    fstrToStr fp strings v tid = some text

/-! ## The choice of the conversion -/

inductive Conversion
  | truth | integer | number | string
  deriving DecidableEq

/-- The conversion that is chosen for a type. -/
def Conversion.of (t : TypeId) : Conversion :=
  if t = TID_BOOL then .truth
  else if t = TID_INT ∨ t = TID_LONG then .integer
  else if t = TID_DOUBLE ∨ t = TID_REAL then .number
  else .string

def Scalar.conversion : Scalar → Conversion
  | bool => .truth
  | int | long => .integer
  | real | double => .number
  | str => .string

def Conversion.line (fp : Floating) (strings : Strings) (v : LlvmValue) :
    Conversion → Option Bytes
  | truth => (truncToI1 v).map boolText
  | integer => (sextToI64 v).map fun n => printInt n.toInt
  | number => (fpextToDouble fp v).map fp.general
  | string =>
      match v with
      | .ptr p => duxrtPrintlnStr strings p
      | .void | .i1 _ | .i32 _ | .i64 _ | .float _ | .double _ => none

def Conversion.chars (fp : Floating) (strings : Strings) (v : LlvmValue) :
    Conversion → Option Bytes
  | truth => (truncToI1 v).map boolText
  | integer => (sextToI64 v).map fun n => printInt n.toInt
  | number => (fpextToDouble fp v).map fp.general
  | string => charsAt strings v

section Dispatch

variable (fp : Floating) (strings : Strings) (v : LlvmValue) (tid : TypeId)

theorem charsOfBuilt_strOf {chars : Bytes} (short : chars.length ≤ int32Max) :
    charsOfBuilt (strOf chars) = some chars := by
  have read : (Built.ofChars chars).data.read 0 (Built.ofChars chars).len.toNat = .ok chars :=
    Logic.Block.Holds.read [] chars [0] (List.prefix_refl _)
  rw [charsOfBuilt, strOf, if_pos short]
  exact congrArg Except.toOption read

theorem charsOfBuffer_duxrtFmtInt (n : BitVec 64) :
    charsOfBuffer (duxrtFmtInt (.ofBitVec n)) = printInt n.toInt := by
  rw [duxrtFmtInt_eq, charsOfBuffer]
  exact List.take_left

theorem charsOfBuilt_duxrtStrFromDouble (b : BitVec 64) :
    charsOfBuilt (duxrtStrFromDouble fp b) = some (fp.general b) := by
  have short := fp.length_general b
  have count : (if (0 : Int) < (fp.general b).length then ((fp.general b).length : Int) else 0) =
      (fp.general b).length := by
    split <;> omega
  rw [duxrtStrFromDouble, snprintfDouble]
  dsimp only
  rw [count, List.take_of_length_le (by omega), duxrtStrNew_take (by simp), List.take_left]
  exact charsOfBuilt_strOf (by rw [int32Max]; omega)

theorem rtPrintln_eq :
    rtPrintln fp strings v tid = (Conversion.of (inferred v tid)).line fp strings v := by
  rw [rtPrintln.eq_def, Conversion.of]
  dsimp only
  split_ifs <;> rfl

theorem fstrToStr_eq :
    fstrToStr fp strings v tid = (Conversion.of (inferred v tid)).chars fp strings v := by
  rw [fstrToStr, Conversion.of]
  by_cases isStr : inferred v tid = TID_STR
  · rw [isStr]
    rfl
  · rw [if_neg isStr]
    split_ifs
    · rfl
    · simp only [charsOfBuffer_duxrtFmtInt]
      rfl
    · simp only [charsOfBuilt_duxrtStrFromDouble]
      exact Option.map_eq_bind.symm
    · rfl

end Dispatch

/-! ## Values as they are -/

/-- The types that choose the conversion for a value of a type; a negative one is unknown. -/
def Legible : Scalar → TypeId → Prop
  | .bool, t => t = TID_BOOL
  | .int, t | .long, t => t = TID_INT ∨ t = TID_LONG ∨ t < 0
  | .real, t | .double, t => t = TID_REAL ∨ t = TID_DOUBLE ∨ t < 0
  | .str, t => t ∉ [TID_BOOL, TID_INT, TID_LONG, TID_REAL, TID_DOUBLE]

/-- `type_id_of`, by what is recorded. -/
def typeId (t : TypeId) : TypeId := if 0 ≤ t then t else TID_UNKNOWN

section Direct

variable {fp : Floating} {strings : Strings} {T : Scalar} {x v : LlvmValue} {t : TypeId}
  {c : Conversion} {text : Bytes}

theorem Conversion.of_eq_iff : Conversion.of t = c ↔
    match c with
    | .truth => t = TID_BOOL
    | .integer => t = TID_INT ∨ t = TID_LONG
    | .number => t = TID_REAL ∨ t = TID_DOUBLE
    | .string => t ∉ [TID_BOOL, TID_INT, TID_LONG, TID_REAL, TID_DOUBLE] := by
  cases c <;> grind [Conversion.of]

theorem inferred_typeId (nonneg : 0 ≤ t) : inferred v (typeId t) = t := by
  rw [typeId, if_pos nonneg, inferred, if_neg]
  rintro rfl
  exact absurd nonneg (by decide)

theorem inferred_typeId_of_neg (negative : t < 0) :
    inferred v (typeId t) =
      if v.type.isInt then TID_INT else if v.type.isFp then TID_DOUBLE else TID_STR := by
  rw [typeId, if_neg (Int.not_le.mpr negative), inferred, if_pos rfl]

theorem type_of_isValue (isValue : IsValue strings T x) : x.type = T.lowered := by
  cases isValue <;> rfl

theorem of_inferred_eq_iff (type : v.type = T.lowered) :
    Conversion.of (inferred v (typeId t)) = T.conversion ↔ Legible T t := by
  rw [Conversion.of_eq_iff]
  rcases Int.lt_or_le t 0 with negative | nonneg
  · rw [inferred_typeId_of_neg negative, type]
    have unknown : ¬0 ≤ t := Int.not_le.mpr negative
    cases T with
    | bool | int | long | real | double | str =>
      simp only [Scalar.conversion, Legible, Scalar.lowered]
      grind [LlvmType.isInt, LlvmType.isFp]
  · rw [inferred_typeId nonneg]
    have known : ¬t < 0 := Int.not_lt.mpr nonneg
    cases T with
    | bool | int | long | real | double | str => simp [Scalar.conversion, Legible, known]

theorem exists_documented (fp : Floating) (isValue : IsValue strings T x)
    (printable : Printable strings x) : ∃ text, Documented fp strings T x text := by
  cases isValue with
  | bool b => exact ⟨_, .bool b⟩
  | int b => exact ⟨_, .int b⟩
  | long b => exact ⟨_, .long b⟩
  | real b => exact ⟨_, .real b⟩
  | double b => exact ⟨_, .double b⟩
  | null => exact absurd rfl printable.1
  | str isString => exact ⟨_, .str printable.1 isString⟩

theorem line_of_documented (documented : Documented fp strings T x text)
    (printable : Printable strings x) :
    T.conversion.line fp strings x = some text ∧ T.conversion.chars fp strings x = some text := by
  cases documented with
  | bool b => exact ⟨rfl, rfl⟩
  | int b =>
    have same : (b.signExtend 64).toInt = b.toInt := BitVec.toInt_signExtend_of_le (by decide)
    exact ⟨congrArg (fun n => some (printInt n)) same, congrArg (fun n => some (printInt n)) same⟩
  | long b => exact ⟨rfl, rfl⟩
  | real b => exact ⟨rfl, rfl⟩
  | double b => exact ⟨rfl, rfl⟩
  | @str p s notNull isString =>
    have noNul := printable.2 s isString
    have whole : cText s.chars = s.chars := Logic.cText_eq_self_iff.mpr noNul
    constructor
    · rw [Scalar.conversion, Conversion.line, duxrtPrintlnStr, if_neg notNull, isString,
        Option.map_some, whole]
    · rw [Scalar.conversion, Conversion.chars, charsAt, if_neg notNull, isString]
      rfl

/-- A value for which no other conversion writes the documented text. -/
def plain : Scalar → LlvmValue
  | .bool => .i1 0
  | .int => .i32 0
  | .long => .i64 0
  | .real => .float 0
  | .double => .double 0
  | .str => .ptr 1

def blank : Strings := fun _ => some ⟨[], Nat.zero_le _⟩

theorem isValue_plain (T : Scalar) : IsValue blank T (plain T) := by
  cases T with
  | bool => exact .bool 0
  | int => exact .int 0
  | long => exact .long 0
  | real => exact .real 0
  | double => exact .double 0
  | str => exact .str rfl

theorem printable_plain (T : Scalar) : Printable blank (plain T) := by
  cases T with
  | bool | int | long | real | double => trivial
  | str =>
    refine ⟨by decide, ?_⟩
    intro s isString
    cases isString
    exact List.not_mem_nil

theorem line_plain_ne (other : c ≠ T.conversion) (documented : Documented fp blank T (plain T) text) :
    c.line fp blank (plain T) ≠ some text := by
  intro written
  cases documented with
  | bool b | int b | long b | real b | double b | str notNull isString =>
    cases c with
    | truth | integer | number | string =>
      first
      | exact other rfl
      | cases written

/-- Every value of the type is rendered exactly if its type chooses the conversion. -/
theorem rendered_self_iff (fp : Floating) (T : Scalar) (t : TypeId) :
    (∀ strings x, IsValue strings T x → Printable strings x →
      Rendered fp strings T x x (typeId t)) ↔ Legible T t := by
  constructor
  · intro always
    obtain ⟨text, documented, written, -⟩ := always _ _ (isValue_plain T) (printable_plain T)
    rw [rtPrintln_eq] at written
    by_contra illegible
    refine line_plain_ne ?_ documented written
    exact fun same => illegible ((of_inferred_eq_iff (type_of_isValue (isValue_plain T))).mp same)
  · intro legible strings x isValue printable
    obtain ⟨text, documented⟩ := exists_documented fp isValue printable
    have chosen := (of_inferred_eq_iff (type_of_isValue isValue)).mpr legible
    obtain ⟨line, chars⟩ := line_of_documented documented printable
    refine ⟨text, documented, ?_, ?_⟩
    · rw [rtPrintln_eq, chosen]
      exact line
    · rw [fstrToStr_eq, chosen]
      exact chars

theorem noNul_of_line (written : c.line fp strings v = some text) : 0 ∉ text := by
  cases c with
  | truth =>
    obtain ⟨b, -, rfl⟩ := Option.map_eq_some_iff.mp written
    rw [boolText]
    split <;> decide +kernel
  | integer =>
    obtain ⟨n, -, rfl⟩ := Option.map_eq_some_iff.mp written
    exact fun member => ((Logic.denotes_printInt n.toInt).visible 0 member).2 rfl
  | number =>
    obtain ⟨b, -, rfl⟩ := Option.map_eq_some_iff.mp written
    exact fp.noNul_general b
  | string =>
    cases v with
    | void | i1 b | i32 b | i64 b | float b | double b => cases written
    | ptr p =>
      rw [Conversion.line, duxrtPrintlnStr] at written
      split at written
      · cases written
        decide +kernel
      · obtain ⟨s, -, rfl⟩ := Option.map_eq_some_iff.mp written
        exact Logic.cText_noNul _

theorem printable_of_rendered (rendered : Rendered fp strings T x v t) : Printable strings x := by
  obtain ⟨text, documented, written, -⟩ := rendered
  rw [rtPrintln_eq] at written
  cases documented with
  | bool | int | long | real | double => trivial
  | @str p s notNull isString =>
    refine ⟨notNull, ?_⟩
    intro s' isString'
    cases isString.symm.trans isString'
    exact noNul_of_line written

end Direct

/-! ## Awaited values -/

section Awaited

variable {fp : Floating} {strings : Strings} {T : Scalar} {x v : LlvmValue} {t : TypeId}

/-- The value of an `await`: the result of the function in a future, unboxed for the type that is
recorded for the expression. -/
def awaited (t : TypeId) (x : LlvmValue) : Option LlvmValue :=
  (boxResult (some x)).bind (unboxResult t)

/-- The types for which an awaited value comes out as it went in, with its own conversion. -/
def Awaitable (T : Scalar) (t : TypeId) : Prop :=
  if T = .str then Legible .str t else t = T.tid ∧ T ≠ .real

theorem type_of_awaitable (awaitable : Awaitable T t) (isValue : IsValue strings T x) :
    x.type = unboxedType t ∧ Legible T t := by
  cases isValue with
  | null | str isString =>
    rw [Awaitable, if_pos rfl] at awaitable
    refine ⟨?_, awaitable⟩
    simp only [Legible, List.mem_cons, List.not_mem_nil, or_false, not_or] at awaitable
    obtain ⟨notBool, notInt, notLong, -, notDouble⟩ := awaitable
    rw [unboxedType, if_neg notInt, if_neg notLong, if_neg notBool, if_neg notDouble]
    rfl
  | real b => exact absurd rfl awaitable.2
  | bool b | int b | long b | double b =>
    obtain ⟨rfl, -⟩ := awaitable
    exact ⟨rfl, by simp [Legible, Scalar.tid]⟩

theorem line_of_awaited {b : BitVec 64} {text : Bytes} (boxes : boxResult (some x) = some (.ptr b))
    (unboxes : awaited t x = some v) (written : rtPrintln fp strings v (typeId t) = some text) :
    t = TID_BOOL ∧ boolText (b.setWidth 1) = text ∨
      t = TID_INT ∧ printInt (b.setWidth 32).toInt = text ∨
      t = TID_LONG ∧ printInt b.toInt = text ∨ t = TID_DOUBLE ∧ fp.general b = text ∨
      Legible .str t ∧ duxrtPrintlnStr strings b = some text := by
  rw [awaited, boxes, Option.bind_some, unboxResult_eq] at unboxes
  rw [rtPrintln_eq] at written
  by_cases isBool : t = TID_BOOL
  · subst isBool
    cases unboxes
    exact .inl ⟨rfl, Option.some.inj written⟩
  by_cases isInt : t = TID_INT
  · subst isInt
    cases unboxes
    have same : ((b.setWidth 32).signExtend 64).toInt = (b.setWidth 32).toInt :=
      BitVec.toInt_signExtend_of_le (by decide)
    exact .inr (.inl ⟨rfl, same ▸ Option.some.inj written⟩)
  by_cases isLong : t = TID_LONG
  · subst isLong
    cases unboxes
    exact .inr (.inr (.inl ⟨rfl, Option.some.inj written⟩))
  by_cases isDouble : t = TID_DOUBLE
  · subst isDouble
    cases unboxes
    exact .inr (.inr (.inr (.inl ⟨rfl, Option.some.inj written⟩)))
  rw [unboxedType, if_neg isInt, if_neg isLong, if_neg isBool, if_neg isDouble] at unboxes
  cases unboxes
  by_cases isReal : t = TID_REAL
  · subst isReal
    cases written
  have legible : Legible .str t := by
    simp [Legible, isBool, isInt, isLong, isReal, isDouble]
  have type : (LlvmValue.ptr b).type = Scalar.str.lowered := rfl
  rw [(of_inferred_eq_iff type).mpr legible] at written
  exact .inr (.inr (.inr (.inr ⟨legible, written⟩)))

def bare : Strings := fun _ => none

/-- One value may show that another type is recorded. -/
theorem tid_of_rendered {b : BitVec 64} (rendered : Rendered fp bare T x v (typeId t))
    (unboxes : awaited t x = some v) (boxes : boxResult (some x) = some (.ptr b)) (notNull : b ≠ 0) :
    ∃ text, Documented fp bare T x text ∧ (t = TID_BOOL ∧ boolText (b.setWidth 1) = text ∨
      t = TID_INT ∧ printInt (b.setWidth 32).toInt = text ∨
      t = TID_LONG ∧ printInt b.toInt = text ∨ t = TID_DOUBLE ∧ fp.general b = text) := by
  obtain ⟨text, documented, written, -⟩ := rendered
  refine ⟨text, documented, ?_⟩
  rcases line_of_awaited boxes unboxes written with isBool | isInt | isLong | isDouble | ⟨-, isStr⟩
  · exact .inl isBool
  · exact .inr (.inl isInt)
  · exact .inr (.inr (.inl isLong))
  · exact .inr (.inr (.inr isDouble))
  · rw [duxrtPrintlnStr, if_neg notNull] at isStr
    cases isStr

/-- Every awaited value of the type is rendered exactly if its type is recorded. -/
theorem rendered_awaited_iff (fp : Floating) (T : Scalar) (t : TypeId) :
    (∀ strings x, IsValue strings T x → Printable strings x →
      ∃ v, awaited t x = some v ∧ Rendered fp strings T x v (typeId t)) ↔ Awaitable T t := by
  constructor
  · intro always
    cases T with
    | str =>
      obtain ⟨v, unboxes, text, documented, written, -⟩ :=
        always blank _ (isValue_plain .str) (printable_plain .str)
      cases documented with
      | str notNull isString =>
        cases isString
        rcases line_of_awaited rfl unboxes written with
          ⟨rfl, same⟩ | ⟨rfl, same⟩ | ⟨rfl, same⟩ | ⟨rfl, same⟩ | ⟨legible, -⟩
        · exact absurd same (by decide +kernel)
        · exact absurd same (by decide +kernel)
        · exact absurd same (by decide +kernel)
        · exact absurd (fp.general_least.symm.trans same) (by decide +kernel)
        · exact legible
    | real =>
      obtain ⟨v, unboxes, -⟩ := always bare _ (.real 0) trivial
      cases unboxes
    | bool =>
      obtain ⟨v, unboxes, rendered⟩ := always bare _ (.bool 1) trivial
      obtain ⟨text, documented, shown⟩ := tid_of_rendered rendered unboxes rfl (by decide)
      cases documented
      rcases shown with ⟨rfl, -⟩ | ⟨rfl, same⟩ | ⟨rfl, same⟩ | ⟨rfl, same⟩
      · exact ⟨rfl, by decide⟩
      · exact absurd same (by decide +kernel)
      · exact absurd same (by decide +kernel)
      · exact absurd (fp.general_least.symm.trans same) (by decide +kernel)
    | int =>
      obtain ⟨v, unboxes, rendered⟩ := always bare _ (.int 1) trivial
      obtain ⟨text, documented, shown⟩ := tid_of_rendered rendered unboxes rfl (by decide)
      cases documented
      rcases shown with ⟨rfl, same⟩ | ⟨rfl, -⟩ | ⟨rfl, -⟩ | ⟨rfl, same⟩
      · exact absurd same (by decide +kernel)
      · exact ⟨rfl, by decide⟩
      · -- the number is extended with zeros
        obtain ⟨v, unboxes, rendered⟩ := always bare _ (.int (-1)) trivial
        obtain ⟨text, documented, shown⟩ := tid_of_rendered rendered unboxes rfl (by decide)
        cases documented
        rcases shown with ⟨isBool, -⟩ | ⟨isInt, -⟩ | ⟨-, same⟩ | ⟨isDouble, -⟩
        · cases isBool
        · cases isInt
        · exact absurd same (by decide +kernel)
        · cases isDouble
      · exact absurd (fp.general_least.symm.trans same) (by decide +kernel)
    | long =>
      obtain ⟨v, unboxes, rendered⟩ := always bare _ (.long 1) trivial
      obtain ⟨text, documented, shown⟩ := tid_of_rendered rendered unboxes rfl (by decide)
      cases documented
      rcases shown with ⟨rfl, same⟩ | ⟨rfl, -⟩ | ⟨rfl, -⟩ | ⟨rfl, same⟩
      · exact absurd same (by decide +kernel)
      · -- the number is cut off
        obtain ⟨v, unboxes, rendered⟩ := always bare _ (.long (2 ^ 32)) trivial
        obtain ⟨text, documented, shown⟩ := tid_of_rendered rendered unboxes rfl (by decide)
        cases documented
        rcases shown with ⟨isBool, -⟩ | ⟨-, same⟩ | ⟨isLong, -⟩ | ⟨isDouble, -⟩
        · cases isBool
        · exact absurd same (by decide +kernel)
        · cases isLong
        · cases isDouble
      · exact ⟨rfl, by decide⟩
      · exact absurd (fp.general_least.symm.trans same) (by decide +kernel)
    | double =>
      obtain ⟨v, unboxes, rendered⟩ := always bare _ (.double 0x3FF0000000000000) trivial
      obtain ⟨text, documented, shown⟩ := tid_of_rendered rendered unboxes rfl (by decide)
      cases documented
      rcases shown with ⟨rfl, same⟩ | ⟨rfl, same⟩ | ⟨rfl, same⟩ | ⟨rfl, -⟩
      · exact absurd (same.trans fp.general_one) (by decide +kernel)
      · exact absurd (same.trans fp.general_one) (by decide +kernel)
      · exact absurd (same.trans fp.general_one) (by decide +kernel)
      · exact ⟨rfl, by decide⟩
  · intro awaitable strings x isValue printable
    obtain ⟨sameType, legible⟩ := type_of_awaitable awaitable isValue
    refine ⟨x, (unboxResult_boxResult_iff t x).mpr sameType, ?_⟩
    exact (rendered_self_iff fp T t).mpr legible strings x isValue printable

end Awaited

/-! ## Expressions -/

/-- The value that is generated for a node: what the expression stands for, unless it has come out
of a future. -/
def generated (e : Expr) (x : LlvmValue) : Option LlvmValue :=
  if isAwait e then awaited e.tid x else some x

/-- The types that are to be recorded for an expression of a type. -/
def Suits (T : Scalar) (e : Expr) (t : TypeId) : Prop :=
  if isAwait e then Awaitable T t else Legible T t

/-- Both conversions of an analysed expression show every value of a type as documented, if it has
a text. -/
def Renders (fp : Floating) (T : Scalar) (e : Expr) : Prop :=
  ∀ strings x, IsValue strings T x → Printable strings x →
    ∃ v, generated e x = some v ∧ Rendered fp strings T x v (Typing.typeIdOf e)

theorem renders_iff_suits (fp : Floating) (T : Scalar) (e : Expr) :
    Renders fp T e ↔ Suits T e e.tid := by
  have same : Typing.typeIdOf e = typeId e.tid := rfl
  unfold Renders Suits generated
  cases isAwait e with
  | true =>
    rw [if_pos rfl, same]
    exact rendered_awaited_iff fp T e.tid
  | false =>
    rw [if_neg Bool.false_ne_true, same, ← rendered_self_iff fp T e.tid]
    simp only [Bool.false_eq_true, if_false, Option.some.injEq, exists_eq_left']

/-- An expression shows the values of a type on both ways exactly if the type that is recorded by
its form is suitable, and on both ways the same is shown of nothing that has no text. -/
theorem renders_iff_records (fp : Floating) (T : Scalar) {s s' : Sema.State} {e e' : Expr}
    (checked : (Sema.checkExpr e).run s = some (e', s')) :
    (Renders fp T e' ↔ ∃ t, Records s e s' t ∧ Suits T e t) ∧
      ∀ strings x v, Rendered fp strings T x v (Typing.typeIdOf e') → Printable strings x := by
  refine ⟨?_, fun _ _ _ => printable_of_rendered⟩
  have suits (t : TypeId) : Suits T e' t ↔ Suits T e t := by
    unfold Suits
    rw [(form_of_run checked).2]
  rw [renders_iff_suits, suits]
  constructor
  · exact fun suitable => ⟨_, records_of_run checked, suitable⟩
  · rintro ⟨t, records, suitable⟩
    rw [tid_of_records records checked]
    exact suitable

/-- `%g` and `fpext` where they are used below. -/
def plainFloating : Floating where
  fpext _ := 0
  general b :=
    ascii (if b = 0x3FF0000000000000 then "1" else if b = 1 then "4.94066e-324" else "0")
  length_general b := by split_ifs <;> decide +kernel
  noNul_general b := by split_ifs <;> decide +kernel
  general_one := rfl
  general_least := rfl

/-- A scope with a variable `done` of the type `bool`. -/
def withDone : Sema.State :=
  { Sema.State.initial with
    scopes := [[("done", { name := "done", kind := .var, type := TID_BOOL })]] }

theorem renders_done : Renders plainFloating .bool (.ident TID_BOOL "done") := by
  have checked : (Sema.checkExpr (.ident TID_UNKNOWN "done")).run withDone =
      some (.ident TID_BOOL "done", withDone) := rfl
  have found : Sema.lookupScopes withDone.scopes "done" =
      some { name := "done", kind := .var, type := TID_BOOL } := rfl
  exact (renders_iff_records plainFloating .bool checked).1.mpr ⟨_, .name found, rfl⟩

/-! ## A field of another object -/

def printed (prog : Program) : List Expr :=
  (nodesOf prog).filterMap fun
    | .expr (.call _ (.ident _ "println") [e]) => some e
    | _ => none

/-- A program declares a variable of a class that declares a field of the type of that name. -/
def DeclaresField (prog : Program) (name field type : String) : Prop :=
  ∃ c, .cls c ∈ prog.decls ∧ (∃ f, .field f ∈ c.members ∧ f.name = field ∧ f.type.name = type) ∧
    ∃ loc items init, .varDecl loc { name := c.name } false false items ∈ prog.stmts ∧
      .mk name init ∈ items

/-- `class Light { bool lit }  Light l = new Light()  println(l.lit)`. -/
def light : Program where
  decls := [.cls { name := "Light", members := [.field { type := { name := "bool" }, name := "lit" }] }]
  stmts :=
    [.varDecl ⟨1, 1⟩ { name := "Light" } false false
        [.mk "l" (some (.new (-1) { name := "Light" } []))],
      .expr (.call (-1) (.ident (-1) "println") [.member (-1) (.ident (-1) "l") "lit"])]

/-- Whether an expression is the field of the program above, without a type. -/
def isUntypedLit : Expr → Bool
  | .member t (.ident _ "l") "lit" => t < 0
  | _ => false

/-- The field is shown as a number. -/
theorem not_renders : ¬∀ fp prog prog' s, Sema.Accepts prog prog' s →
    ∀ name field k k', .member k (.ident k' name) field ∈ printed prog' →
      DeclaresField prog name field "bool" →
      Renders fp .bool (.member k (.ident k' name) field) := by
  intro always
  obtain ⟨prog', s, accepts, shows⟩ := Sema.exists_accepts light
    (fun prog' _ => (printed prog').any isUntypedLit) (by decide +kernel)
  obtain ⟨e, isPrinted, isLit⟩ := List.any_eq_true.mp shows
  unfold isUntypedLit at isLit
  split at isLit
  · next k k' =>
    have declares : DeclaresField light "l" "lit" "bool" :=
      ⟨_, List.mem_singleton_self _, ⟨_, List.mem_singleton_self _, rfl, rfl⟩,
        _, _, _, List.mem_cons_self, List.mem_singleton_self _⟩
    have renders := always plainFloating _ _ _ accepts _ _ _ _ isPrinted declares
    have legible : Legible .bool k := (renders_iff_suits _ _ _).mp renders
    have negative : k < 0 := of_decide_eq_true isLit
    rw [legible] at negative
    exact absurd negative (by decide)
  · cases isLit

example : rtPrintln plainFloating bare (.i1 1) TID_UNKNOWN = some (ascii "-1") := by decide +kernel

end Dux.Codegen.Rendering
