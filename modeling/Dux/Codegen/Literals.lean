import Dux.Codegen.Conversions
import Dux.Codegen.Nearest
import Dux.Codegen.Switches
import Dux.Lexer.Scan

/-!
# Integer literals

An integer literal goes from the digits that `src/lexer/dux.l` reads through the syntax tree and
`gen_expr` (`src/codegen/codegen.cpp`) to the places that it is assigned to.
-/

namespace Dux.Codegen

open TypeRegistry Payload Numbers
open Logic (digitsValue isDigit)

/-! ## Literals -/

inductive NumType
  | int
  | long
  | real
  | double
  deriving DecidableEq, Repr

namespace NumType

def tid : NumType → TypeId
  | .int => TID_INT
  | .long => TID_LONG
  | .real => TID_REAL
  | .double => TID_DOUBLE

def IsWhole (s : NumType) : Prop := s = .int ∨ s = .long

/-- The type has the number. -/
def Has : NumType → Nat → Prop
  | .int, n => n < 2 ^ 31
  | .long, n => n < 2 ^ 63
  | .real, n => single.Fits n
  | .double, n => Payload.double.Fits n

/-- The value of digits at the type: a floating-point type takes the nearest number that it has. -/
def round : NumType → Nat → Nat
  | .int, m | .long, m => m
  | .real, m => single.nearest m
  | .double, m => Payload.double.nearest m

end NumType

/-- What may stand behind the digits. -/
inductive Suffix
  | plain
  | i
  | l
  | d
  | f
  deriving DecidableEq, Repr

namespace Suffix

def text : Suffix → Lexer.Text
  | .plain => []
  | .i => [0x69]
  | .l => [0x6c]
  | .d => [0x64]
  | .f => [0x66]

def type : Suffix → NumType
  | .plain | .i => .int
  | .l => .long
  | .d => .double
  | .f => .real

end Suffix

structure Literal where
  digits : Lexer.Text
  suffix : Suffix
  notEmpty : digits ≠ []
  isDigits : ∀ b ∈ digits, isDigit b = true

namespace Literal

def text (l : Literal) : Lexer.Text := l.digits ++ l.suffix.text

def type (l : Literal) : NumType := l.suffix.type

def value (l : Literal) : Nat := digitsValue l.digits

/-- The mathematical value at the type of the literal. -/
def denoted (l : Literal) : Nat := l.type.round l.value

end Literal

/-- The conversion of a `long long` to a `double`, beside some `std::stod`. -/
def ieee (stod : Lexer.Text → Option (BitVec 64)) : Lexer.Floats (BitVec 64) where
  stod := stod
  ofInt n := BitVec.ofNat 64 (double.ofInt n)

/-- The token of a literal.  Digits that `std::stoll` rejects end the compiler without any. -/
def Literal.token (stod : Lexer.Text → Option (BitVec 64)) (l : Literal) :
    Option (Lexer.Token (BitVec 64)) :=
  match Lexer.scanNumber (ieee stod) l.text with
  | some (.token t, []) => some t
  | _ => none

/-- `primary_expr` on the token of a number, with the type of `check_expr`. -/
def primaryExpr : Lexer.Token (BitVec 64) → Option Expr
  | .intLit n => some (.intLit TID_INT n)
  | .longLit n => some (.longLit TID_LONG n)
  | .floatLit x => some (.floatLit TID_DOUBLE x)
  | .realLit x => some (.realLit TID_REAL x)
  | _ => none

/-- `match_pattern` on the token of a number: only one for an `int` begins a pattern. -/
def matchPattern : Lexer.Token (BitVec 64) → Option MatchPattern
  | .intLit n => some (.intLit n)
  | _ => none

/-! ## Code generation -/

/-- `ConstantFP::get` at `float`, for a `double` that is an integer. -/
def floatConstant (x : BitVec 64) : Option LlvmValue :=
  (double.decode x.toNat).bind fun q =>
    if q.toRat.den = 1 then some (.float (BitVec.ofNat 32 (single.ofInt q.toRat.num))) else none

/-- `gen_expr` on the literals of numbers. -/
def genLiteral : Expr → Option LlvmValue
  | .intLit _ n => some (.i32 (BitVec.ofInt 32 n))
  | .longLit _ n => some (.i64 (BitVec.ofInt 64 n))
  | .floatLit _ x => some (.double x)
  | .realLit _ x => floatConstant x
  | _ => none

/-- The constant that a global variable of a type begins with.  Neither `ConstantInt::get` takes a
floating-point type, nor `ConstantFP::get` one of integers. -/
def constantInit (t : LlvmType) : Expr → Option LlvmValue
  | .intLit _ n | .longLit _ n => ofInteger n t
  | .floatLit _ x | .realLit _ x =>
      match t with
      | .double => some (.double x)
      | .float => floatConstant x
      | _ => none
  | _ => none

/-- The bytes of a value in memory. -/
def storeSize : LlvmType → Nat
  | .void => 0
  | .i1 => 1
  | .i32 | .float => 4
  | .i64 | .double | .ptr => 8

/-- Eight bytes after a store at their beginning.  A value of four bytes leaves the upper half as it
was. -/
def overwrite (upper : BitVec 32) : LlvmValue → BitVec 64
  | .i32 b | .float b => upper ++ b
  | .i64 b | .double b | .ptr b => b
  | .i1 b => upper ++ b.setWidth 32
  | .void => 0

/-- `CreateStore` of a value to the place of a variable of type `t`, and what is loaded from there.
A value of eight bytes is written past a place of four. -/
def stored (t : LlvmType) (upper : BitVec 32) (v : LlvmValue) : Option LlvmValue :=
  if storeSize v.type ≤ storeSize t then some (unboxFromPtr t (overwrite upper v)) else none

/-- The ways of a literal into a variable: the declaration of a local variable and of a `static`
one, the default of a field, an assignment, the declaration of a `thread_local` variable and of a
`static` field. -/
inductive Storage
  | declaration (isStatic : Bool)
  | field
  | assignment
  | threadLocal
  | staticField
  deriving DecidableEq, Repr

/-- The value of a variable of type `dst` after the literal got there; `upper` is what the upper
half of its place held before. -/
def Storage.store (dst : TypeId) (t : LlvmType) (upper : BitVec 32) (e : Expr) :
    Storage → Option LlvmValue
  | .declaration true => (genLiteral e).bind fun v => (coerce e.tid dst v).bind (stored t upper)
  | .declaration false => (genLiteral e).bind fun v =>
      (coerce e.tid dst v).bind fun v => (coerceToLlvmType v t).bind (stored t upper)
  | .field => (genLiteral e).bind fun v => (coerceToLlvmType v t).bind (stored t upper)
  | .assignment => (genLiteral e).bind (stored t upper)
  | .threadLocal => constantInit t e
  | .staticField =>
      match e with
      | .realLit _ _ => some t.null
      | e => constantInit t e

/-- Where a literal stands: in a variable of a type, in a list whose elements are read at the type
of the literal, or among the cases of a `switch` or a `match` on a `long` or an `int`. -/
inductive Context
  | place (storage : Storage) (dst : NumType)
  | element (isLoop : Bool)
  | switchCase (isLong : Bool) (before after : List (Option Expr))
  | matchArm (isLong : Bool) (before after : List MatchPattern)

/-- The type of a value that a `switch` or a `match` is on. -/
def subjectType (isLong : Bool) : LlvmType := if isLong then .i64 else .i32

/-! ## Meaning -/

/-- The value is there, and it is the number. -/
def Gives (v : Option LlvmValue) (n : Int) : Prop := ∃ w, v = some w ∧ number w = some (.ofInt n)

/-- The number arrives: in the variable, in what is read from the list, and as the only value on
which the case or the arm is chosen, unless an error is reported.  A `static` variable begins with
zeros. -/
def Context.Denotes (ls : Layouts) (t : Lexer.Token (BitVec 64)) (n : Int) : Context → Prop
  | .place storage dst => ∃ e, primaryExpr t = some e ∧ ∀ upper,
      (storage = .declaration true → upper = 0) →
        Gives (storage.store dst.tid (lowerType ls.types dst.tid) upper e) n
  | .element isLoop => ∃ e, primaryExpr t = some e ∧
      Gives ((genLiteral e).bind ((if isLoop then Conversions.Path.loop else .element).convert
        e.tid e.tid (lowerType ls.types e.tid))) n
  | .switchCase isLong before after => ∃ e, primaryExpr t = some e ∧
      ∀ inst, Switches.genSwitch ls (subjectType isLong) (before ++ some e :: after) = some inst →
        ∀ v k, v.type = subjectType isLong → integer v = some k →
          (inst.target v = some before.length ↔ k = n)
  | .matchArm isLong before after => ∀ p, matchPattern t = some p →
      ∀ code, Match.genMatch ls (subjectType isLong) (before ++ p :: after) = some code →
        ∀ v, v.type = subjectType isLong →
          (code.run v = .arm before.length ↔ v.number = some n)

/-- The literal has a token, and denotes its value in the context. -/
def Literal.Denotes (ls : Layouts) (stod : Lexer.Text → Option (BitVec 64)) (l : Literal)
    (c : Context) : Prop :=
  ∃ t, l.token stod = some t ∧ c.Denotes ls t l.denoted

/-! ## Where literals keep their values -/

namespace NumType

def IsShort (s : NumType) : Prop := s = .int ∨ s = .real

/-- The constant of the literal is its value: an `int` has it, and a `real`, which was a `double`
first, is not rounded to another number by that. -/
def Exact : NumType → Nat → Prop
  | .int, m => m < 2 ^ 31
  | .long, _ | .double, _ => True
  | .real, m => ¬Logic.Slips (2 ^ (m.log2 - single.fraction))
      (2 ^ (m.log2 - Payload.double.fraction)) m

/-- The constant of a global variable of another type is the value. -/
def InitKeeps (s dst : NumType) (m : Nat) : Prop :=
  (s.IsWhole ↔ dst.IsWhole) ∧ dst.Has (s.round m) ∧ (s = .real → dst = .real → s.Exact m) ∧
    (s = .real → dst = .double → Payload.double.nearest m = single.nearest m)

end NumType

/-- The digits whose value arrives in a variable. -/
def Storage.Keeps (s dst : NumType) (m : Nat) : Storage → Prop
  | .declaration isStatic => s.Exact m ∧ dst.Has (s.round m) ∧
      (dst = s ∨ dst.IsWhole ∨ s.IsWhole ∧ dst = .double) ∨
        isStatic = true ∧ s = .real ∧ dst = .double ∧ m = 0
  | .field => s.Exact m ∧ dst.Has (s.round m) ∧ (dst = s ∨ dst.IsWhole ∨ s.IsWhole)
  | .assignment => s.Exact m ∧ dst = s ∨ m = 0 ∧ (s.IsShort ↔ dst.IsShort)
  | .threadLocal => s.InitKeeps dst m
  | .staticField => if s = .real then m = 0 else s.InitKeeps dst m

/-- The module verifier accepts the `switch`: its cases are of the type, and different. -/
def SwitchVerifies (ls : Layouts) (t : LlvmType) (values : List (Option Expr)) : Prop :=
  (∀ a ∈ Switches.caseConsts ls values, a.1.type = t) ∧
    ∀ a ∈ Switches.caseConsts ls values, ∀ b ∈ Switches.caseConsts ls values,
      a.1 = b.1 → a.2 = b.2

/-- The module verifier accepts the `match`, which has no strings and different cases. -/
def MatchVerifies (ls : Layouts) (patterns : List MatchPattern) : Prop :=
  isStrMatch patterns = false ∧ ((Match.switchCases ls 32 patterns).map (·.1)).Nodup

namespace NumType

def token : NumType → Nat → Lexer.Token (BitVec 64)
  | .int, m => .intLit m
  | .long, m => .longLit m
  | .real, m => .realLit (BitVec.ofNat 64 (Payload.double.ofInt m))
  | .double, m => .floatLit (BitVec.ofNat 64 (Payload.double.ofInt m))

def expr : NumType → Nat → Expr
  | .int, m => .intLit TID_INT m
  | .long, m => .longLit TID_LONG m
  | .real, m => .realLit TID_REAL (BitVec.ofNat 64 (Payload.double.ofInt m))
  | .double, m => .floatLit TID_DOUBLE (BitVec.ofNat 64 (Payload.double.ofInt m))

end NumType

def subject (isLong : Bool) : NumType := if isLong then .long else .int

/-- The digits whose value arrives in a context. -/
def Context.Keeps (ls : Layouts) (s : NumType) (m : Nat) : Context → Prop
  | .place storage dst => storage.Keeps s dst m
  | .element _ => s.Exact m
  | .switchCase isLong before after =>
      SwitchVerifies ls (subjectType isLong) (before ++ some (s.expr m) :: after) →
        s.IsWhole ∧ s.Exact m ∨
          ¬s.IsWhole ∧ ¬(subject isLong).Has (s.round m)
  | .matchArm isLong before after =>
      s = .int → MatchVerifies ls (before ++ .intLit m :: after) → isLong = false ∧ s.Exact m

/-! ## Tokens -/

variable {stod : Lexer.Text → Option (BitVec 64)} {s dst : NumType} {m : Nat}

/-- The text goes on with something else. -/
def Suffix.Closes (suffix : Suffix) (rest : Lexer.Text) : Prop :=
  suffix = .plain → ∀ b ∈ rest.head?, isDigit b = false ∧ 
    b ∉ ([0x2e, 0x69, 0x6c, 0x64, 0x66] : Lexer.Text)

theorem scanNumber_text (l : Literal) {rest : Lexer.Text} (closes : l.suffix.Closes rest) :
    Lexer.scanNumber (ieee stod) (l.text ++ rest) =
      some (if l.value < 2 ^ 63 then .token (l.type.token l.value) else .fault, rest) := by
  have noDigit : (l.suffix.text ++ rest).takeWhile isDigit = [] := by
    cases suffix : l.suffix with
    | plain =>
      cases rest with
      | nil => rfl
      | cons b rest => exact List.takeWhile_cons_of_neg (by simp [(closes suffix b rfl).1])
    | i | l | d | f => rfl
  have digits : (l.text ++ rest).takeWhile isDigit = l.digits := by
    rw [Literal.text, List.append_assoc, List.takeWhile_append_of_pos l.isDigits, noDigit,
      List.append_nil]
  have behind : (l.text ++ rest).drop l.digits.length = l.suffix.text ++ rest := by
    rw [Literal.text, List.append_assoc]
    exact List.drop_left
  have noFraction : Lexer.scanFraction (ieee stod) l.digits (l.suffix.text ++ rest) = none := by
    cases suffix : l.suffix with
    | plain =>
      cases rest with
      | nil => rfl
      | cons b rest =>
        have other := (closes suffix b rfl).2
        simp only [List.mem_cons, List.not_mem_nil, or_false, not_or] at other
        simp [Suffix.text, Lexer.scanFraction, other]
    | i | l | d | f => rfl
  have isInteger : Lexer.scanInteger (ieee stod) l.digits (l.suffix.text ++ rest) =
      (if l.value < 2 ^ 63 then .token (l.type.token l.value) else .fault, rest) := by
    have read : Lexer.stoll l.digits =
        if l.value < 2 ^ 63 then some (l.value : Int) else none := rfl
    unfold Literal.type
    cases suffix : l.suffix with
    | plain =>
      have last : Lexer.scanInteger (ieee stod) l.digits rest =
          (Lexer.numberToken .intLit (Lexer.stoll l.digits), rest) := by
        cases rest with
        | nil => rfl
        | cons b rest =>
          have other := (closes suffix b rfl).2
          simp only [List.mem_cons, List.not_mem_nil, or_false, not_or] at other
          simp [Lexer.scanInteger, other]
      rw [Suffix.text, List.nil_append, last, read]
      split_ifs <;> rfl
    | i | l | d | f =>
      simp only [Suffix.text, List.cons_append, List.nil_append, Lexer.scanInteger, read]
      split_ifs <;> rfl
  unfold Lexer.scanNumber
  simp only [digits, behind, if_neg l.notEmpty, noFraction, isInteger, Option.getD_none]

theorem token_eq (l : Literal) :
    l.token stod = if l.value < 2 ^ 63 then some (l.type.token l.value) else none := by
  have scanned : Lexer.scanNumber (ieee stod) (l.text ++ []) = _ :=
    scanNumber_text l fun _ _ member => nomatch member
  rw [List.append_nil] at scanned
  rw [Literal.token, scanned]
  split_ifs <;> rfl

theorem primaryExpr_token (s : NumType) (m : Nat) : primaryExpr (s.token m) = some (s.expr m) := by
  cases s <;> rfl

/-! ## Constants -/

theorem gives_some {w : LlvmValue} {n : Int} :
    Gives (some w) n ↔ number w = some (.ofInt n) := by
  simp [Gives]

theorem not_gives_none {n : Int} : ¬Gives none n := by
  simp [Gives]

theorem toInt_ofInt_eq_iff : (BitVec.ofInt 32 (m : Int)).toInt = m ↔ m < 2 ^ 31 := by
  constructor
  · intro same
    have high := BitVec.toInt_lt (x := BitVec.ofInt 32 (m : Int))
    rw [same] at high
    omega
  · intro small
    exact BitVec.toInt_ofInt_eq_self (by decide) (by omega) (by omega)

theorem toInt_ofInt_long (small : m < 2 ^ 63) : (BitVec.ofInt 64 (m : Int)).toInt = m :=
  BitVec.toInt_ofInt_eq_self (by decide) (by omega) (by omega)

theorem number_double_ofInt {n : Int} (small : n.natAbs ≤ 2 ^ 63) :
    number (.double (BitVec.ofNat 64 (double.ofInt n))) = some (.ofInt (double.nearestInt n)) := by
  rw [← double.ofInt_nearestInt]
  refine Conversions.number_double (double.fits_nearestInt n) ?_
  rw [FloatFormat.natAbs_nearestInt]
  exact (FloatFormat.nearest_le_two_pow small).trans_lt (by decide)

theorem number_float_ofInt {n : Int} (small : n.natAbs ≤ 2 ^ 63) :
    number (.float (BitVec.ofNat 32 (single.ofInt n))) = some (.ofInt (single.nearestInt n)) := by
  rw [← single.ofInt_nearestInt]
  refine Conversions.number_float (single.fits_nearestInt n) ?_
  rw [FloatFormat.natAbs_nearestInt]
  exact (FloatFormat.nearest_le_two_pow small).trans_lt (by decide)

namespace NumType

def result : NumType → Nat → Int
  | .int, m => (BitVec.ofInt 32 (m : Int)).toInt
  | .long, m => m
  | .real, m => single.nearest (Payload.double.nearest m)
  | .double, m => Payload.double.nearest m

def constant : NumType → Nat → LlvmValue
  | .int, m => .i32 (BitVec.ofInt 32 m)
  | .long, m => .i64 (BitVec.ofInt 64 m)
  | .real, m => .float (BitVec.ofNat 32 (single.ofInt (Payload.double.nearest m)))
  | .double, m => .double (BitVec.ofNat 64 (Payload.double.ofInt m))

theorem result_eq_iff : s.result m = s.round m ↔ s.Exact m := by
  cases s with
  | int => exact toInt_ofInt_eq_iff
  | long | double => exact iff_of_true rfl trivial
  | real =>
    have more : single.fraction < Payload.double.fraction := by decide
    have twice := Logic.roundBits_roundBits_iff more m
    exact Int.natCast_inj.trans twice

end NumType

theorem floatConstant_ofInt (small : m < 2 ^ 63) :
    floatConstant (BitVec.ofNat 64 (double.ofInt m)) =
      some (.float (BitVec.ofNat 32 (single.ofInt (double.nearest m)))) := by
  have decodes : double.decode (BitVec.ofNat 64 (double.ofInt m)).toNat =
      some (.ofInt (double.nearest m)) := by
    rw [← double.nearestInt_natCast]
    exact number_double_ofInt small.le
  have isInteger : (Dyadic.ofInt (double.nearest m)).toRat = ((double.nearest m : Int) : Rat) :=
    Dyadic.toRat_intCast _
  rw [floatConstant, decodes, Option.bind_some, isInteger, Rat.den_intCast, Rat.num_intCast,
    if_pos rfl]

theorem genLiteral_expr (small : m < 2 ^ 63) : genLiteral (s.expr m) = some (s.constant m) := by
  cases s with
  | int | long | double => rfl
  | real => exact floatConstant_ofInt small

theorem nearest_le (f : FloatFormat) (small : m < 2 ^ 63) : f.nearest m ≤ 2 ^ 63 :=
  FloatFormat.nearest_le_two_pow small.le

theorem number_constant (small : m < 2 ^ 63) :
    number (s.constant m) = some (.ofInt (s.result m)) := by
  cases s with
  | int => rfl
  | long => exact congrArg (some ∘ Dyadic.ofInt) (toInt_ofInt_long small)
  | real =>
    have twice := number_float_ofInt (n := double.nearest m) (nearest_le double small)
    rwa [FloatFormat.nearestInt_natCast] at twice
  | double =>
    have once := number_double_ofInt (n := m) small.le
    rwa [FloatFormat.nearestInt_natCast] at once

end Dux.Codegen
