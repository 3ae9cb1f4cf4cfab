import Dux.Codegen.Lowering

/-!
# Operands

The places where code generation makes an instruction out of values of the
program (`src/codegen/codegen.cpp`), as far as the types of the operands go: the
conversions that `gen_binary`, `gen_unary`, `gen_assign`, `gen_return`,
`gen_switch` and the calls make first, and the instructions that come out.

Casts are not looked at: their result has the type they are asked for.  An
operation on constants, which the builder folds, counts as its instruction.
-/

namespace Dux.Codegen

open TypeRegistry

namespace LlvmType

/-- `isIntegerTy`. -/
def isInt : LlvmType → Bool
  | .i1 | .i32 | .i64 => true
  | .void | .float | .double | .ptr => false

/-- `isFloatingPointTy`. -/
def isFp : LlvmType → Bool
  | .float | .double => true
  | .void | .i1 | .i32 | .i64 | .ptr => false

/-- `getIntegerBitWidth`. -/
def width : LlvmType → Nat
  | .i1 => 1
  | .i32 => 32
  | .i64 => 64
  | .void | .float | .double | .ptr => 0

end LlvmType

namespace Typing

/-! ## Instructions -/

/-- Instructions by the types of their operands: integer and floating
arithmetic, comparisons, calls, returns and switches. -/
inductive Instr
  | intOp (l r : LlvmType)
  | fpOp (l r : LlvmType)
  | icmp (l r : LlvmType)
  | fcmp (l r : LlvmType)
  | call (params args : List LlvmType)
  | ret (declared : LlvmType) (value : Option LlvmType)
  | switch (on : LlvmType) (cases : List LlvmType)
  deriving DecidableEq, Repr

/-- What the module verifier demands of the operands. -/
def Instr.WellTyped : Instr → Prop
  | .intOp l r => l = r ∧ l.isInt = true
  | .fpOp l r => l = r ∧ l.isFp = true
  | .icmp l r => l = r ∧ (l.isInt = true ∨ l = .ptr)
  | .fcmp l r => l = r ∧ l.isFp = true
  | .call params args => args = params
  | .ret declared none => declared = .void
  | .ret declared (some t) => declared ≠ .void ∧ t = declared
  | .switch on cases => on.isInt = true ∧ ∀ t ∈ cases, t = on

/-! ## Conversions -/

/-- The promotions of `gen_binary`: to `double` beside a floating operand, to the
wider of two integers otherwise. -/
def promote (fp : Bool) (l r : LlvmType) : LlvmType × LlvmType :=
  if fp then (if l.isInt then .double else l, if r.isInt then .double else r)
  else if l.isInt && r.isInt && l ≠ r then
    if l.width < r.width then (r, r) else (l, l)
  else (l, r)

/-- `is_fp` in `gen_binary`: what analysis says of the operands, or what they are. -/
def isFpOperation (lt rt : TypeId) (l r : LlvmType) : Bool :=
  decide (lt = TID_DOUBLE ∨ lt = TID_REAL ∨ rt = TID_DOUBLE ∨ rt = TID_REAL) || l.isFp || r.isFp

def unboxFromPtr (target : LlvmType) : LlvmType := if target = .void then .ptr else target

def coerceToLlvmType (t pt : LlvmType) : LlvmType :=
  if t = pt then t
  else if pt.isInt && t.isInt then pt
  else if pt.isFp && t.isInt then pt
  else if pt.isInt && t.isFp then pt
  else if t = .ptr ∧ pt ≠ .ptr then unboxFromPtr pt
  else t

def integralType (tid : TypeId) : LlvmType :=
  if tid = TID_LONG then .i64 else if tid = TID_INT then .i32 else .i1

def coerce (src dst : TypeId) (t : LlvmType) : LlvmType :=
  if src = dst ∨ dst = TID_UNKNOWN then t
  else if (dst = TID_DOUBLE ∨ dst = TID_REAL) ∧ t.isInt then .double
  else if (dst = TID_INT ∨ dst = TID_LONG) ∧ t.isFp then integralType dst
  else if dst = TID_LONG ∧ t = .i32 then .i64
  else if dst = TID_INT ∧ t = .i64 then .i32
  else if isIntegral dst ∧ t = .i1 then integralType dst
  else t

/-- How an argument is handed over: as it is, through `coerce_to_llvm_type`, or
with the two conversions of `try_stdlib_call`. -/
inductive Passing
  | asIs | coerced | stdlib
  deriving DecidableEq, Repr

/-- The type an argument has after its conversion to that of a parameter. -/
def Passing.convert (t param : LlvmType) : Passing → LlvmType
  | .asIs => t
  | .coerced => coerceToLlvmType t param
  | .stdlib =>
      if param = .double ∧ t.isInt then param
      else if param.isInt ∧ t = .double then param
      else t

structure Arg where
  type : LlvmType
  passing : Passing := .asIs

/-- The arguments of a call; those behind the last parameter stay as they are. -/
def passArgs : List LlvmType → List Arg → List LlvmType
  | _, [] => []
  | [], a :: as => a.type :: passArgs [] as
  | p :: ps, a :: as => a.passing.convert a.type p :: passArgs ps as

/-! ## Sites -/

/-- A place where an instruction is made out of values of the program, with the
types that these have there. -/
inductive Site
  | binary (op : BinOp) (fp : Bool) (l r : LlvmType)
  | unary (op : UnOp) (t : LlvmType)
  | test (t : LlvmType)
  | isZero (t : LlvmType)
  | compound (op : AssignOp) (cur rhs : LlvmType)
  | call (params : List LlvmType) (args : List Arg)
  | ret (declared : LlvmType) (src dst : TypeId) (value : Option LlvmType)
  | switch (on : LlvmType) (cases : List LlvmType)
  | count (t : LlvmType)

def isComparison : BinOp → Bool
  | .eq | .ne | .lt | .gt | .le | .ge => true
  | .add | .sub | .mul | .div | .mod | .and | .or | .rangeExcl | .rangeIncl => false

def isArithmetic : BinOp → Bool
  | .add | .sub | .mul | .div | .mod => true
  | .eq | .ne | .lt | .gt | .le | .ge | .and | .or | .rangeExcl | .rangeIncl => false

/-- An operation of the kind its first operand is of. -/
def ownOp (t rhs : LlvmType) : Instr := if t.isFp then .fpOp t rhs else .intOp t rhs

/-- The end of `gen_binary`. -/
def binaryCode (op : BinOp) (fp : Bool) (l r : LlvmType) : List Instr :=
  let (l', r') := promote fp l r
  if isArithmetic op then [if fp then .fpOp l' r' else .intOp l' r']
  else if isComparison op then [if fp then .fcmp l' r' else .icmp l' r']
  else []

/-- `to_bool`. -/
def testCode (t : LlvmType) : List Instr :=
  if t = .i1 then []
  else if t.isInt then [.icmp t t]
  else if t.isFp then [.fcmp t t]
  else if t = .ptr then [.icmp t t]
  else []

/-- `gen_unary` on an operand. -/
def unaryCode (op : UnOp) (t : LlvmType) : List Instr :=
  match op with
  | .neg | .inc | .dec => [ownOp t t]
  | .not => testCode t ++ [.intOp .i1 .i1]
  | .bitNot => [.intOp t t]
  | .plus => []

/-- The compound assignments of `gen_assign`: the remainder has no floating
form. -/
def compoundCode (op : AssignOp) (cur rhs : LlvmType) : List Instr :=
  let rhs' := if cur.isInt && rhs.isInt then cur else rhs
  match op with
  | .assign => []
  | .mod => [.intOp cur rhs']
  | .add | .sub | .mul | .div => [ownOp cur rhs']

/-- The instructions that come out.  A switch on anything but an integer is made
on an `i64`; a counting loop compares its variable and adds to it. -/
def Site.code : Site → List Instr
  | .binary op fp l r => binaryCode op fp l r
  | .unary op t => unaryCode op t
  | .test t => testCode t
  | .isZero t => [.icmp t .i32]
  | .compound op cur rhs => compoundCode op cur rhs
  | .call params args => [.call params (passArgs params args)]
  | .ret declared src dst value => [.ret declared (value.map (coerce src dst))]
  | .switch on cases => [.switch (if on.isInt then on else .i64) cases]
  | .count t => [.icmp t t, .intOp t t]

/-! ## What the conversions can make fit -/

/-- A number that is a `double` or becomes one. -/
def isDoubled (t : LlvmType) : Bool := t = .double || t.isInt

def isNumber (t : LlvmType) : Bool := t.isFp || t.isInt

/-- An argument that has the type of its parameter or is converted to it. -/
def Arg.Meets (a : Arg) (param : LlvmType) : Prop :=
  a.type = param ∨
    match a.passing with
    | .asIs => False
    | .coerced =>
        param.isInt = true ∧ isNumber a.type = true ∨ param.isFp = true ∧ a.type.isInt = true ∨
          isNumber param = true ∧ a.type = .ptr
    | .stdlib =>
        param = .double ∧ a.type.isInt = true ∨ param.isInt = true ∧ a.type = .double

/-- A returned value that has the declared type, or is a number that `coerce`
turns into it. -/
def ReturnFits (declared : LlvmType) (src dst : TypeId) (t : LlvmType) : Prop :=
  declared ≠ .void ∧
    if src = dst then t = declared
    else if (dst = TID_DOUBLE ∨ dst = TID_REAL) ∧ t.isInt then declared = .double
    else if dst = TID_INT ∧ isNumber t then declared = .i32
    else if dst = TID_LONG ∧ isNumber t then declared = .i64
    else t = declared

/-- The operands of a site are ones that its conversions bring together: a
`float` meets a `float` only, any other number meets any number but a `float`,
pointers are compared with pointers, and a call has an argument for each
parameter. -/
def Site.Fits : Site → Prop
  | .binary op fp l r =>
      isArithmetic op = true ∨ isComparison op = true →
        if fp then l = .float ∧ r = .float ∨ isDoubled l = true ∧ isDoubled r = true
        else l.isInt = true ∧ r.isInt = true ∨ isComparison op = true ∧ l = .ptr ∧ r = .ptr
  | .unary op t =>
      match op with
      | .neg | .inc | .dec => isNumber t = true
      | .bitNot => t.isInt = true
      | .not | .plus => True
  | .test _ => True
  | .isZero t => t = .i32
  | .compound op cur rhs =>
      op = .assign ∨ cur.isInt = true ∧ rhs.isInt = true ∨
        op ≠ .mod ∧ cur.isFp = true ∧ rhs = cur
  | .call params args => List.Forall₂ Arg.Meets args params
  | .ret declared _ _ none => declared = .void
  | .ret declared src dst (some t) => ReturnFits declared src dst t
  | .switch on cases => ∀ t ∈ cases, t = if on.isInt then on else .i64
  | .count t => t.isInt = true

theorem promote_fp_iff (l r : LlvmType) :
    ((promote true l r).1 = (promote true l r).2 ∧ (promote true l r).1.isFp = true) ↔
      (l = .float ∧ r = .float ∨ isDoubled l = true ∧ isDoubled r = true) := by
  cases l <;> cases r <;> decide

theorem promote_int_iff (l r : LlvmType) :
    ((promote false l r).1 = (promote false l r).2 ∧ (promote false l r).1.isInt = true) ↔
      (l.isInt = true ∧ r.isInt = true) := by
  cases l <;> cases r <;> decide

theorem promote_ptr_iff (l r : LlvmType) :
    ((promote false l r).1 = (promote false l r).2 ∧ (promote false l r).1 = .ptr) ↔
      (l = .ptr ∧ r = .ptr) := by
  cases l <;> cases r <;> decide

theorem wellTyped_binary_iff (op : BinOp) (fp : Bool) (l r : LlvmType) :
    (∀ i ∈ binaryCode op fp l r, i.WellTyped) ↔ (Site.binary op fp l r).Fits := by
  have floating := promote_fp_iff l r
  have integers := promote_int_iff l r
  have pointers := promote_ptr_iff l r
  by_cases computes : isArithmetic op = true
  · have noComparison : isComparison op = false := by cases op <;> first | rfl | cases computes
    cases fp with
    | true => simpa [binaryCode, Site.Fits, computes, Instr.WellTyped] using floating
    | false => simpa [binaryCode, Site.Fits, computes, noComparison, Instr.WellTyped] using integers
  · by_cases compares : isComparison op = true
    · cases fp with
      | true => simpa [binaryCode, Site.Fits, computes, compares, Instr.WellTyped] using floating
      | false =>
          simp only [binaryCode, Site.Fits, computes, compares, Instr.WellTyped,
            List.mem_singleton, forall_eq, Bool.false_eq_true, if_false, if_true, or_true,
            true_and, forall_const]
          rw [and_or_left, integers, pointers]
    · simp [binaryCode, Site.Fits, computes, compares]

theorem wellTyped_test (t : LlvmType) : ∀ i ∈ testCode t, i.WellTyped := by
  cases t <;> simp [testCode, Instr.WellTyped, LlvmType.isInt, LlvmType.isFp]

theorem wellTyped_ownOp_iff (t rhs : LlvmType) :
    (ownOp t rhs).WellTyped ↔ rhs = t ∧ isNumber t = true := by
  cases t <;> simp [ownOp, Instr.WellTyped, isNumber, LlvmType.isInt, LlvmType.isFp, eq_comm]

theorem wellTyped_unary_iff (op : UnOp) (t : LlvmType) :
    (∀ i ∈ unaryCode op t, i.WellTyped) ↔ (Site.unary op t).Fits := by
  cases op with
  | neg | inc | dec => simp [unaryCode, Site.Fits, wellTyped_ownOp_iff]
  | not =>
      simp only [unaryCode, Site.Fits, iff_true, List.mem_append, List.mem_singleton]
      rintro i (inTest | rfl)
      · exact wellTyped_test t i inTest
      · exact ⟨rfl, rfl⟩
  | bitNot => simp [unaryCode, Site.Fits, Instr.WellTyped]
  | plus => simp [unaryCode, Site.Fits]

theorem wellTyped_compound_iff (op : AssignOp) (cur rhs : LlvmType) :
    (∀ i ∈ compoundCode op cur rhs, i.WellTyped) ↔ (Site.compound op cur rhs).Fits := by
  cases op with
  | assign => simp [compoundCode, Site.Fits]
  | mod =>
      simp only [compoundCode, Site.Fits, List.mem_singleton, forall_eq, Instr.WellTyped]
      cases cur <;> cases rhs <;> decide
  | add | sub | mul | div =>
      simp only [compoundCode, Site.Fits, List.mem_singleton, forall_eq, wellTyped_ownOp_iff]
      cases cur <;> cases rhs <;> decide

theorem convert_eq_iff (a : Arg) (param : LlvmType) :
    a.passing.convert a.type param = param ↔ a.Meets param := by
  obtain ⟨t, passing⟩ := a
  cases passing with
  | asIs => simp [Passing.convert, Arg.Meets]
  | coerced =>
      cases t <;> cases param <;>
        simp [Passing.convert, Arg.Meets, coerceToLlvmType, unboxFromPtr, isNumber,
          LlvmType.isInt, LlvmType.isFp]
  | stdlib =>
      cases t <;> cases param <;>
        simp [Passing.convert, Arg.Meets, LlvmType.isInt]

theorem passArgs_eq_iff : ∀ (params : List LlvmType) (args : List Arg),
    passArgs params args = params ↔ List.Forall₂ Arg.Meets args params
  | [], [] => by simp [passArgs]
  | [], _ :: _ => iff_of_false (by simp [passArgs]) (by rintro ⟨⟩)
  | _ :: _, [] => iff_of_false (by simp [passArgs]) (by rintro ⟨⟩)
  | p :: ps, a :: as => by
      simp [passArgs, convert_eq_iff, passArgs_eq_iff ps as]

theorem coerce_of_ne {src dst : TypeId} (differ : src ≠ dst) (t : LlvmType) :
    coerce src dst t =
      if (dst = TID_DOUBLE ∨ dst = TID_REAL) ∧ t.isInt then .double
      else if dst = TID_INT ∧ isNumber t then .i32
      else if dst = TID_LONG ∧ isNumber t then .i64
      else t := by
  unfold coerce
  by_cases isUnknown : dst = TID_UNKNOWN
  · rw [if_pos (.inr isUnknown)]
    subst isUnknown
    cases t <;> decide
  · rw [if_neg (by simp [differ, isUnknown])]
    by_cases builtin : dst = TID_DOUBLE ∨ dst = TID_REAL ∨ dst = TID_INT ∨ dst = TID_LONG ∨
        dst = TID_BOOL
    · rcases builtin with rfl | rfl | rfl | rfl | rfl <;> cases t <;> decide
    · obtain ⟨notDouble, notReal, notInt, notLong, notBool⟩ := by simpa only [not_or] using builtin
      simp [notDouble, notReal, notInt, notLong, notBool, isIntegral]

theorem coerce_eq_iff (declared : LlvmType) (src dst : TypeId) (t : LlvmType) :
    (declared ≠ .void ∧ coerce src dst t = declared) ↔ ReturnFits declared src dst t := by
  unfold ReturnFits
  by_cases same : src = dst
  · simp [coerce, same]
  · rw [coerce_of_ne same, if_neg same]
    split_ifs <;> simp only [eq_comm]

/-- The instructions of a site are well typed exactly if its operands are ones
that its conversions bring together. -/
theorem wellTyped_code_iff (s : Site) : (∀ i ∈ s.code, i.WellTyped) ↔ s.Fits := by
  cases s with
  | binary op fp l r => exact wellTyped_binary_iff op fp l r
  | unary op t => exact wellTyped_unary_iff op t
  | test t => simpa [Site.code, Site.Fits] using wellTyped_test t
  | isZero t => cases t <;> simp [Site.code, Site.Fits, Instr.WellTyped, LlvmType.isInt]
  | compound op cur rhs => exact wellTyped_compound_iff op cur rhs
  | call params args =>
      simpa [Site.code, Site.Fits, Instr.WellTyped] using passArgs_eq_iff params args
  | ret declared src dst value =>
      cases value with
      | none => simp [Site.code, Site.Fits, Instr.WellTyped]
      | some t =>
          simpa [Site.code, Site.Fits, Instr.WellTyped] using coerce_eq_iff declared src dst t
  | switch on cases =>
      have onInteger : (if on.isInt then on else .i64).isInt = true := by cases on <;> rfl
      simp [Site.code, Site.Fits, Instr.WellTyped, onInteger]
  | count t => cases t <;> simp [Site.code, Site.Fits, Instr.WellTyped, LlvmType.isInt]

end Typing

end Dux.Codegen
