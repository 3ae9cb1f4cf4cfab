import Dux.Codegen.Lowering
import Dux.Codegen.TypeIds

/-!
# Boxing values into pointers

An argument or a result of an asynchronous function travels as a `ptr`.  Four
places of `src/codegen/codegen.cpp` pack and unpack it: the launcher and the
thunk of `gen_async_func`, `gen_return` inside the body of an asynchronous
function, and `gen_await`.  The casts are those of LLVM; `none` stands for an
operand that the module verifier rejects.
-/

namespace Dux.Codegen

open TypeRegistry

/-- A value of LLVM by its bits. -/
inductive LlvmValue
  | void
  | i1 (bits : BitVec 1)
  | i32 (bits : BitVec 32)
  | i64 (bits : BitVec 64)
  | float (bits : BitVec 32)
  | double (bits : BitVec 64)
  | ptr (bits : BitVec 64)
  deriving DecidableEq, Repr

/-- `getType`. -/
def LlvmValue.type : LlvmValue → LlvmType
  | .void => .void
  | .i1 _ => .i1
  | .i32 _ => .i32
  | .i64 _ => .i64
  | .float _ => .float
  | .double _ => .double
  | .ptr _ => .ptr

/-- `getNullValue`. -/
def LlvmType.null : LlvmType → LlvmValue
  | .void => .void
  | .i1 => .i1 0
  | .i32 => .i32 0
  | .i64 => .i64 0
  | .float => .float 0
  | .double => .double 0
  | .ptr => .ptr 0

@[simp]
theorem type_null (t : LlvmType) : t.null.type = t := by
  cases t <;> rfl

/-! ## Casts -/

/-- `CreateZExt` to `i64`; a value that has the type already is left alone. -/
def zextToI64 : LlvmValue → Option LlvmValue
  | .i1 b => some (.i64 (b.setWidth 64))
  | .i32 b => some (.i64 (b.setWidth 64))
  | .i64 b => some (.i64 b)
  | .void | .float _ | .double _ | .ptr _ => none

/-- `CreateTrunc` of an `i64`. -/
def truncI64 (t : LlvmType) : LlvmValue → Option LlvmValue
  | .i64 b =>
      match t with
      | .i1 => some (.i1 (b.setWidth 1))
      | .i32 => some (.i32 (b.setWidth 32))
      | .i64 => some (.i64 b)
      | .void | .float | .double | .ptr => none
  | .void | .i1 _ | .i32 _ | .float _ | .double _ | .ptr _ => none

/-- `CreateBitCast` to `i64`, between types of one size only. -/
def bitsToI64 : LlvmValue → Option LlvmValue
  | .double b => some (.i64 b)
  | .i64 b => some (.i64 b)
  | .void | .i1 _ | .i32 _ | .float _ | .ptr _ => none

/-- `CreateBitCast` to `double`. -/
def bitsToDouble : LlvmValue → Option LlvmValue
  | .i64 b => some (.double b)
  | .double b => some (.double b)
  | .void | .i1 _ | .i32 _ | .float _ | .ptr _ => none

/-- `CreateIntToPtr` of an `i64`. -/
def intToPtr : LlvmValue → Option LlvmValue
  | .i64 b => some (.ptr b)
  | .void | .i1 _ | .i32 _ | .float _ | .double _ | .ptr _ => none

/-- `CreatePtrToInt` to `i64`. -/
def ptrToI64 : LlvmValue → Option LlvmValue
  | .ptr b => some (.i64 b)
  | .void | .i1 _ | .i32 _ | .i64 _ | .float _ | .double _ => none

/-! ## The four places -/

/-- How the launcher boxes an argument. -/
def boxParam (v : LlvmValue) : Option LlvmValue :=
  match v.type with
  | .ptr => some v
  | .i1 | .i32 | .i64 => (zextToI64 v).bind intToPtr
  | .double => (bitsToI64 v).bind intToPtr
  | .void | .float => some (.ptr 0)

/-- How the thunk unboxes an argument for a parameter of that type. -/
def unboxParam (t : LlvmType) (raw : LlvmValue) : Option LlvmValue :=
  match t with
  | .ptr => some raw
  | .i1 | .i32 | .i64 => (ptrToI64 raw).bind (truncI64 t)
  | .double => (ptrToI64 raw).bind bitsToDouble
  | .void | .float => some raw

/-- How `gen_return` boxes the result of an asynchronous function. -/
def boxResult : Option LlvmValue → Option LlvmValue
  | some v =>
      match v.type with
      | .ptr => some v
      | .i1 | .i32 | .i64 => (zextToI64 v).bind intToPtr
      | .float | .double => (bitsToI64 v).bind intToPtr
      | .void => some (.ptr 0)
  | none => some (.ptr 0)

/-- How `gen_await` unboxes it for an expression of that type. -/
def unboxResult (expected : TypeId) (raw : LlvmValue) : Option LlvmValue :=
  if expected ≤ 0 ∨ expected = TID_VOID ∨ expected = TID_OBJECT then some raw
  else if expected = TID_STR then some raw
  else if expected = TID_INT then (ptrToI64 raw).bind (truncI64 .i32)
  else if expected = TID_LONG then ptrToI64 raw
  else if expected = TID_BOOL then (ptrToI64 raw).bind (truncI64 .i1)
  else if expected = TID_DOUBLE then (ptrToI64 raw).bind bitsToDouble
  else some raw

/-! ## Round trips -/

theorem unboxParam_boxParam_iff (v : LlvmValue) :
    (boxParam v).bind (unboxParam v.type) = some v ↔ v.type ≠ .float ∧ v.type ≠ .void := by
  cases v with
  | i1 b => simp [boxParam, unboxParam, zextToI64, intToPtr, ptrToI64, truncI64, LlvmValue.type]
  | i32 b => simp [boxParam, unboxParam, zextToI64, intToPtr, ptrToI64, truncI64, LlvmValue.type]
  | i64 b => simp [boxParam, unboxParam, zextToI64, intToPtr, ptrToI64, truncI64, LlvmValue.type]
  | double b =>
      simp [boxParam, unboxParam, bitsToI64, intToPtr, ptrToI64, bitsToDouble, LlvmValue.type]
  | ptr b => simp [boxParam, unboxParam, LlvmValue.type]
  | float b => simp [boxParam, unboxParam, LlvmValue.type]
  | void => simp [boxParam, unboxParam, LlvmValue.type]

/-- The LLVM type of what `gen_await` gives for an expression of that type. -/
def unboxedType (expected : TypeId) : LlvmType :=
  if expected = TID_INT then .i32
  else if expected = TID_LONG then .i64
  else if expected = TID_BOOL then .i1
  else if expected = TID_DOUBLE then .double
  else .ptr

theorem unboxResult_eq (expected : TypeId) (b : BitVec 64) :
    unboxResult expected (.ptr b) = unboxParam (unboxedType expected) (.ptr b) := by
  unfold unboxResult unboxedType
  by_cases isInt : expected = TID_INT
  · subst isInt
    rfl
  by_cases isLong : expected = TID_LONG
  · subst isLong
    rfl
  by_cases isBool : expected = TID_BOOL
  · subst isBool
    rfl
  by_cases isDouble : expected = TID_DOUBLE
  · subst isDouble
    rfl
  simp only [isInt, isLong, isBool, isDouble, if_false]
  split
  · rfl
  · split <;> rfl

theorem unboxedType_ne (expected : TypeId) :
    unboxedType expected ≠ .float ∧ unboxedType expected ≠ .void := by
  unfold unboxedType
  split_ifs <;> simp

theorem type_of_unboxParam {t : LlvmType} {b : BitVec 64} {v : LlvmValue} (notFloat : t ≠ .float)
    (notVoid : t ≠ .void) (unboxes : unboxParam t (.ptr b) = some v) : v.type = t := by
  cases t with
  | void => exact absurd rfl notVoid
  | float => exact absurd rfl notFloat
  | i1 | i32 | i64 | double | ptr =>
      cases unboxes
      rfl

theorem boxResult_eq_boxParam {v : LlvmValue} (notFloat : v.type ≠ .float) :
    boxResult (some v) = boxParam v := by
  cases v with
  | float b => exact absurd rfl notFloat
  | void | i1 | i32 | i64 | double | ptr => rfl

theorem exists_ptr_of_boxResult {v : Option LlvmValue} {raw : LlvmValue}
    (boxes : boxResult v = some raw) : ∃ b, raw = .ptr b := by
  cases v with
  | none =>
      cases boxes
      exact ⟨_, rfl⟩
  | some v =>
      cases v with
      | float b => cases boxes
      | void | i1 | i32 | i64 | double | ptr =>
          cases boxes
          exact ⟨_, rfl⟩

/-- A result survives the future exactly if `gen_await` asks for its type. -/
theorem unboxResult_boxResult_iff (expected : TypeId) (v : LlvmValue) :
    (boxResult (some v)).bind (unboxResult expected) = some v ↔ v.type = unboxedType expected := by
  obtain ⟨notFloat, notVoid⟩ := unboxedType_ne expected
  constructor
  · intro survives
    obtain ⟨raw, boxes, unboxes⟩ := Option.bind_eq_some_iff.1 survives
    obtain ⟨b, rfl⟩ := exists_ptr_of_boxResult boxes
    rw [unboxResult_eq] at unboxes
    exact type_of_unboxParam notFloat notVoid unboxes
  · intro asked
    have survives := (unboxParam_boxParam_iff v).2 (asked ▸ ⟨notFloat, notVoid⟩)
    rw [boxResult_eq_boxParam (asked ▸ notFloat)]
    obtain ⟨raw, boxes, unboxes⟩ := Option.bind_eq_some_iff.1 survives
    rw [boxes]
    rw [← boxResult_eq_boxParam (asked ▸ notFloat)] at boxes
    obtain ⟨b, rfl⟩ := exists_ptr_of_boxResult boxes
    rw [Option.bind_some, unboxResult_eq, ← asked]
    exact unboxes

theorem unboxResult_boxResult_none (expected : TypeId) :
    (boxResult none).bind (unboxResult expected) = some (unboxedType expected).null := by
  rw [boxResult, Option.bind_some, unboxResult_eq]
  generalize unboxed : unboxedType expected = t
  obtain ⟨notFloat, notVoid⟩ := unboxedType_ne expected
  cases t with
  | void => exact absurd unboxed notVoid
  | float => exact absurd unboxed notFloat
  | i1 | i32 | i64 | double | ptr => rfl

/-! ## What the two registries agree on -/

theorem unboxedType_of_user {t : TypeId} (user : (builtins.length : TypeId) ≤ t) :
    unboxedType t = .ptr := by
  have other : ∀ k : TypeId, k < builtins.length → t ≠ k := by
    rintro k below rfl
    exact absurd user (Int.not_le.2 below)
  unfold unboxedType
  rw [if_neg (other _ (by decide)), if_neg (other _ (by decide)), if_neg (other _ (by decide)),
    if_neg (other _ (by decide))]

theorem unboxedType_fromName {r : TypeRegistry} (start : r.HasBuiltins) (name : String) :
    unboxedType (r.fromName name) = unboxedType (TypeRegistry.initial.fromName name) := by
  rcases TypeRegistry.fromName_of_hasBuiltins start name with same | ⟨unknown, user⟩
  · rw [same]
  · rw [unknown, unboxedType_of_user user]
    rfl

end Dux.Codegen
