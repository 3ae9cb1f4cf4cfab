import Dux.Types

/-!
# Type lowering

`lower_type` and `lower_type_expr` (`src/codegen/codegen.cpp`): the LLVM type of
the values of a type.
-/

namespace Dux.Codegen

open TypeRegistry

/-- The LLVM types that lowering produces; pointers are opaque. -/
inductive LlvmType
  | void | i1 | i32 | i64 | float | double | ptr
  deriving DecidableEq, Repr

/-- The default case of `lower_type`: an enum is a number unless a variant has a
payload, everything else lives on the heap. -/
def lowerUserType (types : TypeRegistry) (tid : TypeId) : LlvmType :=
  if 0 ≤ tid ∧ (types.info tid).kind = .enum then
    if (types.info tid).variants.any fun v => !v.payload.isEmpty then .ptr else .i32
  else .ptr

def lowerType (types : TypeRegistry) (tid : TypeId) : LlvmType :=
  if tid = TID_VOID then .void
  else if tid = TID_BOOL then .i1
  else if tid = TID_INT then .i32
  else if tid = TID_LONG then .i64
  else if tid = TID_REAL then .float
  else if tid = TID_DOUBLE then .double
  else if tid = TID_STR ∨ tid = TID_LIST ∨ tid = TID_DICT ∨ tid = TID_TUPLE ∨
      tid = TID_OBJECT ∨ tid = TID_NULL then .ptr
  else lowerUserType types tid

/-- `lower_type_expr`: an unknown type is an `object`. -/
def lowerTypeExpr (types : TypeRegistry) (te : TypeExpr) : LlvmType :=
  let tid := types.fromTypeExpr te
  lowerType types (if tid = TID_UNKNOWN then TID_OBJECT else tid)

end Dux.Codegen
