import Dux.Ast
import Mathlib.Data.List.Basic

/-!
# The type registry

`sema::TypeRegistry` (`src/sema/types.cpp`): a table of type descriptions, the
twelve built-in ones first, addressed by bare indices.  The C++ class keeps a
second map from names to indices; it holds exactly the names of the table, so
`byName` computes it.

Walking a chain of parent links need not end.  The walks are given one step
more than the table has entries and return `none` when that does not suffice,
which happens exactly when the C++ loop runs forever.
-/

namespace Dux

/-- `sema::TypeKind`. -/
inductive TypeKind
  | unknown | void | bool | int | long | real | double
  | str | list | dict | tuple | object | null
  | cls | interface | function | enum
  deriving DecidableEq, Repr

/-- `sema::EnumVariantInfo`. -/
structure EnumVariantInfo where
  name : String
  tag : Nat
  payload : List TypeId

/-- `sema::TypeInfo`. -/
structure TypeInfo where
  kind : TypeKind := .unknown
  name : String := ""
  parent : TypeId := -1
  ifaces : List TypeId := []
  returnType : TypeId := -1
  paramTypes : List TypeId := []
  variants : List EnumVariantInfo := []

/-- `sema::TypeRegistry`. -/
structure TypeRegistry where
  types : List TypeInfo

namespace TypeRegistry

abbrev TID_UNKNOWN : TypeId := -1
abbrev TID_VOID : TypeId := 0
abbrev TID_BOOL : TypeId := 1
abbrev TID_INT : TypeId := 2
abbrev TID_LONG : TypeId := 3
abbrev TID_REAL : TypeId := 4
abbrev TID_DOUBLE : TypeId := 5
abbrev TID_STR : TypeId := 6
abbrev TID_LIST : TypeId := 7
abbrev TID_DICT : TypeId := 8
abbrev TID_TUPLE : TypeId := 9
abbrev TID_OBJECT : TypeId := 10
abbrev TID_NULL : TypeId := 11

/-- The constructor `TypeRegistry()`: the built-in types at their fixed ids. -/
def builtins : List TypeInfo :=
  [ { kind := .void, name := "void" },
    { kind := .bool, name := "bool", parent := TID_OBJECT },
    { kind := .int, name := "int", parent := TID_OBJECT },
    { kind := .long, name := "long", parent := TID_OBJECT },
    { kind := .real, name := "real", parent := TID_OBJECT },
    { kind := .double, name := "double", parent := TID_OBJECT },
    { kind := .str, name := "str", parent := TID_OBJECT },
    { kind := .list, name := "list", parent := TID_OBJECT },
    { kind := .dict, name := "dict", parent := TID_OBJECT },
    { kind := .tuple, name := "tuple", parent := TID_OBJECT },
    { kind := .object, name := "object" },
    { kind := .null, name := "null" } ]

def initial : TypeRegistry := ⟨builtins⟩

/-- The map `by_name_`. -/
def byName (r : TypeRegistry) (name : String) : Option Nat :=
  r.types.findIdx? (·.name = name)

/-- `info`: out-of-range ids fall back to the description of `void`. -/
def info (r : TypeRegistry) (id : TypeId) : TypeInfo :=
  if id < 0 then r.types.headD {} else r.types.getD id.toNat (r.types.headD {})

/-- Write access through the non-const `info`. -/
def modifyInfo (r : TypeRegistry) (id : TypeId) (f : TypeInfo → TypeInfo) : TypeRegistry :=
  if id < 0 ∨ r.types.length ≤ id.toNat then ⟨r.types.modify 0 f⟩
  else ⟨r.types.modify id.toNat f⟩

/-- `intern`: the id of a name, adding a description when it is new. -/
def intern (r : TypeRegistry) (name : String) (kind : TypeKind) : TypeId × TypeRegistry :=
  match r.byName name with
  | some i => (i, r)
  | none =>
      ((r.types.length : TypeId),
        ⟨r.types ++ [{ kind := kind, name := name, parent := TID_OBJECT }]⟩)

def fromName (r : TypeRegistry) (name : String) : TypeId :=
  if name = "ptr" then TID_OBJECT
  else match r.byName name with
    | some i => i
    | none => TID_UNKNOWN

def fromTypeExpr (r : TypeRegistry) (te : TypeExpr) : TypeId := r.fromName te.name

def nameOf (r : TypeRegistry) (id : TypeId) : String :=
  if id = TID_UNKNOWN then "<unknown>"
  else if id < 0 then "<invalid>"
  else match r.types[id.toNat]? with
    | some ti => ti.name
    | none => "<invalid>"

def isNumeric (id : TypeId) : Bool :=
  id = TID_INT ∨ id = TID_LONG ∨ id = TID_REAL ∨ id = TID_DOUBLE ∨ id = TID_BOOL

def isIntegral (id : TypeId) : Bool :=
  id = TID_INT ∨ id = TID_LONG ∨ id = TID_BOOL

/-- The loop of `is_subtype` from `cur` on. -/
def walkParents (r : TypeRegistry) (ancestor : TypeId) : Nat → TypeId → Option Bool
  | 0, _ => none
  | n + 1, cur =>
      if cur = TID_UNKNOWN ∨ cur < 0 then some false
      else if cur = ancestor then some true
      else if (r.info cur).parent = cur then some false
      else r.walkParents ancestor n (r.info cur).parent

def isSubtype (r : TypeRegistry) (child ancestor : TypeId) : Option Bool :=
  if child = ancestor then some true
  else if ancestor = TID_OBJECT then some true
  else if child = TID_NULL then some true
  else if child = TID_UNKNOWN ∨ ancestor = TID_UNKNOWN then some true
  else r.walkParents ancestor (r.types.length + 1) child

def assignable (r : TypeRegistry) (src dst : TypeId) : Option Bool :=
  let heapKind := (r.info dst).kind = .cls ∨ (r.info dst).kind = .interface
  if src = TID_UNKNOWN ∨ dst = TID_UNKNOWN then some true
  else if src = dst then some true
  else if dst = TID_OBJECT then some true
  else if src = TID_OBJECT ∧
      (dst = TID_STR ∨ dst = TID_LIST ∨ dst = TID_DICT ∨ heapKind) then some true
  else if src = TID_NULL then
    some (heapKind ∨ dst = TID_LIST ∨ dst = TID_DICT ∨ dst = TID_STR)
  else if isNumeric src ∧ isNumeric dst then some true
  else if src = TID_LIST ∧ dst = TID_TUPLE then some true
  else if 0 ≤ src ∧ (r.info src).kind = .enum ∧ (dst = TID_INT ∨ dst = TID_LONG) then some true
  else if 0 ≤ dst ∧ (r.info dst).kind = .enum ∧ (src = TID_INT ∨ src = TID_LONG) then some true
  else r.isSubtype src dst

/-- The promotion rank of `unify`. -/
def rank (t : TypeId) : Nat :=
  if t = TID_BOOL then 1
  else if t = TID_INT then 2
  else if t = TID_LONG then 3
  else if t = TID_REAL then 4
  else if t = TID_DOUBLE then 5
  else 0

def unify (r : TypeRegistry) (a b : TypeId) : Option TypeId :=
  if a = TID_UNKNOWN then some b
  else if b = TID_UNKNOWN then some a
  else if a = b then some a
  else if a = TID_NULL then some b
  else if b = TID_NULL then some a
  else if 0 < rank a ∧ 0 < rank b then some (if rank b ≤ rank a then a else b)
  else do
    if ← r.isSubtype a b then return b
    if ← r.isSubtype b a then return a
    return TID_OBJECT

def setParent (r : TypeRegistry) (child parent : TypeId) : TypeRegistry :=
  if 0 ≤ child then ⟨r.types.modify child.toNat fun ti => { ti with parent := parent }⟩ else r

def addInterface (r : TypeRegistry) (cls iface : TypeId) : TypeRegistry :=
  if 0 ≤ cls then
    ⟨r.types.modify cls.toNat fun ti => { ti with ifaces := ti.ifaces ++ [iface] }⟩
  else r

end TypeRegistry

end Dux
