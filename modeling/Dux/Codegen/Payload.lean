import Dux.Codegen.Boxing
import Dux.Codegen.Match
import Mathlib.Data.List.Forall2

/-!
# Enum payloads

A variant with a payload is a block of memory: the tag, then one pointer for each
payload field of the largest variant.  `gen_enum_ctor` (`src/codegen/codegen.cpp`)
packs its arguments into these pointers by the types that they have, `gen_match`
unpacks them by the types that the variant declares.  Analysis looks neither at
the arguments of a constructor nor at the number of bindings of an arm.
-/

namespace Dux.Codegen.Payload

open TypeRegistry Match

/-! ## Numbers -/

/-- A floating-point format by the widths of its fields. -/
structure FloatFormat where
  exponent : Nat
  fraction : Nat

/-- The number with these bits; infinities and what is not a number have none. -/
def FloatFormat.decode (f : FloatFormat) (bits : Nat) : Option Dyadic :=
  let fraction := bits % 2 ^ f.fraction
  let exponent := bits / 2 ^ f.fraction % 2 ^ f.exponent
  let magnitude : Int := if exponent = 0 then fraction else 2 ^ f.fraction + fraction
  let signed := if bits / 2 ^ (f.fraction + f.exponent) % 2 = 1 then -magnitude else magnitude
  if exponent = 2 ^ f.exponent - 1 then none
  else some (.ofIntWithPrec signed
    ((2 ^ (f.exponent - 1) - 1 + f.fraction : Nat) - (max exponent 1 : Nat)))

/-- `float` and `double` of LLVM. -/
def single : FloatFormat := ⟨8, 23⟩
def double : FloatFormat := ⟨11, 52⟩

/-- The integer that a value is, if it is one. -/
def integer : LlvmValue → Option Int
  | .i1 b => some b.toNat
  | .i32 b => some b.toInt
  | .i64 b => some b.toInt
  | .void | .float _ | .double _ | .ptr _ => none

def number : LlvmValue → Option Dyadic
  | .float b => single.decode b.toNat
  | .double b => double.decode b.toNat
  | v => (integer v).map Dyadic.ofInt

def isInteger : LlvmType → Bool
  | .i1 | .i32 | .i64 => true
  | .void | .float | .double | .ptr => false

def isNumber : LlvmType → Bool
  | .i1 | .i32 | .i64 | .float | .double => true
  | .void | .ptr => false

/-- An integer cut off to the width of a type. -/
def ofInteger (n : Int) : LlvmType → Option LlvmValue
  | .i1 => some (.i1 (BitVec.ofInt 1 n))
  | .i32 => some (.i32 (BitVec.ofInt 32 n))
  | .i64 => some (.i64 (BitVec.ofInt 64 n))
  | .void | .float | .double | .ptr => none

/-! ## Conversions -/

/-- The types whose values are pointers to anything, a number packed into a pointer
included.  What lowering knows nothing about is one of them. -/
def IsObject (tid : TypeId) : Prop := tid = TID_OBJECT ∨ tid = TID_UNKNOWN

instance (tid : TypeId) : Decidable (IsObject tid) := inferInstanceAs (Decidable (_ ∨ _))

/-- `box_to_ptr`, the bits of the pointer: the address of an object, or the bits of
a number behind zeros. -/
def boxToPtr : LlvmValue → BitVec 64
  | .ptr b => b
  | .float b => b.setWidth 64
  | .i1 b => b.setWidth 64
  | .i32 b => b.setWidth 64
  | .i64 b => b
  | .double b => b
  | .void => 0

def unboxFromPtr (target : LlvmType) (raw : BitVec 64) : LlvmValue :=
  match target with
  | .ptr => .ptr raw
  | .float => .float (raw.setWidth 32)
  | .i1 => .i1 (raw.setWidth 1)
  | .i32 => .i32 (raw.setWidth 32)
  | .i64 => .i64 raw
  | .double => .double raw
  | .void => .ptr raw

/-- The values that a value of one type may become at another type: it is kept if
the representation is the same; an integer is cut off to the width of an integer; a
number that the other type has is kept; and a value becomes an `object` by packing
it, what of unknown type is a packed value that is unpacked. -/
inductive Converts (types : TypeRegistry) (src dst : TypeId) : LlvmValue → LlvmValue → Prop
  | same {v : LlvmValue} (type : v.type = lowerType types dst) (notVoid : v.type ≠ .void) :
      Converts types src dst v v
  | integer {v w : LlvmValue} {n : Int} (isInteger : integer v = some n)
      (cutOff : ofInteger n (lowerType types dst) = some w) : Converts types src dst v w
  | number {v w : LlvmValue} (type : w.type = lowerType types dst) (differs : v.type ≠ w.type)
      (source : isNumber v.type = true) (target : isNumber w.type = true)
      (notIntegers : ¬(isInteger v.type = true ∧ isInteger w.type = true))
      (kept : ∀ u : LlvmValue, u.type = w.type → number u = number v → number w = number v) :
      Converts types src dst v w
  | packed {v : LlvmValue} (isObject : IsObject dst) (notVoid : v.type ≠ .void) :
      Converts types src dst v (.ptr (boxToPtr v))
  | unpacked {raw : BitVec 64} (unknown : src = TID_UNKNOWN)
      (notVoid : lowerType types dst ≠ .void) :
      Converts types src dst (.ptr raw) (unboxFromPtr (lowerType types dst) raw)

/-! ## Construction and destructuring -/

/-- An argument: its value, and the type that it has. -/
structure Arg where
  tid : TypeId
  value : LlvmValue

def Arg.Typed (types : TypeRegistry) (a : Arg) : Prop := a.value.type = lowerType types a.tid

/-- A variant in memory.  A field that was not written is `none`. -/
structure Cell where
  tag : Nat
  fields : List (Option (BitVec 64))

def enumMaxPayloadArity (ti : TypeInfo) : Nat :=
  ti.variants.foldl (fun arity v => max arity v.payload.length) 0

def genEnumCtor (ti : TypeInfo) (vi : EnumVariantInfo) (args : List LlvmValue) : Cell where
  tag := vi.tag
  fields := (List.range (enumMaxPayloadArity ti)).map fun i =>
    if i < vi.payload.length then args[i]?.map boxToPtr else none

/-- What the code of an arm finds for a binding. -/
inductive Found
  | value (v : LlvmValue)
  | unwritten
  | outside
  deriving DecidableEq, Repr

def fieldType (types : TypeRegistry) (vi : EnumVariantInfo) (i : Nat) : LlvmType :=
  match vi.payload[i]? with
  | some tid => lowerType types tid
  | none => .ptr

/-- The load of `gen_match` for a binding. -/
def loadBinding (types : TypeRegistry) (vi : EnumVariantInfo) (cell : Cell) (i : Nat) : Found :=
  match cell.fields[i]? with
  | none => .outside
  | some none => .unwritten
  | some (some raw) => .value (unboxFromPtr (fieldType types vi i) raw)

/-- Each of the first `k` bindings of an arm reads a field that was written, and gets
the argument converted to the type that is declared for it. -/
def RoundTrips (types : TypeRegistry) (ti : TypeInfo) (vi : EnumVariantInfo) (args : List Arg)
    (k : Nat) : Prop :=
  ∀ i < k, ∃ a ∈ args[i]?, ∃ dst ∈ vi.payload[i]?, ∃ v,
    loadBinding types vi (genEnumCtor ti vi (args.map Arg.value)) i = .value v ∧
      types.assignable a.tid dst = some true ∧ Converts types a.tid dst a.value v

/-- Representations that packing and unpacking convert: the same one, and integers
except for `int` to `long`, where the sign is lost. -/
def Kept (a b : LlvmType) : Prop :=
  a = b ∨ isInteger a = true ∧ isInteger b = true ∧ ¬(a = .i32 ∧ b = .i64)

instance (a b : LlvmType) : Decidable (Kept a b) := inferInstanceAs (Decidable (_ ∨ _))

/-- The pairs of types between which every value is converted. -/
def Preserved (types : TypeRegistry) (src dst : TypeId) : Prop :=
  types.assignable src dst = some true ∧ lowerType types src ≠ .void ∧
    lowerType types dst ≠ .void ∧
      (src = TID_UNKNOWN ∨ IsObject dst ∨ Kept (lowerType types src) (lowerType types dst))

/-! ## Single values -/

variable {types : TypeRegistry} {src dst : TypeId}

theorem lowerType_of_isObject (isObject : IsObject dst) : lowerType types dst = .ptr := by
  rcases isObject with rfl | rfl <;> rfl

theorem ofInt_toInt_eq_setWidth {w w' : Nat} (b : BitVec w) (narrower : w' ≤ w) :
    BitVec.ofInt w' b.toInt = b.setWidth w' :=
  BitVec.signExtend_eq_setWidth_of_le b narrower

theorem ofInt_toNat_eq_setWidth {w w' : Nat} (b : BitVec w) :
    BitVec.ofInt w' (b.toNat : Int) = b.setWidth w' := by
  rw [BitVec.ofInt_natCast, BitVec.ofNat_toNat]

/-- An integer survives as far as the width of the target goes, unless the sign would
have to fill it. -/
theorem integer_unboxFromPtr {v : LlvmValue} {target : LlvmType}
    (source : isInteger v.type = true) (isTarget : isInteger target = true)
    (notWidened : ¬(v.type = .i32 ∧ target = .i64)) :
    ∃ n, integer v = some n ∧ ofInteger n target = some (unboxFromPtr target (boxToPtr v)) := by
  cases v with
  | i1 b =>
    refine ⟨b.toNat, rfl, ?_⟩
    cases target with
    | i64 => rw [ofInteger, ofInt_toNat_eq_setWidth, unboxFromPtr, boxToPtr]
    | i1 | i32 =>
      simp only [ofInteger, unboxFromPtr, boxToPtr, ofInt_toNat_eq_setWidth]
      rw [BitVec.setWidth_setWidth_of_le _ (by decide)]
    | _ => cases isTarget
  | i32 b =>
    refine ⟨b.toInt, rfl, ?_⟩
    cases target with
    | i1 | i32 =>
      simp only [ofInteger, unboxFromPtr, boxToPtr]
      rw [ofInt_toInt_eq_setWidth b (by decide), BitVec.setWidth_setWidth_of_le _ (by decide)]
    | i64 => exact absurd ⟨rfl, rfl⟩ notWidened
    | _ => cases isTarget
  | i64 b =>
    refine ⟨b.toInt, rfl, ?_⟩
    cases target with
    | i1 | i32 | i64 =>
      rw [ofInteger, ofInt_toInt_eq_setWidth b (by decide)]
      simp [unboxFromPtr, boxToPtr]
    | _ => cases isTarget
  | _ => cases source

theorem unboxFromPtr_boxToPtr (v : LlvmValue) (notVoid : v.type ≠ .void) :
    unboxFromPtr v.type (boxToPtr v) = v := by
  cases v with
  | void => exact absurd rfl notVoid
  | i1 b | i32 b | float b => simp [boxToPtr, unboxFromPtr, LlvmValue.type]
  | i64 | double | ptr => rfl

theorem converts_unboxFromPtr {a : Arg} (typed : a.Typed types)
    (preserved : Preserved types a.tid dst) :
    Converts types a.tid dst a.value
      (unboxFromPtr (lowerType types dst) (boxToPtr a.value)) := by
  obtain ⟨-, notVoid, notVoid', unknown | isObject | same | ⟨source, target, notWidened⟩⟩ :=
    preserved
  · have isPtr : a.value.type = .ptr := typed.trans (lowerType_of_isObject (.inr unknown))
    obtain ⟨tid, value⟩ := a
    cases value with
    | ptr raw => exact .unpacked unknown notVoid'
    | _ => cases isPtr
  · rw [lowerType_of_isObject isObject]
    exact .packed isObject (typed ▸ notVoid)
  · have type : a.value.type = lowerType types dst := typed.trans same
    rw [← type, unboxFromPtr_boxToPtr _ (type ▸ notVoid')]
    exact .same type (type ▸ notVoid')
  · obtain ⟨n, isInteger, cutOff⟩ := integer_unboxFromPtr (typed ▸ source) target
      (typed ▸ notWidened)
    exact .integer isInteger cutOff

/-! ## Values that are lost -/

/-- The number one, and the null pointer. -/
def one : LlvmType → LlvmValue
  | .i1 => .i1 1
  | .i32 => .i32 1
  | .i64 => .i64 1
  | .float => .float 0x3F800000
  | .double => .double 0x3FF0000000000000
  | .ptr => .ptr 0
  | .void => .void

/-- A value of type `a` that does not get to type `b`. -/
def sample (a b : LlvmType) : LlvmValue := if a = .i32 ∧ b = .i64 then .i32 (-1) else one a

@[simp]
theorem type_one (t : LlvmType) : (one t).type = t := by
  cases t <;> rfl

@[simp]
theorem type_sample (a b : LlvmType) : (sample a b).type = a := by
  unfold sample
  split_ifs with widened
  · exact widened.1.symm
  · exact type_one a

theorem number_one {t : LlvmType} (isNumber : isNumber t = true) :
    number (one t) = some (Dyadic.ofInt 1) := by
  cases t with
  | void | ptr => cases isNumber
  | i1 | i32 | i64 | float | double => decide +kernel

theorem number_unboxFromPtr_one {a b : LlvmType} (source : isNumber a = true)
    (target : isNumber b = true) (differ : a ≠ b)
    (notIntegers : ¬(isInteger a = true ∧ isInteger b = true)) :
    number (unboxFromPtr b (boxToPtr (one a))) ≠ some (Dyadic.ofInt 1) := by
  cases a with
  | void | ptr => cases source
  | i1 | i32 | i64 =>
    cases b with
    | void | ptr => cases target
    | i1 | i32 | i64 => exact absurd ⟨rfl, rfl⟩ notIntegers
    | float | double => decide +kernel
  | float =>
    cases b with
    | void | ptr => cases target
    | float => exact absurd rfl differ
    | i1 | i32 | i64 | double => decide +kernel
  | double =>
    cases b with
    | void | ptr => cases target
    | double => exact absurd rfl differ
    | i1 | i32 | i64 | float => decide +kernel

theorem isInteger_of_integer {v : LlvmValue} {n : Int} (isInt : integer v = some n) :
    isInteger v.type = true := by
  cases v with
  | i1 | i32 | i64 => rfl
  | void | float | double | ptr => cases isInt

theorem isInteger_of_ofInteger {n : Int} {t : LlvmType} {w : LlvmValue}
    (cutOff : ofInteger n t = some w) : isInteger t = true := by
  cases t with
  | i1 | i32 | i64 => rfl
  | void | float | double | ptr => cases cutOff

/-- Without a common representation, packing and unpacking lose the sample. -/
theorem not_converts_sample (known : src ≠ TID_UNKNOWN) (notObject : ¬IsObject dst)
    (notKept : ¬Kept (lowerType types src) (lowerType types dst)) :
    ¬Converts types src dst (sample (lowerType types src) (lowerType types dst))
      (unboxFromPtr (lowerType types dst)
        (boxToPtr (sample (lowerType types src) (lowerType types dst)))) := by
  generalize lowerType types src = a at notKept ⊢
  generalize lowered : lowerType types dst = b at notKept ⊢
  obtain ⟨differ, notIntegers⟩ := not_or.1 notKept
  intro converts
  generalize isSample : sample a b = v at converts
  generalize isFound : unboxFromPtr b (boxToPtr v) = w at converts
  have type : v.type = a := isSample ▸ type_sample a b
  cases converts with
  | same sameType notVoid => exact differ (type.symm.trans (sameType.trans lowered))
  | @integer v w n isInt cutOff =>
    rw [lowered] at cutOff
    have source := isInteger_of_integer isInt
    rw [type] at source
    have widened : a = .i32 ∧ b = .i64 := by
      by_contra notWidened
      exact notIntegers ⟨source, isInteger_of_ofInteger cutOff, notWidened⟩
    obtain ⟨rfl, rfl⟩ := widened
    subst isSample
    cases isInt
    cases isFound
    exact absurd cutOff (by decide)
  | number sameType typesDiffer source target notBoth kept =>
    rw [type] at typesDiffer source notBoth
    rw [lowered] at sameType
    rw [sameType] at typesDiffer target notBoth kept
    have isOne : v = one a := by
      rw [← isSample, sample, if_neg]
      rintro ⟨rfl, rfl⟩
      exact notBoth ⟨rfl, rfl⟩
    have found := kept (one b) (type_one b)
      (by rw [isOne, number_one source, number_one target])
    rw [isOne, number_one source, ← isFound, isOne] at found
    exact number_unboxFromPtr_one source target typesDiffer notBoth found
  | packed isObject notVoid => exact notObject isObject
  | unpacked unknown notVoid => exact known unknown

theorem not_converts_void {v : LlvmValue}
    (isVoid : v.type = .void ∨ lowerType types dst = .void) :
    ¬Converts types src dst v (unboxFromPtr (lowerType types dst) (boxToPtr v)) := by
  intro converts
  generalize isFound : unboxFromPtr (lowerType types dst) (boxToPtr v) = w at converts
  rcases isVoid with isVoid | isVoid
  · cases converts with
    | same _ notVoid => exact notVoid isVoid
    | integer isInt _ =>
      have source := isInteger_of_integer isInt
      rw [isVoid] at source
      cases source
    | number _ _ source _ _ _ => simp [isVoid, isNumber] at source
    | packed _ notVoid => exact notVoid isVoid
    | unpacked _ _ => cases isVoid
  · cases converts with
    | same type notVoid => exact notVoid (type.trans isVoid)
    | integer _ cutOff => simp [isVoid, ofInteger] at cutOff
    | number type _ _ target _ _ => simp [type, isVoid, isNumber] at target
    | packed isObject _ => simp [lowerType_of_isObject isObject] at isVoid
    | unpacked _ notVoid => exact notVoid isVoid

theorem exists_lost (notPreserved : ¬Preserved types src dst) :
    ∃ a : Arg, a.tid = src ∧ a.Typed types ∧ ¬(types.assignable src dst = some true ∧
      Converts types src dst a.value
        (unboxFromPtr (lowerType types dst) (boxToPtr a.value))) := by
  by_cases isVoid : lowerType types src = .void ∨ lowerType types dst = .void
  · refine ⟨⟨src, one (lowerType types src)⟩, rfl, type_one _, ?_⟩
    rintro ⟨-, converts⟩
    exact not_converts_void (isVoid.imp_left (type_one _).trans) converts
  · refine ⟨⟨src, sample (lowerType types src) (lowerType types dst)⟩, rfl, type_sample _ _, ?_⟩
    rintro ⟨assignable, converts⟩
    obtain ⟨notVoid, notVoid'⟩ := not_or.1 isVoid
    refine not_converts_sample ?_ ?_ ?_ converts
    · exact fun unknown => notPreserved ⟨assignable, notVoid, notVoid', .inl unknown⟩
    · exact fun isObject => notPreserved ⟨assignable, notVoid, notVoid', .inr (.inl isObject)⟩
    · exact fun kept => notPreserved ⟨assignable, notVoid, notVoid', .inr (.inr kept)⟩

/-! ## Variants -/

theorem length_payload_le {ti : TypeInfo} {vi : EnumVariantInfo} (isVariant : vi ∈ ti.variants) :
    vi.payload.length ≤ enumMaxPayloadArity ti := by
  have bounds (vs : List EnumVariantInfo) (start : Nat) :
      start ≤ vs.foldl (fun arity v => max arity v.payload.length) start ∧
        ∀ v ∈ vs, v.payload.length ≤
          vs.foldl (fun arity v => max arity v.payload.length) start := by
    induction vs generalizing start with
    | nil => simp
    | cons v vs ih =>
      obtain ⟨above, each⟩ := ih (max start v.payload.length)
      rw [List.foldl_cons]
      constructor
      · exact (Nat.le_max_left _ _).trans above
      · intro v' member
        rcases List.mem_cons.1 member with rfl | member
        · exact (Nat.le_max_right _ _).trans above
        · exact each v' member
  exact (bounds ti.variants 0).2 vi isVariant

theorem loadBinding_genEnumCtor {ti : TypeInfo} {vi : EnumVariantInfo}
    (isVariant : vi ∈ ti.variants) {args : List Arg} {i : Nat} {a : Arg} (isArg : args[i]? = some a)
    (isField : vi.payload[i]? = some dst) :
    loadBinding types vi (genEnumCtor ti vi (args.map Arg.value)) i =
      .value (unboxFromPtr (lowerType types dst) (boxToPtr a.value)) := by
  have inside : i < vi.payload.length := (List.getElem?_eq_some_iff.1 isField).1
  have allocated : i < enumMaxPayloadArity ti := inside.trans_le (length_payload_le isVariant)
  have stored : (genEnumCtor ti vi (args.map Arg.value)).fields[i]? =
      some (some (boxToPtr a.value)) := by
    simp [genEnumCtor, allocated, inside, isArg]
  rw [loadBinding, stored, fieldType, isField]

theorem roundTrips_iff_converts (types : TypeRegistry) {ti : TypeInfo} {vi : EnumVariantInfo}
    (isVariant : vi ∈ ti.variants) (args : List Arg) (k : Nat) :
    RoundTrips types ti vi args k ↔ ∀ i < k, ∃ a ∈ args[i]?, ∃ dst ∈ vi.payload[i]?,
      types.assignable a.tid dst = some true ∧ Converts types a.tid dst a.value
        (unboxFromPtr (lowerType types dst) (boxToPtr a.value)) := by
  constructor
  · intro roundTrips i bound
    obtain ⟨a, isArg, dst, isField, v, found, assignable, converts⟩ := roundTrips i bound
    rw [loadBinding_genEnumCtor isVariant isArg isField] at found
    cases found
    exact ⟨a, isArg, dst, isField, assignable, converts⟩
  · intro converts i bound
    obtain ⟨a, isArg, dst, isField, converted⟩ := converts i bound
    exact ⟨a, isArg, dst, isField, _, loadBinding_genEnumCtor isVariant isArg isField, converted⟩

theorem exists_args (types : TypeRegistry) (sig : List TypeId) :
    ∃ args : List Arg, args.map Arg.tid = sig ∧ ∀ a ∈ args, a.Typed types := by
  refine ⟨sig.map fun tid => ⟨tid, one (lowerType types tid)⟩, ?_, ?_⟩
  · simp [Function.comp_def]
  · intro a member
    obtain ⟨tid, -, rfl⟩ := List.mem_map.1 member
    exact type_one _

/-- The constructor calls of a program: enum, variant and arguments. -/
def constructionsOf (prog : Program) : List (String × String × List Expr) :=
  (nodesOf prog).filterMap fun
    | .expr (.call _ (.member _ (.ident _ enumName) variantName) args) =>
        some (enumName, variantName, args)
    | _ => none

/-- The variant of a payload enum that `gen_call` and `gen_match` find by its names. -/
def payloadVariant (ls : Layouts) (enumName variantName : String) :
    Option (TypeInfo × EnumVariantInfo) := do
  let ti := ls.types.info (← ls.enumTypes.lookup enumName)
  if ti.variants.any fun v => !v.payload.isEmpty then
    (ti.variants.find? (·.name = variantName)).map fun vi => (ti, vi)
  else none

theorem mem_of_payloadVariant {ls : Layouts} {enumName variantName : String} {ti : TypeInfo}
    {vi : EnumVariantInfo} (found : payloadVariant ls enumName variantName = some (ti, vi)) :
    vi ∈ ti.variants := by
  simp only [payloadVariant, Option.bind_eq_bind, Option.bind_eq_some_iff] at found
  obtain ⟨tid, -, found⟩ := found
  split at found
  · obtain ⟨v, isFirst, same⟩ := Option.map_eq_some_iff.1 found
    cases same
    exact List.mem_of_find?_eq_some isFirst
  · cases found

/-- An argument has the type that analysis found for the expression, if it found one. -/
def HasType (s : Sema.State) (types : TypeRegistry) (e : Expr) (a : Arg) : Prop :=
  e.tid = TID_UNKNOWN ∨ a.tid = types.fromName (s.types.nameOf e.tid)

/-- `enum Shape { Circle(double) }  object o = Shape.Circle(1)
match o { Shape.Circle(r) => { } }`. -/
def circle : Program where
  decls := [.enum { name := "Shape", variants := [⟨"Circle", [{ name := "double" }]⟩] }]
  stmts :=
    [.varDecl ⟨1, 1⟩ { name := "object" } false false
        [.mk "o" (some (.call (-1) (.member (-1) (.ident (-1) "Shape") "Circle")
          [.intLit (-1) 1]))],
      .matchStmt (.ident (-1) "o") [.mk (.enumVariant "Shape" "Circle" ["r"]) []]]

def isCircle : MatchPattern → Bool
  | .enumVariant "Shape" "Circle" ["r"] => true
  | _ => false

/-- Whether analysis and layout leave the program above as expected. -/
def storesInt (prog' : Program) (s : Sema.State) : Bool :=
  ((constructionsOf prog').any fun c =>
      c.1 = "Shape" && c.2.1 = "Circle" &&
        c.2.2.map (fun e => s.types.nameOf e.tid) = ["int"]) &&
    ((matchesOf prog').any fun m => m.2.any isCircle) &&
    ((payloadVariant (layoutsOf prog') "Shape" "Circle").any fun v =>
      v.2.payload = [TID_DOUBLE]) &&
    (layoutsOf prog').types.fromName "int" = TID_INT

end Dux.Codegen.Payload
