import Dux.Codegen.Floats

/-!
# Widening conversions

The ways on which code generation (`src/codegen/codegen.cpp`) takes a number to a place of a
wider type, and the values that come out the same.
-/

namespace Dux.Codegen.Conversions

open TypeRegistry Payload Numbers

/-! ## The ways of a value -/

/-- A way to a place of another type: the declaration of a variable, an argument of a call by the
kind of the call, the result of a function, an operand beside one of the wider type, an element
of a list or an entry of a dict that is declared as a variable, the variable of a loop over a
variable that holds the list, and the payload of an enum. -/
inductive Path
  | declaration (isStatic : Bool)
  | argument (passing : Typing.Passing)
  | returned
  | leftOperand
  | rightOperand
  | element
  | loop
  | payload
  deriving DecidableEq, Repr

/-- A store into a variable of a type, or a use where that type is demanded.  A value of another
type is written past the variable, or rejected. -/
def demand (t : LlvmType) (v : LlvmValue) : Option LlvmValue := if v.type = t then some v else none

/-- An argument before the call: constructors get it as it is, functions and methods through
`coerce_to_llvm_type`, those of the standard library with the conversions of `try_stdlib_call`. -/
def pass (t : LlvmType) (v : LlvmValue) : Typing.Passing → Option LlvmValue
  | .asIs => some v
  | .coerced => coerceToLlvmType v t
  | .stdlib =>
      if t = .double ∧ v.type.isInt then siToFp v t
      else if t.isInt ∧ v.type = .double then fpToSi v t
      else some v

/-- `gen_var_decl` for a variable that is not static. -/
def declare (src dst : TypeId) (t : LlvmType) (v : LlvmValue) : Option LlvmValue :=
  (coerce src dst v).bind fun v => (coerceToLlvmType v t).bind (demand t)

/-- `gen_binary` on two operands: the first of them after the promotion. -/
def operand (src dst : TypeId) (l r : LlvmValue) : Option (LlvmValue × LlvmValue) :=
  (promote (Typing.isFpOperation src dst l.type r.type) l r).bind fun (l, r) =>
    if l.type = r.type then some (l, r) else none

/-- The value of type `src` at the place of type `dst`, which is lowered to `t`.  What a list, a
dict or a payload holds comes back as a pointer of unknown type; a loop over a list of integers
loads them as such. -/
def Path.convert (src dst : TypeId) (t : LlvmType) (v : LlvmValue) : Path → Option LlvmValue
  | .declaration true => (coerce src dst v).bind (demand t)
  | .declaration false => declare src dst t v
  | .argument passing => (pass t v passing).bind (demand t)
  | .returned => (coerce src dst v).bind (demand t)
  | .leftOperand => (operand src dst v t.null).map Prod.fst
  | .rightOperand => (operand dst src t.null v).map Prod.snd
  | .element => declare TID_UNKNOWN dst t (.ptr (boxToPtr v))
  | .loop =>
      match v with
      | .i32 b => (coerceToLlvmType (.i32 b) t).bind (demand t)
      | v => (coerceToLlvmType (.ptr (boxToPtr v)) t).bind (demand t)
  | .payload => some (unboxFromPtr t (boxToPtr v))

/-! ## Widening -/

/-- The widening conversions from integers and truth values. -/
def widenings : List (TypeId × TypeId) :=
  [(TID_BOOL, TID_INT), (TID_BOOL, TID_LONG), (TID_BOOL, TID_REAL), (TID_BOOL, TID_DOUBLE),
    (TID_INT, TID_LONG), (TID_INT, TID_REAL), (TID_INT, TID_DOUBLE), (TID_LONG, TID_DOUBLE)]

/-- The type has the number. -/
def Representable (dst : TypeId) (n : Int) : Prop :=
  (dst = TID_REAL → single.Fits n) ∧ (dst = TID_DOUBLE → double.Fits n)

def Preserves (types : TypeRegistry) (p : Path) (src dst : TypeId) (v : LlvmValue) : Prop :=
  ∃ w, p.convert src dst (lowerType types dst) v = some w ∧ w.type = lowerType types dst ∧
    number w = number v

/-- What keeps its number when it is packed into a pointer: its bits are taken for those of the
wider type. -/
def KeptPacked (src dst : TypeId) (n : Int) : Prop :=
  (dst = TID_REAL ∨ dst = TID_DOUBLE → n = 0) ∧ (src = TID_INT → dst = TID_LONG → 0 ≤ n)

/-- The numbers that arrive unchanged. -/
def Keeps (src dst : TypeId) (n : Int) : Path → Prop
  | .declaration _ | .returned =>
      dst ≠ TID_REAL ∧ (src = TID_BOOL → dst = TID_DOUBLE → n = 0)
  | .argument .asIs => False
  | .argument .coerced => src = TID_BOOL → n = 0
  | .argument .stdlib => dst = TID_DOUBLE ∧ (src = TID_BOOL → n = 0)
  | .leftOperand | .rightOperand => dst ≠ TID_REAL ∧ (src = TID_BOOL → n = 0)
  | .element | .payload => KeptPacked src dst n
  | .loop => src = TID_INT ∨ KeptPacked src dst n

variable {types : TypeRegistry} {p : Path} {src dst : TypeId} {v w : LlvmValue} {n : Int}

/-! ## Conversions that keep the number -/

theorem number_of_integer (isInt : integer v = some n) : number v = some (.ofInt n) := by
  cases v with
  | i1 b | i32 b | i64 b => exact congrArg (Option.map Dyadic.ofInt) isInt
  | _ => cases isInt

theorem decode_ofNat_ofInt {f : FloatFormat} {w : Nat} (width : f.fraction + f.exponent + 1 = w)
    (wide : 1 < f.exponent) (range : 64 + 2 ^ (f.exponent - 1) ≤ 2 ^ f.exponent) (fits : f.Fits n)
    (small : n.natAbs < 2 ^ 64) :
    f.decode (BitVec.ofNat w (f.ofInt n)).toNat = some (.ofInt n) := by
  have short : n.natAbs.log2 < 64 := by
    by_cases isZero : n = 0
    · simp [isZero]
    · exact (Nat.log2_lt (Int.natAbs_ne_zero.2 isZero)).2 small
  obtain ⟨decodes, bounded⟩ := FloatFormat.decode_ofInt wide fits (by omega)
  rw [width] at bounded
  rwa [BitVec.toNat_ofNat, Nat.mod_eq_of_lt bounded]

theorem number_double (fits : double.Fits n) (small : n.natAbs < 2 ^ 64) :
    number (.double (BitVec.ofNat 64 (double.ofInt n))) = some (.ofInt n) :=
  decode_ofNat_ofInt rfl (by decide) (by decide) fits small

theorem number_float (fits : single.Fits n) (small : n.natAbs < 2 ^ 64) :
    number (.float (BitVec.ofNat 32 (single.ofInt n))) = some (.ofInt n) :=
  decode_ofNat_ofInt rfl (by decide) (by decide) fits small

theorem natAbs_toInt_lt {w : Nat} (b : BitVec w) (narrow : w ≤ 64) : b.toInt.natAbs < 2 ^ 64 := by
  have low := BitVec.le_toInt b
  have high := BitVec.toInt_lt (x := b)
  have room : 2 ^ (w - 1) ≤ 2 ^ 63 := Nat.pow_le_pow_right (by decide) (by omega)
  have room : (2 : Int) ^ (w - 1) ≤ 2 ^ 63 := by exact_mod_cast room
  omega

/-! ## The result of a conversion -/

theorem preserves_iff_of_convert (isInt : integer v = some n)
    (convert : p.convert src dst (lowerType types dst) v = some w)
    (type : w.type = lowerType types dst) :
    Preserves types p src dst v ↔ number w = some (.ofInt n) := by
  rw [Preserves, number_of_integer isInt]
  constructor
  · rintro ⟨w', convert', -, same⟩
    obtain rfl : w = w' := Option.some.inj (convert.symm.trans convert')
    exact same
  · exact fun same => ⟨w, convert, type, same⟩

theorem not_preserves_of_convert
    (convert : p.convert src dst (lowerType types dst) v = none) :
    ¬Preserves types p src dst v := by
  rintro ⟨w, convert', -⟩
  rw [convert] at convert'
  cases convert'

/-- What comes of a number on a way: the number in the wider type, nothing, or its bits taken for
those of the wider type. -/
inductive Comes (src dst : TypeId) (t : LlvmType) (v w packed : LlvmValue) (n : Int) (p : Path) :
    Prop
  | converted (convert : p.convert src dst t v = some w) (keeps : Keeps src dst n p)
  | rejected (convert : p.convert src dst t v = none) (loses : ¬Keeps src dst n p)
  | packed (convert : p.convert src dst t v = some packed)
      (keeps : Keeps src dst n p ↔ KeptPacked src dst n)

theorem preserves_iff_of_comes {packed : LlvmValue} (isInt : integer v = some n)
    (type : w.type = lowerType types dst) (same : number w = some (.ofInt n))
    (typePacked : packed.type = lowerType types dst)
    (filled : number packed = some (.ofInt n) ↔ KeptPacked src dst n)
    (comes : Comes src dst (lowerType types dst) v w packed n p) :
    Preserves types p src dst v ↔ Keeps src dst n p := by
  cases comes with
  | converted convert keeps =>
    exact iff_of_true ((preserves_iff_of_convert isInt convert type).2 same) keeps
  | rejected convert loses => exact iff_of_false (not_preserves_of_convert convert) loses
  | packed convert keeps =>
    exact (preserves_iff_of_convert isInt convert typePacked).trans (filled.trans keeps.symm)

theorem preserves_iff_any : Preserves types p src dst v ↔
    (p.convert src dst (lowerType types dst) v).any
      (fun w => decide (w.type = lowerType types dst ∧ number w = number v)) = true := by
  simp [Preserves, Option.any_eq_true]

/-! ## Packed numbers -/

theorem keptPacked_long : KeptPacked TID_INT TID_LONG n ↔ 0 ≤ n :=
  ⟨fun keeps => keeps.2 rfl rfl, fun nonneg => ⟨by simp, fun _ _ => nonneg⟩⟩

theorem keptPacked_real : KeptPacked src TID_REAL n ↔ n = 0 :=
  ⟨fun keeps => keeps.1 (.inl rfl), fun isZero => ⟨fun _ => isZero, by simp⟩⟩

theorem keptPacked_double : KeptPacked src TID_DOUBLE n ↔ n = 0 :=
  ⟨fun keeps => keeps.1 (.inr rfl), fun isZero => ⟨fun _ => isZero, by simp⟩⟩

theorem decode_toNat_iff {f : FloatFormat} {w : Nat} (apart : f.Apart) (wide : 1 < f.exponent)
    (width : w = f.fraction + f.exponent + 1) (b : BitVec w) :
    f.decode b.toNat = some (.ofInt b.toInt) ↔ b.toInt = 0 := by
  refine ⟨FloatFormat.eq_zero_of_decode_toInt apart width, fun isZero => ?_⟩
  obtain rfl : b = 0 := BitVec.eq_of_toInt_eq (by simpa using isZero)
  simpa using FloatFormat.decode_zero f wide

/-! ## From integers -/

section Integers

variable (types : TypeRegistry) (p : Path) (c : BitVec 32) (d : BitVec 64)

theorem toNat_setWidth_int : (c.setWidth 64).toNat = c.toNat :=
  BitVec.toNat_setWidth_of_le (by decide)

theorem preserves_int_long :
    Preserves types p TID_INT TID_LONG (.i32 c) ↔ Keeps TID_INT TID_LONG c.toInt p := by
  have extended : number (.i64 (BitVec.ofInt 64 c.toInt)) = some (.ofInt c.toInt) :=
    congrArg (some ∘ Dyadic.ofInt) (BitVec.toInt_signExtend_of_le (by decide))
  have packed : number (.i64 (c.setWidth 64)) = some (.ofInt c.toInt) ↔
      KeptPacked TID_INT TID_LONG c.toInt := by
    have filled : (c.setWidth 64).toInt = c.toNat := by
      have small := c.isLt
      rw [BitVec.toInt_eq_toNat_of_lt (by rw [toNat_setWidth_int]; omega), toNat_setWidth_int]
    have sign : (c.toNat : Int) = c.toInt ↔ 0 ≤ c.toInt := by
      rw [BitVec.toInt_eq_toNat_cond]
      have := c.isLt
      split <;> omega
    have value : number (.i64 (c.setWidth 64)) = some (.ofInt (c.setWidth 64).toInt) := rfl
    rw [value, filled, Option.some.injEq, ofInt_inj, sign, keptPacked_long]
  apply preserves_iff_of_comes rfl rfl extended rfl packed
  cases p with
  | declaration isStatic =>
    cases isStatic with
    | false | true => exact .converted rfl ⟨by decide, nofun⟩
  | argument passing =>
    cases passing with
    | asIs => exact .rejected rfl id
    | coerced => exact .converted rfl nofun
    | stdlib => exact .rejected rfl fun keeps => absurd keeps.1 (by decide)
  | returned | leftOperand | rightOperand => exact .converted rfl ⟨by decide, nofun⟩
  | loop => exact .converted rfl (.inl rfl)
  | element | payload => exact .packed rfl Iff.rfl

theorem preserves_int_double :
    Preserves types p TID_INT TID_DOUBLE (.i32 c) ↔ Keeps TID_INT TID_DOUBLE c.toInt p := by
  have fits : double.Fits c.toInt := by
    have low := BitVec.le_toInt c
    have high := BitVec.toInt_lt (x := c)
    refine ⟨c.toInt.natAbs, 0, (Nat.mul_one _).symm, ?_⟩
    change c.toInt.natAbs < 2 ^ 53
    omega
  have rounded := number_double fits (natAbs_toInt_lt c (by decide))
  have packed : number (.double (c.setWidth 64)) = some (.ofInt c.toInt) ↔
      KeptPacked TID_INT TID_DOUBLE c.toInt := by
    have value : number (.double (c.setWidth 64)) = double.decode c.toNat := by
      rw [number, toNat_setWidth_int]
    rw [value, keptPacked_double]
    refine ⟨FloatFormat.eq_zero_of_decode_of_lt (by decide) ?_, fun isZero => ?_⟩
    · exact c.isLt.trans (by decide)
    · obtain rfl : c = 0 := BitVec.eq_of_toInt_eq (by simpa using isZero)
      exact FloatFormat.decode_zero double (by decide)
  apply preserves_iff_of_comes rfl rfl rounded rfl packed
  cases p with
  | declaration isStatic =>
    cases isStatic with
    | false | true => exact .converted rfl ⟨by decide, nofun⟩
  | argument passing =>
    cases passing with
    | asIs => exact .rejected rfl id
    | coerced => exact .converted rfl nofun
    | stdlib => exact .converted rfl ⟨rfl, nofun⟩
  | returned | leftOperand | rightOperand => exact .converted rfl ⟨by decide, nofun⟩
  | loop => exact .converted rfl (.inl rfl)
  | element | payload => exact .packed rfl Iff.rfl

theorem preserves_int_real (fits : single.Fits c.toInt) :
    Preserves types p TID_INT TID_REAL (.i32 c) ↔ Keeps TID_INT TID_REAL c.toInt p := by
  have rounded := number_float fits (natAbs_toInt_lt c (by decide))
  have packed : number (.float ((c.setWidth 64).setWidth 32)) = some (.ofInt c.toInt) ↔
      KeptPacked TID_INT TID_REAL c.toInt := by
    rw [BitVec.setWidth_setWidth_of_le _ (by decide), BitVec.setWidth_eq, keptPacked_real]
    exact decode_toNat_iff FloatFormat.apart_single (by decide) rfl c
  apply preserves_iff_of_comes rfl rfl rounded rfl packed
  cases p with
  | declaration isStatic =>
    cases isStatic with
    | false | true => exact .rejected rfl fun keeps => keeps.1 rfl
  | argument passing =>
    cases passing with
    | asIs => exact .rejected rfl id
    | coerced => exact .converted rfl nofun
    | stdlib => exact .rejected rfl fun keeps => absurd keeps.1 (by decide)
  | returned | leftOperand | rightOperand =>
    exact .rejected rfl fun keeps => keeps.1 rfl
  | loop => exact .converted rfl (.inl rfl)
  | element | payload => exact .packed rfl Iff.rfl

theorem preserves_long_double (fits : double.Fits d.toInt) :
    Preserves types p TID_LONG TID_DOUBLE (.i64 d) ↔ Keeps TID_LONG TID_DOUBLE d.toInt p := by
  have rounded := number_double fits (natAbs_toInt_lt d (by decide))
  have packed : number (.double d) = some (.ofInt d.toInt) ↔
      KeptPacked TID_LONG TID_DOUBLE d.toInt := by
    rw [keptPacked_double]
    exact decode_toNat_iff FloatFormat.apart_double (by decide) rfl d
  apply preserves_iff_of_comes rfl rfl rounded rfl packed
  cases p with
  | declaration isStatic =>
    cases isStatic with
    | false | true => exact .converted rfl ⟨by decide, nofun⟩
  | argument passing =>
    cases passing with
    | asIs => exact .rejected rfl id
    | coerced => exact .converted rfl nofun
    | stdlib => exact .converted rfl ⟨rfl, nofun⟩
  | returned | leftOperand | rightOperand => exact .converted rfl ⟨by decide, nofun⟩
  | loop =>
    exact .packed rfl ⟨fun keeps => keeps.resolve_left (by decide), .inr⟩
  | element | payload => exact .packed rfl Iff.rfl

end Integers

/-! ## From truth values -/

instance (src dst : TypeId) (n : Int) : Decidable (KeptPacked src dst n) :=
  inferInstanceAs (Decidable ((_ ∨ _ → _) ∧ (_ → _ → _)))

instance (src dst : TypeId) (n : Int) : (p : Path) → Decidable (Keeps src dst n p)
  | .declaration _ | .returned =>
      inferInstanceAs (Decidable (dst ≠ TID_REAL ∧ (src = TID_BOOL → dst = TID_DOUBLE → n = 0)))
  | .argument .asIs => inferInstanceAs (Decidable False)
  | .argument .coerced => inferInstanceAs (Decidable (src = TID_BOOL → n = 0))
  | .argument .stdlib =>
      inferInstanceAs (Decidable (dst = TID_DOUBLE ∧ (src = TID_BOOL → n = 0)))
  | .leftOperand | .rightOperand =>
      inferInstanceAs (Decidable (dst ≠ TID_REAL ∧ (src = TID_BOOL → n = 0)))
  | .element | .payload => inferInstanceAs (Decidable (KeptPacked src dst n))
  | .loop => inferInstanceAs (Decidable (src = TID_INT ∨ KeptPacked src dst n))

/-- A truth value is kept on a way exactly if it may be. -/
def BoolKept (dst : TypeId) (t : LlvmType) (p : Path) : Prop :=
  ∀ b : BitVec 1, (p.convert TID_BOOL dst t (.i1 b)).any
    (fun w => decide (w.type = t ∧ number w = number (.i1 b))) =
      decide (Keeps TID_BOOL dst b.toNat p)

instance (dst : TypeId) (t : LlvmType) (p : Path) : Decidable (BoolKept dst t p) :=
  inferInstanceAs (Decidable (∀ _ : BitVec 1, _ = _))

theorem boolKept_integer (p : Path) :
    BoolKept TID_INT .i32 p ∧ BoolKept TID_LONG .i64 p := by
  cases p with
  | declaration isStatic =>
    cases isStatic with
    | false | true => decide +kernel
  | argument passing =>
    cases passing with
    | asIs | coerced | stdlib => decide +kernel
  | returned | leftOperand | rightOperand | element | loop | payload => decide +kernel

theorem boolKept_floating (p : Path) :
    BoolKept TID_REAL .float p ∧ BoolKept TID_DOUBLE .double p := by
  cases p with
  | declaration isStatic =>
    cases isStatic with
    | false | true => decide +kernel
  | argument passing =>
    cases passing with
    | asIs | coerced | stdlib => decide +kernel
  | returned | leftOperand | rightOperand | element | loop | payload => decide +kernel

theorem preserves_bool {t : LlvmType} (lowered : lowerType types dst = t) (kept : BoolKept dst t p)
    (typed : v.type = .i1) (isInt : integer v = some n) :
    Preserves types p TID_BOOL dst v ↔ Keeps TID_BOOL dst n p := by
  cases v with
  | i1 b =>
    obtain rfl := Option.some.inj isInt
    rw [preserves_iff_any, lowered, kept b, decide_eq_true_iff]
  | _ => cases typed

/-! ## The result -/

theorem exists_i32 (typed : v.type = .i32) (isInt : integer v = some n) :
    ∃ c, v = .i32 c ∧ n = c.toInt := by
  cases v with
  | i32 c => exact ⟨c, rfl, (Option.some.inj isInt).symm⟩
  | _ => cases typed

theorem exists_i64 (typed : v.type = .i64) (isInt : integer v = some n) :
    ∃ d, v = .i64 d ∧ n = d.toInt := by
  cases v with
  | i64 d => exact ⟨d, rfl, (Option.some.inj isInt).symm⟩
  | _ => cases typed

theorem convert_argument_true :
    Path.convert TID_BOOL TID_INT .i32 (.i1 1) (.argument .coerced) = some (.i32 (-1)) := by
  decide

end Dux.Codegen.Conversions
