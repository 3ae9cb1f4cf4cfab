import Dux.Codegen.Operands
import Dux.Codegen.Payload

/-!
# Conversions of numbers

The casts that code generation applies to values (`src/codegen/codegen.cpp`), by what they do
to the bits.  LLVM has no signs on integers: `true` is the one bit of an `i1`, which is `-1`
where a cast takes it with its sign.  `none` stands for what LLVM leaves undefined, or rejects.
-/

namespace Dux.Codegen.Payload

/-- The exponent and the fraction of a positive integer, rounded to the nearest number of the
format, to the even one of two. -/
def FloatFormat.roundNat (f : FloatFormat) (m : Nat) : Nat :=
  let e := m.log2
  let field := (e + (2 ^ (f.exponent - 1) - 1)) * 2 ^ f.fraction
  if e ≤ f.fraction then field + (m * 2 ^ (f.fraction - e) - 2 ^ f.fraction)
  else
    let unit := 2 ^ (e - f.fraction)
    let down := m / unit
    let up := 2 * (m % unit) > unit ∨ 2 * (m % unit) = unit ∧ down % 2 = 1
    field + ((if up then down + 1 else down) - 2 ^ f.fraction)

/-- The bits of an integer in the format. -/
def FloatFormat.ofInt (f : FloatFormat) (n : Int) : Nat :=
  if n = 0 then 0
  else f.roundNat n.natAbs + if n < 0 then 2 ^ (f.fraction + f.exponent) else 0

end Dux.Codegen.Payload

namespace Dux.Codegen

theorem LlvmType.isInt_of_isFp {t : LlvmType} (isFp : t.isFp = true) : t.isInt = false := by
  cases t with
  | float | double => rfl
  | _ => cases isFp

end Dux.Codegen

namespace Dux.Codegen.Numbers

open TypeRegistry Payload

/-! ## Casts -/

def signed : LlvmValue → Option Int
  | .i1 b => some b.toInt
  | .i32 b => some b.toInt
  | .i64 b => some b.toInt
  | .void | .float _ | .double _ | .ptr _ => none

def unsigned : LlvmValue → Option Int
  | .i1 b => some b.toNat
  | .i32 b => some b.toNat
  | .i64 b => some b.toNat
  | .void | .float _ | .double _ | .ptr _ => none

/-- `CreateIntCast` with a sign, which is `CreateSExt` or `CreateTrunc` by the widths. -/
def intCast (v : LlvmValue) (t : LlvmType) : Option LlvmValue := (signed v).bind (ofInteger · t)

/-- `CreateZExt`, to the same or a wider type. -/
def zext (v : LlvmValue) (t : LlvmType) : Option LlvmValue := (unsigned v).bind (ofInteger · t)

/-- `CreateSIToFP`. -/
def siToFp (v : LlvmValue) (t : LlvmType) : Option LlvmValue :=
  (signed v).bind fun n =>
    match t with
    | .float => some (.float (BitVec.ofNat 32 (single.ofInt n)))
    | .double => some (.double (BitVec.ofNat 64 (double.ofInt n)))
    | .void | .i1 | .i32 | .i64 | .ptr => none

/-- `CreateFPToSI`: the fraction is dropped, and what the type does not hold is undefined. -/
def fpToSi (v : LlvmValue) (t : LlvmType) : Option LlvmValue := do
  let x ← number v
  let n := x.toRat.num.tdiv x.toRat.den
  let w ← ofInteger n t
  if signed w = some n then some w else none

/-! ## The conversions of code generation -/

def coerce (src dst : TypeId) (v : LlvmValue) : Option LlvmValue :=
  if src = dst ∨ dst = TID_UNKNOWN then some v
  else if (dst = TID_DOUBLE ∨ dst = TID_REAL) ∧ v.type.isInt then siToFp v .double
  else if (dst = TID_INT ∨ dst = TID_LONG) ∧ v.type.isFp then fpToSi v (Typing.integralType dst)
  else if dst = TID_LONG ∧ v.type = .i32 then intCast v .i64
  else if dst = TID_INT ∧ v.type = .i64 then intCast v .i32
  else if isIntegral dst ∧ v.type = .i1 then zext v (Typing.integralType dst)
  else some v

def coerceToLlvmType (v : LlvmValue) (pt : LlvmType) : Option LlvmValue :=
  if v.type = pt then some v
  else if pt.isInt && v.type.isInt then intCast v pt
  else if pt.isFp && v.type.isInt then siToFp v pt
  else if pt.isInt && v.type.isFp then fpToSi v pt
  else
    match v with
    | .ptr raw => some (Payload.unboxFromPtr pt raw)
    | v => some v

/-- The promotions of `gen_binary`: to `double` beside a floating operand, to the wider of two
integers otherwise. -/
def promote (fp : Bool) (l r : LlvmValue) : Option (LlvmValue × LlvmValue) := do
  if fp then
    let l ← if l.type.isInt then siToFp l .double else some l
    let r ← if r.type.isInt then siToFp r .double else some r
    return (l, r)
  else if l.type.isInt && r.type.isInt && l.type ≠ r.type then
    if l.type.width < r.type.width then return (← intCast l r.type, r)
    else return (l, ← intCast r l.type)
  else return (l, r)

/-! ## Integers with their signs -/

variable {v l r : LlvmValue} {t : LlvmType} {n a b : Int}

theorem isInt_of_signed (isSigned : signed v = some n) : v.type.isInt = true := by
  cases v with
  | i1 c | i32 c | i64 c => rfl
  | _ => cases isSigned

theorem signed_intCast (isSigned : signed v = some n) (isInt : t.isInt = true)
    (wider : v.type.width ≤ t.width) :
    ∃ v', intCast v t = some v' ∧ v'.type = t ∧ signed v' = some n := by
  cases v with
  | i1 c | i32 c | i64 c =>
    obtain rfl := Option.some.inj isSigned
    cases t with
    | i1 | i32 | i64 => exact ⟨_, rfl, rfl, congrArg some (BitVec.toInt_signExtend_of_le wider)⟩
    | _ => cases isInt
  | _ => cases isSigned

theorem promote_signed (left : signed l = some a) (right : signed r = some b) :
    ∃ l' r', promote false l r = some (l', r') ∧ l'.type = r'.type ∧
      signed l' = some a ∧ signed r' = some b := by
  unfold promote
  rw [if_neg Bool.false_ne_true, isInt_of_signed left, isInt_of_signed right]
  by_cases same : l.type = r.type
  · exact ⟨l, r, by simp [same], same, left, right⟩
  · by_cases narrower : l.type.width < r.type.width
    · obtain ⟨l', cast, type, isSigned⟩ :=
        signed_intCast left (isInt_of_signed right) narrower.le
      exact ⟨l', r, by simp [same, narrower, cast], type, isSigned, right⟩
    · obtain ⟨r', cast, type, isSigned⟩ :=
        signed_intCast right (isInt_of_signed left) (Nat.le_of_not_lt narrower)
      exact ⟨l, r', by simp [same, narrower, cast], type.symm, left, isSigned⟩

theorem promote_eq_self (apart : ¬(l.type.isInt = true ∧ r.type.isInt = true ∧ l.type ≠ r.type)) :
    promote false l r = some (l, r) := by
  unfold promote
  rw [if_neg Bool.false_ne_true, if_neg (by simpa using apart)]
  rfl

/-! ## The types of what comes out -/

variable {src dst : TypeId} {target : LlvmType} {w : LlvmValue}

theorem exists_signed (isInt : v.type.isInt = true) : ∃ n, signed v = some n := by
  cases v with
  | i1 c | i32 c | i64 c => exact ⟨_, rfl⟩
  | _ => cases isInt

theorem exists_unsigned (isInt : v.type.isInt = true) : ∃ n, unsigned v = some n := by
  cases v with
  | i1 c | i32 c | i64 c => exact ⟨_, rfl⟩
  | _ => cases isInt

theorem exists_ofInteger (n : Int) (isInt : t.isInt = true) :
    ∃ w, ofInteger n t = some w ∧ w.type = t := by
  cases t with
  | i1 | i32 | i64 => exact ⟨_, rfl, rfl⟩
  | _ => cases isInt

theorem exists_intCast (given : v.type.isInt = true) (wanted : t.isInt = true) :
    ∃ w, intCast v t = some w ∧ w.type = t := by
  obtain ⟨n, isSigned⟩ := exists_signed given
  rw [intCast, isSigned]
  exact exists_ofInteger n wanted

theorem exists_zext (given : v.type.isInt = true) (wanted : t.isInt = true) :
    ∃ w, zext v t = some w ∧ w.type = t := by
  obtain ⟨n, isUnsigned⟩ := exists_unsigned given
  rw [zext, isUnsigned]
  exact exists_ofInteger n wanted

theorem exists_siToFp_double (given : v.type.isInt = true) :
    ∃ w, siToFp v .double = some w ∧ w.type = .double := by
  obtain ⟨n, isSigned⟩ := exists_signed given
  exact ⟨_, congrArg (Option.bind · _) isSigned, rfl⟩

theorem isInt_integralType (tid : TypeId) : (Typing.integralType tid).isInt = true := by
  unfold Typing.integralType
  split_ifs <;> rfl

theorem fpToSi_eq_some_type (cast : fpToSi v t = some w) : w.type = t := by
  obtain ⟨x, isNumber, cast⟩ := Option.bind_eq_some_iff.1 cast
  obtain ⟨w', isInteger, cast⟩ := Option.bind_eq_some_iff.1 cast
  split_ifs at cast
  cases cast
  cases t with
  | i1 | i32 | i64 =>
    cases isInteger
    rfl
  | _ => cases isInteger

theorem exists_fpToSi_eq_none (isFp : t.isFp = true) (target : LlvmType) :
    ∃ v : LlvmValue, v.type = t ∧ fpToSi v target = none := by
  cases t with
  | float => exact ⟨.float 0x7f800000, rfl, rfl⟩
  | double => exact ⟨.double 0x7ff0000000000000, rfl, rfl⟩
  | _ => cases isFp

theorem exists_coerce
    (whole : ¬(v.type.isFp = true ∧ (Typing.coerce src dst v.type).isInt = true)) :
    ∃ w, coerce src dst v = some w ∧ w.type = Typing.coerce src dst v.type := by
  unfold coerce Typing.coerce at *
  split_ifs at * with same toDouble toInt toLong cut fromBool
  · exact ⟨v, rfl, rfl⟩
  · exact exists_siToFp_double toDouble.2
  · exact absurd ⟨toInt.2, isInt_integralType dst⟩ whole
  · exact exists_intCast (by rw [toLong.2]; rfl) rfl
  · exact exists_intCast (by rw [cut.2]; rfl) rfl
  · exact exists_zext (by rw [fromBool.2]; rfl) (isInt_integralType dst)
  · exact ⟨v, rfl, rfl⟩

theorem type_of_coerce (converted : coerce src dst v = some w) :
    w.type = Typing.coerce src dst v.type := by
  by_cases whole : v.type.isFp = true ∧ (Typing.coerce src dst v.type).isInt = true
  · unfold coerce Typing.coerce at *
    split_ifs at * with same toDouble toInt toLong cut fromBool
    · cases converted
      rfl
    · simp [LlvmType.isInt] at whole
    · exact fpToSi_eq_some_type converted
    · simp [toLong.2, LlvmType.isFp] at whole
    · simp [cut.2, LlvmType.isFp] at whole
    · simp [fromBool.2, LlvmType.isFp] at whole
    · cases converted
      rfl
  · obtain ⟨w', same, typed⟩ := exists_coerce whole
    cases same.symm.trans converted
    exact typed

/-- Every value of a type is brought to another one exactly if the types are, and no
floating-point number becomes an integer. -/
theorem forall_coerce_iff :
    (∀ v : LlvmValue, v.type = t → ∃ w, coerce src dst v = some w ∧ w.type = target) ↔
      Typing.coerce src dst t = target ∧ ¬(t.isFp = true ∧ target.isInt = true) := by
  constructor
  · intro brings
    have typed : Typing.coerce src dst t = target := by
      obtain ⟨v, isOf⟩ : ∃ v : LlvmValue, v.type = t := ⟨t.null, by cases t <;> rfl⟩
      obtain ⟨w, converted, isTarget⟩ := brings v isOf
      rw [← isOf, ← type_of_coerce converted]
      exact isTarget
    refine ⟨typed, fun ⟨isFp, isInt⟩ => ?_⟩
    obtain ⟨v, rfl, noCast⟩ := exists_fpToSi_eq_none isFp (Typing.integralType dst)
    obtain ⟨w, converted, -⟩ := brings v rfl
    rw [← typed] at isInt
    have apart : v.type.isInt = false := LlvmType.isInt_of_isFp isFp
    unfold coerce at converted
    unfold Typing.coerce at isInt
    split_ifs at converted isInt with same toDouble toInt toLong cut fromBool
    · rw [apart] at isInt
      cases isInt
    · cases isInt
    · rw [noCast] at converted
      cases converted
    · rw [toLong.2] at isFp
      cases isFp
    · rw [cut.2] at isFp
      cases isFp
    · rw [fromBool.2] at isFp
      cases isFp
    · rw [apart] at isInt
      cases isInt
  · rintro ⟨rfl, whole⟩ v rfl
    exact exists_coerce whole

end Dux.Codegen.Numbers
