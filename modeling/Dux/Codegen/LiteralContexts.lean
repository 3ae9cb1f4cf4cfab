import Dux.Codegen.Literals

/-!
# Integer literals in their contexts

Where the value of an integer literal arrives, by its type and its digits.
-/

namespace Dux.Codegen

open TypeRegistry Payload Numbers

/-! ## Casts -/

namespace NumType

def type : NumType → LlvmType
  | .int => .i32
  | .long => .i64
  | .real => .float
  | .double => .double

theorem lowerType_tid (types : TypeRegistry) (s : NumType) : lowerType types s.tid = s.type := by
  cases s <;> rfl

theorem type_ne_void (s : NumType) : s.type ≠ .void := by
  cases s <;> nofun

theorem type_constant (s : NumType) (m : Nat) : (s.constant m).type = s.type := by
  cases s <;> rfl

theorem expr_tid (s : NumType) (m : Nat) : (s.expr m).tid = s.tid := by
  cases s <;> rfl

end NumType

section Casts

variable {s dst : NumType} {m k : Nat} {v w : LlvmValue} {t : LlvmType}

theorem gives_constant_iff (small : m < 2 ^ 63) :
    Gives (some (s.constant m)) (s.round m) ↔ s.Exact m := by
  rw [gives_some, number_constant small, Option.some.injEq, ofInt_inj, NumType.result_eq_iff]

theorem has_round (small : m < 2 ^ 63) (exact : s.Exact m) : s.Has (s.round m) := by
  cases s with
  | int => exact exact
  | long => exact small
  | real => exact single.fits_nearest m
  | double => exact double.fits_nearest m

theorem signed_constant (whole : s.IsWhole) (small : m < 2 ^ 63) :
    signed (s.constant m) = some (s.result m) := by
  rcases whole with rfl | rfl
  · rfl
  · exact congrArg some (toInt_ofInt_long small)

theorem round_whole (whole : s.IsWhole) : s.round m = m := by
  rcases whole with rfl | rfl <;> rfl

theorem gives_intCast_iff (whole : s.IsWhole) (target : dst.IsWhole) (small : m < 2 ^ 63) :
    Gives (intCast (s.constant m) dst.type) m ↔ s.Exact m ∧ dst.Has m := by
  rw [intCast, signed_constant whole small, Option.bind_some]
  rcases whole with rfl | rfl
  · rcases target with rfl | rfl
    · have same : BitVec.ofInt 32 (NumType.int.result m) = BitVec.ofInt 32 (m : Int) :=
        BitVec.ofInt_toInt
      rw [NumType.type, ofInteger, same]
      exact (gives_constant_iff (s := .int) small).trans and_self_iff.symm
    · have kept : (BitVec.ofInt 64 (NumType.int.result m)).toInt = NumType.int.result m :=
        BitVec.toInt_signExtend_of_le (x := BitVec.ofInt 32 (m : Int)) (by decide)
      have value : number (.i64 (BitVec.ofInt 64 (NumType.int.result m))) =
          some (.ofInt (NumType.int.result m)) := congrArg (some ∘ Dyadic.ofInt) kept
      rw [NumType.type, ofInteger, gives_some, value, Option.some.injEq, ofInt_inj]
      exact NumType.result_eq_iff.trans (and_iff_left small).symm
  · rcases target with rfl | rfl
    · exact (gives_constant_iff (s := .int) small).trans (and_iff_right trivial).symm
    · exact (gives_constant_iff (s := .long) small).trans (and_iff_left small).symm

/-- An integer that has been cut does not become the value again by rounding. -/
theorem nearestInt_result_iff (f : FloatFormat) (whole : s.IsWhole) :
    f.nearestInt (s.result m) = m ↔ s.Exact m ∧ f.Fits m := by
  by_cases exact : s.Exact m
  · have value := NumType.result_eq_iff.2 exact
    rw [round_whole whole] at value
    rw [value, f.nearestInt_natCast, Int.natCast_inj, FloatFormat.nearest_eq_iff,
      and_iff_right exact]
  · rcases whole with rfl | rfl
    · refine iff_of_false (fun same => ?_) fun both => exact both.1
      have large : 2 ^ 31 ≤ m := Nat.le_of_not_lt exact
      have high := BitVec.toInt_lt (x := BitVec.ofInt 32 (m : Int))
      have nonneg : ¬NumType.int.result m < 0 := by
        rw [← FloatFormat.nearestInt_neg_iff (f := f), same]
        omega
      have isCut : NumType.int.result m = (BitVec.ofInt 32 (m : Int)).toInt := rfl
      have within : (NumType.int.result m).natAbs ≤ 2 ^ 31 := by omega
      have rounded := FloatFormat.nearest_le_two_pow (f := f) within
      rw [← f.natAbs_nearestInt, same, Int.natAbs_natCast] at rounded
      obtain rfl : m = 2 ^ 31 := Nat.le_antisymm rounded large
      exact nonneg (by decide)
    · exact absurd trivial exact

theorem natAbs_result_le (whole : s.IsWhole) (small : m < 2 ^ 63) :
    (s.result m).natAbs ≤ 2 ^ 63 := by
  rcases whole with rfl | rfl
  · have low := BitVec.le_toInt (BitVec.ofInt 32 (m : Int))
    have high := BitVec.toInt_lt (x := BitVec.ofInt 32 (m : Int))
    have isCut : NumType.int.result m = (BitVec.ofInt 32 (m : Int)).toInt := rfl
    omega
  · exact small.le

theorem gives_siToFp_iff (whole : s.IsWhole) (target : ¬dst.IsWhole) (small : m < 2 ^ 63) :
    Gives (siToFp (s.constant m) dst.type) m ↔ s.Exact m ∧ dst.Has m := by
  have bounded := natAbs_result_le whole small
  rw [siToFp, signed_constant whole small, Option.bind_some]
  cases dst with
  | int => exact absurd (.inl rfl) target
  | long => exact absurd (.inr rfl) target
  | real =>
    rw [NumType.type, gives_some, number_float_ofInt bounded, Option.some.injEq, ofInt_inj]
    exact nearestInt_result_iff single whole
  | double =>
    rw [NumType.type, gives_some, number_double_ofInt bounded, Option.some.injEq, ofInt_inj]
    exact nearestInt_result_iff double whole

theorem fpToSi_eq (isNumber : number v = some (.ofInt (k : Int))) :
    fpToSi v t =
      (ofInteger k t).bind fun w => if signed w = some (k : Int) then some w else none := by
  have isRat : (Dyadic.ofInt (k : Int)).toRat = ((k : Int) : Rat) := Dyadic.toRat_intCast _
  rw [fpToSi, isNumber]
  simp only [Option.bind_eq_bind, Option.bind_some, isRat, Rat.num_intCast, Rat.den_intCast,
    Nat.cast_one, Int.tdiv_one]

theorem ofInteger_type (target : dst.IsWhole) (k : Nat) :
    ofInteger k dst.type = some (dst.constant k) := by
  rcases target with rfl | rfl <;> rfl

theorem signed_constant_iff (target : dst.IsWhole) :
    signed (dst.constant k) = some (k : Int) ↔ dst.Has k := by
  rcases target with rfl | rfl
  · exact Option.some_inj.trans toInt_ofInt_eq_iff
  · refine Option.some_inj.trans ⟨fun kept => ?_, toInt_ofInt_long⟩
    have high := BitVec.toInt_lt (x := BitVec.ofInt 64 (k : Int))
    rw [kept] at high
    exact Int.ofNat_lt.1 high

theorem number_of_signed_constant (target : dst.IsWhole) {n : Int}
    (isSigned : signed (dst.constant k) = some n) : number (dst.constant k) = some (.ofInt n) := by
  rcases target with rfl | rfl <;> exact congrArg (Option.map Dyadic.ofInt) isSigned

theorem gives_fpToSi_iff (target : dst.IsWhole) (isNumber : number v = some (.ofInt (k : Int)))
    {n : Nat} : Gives (fpToSi v dst.type) n ↔ k = n ∧ dst.Has n := by
  rw [fpToSi_eq isNumber, ofInteger_type target, Option.bind_some]
  by_cases kept : signed (dst.constant k) = some (k : Int)
  · have has := (signed_constant_iff target).1 kept
    rw [if_pos kept, gives_some, number_of_signed_constant target kept, Option.some.injEq,
      ofInt_inj, Int.natCast_inj]
    exact ⟨fun same => ⟨same, same ▸ has⟩, And.left⟩
  · rw [if_neg kept]
    refine iff_of_false not_gives_none ?_
    rintro ⟨rfl, has⟩
    exact kept ((signed_constant_iff target).2 has)

/-! ## Conversions to the type of a place -/

/-- The pairs of types that `coerce_to_llvm_type` brings together. -/
def Meets (s dst : NumType) : Prop := dst = s ∨ dst.IsWhole ∨ s.IsWhole

/-- What `coerce_to_llvm_type` does with a constant. -/
inductive Cast (s dst : NumType) (v : LlvmValue) : Option LlvmValue → Prop
  | same (same : dst = s) : Cast s dst v (some v)
  | integer (whole : s.IsWhole) (target : dst.IsWhole) : Cast s dst v (intCast v dst.type)
  | rounded (whole : s.IsWhole) (target : ¬dst.IsWhole) : Cast s dst v (siToFp v dst.type)
  | truncated (floating : ¬s.IsWhole) (target : dst.IsWhole) : Cast s dst v (fpToSi v dst.type)

theorem not_isWhole_real : ¬NumType.real.IsWhole := by
  simp [NumType.IsWhole]

theorem not_isWhole_double : ¬NumType.double.IsWhole := by
  simp [NumType.IsWhole]

theorem cast_constant (meets : Meets s dst) (m : Nat) :
    Cast s dst (s.constant m) (coerceToLlvmType (s.constant m) dst.type) := by
  rcases meets with rfl | target | whole
  · rw [coerceToLlvmType.eq_def, if_pos (NumType.type_constant _ _)]
    exact .same rfl
  · cases s with
    | int =>
      rcases target with rfl | rfl
      · exact .same rfl
      · exact .integer (.inl rfl) (.inr rfl)
    | long =>
      rcases target with rfl | rfl
      · exact .integer (.inr rfl) (.inl rfl)
      · exact .same rfl
    | real =>
      rcases target with rfl | rfl
      · exact .truncated not_isWhole_real (.inl rfl)
      · exact .truncated not_isWhole_real (.inr rfl)
    | double =>
      rcases target with rfl | rfl
      · exact .truncated not_isWhole_double (.inl rfl)
      · exact .truncated not_isWhole_double (.inr rfl)
  · cases dst with
    | int =>
      rcases whole with rfl | rfl
      · exact .same rfl
      · exact .integer (.inr rfl) (.inl rfl)
    | long =>
      rcases whole with rfl | rfl
      · exact .integer (.inl rfl) (.inr rfl)
      · exact .same rfl
    | real =>
      rcases whole with rfl | rfl
      · exact .rounded (.inl rfl) not_isWhole_real
      · exact .rounded (.inr rfl) not_isWhole_real
    | double =>
      rcases whole with rfl | rfl
      · exact .rounded (.inl rfl) not_isWhole_double
      · exact .rounded (.inr rfl) not_isWhole_double

theorem isInt_type (whole : s.IsWhole) : s.type.isInt = true := by
  rcases whole with rfl | rfl <;> rfl

theorem type_of_cast {c : Option LlvmValue} (cast : Cast s dst (s.constant m) c)
    (converts : c = some w) :
    w.type = dst.type := by
  cases cast with
  | same same =>
    cases converts
    rw [same, NumType.type_constant]
  | integer whole target =>
    obtain ⟨w', converted, typed⟩ := exists_intCast (v := s.constant m)
      (by rw [NumType.type_constant, isInt_type whole]) (isInt_type target)
    cases converted.symm.trans converts
    exact typed
  | rounded whole target =>
    obtain ⟨n, -, converted⟩ := Option.bind_eq_some_iff.1 converts
    cases dst with
    | int | long => cases converted
    | real | double =>
      cases converted
      rfl
  | truncated floating target => exact fpToSi_eq_some_type converts

theorem gives_cast_iff {c : Option LlvmValue} (cast : Cast s dst (s.constant m) c)
    (small : m < 2 ^ 63) : Gives c (s.round m) ↔ s.Exact m ∧ dst.Has (s.round m) := by
  cases cast with
  | same same =>
    rw [gives_constant_iff small, same]
    exact ⟨fun exact => ⟨exact, has_round small exact⟩, And.left⟩
  | integer whole target =>
    rw [round_whole whole]
    exact gives_intCast_iff whole target small
  | rounded whole target =>
    rw [round_whole whole]
    exact gives_siToFp_iff whole target small
  | truncated floating target =>
    obtain ⟨k, isResult⟩ : ∃ k : Nat, s.result m = k := by
      cases s with
      | int => exact absurd (.inl rfl) floating
      | long => exact absurd (.inr rfl) floating
      | real | double => exact ⟨_, rfl⟩
    have isNumber := number_constant (s := s) small
    rw [isResult] at isNumber
    rw [gives_fpToSi_iff target isNumber, ← NumType.result_eq_iff, isResult, Int.natCast_inj]

end Casts

/-! ## Variables -/

/-- The literal arrives in a variable, whatever the upper half of its place held before. -/
def Storage.Takes (storage : Storage) (s dst : NumType) (m : Nat) : Prop :=
  ∀ upper, (storage = .declaration true → upper = 0) →
    Gives (storage.store dst.tid dst.type upper (s.expr m)) (s.round m)

section Stores

variable {s dst : NumType} {m : Nat} {v w : LlvmValue} {c : Option LlvmValue} {storage : Storage}

theorem setWidth_append (upper b : BitVec 32) : (upper ++ b).setWidth 32 = b := by
  rw [BitVec.setWidth_append, dif_pos le_rfl, BitVec.setWidth_eq]

theorem stored_self (typed : w.type = dst.type) (upper : BitVec 32) :
    stored dst.type upper w = some w := by
  have fits : storeSize w.type ≤ storeSize dst.type := by rw [typed]
  rw [stored, if_pos fits]
  cases dst with
  | int =>
    cases w with
    | i32 b => exact congrArg (some ∘ LlvmValue.i32) (setWidth_append upper b)
    | _ => cases typed
  | long =>
    cases w with
    | i64 b => rfl
    | _ => cases typed
  | real =>
    cases w with
    | float b => exact congrArg (some ∘ LlvmValue.float) (setWidth_append upper b)
    | _ => cases typed
  | double =>
    cases w with
    | double b => rfl
    | _ => cases typed

theorem bind_stored (typed : ∀ w, c = some w → w.type = dst.type) (upper : BitVec 32) :
    c.bind (stored dst.type upper) = c := by
  cases c with
  | none => rfl
  | some w => exact stored_self (typed w rfl) upper

theorem takes_iff_of_store
    (store : ∀ upper, storage.store dst.tid dst.type upper (s.expr m) = c) :
    storage.Takes s dst m ↔ Gives c (s.round m) := by
  unfold Storage.Takes
  simp only [store]
  exact ⟨fun takes => takes 0 fun _ => rfl, fun gives _ _ => gives⟩

theorem coerce_eq_coerceToLlvmType (meets : dst = s ∨ dst.IsWhole ∨ s.IsWhole ∧ dst = .double) :
    coerce s.tid dst.tid (s.constant m) = coerceToLlvmType (s.constant m) dst.type := by
  rcases meets with rfl | (rfl | rfl) | ⟨rfl | rfl, rfl⟩
  · rw [coerce, if_pos (.inl rfl), coerceToLlvmType.eq_def, if_pos (NumType.type_constant _ _)]
  · cases s <;> rfl
  · cases s <;> rfl
  · rfl
  · rfl

theorem takes_field_iff (meets : Meets s dst) (small : m < 2 ^ 63) :
    Storage.field.Takes s dst m ↔ s.Exact m ∧ dst.Has (s.round m) := by
  have cast := cast_constant meets m
  rw [takes_iff_of_store (c := coerceToLlvmType (s.constant m) dst.type), gives_cast_iff cast small]
  intro upper
  rw [Storage.store, genLiteral_expr small, Option.bind_some]
  exact bind_stored (fun w => type_of_cast cast) upper

theorem takes_declaration_iff (meets : dst = s ∨ dst.IsWhole ∨ s.IsWhole ∧ dst = .double)
    (isStatic : Bool) (small : m < 2 ^ 63) :
    (Storage.declaration isStatic).Takes s dst m ↔ s.Exact m ∧ dst.Has (s.round m) := by
  have cast := cast_constant (meets.imp_right (Or.imp_right And.left)) m
  have converted := coerce_eq_coerceToLlvmType meets (m := m)
  rw [takes_iff_of_store (c := coerceToLlvmType (s.constant m) dst.type), gives_cast_iff cast small]
  intro upper
  cases isStatic with
  | true =>
    rw [Storage.store, genLiteral_expr small, Option.bind_some, NumType.expr_tid, converted]
    exact bind_stored (fun w => type_of_cast cast) upper
  | false =>
    have again : (coerceToLlvmType (s.constant m) dst.type).bind
        (fun v => (coerceToLlvmType v dst.type).bind (stored dst.type upper)) =
          (coerceToLlvmType (s.constant m) dst.type).bind (stored dst.type upper) := by
      refine Option.bind_congr fun w isConverted => ?_
      rw [coerceToLlvmType.eq_def w, if_pos (type_of_cast cast isConverted), Option.bind_some]
    rw [Storage.store, genLiteral_expr small, Option.bind_some, NumType.expr_tid, converted, again]
    exact bind_stored (fun w => type_of_cast cast) upper

/-! ### Values of other types -/

theorem not_takes_of_none (lost : storage.store dst.tid dst.type 0 (s.expr m) = none) :
    ¬storage.Takes s dst m := by
  intro takes
  have gives := takes 0 fun _ => rfl
  rw [lost] at gives
  exact not_gives_none gives

theorem toNat_ones_append (b : BitVec 32) :
    ((-1 : BitVec 32) ++ b).toNat = (2 ^ 32 - 1) * 2 ^ 32 + b.toNat := by
  rw [BitVec.toNat_append, ← Nat.shiftLeft_add_eq_or_of_lt b.isLt, Nat.shiftLeft_eq]
  rfl

theorem not_gives_ones (wide : dst = .long ∨ dst = .double) (b : BitVec 32) (n : Nat) :
    ¬Gives (some (unboxFromPtr dst.type ((-1 : BitVec 32) ++ b))) n := by
  rw [gives_some]
  intro value
  rcases wide with rfl | rfl
  · have negative : ((-1 : BitVec 32) ++ b).toInt < 0 := by
      rw [BitVec.toInt_append]
      simp only [Nat.reduceBEq, Bool.false_eq_true, if_false]
      have ones : (-1 : BitVec 32).toInt = -1 := by decide
      omega
    have same : ((-1 : BitVec 32) ++ b).toInt = n := ofInt_inj.1 (Option.some.inj value)
    omega
  · have noNumber : double.decode ((-1 : BitVec 32) ++ b).toNat = none := by
      have exponent : ((-1 : BitVec 32) ++ b).toNat / 2 ^ 52 % 2 ^ 11 = 2 ^ 11 - 1 := by
        rw [toNat_ones_append]
        omega
      exact if_pos exponent
    exact absurd (noNumber.symm.trans value) (Option.some_ne_none _).symm

theorem not_takes_of_short (wide : dst = .long ∨ dst = .double)
    (notStatic : storage ≠ .declaration true) (b : BitVec 32)
    (short : storage.store dst.tid dst.type (-1) (s.expr m) =
      some (unboxFromPtr dst.type ((-1 : BitVec 32) ++ b))) : ¬storage.Takes s dst m := by
  intro takes
  have gives := takes (-1) fun isStatic => absurd isStatic notStatic
  rw [short] at gives
  exact not_gives_ones wide b _ gives

theorem not_takes_declaration_real (isStatic : Bool) (other : s ≠ .real) :
    ¬(Storage.declaration isStatic).Takes s .real m := by
  refine not_takes_of_none ?_
  cases s with
  | real => exact absurd rfl other
  | int | long | double => cases isStatic <;> rfl

theorem number_zero (s : NumType) : number s.type.null = some (.ofInt 0) := by
  cases s with
  | int | long => rfl
  | real => exact FloatFormat.decode_zero single (by decide)
  | double => exact FloatFormat.decode_zero double (by decide)

theorem nearest_zero (f : FloatFormat) : f.nearest 0 = 0 := FloatFormat.nearest_eq_zero_iff.2 rfl

theorem round_eq_zero_iff : s.round m = 0 ↔ m = 0 := by
  cases s with
  | int | long => exact Iff.rfl
  | real | double => exact FloatFormat.nearest_eq_zero_iff

theorem constant_zero (s : NumType) : s.constant 0 = s.type.null := by
  cases s with
  | int | long => rfl
  | real =>
    rw [NumType.constant, nearest_zero]
    rfl
  | double => rfl

theorem store_short (small : m < 2 ^ 63) (upper : BitVec 32) :
    ∃ b, NumType.real.constant m = .float b ∧
      ∀ isStatic, (Storage.declaration isStatic).store NumType.double.tid NumType.double.type upper
        (NumType.real.expr m) = some (.double (upper ++ b)) := by
  refine ⟨_, rfl, fun isStatic => ?_⟩
  cases isStatic with
  | true | false =>
    rw [Storage.store, genLiteral_expr small]
    rfl

theorem takes_static_double_iff (small : m < 2 ^ 63) :
    (Storage.declaration true).Takes .real .double m ↔ m = 0 := by
  obtain ⟨b, isConstant, store⟩ := store_short small 0
  have value : (Storage.declaration true).Takes .real .double m ↔
      Gives (some (.double ((0 : BitVec 32) ++ b))) (NumType.real.round m) := by
    rw [← store true]
    exact ⟨fun takes => takes 0 fun _ => rfl, fun gives upper isZero => by rwa [isZero rfl]⟩
  rw [value, gives_some]
  constructor
  · intro decodes
    have bits : ((0 : BitVec 32) ++ b).toNat < 2 ^ 52 := by
      rw [BitVec.toNat_append, ← Nat.shiftLeft_add_eq_or_of_lt b.isLt]
      exact (Nat.zero_add _).trans_lt (b.isLt.trans (by decide))
    have isZero := FloatFormat.eq_zero_of_decode_of_lt (by decide) bits decodes
    exact round_eq_zero_iff.1 (Int.natCast_eq_zero.1 isZero)
  · rintro rfl
    obtain rfl : 0 = b := by injection isConstant
    rw [round_eq_zero_iff.2 rfl]
    exact number_zero .double

theorem not_takes_local_double (small : m < 2 ^ 63) :
    ¬(Storage.declaration false).Takes .real .double m := by
  obtain ⟨b, -, store⟩ := store_short small (-1)
  exact not_takes_of_short (.inr rfl) (by decide) b (store false)

theorem takes_declaration_iff_keeps (isStatic : Bool) (small : m < 2 ^ 63) :
    (Storage.declaration isStatic).Takes s dst m ↔
      (Storage.declaration isStatic).Keeps s dst m := by
  by_cases meets : dst = s ∨ dst.IsWhole ∨ s.IsWhole ∧ dst = .double
  · have apart : ¬(isStatic = true ∧ s = .real ∧ dst = .double ∧ m = 0) := by
      rintro ⟨-, rfl, rfl, -⟩
      simp [NumType.IsWhole] at meets
    rw [takes_declaration_iff meets isStatic small, Storage.Keeps, or_iff_left apart, ← and_assoc,
      and_iff_left meets]
  · have fails : ¬(s.Exact m ∧ dst.Has (s.round m) ∧
        (dst = s ∨ dst.IsWhole ∨ s.IsWhole ∧ dst = .double)) := fun keeps => meets keeps.2.2
    rw [Storage.Keeps, or_iff_right fails]
    cases dst with
    | int => exact absurd (.inr (.inl (.inl rfl))) meets
    | long => exact absurd (.inr (.inl (.inr rfl))) meets
    | real =>
      refine iff_of_false (not_takes_declaration_real isStatic fun same => ?_) (by simp)
      exact meets (.inl same.symm)
    | double =>
      cases s with
      | int => exact absurd (.inr (.inr ⟨.inl rfl, rfl⟩)) meets
      | long => exact absurd (.inr (.inr ⟨.inr rfl, rfl⟩)) meets
      | double => exact absurd (.inl rfl) meets
      | real =>
        cases isStatic with
        | true =>
          rw [takes_static_double_iff small]
          simp
        | false => exact iff_of_false (not_takes_local_double small) (by simp)

theorem takes_field_iff_keeps (small : m < 2 ^ 63) :
    Storage.field.Takes s dst m ↔ Storage.field.Keeps s dst m := by
  by_cases meets : Meets s dst
  · rw [takes_field_iff meets small, Storage.Keeps, ← and_assoc]
    exact (and_iff_left meets).symm
  · refine iff_of_false ?_ fun keeps => meets keeps.2.2
    cases s with
    | int => exact absurd (.inr (.inr (.inl rfl))) meets
    | long => exact absurd (.inr (.inr (.inr rfl))) meets
    | real =>
      cases dst with
      | int => exact absurd (.inr (.inl (.inl rfl))) meets
      | long => exact absurd (.inr (.inl (.inr rfl))) meets
      | real => exact absurd (.inl rfl) meets
      | double =>
        refine not_takes_of_short (.inr rfl) (by decide)
          (BitVec.ofNat 32 (single.ofInt (double.nearest m))) ?_
        rw [Storage.store, genLiteral_expr small]
        rfl
    | double =>
      cases dst with
      | int => exact absurd (.inr (.inl (.inl rfl))) meets
      | long => exact absurd (.inr (.inl (.inr rfl))) meets
      | real => exact not_takes_of_none rfl
      | double => exact absurd (.inl rfl) meets

/-! ### Values as they are -/

theorem store_assignment (small : m < 2 ^ 63) (upper : BitVec 32) :
    Storage.assignment.store dst.tid dst.type upper (s.expr m) =
      stored dst.type upper (s.constant m) := by
  rw [Storage.store, genLiteral_expr small, Option.bind_some]

theorem takes_assignment_same (small : m < 2 ^ 63) :
    Storage.assignment.Takes s s m ↔ s.Exact m := by
  rw [takes_iff_of_store (c := some (s.constant m)), gives_constant_iff small]
  intro upper
  rw [store_assignment small]
  exact stored_self (s.type_constant m) upper

theorem takes_assignment_of_value {v : LlvmValue} (small : m < 2 ^ 63)
    (value : ∀ upper, stored dst.type upper (s.constant m) = some v) :
    Storage.assignment.Takes s dst m ↔ number v = some (.ofInt (s.round m)) := by
  rw [takes_iff_of_store (c := some v), gives_some]
  intro upper
  rw [store_assignment small]
  exact value upper

theorem takes_assignment_int_real (small : m < 2 ^ 63) :
    Storage.assignment.Takes .int .real m ↔ m = 0 := by
  rw [takes_assignment_of_value (v := .float (BitVec.ofInt 32 m)) small]
  · exact FloatFormat.decode_single_iff
  · exact fun upper => congrArg (some ∘ LlvmValue.float) (setWidth_append upper _)

theorem takes_assignment_long_double (small : m < 2 ^ 63) :
    Storage.assignment.Takes .long .double m ↔ m = 0 := by
  have bits := Conversions.decode_toNat_iff (w := 64) FloatFormat.apart_double (by decide) rfl
    (BitVec.ofInt 64 (m : Int))
  rw [toInt_ofInt_long small, Int.natCast_eq_zero] at bits
  rw [takes_assignment_of_value (v := .double (BitVec.ofInt 64 m)) small fun _ => rfl]
  exact bits

theorem takes_assignment_zero (same : s.IsShort ↔ dst.IsShort) :
    Storage.assignment.Takes s dst 0 := by
  have null (upper : BitVec 32) : stored dst.type upper (s.constant 0) = some dst.type.null := by
    rw [constant_zero]
    cases s with
    | int | real =>
      cases dst with
      | int => exact congrArg (some ∘ LlvmValue.i32) (setWidth_append upper 0)
      | real => exact congrArg (some ∘ LlvmValue.float) (setWidth_append upper 0)
      | long | double => exact absurd same (by simp [NumType.IsShort])
    | long | double =>
      cases dst with
      | int | real => exact absurd same (by simp [NumType.IsShort])
      | long | double => rfl
  rw [takes_assignment_of_value (by decide) null, round_eq_zero_iff.2 rfl]
  exact number_zero dst

theorem takes_assignment_double_long (small : m < 2 ^ 63)
    (takes : Storage.assignment.Takes .double .long m) : m = 0 := by
  rw [takes_assignment_of_value (v := .i64 (BitVec.ofNat 64 (double.ofInt m))) small fun _ => rfl]
    at takes
  have isInt : (BitVec.ofNat 64 (double.ofInt m)).toInt = double.nearest m :=
    ofInt_inj.1 (Option.some.inj takes)
  have isZero : (BitVec.ofNat 64 (double.ofInt m)).toInt = 0 := by
    refine FloatFormat.eq_zero_of_decode_toInt (w := 64) FloatFormat.apart_double rfl ?_
    rw [isInt]
    exact number_constant (s := .double) small
  rw [isInt, Int.natCast_eq_zero] at isZero
  exact FloatFormat.nearest_eq_zero_iff.1 isZero

theorem exact_real (short : m < 2 ^ 31) : NumType.real.Exact m := by
  rw [← NumType.result_eq_iff]
  have kept : double.nearest m = m := Logic.roundBits_of_lt (short.trans (by decide))
  rw [NumType.result, kept]
  rfl

theorem takes_assignment_real_int (small : m < 2 ^ 63)
    (takes : Storage.assignment.Takes .real .int m) : m = 0 := by
  let b : BitVec 32 := BitVec.ofNat 32 (single.ofInt (double.nearest m))
  have kept (upper : BitVec 32) : stored NumType.int.type upper (NumType.real.constant m) =
      some (.i32 b) := congrArg (some ∘ LlvmValue.i32) (setWidth_append upper b)
  have isInt : b.toInt = single.nearest m :=
    ofInt_inj.1 (Option.some.inj ((takes_assignment_of_value small kept).1 takes))
  have short : m < 2 ^ 31 := by
    by_contra long
    have large : 2 ^ 31 ≤ single.nearest m := Logic.two_pow_le_roundBits (Nat.le_of_not_lt long)
    have high := BitVec.toInt_lt (x := b)
    omega
  have isZero : b.toInt = 0 := by
    refine FloatFormat.eq_zero_of_decode_toInt (w := 32) FloatFormat.apart_single rfl ?_
    rw [isInt]
    exact gives_some.1 ((gives_constant_iff (s := .real) small).2 (exact_real short))
  rw [isInt, Int.natCast_eq_zero] at isZero
  exact FloatFormat.nearest_eq_zero_iff.1 isZero

theorem not_takes_assignment_of_short_place (large : ¬s.IsShort) (short : dst.IsShort)
    (small : m < 2 ^ 63) : ¬Storage.assignment.Takes s dst m := by
  refine not_takes_of_none ?_
  rw [store_assignment small]
  cases s with
  | int => exact absurd (.inl rfl) large
  | real => exact absurd (.inr rfl) large
  | long | double => rcases short with rfl | rfl <;> rfl

theorem not_takes_assignment_of_short_value (short : s.IsShort) (large : ¬dst.IsShort)
    (small : m < 2 ^ 63) : ¬Storage.assignment.Takes s dst m := by
  have wide : dst = .long ∨ dst = .double := by
    cases dst with
    | int => exact absurd (.inl rfl) large
    | real => exact absurd (.inr rfl) large
    | long => exact .inl rfl
    | double => exact .inr rfl
  obtain ⟨b, isOverwritten⟩ : ∃ b : BitVec 32, ∀ upper : BitVec 32,
      overwrite upper (s.constant m) = upper ++ b := by
    rcases short with rfl | rfl <;> exact ⟨_, fun _ => rfl⟩
  refine not_takes_of_short wide (by decide) b ?_
  have fits : storeSize (s.constant m).type ≤ storeSize dst.type := by
    rcases wide with rfl | rfl <;> rcases short with rfl | rfl <;> exact (by decide : 4 ≤ 8)
  rw [store_assignment small, stored, if_pos fits, isOverwritten]

theorem takes_assignment_iff_keeps (small : m < 2 ^ 63) :
    Storage.assignment.Takes s dst m ↔ Storage.assignment.Keeps s dst m := by
  by_cases same : dst = s
  · subst same
    rw [takes_assignment_same small, Storage.Keeps]
    refine ⟨fun exact => .inl ⟨exact, rfl⟩, ?_⟩
    rintro (⟨exact, -⟩ | ⟨rfl, -⟩)
    · exact exact
    · rw [← takes_assignment_same (by decide)]
      exact takes_assignment_zero Iff.rfl
  · rw [Storage.Keeps, or_iff_right fun keeps => same keeps.2]
    constructor
    · intro takes
      have sameSize : s.IsShort ↔ dst.IsShort := by
        constructor
        · intro short
          by_contra large
          exact not_takes_assignment_of_short_value short large small takes
        · intro short
          by_contra large
          exact not_takes_assignment_of_short_place large short small takes
      refine ⟨?_, sameSize⟩
      cases s with
      | int =>
        obtain rfl : dst = .real := (sameSize.1 (.inl rfl)).resolve_left same
        exact (takes_assignment_int_real small).1 takes
      | real =>
        obtain rfl : dst = .int := (sameSize.1 (.inr rfl)).resolve_right same
        exact takes_assignment_real_int small takes
      | long =>
        cases dst with
        | int | real => exact absurd sameSize (by simp [NumType.IsShort])
        | long => exact absurd rfl same
        | double => exact (takes_assignment_long_double small).1 takes
      | double =>
        cases dst with
        | int | real => exact absurd sameSize (by simp [NumType.IsShort])
        | long => exact takes_assignment_double_long small takes
        | double => exact absurd rfl same
    · rintro ⟨rfl, sameSize⟩
      exact takes_assignment_zero sameSize

/-! ### Global variables -/

theorem gives_null_iff (s dst : NumType) (m : Nat) :
    Gives (some dst.type.null) (s.round m) ↔ m = 0 := by
  rw [gives_some, number_zero, Option.some.injEq, ofInt_inj, eq_comm, Int.natCast_eq_zero,
    round_eq_zero_iff]

theorem result_eq_round_iff (floating : ¬s.IsWhole) (target : ¬dst.IsWhole) :
    dst.result m = s.round m ↔ dst.Has (s.round m) ∧ (s = .real → dst = .real → s.Exact m) ∧
      (s = .real → dst = .double → double.nearest m = single.nearest m) := by
  cases s with
  | int => exact absurd (.inl rfl) floating
  | long => exact absurd (.inr rfl) floating
  | real =>
    cases dst with
    | int => exact absurd (.inl rfl) target
    | long => exact absurd (.inr rfl) target
    | real =>
      rw [NumType.result_eq_iff]
      exact ⟨fun exact => ⟨single.fits_nearest m, fun _ _ => exact, nofun⟩,
        fun keeps => keeps.2.1 rfl rfl⟩
    | double =>
      constructor
      · intro same
        have same : double.nearest m = single.nearest m := Int.natCast_inj.1 same
        refine ⟨?_, nofun, fun _ _ => same⟩
        rw [NumType.round, ← same]
        exact double.fits_nearest m
      · exact fun keeps => Int.natCast_inj.2 (keeps.2.2 rfl rfl)
  | double =>
    cases dst with
    | int => exact absurd (.inl rfl) target
    | long => exact absurd (.inr rfl) target
    | real =>
      refine (Int.natCast_inj.trans FloatFormat.nearest_eq_iff).trans ?_
      exact ⟨fun fits => ⟨fits, nofun, nofun⟩, And.left⟩
    | double => exact iff_of_true rfl ⟨double.fits_nearest m, nofun, nofun⟩

theorem gives_constantInit_iff (small : m < 2 ^ 63) :
    Gives (constantInit dst.type (s.expr m)) (s.round m) ↔ s.InitKeeps dst m := by
  by_cases whole : s.IsWhole
  · by_cases target : dst.IsWhole
    · have init : constantInit dst.type (s.expr m) = some (dst.constant m) := by
        rcases whole with rfl | rfl <;> exact ofInteger_type target m
      have value := gives_constant_iff (s := dst) small
      rw [round_whole target] at value
      have kept : dst.Exact m ↔ dst.Has m := by
        rcases target with rfl | rfl
        · exact Iff.rfl
        · exact iff_of_true trivial small
      have notReal : s ≠ .real := fun isReal => not_isWhole_real (isReal ▸ whole)
      rw [init, round_whole whole, value, kept, NumType.InitKeeps, round_whole whole]
      exact ⟨fun has => ⟨iff_of_true whole target, has, fun isReal => absurd isReal notReal,
        fun isReal => absurd isReal notReal⟩, fun keeps => keeps.2.1⟩
    · have init : constantInit dst.type (s.expr m) = none := by
        cases dst with
        | int => exact absurd (.inl rfl) target
        | long => exact absurd (.inr rfl) target
        | real | double => rcases whole with rfl | rfl <;> rfl
      rw [init]
      exact iff_of_false not_gives_none fun keeps => target (keeps.1.1 whole)
  · by_cases target : dst.IsWhole
    · have init : constantInit dst.type (s.expr m) = none := by
        cases s with
        | int => exact absurd (.inl rfl) whole
        | long => exact absurd (.inr rfl) whole
        | real | double => rcases target with rfl | rfl <;> rfl
      rw [init]
      exact iff_of_false not_gives_none fun keeps => whole (keeps.1.2 target)
    · have init : constantInit dst.type (s.expr m) = some (dst.constant m) := by
        cases dst with
        | int => exact absurd (.inl rfl) target
        | long => exact absurd (.inr rfl) target
        | real =>
          cases s with
          | int => exact absurd (.inl rfl) whole
          | long => exact absurd (.inr rfl) whole
          | real | double => exact floatConstant_ofInt small
        | double =>
          cases s with
          | int => exact absurd (.inl rfl) whole
          | long => exact absurd (.inr rfl) whole
          | real | double => rfl
      rw [init, gives_some, number_constant small, Option.some.injEq, ofInt_inj, NumType.InitKeeps,
        and_iff_right (iff_of_false whole target)]
      exact result_eq_round_iff whole target

theorem takes_global_iff_keeps (small : m < 2 ^ 63) (isGlobal : storage = .threadLocal ∨
    storage = .staticField) : storage.Takes s dst m ↔ storage.Keeps s dst m := by
  rcases isGlobal with rfl | rfl
  · rw [takes_iff_of_store fun _ => rfl, Storage.Keeps]
    exact gives_constantInit_iff small
  · by_cases isReal : s = .real
    · subst isReal
      rw [takes_iff_of_store fun _ => rfl, Storage.Keeps, if_pos rfl]
      exact gives_null_iff .real dst m
    · have init (upper : BitVec 32) : Storage.staticField.store dst.tid dst.type upper (s.expr m) =
          constantInit dst.type (s.expr m) := by
        cases s with
        | real => exact absurd rfl isReal
        | int | long | double => rfl
      rw [takes_iff_of_store init, Storage.Keeps, if_neg isReal]
      exact gives_constantInit_iff small

theorem takes_iff_keeps (storage : Storage) (small : m < 2 ^ 63) :
    storage.Takes s dst m ↔ storage.Keeps s dst m := by
  cases storage with
  | declaration isStatic => exact takes_declaration_iff_keeps isStatic small
  | field => exact takes_field_iff_keeps small
  | assignment => exact takes_assignment_iff_keeps small
  | threadLocal => exact takes_global_iff_keeps small (.inl rfl)
  | staticField => exact takes_global_iff_keeps small (.inr rfl)

end Stores

/-! ## Elements of lists -/

section Elements

variable {s : NumType} {m : Nat}

theorem convert_constant (isLoop : Bool) (s : NumType) (m : Nat) :
    (if isLoop then Conversions.Path.loop else .element).convert s.tid s.tid s.type (s.constant m) =
      some (s.constant m) := by
  have unboxed : unboxFromPtr s.type (boxToPtr (s.constant m)) = s.constant m := by
    rw [← s.type_constant m]
    exact unboxFromPtr_boxToPtr _ (s.type_constant m ▸ s.type_ne_void)
  have read : some (unboxFromPtr s.type (boxToPtr (s.constant m))) = some (s.constant m) :=
    congrArg some unboxed
  cases isLoop with
  | true =>
    cases s with
    | int => rfl
    | long | real | double => exact read
  | false => cases s <;> exact read

end Elements

/-! ## Cases of a `switch` -/

section Switches

variable {ls : Layouts} {s : NumType} {m : Nat} {isLong : Bool} {values : List (Option Expr)}

theorem constantOf_expr (ls : Layouts) (whole : s.IsWhole) (m : Nat) :
    Switches.constantOf ls (s.expr m) = some (s.constant m) := by
  rcases whole with rfl | rfl <;> rfl

theorem constantOf_expr_eq_none (floating : ¬s.IsWhole) :
    Switches.constantOf ls (s.expr m) = none := by
  cases s with
  | int => exact absurd (.inl rfl) floating
  | long => exact absurd (.inr rfl) floating
  | real | double => rfl

theorem genSwitch_eq_some_iff {inst : Switches.SwitchInst} :
    Switches.genSwitch ls (subjectType isLong) values = some inst ↔
      SwitchVerifies ls (subjectType isLong) values ∧
        inst = ⟨Switches.caseConsts ls values, Switches.lastDefault values⟩ := by
  have isOn : Switches.switchType (subjectType isLong) = some (subjectType isLong) := by
    cases isLong <;> rfl
  rw [Switches.genSwitch, isOn, Option.bind_some, Option.ite_none_right_eq_some, eq_comm,
    Option.some.injEq, eq_comm]
  exact Iff.rfl

theorem target_eq_some_iff {e : Expr} {i : Nat} {v : LlvmValue}
    (verifies : SwitchVerifies ls (subjectType isLong) values)
    (there : values[i]? = some (some e)) :
    Switches.SwitchInst.target ⟨Switches.caseConsts ls values, Switches.lastDefault values⟩ v =
        some i ↔ Switches.constantOf ls e = some v := by
  constructor
  · intro entered
    rcases Switches.target_eq_some entered with isCase | isDefault
    · obtain ⟨e', there', folded⟩ := Switches.mem_caseConsts.1 isCase
      obtain rfl : e = e' := Option.some.inj (Option.some.inj (there.symm.trans there'))
      exact folded
    · cases there.symm.trans (Switches.lastDefault_eq_some isDefault)
  · intro folded
    have isCase : (v, i) ∈ Switches.caseConsts ls values :=
      Switches.mem_caseConsts.2 ⟨e, there, folded⟩
    cases found : (Switches.caseConsts ls values).find? fun c => c.1 = v with
    | none =>
      have differs := List.find?_eq_none.1 found _ isCase
      simp at differs
    | some c =>
      have same : c.1 = v := by simpa using List.find?_some found
      have place : c.2 = i := verifies.2 c (List.mem_of_find?_eq_some found) _ isCase same
      rw [Switches.SwitchInst.target, found, Option.map_some, place, Option.some_or]

theorem isWhole_subject (isLong : Bool) : (subject isLong).IsWhole := by
  cases isLong with
  | true => exact .inr rfl
  | false => exact .inl rfl

theorem type_subject (isLong : Bool) : (subject isLong).type = subjectType isLong := by
  cases isLong <;> rfl

theorem integer_constant (whole : s.IsWhole) : integer (s.constant m) = signed (s.constant m) := by
  rcases whole with rfl | rfl <;> rfl

theorem exists_integer_iff {n : Nat} :
    (∃ v, v.type = subjectType isLong ∧ integer v = some (n : Int)) ↔ (subject isLong).Has n := by
  constructor
  · rintro ⟨v, typed, value⟩
    cases isLong with
    | true =>
      cases v with
      | i64 b =>
        have high := BitVec.toInt_lt (x := b)
        rw [Option.some.inj value] at high
        exact Int.ofNat_lt.1 high
      | _ => cases typed
    | false =>
      cases v with
      | i32 b =>
        have high := BitVec.toInt_lt (x := b)
        rw [Option.some.inj value] at high
        exact Int.ofNat_lt.1 high
      | _ => cases typed
  · intro has
    refine ⟨(subject isLong).constant n, ?_, ?_⟩
    · rw [NumType.type_constant, type_subject]
    · rw [integer_constant (isWhole_subject isLong), signed_constant_iff (isWhole_subject isLong)]
      exact has

theorem forall_constantOf_iff (small : m < 2 ^ 63)
    (typed : ∀ c, Switches.constantOf ls (s.expr m) = some c → c.type = subjectType isLong) :
    (∀ v k, v.type = subjectType isLong → integer v = some k →
      (Switches.constantOf ls (s.expr m) = some v ↔ k = s.round m)) ↔
        s.IsWhole ∧ s.Exact m ∨ ¬s.IsWhole ∧ ¬(subject isLong).Has (s.round m) := by
  by_cases whole : s.IsWhole
  · have folded := constantOf_expr ls whole m
    have value : integer (s.constant m) = some (s.result m) :=
      (integer_constant whole).trans (signed_constant whole small)
    have isType := typed _ folded
    rw [or_iff_left fun both => both.1 whole, and_iff_right whole, ← NumType.result_eq_iff]
    constructor
    · exact fun only => (only _ _ isType value).1 folded
    · intro exact v k typed' value'
      rw [folded, Option.some.injEq, ← exact]
      constructor
      · rintro rfl
        exact Option.some.inj (value'.symm.trans value)
      · rintro rfl
        exact Switches.eq_of_integer (isType.trans typed'.symm) value value'
  · rw [or_iff_right fun both => whole both.1, and_iff_right whole, ← exists_integer_iff,
      constantOf_expr_eq_none whole]
    constructor
    · rintro only ⟨v, typed', value⟩
      cases (only v _ typed' value).2 rfl
    · intro none v k typed' value
      refine iff_of_false nofun ?_
      rintro rfl
      exact none ⟨v, typed', value⟩

theorem switchCase_iff (small : m < 2 ^ 63) (before after : List (Option Expr)) :
    (∀ inst, Switches.genSwitch ls (subjectType isLong) (before ++ some (s.expr m) :: after) =
      some inst → ∀ v k, v.type = subjectType isLong → integer v = some k →
        (inst.target v = some before.length ↔ k = s.round m)) ↔
      (SwitchVerifies ls (subjectType isLong) (before ++ some (s.expr m) :: after) →
        s.IsWhole ∧ s.Exact m ∨ ¬s.IsWhole ∧ ¬(subject isLong).Has (s.round m)) := by
  have there : (before ++ some (s.expr m) :: after)[before.length]? = some (some (s.expr m)) := by
    simp
  generalize before ++ some (s.expr m) :: after = values at there
  have typed (verifies : SwitchVerifies ls (subjectType isLong) values) (c : LlvmValue)
      (folded : Switches.constantOf ls (s.expr m) = some c) : c.type = subjectType isLong :=
    verifies.1 _ (Switches.mem_caseConsts.2 ⟨_, there, folded⟩)
  constructor
  · intro only verifies
    rw [← forall_constantOf_iff small (typed verifies)]
    intro v k isType value
    rw [← target_eq_some_iff verifies there]
    exact only _ (genSwitch_eq_some_iff.2 ⟨verifies, rfl⟩) v k isType value
  · intro keeps inst gen v k isType value
    obtain ⟨verifies, rfl⟩ := genSwitch_eq_some_iff.1 gen
    rw [target_eq_some_iff verifies there]
    exact (forall_constantOf_iff small (typed verifies)).2 (keeps verifies) v k isType value

end Switches

/-! ## Patterns of a `match` -/

section Matches

open Match

variable {ls : Layouts} {m : Nat} {isLong : Bool} {patterns : List MatchPattern} {v : Scrutinee}

theorem genMatch_eq_some_iff {code : Code} : genMatch ls (subjectType isLong) patterns = some code ↔
    MatchVerifies ls patterns ∧
      code = .switch 32 (switchCases ls 32 patterns) (wildcardArm patterns) := by
  have isWidth : switchWidth (subjectType isLong) = some 32 := by cases isLong <;> rfl
  have notPtr : subjectType isLong ≠ .ptr := by cases isLong <;> nofun
  rw [Match.genMatch_eq_some_iff, isWidth, MatchVerifies, and_assoc]
  constructor
  · rintro (⟨-, isPtr, -⟩ | ⟨noStr, width, same, nodup, isCode⟩)
    · exact absurd isPtr notPtr
    · obtain rfl := Option.some.inj same
      exact ⟨noStr, nodup, isCode⟩
  · exact fun ⟨noStr, nodup, isCode⟩ => .inr ⟨noStr, 32, rfl, nodup, isCode⟩

theorem exists_number (typed : v.type = subjectType isLong) :
    v.width = 32 ∧ ∃ l, v.number = some l ∧ v.lead = some l := by
  cases isLong with
  | true =>
    cases v with
    | long n => exact ⟨rfl, _, rfl, rfl⟩
    | _ => cases typed
  | false =>
    cases v with
    | int n | enum n => exact ⟨rfl, _, rfl, rfl⟩
    | _ => cases typed

/-- The code enters the arm of a number exactly on the values with its lower bits. -/
theorem run_eq_arm_iff {n l : Int} {i : Nat} (verifies : MatchVerifies ls patterns)
    (width : v.width = 32) (lead : v.lead = some l) (there : patterns[i]? = some (.intLit n)) :
    (Code.switch 32 (switchCases ls 32 patterns) (wildcardArm patterns)).run v = .arm i ↔
      n ≡ l [ZMOD 2 ^ 32] := by
  have apart := (nodup_switchCases_iff ls 32 patterns).1 verifies.2
  have agrees := @any_caseNumber_iff ls _ _ lead (.intLit n)
  have isCase : Match.Agrees ls v (.intLit n) ↔ n ≡ l [ZMOD 2 ^ 32] := by
    rw [Match.Agrees, width]
    constructor
    · rintro ⟨n', l', isNumber, isLead, same⟩
      cases isNumber
      cases lead.symm.trans isLead
      exact same
    · exact fun same => ⟨n, l, rfl, lead, same⟩
  have run := @run_switch_eq_arm_iff ls _ _ lead patterns i
  rw [width] at run agrees
  rw [run, ← isCase, ← agrees]
  constructor
  · rintro (first | ⟨-, isWild⟩)
    · have passes := (findIdx?_eq_some_iff.1 first).1
      rwa [there] at passes
    · have wild := (wildcardArm_eq_some_iff.1 isWild).1
      rw [there] at wild
      cases wild
  · intro passes
    refine .inl (Switches.findIdx?_eq_of_unique there passes fun j p isThere isHit => ?_)
    have hit := @any_caseNumber_iff ls _ _ lead p
    rw [width] at hit
    obtain ⟨n', l', isNumber, isLead, same⟩ := hit.1 isHit
    cases lead.symm.trans isLead
    rw [width] at same
    have agree : n ≡ n' [ZMOD 2 ^ 32] := (isCase.1 (agrees.1 passes)).trans same.symm
    obtain ⟨inside, atPlace⟩ := List.getElem?_eq_some_iff.1 there
    obtain ⟨inside', atPlace'⟩ := List.getElem?_eq_some_iff.1 isThere
    rcases Nat.lt_trichotomy j i with before | same | behind
    · have differs := List.pairwise_iff_getElem.1 apart j i inside' inside before
      rw [atPlace, atPlace'] at differs
      exact absurd agree.symm (differs n' n isNumber rfl)
    · exact same
    · have differs := List.pairwise_iff_getElem.1 apart i j inside inside' behind
      rw [atPlace, atPlace'] at differs
      exact absurd agree (differs n n' rfl isNumber)

/-- An `int` is the only one with its lower bits; a `long` is not. -/
theorem forall_modEq_iff : (∀ v : Scrutinee, v.type = subjectType isLong → ∀ l, v.number = some l →
    ((m : Int) ≡ l [ZMOD 2 ^ 32] ↔ l = m)) ↔ isLong = false ∧ NumType.int.Exact m := by
  constructor
  · intro only
    cases isLong with
    | true =>
      have value {k : Nat} (small : k < 2 ^ 63) (same : (m : Int) ≡ k [ZMOD 2 ^ 32]) : k = m :=
        Int.natCast_inj.1 ((only (.long (BitVec.ofInt 64 k)) rfl k
          (congrArg some (toInt_ofInt_long small))).1 same)
      have lower : (m : Int) ≡ (m % 2 ^ 32 : Nat) [ZMOD 2 ^ 32] := by
        unfold Int.ModEq
        omega
      have higher : (m : Int) ≡ (m % 2 ^ 32 + 2 ^ 32 : Nat) [ZMOD 2 ^ 32] := by
        unfold Int.ModEq
        omega
      have first := value (by omega) lower
      have second := value (by omega) higher
      omega
    | false =>
      refine ⟨rfl, toInt_ofInt_eq_iff.1 ((only (.int (BitVec.ofInt 32 m)) rfl _ rfl).1 ?_)⟩
      rw [← ofInt_eq_iff]
      exact BitVec.ofInt_toInt.symm
  · rintro ⟨rfl, exact⟩ v typed l value
    obtain ⟨b, rfl⟩ : ∃ b : BitVec 32, b.toInt = l := by
      cases v with
      | int b | enum b => exact ⟨b, Option.some.inj value⟩
      | _ => cases typed
    rw [← ofInt_eq_iff, BitVec.ofInt_toInt]
    constructor
    · intro same
      rw [← same]
      exact toInt_ofInt_eq_iff.2 exact
    · intro same
      rw [← same, BitVec.ofInt_toInt]

theorem matchArm_iff (before after : List MatchPattern) :
    (∀ code, genMatch ls (subjectType isLong) (before ++ .intLit m :: after) = some code →
      ∀ v : Scrutinee, v.type = subjectType isLong →
        (code.run v = .arm before.length ↔ v.number = some (m : Int))) ↔
      (MatchVerifies ls (before ++ .intLit m :: after) → isLong = false ∧ NumType.int.Exact m) := by
  have there : (before ++ .intLit m :: after)[before.length]? = some (.intLit (m : Int)) := by
    simp
  generalize before ++ .intLit (m : Int) :: after = patterns at there
  constructor
  · intro only verifies
    rw [← forall_modEq_iff]
    intro v typed l value
    obtain ⟨width, l', value', lead⟩ := exists_number typed
    cases value.symm.trans value'
    rw [← run_eq_arm_iff verifies width lead there,
      only _ (genMatch_eq_some_iff.2 ⟨verifies, rfl⟩) v typed, value, Option.some.injEq]
  · intro keeps code gen v typed
    obtain ⟨verifies, rfl⟩ := genMatch_eq_some_iff.1 gen
    obtain ⟨width, l, value, lead⟩ := exists_number typed
    rw [run_eq_arm_iff verifies width lead there, value, Option.some.injEq]
    exact forall_modEq_iff.2 (keeps verifies) v typed l value

end Matches

/-! ## The result -/

section Result

variable {stod : Lexer.Text → Option (BitVec 64)} {s : NumType} {m : Nat}

theorem Context.denotes_token_iff (ls : Layouts) (c : Context) (small : m < 2 ^ 63) :
    c.Denotes ls (s.token m) (s.round m) ↔ c.Keeps ls s m := by
  have only (P : Expr → Prop) : (∃ e, primaryExpr (s.token m) = some e ∧ P e) ↔ P (s.expr m) := by
    simp [primaryExpr_token]
  cases c with
  | place storage dst =>
    rw [Context.Denotes, only]
    simp only [NumType.lowerType_tid]
    exact takes_iff_keeps storage small
  | element isLoop =>
    rw [Context.Denotes, only, genLiteral_expr small, Option.bind_some, NumType.expr_tid,
      NumType.lowerType_tid, convert_constant]
    exact gives_constant_iff small
  | switchCase isLong before after =>
    rw [Context.Denotes, only]
    exact switchCase_iff small before after
  | matchArm isLong before after =>
    cases s with
    | int =>
      have pattern : matchPattern (NumType.int.token m) = some (.intLit (m : Int)) := rfl
      rw [Context.Denotes, pattern]
      simp only [Option.some.injEq, forall_eq']
      exact (matchArm_iff before after).trans ⟨fun keeps _ => keeps, fun keeps => keeps rfl⟩
    | long | real | double => exact iff_of_true nofun nofun

/-- An integer literal denotes its value in a context exactly if `std::stoll` accepts its digits
and the context keeps them. -/
theorem denotes_iff (ls : Layouts) (stod : Lexer.Text → Option (BitVec 64)) (l : Literal)
    (c : Context) : l.Denotes ls stod c ↔ l.value < 2 ^ 63 ∧ c.Keeps ls l.type l.value := by
  rw [Literal.Denotes, token_eq]
  by_cases small : l.value < 2 ^ 63
  · rw [if_pos small, and_iff_right small, ← Context.denotes_token_iff ls c small]
    simp [Literal.denoted]
  · rw [if_neg small]
    refine iff_of_false ?_ fun keeps => small keeps.1
    rintro ⟨t, noToken, -⟩
    cases noToken

/-- Three billions, without a suffix. -/
def threeBillions : Literal where
  digits := Logic.ascii "3000000000"
  suffix := .plain
  notEmpty := by decide +kernel
  isDigits := by decide +kernel

/-- A `long` is declared with `3000000000`, and is negative. -/
theorem not_denotes_threeBillions : ¬∀ (ls : Layouts) (stod : Lexer.Text → Option (BitVec 64))
    (l : Literal) (c : Context), l.Denotes ls stod c := by
  intro denotes
  obtain ⟨t, isToken, e, isExpr, gives⟩ :=
    denotes {} (fun _ => none) threeBillions (.place (.declaration false) .long)
  have value : threeBillions.value = 3000000000 := by decide +kernel
  have type : threeBillions.type = .int := rfl
  cases isToken
  cases isExpr
  obtain ⟨w, isStored, isNumber⟩ := gives 0 nofun
  have stored : w = .i64 (BitVec.ofInt 64 (-1294967296)) :=
    (Option.some.inj isStored).symm.trans (by decide +kernel)
  rw [stored, Literal.denoted, value, type] at isNumber
  exact absurd (ofInt_inj.1 (Option.some.inj isNumber)) (by decide)

end Result

end Dux.Codegen
