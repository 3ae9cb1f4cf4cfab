import Dux.Codegen.Numbers
import Dux.Codegen.Sites
import Dux.Logic.Comparison
import Dux.Runtime.Str
import Mathlib.Data.List.Lex
import Mathlib.Data.Sum.Order
import Mathlib.Order.WithBot

/-!
# Comparisons

The comparisons of `gen_binary` (`src/codegen/codegen.cpp`), on operands that are truth values,
integers, strings or enums.  Analysis accepts any two types.  What a comparison should decide
is a linear order on values: numbers by their order, strings by their characters.
-/

namespace Dux.Codegen.Comparisons

open TypeRegistry Dux.Logic Dux.Runtime

/-! ## Memory -/

/-- What is behind a pointer: the characters of a string, or the tag of an enum with payloads. -/
structure Memory where
  string : BitVec 64 → Option Bytes
  tag : BitVec 64 → Option (BitVec 32)

def duxrtStrEq (m : Memory) (a b : BitVec 64) : Option Bool :=
  if a = 0 ∧ b = 0 then some true
  else if a = 0 ∨ b = 0 then some false
  else do
    let x ← m.string a
    let y ← m.string b
    return decide (x.length = y.length) && decide (x = y)

/-! ## Comparisons as they are generated -/

def extractEnumTag (types : TypeRegistry) (m : Memory) (tid : TypeId) (v : LlvmValue) :
    Option LlvmValue :=
  if Typing.hasPayload (types.info tid) then
    match v with
    | .ptr p => (m.tag p).map .i32
    | _ => none
  else some v

/-- `CreateTruncOrBitCast` to `i32`. -/
def truncOrBitCast : LlvmValue → Option LlvmValue
  | .i32 b => some (.i32 b)
  | .i64 b => some (.i32 (b.setWidth 32))
  | .float b => some (.i32 b)
  | .void | .i1 _ | .double _ | .ptr _ => none

/-- `CreateICmp` with the predicate of an operator, which takes integers with their signs. -/
def icmpBits {w : Nat} (op : Comparison) (a b : BitVec w) : Bool :=
  match op with
  | .eq => a = b
  | .ne => a ≠ b
  | .lt => a.slt b
  | .gt => b.slt a
  | .le => a.sle b
  | .ge => b.sle a

def icmp (op : Comparison) : LlvmValue → LlvmValue → Option Bool
  | .i1 a, .i1 b => some (icmpBits op a b)
  | .i32 a, .i32 b => some (icmpBits op a b)
  | .i64 a, .i64 b => some (icmpBits op a b)
  | .ptr a, .ptr b => some (icmpBits op a b)
  | _, _ => none

/-- The call of `duxrt_str_eq`. -/
def strEquality (m : Memory) (op : Comparison) : LlvmValue → LlvmValue → Option Bool
  | .ptr a, .ptr b => (duxrtStrEq m a b).map fun eq => if op = .ne then !eq else eq
  | _, _ => none

/-- The comparison once no method is found for it. -/
def compareBuiltin (types : TypeRegistry) (m : Memory) (op : Comparison) (lt rt : TypeId)
    (l r : LlvmValue) : Option Bool :=
  (Numbers.promote false l r).bind fun (l, r) =>
    let leftEnum := Typing.isEnumType types lt
    let rightEnum := Typing.isEnumType types rt
    if op.isEquality ∧ lt = rt ∧ leftEnum then do
      icmp op (← extractEnumTag types m lt l) (← extractEnumTag types m rt r)
    else if op.isEquality ∧ lt ≠ rt ∧ (leftEnum ∨ rightEnum) then do
      let etid := if leftEnum then lt else rt
      let tagL ← bif leftEnum then extractEnumTag types m etid l else some l
      let tagR ← bif rightEnum then extractEnumTag types m etid r else some r
      icmp op (← truncOrBitCast tagL) (← truncOrBitCast tagR)
    else if op.isEquality ∧ (lt = TID_STR ∨ rt = TID_STR) then strEquality m op l r
    else icmp op l r

/-- What a comparison comes to: a truth value, or the call of a method. -/
inductive Outcome
  | bool (result : Bool)
  | call (symbol : String)
  deriving DecidableEq, Repr

/-- The comparisons of `gen_binary`, with the method that is found for the left operand. -/
def genCompare (types : TypeRegistry) (m : Memory) (callee : Option String) (op : Comparison)
    (lt rt : TypeId) (l r : LlvmValue) : Option Outcome :=
  match callee with
  | some symbol => some (.call symbol)
  | none => (compareBuiltin types m op lt rt l r).map .bool

/-! ## Values -/

/-- Numbers, and strings by their characters, with `null` before all others. -/
abbrev Value := Int ⊕ₗ WithBot (List Nat)

def Value.number (n : Int) : Value := Sum.inlₗ n

/-- A string that is not `null`. -/
def Value.text (s : Bytes) : Value := Sum.inrₗ (↑(s.map UInt8.toNat))

def Value.null : Value := Sum.inrₗ ⊥

/-- The value of an operand of a type; `none` when it is none of the type.  The value of an enum
is its variant. -/
def valueOf (types : TypeRegistry) (m : Memory) (tid : TypeId) : LlvmValue → Option Value
  | .i1 b => if tid = TID_BOOL then some (.number b.toNat) else none
  | .i32 b =>
      if tid = TID_INT ∨ Match.isEnum types false tid = true then some (.number b.toInt) else none
  | .i64 b => if tid = TID_LONG then some (.number b.toInt) else none
  | .ptr p =>
      if tid = TID_STR then if p = 0 then some .null else (m.string p).map .text
      else if Match.isEnum types true tid = true then (m.tag p).map (.number ·.toInt)
      else none
  | .void | .float _ | .double _ => none

def IsEnum (types : TypeRegistry) (t : TypeId) : Prop :=
  TID_NULL < t ∧ (types.info t).kind = .enum

/-- The pairs of operand types: two of one type, two numbers, and an enum with an integer. -/
inductive Comparable (types : TypeRegistry) : TypeId → TypeId → Prop
  | builtin {t : TypeId} (isBuiltin : t ∈ [TID_BOOL, TID_INT, TID_LONG, TID_STR]) :
      Comparable types t t
  | enums {t : TypeId} (isEnum : IsEnum types t) : Comparable types t t
  | numbers {t u : TypeId} (left : t ∈ [TID_BOOL, TID_INT, TID_LONG])
      (right : u ∈ [TID_BOOL, TID_INT, TID_LONG]) : Comparable types t u
  | enumLeft {t u : TypeId} (isEnum : IsEnum types t) (isInteger : u ∈ [TID_INT, TID_LONG]) :
      Comparable types t u
  | enumRight {t u : TypeId} (isInteger : t ∈ [TID_INT, TID_LONG]) (isEnum : IsEnum types u) :
      Comparable types t u

/-- A comparison of operands of these types compares their values, whatever they are. -/
def Agrees (types : TypeRegistry) (callee : Option String) (op : Comparison) (lt rt : TypeId) :
    Prop :=
  ∀ (m : Memory) (l r : LlvmValue) (x y : Value), valueOf types m lt l = some x →
    valueOf types m rt r = some y →
      genCompare types m callee op lt rt l r = some (.bool (op.holds x y))

/-- Integers, and enums that are represented by them. -/
def Whole (types : TypeRegistry) (t : TypeId) : Prop :=
  t = TID_INT ∨ t = TID_LONG ∨ Match.isEnum types false t = true

/-- The operators and types for which the code compares values: equality except between a truth
value and an integer and between an enum and a `long`, and order between integers and enums
that are represented by them. -/
def Coherent (types : TypeRegistry) (op : Comparison) (lt rt : TypeId) : Prop :=
  if op.isEquality then
    (lt = TID_BOOL ↔ rt = TID_BOOL) ∧ ¬(IsEnum types lt ∧ rt = TID_LONG) ∧
      ¬(lt = TID_LONG ∧ IsEnum types rt)
  else Whole types lt ∧ Whole types rt


variable {types : TypeRegistry} {m : Memory} {op : Comparison} {lt rt t u : TypeId}
  {l r v : LlvmValue} {x y : Value} {a b : Int} {callee : Option String}

/-! ## Comparisons of integers -/

@[simp]
theorem holds_number (op : Comparison) (a b : Int) :
    op.holds (Value.number a) (Value.number b) = op.holds a b :=
  Comparison.holds_of_strictMono Sum.Lex.inl_strictMono op a b

theorem icmpBits_eq {w : Nat} (op : Comparison) (a b : BitVec w) :
    icmpBits op a b = op.holds a.toInt b.toInt := by
  cases op with
  | eq => exact decide_eq_decide.2 BitVec.toInt_inj.symm
  | ne => exact decide_eq_decide.2 (not_congr BitVec.toInt_inj.symm)
  | lt | gt => rfl
  | le | ge => rfl

theorem icmp_of_signed (op : Comparison) (same : l.type = r.type)
    (left : Numbers.signed l = some a) (right : Numbers.signed r = some b) :
    icmp op l r = some (op.holds a b) := by
  cases l with
  | i1 c | i32 c | i64 c =>
    cases r with
    | i1 d | i32 d | i64 d =>
      first
        | obtain rfl := Option.some.inj left
          obtain rfl := Option.some.inj right
          exact congrArg some (icmpBits_eq op c d)
        | cases same
    | _ => cases right
  | _ => cases left

theorem compareBuiltin_of_signed
    (noTags : op.isEquality = true →
      Typing.isEnumType types lt = false ∧ Typing.isEnumType types rt = false)
    (noString : op.isEquality = true → lt ≠ TID_STR ∧ rt ≠ TID_STR)
    (left : Numbers.signed l = some a) (right : Numbers.signed r = some b) :
    compareBuiltin types m op lt rt l r = some (op.holds a b) := by
  obtain ⟨l', r', promotes, same, left, right⟩ := Numbers.promote_signed left right
  rw [compareBuiltin, promotes, Option.bind_some]
  have compares := icmp_of_signed op same left right
  cases equality : op.isEquality with
  | false => simpa [equality] using compares
  | true =>
    obtain ⟨leftEnum, rightEnum⟩ := noTags equality
    obtain ⟨leftStr, rightStr⟩ := noString equality
    simpa [equality, leftEnum, rightEnum, leftStr, rightStr] using compares

/-! ## Types -/

theorem isEnumType_iff (start : types.HasBuiltins) :
    Typing.isEnumType types t = true ↔ IsEnum types t := by
  rw [Typing.isEnumType, decide_eq_true_iff, IsEnum]
  refine and_congr_left fun isEnum => ⟨fun known => ?_, fun behind => ?_⟩
  · by_contra notBehind
    by_cases negative : t < 0
    · rw [info, if_pos negative, kind_head start] at isEnum
      cases isEnum
    · have nonneg := Int.not_lt.1 negative
      have builtin : t.toNat < builtins.length :=
        (Int.toNat_lt nonneg).2 (lt_of_le_of_lt (Int.not_lt.1 notBehind) (by decide))
      have kind := (sameType_of_builtin start (List.prefix_refl _) nonneg builtin).1
      rw [kind, ← Int.toNat_of_nonneg nonneg] at isEnum
      revert isEnum
      generalize t.toNat = i at builtin
      revert i
      decide
  · rintro rfl
    exact absurd behind (by decide)

theorem match_isEnum_iff {payload : Bool} : Match.isEnum types payload t = true ↔
    IsEnum types t ∧ Typing.hasPayload (types.info t) = payload := by
  simp [Match.isEnum, IsEnum, Typing.hasPayload, and_assoc]

theorem match_isEnum_of_le {payload : Bool} (builtin : t ≤ TID_NULL) :
    Match.isEnum types payload t = false := by
  rw [Match.isEnum, decide_eq_false (Int.not_lt.2 builtin)]
  rfl

theorem IsEnum.ne (isEnum : IsEnum types t) (builtin : u ≤ TID_NULL) : t ≠ u := by
  rintro rfl
  exact absurd isEnum.1 (Int.not_lt.2 builtin)

theorem isEnumType_of_builtin (start : types.HasBuiltins) (builtin : t ≤ TID_NULL) :
    Typing.isEnumType types t = false := by
  rw [← Bool.not_eq_true, isEnumType_iff start]
  exact fun isEnum => isEnum.ne builtin rfl

/-! ## Values of the types -/

theorem valueOf_bool (has : valueOf types m TID_BOOL v = some x) :
    ∃ c, v = .i1 c ∧ x = .number c.toNat := by
  have noEnum (payload : Bool) : Match.isEnum types payload TID_BOOL = false :=
    match_isEnum_of_le (by decide)
  cases v with
  | i1 c => exact ⟨c, rfl, (Option.some.inj has).symm⟩
  | i32 c | i64 c | ptr c => simp [valueOf, noEnum] at has
  | _ => cases has

theorem valueOf_str (has : valueOf types m TID_STR v = some x) :
    ∃ p, v = .ptr p ∧ (p = 0 ∧ x = .null ∨ p ≠ 0 ∧ ∃ s, m.string p = some s ∧ x = .text s) := by
  have noEnum (payload : Bool) : Match.isEnum types payload TID_STR = false :=
    match_isEnum_of_le (by decide)
  cases v with
  | ptr p =>
    refine ⟨p, rfl, ?_⟩
    rw [valueOf, if_pos rfl] at has
    by_cases isNull : p = 0
    · rw [if_pos isNull] at has
      exact .inl ⟨isNull, (Option.some.inj has).symm⟩
    · rw [if_neg isNull] at has
      obtain ⟨s, there, eq⟩ := Option.map_eq_some_iff.1 has
      exact .inr ⟨isNull, s, there, eq.symm⟩
  | i1 c | i32 c | i64 c => simp [valueOf, noEnum] at has
  | _ => cases has

theorem valueOf_whole (whole : Whole types t) (has : valueOf types m t v = some x) :
    ∃ n, Numbers.signed v = some n ∧ x = .number n := by
  have notStr : t ≠ TID_STR := by
    rcases whole with rfl | rfl | isEnum
    · decide
    · decide
    · exact (match_isEnum_iff.1 isEnum).1.ne (by decide)
  have notBool : t ≠ TID_BOOL := by
    rcases whole with rfl | rfl | isEnum
    · decide
    · decide
    · exact (match_isEnum_iff.1 isEnum).1.ne (by decide)
  have noPayload : Match.isEnum types true t = false := by
    rcases whole with rfl | rfl | isEnum
    · exact match_isEnum_of_le (by decide)
    · exact match_isEnum_of_le (by decide)
    · by_contra payload
      have payload := (match_isEnum_iff.1 (Bool.of_not_eq_false payload)).2
      rw [(match_isEnum_iff.1 isEnum).2] at payload
      cases payload
  cases v with
  | i1 c => simp [valueOf, notBool] at has
  | i32 c | i64 c =>
    rw [valueOf, Option.ite_none_right_eq_some] at has
    exact ⟨c.toInt, rfl, (Option.some.inj has.2).symm⟩
  | ptr p => simp [valueOf, notStr, noPayload] at has
  | _ => cases has

theorem extractEnumTag_of_isEnum (isEnum : IsEnum types t) (has : valueOf types m t v = some x) :
    ∃ tag, extractEnumTag types m t v = some (.i32 tag) ∧ x = .number tag.toInt := by
  have other {k : TypeId} (builtin : k ≤ TID_NULL) : t ≠ k := isEnum.ne builtin
  have notStr : t ≠ TID_STR := other (by decide)
  unfold extractEnumTag
  cases payload : Typing.hasPayload (types.info t) with
  | true =>
    have isPayload := match_isEnum_iff.2 ⟨isEnum, payload⟩
    have notSimple : ¬Match.isEnum types false t = true := fun simple => by
      rw [(match_isEnum_iff.1 simple).2] at payload
      cases payload
    cases v with
    | ptr p =>
      rw [valueOf, if_neg notStr, if_pos isPayload] at has
      obtain ⟨tag, there, eq⟩ := Option.map_eq_some_iff.1 has
      exact ⟨tag, by simp [there], eq.symm⟩
    | i1 c => simp [valueOf, other (by decide : TID_BOOL ≤ TID_NULL)] at has
    | i32 c => simp [valueOf, other (by decide : TID_INT ≤ TID_NULL), notSimple] at has
    | i64 c => simp [valueOf, other (by decide : TID_LONG ≤ TID_NULL)] at has
    | _ => cases has
  | false =>
    have notPayload : ¬Match.isEnum types true t = true := fun isPayload => by
      rw [(match_isEnum_iff.1 isPayload).2] at payload
      cases payload
    cases v with
    | i32 c =>
      rw [valueOf, Option.ite_none_right_eq_some] at has
      exact ⟨c, rfl, (Option.some.inj has.2).symm⟩
    | i1 c => simp [valueOf, other (by decide : TID_BOOL ≤ TID_NULL)] at has
    | i64 c => simp [valueOf, other (by decide : TID_LONG ≤ TID_NULL)] at has
    | ptr p => simp [valueOf, notStr, notPayload] at has
    | _ => cases has

/-! ## Where values are compared -/

theorem agrees_none (compares : ∀ m l r x y, valueOf types m lt l = some x →
    valueOf types m rt r = some y → compareBuiltin types m op lt rt l r = some (op.holds x y)) :
    Agrees types none op lt rt := fun m l r x y left right =>
  congrArg (Option.map Outcome.bool) (compares m l r x y left right)

theorem agrees_whole (start : types.HasBuiltins) (left : Whole types lt) (right : Whole types rt)
    (noTags : op.isEquality = true → ¬IsEnum types lt ∧ ¬IsEnum types rt) :
    Agrees types none op lt rt := by
  have notStr {t : TypeId} (whole : Whole types t) : t ≠ TID_STR := by
    rcases whole with rfl | rfl | isEnum
    · decide
    · decide
    · exact (match_isEnum_iff.1 isEnum).1.ne (by decide)
  refine agrees_none fun m l r x y hasLeft hasRight => ?_
  obtain ⟨a, leftSigned, rfl⟩ := valueOf_whole left hasLeft
  obtain ⟨b, rightSigned, rfl⟩ := valueOf_whole right hasRight
  rw [holds_number]
  refine compareBuiltin_of_signed (fun equality => ?_) (fun _ => ⟨notStr left, notStr right⟩)
    leftSigned rightSigned
  simpa [← isEnumType_iff start] using noTags equality

theorem holds_bits (equality : op.isEquality = true) (c d : BitVec 1) :
    op.holds c.toInt d.toInt = op.holds (c.toNat : Int) d.toNat := by
  revert c d
  cases op with
  | eq | ne => decide
  | lt | gt | le | ge => cases equality

theorem agrees_bool (start : types.HasBuiltins) (equality : op.isEquality = true) :
    Agrees types none op TID_BOOL TID_BOOL := by
  have notEnum : Typing.isEnumType types TID_BOOL = false :=
    isEnumType_of_builtin start (by decide)
  refine agrees_none fun m l r x y hasLeft hasRight => ?_
  obtain ⟨c, rfl, rfl⟩ := valueOf_bool hasLeft
  obtain ⟨d, rfl, rfl⟩ := valueOf_bool hasRight
  rw [holds_number, compareBuiltin_of_signed (fun _ => ⟨notEnum, notEnum⟩)
    (fun _ => ⟨by decide, by decide⟩) rfl rfl, holds_bits equality]

theorem text_inj {s s' : Bytes} : Value.text s = Value.text s' ↔ s = s' := by
  have inj : Function.Injective UInt8.toNat := fun _ _ => UInt8.toNat_inj.1
  simp [Value.text, inj.list_map.eq_iff]

theorem null_ne_text (s : Bytes) : Value.null ≠ Value.text s := by
  simp [Value.null, Value.text]

theorem duxrtStrEq_of_valueOf {p q : BitVec 64} (left : valueOf types m TID_STR (.ptr p) = some x)
    (right : valueOf types m TID_STR (.ptr q) = some y) :
    duxrtStrEq m p q = some (decide (x = y)) := by
  obtain ⟨_, ⟨⟩, left⟩ := valueOf_str left
  obtain ⟨_, ⟨⟩, right⟩ := valueOf_str right
  unfold duxrtStrEq
  rcases left with ⟨rfl, rfl⟩ | ⟨notNull, s, there, rfl⟩
  · rcases right with ⟨rfl, rfl⟩ | ⟨notNull', s', there', rfl⟩
    · simp
    · rw [if_neg fun both => notNull' both.2, if_pos (.inl rfl)]
      simp [null_ne_text]
  · rcases right with ⟨rfl, rfl⟩ | ⟨notNull', s', there', rfl⟩
    · rw [if_neg fun both => notNull both.1, if_pos (.inr rfl)]
      simp [(null_ne_text s).symm]
    · simp only [notNull, notNull', there, there', text_inj]
      by_cases same : s = s'
      · simp [same]
      · simp [same]

theorem agrees_str (start : types.HasBuiltins) (equality : op.isEquality = true) :
    Agrees types none op TID_STR TID_STR := by
  have notEnum : Typing.isEnumType types TID_STR = false :=
    isEnumType_of_builtin start (by decide)
  refine agrees_none fun m l r x y hasLeft hasRight => ?_
  obtain ⟨p, rfl, -⟩ := valueOf_str hasLeft
  obtain ⟨q, rfl, -⟩ := valueOf_str hasRight
  have eq := duxrtStrEq_of_valueOf hasLeft hasRight
  rw [compareBuiltin, Numbers.promote_eq_self (by simp [LlvmValue.type, LlvmType.isInt])]
  cases op with
  | eq => simp [notEnum, strEquality, eq, Comparison.isEquality, Comparison.holds]
  | ne => simp [notEnum, strEquality, eq, Comparison.isEquality, Comparison.holds]
  | lt | gt | le | ge => cases equality

theorem promote_enums (left : l.type = .i32 ∨ l.type = .ptr)
    (right : r.type = .i32 ∨ r.type = .ptr) : Numbers.promote false l r = some (l, r) := by
  refine Numbers.promote_eq_self ?_
  rcases left with left | left
  · rcases right with right | right
    · simp [left, right]
    · simp [right, LlvmType.isInt]
  · simp [left, LlvmType.isInt]

theorem type_of_isEnum (isEnum : IsEnum types t) (has : valueOf types m t v = some x) :
    v.type = .i32 ∨ v.type = .ptr := by
  cases v with
  | i32 c => exact .inl rfl
  | ptr p => exact .inr rfl
  | i1 c => simp [valueOf, isEnum.ne (by decide : TID_BOOL ≤ TID_NULL)] at has
  | i64 c => simp [valueOf, isEnum.ne (by decide : TID_LONG ≤ TID_NULL)] at has
  | _ => cases has

theorem valueOf_int (has : valueOf types m TID_INT v = some x) :
    ∃ c, v = .i32 c ∧ x = .number c.toInt := by
  have noEnum (payload : Bool) : Match.isEnum types payload TID_INT = false :=
    match_isEnum_of_le (by decide)
  cases v with
  | i32 c =>
    exact ⟨c, rfl, (Option.some.inj has).symm⟩
  | i1 c | i64 c | ptr c => simp [valueOf, noEnum] at has
  | _ => cases has

theorem agrees_enums (start : types.HasBuiltins) (isEnum : IsEnum types t)
    (equality : op.isEquality = true) : Agrees types none op t t := by
  refine agrees_none fun m l r x y hasLeft hasRight => ?_
  obtain ⟨c, left, rfl⟩ := extractEnumTag_of_isEnum isEnum hasLeft
  obtain ⟨d, right, rfl⟩ := extractEnumTag_of_isEnum isEnum hasRight
  rw [compareBuiltin,
    promote_enums (type_of_isEnum isEnum hasLeft) (type_of_isEnum isEnum hasRight)]
  simp [equality, (isEnumType_iff start).2 isEnum, left, right, icmp, icmpBits_eq]

section Mixed

variable {m : Memory} {l l' r r' tag a b : LlvmValue}

theorem compareBuiltin_enumLeft (start : types.HasBuiltins) (isEnum : IsEnum types t)
    (builtin : u ≤ TID_NULL) (equality : op.isEquality = true)
    (promoted : Numbers.promote false l r = some (l', r'))
    (extracts : extractEnumTag types m t l' = some tag) (left : truncOrBitCast tag = some a)
    (right : truncOrBitCast r' = some b) : compareBuiltin types m op t u l r = icmp op a b := by
  have differ : t ≠ u := isEnum.ne builtin
  rw [compareBuiltin, promoted]
  simp [equality, differ, (isEnumType_iff start).2 isEnum, isEnumType_of_builtin start builtin,
    extracts, left, right]

theorem compareBuiltin_enumRight (start : types.HasBuiltins) (isEnum : IsEnum types t)
    (builtin : u ≤ TID_NULL) (equality : op.isEquality = true)
    (promoted : Numbers.promote false l r = some (l', r'))
    (extracts : extractEnumTag types m t r' = some tag) (left : truncOrBitCast l' = some a)
    (right : truncOrBitCast tag = some b) : compareBuiltin types m op u t l r = icmp op a b := by
  have differ : u ≠ t := (isEnum.ne builtin).symm
  rw [compareBuiltin, promoted]
  simp [equality, differ, (isEnumType_iff start).2 isEnum, isEnumType_of_builtin start builtin,
    extracts, left, right]

end Mixed

theorem agrees_enumLeft (start : types.HasBuiltins) (isEnum : IsEnum types t)
    (equality : op.isEquality = true) : Agrees types none op t TID_INT := by
  refine agrees_none fun m l r x y hasLeft hasRight => ?_
  obtain ⟨c, left, rfl⟩ := extractEnumTag_of_isEnum isEnum hasLeft
  obtain ⟨d, rfl, rfl⟩ := valueOf_int hasRight
  rw [compareBuiltin_enumLeft start isEnum (by decide) equality
    (promote_enums (type_of_isEnum isEnum hasLeft) (.inl rfl)) left rfl rfl]
  simp [icmp, icmpBits_eq]

theorem agrees_enumRight (start : types.HasBuiltins) (isEnum : IsEnum types t)
    (equality : op.isEquality = true) : Agrees types none op TID_INT t := by
  refine agrees_none fun m l r x y hasLeft hasRight => ?_
  obtain ⟨c, rfl, rfl⟩ := valueOf_int hasLeft
  obtain ⟨d, right, rfl⟩ := extractEnumTag_of_isEnum isEnum hasRight
  rw [compareBuiltin_enumRight start isEnum (by decide) equality
    (promote_enums (.inl rfl) (type_of_isEnum isEnum hasRight)) right rfl rfl]
  simp [icmp, icmpBits_eq]

/-! ## Where they are not -/

theorem not_agrees (m : Memory) {l r : LlvmValue} {x y : Value} {result : Option Bool}
    (left : valueOf types m lt l = some x) (right : valueOf types m rt r = some y)
    (compares : compareBuiltin types m op lt rt l r = result)
    (differs : result ≠ some (op.holds x y)) : ¬Agrees types none op lt rt := by
  intro agrees
  have same := agrees m l r x y left right
  rw [genCompare, compares] at same
  cases result with
  | none => cases same
  | some b => exact differs (congrArg some (Outcome.bool.inj (Option.some.inj same)))

theorem holds_sign_left (op : Comparison) :
    ∃ n : Int, (n = 0 ∨ n = 1) ∧ op.holds (-1) n ≠ op.holds 1 n := by
  cases op with
  | eq | ne => exact ⟨1, .inr rfl, by decide⟩
  | lt | gt | le | ge => exact ⟨0, .inl rfl, by decide⟩

theorem holds_sign_right (op : Comparison) :
    ∃ n : Int, (n = 0 ∨ n = 1) ∧ op.holds n (-1) ≠ op.holds n 1 := by
  cases op with
  | eq | ne => exact ⟨1, .inr rfl, by decide⟩
  | lt | gt | le | ge => exact ⟨0, .inl rfl, by decide⟩

theorem valueOf_i32 (m : Memory) (c : BitVec 32) :
    valueOf types m TID_INT (.i32 c) = some (.number c.toInt) := by
  rw [valueOf, if_pos (.inl rfl)]

theorem exists_integer (isInteger : u ∈ [TID_INT, TID_LONG]) {n : Int} (small : n = 0 ∨ n = 1)
    (m : Memory) : ∃ v, valueOf types m u v = some (.number n) ∧ Numbers.signed v = some n := by
  rcases List.mem_cons.1 isInteger with rfl | isLong
  · rcases small with rfl | rfl
    · exact ⟨.i32 0, valueOf_i32 m 0, rfl⟩
    · exact ⟨.i32 1, valueOf_i32 m 1, rfl⟩
  · obtain rfl := List.mem_singleton.1 isLong
    rcases small with rfl | rfl
    · exact ⟨.i64 0, rfl, rfl⟩
    · exact ⟨.i64 1, rfl, rfl⟩

theorem integer_le (isInteger : u ∈ [TID_INT, TID_LONG]) : u ≤ TID_NULL ∧ u ≠ TID_STR := by
  revert isInteger
  simp only [List.mem_cons, List.not_mem_nil, or_false]
  rintro (rfl | rfl) <;> decide

theorem not_agrees_boolLeft (start : types.HasBuiltins) (op : Comparison)
    (isInteger : u ∈ [TID_INT, TID_LONG]) : ¬Agrees types none op TID_BOOL u := by
  obtain ⟨n, small, differs⟩ := holds_sign_left op
  let m : Memory := ⟨fun _ => none, fun _ => none⟩
  obtain ⟨v, has, isSigned⟩ :
      ∃ v, valueOf types m u v = some (.number n) ∧ Numbers.signed v = some n :=
    exists_integer isInteger small m
  refine not_agrees m (l := .i1 1) rfl has (compareBuiltin_of_signed
    (fun _ => ⟨isEnumType_of_builtin start (by decide),
      isEnumType_of_builtin start (integer_le isInteger).1⟩)
    (fun _ => ⟨by decide, (integer_le isInteger).2⟩) rfl isSigned) ?_
  rw [holds_number]
  exact fun same => differs (Option.some.inj same)

theorem not_agrees_boolRight (start : types.HasBuiltins) (op : Comparison)
    (isInteger : u ∈ [TID_INT, TID_LONG]) : ¬Agrees types none op u TID_BOOL := by
  obtain ⟨n, small, differs⟩ := holds_sign_right op
  let m : Memory := ⟨fun _ => none, fun _ => none⟩
  obtain ⟨v, has, isSigned⟩ :
      ∃ v, valueOf types m u v = some (.number n) ∧ Numbers.signed v = some n :=
    exists_integer isInteger small m
  refine not_agrees m (r := .i1 1) has rfl (compareBuiltin_of_signed
    (fun _ => ⟨isEnumType_of_builtin start (integer_le isInteger).1,
      isEnumType_of_builtin start (by decide)⟩)
    (fun _ => ⟨(integer_le isInteger).2, by decide⟩) isSigned rfl) ?_
  rw [holds_number]
  exact fun same => differs (Option.some.inj same)

theorem not_agrees_bool (order : op.isEquality = false) :
    ¬Agrees types none op TID_BOOL TID_BOOL := by
  let m : Memory := ⟨fun _ => none, fun _ => none⟩
  refine not_agrees m (l := .i1 1) (r := .i1 0) rfl rfl (compareBuiltin_of_signed
    (by simp [order]) (by simp [order]) rfl rfl) ?_
  rw [holds_number]
  cases op with
  | eq | ne => cases order
  | lt | gt | le | ge => decide

theorem compareBuiltin_ptr (order : op.isEquality = false) (p q : BitVec 64) :
    compareBuiltin types m op lt rt (.ptr p) (.ptr q) = some (op.holds p.toInt q.toInt) := by
  rw [compareBuiltin, Numbers.promote_eq_self (by simp [LlvmValue.type, LlvmType.isInt])]
  simp [order, icmp, icmpBits_eq]

theorem holds_ne_of_lt (order : op.isEquality = false) {α β : Type*} [LinearOrder α]
    [LinearOrder β] {a b : α} {x y : β} (less : a < b) (greater : y < x) :
    op.holds a b ≠ op.holds x y := by
  cases op with
  | eq | ne => cases order
  | lt | gt | le | ge =>
    simp [Comparison.holds, less, greater, less.le, greater.le, less.not_gt, greater.not_gt]

theorem not_agrees_str (order : op.isEquality = false) : ¬Agrees types none op TID_STR TID_STR := by
  let m : Memory := ⟨fun p => some (if p = 1 then [98] else [97]), fun _ => none⟩
  refine not_agrees m (l := .ptr 1) (r := .ptr 2) rfl rfl (compareBuiltin_ptr order 1 2) ?_
  exact fun same => holds_ne_of_lt order (by decide) (by decide) (Option.some.inj same)

theorem valueOf_payload (payload : Match.isEnum types true t = true) {p : BitVec 64}
    {tag : BitVec 32} (there : m.tag p = some tag) :
    valueOf types m t (.ptr p) = some (.number tag.toInt) := by
  have isEnum := (match_isEnum_iff.1 payload).1
  rw [valueOf, if_neg (isEnum.ne (by decide)), if_pos payload, there]
  rfl

theorem not_agrees_payload (order : op.isEquality = false)
    (payload : Match.isEnum types true t = true) : ¬Agrees types none op t t := by
  let m : Memory := ⟨fun _ => none, fun p => some (if p = 1 then 1 else 0)⟩
  refine not_agrees m (valueOf_payload payload (p := 1) rfl) (valueOf_payload payload (p := 2) rfl)
    (compareBuiltin_ptr order 1 2) ?_
  rw [holds_number]
  exact fun same => holds_ne_of_lt order (by decide) (by decide) (Option.some.inj same)

theorem compareBuiltin_ptr_integer (order : op.isEquality = false) {n : Int}
    (isSigned : Numbers.signed v = some n) (p : BitVec 64) :
    compareBuiltin types m op lt rt (.ptr p) v = none ∧
      compareBuiltin types m op lt rt v (.ptr p) = none := by
  rw [compareBuiltin, compareBuiltin,
    Numbers.promote_eq_self (by simp [LlvmValue.type, LlvmType.isInt]),
    Numbers.promote_eq_self (by simp [LlvmValue.type, LlvmType.isInt])]
  cases v with
  | i1 c | i32 c | i64 c => simp [order, icmp]
  | _ => cases isSigned

theorem not_agrees_payloadLeft (order : op.isEquality = false)
    (payload : Match.isEnum types true t = true) (isInteger : u ∈ [TID_INT, TID_LONG]) :
    ¬Agrees types none op t u := by
  let m : Memory := ⟨fun _ => none, fun _ => some 0⟩
  obtain ⟨v, has, isSigned⟩ :
      ∃ v, valueOf types m u v = some (.number 0) ∧ Numbers.signed v = some 0 :=
    exists_integer isInteger (.inl rfl) m
  exact not_agrees m (valueOf_payload payload (p := 1) rfl) has
    (compareBuiltin_ptr_integer order isSigned 1).1 nofun

theorem not_agrees_payloadRight (order : op.isEquality = false)
    (payload : Match.isEnum types true t = true) (isInteger : u ∈ [TID_INT, TID_LONG]) :
    ¬Agrees types none op u t := by
  let m : Memory := ⟨fun _ => none, fun _ => some 0⟩
  obtain ⟨v, has, isSigned⟩ :
      ∃ v, valueOf types m u v = some (.number 0) ∧ Numbers.signed v = some 0 :=
    exists_integer isInteger (.inl rfl) m
  exact not_agrees m has (valueOf_payload payload (p := 1) rfl)
    (compareBuiltin_ptr_integer order isSigned 1).2 nofun

theorem exists_tag (isEnum : IsEnum types t) (m : Memory) (there : m.tag 1 = some 0)
    (c : BitVec 64) :
    ∃ v l' e, valueOf types m t v = some (.number 0) ∧
      Numbers.promote false v (.i64 c) = some (l', .i64 c) ∧
      Numbers.promote false (.i64 c) v = some (.i64 c, l') ∧
      extractEnumTag types m t l' = some e ∧ truncOrBitCast e = some (.i32 0) := by
  cases payload : Typing.hasPayload (types.info t) with
  | true =>
    refine ⟨.ptr 1, .ptr 1, .i32 0, ?_, rfl, rfl, ?_, rfl⟩
    · exact valueOf_payload (match_isEnum_iff.2 ⟨isEnum, payload⟩) there
    · unfold extractEnumTag
      rw [if_pos payload]
      exact congrArg (Option.map LlvmValue.i32) there
  | false =>
    refine ⟨.i32 0, .i64 0, .i64 0, ?_, rfl, rfl, ?_, rfl⟩
    · rw [valueOf, if_pos (.inr (match_isEnum_iff.2 ⟨isEnum, payload⟩))]
      rfl
    · simp [extractEnumTag, payload]

theorem not_agrees_enumLong (start : types.HasBuiltins) (isEnum : IsEnum types t)
    (equality : op.isEquality = true) :
    ¬Agrees types none op t TID_LONG ∧ ¬Agrees types none op TID_LONG t := by
  let m : Memory := ⟨fun _ => none, fun _ => some 0⟩
  have cutOff : some (op.holds (0 : Int) 0) ≠ some (op.holds (Value.number 0)
      (Value.number (4294967296 : BitVec 64).toInt)) := by
    rw [holds_number]
    cases op with
    | eq | ne => decide
    | lt | gt | le | ge => cases equality
  have cutOff' : some (op.holds (0 : Int) 0) ≠ some (op.holds
      (Value.number (4294967296 : BitVec 64).toInt) (Value.number 0)) := by
    rw [holds_number]
    cases op with
    | eq | ne => decide
    | lt | gt | le | ge => cases equality
  obtain ⟨v, l', e, has, left, right, tag, cut⟩ := exists_tag isEnum m rfl 4294967296
  constructor
  · refine not_agrees m (r := .i64 4294967296) has rfl ?_ cutOff
    rw [compareBuiltin_enumLeft start isEnum (by decide) equality left tag cut rfl]
    simp [icmp, icmpBits_eq]
  · refine not_agrees m (l := .i64 4294967296) rfl has ?_ cutOff'
    rw [compareBuiltin_enumRight start isEnum (by decide) equality right tag rfl cut]
    simp [icmp, icmpBits_eq]

theorem exists_value (operand : t ∈ [TID_BOOL, TID_INT, TID_LONG, TID_STR] ∨ IsEnum types t) :
    ∃ v x, valueOf types ⟨fun _ => none, fun _ => some 0⟩ t v = some x := by
  rcases operand with isBuiltin | isEnum
  · simp only [List.mem_cons, List.not_mem_nil, or_false] at isBuiltin
    rcases isBuiltin with rfl | rfl | rfl | rfl
    · exact ⟨.i1 0, _, rfl⟩
    · exact ⟨.i32 0, _, valueOf_i32 _ 0⟩
    · exact ⟨.i64 0, _, rfl⟩
    · exact ⟨.ptr 0, _, rfl⟩
  · obtain ⟨v, _, _, has, -⟩ := exists_tag isEnum ⟨fun _ => none, fun _ => some 0⟩ rfl 0
    exact ⟨v, _, has⟩

theorem Comparable.operands (comparable : Comparable types lt rt) :
    (lt ∈ [TID_BOOL, TID_INT, TID_LONG, TID_STR] ∨ IsEnum types lt) ∧
      (rt ∈ [TID_BOOL, TID_INT, TID_LONG, TID_STR] ∨ IsEnum types rt) := by
  have number {t : TypeId} (isNumber : t ∈ [TID_BOOL, TID_INT, TID_LONG]) :
      t ∈ [TID_BOOL, TID_INT, TID_LONG, TID_STR] := List.mem_append_left [TID_STR] isNumber
  cases comparable with
  | builtin isBuiltin => exact ⟨.inl isBuiltin, .inl isBuiltin⟩
  | enums isEnum => exact ⟨.inr isEnum, .inr isEnum⟩
  | numbers left right => exact ⟨.inl (number left), .inl (number right)⟩
  | enumLeft isEnum isInteger => exact ⟨.inr isEnum, .inl (number (.tail _ isInteger))⟩
  | enumRight isInteger isEnum => exact ⟨.inl (number (.tail _ isInteger)), .inr isEnum⟩

theorem not_agrees_callee (comparable : Comparable types lt rt) (symbol : String) :
    ¬Agrees types (some symbol) op lt rt := by
  intro agrees
  obtain ⟨l, x, left⟩ := exists_value comparable.operands.1
  obtain ⟨r, y, right⟩ := exists_value comparable.operands.2
  cases agrees _ l r x y left right

/-! ## The result -/

theorem whole_of_mem (isInteger : u ∈ [TID_INT, TID_LONG]) : Whole types u := by
  rcases List.mem_cons.1 isInteger with rfl | isLong
  · exact .inl rfl
  · exact .inr (.inl (List.mem_singleton.1 isLong))

theorem whole_or_payload (isEnum : IsEnum types t) :
    Whole types t ∨ ¬Whole types t ∧ Match.isEnum types true t = true := by
  cases payload : Typing.hasPayload (types.info t) with
  | false => exact .inl (.inr (.inr (match_isEnum_iff.2 ⟨isEnum, payload⟩)))
  | true =>
    refine .inr ⟨?_, match_isEnum_iff.2 ⟨isEnum, payload⟩⟩
    rintro (isInt | isLong | simple)
    · exact isEnum.ne (by decide) isInt
    · exact isEnum.ne (by decide) isLong
    · rw [(match_isEnum_iff.1 simple).2] at payload
      cases payload

theorem agrees_order_iff (start : types.HasBuiltins) (comparable : Comparable types lt rt)
    (order : op.isEquality = false) :
    Agrees types none op lt rt ↔ Whole types lt ∧ Whole types rt := by
  have agrees {lt rt : TypeId} (left : Whole types lt) (right : Whole types rt) :
      Agrees types none op lt rt :=
    agrees_whole start left right fun equality => by simp [equality] at order
  refine ⟨fun isAgreed => ?_, fun whole => agrees whole.1 whole.2⟩
  cases comparable with
  | builtin isBuiltin =>
    simp only [List.mem_cons, List.not_mem_nil, or_false] at isBuiltin
    rcases isBuiltin with rfl | rfl | rfl | rfl
    · exact absurd isAgreed (not_agrees_bool order)
    · exact ⟨.inl rfl, .inl rfl⟩
    · exact ⟨.inr (.inl rfl), .inr (.inl rfl)⟩
    · exact absurd isAgreed (not_agrees_str order)
  | enums isEnum =>
    rcases whole_or_payload isEnum with whole | ⟨-, payload⟩
    · exact ⟨whole, whole⟩
    · exact absurd isAgreed (not_agrees_payload order payload)
  | numbers left right =>
    rcases List.mem_cons.1 left with rfl | left
    · rcases List.mem_cons.1 right with rfl | right
      · exact absurd isAgreed (not_agrees_bool order)
      · exact absurd isAgreed (not_agrees_boolLeft start op right)
    · rcases List.mem_cons.1 right with rfl | right
      · exact absurd isAgreed (not_agrees_boolRight start op left)
      · exact ⟨whole_of_mem left, whole_of_mem right⟩
  | enumLeft isEnum isInteger =>
    rcases whole_or_payload isEnum with whole | ⟨-, payload⟩
    · exact ⟨whole, whole_of_mem isInteger⟩
    · exact absurd isAgreed (not_agrees_payloadLeft order payload isInteger)
  | enumRight isInteger isEnum =>
    rcases whole_or_payload isEnum with whole | ⟨-, payload⟩
    · exact ⟨whole_of_mem isInteger, whole⟩
    · exact absurd isAgreed (not_agrees_payloadRight order payload isInteger)

theorem agrees_equality_iff (start : types.HasBuiltins) (comparable : Comparable types lt rt)
    (equality : op.isEquality = true) :
    Agrees types none op lt rt ↔ (lt = TID_BOOL ↔ rt = TID_BOOL) ∧
      ¬(IsEnum types lt ∧ rt = TID_LONG) ∧ ¬(lt = TID_LONG ∧ IsEnum types rt) := by
  have notEnum {t : TypeId} (builtin : t ≤ TID_NULL) : ¬IsEnum types t := fun isEnum =>
    isEnum.ne builtin rfl
  have notBool {t : TypeId} (isInteger : t ∈ [TID_INT, TID_LONG]) : t ≠ TID_BOOL := by
    rintro rfl
    exact absurd isInteger (by decide)
  cases comparable with
  | builtin isBuiltin =>
    simp only [List.mem_cons, List.not_mem_nil, or_false] at isBuiltin
    have builtin : lt ≤ TID_NULL := by
      rcases isBuiltin with rfl | rfl | rfl | rfl <;> decide
    refine iff_of_true ?_ ⟨Iff.rfl, fun long => notEnum builtin long.1,
      fun long => notEnum builtin long.2⟩
    rcases isBuiltin with rfl | rfl | rfl | rfl
    · exact agrees_bool start equality
    · exact agrees_whole start (.inl rfl) (.inl rfl) fun _ => ⟨notEnum builtin, notEnum builtin⟩
    · exact agrees_whole start (.inr (.inl rfl)) (.inr (.inl rfl)) fun _ =>
        ⟨notEnum builtin, notEnum builtin⟩
    · exact agrees_str start equality
  | enums isEnum =>
    exact iff_of_true (agrees_enums start isEnum equality)
      ⟨Iff.rfl, fun long => isEnum.ne (by decide) long.2, fun long => isEnum.ne (by decide) long.1⟩
  | numbers left right =>
    rcases List.mem_cons.1 left with rfl | left
    · rcases List.mem_cons.1 right with rfl | right
      · exact iff_of_true (agrees_bool start equality)
          ⟨Iff.rfl, fun long => absurd long.2 (by decide), fun long => absurd long.1 (by decide)⟩
      · exact iff_of_false (not_agrees_boolLeft start op right)
          fun coherent => notBool right (coherent.1.1 rfl)
    · rcases List.mem_cons.1 right with rfl | right
      · exact iff_of_false (not_agrees_boolRight start op left)
          fun coherent => notBool left (coherent.1.2 rfl)
      · have leftNot := notEnum (integer_le left).1
        have rightNot := notEnum (integer_le right).1
        exact iff_of_true
          (agrees_whole start (whole_of_mem left) (whole_of_mem right) fun _ => ⟨leftNot, rightNot⟩)
          ⟨iff_of_false (notBool left) (notBool right), fun long => leftNot long.1,
            fun long => rightNot long.2⟩
  | enumLeft isEnum isInteger =>
    rcases List.mem_cons.1 isInteger with rfl | isLong
    · exact iff_of_true (agrees_enumLeft start isEnum equality)
        ⟨iff_of_false (isEnum.ne (by decide)) (by decide), fun long => absurd long.2 (by decide),
          fun long => isEnum.ne (by decide) long.1⟩
    · obtain rfl := List.mem_singleton.1 isLong
      exact iff_of_false (not_agrees_enumLong start isEnum equality).1
        fun coherent => coherent.2.1 ⟨isEnum, rfl⟩
  | enumRight isInteger isEnum =>
    rcases List.mem_cons.1 isInteger with rfl | isLong
    · exact iff_of_true (agrees_enumRight start isEnum equality)
        ⟨iff_of_false (by decide) (isEnum.ne (by decide)), fun long => isEnum.ne (by decide) long.2,
          fun long => absurd long.1 (by decide)⟩
    · obtain rfl := List.mem_singleton.1 isLong
      exact iff_of_false (not_agrees_enumLong start isEnum equality).2
        fun coherent => coherent.2.2 ⟨rfl, isEnum⟩

/-- A comparison compares values exactly if no method is called for it, and it is an equality
that mixes neither a truth value with an integer nor an enum with a `long`, or an order of
integers and enums represented by them. -/
theorem agrees_iff (start : types.HasBuiltins) (op : Comparison)
    (comparable : Comparable types lt rt) :
    Agrees types callee op lt rt ↔ callee = none ∧ Coherent types op lt rt := by
  cases callee with
  | some symbol =>
    exact iff_of_false (not_agrees_callee comparable symbol) fun coherent => nomatch coherent.1
  | none =>
    rw [eq_self, true_and, Coherent]
    cases equality : op.isEquality with
    | true => simpa using agrees_equality_iff start comparable equality
    | false => simpa using agrees_order_iff start comparable equality

/-- Whenever all comparisons of a type compare values, they obey the laws of a linear order. -/
theorem lawful_of_agrees (agrees : ∀ op, Agrees types callee op t t) (m : Memory) :
    Comparison.Lawful fun op (a b : {v : LlvmValue // (valueOf types m t v).isSome}) =>
      genCompare types m callee op t t a b = some (.bool true) :=
  Comparison.lawful_of_value (fun v => (valueOf types m t v).get v.2) fun op a b => by
    rw [agrees op m a b _ _ (Option.some_get a.2).symm (Option.some_get b.2).symm]
    simp

theorem agrees_int_long : Agrees initial none .lt TID_INT TID_LONG :=
  (agrees_iff (List.prefix_refl _) .lt (.numbers (by decide) (by decide))).2
    ⟨rfl, .inl rfl, .inr (.inl rfl)⟩

/-- A `"b"` at a lower address than an `"a"`. -/
def twoStrings : Memory := ⟨fun p => some (if p = 1 then [98] else [97]), fun _ => none⟩

/-- `"b" < "a"` holds for some two strings. -/
theorem not_agrees_twoStrings : ¬∀ types : TypeRegistry, types.HasBuiltins →
    ∀ (op : Comparison) (lt rt : TypeId), Comparable types lt rt →
      Agrees types none op lt rt := by
  intro agrees
  have isLess := agrees initial (List.prefix_refl _) .lt TID_STR TID_STR (.builtin (by decide))
    twoStrings (.ptr 1) (.ptr 2) (.text [98]) (.text [97]) rfl rfl
  exact absurd isLess (by decide)

end Dux.Codegen.Comparisons
