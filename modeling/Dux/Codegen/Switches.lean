import Dux.Codegen.Comparisons
import Dux.Logic.Runs

/-!
# Switch statements

`gen_switch` (`src/codegen/codegen.cpp`): the values of the cases are generated first, and those
that come out as integer constants become cases of an LLVM `switch`.  The blocks of the cases
follow each other in the order of the source.
-/

namespace Dux.Codegen.Switches

open TypeRegistry Dux.Logic

/-! ## Constant expressions -/

/-- The comparison of an operator. -/
def comparison : BinOp → Option Comparison
  | .eq => some .eq
  | .ne => some .ne
  | .lt => some .lt
  | .gt => some .gt
  | .le => some .le
  | .ge => some .ge
  | .add | .sub | .mul | .div | .mod | .and | .or | .rangeExcl | .rangeIncl => none

/-- An operator on two integers of one width: a quotient that does not exist is no constant, and a
range is taken for its start. -/
def integerOp (op : BinOp) {w : Nat} (a b : BitVec w) : Option (BitVec w) :=
  match op with
  | .add => some (a + b)
  | .sub => some (a - b)
  | .mul => some (a * b)
  | .div => if b = 0 ∨ a = BitVec.intMin w ∧ b = -1 then none else some (a.sdiv b)
  | .mod => if b = 0 ∨ a = BitVec.intMin w ∧ b = -1 then none else some (a.srem b)
  | .rangeExcl | .rangeIncl => some a
  | .eq | .ne | .lt | .gt | .le | .ge | .and | .or => none

/-- An operator on two values of one type. -/
def sameType (op : BinOp) : LlvmValue → LlvmValue → Option LlvmValue
  | .i1 a, .i1 b => (integerOp op a b).map .i1
  | .i32 a, .i32 b => (integerOp op a b).map .i32
  | .i64 a, .i64 b => (integerOp op a b).map .i64
  | _, _ => none

/-- `to_bool` on an integer. -/
def toBool : LlvmValue → Option (BitVec 1)
  | .i1 b => some b
  | .i32 b => some (BitVec.ofBool (b ≠ 0))
  | .i64 b => some (BitVec.ofBool (b ≠ 0))
  | .void | .float _ | .double _ | .ptr _ => none

/-- `gen_unary` on an integer. -/
def unaryValue (op : UnOp) (v : LlvmValue) : Option LlvmValue :=
  match op, v with
  | .neg, .i1 b => some (.i1 (-b))
  | .neg, .i32 b => some (.i32 (-b))
  | .neg, .i64 b => some (.i64 (-b))
  | .bitNot, .i1 b => some (.i1 (~~~b))
  | .bitNot, .i32 b => some (.i32 (~~~b))
  | .bitNot, .i64 b => some (.i64 (~~~b))
  | .not, v => (toBool v).map fun b => .i1 (~~~b)
  | .plus, v => some v
  | _, _ => none

/-- `gen_binary` on integers.  A logical operator makes a branch, whose result is no constant for
the builder (`folds`). -/
def binaryValue (folds : Bool) (op : BinOp) (l r : LlvmValue) : Option LlvmValue :=
  match op with
  | .and => if folds then none else (toBool l).bind fun a => (toBool r).map fun b => .i1 (a &&& b)
  | .or => if folds then none else (toBool l).bind fun a => (toBool r).map fun b => .i1 (a ||| b)
  | op => (Numbers.promote false l r).bind fun p =>
      match comparison op with
      | some c => (Comparisons.icmp c p.1 p.2).map fun b => .i1 (BitVec.ofBool b)
      | none => sameType op p.1 p.2

/-- `gen_member` on a variant of an enum without payloads. -/
def variantConstant (ls : Layouts) (enumName variantName : String) : Option LlvmValue :=
  (ls.enumTypes.lookup enumName).bind fun tid =>
    let ti := ls.types.info tid
    if Typing.hasPayload ti then none
    else match ti.variants.find? (·.name = variantName) with
      | some v => some (.i32 (BitVec.ofNat 32 v.tag))
      | none => some (.i32 0)

/-- The value of an expression made of literals, variants and `const` variables by operators.
With `folds` it is the constant that the builder makes of it, if it makes one: a `const`
variable is loaded as any other. -/
def evalConst (ls : Layouts) (folds : Bool) (load : String → Option LlvmValue) :
    Expr → Option LlvmValue
  | .intLit _ n => some (.i32 (BitVec.ofInt 32 n))
  | .longLit _ n => some (.i64 (BitVec.ofInt 64 n))
  | .boolLit _ b => some (.i1 (BitVec.ofBool b))
  | .ident _ name => if folds then none else load name
  | .unary _ op e _ => (evalConst ls folds load e).bind (unaryValue op)
  | .binary _ op l r => (evalConst ls folds load l).bind fun a =>
      (evalConst ls folds load r).bind (binaryValue folds op a)
  | .member _ (.ident _ enumName) variantName => variantConstant ls enumName variantName
  | _ => none

/-- The integer constant that `gen_expr` makes of an expression. -/
def constantOf (ls : Layouts) (e : Expr) : Option LlvmValue := evalConst ls true (fun _ => none) e

/-- The tag of a variant without payload, of an enum with payloads. -/
def emptyVariantTag (ls : Layouts) : Expr → Option Int
  | .member _ (.ident _ enumName) variantName =>
      (ls.enumTypes.lookup enumName).bind fun tid =>
        ((ls.types.info tid).variants.find? (·.name = variantName)).bind fun v =>
          if v.payload.isEmpty then some (v.tag : Int) else none
  | _ => none

/-- The number that a constant expression is. -/
def caseNumber (ls : Layouts) (load : String → Option LlvmValue) (e : Expr) : Option Int :=
  match evalConst ls false load e with
  | some v => Payload.integer v
  | none => emptyVariantTag ls e

/-! ## Code generation -/

/-- The `switch` instruction: constants with the blocks they lead to, and the block for the rest,
which is behind the end if there is none. -/
structure SwitchInst where
  cases : List (LlvmValue × Nat)
  default : Option Nat
  deriving DecidableEq

def caseConsts (ls : Layouts) (values : List (Option Expr)) : List (LlvmValue × Nat) :=
  values.zipIdx.filterMap fun c => (c.1.bind (constantOf ls)).map fun v => (v, c.2)

/-- The case that `setDefaultDest` was called for last. -/
def lastDefault (values : List (Option Expr)) : Option Nat :=
  ((values.zipIdx.filter fun c => c.1.isNone).getLast?).map Prod.snd

/-- The type that the `switch` is on: anything but an integer must convert to a `long`. -/
def switchType (t : LlvmType) : Option LlvmType :=
  if t.isInt then some t else if t.isFp then some .i64 else none

/-- `gen_switch`, by the type of the value and the values of the cases, `none` for `default`.
The module verifier rejects cases of another type and a case that is there twice. -/
def genSwitch (ls : Layouts) (t : LlvmType) (values : List (Option Expr)) : Option SwitchInst :=
  (switchType t).bind fun on =>
    let cases := caseConsts ls values
    if (∀ a ∈ cases, a.1.type = on) ∧ ∀ a ∈ cases, ∀ b ∈ cases, a.1 = b.1 → a.2 = b.2 then
      some ⟨cases, lastDefault values⟩
    else none

namespace SwitchInst

def target (inst : SwitchInst) (v : LlvmValue) : Option Nat :=
  ((inst.cases.find? fun c => c.1 = v).map Prod.snd).or inst.default

/-- The blocks from a place on: each branches to the next one, the last one to the end. -/
def runBlocks {σ : Type} (bodies : List (Run σ)) : Nat → Nat → Run σ
  | 0, _ => Run.skip
  | n + 1, i =>
      match bodies[i]? with
      | some body => body.seq (runBlocks bodies n (i + 1))
      | none => Run.skip

def run {σ : Type} (inst : SwitchInst) (bodies : List (Run σ)) (v : LlvmValue) : Run σ :=
  match inst.target v with
  | some i => (runBlocks bodies bodies.length i).breakable
  | none => Run.skip

end SwitchInst

/-! ## Meaning -/

/-- The case to enter: the first with that number, or the default. -/
def chosen (numbers : List (Option Int)) (n : Int) : Option Nat :=
  (numbers.findIdx? (· = some n)).or (numbers.findIdx? (· = none))

/-- The bodies from the case on, as far as no `break`. -/
def caseRun {σ : Type} (bodies : List (Run σ)) : Option Nat → Run σ
  | some i => (Run.fallThrough (bodies.drop i)).breakable
  | none => Run.skip

/-- The cases have these numbers; `none` for `default`. -/
def Denote (ls : Layouts) (load : String → Option LlvmValue) (values : List (Option Expr))
    (numbers : List (Option Int)) : Prop :=
  values.map (Option.map (caseNumber ls load)) = numbers.map (Option.map some)

/-- The code enters the case of the value, runs from there, and enters every case for some
value. -/
structure Follows (inst : SwitchInst) (t : LlvmType) (numbers : List (Option Int)) : Prop where
  enters : ∀ v n, v.type = t → Payload.integer v = some n → inst.target v = chosen numbers n
  runs : ∀ (σ : Type) (bodies : List (Run σ)) (v : LlvmValue) (n : Int), v.type = t →
    Payload.integer v = some n → inst.run bodies v = caseRun bodies (chosen numbers n)
  reached : ∀ (i : Nat) (n : Int), numbers[i]? = some (some n) →
    ∃ v, v.type = t ∧ Payload.integer v = some n ∧ inst.target v = some i

/-- The types of the values: integers, truth values and enums. -/
def Switchable (types : TypeRegistry) (t : TypeId) : Prop :=
  t ∈ [TID_INT, TID_LONG, TID_BOOL] ∨ Comparisons.IsEnum types t

/-- The value is represented by an integer, every case by a constant of the same type, and no two
cases have the same number. -/
structure Regular (ls : Layouts) (t : LlvmType) (values : List (Option Expr))
    (numbers : List (Option Int)) : Prop where
  isInt : t.isInt = true
  constant : ∀ e, some e ∈ values → ∃ c, constantOf ls e = some c ∧ c.type = t
  distinct : ∀ (i j : Nat) (n : Int), numbers[i]? = some (some n) → numbers[j]? = some (some n) →
    i = j

variable {ls : Layouts} {load : String → Option LlvmValue} {values : List (Option Expr)}
  {numbers : List (Option Int)} {t : LlvmType} {v c : LlvmValue} {e : Expr} {i : Nat} {n : Int}

/-! ## Constants -/

theorem binaryValue_of_folds {op : BinOp} {l r : LlvmValue}
    (folded : binaryValue true op l r = some v) : binaryValue false op l r = some v := by
  cases op with
  | and | or => cases folded
  | _ => exact folded

theorem evalConst_of_constantOf (folded : constantOf ls e = some v) :
    evalConst ls false load e = some v := by
  unfold constantOf at folded
  fun_induction evalConst ls true (fun _ => none) e generalizing v with
  | case1 | case2 | case3 => exact folded
  | case4 => cases folded
  | case5 _ _ notFolds => exact absurd rfl notFolds
  | case6 _ op e _ ih =>
    obtain ⟨a, operand, value⟩ := Option.bind_eq_some_iff.1 folded
    exact Option.bind_eq_some_iff.2 ⟨a, ih operand, value⟩
  | case7 _ op l r ihl ihr =>
    obtain ⟨a, left, folded⟩ := Option.bind_eq_some_iff.1 folded
    obtain ⟨b, right, value⟩ := Option.bind_eq_some_iff.1 folded
    exact Option.bind_eq_some_iff.2 ⟨a, ihl left,
      Option.bind_eq_some_iff.2 ⟨b, ihr right, binaryValue_of_folds value⟩⟩
  | case8 => exact folded
  | case9 => cases folded

theorem caseNumber_of_constantOf (folded : constantOf ls e = some c) :
    caseNumber ls load e = Payload.integer c := by
  rw [caseNumber, evalConst_of_constantOf folded]

theorem eq_of_integer {w : LlvmValue} (type : v.type = w.type) (left : Payload.integer v = some n)
    (right : Payload.integer w = some n) : v = w := by
  cases v with
  | i1 a =>
    cases w with
    | i1 b =>
      have same := (Option.some.inj left).trans (Option.some.inj right).symm
      exact congrArg LlvmValue.i1 (BitVec.eq_of_toNat_eq (Int.ofNat.inj same))
    | _ => cases type
  | i32 a =>
    cases w with
    | i32 b =>
      have same := (Option.some.inj left).trans (Option.some.inj right).symm
      exact congrArg LlvmValue.i32 (BitVec.eq_of_toInt_eq same)
    | _ => cases type
  | i64 a =>
    cases w with
    | i64 b =>
      have same := (Option.some.inj left).trans (Option.some.inj right).symm
      exact congrArg LlvmValue.i64 (BitVec.eq_of_toInt_eq same)
    | _ => cases type
  | _ => cases left

/-! ## Cases by their places -/

theorem Denote.getElem? (denote : Denote ls load values numbers) (i : Nat) :
    (values[i]?).map (Option.map (caseNumber ls load)) = (numbers[i]?).map (Option.map some) := by
  simpa using congrArg (fun l => l[i]?) denote

theorem Denote.number (denote : Denote ls load values numbers)
    (there : values[i]? = some (some e)) :
    ∃ n, numbers[i]? = some (some n) ∧ caseNumber ls load e = some n := by
  have same := denote.getElem? i
  rw [there] at same
  cases found : numbers[i]? with
  | none => simp [found] at same
  | some number =>
    cases number with
    | none => simp [found] at same
    | some n => exact ⟨n, rfl, by simpa [found] using same⟩

theorem Denote.value (denote : Denote ls load values numbers)
    (there : numbers[i]? = some (some n)) :
    ∃ e, values[i]? = some (some e) ∧ caseNumber ls load e = some n := by
  have same := denote.getElem? i
  rw [there] at same
  cases found : values[i]? with
  | none => simp [found] at same
  | some value =>
    cases value with
    | none => simp [found] at same
    | some e => exact ⟨e, rfl, by simpa [found] using same⟩

theorem Denote.default_iff (denote : Denote ls load values numbers) :
    values[i]? = some none ↔ numbers[i]? = some none := by
  have same := denote.getElem? i
  cases value : values[i]? with
  | none =>
    cases number : numbers[i]? with
    | none => simp
    | some number => simp [value, number] at same
  | some value' =>
    cases number : numbers[i]? with
    | none => simp [value, number] at same
    | some number' =>
      rw [value, number] at same
      cases value' <;> cases number' <;> simp_all

theorem mem_caseConsts : (c, i) ∈ caseConsts ls values ↔
    ∃ e, values[i]? = some (some e) ∧ constantOf ls e = some c := by
  rw [caseConsts, List.mem_filterMap]
  constructor
  · rintro ⟨⟨value, j⟩, isThere, eq⟩
    obtain ⟨c', folded, pair⟩ := Option.map_eq_some_iff.1 eq
    obtain ⟨rfl, rfl⟩ := Prod.mk.inj pair
    obtain ⟨e, rfl, folded⟩ := Option.bind_eq_some_iff.1 folded
    exact ⟨e, List.mem_zipIdx_iff_getElem?.1 isThere, folded⟩
  · rintro ⟨e, there, folded⟩
    exact ⟨(some e, i), List.mem_zipIdx_iff_getElem?.2 there, by simp [folded]⟩

theorem lastDefault_eq_some (last : lastDefault values = some i) : values[i]? = some none := by
  obtain ⟨⟨value, j⟩, isLast, rfl⟩ := Option.map_eq_some_iff.1 last
  obtain ⟨isThere, isDefault⟩ := List.mem_filter.1 (List.mem_of_getLast? isLast)
  obtain rfl := Option.isNone_iff_eq_none.1 isDefault
  exact List.mem_zipIdx_iff_getElem?.1 isThere

theorem lastDefault_ne_none (there : values[i]? = some none) : lastDefault values ≠ none := by
  intro noDefault
  have empty := List.getLast?_eq_none_iff.1 (Option.map_eq_none_iff.1 noDefault)
  have isThere : (none, i) ∈ values.zipIdx.filter fun c => c.1.isNone :=
    List.mem_filter.2 ⟨List.mem_zipIdx_iff_getElem?.2 there, rfl⟩
  rw [empty] at isThere
  cases isThere

theorem getElem?_of_findIdx? {α : Type} {q : α → Bool} {l : List α}
    (found : l.findIdx? q = some i) :
    ∃ a, l[i]? = some a ∧ q a = true := by
  obtain ⟨inside, holds, -⟩ := List.findIdx?_eq_some_iff_getElem.1 found
  exact ⟨l[i], List.getElem?_eq_getElem inside, holds⟩

theorem findIdx?_eq_of_unique {α : Type} {q : α → Bool} {l : List α} {a : α}
    (there : l[i]? = some a) (holds : q a = true)
    (unique : ∀ (j : Nat) (b : α), l[j]? = some b → q b = true → j = i) :
    l.findIdx? q = some i := by
  cases found : l.findIdx? q with
  | none =>
    have fails := List.findIdx?_eq_none_iff.1 found a (List.mem_of_getElem? there)
    rw [holds] at fails
    cases fails
  | some j =>
    obtain ⟨b, isThere, isHit⟩ := getElem?_of_findIdx? found
    rw [unique j b isThere isHit]

theorem lastDefault_eq (denote : Denote ls load values numbers)
    (single : ∀ i j : Nat, values[i]? = some none → values[j]? = some none → i = j) :
    lastDefault values = numbers.findIdx? (· = none) := by
  cases last : lastDefault values with
  | none =>
    symm
    rw [List.findIdx?_eq_none_iff]
    intro number isThere
    obtain ⟨i, there⟩ := List.getElem?_of_mem isThere
    cases number with
    | none => exact absurd last (lastDefault_ne_none (denote.default_iff.2 there))
    | some n => simp
  | some i =>
    have there := lastDefault_eq_some last
    refine (findIdx?_eq_of_unique (denote.default_iff.1 there) (by simp) ?_).symm
    intro j number isThere isDefault
    obtain rfl : number = none := by simpa using isDefault
    exact single j i (denote.default_iff.2 isThere) there

/-! ## Blocks -/

theorem runBlocks_eq {σ : Type} (bodies : List (Run σ)) {k i : Nat}
    (enough : bodies.length ≤ k + i) :
    SwitchInst.runBlocks bodies k i = Run.fallThrough (bodies.drop i) := by
  induction k generalizing i with
  | zero =>
    rw [List.drop_eq_nil_of_le (by omega)]
    rfl
  | succ k ih =>
    unfold SwitchInst.runBlocks
    by_cases inside : i < bodies.length
    · rw [List.getElem?_eq_getElem inside, List.drop_eq_getElem_cons inside, Run.fallThrough,
        ih (by omega)]
    · rw [List.getElem?_eq_none (by omega), List.drop_eq_nil_of_le (by omega)]
      rfl

theorem run_eq {σ : Type} (inst : SwitchInst) (bodies : List (Run σ)) (v : LlvmValue) :
    inst.run bodies v = caseRun bodies (inst.target v) := by
  unfold SwitchInst.run caseRun
  cases inst.target v with
  | none => rfl
  | some i => exact congrArg Run.breakable (runBlocks_eq bodies (Nat.le_add_right _ _))

/-! ## The condition -/

theorem target_eq_some {inst : SwitchInst} (entered : inst.target v = some i) :
    (v, i) ∈ inst.cases ∨ inst.default = some i := by
  unfold SwitchInst.target at entered
  cases found : inst.cases.find? (fun c => c.1 = v) with
  | none => exact .inr (by simpa [found] using entered)
  | some c =>
    have isCase : c.1 = v := by simpa using List.find?_some found
    have place : c.2 = i := by simpa [found] using entered
    obtain ⟨v', i'⟩ := c
    subst isCase place
    exact .inl (List.mem_of_find?_eq_some found)

theorem genSwitch_eq_some {inst : SwitchInst} (gen : genSwitch ls t values = some inst) :
    ∃ on, switchType t = some on ∧ inst.cases = caseConsts ls values ∧
      inst.default = lastDefault values ∧ (∀ a ∈ inst.cases, a.1.type = on) ∧
      ∀ a ∈ inst.cases, ∀ b ∈ inst.cases, a.1 = b.1 → a.2 = b.2 := by
  obtain ⟨on, isOn, gen⟩ := Option.bind_eq_some_iff.1 gen
  rw [Option.ite_none_right_eq_some] at gen
  obtain ⟨⟨types, unique⟩, eq⟩ := gen
  cases eq
  exact ⟨on, isOn, rfl, rfl, types, unique⟩

theorem regular_of_follows (denote : Denote ls load values numbers) (notFp : t.isFp = false)
    {inst : SwitchInst} (gen : genSwitch ls t values = some inst)
    (follows : Follows inst t numbers) :
    Regular ls t values numbers := by
  obtain ⟨on, isOn, cases_, default, types, unique⟩ := genSwitch_eq_some gen
  have isInt : t.isInt = true := by
    rw [switchType, notFp] at isOn
    by_contra notInt
    simp [notInt] at isOn
  have on_eq : on = t := by
    rw [switchType, if_pos isInt] at isOn
    exact (Option.some.inj isOn).symm
  have isConst {i : Nat} {n : Int} (there : numbers[i]? = some (some n)) :
      ∃ v, Payload.integer v = some n ∧ v.type = t ∧ (v, i) ∈ inst.cases := by
    obtain ⟨v, type, isNumber, entered⟩ := follows.reached i n there
    rcases target_eq_some entered with isCase | isDefault
    · exact ⟨v, isNumber, type, isCase⟩
    · rw [default] at isDefault
      rw [denote.default_iff.1 (lastDefault_eq_some isDefault)] at there
      cases there
  refine ⟨isInt, fun e isThere => ?_, fun i j n first second => ?_⟩
  · obtain ⟨i, there⟩ := List.getElem?_of_mem isThere
    obtain ⟨n, isNumber, -⟩ := denote.number there
    obtain ⟨v, -, type, isCase⟩ := isConst isNumber
    rw [cases_] at isCase
    obtain ⟨e', there', folded⟩ := mem_caseConsts.1 isCase
    obtain rfl : e = e' := Option.some.inj (Option.some.inj (there.symm.trans there'))
    exact ⟨v, folded, type⟩
  · obtain ⟨v, isNumber, type, isCase⟩ := isConst first
    obtain ⟨w, isNumber', type', isCase'⟩ := isConst second
    have same : v = w := eq_of_integer (type.trans type'.symm) isNumber isNumber'
    exact unique _ isCase _ isCase' same

theorem number_of_mem (denote : Denote ls load values numbers)
    (isCase : (c, i) ∈ caseConsts ls values) :
    ∃ n, numbers[i]? = some (some n) ∧ Payload.integer c = some n := by
  obtain ⟨e, there, folded⟩ := mem_caseConsts.1 isCase
  obtain ⟨n, isNumber, eq⟩ := denote.number there
  exact ⟨n, isNumber, (caseNumber_of_constantOf folded).symm.trans eq⟩

theorem Regular.mem (regular : Regular ls t values numbers) (denote : Denote ls load values numbers)
    (there : numbers[i]? = some (some n)) :
    ∃ c, c.type = t ∧ Payload.integer c = some n ∧ (c, i) ∈ caseConsts ls values := by
  obtain ⟨e, isValue, eq⟩ := denote.value there
  obtain ⟨c, folded, type⟩ := regular.constant e (List.mem_of_getElem? isValue)
  exact ⟨c, type, (caseNumber_of_constantOf folded).symm.trans eq,
    mem_caseConsts.2 ⟨e, isValue, folded⟩⟩

theorem Regular.genSwitch (regular : Regular ls t values numbers)
    (denote : Denote ls load values numbers) :
    genSwitch ls t values = some ⟨caseConsts ls values, lastDefault values⟩ := by
  have isOn : switchType t = some t := if_pos regular.isInt
  rw [Switches.genSwitch, isOn, Option.bind_some]
  refine if_pos ⟨?_, ?_⟩
  · rintro ⟨c, i⟩ isCase
    obtain ⟨e, there, folded⟩ := mem_caseConsts.1 isCase
    obtain ⟨c', folded', type⟩ := regular.constant e (List.mem_of_getElem? there)
    obtain rfl : c = c' := Option.some.inj (folded.symm.trans folded')
    exact type
  · rintro ⟨c, i⟩ first ⟨c', j⟩ second same
    obtain ⟨n, isNumber, eq⟩ := number_of_mem denote first
    obtain ⟨n', isNumber', eq'⟩ := number_of_mem denote second
    obtain rfl : c = c' := same
    obtain rfl : n = n' := Option.some.inj (eq.symm.trans eq')
    exact regular.distinct i j n isNumber isNumber'

theorem Regular.find? (regular : Regular ls t values numbers)
    (denote : Denote ls load values numbers) (type : v.type = t)
    (isNumber : Payload.integer v = some n) :
    ((caseConsts ls values).find? fun c => c.1 = v).map Prod.snd =
      numbers.findIdx? (· = some n) := by
  cases found : (caseConsts ls values).find? fun c => c.1 = v with
  | none =>
    symm
    rw [Option.map_none, List.findIdx?_eq_none_iff]
    intro number isThere
    obtain ⟨i, there⟩ := List.getElem?_of_mem isThere
    refine decide_eq_false fun hit => ?_
    obtain ⟨c, type', isNumber', isCase⟩ := regular.mem denote (hit ▸ there)
    have miss := List.find?_eq_none.1 found _ isCase
    exact miss (decide_eq_true (eq_of_integer (type'.trans type.symm) isNumber' isNumber))
  | some c =>
    obtain ⟨c, i⟩ := c
    obtain rfl : c = v := by simpa using List.find?_some found
    obtain ⟨n', there, eq⟩ := number_of_mem denote (List.mem_of_find?_eq_some found)
    obtain rfl : n' = n := Option.some.inj (eq.symm.trans isNumber)
    refine (findIdx?_eq_of_unique there (by simp) fun j number isThere hit => ?_).symm
    obtain rfl : number = some n' := by simpa using hit
    exact regular.distinct j i n' isThere there

theorem follows_of_regular (denote : Denote ls load values numbers)
    (single : ∀ i j : Nat, values[i]? = some none → values[j]? = some none → i = j)
    (regular : Regular ls t values numbers) :
    ∃ inst, genSwitch ls t values = some inst ∧ Follows inst t numbers := by
  have enters (v : LlvmValue) (n : Int) (type : v.type = t)
      (isNumber : Payload.integer v = some n) :
      SwitchInst.target ⟨caseConsts ls values, lastDefault values⟩ v = chosen numbers n := by
    rw [SwitchInst.target, chosen, regular.find? denote type isNumber, lastDefault_eq denote single]
  refine ⟨_, regular.genSwitch denote, enters, ?_, ?_⟩
  · intro σ bodies v n type isNumber
    rw [run_eq, enters v n type isNumber]
  · intro i n there
    obtain ⟨c, type, isNumber, -⟩ := regular.mem denote there
    refine ⟨c, type, isNumber, ?_⟩
    have first : numbers.findIdx? (· = some n) = some i :=
      findIdx?_eq_of_unique there (by simp) fun j number isThere hit => by
        obtain rfl : number = some n := by simpa using hit
        exact regular.distinct j i n isThere there
    rw [enters c n type isNumber, chosen, first]
    rfl

/-! ## The result -/

theorem isFp_of_switchable {types : TypeRegistry} {tid : TypeId}
    (switchable : Switchable types tid) :
    (lowerType types tid).isFp = false := by
  rcases switchable with builtin | isEnum
  · simp only [List.mem_cons, List.not_mem_nil, or_false] at builtin
    rcases builtin with rfl | rfl | rfl <;> rfl
  · have other (k : TypeId) (builtin : k ≤ TID_NULL) : tid ≠ k := isEnum.ne builtin
    simp only [lowerType, other TID_VOID (by decide), other TID_BOOL (by decide),
      other TID_INT (by decide), other TID_LONG (by decide), other TID_REAL (by decide),
      other TID_DOUBLE (by decide), other TID_STR (by decide), other TID_LIST (by decide),
      other TID_DICT (by decide), other TID_TUPLE (by decide), other TID_OBJECT (by decide),
      other TID_NULL (by decide), if_false, or_self]
    unfold lowerUserType
    split_ifs <;> rfl

/-- A `switch` is generated and enters the case of its value, the default or the end, and every
case for some value, exactly if the value is represented by an integer, its cases are constants
of the same type for the builder, and no two of them are the same number. -/
theorem follows_iff_regular {tid : TypeId} (switchable : Switchable ls.types tid)
    (denote : Denote ls load values numbers)
    (single : ∀ i j : Nat, values[i]? = some none → values[j]? = some none → i = j) :
    (∃ inst, genSwitch ls (lowerType ls.types tid) values = some inst ∧
      Follows inst (lowerType ls.types tid) numbers) ↔
      Regular ls (lowerType ls.types tid) values numbers := by
  constructor
  · rintro ⟨inst, gen, follows⟩
    exact regular_of_follows denote (isFp_of_switchable switchable) gen follows
  · exact follows_of_regular denote single

/-- `case -1`, `case 2`, and a default between them. -/
def defaultBetween : List (Option Expr) :=
  [some (.unary TID_INT .neg (.intLit TID_INT 1) true), none, some (.intLit TID_INT 2)]

theorem follows_defaultBetween : ∃ inst, genSwitch {} .i32 defaultBetween = some inst ∧
    Follows inst .i32 [some (-1), none, some 2] := by
  have single (i j : Nat) (first : defaultBetween[i]? = some none)
      (second : defaultBetween[j]? = some none) : i = j := by
    rcases i with _ | _ | _ | i <;> rcases j with _ | _ | _ | j <;> simp_all [defaultBetween]
  have switchable : Switchable ({} : Layouts).types TID_INT := .inl (by decide)
  have denote : Denote {} (fun _ => none) defaultBetween [some (-1), none, some 2] := rfl
  refine (follows_iff_regular switchable denote single).2 ⟨rfl, ?_, ?_⟩
  · intro e isThere
    simp only [defaultBetween, List.mem_cons, Option.some.injEq, reduceCtorEq, List.not_mem_nil,
      or_false, false_or] at isThere
    rcases isThere with rfl | rfl
    · exact ⟨.i32 (-1), rfl, rfl⟩
    · exact ⟨.i32 2, rfl, rfl⟩
  · intro i j n first second
    rcases i with _ | _ | _ | i <;> rcases j with _ | _ | _ | j <;> simp at first second <;> omega

/-- The value of the variable after `const int K = 1`. -/
def constK (name : String) : Option LlvmValue := if name = "K" then some (.i32 1) else none

/-- `case K` is left out. -/
theorem not_follows_constK :
    ¬∀ (ls : Layouts) (load : String → Option LlvmValue) (tid : TypeId)
      (values : List (Option Expr)) (numbers : List (Option Int)), Switchable ls.types tid →
      Denote ls load values numbers → (∀ e, some e ∈ values → e.tid = tid) →
      (∀ i j : Nat, values[i]? = some none → values[j]? = some none → i = j) →
      ∃ inst, genSwitch ls (lowerType ls.types tid) values = some inst ∧
        Follows inst (lowerType ls.types tid) numbers := by
  intro follows
  obtain ⟨inst, gen, follows⟩ := follows {} constK TID_INT [some (.ident TID_INT "K")] [some 1]
    (.inl (by decide)) rfl (by simp [Expr.tid]) (by
      intro i j first
      rcases i with _ | i <;> simp at first)
  obtain rfl : (⟨[], none⟩ : SwitchInst) = inst := Option.some.inj gen
  have left := follows.enters (.i32 1) 1 rfl rfl
  exact absurd left (by decide)

end Dux.Codegen.Switches
