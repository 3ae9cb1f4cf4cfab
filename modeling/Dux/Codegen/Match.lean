import Dux.Codegen.Emit
import Dux.Codegen.Lowering
import Dux.Codegen.Symbols
import Dux.Nodes
import Dux.Sema.Check
import Mathlib

/-!
# Match statements

How the code of `gen_match` (`src/codegen/codegen.cpp`) chooses an arm.  As soon
as one arm has a string for its pattern, the scrutinee is compared with the
strings one after the other; otherwise a `switch` compares it with constants of
32 bits, or of one bit for a `bool`.  Either way the last wildcard is what is
left when nothing else fits.

Against this stands the order of the source: the first arm whose pattern equals
the scrutinee, or is the wildcard.
-/

namespace Dux.Sema

/-- What the two names of an enum pattern stand for in `check_match`. -/
def variantOf (s : State) (enumName variantName : String) : Option EnumVariantInfo := do
  let sym ← lookupScopes s.scopes enumName
  let info := s.types.info sym.type
  if info.kind = .enum then info.variants.find? (·.name = variantName) else none

end Dux.Sema

namespace Dux.Codegen.Match

open TypeRegistry

/-! ## Scrutinees -/

/-- A value that a match decides on.  An enum without payloads is a number, any
other enum a block of memory that begins with one.  A string also begins with a
number, its reference count; the null pointer is no text. -/
inductive Scrutinee
  | int (n : BitVec 32)
  | long (n : BitVec 64)
  | bool (b : Bool)
  | str (text : Option ByteArray) (refcount : BitVec 32)
  | enum (tag : BitVec 32)
  | payload (tag : BitVec 32)

namespace Scrutinee

def type : Scrutinee → LlvmType
  | .int _ => .i32
  | .long _ => .i64
  | .bool _ => .i1
  | .str _ _ => .ptr
  | .enum _ => .i32
  | .payload _ => .ptr

def number : Scrutinee → Option Int
  | .int n => some n.toInt
  | .long n => some n.toInt
  | .bool b => some (if b then 1 else 0)
  | .str _ _ => none
  | .enum tag => some tag.toInt
  | .payload tag => some tag.toInt

def text : Scrutinee → Option ByteArray
  | .str text _ => text
  | .int _ | .long _ | .bool _ | .enum _ | .payload _ => none

end Scrutinee

/-- The match statements of a program: the scrutinee and the patterns. -/
def matchesOf (prog : Program) : List (Expr × List MatchPattern) :=
  (nodesOf prog).filterMap fun
    | .stmt (.matchStmt e arms) => some (e, arms.map Sema.armPattern)
    | _ => none

def isEnum (types : TypeRegistry) (hasPayload : Bool) (tid : TypeId) : Bool :=
  TID_NULL < tid && (types.info tid).kind = .enum &&
    ((types.info tid).variants.any fun v => !v.payload.isEmpty) = hasPayload

/-- The values that an expression of that type can have.  An enum may hold a number
that is none of its variants, since analysis lets integers be assigned to it. -/
def CanHold (types : TypeRegistry) (tid : TypeId) : Scrutinee → Prop
  | .int _ => tid = TID_INT
  | .long _ => tid = TID_LONG
  | .bool _ => tid = TID_BOOL
  | .str _ _ => tid = TID_STR
  | .enum _ => isEnum types false tid = true
  | .payload _ => isEnum types true tid = true

/-! ## The meaning of a match -/

def patternNumber (s : Sema.State) : MatchPattern → Option Int
  | .intLit n => some n
  | .boolLit b => some (if b then 1 else 0)
  | .enumVariant enumName variantName _ =>
      (Sema.variantOf s enumName variantName).map fun v => (v.tag : Int)
  | .strLit _ => none
  | .wildcard => none

def patternText : MatchPattern → Option ByteArray
  | .strLit text => some text.toUTF8
  | .intLit _ | .boolLit _ | .enumVariant _ _ _ | .wildcard => none

/-- A pattern equals a value that stands for the same number or text. -/
def equals (s : Sema.State) (v : Scrutinee) (p : MatchPattern) : Bool :=
  (patternNumber s p).any (v.number = some ·) || (patternText p).any (v.text = some ·)

/-- A pattern fits a value that it equals, and the wildcard fits every value. -/
def fits (s : Sema.State) (v : Scrutinee) (p : MatchPattern) : Bool :=
  isWildcard p || equals s v p

/-- The arm that a match has to execute, by its place in the source. -/
def firstFit (s : Sema.State) (v : Scrutinee) (patterns : List MatchPattern) : Option Nat :=
  patterns.findIdx? (fits s v)

/-! ## The emitted code -/

/-- The number that `gen_match` makes a case for. -/
def caseNumber (ls : Layouts) : MatchPattern → Option Int
  | .intLit n => some n
  | .boolLit b => some (if b then 1 else 0)
  | .enumVariant enumName variantName _ =>
      (ls.enumTypes.lookup enumName).bind fun id =>
        ((ls.types.info id).variants.find? (·.name = variantName)).map fun v => (v.tag : Int)
  | .strLit _ => none
  | .wildcard => none

/-- What tells the arms apart: comparisons with strings, or a `switch` on numbers
of that width.  The arms are named by their places in the source. -/
inductive Code
  | cascade (tests : List (ByteArray × Nat)) (wildcard : Option Nat)
  | switch (width : Nat) (cases : List (BitVec width × Nat)) (wildcard : Option Nat)

/-- Keys of patterns, with the places of the patterns that have one. -/
def keyed {κ : Type} (key : MatchPattern → Option κ) (patterns : List MatchPattern) :
    List (κ × Nat) :=
  patterns.zipIdx.filterMap fun a => (key a.1).map fun k => (k, a.2)

def switchCases (ls : Layouts) (width : Nat) (patterns : List MatchPattern) :
    List (BitVec width × Nat) :=
  keyed (fun p => (caseNumber ls p).map (BitVec.ofInt width)) patterns

def wildcardArm (patterns : List MatchPattern) : Option Nat :=
  ((patterns.zipIdx.filter fun a => isWildcard a.1).getLast?).map (·.2)

/-- The width of the numbers that a `switch` on a value of that type compares. -/
def switchWidth : LlvmType → Option Nat
  | .ptr | .i32 | .i64 | .float | .double => some 32
  | .i1 => some 1
  | .void => none

/-- The part of `gen_match` that chooses an arm.  The module verifier rejects a
`switch` with the same case twice, and the comparison of anything but a pointer
with a string. -/
def genMatch (ls : Layouts) (type : LlvmType) (patterns : List MatchPattern) : Option Code :=
  if isStrMatch patterns then
    if type = .ptr then some (.cascade (keyed patternText patterns) (wildcardArm patterns))
    else none
  else do
    let width ← switchWidth type
    if ((switchCases ls width patterns).map (·.1)).Nodup then
      some (.switch width (switchCases ls width patterns) (wildcardArm patterns))
    else none

/-- Where the code of a match leads: into an arm, past the match, into the trap, or
into a load from no valid place. -/
inductive Decision
  | arm (i : Nat)
  | passed
  | trap
  | fault
  deriving DecidableEq, Repr

/-- The number that a `switch` of that width compares: a `long` is cut off, and a
pointer is read for the number at its beginning. -/
def discriminant (width : Nat) : Scrutinee → Option (BitVec width)
  | .int n => some (n.setWidth width)
  | .long n => some (n.setWidth width)
  | .bool b => some ((BitVec.ofBool b).setWidth width)
  | .str (some _) refcount => some (refcount.setWidth width)
  | .str none _ => none
  | .enum tag => some (tag.setWidth width)
  | .payload tag => some (tag.setWidth width)

namespace Code

/-- Run the code on a value.  `duxrt_str_eq` takes the null pointer for no text. -/
def run (v : Scrutinee) : Code → Decision
  | .cascade tests wildcard =>
      match v with
      | .str text _ =>
          match tests.find? (fun t => text = some t.1), wildcard with
          | some t, _ => .arm t.2
          | none, some i => .arm i
          | none, none => .passed
      | _ => .fault
  | .switch width cases wildcard =>
      match discriminant width v with
      | none => .fault
      | some d =>
          match cases.find? (fun c => c.1 = d), wildcard with
          | some c, _ => .arm c.2
          | none, some i => .arm i
          | none, none => .trap

def arms : Code → List Nat
  | .cascade tests _ => tests.map (·.2)
  | .switch _ cases _ => cases.map (·.2)

/-- The place in the code of the block for an arm.  The wildcard comes last. -/
def block (code : Code) (i : Nat) : Nat := code.arms.idxOf i

end Code

/-! ## The arm that the code leads to -/

section Keys

variable {κ : Type} (key : MatchPattern → Option κ) (q : κ → Bool)

theorem find?_keyed (patterns : List MatchPattern) :
    ((keyed key patterns).find? fun k => q k.1).map (·.2) =
      patterns.findIdx? fun p => (key p).any q := by
  have shifted (n : Nat) : (((patterns.zipIdx n).filterMap fun a =>
      (key a.1).map fun k => (k, a.2)).find? fun k => q k.1).map (·.2) =
        (patterns.findIdx? fun p => (key p).any q).map (· + n) := by
    induction patterns generalizing n with
    | nil => rfl
    | cons p ps ih =>
      rw [List.zipIdx_cons, List.findIdx?_cons]
      cases found : key p with
      | none =>
        rw [List.filterMap_cons_none (by simp [found]), ih]
        simp [Function.comp_def, Nat.add_assoc, Nat.add_comm 1]
      | some k =>
        rw [List.filterMap_cons_some (b := (k, n)) (by simp [found]), List.find?_cons]
        cases passes : q k with
        | true => simp [passes]
        | false =>
          simp only [ih]
          simp [passes, Function.comp_def, Nat.add_assoc, Nat.add_comm 1]
  exact (shifted 0).trans (by simp)

theorem map_keyed (patterns : List MatchPattern) :
    (keyed key patterns).map (·.1) = patterns.filterMap key := by
  have shifted (n : Nat) : ((patterns.zipIdx n).filterMap fun a =>
      (key a.1).map fun k => (k, a.2)).map (·.1) = patterns.filterMap key := by
    induction patterns generalizing n with
    | nil => rfl
    | cons p ps ih =>
      rw [List.zipIdx_cons]
      cases found : key p with
      | none => simpa [found] using ih (n + 1)
      | some k => simpa [found] using ih (n + 1)
  exact shifted 0

end Keys

theorem eq_wildcard {p : MatchPattern} (isWild : isWildcard p = true) : p = .wildcard := by
  cases p with
  | wildcard => rfl
  | _ => cases isWild

theorem wildcardArm_concat (ps : List MatchPattern) (p : MatchPattern) :
    wildcardArm (ps ++ [p]) = if isWildcard p then some ps.length else wildcardArm ps := by
  unfold wildcardArm
  rw [List.zipIdx_append, List.filter_append]
  by_cases isWild : isWildcard p = true
  · simp [isWild]
  · simp [isWild]

theorem wildcardArm_eq_some_iff {ps : List MatchPattern} {i : Nat} :
    wildcardArm ps = some i ↔ ps[i]?.any isWildcard = true ∧
      ∀ j, i < j → ps[j]?.any isWildcard = false := by
  induction ps using List.reverseRecOn with
  | nil => simp [wildcardArm]
  | append_singleton ps p ih =>
    rw [wildcardArm_concat]
    cases isWild : isWildcard p with
    | true =>
      rw [if_pos rfl]
      constructor
      · rintro ⟨⟩
        constructor
        · simp [isWild]
        · intro j behind
          rw [List.getElem?_eq_none (by simp; omega)]
          rfl
      · rintro ⟨found, last⟩
        rcases Nat.lt_trichotomy i ps.length with before | rfl | behind
        · have later := last ps.length before
          simp [isWild] at later
        · rfl
        · rw [List.getElem?_eq_none (by simp; omega)] at found
          cases found
    | false =>
      rw [if_neg Bool.false_ne_true, ih]
      have same (j : Nat) : (ps ++ [p])[j]?.any isWildcard = ps[j]?.any isWildcard := by
        rcases Nat.lt_trichotomy j ps.length with before | rfl | behind
        · rw [List.getElem?_append_left before]
        · simp [isWild]
        · rw [List.getElem?_eq_none (by simp; omega), List.getElem?_eq_none (by omega)]
      simp only [same]

theorem wildcardArm_eq_none_iff {ps : List MatchPattern} :
    wildcardArm ps = none ↔ ∀ p ∈ ps, isWildcard p = false := by
  simp [wildcardArm, List.forall_mem_iff_forall_getElem]

/-! ## The block of an arm -/

section Blocks

variable {α β : Type} (arms : List (MatchPattern × α)) (f : MatchPattern → Bool)
  (key : MatchPattern → Option β)

/-- The arms that pass a test, with their places. -/
def placed : List ((MatchPattern × α) × Nat) := arms.zipIdx.filter fun a => f a.1.1

theorem map_fst_placed : (placed arms f).map (·.1) = arms.filter fun a => f a.1 := by
  have shifted (n : Nat) : ((arms.zipIdx n).filter fun a => f a.1.1).map (·.1) =
      arms.filter fun a => f a.1 := by
    induction arms generalizing n with
    | nil => rfl
    | cons a as ih => by_cases passes : f a.1 = true <;> simp [passes, ih]
  exact shifted 0

theorem map_snd_keyed : (keyed key (arms.map Prod.fst)).map (·.2) =
    (placed arms fun p => (key p).isSome).map (·.2) := by
  have shifted (n : Nat) : (((arms.map Prod.fst).zipIdx n).filterMap fun a =>
      (key a.1).map fun k => (k, a.2)).map (·.2) =
        ((arms.zipIdx n).filter fun a => (key a.1.1).isSome).map (·.2) := by
    induction arms generalizing n with
    | nil => rfl
    | cons a as ih =>
      have rest := ih (n + 1)
      cases found : key a.1 with
      | none => simpa [found] using rest
      | some k => simpa [found] using rest
  exact shifted 0

variable {arms f}

theorem getElem?_filter_of_place {k i : Nat} {a : MatchPattern × α}
    (place : ((placed arms f).map (·.2))[k]? = some i) (isArm : arms[i]? = some a) :
    (arms.filter fun a => f a.1)[k]? = some a := by
  rw [← map_fst_placed, List.getElem?_map]
  rw [List.getElem?_map, Option.map_eq_some_iff] at place
  obtain ⟨⟨a', i'⟩, found, rfl⟩ := place
  have inArms := List.mem_of_mem_filter (List.mem_of_getElem? found)
  rw [List.mem_zipIdx_iff_getElem?, isArm] at inArms
  rw [found, Option.some.inj inArms]
  rfl

theorem getLast?_filter_of_wildcardArm {i : Nat} {a : MatchPattern × α}
    (isLast : wildcardArm (arms.map Prod.fst) = some i) (isArm : arms[i]? = some a) :
    (arms.filter fun a => isWildcard a.1).getLast? = some a := by
  have places : ((arms.map Prod.fst).zipIdx.filter fun a => isWildcard a.1).map (·.2) =
      (placed arms isWildcard).map (·.2) := by
    have shifted (n : Nat) :
        (((arms.map Prod.fst).zipIdx n).filter fun a => isWildcard a.1).map (·.2) =
          ((arms.zipIdx n).filter fun a => isWildcard a.1.1).map (·.2) := by
      clear isLast isArm
      induction arms generalizing n with
      | nil => rfl
      | cons a as ih => by_cases isWild : isWildcard a.1 = true <;> simp [isWild, ih]
    exact shifted 0
  rw [wildcardArm, ← List.getLast?_map, places, List.getLast?_map,
    Option.map_eq_some_iff] at isLast
  obtain ⟨⟨a', i'⟩, found, rfl⟩ := isLast
  have inArms := List.mem_of_mem_filter (List.mem_of_getLast? found)
  rw [List.mem_zipIdx_iff_getElem?, isArm] at inArms
  rw [← map_fst_placed, List.getLast?_map, found, Option.some.inj inArms]
  rfl

end Blocks

theorem hasCase_strMatch (ls : Layouts) (p : MatchPattern) :
    hasCase ls true p = (patternText p).isSome := by
  cases p <;> rfl

theorem hasCase_switch (ls : Layouts) (p : MatchPattern) :
    hasCase ls false p = (caseNumber ls p).isSome := by
  cases p with
  | enumVariant enumName variantName bindings =>
    simp only [hasCase, caseNumber]
    cases ls.enumTypes.lookup enumName with
    | none => rfl
    | some id =>
      apply Bool.eq_iff_iff.2
      simp [List.find?_isSome]
  | _ => rfl

theorem genMatch_eq_some_iff {ls : Layouts} {type : LlvmType} {patterns : List MatchPattern}
    {code : Code} : genMatch ls type patterns = some code ↔
      (isStrMatch patterns = true ∧ type = .ptr ∧
        code = .cascade (keyed patternText patterns) (wildcardArm patterns)) ∨
      (isStrMatch patterns = false ∧ ∃ width, switchWidth type = some width ∧
        ((switchCases ls width patterns).map (·.1)).Nodup ∧
        code = .switch width (switchCases ls width patterns) (wildcardArm patterns)) := by
  unfold genMatch
  cases isStrMatch patterns with
  | true => simp [eq_comm]
  | false => simp [Option.bind_eq_some_iff, @eq_comm _ code]

theorem arms_of_genMatch {ls : Layouts} {type : LlvmType} {α : Type}
    {arms : List (MatchPattern × α)} {code : Code}
    (emitted : genMatch ls type (arms.map Prod.fst) = some code) :
    code.arms = (placed arms (hasCase ls (isStrMatch (arms.map Prod.fst)))).map (·.2) := by
  rcases genMatch_eq_some_iff.1 emitted with ⟨isStr, -, rfl⟩ | ⟨notStr, width, -, -, rfl⟩
  · rw [Code.arms, map_snd_keyed, isStr]
    simp only [← hasCase_strMatch ls]
  · rw [Code.arms, switchCases, map_snd_keyed, notStr]
    simp only [Option.isSome_map, ← hasCase_switch ls]

/-- The wildcard that a code keeps. -/
def Code.wildcard : Code → Option Nat
  | .cascade _ wildcard => wildcard
  | .switch _ _ wildcard => wildcard

theorem wildcard_of_genMatch {ls : Layouts} {type : LlvmType} {patterns : List MatchPattern}
    {code : Code} (emitted : genMatch ls type patterns = some code) :
    code.wildcard = wildcardArm patterns := by
  rcases genMatch_eq_some_iff.1 emitted with ⟨-, -, rfl⟩ | ⟨-, width, -, -, rfl⟩ <;> rfl

theorem mem_arms_of_run {code : Code} {v : Scrutinee} {i : Nat} (ran : code.run v = .arm i) :
    i ∈ code.arms ∨ code.wildcard = some i := by
  cases code with
  | cascade tests wildcard =>
    cases v with
    | str text refcount =>
      simp only [Code.run] at ran
      split at ran
      · next t _ found =>
        cases ran
        exact .inl (List.mem_map_of_mem (List.mem_of_find?_eq_some found))
      · cases ran
        exact .inr rfl
      · cases ran
    | _ => cases ran
  | switch width cases wildcard =>
    simp only [Code.run] at ran
    split at ran
    · cases ran
    · split at ran
      · next c _ found =>
        cases ran
        exact .inl (List.mem_map_of_mem (List.mem_of_find?_eq_some found))
      · cases ran
        exact .inr rfl
      · cases ran

theorem block_of_run {ls : Layouts} {type : LlvmType} {arms : List (MatchPattern × Emitter)}
    {code : Code} {v : Scrutinee} {i : Nat} {a : MatchPattern × Emitter}
    (emitted : genMatch ls type (arms.map Prod.fst) = some code) (ran : code.run v = .arm i)
    (isArm : arms[i]? = some a) : (matchArms ls arms)[code.block i]? = some a.2 := by
  have places := arms_of_genMatch emitted
  have numbers : code.arms.length = ((arms.filter fun a =>
      hasCase ls (isStrMatch (arms.map Prod.fst)) a.1).map (·.2)).length := by
    rw [places, ← map_fst_placed]
    simp
  rw [matchArms, Code.block]
  by_cases own : i ∈ code.arms
  · have inside := List.idxOf_lt_length_of_mem own
    have place : code.arms[code.arms.idxOf i]? = some i := by
      rw [List.getElem?_eq_getElem inside, List.getElem_idxOf]
    rw [places] at place
    rw [List.getElem?_append_left (numbers ▸ inside), List.getElem?_map, places,
      getElem?_filter_of_place place isArm]
    rfl
  · have isWild := (mem_arms_of_run ran).resolve_left own
    rw [wildcard_of_genMatch emitted] at isWild
    rw [List.idxOf_of_notMem own, numbers, List.getElem?_append_right (Nat.le_refl _),
      Nat.sub_self, getLast?_filter_of_wildcardArm isWild isArm]
    rfl

/-! ## The first arm that fits -/

namespace Scrutinee

def width : Scrutinee → Nat
  | .bool _ => 1
  | .int _ | .long _ | .str _ _ | .enum _ | .payload _ => 32

/-- The number that a `switch` finds at the value. -/
def lead : Scrutinee → Option Int
  | .str text refcount => text.map fun _ => refcount.toInt
  | v => v.number

def IsStr (v : Scrutinee) : Prop := ∃ text refcount, v = .str text refcount

end Scrutinee

/-- The number of the arm's case agrees with the scrutinee in all bits compared. -/
def Agrees (ls : Layouts) (v : Scrutinee) (p : MatchPattern) : Prop :=
  ∃ n l, caseNumber ls p = some n ∧ v.lead = some l ∧ n ≡ l [ZMOD 2 ^ v.width]

/-- No two arms have cases whose numbers agree in all bits compared. -/
def Apart (ls : Layouts) (width : Nat) (patterns : List MatchPattern) : Prop :=
  patterns.Pairwise fun p p' => ∀ n n', caseNumber ls p = some n → caseNumber ls p' = some n' →
    ¬n ≡ n' [ZMOD 2 ^ width]

/-- In a comparison with strings, a wildcard that comes first is not followed by
anything that fits.  In a `switch`, the cases are apart, there is a number to
compare, an arm that comes first agrees with it, and a wildcard that comes first is
the last one and nothing agrees with the number. -/
def Decisive (ls : Layouts) (s : Sema.State) (v : Scrutinee) (patterns : List MatchPattern) :
    Prop :=
  ∀ i p, firstFit s v patterns = some i → patterns[i]? = some p →
    if isStrMatch patterns then
      v.IsStr ∧ (isWildcard p = true → ∀ j, i < j → patterns[j]?.any (fits s v) = false)
    else
      Apart ls v.width patterns ∧ v.lead ≠ none ∧
        if isWildcard p then
          (∀ p' ∈ patterns, ¬Agrees ls v p') ∧ ∀ j, i < j → patterns[j]?.any isWildcard = false
        else Agrees ls v p

/-- The code of the match exists, leads to the first arm that fits, and the block it
leads to is that of the arm; behind the block the code goes on after the match. -/
def EntersFirst (ls : Layouts) (s : Sema.State) (v : Scrutinee)
    (arms : List (MatchPattern × Emitter)) : Prop :=
  ∀ i a, firstFit s v (arms.map Prod.fst) = some i → arms[i]? = some a →
    ∃ code, genMatch ls v.type (arms.map Prod.fst) = some code ∧ code.run v = .arm i ∧
      (matchArms ls arms)[code.block i]? = some a.2

theorem switchWidth_type (v : Scrutinee) : switchWidth v.type = some v.width := by
  cases v <;> rfl

theorem discriminant_eq (v : Scrutinee) :
    discriminant v.width v = v.lead.map (BitVec.ofInt v.width) := by
  cases v with
  | bool b => cases b <;> rfl
  | str text refcount =>
    cases text with
    | none => rfl
    | some text => simp [discriminant, Scrutinee.lead, Scrutinee.width]
  | long n =>
    have cut := BitVec.signExtend_eq_setWidth_of_le n (show 32 ≤ 64 by decide)
    exact congrArg some cut.symm
  | int n => simp [discriminant, Scrutinee.lead, Scrutinee.number, Scrutinee.width]
  | enum tag => simp [discriminant, Scrutinee.lead, Scrutinee.number, Scrutinee.width]
  | payload tag => simp [discriminant, Scrutinee.lead, Scrutinee.number, Scrutinee.width]

theorem ofInt_eq_iff (w : Nat) (n n' : Int) :
    BitVec.ofInt w n = BitVec.ofInt w n' ↔ n ≡ n' [ZMOD 2 ^ w] := by
  rw [← BitVec.toNat_inj, BitVec.toNat_ofInt, BitVec.toNat_ofInt, Int.ModEq]
  push_cast
  omega

theorem nodup_switchCases_iff (ls : Layouts) (width : Nat) (patterns : List MatchPattern) :
    ((switchCases ls width patterns).map (·.1)).Nodup ↔ Apart ls width patterns := by
  rw [switchCases, map_keyed, List.Nodup, List.pairwise_filterMap, Apart]
  have same (p p' : MatchPattern) :
      (∀ b, (caseNumber ls p).map (BitVec.ofInt width) = some b →
        ∀ b', (caseNumber ls p').map (BitVec.ofInt width) = some b' → b ≠ b') ↔
      ∀ n n', caseNumber ls p = some n → caseNumber ls p' = some n' → ¬n ≡ n' [ZMOD 2 ^ width] := by
    simp only [Option.map_eq_some_iff, ← ofInt_eq_iff]
    constructor
    · exact fun apart n n' found found' => apart _ ⟨n, found, rfl⟩ _ ⟨n', found', rfl⟩
    · rintro apart _ ⟨n, found, rfl⟩ _ ⟨n', found', rfl⟩
      exact apart n n' found found'
  simp only [same]

theorem any_caseNumber_iff {ls : Layouts} {v : Scrutinee} {l : Int} (lead : v.lead = some l)
    (p : MatchPattern) :
    ((caseNumber ls p).map (BitVec.ofInt v.width)).any (· = BitVec.ofInt v.width l) = true ↔
      Agrees ls v p := by
  cases found : caseNumber ls p with
  | none => simp [Agrees, found]
  | some n => simp [Agrees, found, lead, ofInt_eq_iff]

theorem run_cascade_eq_arm_iff (text : Option ByteArray) (refcount : BitVec 32)
    (patterns : List MatchPattern) (i : Nat) :
    (Code.cascade (keyed patternText patterns) (wildcardArm patterns)).run
        (.str text refcount) = .arm i ↔
      (patterns.findIdx? fun p => (patternText p).any (text = some ·)) = some i ∨
      ((patterns.findIdx? fun p => (patternText p).any (text = some ·)) = none ∧
        wildcardArm patterns = some i) := by
  rw [← find?_keyed]
  simp only [Code.run]
  split
  · next found => simp [found]
  · next found isWild => simp [found, isWild]
  · next found noWild => simp [found, noWild]

theorem run_switch_eq_arm_iff {ls : Layouts} {v : Scrutinee} {l : Int} (lead : v.lead = some l)
    (patterns : List MatchPattern) (i : Nat) :
    (Code.switch v.width (switchCases ls v.width patterns) (wildcardArm patterns)).run v =
        .arm i ↔
      (patterns.findIdx? fun p => ((caseNumber ls p).map (BitVec.ofInt v.width)).any
        (· = BitVec.ofInt v.width l)) = some i ∨
      ((patterns.findIdx? fun p => ((caseNumber ls p).map (BitVec.ofInt v.width)).any
        (· = BitVec.ofInt v.width l)) = none ∧ wildcardArm patterns = some i) := by
  rw [← find?_keyed]
  simp only [Code.run, discriminant_eq, lead, Option.map_some, switchCases]
  split
  · next found => simp [found]
  · next found isWild => simp [found, isWild]
  · next found noWild => simp [found, noWild]

theorem findIdx?_eq_some_iff {q : MatchPattern → Bool} {patterns : List MatchPattern} {i : Nat} :
    patterns.findIdx? q = some i ↔
      patterns[i]?.any q = true ∧ ∀ j, j < i → patterns[j]?.any q = false := by
  rw [List.findIdx?_eq_some_iff_getElem]
  constructor
  · rintro ⟨inside, passes, first⟩
    constructor
    · simpa [inside] using passes
    · intro j before
      have fails := first j before
      rw [List.getElem?_eq_getElem (by omega)]
      simpa using fails
  · rintro ⟨passes, first⟩
    have inside : i < patterns.length := by
      by_contra outside
      rw [List.getElem?_eq_none (by omega)] at passes
      cases passes
    refine ⟨inside, by simpa [inside] using passes, fun j before => ?_⟩
    have fails := first j before
    rw [List.getElem?_eq_getElem (by omega)] at fails
    simpa using fails

theorem findIdx?_eq_none_iff {q : MatchPattern → Bool} {patterns : List MatchPattern} :
    patterns.findIdx? q = none ↔ ∀ j : Nat, patterns[j]?.any q = false := by
  rw [List.findIdx?_eq_none_iff]
  constructor
  · intro fails j
    cases found : patterns[j]? with
    | none => rfl
    | some p => exact fails p (List.mem_of_getElem? found)
  · intro fails p member
    obtain ⟨j, found⟩ := List.mem_iff_getElem?.1 member
    have failsAt := fails j
    rwa [found] at failsAt

theorem fits_str (s : Sema.State) (text : Option ByteArray) (refcount : BitVec 32)
    (p : MatchPattern) : fits s (.str text refcount) p =
      (isWildcard p || (patternText p).any (text = some ·)) := by
  have noNumber : (patternNumber s p).any ((Scrutinee.str text refcount).number = some ·) =
      false := by
    cases patternNumber s p <;> simp [Scrutinee.number]
  rw [fits, equals, noNumber, Bool.false_or]
  rfl

theorem run_cascade_first_iff {s : Sema.State} {text : Option ByteArray} {refcount : BitVec 32}
    {patterns : List MatchPattern} {i : Nat} {p : MatchPattern}
    (first : firstFit s (.str text refcount) patterns = some i)
    (isPattern : patterns[i]? = some p) :
    (Code.cascade (keyed patternText patterns) (wildcardArm patterns)).run
        (.str text refcount) = .arm i ↔
      (isWildcard p = true →
        ∀ j, i < j → patterns[j]?.any (fits s (.str text refcount)) = false) := by
  obtain ⟨fitting, earlier⟩ := findIdx?_eq_some_iff.1 first
  have apart (j : Nat) : patterns[j]?.any (fits s (.str text refcount)) = false ↔
      patterns[j]?.any isWildcard = false ∧
        patterns[j]?.any (fun p => (patternText p).any (text = some ·)) = false := by
    cases patterns[j]? with
    | none => simp
    | some p => simp only [Option.any_some, fits_str, Bool.or_eq_false_iff]
  rw [run_cascade_eq_arm_iff, findIdx?_eq_some_iff, findIdx?_eq_none_iff, wildcardArm_eq_some_iff]
  cases isWild : isWildcard p with
  | true =>
    have noText : (patternText p).any (text = some ·) = false := by
      rw [eq_wildcard isWild]
      rfl
    simp only [isPattern, Option.any_some, noText, isWild, Bool.false_eq_true, false_and, false_or,
      true_and, forall_const]
    constructor
    · rintro ⟨noHit, last⟩ j behind
      exact (apart j).2 ⟨last j behind, noHit j⟩
    · intro nothing
      constructor
      · intro j
        rcases Nat.lt_trichotomy j i with before | rfl | behind
        · exact ((apart j).1 (earlier j before)).2
        · rw [isPattern]
          exact noText
        · exact ((apart j).1 (nothing j behind)).2
      · exact fun j behind => ((apart j).1 (nothing j behind)).1
  | false =>
    rw [isPattern, Option.any_some, fits_str, isWild, Bool.false_or] at fitting
    simp only [isPattern, Option.any_some, fitting, Bool.false_eq_true, false_imp_iff, iff_true,
      true_and]
    exact .inl fun j before => ((apart j).1 (earlier j before)).2

theorem not_agrees_before {ls : Layouts} {v : Scrutinee} {patterns : List MatchPattern} {i j : Nat}
    {p p' : MatchPattern} (apart : Apart ls v.width patterns) (before : j < i)
    (isPattern : patterns[i]? = some p) (isPattern' : patterns[j]? = some p')
    (agrees : Agrees ls v p) : ¬Agrees ls v p' := by
  rintro ⟨n', l', number', lead', same'⟩
  obtain ⟨n, l, number, lead, same⟩ := agrees
  cases lead.symm.trans lead'
  obtain ⟨inside, rfl⟩ := List.getElem?_eq_some_iff.1 isPattern
  obtain ⟨inside', rfl⟩ := List.getElem?_eq_some_iff.1 isPattern'
  exact List.pairwise_iff_getElem.1 apart j i inside' inside before n' n number' number
    (same'.trans same.symm)

theorem run_switch_first_iff {ls : Layouts} {v : Scrutinee}
    {patterns : List MatchPattern} {i : Nat} {p : MatchPattern} {l : Int} (lead : v.lead = some l)
    (apart : Apart ls v.width patterns) (isPattern : patterns[i]? = some p) :
    (Code.switch v.width (switchCases ls v.width patterns) (wildcardArm patterns)).run v =
        .arm i ↔
      if isWildcard p then
        (∀ p' ∈ patterns, ¬Agrees ls v p') ∧ ∀ j, i < j → patterns[j]?.any isWildcard = false
      else Agrees ls v p := by
  have agreesAt (j : Nat) : patterns[j]?.any (fun p => ((caseNumber ls p).map
      (BitVec.ofInt v.width)).any (· = BitVec.ofInt v.width l)) = false ↔
        ∀ p', patterns[j]? = some p' → ¬Agrees ls v p' := by
    cases patterns[j]? with
    | none => simp
    | some p' => simp [← any_caseNumber_iff lead]
  rw [run_switch_eq_arm_iff lead, findIdx?_eq_some_iff, findIdx?_eq_none_iff,
    wildcardArm_eq_some_iff]
  simp only [agreesAt, isPattern, Option.any_some, any_caseNumber_iff lead]
  cases isWild : isWildcard p with
  | true =>
    have noNumber : ¬Agrees ls v p := by
      rintro ⟨n, -, number, -⟩
      rw [eq_wildcard isWild] at number
      cases number
    simp only [noNumber, false_and, false_or, true_and, if_true, List.mem_iff_getElem?]
    constructor
    · rintro ⟨nothing, last⟩
      exact ⟨fun p' ⟨j, found⟩ => nothing j p' found, last⟩
    · rintro ⟨nothing, last⟩
      exact ⟨fun j p' found => nothing p' ⟨j, found⟩, last⟩
  | false =>
    simp only [Bool.false_eq_true, false_and, and_false, or_false, if_false, and_iff_left_iff_imp]
    intro agrees j before p' found
    exact not_agrees_before apart before isPattern found agrees

/-- A match executes the first arm that fits exactly if it is decisive. -/
theorem entersFirst_iff (ls : Layouts) (s : Sema.State) (v : Scrutinee)
    (arms : List (MatchPattern × Emitter)) :
    EntersFirst ls s v arms ↔ Decisive ls s v (arms.map Prod.fst) := by
  have entered (i : Nat) (a : MatchPattern × Emitter) (isArm : arms[i]? = some a) :
      (∃ code, genMatch ls v.type (arms.map Prod.fst) = some code ∧ code.run v = .arm i ∧
        (matchArms ls arms)[code.block i]? = some a.2) ↔
      ∃ code, genMatch ls v.type (arms.map Prod.fst) = some code ∧ code.run v = .arm i := by
    constructor
    · rintro ⟨code, emitted, ran, -⟩
      exact ⟨code, emitted, ran⟩
    · rintro ⟨code, emitted, ran⟩
      exact ⟨code, emitted, ran, block_of_run emitted ran isArm⟩
  have decided (i : Nat) (p : MatchPattern) (first : firstFit s v (arms.map Prod.fst) = some i)
      (isPattern : (arms.map Prod.fst)[i]? = some p) :
      (∃ code, genMatch ls v.type (arms.map Prod.fst) = some code ∧ code.run v = .arm i) ↔
      if isStrMatch (arms.map Prod.fst) then
        v.IsStr ∧ (isWildcard p = true →
          ∀ j, i < j → (arms.map Prod.fst)[j]?.any (fits s v) = false)
      else
        Apart ls v.width (arms.map Prod.fst) ∧ v.lead ≠ none ∧
          if isWildcard p then
            (∀ p' ∈ arms.map Prod.fst, ¬Agrees ls v p') ∧
              ∀ j, i < j → (arms.map Prod.fst)[j]?.any isWildcard = false
          else Agrees ls v p := by
    cases isStr : isStrMatch (arms.map Prod.fst) with
    | true =>
      simp only [genMatch_eq_some_iff, isStr, if_true, true_and, Bool.true_eq_false, false_and,
        or_false]
      constructor
      · rintro ⟨code, ⟨-, rfl⟩, ran⟩
        cases v with
        | str text refcount =>
          exact ⟨⟨text, refcount, rfl⟩, (run_cascade_first_iff first isPattern).1 ran⟩
        | _ => cases ran
      · rintro ⟨⟨text, refcount, rfl⟩, last⟩
        exact ⟨_, ⟨rfl, rfl⟩, (run_cascade_first_iff first isPattern).2 last⟩
    | false =>
      simp only [genMatch_eq_some_iff, isStr, Bool.false_eq_true, false_and, false_or, true_and,
        if_false, switchWidth_type, Option.some.injEq]
      constructor
      · rintro ⟨code, ⟨width, rfl, distinct, rfl⟩, ran⟩
        have apart := (nodup_switchCases_iff ls _ _).1 distinct
        cases lead : v.lead with
        | none => simp [Code.run, discriminant_eq, lead] at ran
        | some l =>
          exact ⟨apart, by simp, (run_switch_first_iff lead apart isPattern).1 ran⟩
      · rintro ⟨apart, hasLead, last⟩
        obtain ⟨l, lead⟩ := Option.ne_none_iff_exists'.1 hasLead
        exact ⟨_, ⟨_, rfl, (nodup_switchCases_iff ls _ _).2 apart, rfl⟩,
          (run_switch_first_iff lead apart isPattern).2 last⟩
  constructor
  · intro enters i p first isPattern
    rw [List.getElem?_map, Option.map_eq_some_iff] at isPattern
    obtain ⟨a, isArm, rfl⟩ := isPattern
    have isPattern : (arms.map Prod.fst)[i]? = some a.1 := by simp [isArm]
    exact (decided i a.1 first isPattern).1 ((entered i a isArm).1 (enters i a first isArm))
  · intro decisive i a first isArm
    have isPattern : (arms.map Prod.fst)[i]? = some a.1 := by simp [isArm]
    exact (entered i a isArm).2
      ((decided i a.1 first isPattern).2 (decisive i a.1 first isPattern))

/-- `int n = 2  match n { _ => { } 2 => { } }`. -/
def wildcardFirst : Program where
  decls := []
  stmts :=
    [.varDecl ⟨1, 1⟩ { name := "int" } false false [.mk "n" (some (.intLit (-1) 2))],
      .matchStmt (.ident (-1) "n") [.mk .wildcard [], .mk (.intLit 2) []]]

/-- Whether a match is the one of the program above. -/
def isWildcardFirst : Expr × List MatchPattern → Bool
  | (e, [.wildcard, .intLit 2]) => e.tid = TID_INT
  | _ => false

/-- A number behind a wildcard goes before it. -/
theorem not_entersFirst : ¬∀ prog prog' s, Sema.Accepts prog prog' s → ∀ m ∈ matchesOf prog',
    ∀ v, CanHold s.types m.1.tid v → ∀ arms : List (MatchPattern × Emitter),
      arms.map Prod.fst = m.2 → EntersFirst (layoutsOf prog') s v arms := by
  intro always
  obtain ⟨prog', s, accepts, shows⟩ := Sema.exists_accepts wildcardFirst
    (fun prog' _ => (matchesOf prog').any isWildcardFirst) (by decide +kernel)
  obtain ⟨⟨e, patterns⟩, isMatch, shape⟩ := List.any_eq_true.1 shows
  unfold isWildcardFirst at shape
  split at shape
  · next e' same =>
    cases same
    have isInt : e.tid = TID_INT := of_decide_eq_true shape
    have enters := always _ _ _ accepts _ isMatch (.int 2) isInt
      [(.wildcard, Emitter.fail), (.intLit 2, Emitter.fail)] rfl
    obtain ⟨code, emitted, ran, -⟩ := enters 0 _ rfl rfl
    cases emitted
    cases ran
  · cases shape

end Dux.Codegen.Match
