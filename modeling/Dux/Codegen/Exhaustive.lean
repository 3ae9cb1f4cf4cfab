import Dux.Codegen.Match
import Mathlib.Data.Fintype.EquivFin

/-!
# Unmatched values

Analysis does not ask whether the arms of a match are exhaustive.  A value that
no arm fits runs into a trap, or past the match when that compares strings.
Runs are told here by the matches they execute, in any order: everything else
is left open.
-/

namespace Dux.Codegen.Match

open TypeRegistry

/-- An enum holds one of its variants. -/
def IsVariant (types : TypeRegistry) (tid : TypeId) : Scrutinee → Prop
  | .enum tag | .payload tag =>
      ∃ v ∈ (types.info tid).variants, tag = BitVec.ofNat 32 v.tag
  | .int _ | .long _ | .bool _ | .str _ _ => True

/-- The execution of a match. -/
structure Visit where
  e : Expr
  patterns : List MatchPattern
  value : Scrutinee

inductive Fate
  | going
  | unmatched
  deriving DecidableEq, Repr

/-- Runs that execute these match statements. -/
inductive Run (types : TypeRegistry) (ls : Layouts) (stmts : List (Expr × List MatchPattern)) :
    List Visit → Fate → Prop
  | start : Run types ls stmts [] .going
  | arm {visits : List Visit} (before : Run types ls stmts visits .going) {v : Visit} {code : Code}
      {i : Nat} (isMatch : (v.e, v.patterns) ∈ stmts) (typed : CanHold types v.e.tid v.value)
      (emitted : genMatch ls v.value.type v.patterns = some code)
      (ran : code.run v.value = .arm i) : Run types ls stmts (visits ++ [v]) .going
  | unmatched {visits : List Visit} (before : Run types ls stmts visits .going) {v : Visit}
      {code : Code} (isMatch : (v.e, v.patterns) ∈ stmts)
      (typed : CanHold types v.e.tid v.value)
      (emitted : genMatch ls v.value.type v.patterns = some code)
      (ran : code.run v.value = .trap ∨ code.run v.value = .passed) :
      Run types ls stmts (visits ++ [v]) .unmatched

/-- The width of the numbers that a `switch` on a value of that type compares. -/
def typeWidth (tid : TypeId) : Nat := if tid = TID_BOOL then 1 else 32

/-- The numbers that have to be covered where there is no wildcard: both truth
values, the variants of an enum, and all numbers for the other types. -/
def Required (types : TypeRegistry) (tid : TypeId) (n : Int) : Prop :=
  if tid = TID_BOOL then n = 0 ∨ n = 1
  else if tid = TID_INT ∨ tid = TID_LONG ∨ tid = TID_STR then True
  else TID_NULL < tid ∧ (types.info tid).kind = .enum ∧ ∃ v ∈ (types.info tid).variants, n = v.tag

/-- There is a wildcard, or the match is one of a `switch` whose cases cover every
number that has to be covered.  Strings cannot be covered without a wildcard, and no
other value gets as far as a comparison with strings. -/
def Exhaustive (types : TypeRegistry) (ls : Layouts) (tid : TypeId)
    (patterns : List MatchPattern) : Prop :=
  patterns.any isWildcard = true ∨
    if isStrMatch patterns then tid ≠ TID_STR
    else ∀ n, Required types tid n →
      ∃ p ∈ patterns, ∃ n', caseNumber ls p = some n' ∧ n' ≡ n [ZMOD 2 ^ typeWidth tid]

/-! ## Values and numbers -/

variable {types : TypeRegistry} {ls : Layouts} {tid : TypeId}

theorem isEnum_spec {hasPayload : Bool} (enum : isEnum types hasPayload tid = true) :
    TID_NULL < tid ∧ (types.info tid).kind = .enum := by
  simp only [isEnum, Bool.and_eq_true, decide_eq_true_eq] at enum
  exact enum.1

theorem typeWidth_of_user (user : TID_NULL < tid) : typeWidth tid = 32 := by
  apply if_neg
  rintro rfl
  exact absurd user (by decide)

theorem required_of_user (user : TID_NULL < tid) (enum : (types.info tid).kind = .enum)
    {v : EnumVariantInfo} (isVariant : v ∈ (types.info tid).variants) :
    Required types tid v.tag := by
  have other : ∀ t : TypeId, t ≤ TID_NULL → tid ≠ t := by
    rintro t below rfl
    exact absurd user (Int.not_lt.2 below)
  unfold Required
  rw [if_neg (other _ (by decide)), if_neg (by
    rintro (isInt | isLong | isStr)
    · exact other _ (by decide) isInt
    · exact other _ (by decide) isLong
    · exact other _ (by decide) isStr)]
  exact ⟨user, enum, v, isVariant, rfl⟩

theorem toInt_ofNat_modEq (n : Nat) : (n : Int) ≡ (BitVec.ofNat 32 n).toInt [ZMOD 2 ^ 32] := by
  rw [← ofInt_eq_iff 32, BitVec.ofInt_toInt, BitVec.ofInt_natCast]

theorem toInt_ofInt_modEq (w : Nat) (n : Int) : (BitVec.ofInt w n).toInt ≡ n [ZMOD 2 ^ w] := by
  rw [← ofInt_eq_iff w, BitVec.ofInt_toInt]

/-- The number that a `switch` finds at a value of a type is one that has to be
covered for that type. -/
theorem required_of_canHold {v : Scrutinee} {l : Int} (typed : CanHold types tid v)
    (variant : IsVariant types tid v) (lead : v.lead = some l) :
    v.width = typeWidth tid ∧ ∃ n, Required types tid n ∧ n ≡ l [ZMOD 2 ^ v.width] := by
  cases v with
  | int n =>
    cases typed
    exact ⟨rfl, l, trivial, rfl⟩
  | long n =>
    cases typed
    exact ⟨rfl, l, trivial, rfl⟩
  | bool b =>
    cases typed
    cases lead
    refine ⟨rfl, _, ?_, rfl⟩
    cases b
    · exact .inl rfl
    · exact .inr rfl
  | str text refcount =>
    cases typed
    exact ⟨rfl, l, trivial, rfl⟩
  | enum tag =>
    obtain ⟨user, enum⟩ := isEnum_spec typed
    obtain ⟨v, isVariant, rfl⟩ := variant
    cases lead
    exact ⟨(typeWidth_of_user user).symm, v.tag, required_of_user user enum isVariant,
      toInt_ofNat_modEq v.tag⟩
  | payload tag =>
    obtain ⟨user, enum⟩ := isEnum_spec typed
    obtain ⟨v, isVariant, rfl⟩ := variant
    cases lead
    exact ⟨(typeWidth_of_user user).symm, v.tag, required_of_user user enum isVariant,
      toInt_ofNat_modEq v.tag⟩

theorem exists_value_of_required {n : Int} (required : Required types tid n) :
    ∃ v l, CanHold types tid v ∧ IsVariant types tid v ∧ v.lead = some l ∧
      v.width = typeWidth tid ∧ l ≡ n [ZMOD 2 ^ v.width] := by
  unfold Required at required
  split_ifs at required with isBool isNumber
  · subst isBool
    rcases required with rfl | rfl
    · exact ⟨.bool false, 0, rfl, trivial, rfl, rfl, rfl⟩
    · exact ⟨.bool true, 1, rfl, trivial, rfl, rfl, rfl⟩
  · rcases isNumber with rfl | rfl | rfl
    · exact ⟨.int (BitVec.ofInt 32 n), _, rfl, trivial, rfl, rfl, toInt_ofInt_modEq 32 n⟩
    · exact ⟨.long (BitVec.ofInt 64 n), _, rfl, trivial, rfl, rfl,
        (toInt_ofInt_modEq 64 n).of_dvd (pow_dvd_pow (2 : Int) (show 32 ≤ 64 by decide))⟩
    · exact ⟨.str (some ByteArray.empty) (BitVec.ofInt 32 n), _, rfl, trivial, rfl, rfl,
        toInt_ofInt_modEq 32 n⟩
  · obtain ⟨user, enum, v, isVariant, rfl⟩ := required
    have isEnum_any : isEnum types ((types.info tid).variants.any fun v => !v.payload.isEmpty)
        tid = true := by
      simp [isEnum, user, enum]
    cases hasPayload : (types.info tid).variants.any fun v => !v.payload.isEmpty with
    | false =>
      rw [hasPayload] at isEnum_any
      exact ⟨.enum (BitVec.ofNat 32 v.tag), _, isEnum_any, ⟨v, isVariant, rfl⟩, rfl,
        (typeWidth_of_user user).symm, (toInt_ofNat_modEq v.tag).symm⟩
    | true =>
      rw [hasPayload] at isEnum_any
      exact ⟨.payload (BitVec.ofNat 32 v.tag), _, isEnum_any, ⟨v, isVariant, rfl⟩, rfl,
        (typeWidth_of_user user).symm, (toInt_ofNat_modEq v.tag).symm⟩

/-! ## Values that no arm fits -/

section Unmatched

variable {patterns : List MatchPattern} {v : Scrutinee}

theorem any_eq_false_iff {q : MatchPattern → Bool} :
    patterns.any q = false ↔ ∀ p ∈ patterns, q p = false := by
  simp

/-- A cascade passes the match by if no string is the text and there is no wildcard. -/
theorem run_cascade_unmatched_iff (text : Option ByteArray) (refcount : BitVec 32) :
    ((Code.cascade (keyed patternText patterns) (wildcardArm patterns)).run
        (.str text refcount) = .trap ∨
      (Code.cascade (keyed patternText patterns) (wildcardArm patterns)).run
        (.str text refcount) = .passed) ↔
      patterns.any isWildcard = false ∧
        ∀ p ∈ patterns, (patternText p).any (text = some ·) = false := by
  have hit := find?_keyed patternText (fun b => decide (text = some b)) patterns
  rw [any_eq_false_iff, ← wildcardArm_eq_none_iff, ← List.findIdx?_eq_none_iff, ← hit]
  simp only [Code.run]
  split
  · next found => simp [found]
  · next found isWild => simp [isWild]
  · next found noWild => simp [found, noWild]

/-- A `switch` traps if no case agrees with the number and there is no wildcard. -/
theorem run_switch_unmatched_iff {l : Int} (lead : v.lead = some l) :
    ((Code.switch v.width (switchCases ls v.width patterns) (wildcardArm patterns)).run v = .trap ∨
      (Code.switch v.width (switchCases ls v.width patterns) (wildcardArm patterns)).run v =
        .passed) ↔
      patterns.any isWildcard = false ∧ ∀ p ∈ patterns, ¬Agrees ls v p := by
  have hit := find?_keyed (fun p => (caseNumber ls p).map (BitVec.ofInt v.width))
    (fun c => decide (c = BitVec.ofInt v.width l)) patterns
  simp only [← any_caseNumber_iff lead, Bool.not_eq_true]
  rw [any_eq_false_iff, ← wildcardArm_eq_none_iff, ← List.findIdx?_eq_none_iff, ← hit]
  simp only [Code.run, discriminant_eq, lead, Option.map_some, switchCases]
  split
  · next found => simp [found]
  · next found isWild => simp [isWild]
  · next found noWild => simp [found, noWild]

instance infinite_texts : Infinite ByteArray := by
  apply Infinite.of_injective fun n : Nat => ByteArray.mk (Array.replicate n 0)
  intro n n' same
  simpa [ByteArray.size] using congrArg ByteArray.size same

theorem exists_other_text (patterns : List MatchPattern) :
    ∃ text : ByteArray, ∀ p ∈ patterns, (patternText p).any (some text = some ·) = false := by
  obtain ⟨text, other⟩ :=
    Infinite.exists_notMem_finset (patterns.filterMap patternText).toFinset
  refine ⟨text, fun p member => ?_⟩
  cases isText : patternText p with
  | none => rfl
  | some text' =>
    have inTexts : text' ∈ patterns.filterMap patternText :=
      List.mem_filterMap.2 ⟨p, member, isText⟩
    have differ : text ≠ text' := by
      rintro rfl
      exact other (List.mem_toFinset.2 inTexts)
    simpa using differ

/-- A value that no arm fits, and that gets as far as the code of the match. -/
def Escapes (types : TypeRegistry) (ls : Layouts) (tid : TypeId) (patterns : List MatchPattern)
    (v : Scrutinee) : Prop :=
  CanHold types tid v ∧ IsVariant types tid v ∧ ∃ code,
    genMatch ls v.type patterns = some code ∧ (code.run v = .trap ∨ code.run v = .passed)

theorem not_escapes_of_exhaustive (exhaustive : Exhaustive types ls tid patterns) :
    ¬Escapes types ls tid patterns v := by
  rintro ⟨typed, variant, code, emitted, ran⟩
  rcases genMatch_eq_some_iff.1 emitted with
    ⟨isStr, -, rfl⟩ | ⟨notStr, width, isWidth, -, rfl⟩
  · cases v with
    | str text refcount =>
      have unmatched := (run_cascade_unmatched_iff text refcount).1 ran
      rcases exhaustive with isWild | other
      · rw [unmatched.1] at isWild
        cases isWild
      · rw [if_pos isStr] at other
        exact other typed
    | _ => rcases ran with ran | ran <;> cases ran
  · rw [switchWidth_type, Option.some.injEq] at isWidth
    subst isWidth
    cases lead : v.lead with
    | none => simp [Code.run, discriminant_eq, lead] at ran
    | some l =>
      have unmatched := (run_switch_unmatched_iff lead).1 ran
      rcases exhaustive with isWild | covered
      · rw [unmatched.1] at isWild
        cases isWild
      · obtain ⟨sameWidth, n, required, same⟩ := required_of_canHold typed variant lead
        rw [if_neg (by simp [notStr])] at covered
        obtain ⟨p, member, n', number, covers⟩ := covered n required
        rw [← sameWidth] at covers
        exact unmatched.2 p member ⟨n', l, number, lead, covers.trans same⟩

theorem exists_escapes (compiles : isStrMatch patterns = true ∨ Apart ls (typeWidth tid) patterns)
    (partly : ¬Exhaustive types ls tid patterns) : ∃ v, Escapes types ls tid patterns v := by
  rw [Exhaustive, not_or, Bool.not_eq_true] at partly
  obtain ⟨noWild, partly⟩ := partly
  cases isStr : isStrMatch patterns with
  | true =>
    rw [if_pos isStr, not_not] at partly
    obtain ⟨text, other⟩ := exists_other_text patterns
    exact ⟨.str (some text) 1, partly, trivial, _, genMatch_eq_some_iff.2 (.inl ⟨isStr, rfl, rfl⟩),
      (run_cascade_unmatched_iff (some text) 1).2 ⟨noWild, other⟩⟩
  | false =>
    rw [if_neg (by simp [isStr])] at partly
    push Not at partly
    obtain ⟨n, required, uncovered⟩ := partly
    obtain ⟨v, l, typed, variant, lead, sameWidth, same⟩ := exists_value_of_required required
    have apart := compiles.resolve_left (by simp [isStr])
    rw [← sameWidth] at apart uncovered
    have code := genMatch_eq_some_iff.2 (.inr ⟨isStr, v.width, switchWidth_type v,
      (nodup_switchCases_iff ls _ _).2 apart, rfl⟩)
    refine ⟨v, typed, variant, _, code, (run_switch_unmatched_iff lead).2 ⟨noWild, ?_⟩⟩
    rintro p member ⟨n', l', number, lead', agrees⟩
    cases lead.symm.trans lead'
    exact uncovered p member n' number (agrees.trans same)

end Unmatched

theorem Run.going {types : TypeRegistry} {ls : Layouts} {stmts : List (Expr × List MatchPattern)}
    {visits : List Visit} {fate : Fate} (run : Run types ls stmts visits fate)
    (kept : ∀ v ∈ visits, ¬Escapes types ls v.e.tid v.patterns v.value)
    (variants : ∀ v ∈ visits, IsVariant types v.e.tid v.value) : fate = .going := by
  induction run with
  | start => rfl
  | arm => rfl
  | @unmatched visits before v code isMatch typed emitted ran ih =>
    have last : v ∈ visits ++ [v] := List.mem_append_right _ (List.mem_singleton_self v)
    exact absurd ⟨typed, variants v last, code, emitted, ran⟩ (kept v last)

theorem Run.isMatch {types : TypeRegistry} {ls : Layouts}
    {stmts : List (Expr × List MatchPattern)} {visits : List Visit} {fate : Fate}
    (run : Run types ls stmts visits fate) : ∀ v ∈ visits, (v.e, v.patterns) ∈ stmts := by
  induction run with
  | start => simp
  | arm _ isMatch _ _ _ ih =>
    simp only [List.mem_append, List.mem_singleton]
    rintro v (earlier | rfl)
    · exact ih v earlier
    · exact isMatch
  | unmatched _ isMatch _ _ _ ih =>
    simp only [List.mem_append, List.mem_singleton]
    rintro v (earlier | rfl)
    · exact ih v earlier
    · exact isMatch

theorem Escapes.compiles {types : TypeRegistry} {ls : Layouts} {tid : TypeId}
    {patterns : List MatchPattern} {v : Scrutinee} (escapes : Escapes types ls tid patterns v) :
    isStrMatch patterns = true ∨ Apart ls (typeWidth tid) patterns := by
  obtain ⟨typed, variant, code, emitted, ran⟩ := escapes
  rcases genMatch_eq_some_iff.1 emitted with
    ⟨isStr, -, -⟩ | ⟨notStr, width, isWidth, distinct, rfl⟩
  · exact .inl isStr
  · rw [switchWidth_type, Option.some.injEq] at isWidth
    subst isWidth
    have apart := (nodup_switchCases_iff ls _ _).1 distinct
    cases lead : v.lead with
    | none => simp [Code.run, discriminant_eq, lead] at ran
    | some l => exact .inr ((required_of_canHold typed variant lead).1 ▸ apart)

/-- `int n = 2  match n { 1 => { } }`. -/
def partialMatch : Program where
  decls := []
  stmts :=
    [.varDecl ⟨1, 1⟩ { name := "int" } false false [.mk "n" (some (.intLit (-1) 2))],
      .matchStmt (.ident (-1) "n") [.mk (.intLit 1) []]]

def isPartialMatch : Expr × List MatchPattern → Bool
  | (e, [.intLit 1]) => e.tid = TID_INT
  | _ => false

end Dux.Codegen.Match
