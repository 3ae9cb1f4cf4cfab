import Dux.Lexer.Literals
import Dux.Logic.Emission

/-!
# Interpolations inside of each other

An interpolation of an f-string goes to the brace that closes it.  A lexer that keeps a depth for
every open f-string finds this brace in all expressions; `src/lexer/dux.l` has one depth for all
of them, which an f-string inside of an interpolation resets.
-/

namespace Dux.Lexer

open Logic (Emits isDigit)

/-! ## A depth for every f-string -/

/-- A scanner with the depths of the f-strings around the innermost one. -/
structure Nested where
  scanner : Scanner
  outer : List Nat

/-- The scanner with another depth. -/
def Scanner.withDepth (l : Scanner) (depth : Nat) : Scanner :=
  { l with statics := { l.statics with fstrInterpDepth := depth } }

section Nested

variable {δ : Type}

/-- What an f-string that begins or ends does to the depths. -/
def nestDepths (before : Scanner) (outer : List Nat) (after : Scanner) :
    Option (Result δ) → Nested
  | some (.token .fstrBegin) => ⟨after, before.statics.fstrInterpDepth :: outer⟩
  | some (.token (.fstrFinish _)) => ⟨after.withDepth (outer.headD 0), outer.tail⟩
  | _ => ⟨after, outer⟩

/-- A step that keeps the depth of an f-string while another one is read inside of it. -/
def nestedStep (floats : Floats δ) (n : Nested) : Option (Result δ) × Nested :=
  ((step floats n.scanner).1,
    nestDepths n.scanner n.outer (step floats n.scanner).2 (step floats n.scanner).1)

end Nested

/-! ## Expressions and f-strings -/

section FStrings

variable {δ : Type}

/-- The f-strings that are open after a result, and the level of the braces outside of them. -/
def track : Nat × Int → Result δ → Nat × Int
  | (inside, level), .token .fstrBegin => (inside + 1, level)
  | (inside, level), .token (.fstrFinish _) => (inside - 1, level)
  | (0, level), .token (.punct .lbrace) => (0, level + 1)
  | (0, level), .token (.punct .rbrace) => (0, level - 1)
  | state, _ => state

def braces (results : List (Result δ)) : Nat × Int := results.foldl track (0, 0)

/-- Every brace that is closed has been opened. -/
def OpenBraces (results : List (Result δ)) : Prop := 0 ≤ (braces results).2

/-- Every brace that is opened is closed, too. -/
structure Balanced (results : List (Result δ)) : Prop where
  opened : ∀ front, front <+: results → OpenBraces front
  closed : (braces results).2 = 0

/-- Where an expression begins or ends, outside of all f-strings. -/
def Nested.outside (input stringBuf : Text) (needSemi : Bool) (nesting : Int) : Nested :=
  ⟨⟨.initial, input, stringBuf, ⟨needSemi, nesting, [], 0⟩⟩, []⟩

/-- The text in front of a closing brace is an expression with the given tokens. -/
structure IsExpression (floats : Floats δ) (nesting : Int) (expr behind : Text)
    (tokens : List (Token δ)) (nesting' : Int) : Prop where
  lexes : ∀ stringBuf, ∃ stringBuf' needSemi',
    Emits (nestedStep floats) (.outside (expr ++ behind) stringBuf false nesting)
      (tokens.map .token) (.outside behind stringBuf' needSemi' nesting')
  balanced : Balanced (tokens.map (Result.token (δ := δ)))

/-- A segment of an f-string and the interpolation behind it, with its tokens. -/
structure Part (δ : Type) where
  before : Text
  expr : Text
  tokens : List (Token δ)

/-- The text of an f-string behind its first quote, with its last segment and what follows it. -/
def partsText : List (Part δ) → Text → Text → Text
  | [], segment, rest => segment ++ 0x22 :: rest
  | p :: ps, segment, rest => p.before ++ 0x7b :: (p.expr ++ 0x7d :: partsText ps segment rest)

/-- The segments and interpolations of an f-string. -/
inductive IsFString (floats : Floats δ) (segment rest : Text) : Int → List (Part δ) → Prop
  | last (nesting : Int) (isBody : Body fstrEscapes segmentEnds segment) :
      IsFString floats segment rest nesting []
  | part {nesting nesting' : Int} {p : Part δ} {ps : List (Part δ)}
      (isBody : Body fstrEscapes segmentEnds p.before)
      (isExpression : IsExpression floats nesting p.expr (0x7d :: partsText ps segment rest)
        p.tokens nesting')
      (more : IsFString floats segment rest nesting' ps) :
      IsFString floats segment rest nesting (p :: ps)

/-- An f-string in front of a text, within so many parentheses and brackets. -/
structure FString (floats : Floats δ) where
  nesting : Int
  parts : List (Part δ)
  segment : Text
  rest : Text
  isFString : IsFString floats segment rest nesting parts

/-- From the scanner on, every interpolation is lexed to its own tokens, and then the lexer is in
its f-string again, at what is behind the closing brace.  The last segment ends the f-string. -/
def Nests (floats : Floats δ) (segment rest : Text) : Scanner → List (Part δ) → Prop
  | l, [] => ∃ l', Emits (step floats) l [.token (.fstrFinish (chunkValue false segment))] l' ∧
      l'.start = .initial ∧ l'.input = rest
  | l, p :: ps => ∃ l',
      Emits (step floats) l (.token (.fstrInterpBegin (chunkValue false p.before)) ::
        (p.tokens.map .token ++ [.token .fstrInterpEnd])) l' ∧
      l'.start = .fstr ∧ l'.input = partsText ps segment rest ∧ Nests floats segment rest l' ps

/-- An f-string is lexed to its segments around the tokens of its interpolations. -/
def FString.IsLexed {floats : Floats δ} (f : FString floats) (stringBuf : Text) (s : Statics) :
    Prop :=
  ∃ l, Emits (step floats)
    ⟨.initial, 0x66 :: 0x22 :: partsText f.parts f.segment f.rest, stringBuf,
      { s with nesting := f.nesting }⟩ [.token .fstrBegin] l ∧
    Nests floats f.segment f.rest l f.parts

end FStrings

/-! ## Rules and depths -/

section Rules

variable {δ : Type} {floats : Floats δ} {l : Scanner} {b : UInt8} {rest : Text} {depth : Nat}

/-- The tokens of braces and f-strings. -/
def Token.IsMark : Token δ → Prop
  | .punct .lbrace | .punct .rbrace | .fstrBegin | .fstrInterpBegin _ | .fstrInterpEnd
  | .fstrFinish _ => True
  | _ => False

theorem isMark_punct {p : Punct} :
    (Token.punct p : Token δ).IsMark ↔ p = .lbrace ∨ p = .rbrace := by
  cases p <;> simp [Token.IsMark]

def Token.IsNumber : Token δ → Prop
  | .intLit _ | .longLit _ | .floatLit _ | .realLit _ => True
  | _ => False

/-- A number, or one that is out of range. -/
def Result.IsNumber : Result δ → Prop
  | .token t => t.IsNumber
  | .error _ => False
  | .fault => True

theorem isNumber_numberToken {α : Type} {make : α → Token δ} (value : Option α)
    (isNumber : ∀ v, (make v).IsNumber) : (numberToken make value).IsNumber := by
  cases value with
  | none => trivial
  | some v => exact isNumber v

theorem isNumber_scanInteger (digits : Text) : (scanInteger floats digits rest).1.IsNumber := by
  unfold scanInteger
  split <;> exact isNumber_numberToken _ fun _ => trivial

theorem isNumber_of_scanFraction {digits after : Text} {r : Result δ}
    (isNumber : scanFraction floats digits rest = some (r, after)) : r.IsNumber := by
  unfold scanFraction at isNumber
  split at isNumber
  · dsimp only at isNumber
    split at isNumber
    · rw [← (Prod.mk.inj (Option.some.inj isNumber)).1]
      exact isNumber_numberToken _ fun _ => trivial
    · rw [← (Prod.mk.inj (Option.some.inj isNumber)).1]
      exact isNumber_numberToken _ fun _ => trivial
    · split at isNumber
      · cases isNumber
      · rw [← (Prod.mk.inj (Option.some.inj isNumber)).1]
        exact isNumber_numberToken _ fun _ => trivial
  · cases isNumber

theorem isNumber_of_scanNumber {text after : Text} {r : Result δ}
    (isNumber : scanNumber floats text = some (r, after)) : r.IsNumber := by
  unfold scanNumber at isNumber
  dsimp only at isNumber
  split at isNumber
  · split at isNumber
    · split at isNumber
      · cases isNumber
      · exact isNumber_of_scanFraction isNumber
    · cases isNumber
  · cases fraction : scanFraction floats (text.takeWhile isDigit)
      (text.drop (text.takeWhile isDigit).length) with
    | some found =>
        rw [fraction] at isNumber
        cases isNumber
        exact isNumber_of_scanFraction fraction
    | none =>
        rw [fraction, Option.getD_none] at isNumber
        have isInteger : _ = r := congrArg Prod.fst (Option.some.inj isNumber)
        exact isInteger ▸ isNumber_scanInteger _

/-- What the rules return that have no effect on the start condition. -/
inductive Returned : Result δ → Bool → Int → Prop
  | word (text : Text) {t : Token δ} {needSemi : Bool} (known : (text, t, needSemi) ∈ keywords) :
      Returned (.token t) needSemi 0
  | ident (name : Text) : Returned (.token (.ident name)) true 0
  | number {r : Result δ} (isNumber : r.IsNumber) : Returned r true 0
  | operator {op : Operator} (known : op ∈ operators) :
      Returned (.token (.punct op.punct)) op.needSemi op.nesting

theorem returned_of_rule {r : Result δ} {needSemi : Bool} {nesting : Int}
    (rule : (matchRule floats b rest).1 = .returns r needSemi nesting) :
    Returned r needSemi nesting := by
  unfold matchRule at rule
  split_ifs at rule
  · dsimp only at rule
    cases found : (keywords (δ := δ)).lookup (b :: rest.takeWhile isAlnum) with
    | none =>
        rw [found] at rule
        cases rule
        exact .ident _
    | some e =>
        rw [found] at rule
        cases rule
        obtain ⟨before, after, same, -⟩ := List.lookup_eq_some_iff.1 found
        exact .word (b :: rest.takeWhile isAlnum) (by simp [same])
  · unfold matchSymbol at rule
    cases isNumber : scanNumber floats (b :: rest) with
    | some found =>
        obtain ⟨result, after⟩ := found
        rw [isNumber] at rule
        cases rule
        exact .number (isNumber_of_scanNumber isNumber)
    | none =>
        rw [isNumber] at rule
        dsimp only at rule
        split_ifs at rule
        cases isOperator : operators.find? fun op => op.text.isPrefixOf (b :: rest) with
        | none =>
            rw [isOperator] at rule
            cases rule
        | some op =>
            rw [isOperator] at rule
            cases rule
            exact .operator (List.mem_of_find?_eq_some isOperator)

theorem not_isMark_of_returns {t : Token δ} {needSemi : Bool} {nesting : Int}
    (rule : (matchRule floats b rest).1 = .returns (.token t) needSemi nesting) : ¬t.IsMark := by
  cases returned_of_rule rule with
  | word text known =>
      have others : ∀ e ∈ (keywords (δ := δ)), ¬e.2.1.IsMark := by
        simp [keywords, Token.IsMark]
      exact others _ known
  | ident name => exact id
  | number isNumber => cases t <;> first | exact id | exact isNumber.elim
  | operator known =>
      have others : ∀ op ∈ operators, op.punct ≠ .lbrace ∧ op.punct ≠ .rbrace := by decide
      rw [isMark_punct, not_or]
      exact others _ known

/-- Outside of the segments of f-strings, what a step does to the depth. -/
inductive DepthStep (floats : Floats δ) (l : Scanner) : Prop
  | ordinary (r : Option (Result δ)) (l' : Scanner)
      (steps : ∀ x, step floats (l.withDepth x) = (r, l'.withDepth x)) (notFstr : l'.start ≠ .fstr)
      (other : ∀ t, r = some (.token t) → ¬t.IsMark) : DepthStep floats l
  | lbrace (l' : Scanner)
      (steps : ∀ x, step floats (l.withDepth x) =
        (some (.token (.punct .lbrace)), l'.withDepth (if 0 < x then x + 1 else 0)))
      (notFstr : l'.start ≠ .fstr) : DepthStep floats l
  | rbrace (l' : Scanner)
      (steps : ∀ x, x ≠ 1 → step floats (l.withDepth x) =
        (some (.token (.punct .rbrace)), l'.withDepth (x - 1)))
      (closes : step floats (l.withDepth 1) =
        (some (.token .fstrInterpEnd), ⟨.fstr, l'.input, l'.stringBuf,
          ⟨false, l'.statics.nesting, l'.statics.fstrBuf, 0⟩⟩))
      (notFstr : l'.start ≠ .fstr) : DepthStep floats l
  | fstrBegin (l' : Scanner) (steps : ∀ x, step floats (l.withDepth x) =
      (some (.token .fstrBegin), l')) (depth : l'.statics.fstrInterpDepth = 0) : DepthStep floats l

theorem depthStep_initial (input stringBuf : Text) (s : Statics) :
    DepthStep floats ⟨.initial, input, stringBuf, s⟩ := by
  cases input with
  | nil =>
      by_cases semi : s.needSemi = true ∧ s.nesting = 0
      · refine .ordinary (some (.token (.punct .semi)))
          ⟨.initial, [], stringBuf, { s with needSemi := false }⟩ (fun x => ?_)
          (by simp) ?_
        · simp [step, scanInitial, Scanner.withDepth, semi]
        · rintro t same
          cases same
          simp [isMark_punct]
      · refine .ordinary (some (.token .eof)) ⟨.initial, [], stringBuf, s⟩
          (fun x => ?_) (by simp) ?_
        · simp [step, scanInitial, Scanner.withDepth, semi]
        · rintro t same
          cases same
          exact id
  | cons b rest =>
      have applies {rule : Rule δ} (isRule : (matchRule floats b rest).1 = rule) (x : Nat) :
          step floats (Scanner.withDepth ⟨.initial, b :: rest, stringBuf, s⟩ x) =
            applyRule (Scanner.withDepth ⟨.initial, b :: rest, stringBuf, s⟩ x) rule
              (matchRule floats b rest).2 := by
        rw [← isRule]
        rfl
      generalize (matchRule floats b rest).2 = after at applies
      cases isRule : (matchRule floats b rest).1 with
      | skip =>
          exact .ordinary _ ⟨.initial, after, stringBuf, s⟩ (applies isRule) (by simp)
            (by simp)
      | newline =>
          refine .ordinary
            (if s.needSemi ∧ s.nesting = 0 then some (.token (.punct .semi)) else none)
            ⟨.initial, after, stringBuf, { s with needSemi := false }⟩ (applies isRule) (by simp) ?_
          rintro t same
          split_ifs at same
          cases same
          simp [isMark_punct]
      | mlComment =>
          exact .ordinary _ ⟨.mlComment, after, stringBuf, s⟩ (applies isRule) (by simp)
            (by simp)
      | strDq =>
          exact .ordinary _ ⟨.strDq, after, [], s⟩ (applies isRule) (by simp) (by simp)
      | strSq =>
          exact .ordinary _ ⟨.strSq, after, [], s⟩ (applies isRule) (by simp) (by simp)
      | fstrBegin =>
          exact .fstrBegin ⟨.fstr, after, stringBuf, ⟨false, s.nesting, [], 0⟩⟩
            (applies isRule) rfl
      | lbrace =>
          exact .lbrace ⟨.initial, after, stringBuf, { s with needSemi := false }⟩
            (applies isRule) (by simp)
      | rbrace =>
          refine .rbrace ⟨.initial, after, stringBuf, { s with needSemi := true }⟩
            (fun x other => ?_) (applies isRule 1) (by simp)
          rw [applies isRule, applyRule]
          exact if_neg other
      | returns result needSemi nesting =>
          refine .ordinary _ ⟨.initial, after, stringBuf,
            { s with needSemi := needSemi, nesting := s.nesting + nesting }⟩ (applies isRule)
            (by simp) ?_
          rintro t same
          cases same
          exact not_isMark_of_returns isRule
      | rejects message =>
          exact .ordinary _ ⟨.initial, after, stringBuf, s⟩ (applies isRule) (by simp)
            (by simp)

theorem depthStep_mlComment (input stringBuf : Text) (s : Statics) :
    DepthStep floats ⟨.mlComment, input, stringBuf, s⟩ := by
  cases input with
  | nil => exact .ordinary _ ⟨.mlComment, [], stringBuf, s⟩ (fun _ => rfl) (by simp) (by simp)
  | cons b rest =>
      by_cases closes : [0x22, 0x22, 0x22] <+: b :: rest
      · refine .ordinary none ⟨.initial, rest.drop 2, stringBuf, s⟩ (fun x => ?_)
          (by simp) (by simp)
        exact if_pos closes
      · refine .ordinary none ⟨.mlComment, rest, stringBuf, s⟩ (fun x => ?_)
          (by simp) (by simp)
        exact if_neg closes

theorem depthStep_string {start : Start} {quote : UInt8} (within : Within start quote)
    (input stringBuf : Text) (s : Statics) : DepthStep floats ⟨start, input, stringBuf, s⟩ := by
  have notFstr : start ≠ .fstr := by cases within <;> decide
  have scans (x : Nat) : step floats (Scanner.withDepth ⟨start, input, stringBuf, s⟩ x) =
      scanString quote (Scanner.withDepth ⟨start, input, stringBuf, s⟩ x) := within.step _ _ _
  cases input with
  | nil => exact .ordinary _ ⟨start, [], stringBuf, s⟩ scans notFstr (by simp)
  | cons b rest =>
      by_cases closes : b = quote
      · refine .ordinary (some (.token (.string stringBuf)))
          ⟨.initial, rest, stringBuf, { s with needSemi := true }⟩ (fun x => ?_)
          (by simp) ?_
        · rw [scans]
          exact if_pos closes
        · rintro t same
          cases same
          exact id
      · cases isEscape : (if b = 0x5c then readEscape escapes rest else none) with
        | some c =>
            refine .ordinary none ⟨start, rest.drop 1, stringBuf ++ [c], s⟩
              (fun x => ?_) notFstr (by simp)
            rw [scans, scanString]
            simp only [Scanner.withDepth, if_neg closes, isEscape]
        | none =>
            refine .ordinary none ⟨start, rest, stringBuf ++ [b], s⟩
              (fun x => ?_) notFstr (by simp)
            rw [scans, scanString]
            simp only [Scanner.withDepth, if_neg closes, isEscape]

theorem depthStep (floats : Floats δ) (notFstr : l.start ≠ .fstr) : DepthStep floats l := by
  obtain ⟨start, input, stringBuf, s⟩ := l
  cases start with
  | initial => exact depthStep_initial input stringBuf s
  | mlComment => exact depthStep_mlComment input stringBuf s
  | strSq => exact depthStep_string .sq input stringBuf s
  | strDq => exact depthStep_string .dq input stringBuf s
  | fstr => exact absurd rfl notFstr

/-- Within a segment of an f-string: it goes on, an interpolation or the end follows, or the text
has ended. -/
inductive SegmentStep (floats : Floats δ) (l : Scanner) : Prop
  | goesOn (l' : Scanner) (steps : step floats l = (none, l')) (within : l'.start = .fstr)
      (depth : l'.statics.fstrInterpDepth = l.statics.fstrInterpDepth) : SegmentStep floats l
  | error {message : Text} (steps : step floats l = (some (.error message), l)) :
      SegmentStep floats l
  | interpBegin {chunk : Text} {l' : Scanner}
      (steps : step floats l = (some (.token (.fstrInterpBegin chunk)), l'))
      (outside : l'.start ≠ .fstr) : SegmentStep floats l
  | finish {chunk : Text} {l' : Scanner}
      (steps : step floats l = (some (.token (.fstrFinish chunk)), l')) (outside : l'.start ≠ .fstr)
      (depth : l'.statics.fstrInterpDepth = l.statics.fstrInterpDepth) : SegmentStep floats l

theorem segmentStep (floats : Floats δ) (isFstr : l.start = .fstr) : SegmentStep floats l := by
  obtain ⟨start, input, stringBuf, s⟩ := l
  cases isFstr
  cases input with
  | nil => exact .error rfl
  | cons b rest =>
      have scans : step floats ⟨.fstr, b :: rest, stringBuf, s⟩ =
        scanFstr ⟨.fstr, b :: rest, stringBuf, s⟩ := rfl
      by_cases quote : b = 0x22
      · subst quote
        exact .finish rfl (by simp) rfl
      · by_cases brace : b = 0x7b
        · subst brace
          exact .interpBegin rfl (by simp)
        · by_cases escape : b = 0x5c
          · subst escape
            cases known : readEscape fstrEscapes rest with
            | some c =>
                refine .goesOn ⟨.fstr, rest.drop 1, stringBuf,
                  { s with fstrBuf := s.fstrBuf ++ [c] }⟩ ?_ rfl rfl
                simp [scans, scanFstr, known]
            | none =>
                refine .goesOn ⟨.fstr, rest, stringBuf, s⟩ ?_ rfl rfl
                simp [scans, scanFstr, known]
          · by_cases newline : b = 0x0a
            · subst newline
              exact .goesOn _ rfl rfl rfl
            · refine .goesOn ⟨.fstr, rest.dropWhile isPlain, stringBuf,
                { s with fstrBuf := s.fstrBuf ++ Logic.cText (b :: rest.takeWhile isPlain) }⟩ ?_
                rfl rfl
              simp [scans, scanFstr, quote, brace, escape, newline]

end Rules

/-! ## The lexer with all depths -/

section Frame

variable {δ : Type} {floats : Floats δ} {results : List (Result δ)} {r : Result δ}

theorem braces_append (results : List (Result δ)) (r : Result δ) :
    braces (results ++ [r]) = track (braces results) r := by
  rw [braces, List.foldl_append]
  rfl

theorem track_of_not_isMark (other : ∀ t, r = .token t → ¬t.IsMark) (state : Nat × Int) :
    track state r = state := by
  cases r with
  | error message | fault => cases state with | mk k level => cases k <;> rfl
  | token t =>
      have notMark := other t rfl
      cases t with
      | punct p =>
          rw [isMark_punct, not_or] at notMark
          obtain ⟨k, level⟩ := state
          cases p <;>
            first | exact absurd rfl notMark.1 | exact absurd rfl notMark.2 | cases k <;> rfl
      | fstrBegin | fstrInterpBegin | fstrInterpEnd | fstrFinish => exact absurd trivial notMark
      | _ => cases state with | mk k level => cases k <;> rfl

theorem nestDepths_of_not_isMark (before after : Scanner) (outer : List Nat)
    (other : ∀ t, r = .token t → ¬t.IsMark) :
    nestDepths before outer after (some r) = ⟨after, outer⟩ := by
  cases r with
  | error message | fault => rfl
  | token t =>
      cases t with
      | fstrBegin | fstrFinish => exact absurd trivial (other _ rfl)
      | _ => rfl

theorem braces_toList (results : List (Result δ)) (r : Option (Result δ))
    (other : ∀ t, r = some (.token t) → ¬t.IsMark) :
    braces (results ++ r.toList) = braces results := by
  cases r with
  | none => rw [Option.toList_none, List.append_nil]
  | some r =>
      rw [Option.toList_some, braces_append]
      exact track_of_not_isMark (fun t same => other t (congrArg some same)) _

theorem nestDepths_of_ordinary (before after : Scanner) (outer : List Nat)
    {r : Option (Result δ)} (other : ∀ t, r = some (.token t) → ¬t.IsMark) :
    nestDepths before outer after r = ⟨after, outer⟩ := by
  cases r with
  | none => rfl
  | some r =>
      exact nestDepths_of_not_isMark _ _ _ fun t same => other t (congrArg some same)

theorem track_inside (k : Nat) (level : Int) (notBegin : r ≠ .token .fstrBegin)
    (notFinish : ∀ chunk, r ≠ .token (.fstrFinish chunk)) :
    track (k + 1, level) r = (k + 1, level) := by
  cases r with
  | error message | fault => rfl
  | token t =>
      cases t with
      | fstrBegin => exact absurd rfl notBegin
      | fstrFinish chunk => exact absurd rfl (notFinish chunk)
      | punct p => cases p <;> rfl
      | _ => rfl

theorem nestDepths_inside (before after : Scanner) (outer : List Nat)
    (notBegin : r ≠ .token .fstrBegin) (notFinish : ∀ chunk, r ≠ .token (.fstrFinish chunk)) :
    nestDepths before outer after (some r) = ⟨after, outer⟩ := by
  cases r with
  | error message | fault => rfl
  | token t =>
      cases t with
      | fstrBegin => exact absurd rfl notBegin
      | fstrFinish chunk => exact absurd rfl (notFinish chunk)
      | _ => rfl

theorem withDepth_self (l : Scanner) : l.withDepth l.statics.fstrInterpDepth = l := rfl

theorem outside_of_finish {l : Scanner} {chunk : Text}
    (finishes : (step floats l).1 = some (.token (.fstrFinish chunk))) :
    l.start = .fstr ∧ (step floats l).2.start ≠ .fstr ∧
      (step floats l).2.statics.fstrInterpDepth = l.statics.fstrInterpDepth := by
  by_cases isFstr : l.start = .fstr
  · cases segmentStep floats isFstr with
    | goesOn l' steps => simp [steps] at finishes
    | error steps => simp [steps] at finishes
    | interpBegin steps => simp [steps] at finishes
    | finish steps outside depth =>
        rw [steps]
        exact ⟨isFstr, outside, depth⟩
  · exfalso
    have self := withDepth_self l
    cases depthStep floats isFstr with
    | ordinary r l' steps notFstr other =>
        rw [← self, steps] at finishes
        exact other _ finishes trivial
    | lbrace l' steps =>
        rw [← self, steps] at finishes
        cases finishes
    | rbrace l' steps closes =>
        by_cases last : l.statics.fstrInterpDepth = 1
        · rw [← self, last, closes] at finishes
          cases finishes
        · rw [← self, steps _ last] at finishes
          cases finishes
    | fstrBegin l' steps =>
        rw [← self, steps] at finishes
        cases finishes

/-- Two lexers that have read the same, the second one in interpolations around the first one.
Outside of the f-strings that the first one has begun, the depth of the second one counts the
braces. -/
inductive Framed (depth : Nat) (outer : List Nat) : Nat × Int → Nested → Nested → Prop
  | outside {l : Scanner} {level : Int} (notFstr : l.start ≠ .fstr) (opened : 0 ≤ level) :
      Framed depth outer (0, level) ⟨l.withDepth 0, []⟩ ⟨l.withDepth (depth + level.toNat), outer⟩
  | inside {l : Scanner} {level : Int} {depths : List Nat} (opened : 0 ≤ level) :
      Framed depth outer (depths.length + 1, level) ⟨l, depths ++ [0]⟩
        ⟨l, depths ++ (depth + level.toNat) :: outer⟩

/-- The two lexers go on alike, unless a brace is closed that the first one has not opened. -/
theorem framed_step {depth : Nat} {outer : List Nat} (positive : 0 < depth) {n n' : Nested}
    (framed : Framed depth outer (braces results) n n')
    (opened : OpenBraces (results ++ (nestedStep floats n).1.toList)) :
    (nestedStep floats n').1 = (nestedStep floats n).1 ∧
      Framed depth outer (braces (results ++ (nestedStep floats n).1.toList))
        (nestedStep floats n).2 (nestedStep floats n').2 := by
  generalize isBraces : braces results = state at framed
  cases framed with
  | @outside l level notFstr nonneg =>
      rw [nestedStep, nestedStep]
      rw [nestedStep, OpenBraces] at opened
      dsimp only at opened ⊢
      cases depthStep floats notFstr with
      | ordinary r l' steps notFstr' other =>
          rw [steps, steps, braces_toList _ _ other, isBraces, nestDepths_of_ordinary _ _ _ other,
            nestDepths_of_ordinary _ _ _ other]
          exact ⟨rfl, .outside notFstr' nonneg⟩
      | lbrace l' steps notFstr' =>
          rw [steps, steps, if_neg (Nat.lt_irrefl 0), if_pos (Nat.add_pos_left positive _),
            Option.toList_some, braces_append, isBraces]
          refine ⟨rfl, ?_⟩
          have deeper : depth + level.toNat + 1 = depth + (level + 1).toNat := by omega
          rw [deeper]
          exact .outside notFstr' (by omega)
      | rbrace l' steps closes notFstr' =>
          rw [steps 0 (by decide), Option.toList_some, braces_append, isBraces] at opened
          have opened : 0 ≤ level - 1 := opened
          rw [steps 0 (by decide), steps _ (by omega), Option.toList_some, braces_append, isBraces]
          refine ⟨rfl, ?_⟩
          have deeper : depth + level.toNat - 1 = depth + (level - 1).toNat := by omega
          rw [deeper]
          exact .outside notFstr' opened
      | fstrBegin l' steps isZero =>
          rw [steps, steps, Option.toList_some, braces_append, isBraces]
          refine ⟨rfl, ?_⟩
          exact @Framed.inside depth outer l' level [] nonneg
  | @inside l level depths nonneg =>
      rw [nestedStep, nestedStep]
      dsimp only
      cases emitted : (step floats l).1 with
      | none =>
          rw [Option.toList_none, List.append_nil, isBraces]
          exact ⟨rfl, .inside nonneg⟩
      | some r =>
          rw [Option.toList_some, braces_append, isBraces]
          refine ⟨rfl, ?_⟩
          by_cases begins : r = .token .fstrBegin
          · rw [begins]
            exact @Framed.inside depth outer (step floats l).2 level
              (l.statics.fstrInterpDepth :: depths) nonneg
          · by_cases finishes : ∃ chunk, r = .token (.fstrFinish chunk)
            · obtain ⟨chunk, rfl⟩ := finishes
              have outside := (outside_of_finish emitted).2.1
              cases depths with
              | nil => exact .outside outside nonneg
              | cons d depths => exact .inside nonneg
            · have notFinish : ∀ chunk, r ≠ .token (.fstrFinish chunk) := fun chunk same =>
                finishes ⟨chunk, same⟩
              rw [track_inside _ _ begins notFinish, nestDepths_inside _ _ _ begins notFinish,
                nestDepths_inside _ _ _ begins notFinish]
              exact .inside nonneg

end Frame

/-! ## The lexer with one depth -/

section Single

variable {δ : Type} {floats : Floats δ} {l l' : Scanner} {results : List (Result δ)}
  {tokens : List (Token δ)} {expr behind stringBuf fstrBuf : Text} {needSemi : Bool}
  {nesting nesting' : Int} {depth : Nat}

theorem Quietly.emits {out : Text} (quietly : Quietly floats l out l') :
    Emits (Lexer.step floats) l [] l' := by
  induction quietly with
  | refl l => exact .refl l
  | @step l l' out goesOn _ ih =>
      have first : Emits (Lexer.step floats) l [] (Lexer.step floats l).2 :=
        .of_none (Prod.ext goesOn rfl)
      exact first.trans ih

theorem mem_map_token {t : Token δ} : Result.token t ∈ tokens.map .token ↔ t ∈ tokens :=
  List.mem_map_of_injective fun _ _ same => Result.token.inj same

theorem braces_fst_of_not_mem (noBegin : .token .fstrBegin ∉ results) : (braces results).1 = 0 := by
  induction results using List.reverseRecOn with
  | nil => rfl
  | append_singleton results r ih =>
      rw [List.mem_append, List.mem_singleton, not_or] at noBegin
      have isZero := ih noBegin.1
      rw [braces_append]
      generalize braces results = state at isZero
      obtain ⟨k, level⟩ := state
      cases isZero
      cases r with
      | error | fault => rfl
      | token t =>
          cases t with
          | fstrBegin => exact absurd rfl noBegin.2
          | punct p => cases p <;> rfl
          | _ => rfl

theorem framed_outside {outer : List Nat} {state : Nat × Int} {n : Nested} (closed : state.2 = 0)
    (framed : Framed depth outer state (.outside behind stringBuf needSemi nesting) n) :
    n = ⟨⟨.initial, behind, stringBuf, ⟨needSemi, nesting, [], depth⟩⟩, outer⟩ := by
  generalize isOutside : Nested.outside behind stringBuf needSemi nesting = n' at framed
  cases framed with
  | @outside l level =>
      cases closed
      obtain ⟨start, input, buf, ⟨semi, depths, fstrBuf, depth⟩⟩ := l
      cases isOutside
      rfl
  | @inside l level depths =>
      have isEmpty : [] = depths ++ [0] := (Nested.mk.inj isOutside).2
      exact absurd isEmpty (by simp)

theorem framed_start (depth : Nat) (outer : List Nat) :
    Framed depth outer (braces ([] : List (Result δ)))
      (.outside behind stringBuf needSemi nesting)
      ⟨⟨.initial, behind, stringBuf, ⟨needSemi, nesting, [], depth⟩⟩, outer⟩ :=
  @Framed.outside depth outer ⟨.initial, behind, stringBuf, ⟨needSemi, nesting, [], depth⟩⟩ 0
    (by simp) le_rfl

theorem IsExpression.nested (isExpression : IsExpression floats nesting expr (0x7d :: behind) tokens
    nesting') (outer : List Nat) (stringBuf : Text) : ∃ stringBuf',
    Emits (nestedStep floats)
      ⟨⟨.initial, expr ++ 0x7d :: behind, stringBuf, ⟨false, nesting, [], 1⟩⟩, outer⟩
      (tokens.map .token ++ [.token .fstrInterpEnd])
      ⟨⟨.fstr, behind, stringBuf', ⟨false, nesting', [], 0⟩⟩, outer⟩ := by
  obtain ⟨stringBuf', needSemi', run⟩ := isExpression.lexes stringBuf
  obtain ⟨last, run', framed⟩ := run.simulate
    (R := fun results => Framed 1 outer (braces results)) (A := OpenBraces)
    (fun _ _ _ => framed_step Nat.one_pos) (framed_start 1 outer)
    fun front isFront => isExpression.balanced.opened front isFront
  cases framed_outside isExpression.balanced.closed framed
  exact ⟨stringBuf', run'.trans (.of_some rfl)⟩

theorem IsExpression.emits (isExpression : IsExpression floats nesting expr (0x7d :: behind) tokens
    nesting') (noBegin : .fstrBegin ∉ tokens) (stringBuf : Text) : ∃ stringBuf',
    Emits (step floats) ⟨.initial, expr ++ 0x7d :: behind, stringBuf, ⟨false, nesting, [], 1⟩⟩
      (tokens.map .token ++ [.token .fstrInterpEnd])
      ⟨.fstr, behind, stringBuf', ⟨false, nesting', [], 0⟩⟩ := by
  obtain ⟨stringBuf', needSemi', run⟩ := isExpression.lexes stringBuf
  have noBegins : ∀ front, front <+: tokens.map Result.token →
      Result.token Token.fstrBegin ∉ front :=
    fun front isFront member => noBegin (mem_map_token.1 (isFront.subset member))
  -- no f-string is open, so that the code has the depth in the interpolation
  have related : ∀ results n l, Framed 1 [] (braces results) n ⟨l, []⟩ →
      OpenBraces (results ++ (nestedStep floats n).1.toList) ∧
        .token .fstrBegin ∉ results ++ (nestedStep floats n).1.toList →
      (step floats l).1 = (nestedStep floats n).1 ∧
        Framed 1 [] (braces (results ++ (nestedStep floats n).1.toList)) (nestedStep floats n).2
          ⟨(step floats l).2, []⟩ := by
    rintro results n l framed ⟨opened, noBegin⟩
    obtain ⟨same, framed'⟩ := framed_step Nat.one_pos framed opened
    refine ⟨same, ?_⟩
    have isOutside := braces_fst_of_not_mem fun member => noBegin (List.mem_append_left _ member)
    have notFstr : l.start ≠ .fstr := by
      generalize braces results = state at framed isOutside
      generalize isNested : (⟨l, []⟩ : Nested) = n' at framed
      cases framed with
      | outside notFstr =>
          cases isNested
          exact notFstr
      | inside => cases isOutside
    have kept : (nestedStep floats ⟨l, []⟩).2 = ⟨(step floats l).2, []⟩ := by
      rw [← same] at noBegin
      rw [nestedStep] at noBegin ⊢
      dsimp only at noBegin ⊢
      cases emitted : (step floats l).1 with
      | none => rfl
      | some r =>
          rw [emitted] at noBegin
          refine nestDepths_inside _ _ _ (fun begins => noBegin (by simp [begins])) ?_
          rintro chunk rfl
          exact notFstr (outside_of_finish emitted).1
    rwa [kept] at framed'
  obtain ⟨last, run', framed⟩ := run.simulate
    (R := fun results n l => Framed 1 [] (braces results) n ⟨l, []⟩)
    (A := fun results => OpenBraces results ∧ .token .fstrBegin ∉ results) related
    (framed_start 1 [])
    fun front isFront => ⟨isExpression.balanced.opened front isFront, noBegins front isFront⟩
  have closed : (braces (tokens.map (Result.token (δ := δ)))).2 = 0 := isExpression.balanced.closed
  have isLast := framed_outside closed framed
  cases isLast
  exact ⟨stringBuf', run'.trans (.of_some rfl)⟩

/-- Whether the last token of an f-string, if there is any, begins an interpolation. -/
def interpolating : Bool → Result δ → Bool
  | _, .token (.fstrInterpBegin _) => true
  | _, .token .fstrBegin => false
  | _, .token .fstrInterpEnd => false
  | _, .token (.fstrFinish _) => false
  | before, _ => before

def interpolates (results : List (Result δ)) : Bool := results.foldl interpolating true

theorem interpolates_append (results : List (Result δ)) (r : Result δ) :
    interpolates (results ++ [r]) = interpolating (interpolates results) r := by
  rw [interpolates, List.foldl_append]
  rfl

theorem interpolating_of_not_isMark {r : Result δ} (other : ∀ t, r = .token t → ¬t.IsMark)
    (before : Bool) : interpolating before r = before := by
  cases r with
  | error | fault => rfl
  | token t =>
      cases t with
      | fstrBegin | fstrInterpBegin | fstrInterpEnd | fstrFinish =>
        exact absurd trivial (other _ rfl)
      | _ => rfl

theorem interpolates_toList (results : List (Result δ)) {r : Option (Result δ)}
    (other : ∀ t, r = some (.token t) → ¬t.IsMark) :
    interpolates (results ++ r.toList) = interpolates results := by
  cases r with
  | none => rw [Option.toList_none, List.append_nil]
  | some r =>
      rw [Option.toList_some, interpolates_append]
      exact interpolating_of_not_isMark (fun t same => other t (congrArg some same)) _

/-- The depth is that of an interpolation in which no other f-string has been begun. -/
structure Innermost (results : List (Result δ)) (l : Scanner) : Prop where
  segment : l.start = .fstr → l.statics.fstrInterpDepth = 0
  deep : 0 < l.statics.fstrInterpDepth → interpolates results = true

theorem Innermost.nil (innermost : Innermost results l) : Innermost ([] : List (Result δ)) l :=
  ⟨innermost.segment, fun _ => rfl⟩

theorem innermost_of_zero (isZero : l.statics.fstrInterpDepth = 0) : Innermost results l where
  segment _ := isZero
  deep positive := absurd isZero positive.ne'

theorem innermost_step (innermost : Innermost results l) :
    Innermost (results ++ (step floats l).1.toList) (step floats l).2 := by
  by_cases isFstr : l.start = .fstr
  · have isZero := innermost.segment isFstr
    cases segmentStep floats isFstr with
    | goesOn l' steps within depth =>
        rw [steps]
        exact innermost_of_zero (depth.trans isZero)
    | error steps =>
        rw [steps]
        exact innermost_of_zero isZero
    | interpBegin steps outside =>
        rw [steps]
        refine ⟨fun within => absurd within outside, fun _ => ?_⟩
        rw [Option.toList_some, interpolates_append]
        rfl
    | finish steps outside depth =>
        rw [steps]
        exact innermost_of_zero (depth.trans isZero)
  · have self := withDepth_self l
    have deep := innermost.deep
    generalize l.statics.fstrInterpDepth = depth at self deep
    rw [← self]
    cases depthStep floats isFstr with
    | ordinary r l' steps notFstr other =>
        rw [steps]
        refine ⟨fun within => absurd within notFstr, ?_⟩
        rw [interpolates_toList results other]
        exact deep
    | lbrace l' steps notFstr =>
        rw [steps, Option.toList_some]
        refine ⟨fun within => absurd within notFstr, ?_⟩
        rw [interpolates_append]
        intro positive
        by_cases zero : 0 < depth
        · exact deep zero
        · exact absurd positive (by simp [Scanner.withDepth, zero])
    | rbrace l' steps closes notFstr =>
        by_cases last : depth = 1
        · rw [last, closes]
          exact ⟨fun _ => rfl, fun positive => absurd positive (Nat.lt_irrefl 0)⟩
        · rw [steps _ last, Option.toList_some]
          refine ⟨fun within => absurd within notFstr, ?_⟩
          rw [interpolates_append]
          intro positive
          exact deep (Nat.lt_of_lt_of_le positive (Nat.sub_le _ _))
    | fstrBegin l' steps isZero =>
        rw [steps]
        exact innermost_of_zero isZero

/-- An interpolation ends at the depth that its beginning has set. -/
theorem depth_of_interpEnd (ends : (step floats l).1 = some (.token .fstrInterpEnd)) :
    l.statics.fstrInterpDepth = 1 := by
  by_cases isFstr : l.start = .fstr
  · cases segmentStep floats isFstr with
    | goesOn l' steps | error steps | interpBegin steps | finish steps => simp [steps] at ends
  · by_contra notLast
    have self := withDepth_self l
    rw [← self] at ends
    cases depthStep floats isFstr with
    | ordinary r l' steps notFstr other =>
        rw [steps] at ends
        exact other _ ends trivial
    | lbrace l' steps =>
        rw [steps] at ends
        cases ends
    | rbrace l' steps =>
        rw [steps _ notLast] at ends
        cases ends
    | fstrBegin l' steps =>
        rw [steps] at ends
        cases ends

/-- With a depth for every f-string, one that has been begun within an expression has ended where
no f-string is open. -/
inductive Stacked (results : List (Result δ)) : Nested → Prop
  | outside {l : Scanner} (notFstr : l.start ≠ .fstr)
      (ended : .token .fstrBegin ∈ results → interpolates results = false) :
      Stacked results ⟨l.withDepth 0, []⟩
  | inside {l : Scanner} {depths : List Nat} : Stacked results ⟨l, depths ++ [0]⟩

theorem stacked_step {n : Nested} (stacked : Stacked results n) :
    Stacked (results ++ (nestedStep floats n).1.toList) (nestedStep floats n).2 := by
  cases stacked with
  | @outside l notFstr ended =>
      rw [nestedStep]
      dsimp only
      cases depthStep floats notFstr with
      | ordinary r l' steps notFstr' other =>
          rw [steps, nestDepths_of_ordinary _ _ _ other]
          refine .outside notFstr' fun begun => ?_
          rw [interpolates_toList results other]
          refine ended ((List.mem_append.1 begun).resolve_right fun begins => ?_)
          exact other _ (Option.mem_toList.1 begins) trivial
      | lbrace l' steps notFstr' =>
          rw [steps, if_neg (Nat.lt_irrefl 0), Option.toList_some]
          refine .outside notFstr' fun begun => ?_
          rw [interpolates_append]
          exact ended (by simpa using begun)
      | rbrace l' steps closes notFstr' =>
          rw [steps 0 (by decide), Option.toList_some]
          refine .outside notFstr' fun begun => ?_
          rw [interpolates_append]
          exact ended (by simpa using begun)
      | fstrBegin l' steps =>
          rw [steps]
          exact @Stacked.inside δ _ l' []
  | @inside l depths =>
      rw [nestedStep]
      dsimp only
      cases emitted : (step floats l).1 with
      | none => exact .inside
      | some r =>
          by_cases begins : r = .token .fstrBegin
          · rw [begins]
            exact @Stacked.inside δ _ (step floats l).2 (l.statics.fstrInterpDepth :: depths)
          · by_cases finishes : ∃ chunk, r = .token (.fstrFinish chunk)
            · obtain ⟨chunk, rfl⟩ := finishes
              have outside := (outside_of_finish emitted).2.1
              cases depths with
              | nil =>
                  refine .outside outside fun _ => ?_
                  rw [Option.toList_some, interpolates_append]
                  rfl
              | cons d depths => exact .inside
            · rw [nestDepths_inside _ _ _ begins fun chunk same => finishes ⟨chunk, same⟩]
              exact .inside

theorem IsExpression.interpolates_eq (isExpression : IsExpression floats nesting expr behind tokens
    nesting') (begun : .fstrBegin ∈ tokens) :
    interpolates (tokens.map (Result.token (δ := δ))) = false := by
  obtain ⟨stringBuf, needSemi, run⟩ := isExpression.lexes []
  have start : Stacked ([] : List (Result δ)) (.outside (expr ++ behind) [] false nesting) :=
    @Stacked.outside δ [] ⟨.initial, expr ++ behind, [], ⟨false, nesting, [], 0⟩⟩ (by simp) nofun
  have stacked := run.invariant (I := Stacked) (fun _ _ => stacked_step) start
  rw [List.nil_append] at stacked
  generalize isOutside : Nested.outside behind stringBuf needSemi nesting' = n at stacked
  cases stacked with
  | outside _ ended => exact ended (mem_map_token.2 begun)
  | @inside l depths =>
      have isEmpty : [] = depths ++ [0] := (Nested.mk.inj isOutside).2
      exact absurd isEmpty (by simp)

/-! ## F-strings -/

theorem nests_of_plain {segment rest : Text} {parts : List (Part δ)}
    (isFString : IsFString floats segment rest nesting parts)
    (plain : ∀ p ∈ parts, .fstrBegin ∉ p.tokens) (stringBuf : Text) :
    Nests floats segment rest
      ⟨.fstr, partsText parts segment rest, stringBuf, ⟨false, nesting, [], 0⟩⟩ parts := by
  induction isFString generalizing stringBuf with
  | @last nesting isBody =>
      have run : Emits (step floats)
          ⟨.fstr, segment ++ 0x22 :: rest, stringBuf, ⟨false, nesting, [], 0⟩⟩ [] _ :=
        (quietly_chunk isBody (.closed (by decide))).emits
      exact ⟨_, run.trans (.of_some rfl), rfl, rfl⟩
  | @part nesting nesting' p ps isBody isExpression more ih =>
      rw [List.forall_mem_cons] at plain
      have run : Emits (step floats)
          ⟨.fstr, p.before ++ 0x7b :: (p.expr ++ 0x7d :: partsText ps segment rest), stringBuf,
            ⟨false, nesting, [], 0⟩⟩ [] _ :=
        (quietly_chunk isBody (.closed (by decide))).emits
      obtain ⟨stringBuf', inner⟩ := isExpression.emits plain.1 stringBuf
      exact ⟨_, run.trans (.cons rfl inner), rfl, rfl, ih plain.2 stringBuf'⟩

theorem plain_of_nests {segment rest : Text} {parts : List (Part δ)}
    (isFString : IsFString floats segment rest nesting parts)
    (innermost : Innermost ([] : List (Result δ)) l) (nests : Nests floats segment rest l parts) :
    ∀ p ∈ parts, .fstrBegin ∉ p.tokens := by
  induction isFString generalizing l with
  | last => exact fun _ member => absurd member List.not_mem_nil
  | @part nesting nesting' p ps isBody isExpression more ih =>
      obtain ⟨l', run, -, -, nests'⟩ := nests
      have innermost' := (run.invariant (I := Innermost) (fun _ _ => innermost_step) innermost).nil
      rw [List.forall_mem_cons]
      refine ⟨fun begun => ?_, ih innermost' nests'⟩
      -- the depth at the closing brace would be that of an interpolation of the inner f-string
      rw [← List.cons_append] at run
      obtain ⟨m, front, ends⟩ := run.exists_last
      have deep := (front.invariant (I := Innermost) (fun _ _ => innermost_step) innermost).deep
      rw [depth_of_interpEnd ends] at deep
      have ended : interpolates (p.tokens.map (Result.token (δ := δ))) = false :=
        isExpression.interpolates_eq begun
      exact absurd (ended.symm.trans (deep Nat.one_pos)) Bool.false_ne_true

/-- An f-string is lexed to its parts exactly if there are no f-strings in its interpolations. -/
theorem FString.isLexed_iff (f : FString floats) (stringBuf : Text) (s : Statics) :
    f.IsLexed stringBuf s ↔ ∀ p ∈ f.parts, .fstrBegin ∉ p.tokens := by
  constructor
  · rintro ⟨l, run, nests⟩
    refine plain_of_nests f.isFString ?_ nests
    have start : Innermost ([] : List (Result δ)) ⟨.initial,
        0x66 :: 0x22 :: partsText f.parts f.segment f.rest, stringBuf,
        { s with nesting := f.nesting }⟩ := ⟨nofun, fun _ => rfl⟩
    exact (run.invariant (I := Innermost) (fun _ _ => innermost_step) start).nil
  · intro plain
    exact ⟨_, .of_some rfl, nests_of_plain f.isFString plain stringBuf⟩

/-- The tokens of `f"x"`. -/
def innerTokens : List (Token Unit) := [.fstrBegin, .fstrFinish [0x78]]

theorem isExpression_inner (floats : Floats Unit) :
    IsExpression floats 0 [0x66, 0x22, 0x78, 0x22] [0x7d, 0x22] innerTokens 0 where
  lexes stringBuf := by
    have begins : nestedStep floats
          (.outside [0x66, 0x22, 0x78, 0x22, 0x7d, 0x22] stringBuf false 0) =
        (some (.token .fstrBegin),
          ⟨⟨.fstr, [0x78, 0x22, 0x7d, 0x22], stringBuf, ⟨false, 0, [], 0⟩⟩, [0]⟩) := rfl
    have goesOn : nestedStep floats
          ⟨⟨.fstr, [0x78, 0x22, 0x7d, 0x22], stringBuf, ⟨false, 0, [], 0⟩⟩, [0]⟩ =
        (none, ⟨⟨.fstr, [0x22, 0x7d, 0x22], stringBuf, ⟨false, 0, [0x78], 0⟩⟩, [0]⟩) := rfl
    have finishes : nestedStep floats
          ⟨⟨.fstr, [0x22, 0x7d, 0x22], stringBuf, ⟨false, 0, [0x78], 0⟩⟩, [0]⟩ =
        (some (.token (.fstrFinish [0x78])), .outside [0x7d, 0x22] stringBuf true 0) := rfl
    have inner := (Logic.Emits.of_none goesOn).trans (.of_some finishes)
    exact ⟨stringBuf, true, .cons begins inner⟩
  balanced :=
    { opened := fun front isFront => by
        have all : ∀ front ∈ (innerTokens.map Result.token).inits, OpenBraces front := by
          unfold OpenBraces
          decide
        exact all front ((List.mem_inits _ _).2 isFront)
      closed := rfl }

/-- An f-string within an f-string: `f"{f"x"}"`. -/
def nestedFString (floats : Floats Unit) : FString floats where
  nesting := 0
  parts := [⟨[], [0x66, 0x22, 0x78, 0x22], innerTokens⟩]
  segment := []
  rest := []
  isFString := .part .nil (isExpression_inner floats) (.last 0 .nil)

/-- The brace behind the inner f-string is not the end of the interpolation. -/
theorem not_isLexed_nested : ¬∀ {δ : Type} {floats : Floats δ} (f : FString floats)
    (stringBuf : Text) (s : Statics), f.IsLexed stringBuf s := by
  intro always
  have floats : Floats Unit := ⟨fun _ => none, fun _ => ()⟩
  obtain ⟨l, run, nests⟩ := always (nestedFString floats) [] .initial
  have start : Innermost ([] : List (Result Unit)) ⟨.initial,
      [0x66, 0x22, 0x7b, 0x66, 0x22, 0x78, 0x22, 0x7d, 0x22], [], Statics.initial⟩ :=
    ⟨nofun, fun _ => rfl⟩
  have innermost := (run.invariant (I := Innermost) (fun _ _ => innermost_step) start).nil
  exact plain_of_nests (nestedFString floats).isFString innermost nests _
    (List.mem_singleton_self _) List.mem_cons_self

end Single

end Dux.Lexer
