import Dux.Lexer.Tokens

/-!
# The lexer

`yylex` as `src/lexer/dux.l` describes it: the start condition and the rest of the input belong to
the buffer of a file, and some variables are static.
-/

namespace Dux.Lexer

open Logic (ascii isDigit digitsValue cText)

/-! ## State -/

inductive Start
  | initial | mlComment | strSq | strDq | fstr
  deriving DecidableEq

structure Statics where
  needSemi : Bool
  nesting : Int
  fstrBuf : Text
  fstrInterpDepth : Nat

/-- Their values when the process starts. -/
def Statics.initial : Statics := ⟨false, 0, [], 0⟩

/-- What a call of `yylex` finds, with the buffer of the driver for strings. -/
structure Scanner where
  start : Start
  input : Text
  stringBuf : Text
  statics : Statics

def Scanner.ofFile (statics : Statics) (stringBuf input : Text) : Scanner :=
  ⟨.initial, input, stringBuf, statics⟩

/-! ## Rules -/

section Rules

variable {δ : Type}

/-- `std::stoll`, for digits. -/
def stoll (digits : Text) : Option Int :=
  if digitsValue digits < 2 ^ 63 then some (digitsValue digits) else none

/-- `std::stod`, and the conversion of a `long long`. -/
structure Floats (δ : Type) where
  stod : Text → Option δ
  ofInt : Int → δ

/-- A number that is out of range has no token. -/
def numberToken {α : Type} (make : α → Token δ) (value : Option α) : Result δ :=
  match value with
  | some v => .token (make v)
  | none => .fault

/-- A number with a point and digits before it: its text and its suffix. -/
def scanFraction (floats : Floats δ) (digits rest : Text) : Option (Result δ × Text) :=
  match rest with
  | 0x2e :: rest =>
      let fraction := rest.takeWhile isDigit
      let value := floats.stod (digits ++ 0x2e :: fraction)
      match rest.drop fraction.length with
      | 0x66 :: rest => some (numberToken .realLit value, rest)
      | 0x64 :: rest => some (numberToken .floatLit value, rest)
      | rest => if fraction = [] then none else some (numberToken .floatLit value, rest)
  | _ => none

/-- A number without a point. -/
def scanInteger (floats : Floats δ) (digits rest : Text) : Result δ × Text :=
  match rest with
  | 0x69 :: rest => (numberToken .intLit (stoll digits), rest)
  | 0x6c :: rest => (numberToken .longLit (stoll digits), rest)
  | 0x64 :: rest => (numberToken .floatLit ((stoll digits).map floats.ofInt), rest)
  | 0x66 :: rest => (numberToken .realLit ((stoll digits).map floats.ofInt), rest)
  | rest => (numberToken .intLit (stoll digits), rest)

def scanNumber (floats : Floats δ) (text : Text) : Option (Result δ × Text) :=
  let digits := text.takeWhile isDigit
  let rest := text.drop digits.length
  if digits = [] then
    match text with
    | 0x2e :: fraction =>
        if fraction.takeWhile isDigit = [] then none else scanFraction floats [] text
    | _ => none
  else some ((scanFraction floats digits rest).getD (scanInteger floats digits rest))

def isAlpha (b : UInt8) : Bool := (0x61 ≤ b && b ≤ 0x7a) || (0x41 ≤ b && b ≤ 0x5a) || b = 0x5f

def isAlnum (b : UInt8) : Bool := isAlpha b || isDigit b

/-- The rule that takes the longest text in the initial start condition, where it is told apart
from the others: white space and comments, newlines, the three that begin another start
condition, the braces, those that return the same token in all states, and the last one. -/
inductive Rule (δ : Type)
  | skip
  | newline
  | mlComment
  | strDq
  | strSq
  | fstrBegin
  | lbrace
  | rbrace
  | returns (result : Result δ) (needSemi : Bool) (nesting : Int)
  | rejects (message : Text)

/-- The rules for numbers, braces and operators, and the one for any other byte, each with what is
behind it. -/
def matchSymbol (floats : Floats δ) (b : UInt8) (rest : Text) : Rule δ × Text :=
  match scanNumber floats (b :: rest) with
  | some (result, rest) => (.returns result true 0, rest)
  | none =>
      if b = 0x7b then (.lbrace, rest)
      else if b = 0x7d then (.rbrace, rest)
      else
        match operators.find? fun op => op.text.isPrefixOf (b :: rest) with
        | some op =>
            (.returns (.token (.punct op.punct)) op.needSemi op.nesting,
              rest.drop (op.text.length - 1))
        | none => (.rejects (ascii "unexpected character: '" ++ [b, 0x27]), rest)

/-- The rule for the next bytes, and what is behind them. -/
def matchRule (floats : Floats δ) (b : UInt8) (rest : Text) : Rule δ × Text :=
  if b = 0x20 ∨ b = 0x09 ∨ b = 0x0d then
    (.skip, rest.dropWhile fun b => b = 0x20 ∨ b = 0x09 ∨ b = 0x0d)
  else if b = 0x0a then (.newline, rest.dropWhile (· = 0x0a))
  else if b = 0x23 then (.skip, rest.dropWhile (· ≠ 0x0a))
  else if b = 0x22 then
    if [0x22, 0x22] <+: rest then (.mlComment, rest.drop 2) else (.strDq, rest)
  else if b = 0x27 then (.strSq, rest)
  else if b = 0x66 ∧ [0x22] <+: rest then (.fstrBegin, rest.drop 1)
  else if isAlpha b then
    let more := rest.takeWhile isAlnum
    let entry := (keywords.lookup (b :: more)).getD (.ident (b :: more), true)
    (.returns (.token entry.1) entry.2 0, rest.drop more.length)
  else matchSymbol floats b rest

/-! ## Steps -/

/-- What a step leaves: the result that `yylex` returns, if any, and the scanner. -/
abbrev Stepped (δ : Type) := Option (Result δ) × Scanner

/-- The action of a rule of the initial start condition. -/
def applyRule (l : Scanner) (rule : Rule δ) (rest : Text) : Stepped δ :=
  let s := l.statics
  match rule with
  | .skip => (none, { l with input := rest })
  | .newline =>
      (if s.needSemi ∧ s.nesting = 0 then some (.token (.punct .semi)) else none,
        { l with input := rest, statics := { s with needSemi := false } })
  | .mlComment => (none, { l with start := .mlComment, input := rest })
  | .strDq => (none, { l with start := .strDq, input := rest, stringBuf := [] })
  | .strSq => (none, { l with start := .strSq, input := rest, stringBuf := [] })
  | .fstrBegin =>
      (some (.token .fstrBegin),
        { l with
          start := .fstr, input := rest
          statics := { s with needSemi := false, fstrBuf := [], fstrInterpDepth := 0 } })
  | .lbrace =>
      let depth := if 0 < s.fstrInterpDepth then s.fstrInterpDepth + 1 else 0
      (some (.token (.punct .lbrace)),
        { l with input := rest, statics := { s with needSemi := false, fstrInterpDepth := depth } })
  | .rbrace =>
      if s.fstrInterpDepth = 1 then
        (some (.token .fstrInterpEnd),
          { l with
            start := .fstr, input := rest
            statics := { s with needSemi := false, fstrInterpDepth := 0 } })
      else
        (some (.token (.punct .rbrace)),
          { l with
            input := rest
            statics := { s with needSemi := true, fstrInterpDepth := s.fstrInterpDepth - 1 } })
  | .returns result needSemi nesting =>
      (some result,
        { l with
          input := rest
          statics := { s with needSemi := needSemi, nesting := s.nesting + nesting } })
  | .rejects message => (some (.error message), { l with input := rest })

def scanInitial (floats : Floats δ) (l : Scanner) : Stepped δ :=
  match l.input with
  | b :: rest => applyRule l (matchRule floats b rest).1 (matchRule floats b rest).2
  | [] =>
      if l.statics.needSemi ∧ l.statics.nesting = 0 then
        (some (.token (.punct .semi)), { l with statics := { l.statics with needSemi := false } })
      else (some (.token .eof), l)

/-- The start condition `ML_COMMENT`. -/
def scanMlComment (l : Scanner) : Stepped δ :=
  match l.input with
  | [] => (some (.error (ascii "unterminated multi-line comment")), l)
  | b :: rest =>
      if [0x22, 0x22, 0x22] <+: b :: rest then
        (none, { l with start := .initial, input := rest.drop 2 })
      else (none, { l with input := rest })

def escapes : List (UInt8 × UInt8) :=
  [(0x6e, 0x0a), (0x74, 0x09), (0x72, 0x0d), (0x5c, 0x5c), (0x22, 0x22), (0x27, 0x27), (0x7b, 0x7b)]

def fstrEscapes : List (UInt8 × UInt8) :=
  [(0x6e, 0x0a), (0x74, 0x09), (0x72, 0x0d), (0x5c, 0x5c), (0x22, 0x22), (0x7b, 0x7b)]

/-- The byte that an escape stands for. -/
def readEscape (table : List (UInt8 × UInt8)) (rest : Text) : Option UInt8 :=
  rest.head?.bind fun b => table.lookup b

/-- The start conditions `STR_SQ` and `STR_DQ`. -/
def scanString (quote : UInt8) (l : Scanner) : Stepped δ :=
  match l.input with
  | [] => (some (.error (ascii "unterminated string")), l)
  | b :: rest =>
      if b = quote then
        (some (.token (.string l.stringBuf)),
          { l with
            start := .initial, input := rest
            statics := { l.statics with needSemi := true } })
      else
        match (if b = 0x5c then readEscape escapes rest else none) with
        | some c => (none, { l with input := rest.drop 1, stringBuf := l.stringBuf ++ [c] })
        | none => (none, { l with input := rest, stringBuf := l.stringBuf ++ [b] })

/-- `[^"{\\\n]`. -/
def isPlain (b : UInt8) : Bool := b ≠ 0x22 && b ≠ 0x7b && b ≠ 0x5c && b ≠ 0x0a

/-- The start condition `FSTR`.  A backslash that begins no escape is echoed by default, and
`yytext` is appended as a C string. -/
def scanFstr (l : Scanner) : Stepped δ :=
  let s := l.statics
  match l.input with
  | [] => (some (.error (ascii "unterminated f-string")), l)
  | b :: rest =>
      if b = 0x22 then
        (some (.token (.fstrFinish s.fstrBuf)),
          { l with
            start := .initial, input := rest
            statics := { s with needSemi := true, fstrBuf := [] } })
      else if b = 0x7b then
        (some (.token (.fstrInterpBegin s.fstrBuf)),
          { l with
            start := .initial, input := rest
            statics := { s with fstrBuf := [], fstrInterpDepth := 1 } })
      else if b = 0x5c then
        match readEscape fstrEscapes rest with
        | some c =>
            (none,
              { l with input := rest.drop 1, statics := { s with fstrBuf := s.fstrBuf ++ [c] } })
        | none => (none, { l with input := rest })
      else if b = 0x0a then
        (none, { l with input := rest, statics := { s with fstrBuf := s.fstrBuf ++ [0x0a] } })
      else
        let yytext := b :: rest.takeWhile isPlain
        (none,
          { l with
            input := rest.dropWhile isPlain
            statics := { s with fstrBuf := s.fstrBuf ++ cText yytext } })

/-- The rule that matches next, and its action. -/
def step (floats : Floats δ) (l : Scanner) : Stepped δ :=
  match l.start with
  | .initial => scanInitial floats l
  | .mlComment => scanMlComment l
  | .strSq => scanString 0x27 l
  | .strDq => scanString 0x22 l
  | .fstr => scanFstr l

/-- Rules until one returns, at most so many. -/
def scan (floats : Floats δ) : Nat → Scanner → Option (Result δ × Scanner)
  | 0, _ => none
  | n + 1, l =>
      match (step floats l).1 with
      | some result => some (result, (step floats l).2)
      | none => scan floats n (step floats l).2

/-! ## Every call returns -/

@[simp]
theorem applyRule_input (l : Scanner) (rule : Rule δ) (rest : Text) :
    (applyRule l rule rest).2.input = rest := by
  cases rule with
  | rbrace =>
      simp only [applyRule]
      split_ifs <;> rfl
  | _ => rfl

def Rule.MayGoOn : Rule δ → Prop
  | .skip | .newline | .mlComment | .strDq | .strSq => True
  | _ => False

theorem mayGoOn_of_none {l : Scanner} {rule : Rule δ} {rest : Text}
    (h : (applyRule l rule rest).1 = none) : rule.MayGoOn := by
  cases rule with
  | skip | newline | mlComment | strDq | strSq => trivial
  | rbrace =>
      simp only [applyRule] at h
      split_ifs at h
  | _ => cases h

theorem matchSymbol_returns (floats : Floats δ) (b : UInt8) (rest : Text) :
    ¬ (matchSymbol floats b rest).1.MayGoOn := by
  unfold matchSymbol
  cases scanNumber floats (b :: rest) with
  | some found => exact id
  | none =>
      simp only
      split_ifs
      · exact id
      · exact id
      · cases operators.find? fun op => op.text.isPrefixOf (b :: rest) <;> exact id

theorem matchRule_length (floats : Floats δ) (b : UInt8) (rest : Text)
    (h : (matchRule floats b rest).1.MayGoOn) :
    (matchRule floats b rest).2.length ≤ rest.length := by
  unfold matchRule at h ⊢
  split_ifs at h ⊢
  · exact (List.dropWhile_suffix _).length_le
  · exact (List.dropWhile_suffix _).length_le
  · exact (List.dropWhile_suffix _).length_le
  · exact (List.drop_suffix 2 rest).length_le
  · exact le_rfl
  · exact le_rfl
  · exact h.elim
  · exact h.elim
  · exact absurd h (matchSymbol_returns floats b rest)

theorem scanInitial_length {floats : Floats δ} {l : Scanner} (h : (scanInitial floats l).1 = none) :
    (scanInitial floats l).2.input.length < l.input.length := by
  unfold scanInitial at h ⊢
  cases input : l.input with
  | nil =>
      simp only [input] at h
      split_ifs at h
  | cons b rest =>
      simp only [input, applyRule_input] at h ⊢
      exact Nat.lt_succ_of_le (matchRule_length floats b rest (mayGoOn_of_none h))

theorem scanMlComment_length {l : Scanner} (h : (scanMlComment (δ := δ) l).1 = none) :
    (scanMlComment (δ := δ) l).2.input.length < l.input.length := by
  unfold scanMlComment at h ⊢
  cases input : l.input with
  | nil => simp [input] at h
  | cons b rest =>
      simp only
      split_ifs
      · exact Nat.lt_succ_of_le (List.drop_suffix 2 rest).length_le
      · exact Nat.lt_succ_self _

theorem scanString_length {quote : UInt8} {l : Scanner}
    (h : (scanString (δ := δ) quote l).1 = none) :
    (scanString (δ := δ) quote l).2.input.length < l.input.length := by
  unfold scanString at h ⊢
  cases input : l.input with
  | nil => simp [input] at h
  | cons b rest =>
      simp only [input] at h ⊢
      by_cases closed : b = quote
      · simp [closed] at h
      · simp only [closed, if_false]
        cases (if b = 0x5c then readEscape escapes rest else none) with
        | some c => exact Nat.lt_succ_of_le (List.drop_suffix 1 rest).length_le
        | none => exact Nat.lt_succ_self _

theorem scanFstr_length {l : Scanner} (h : (scanFstr (δ := δ) l).1 = none) :
    (scanFstr (δ := δ) l).2.input.length < l.input.length := by
  unfold scanFstr at h ⊢
  cases input : l.input with
  | nil => simp [input] at h
  | cons b rest =>
      simp only [input] at h ⊢
      split_ifs at h ⊢
      · cases readEscape fstrEscapes rest with
        | some c => exact Nat.lt_succ_of_le (List.drop_suffix 1 rest).length_le
        | none => exact Nat.lt_succ_self _
      · exact Nat.lt_succ_self _
      · exact Nat.lt_succ_of_le (List.dropWhile_suffix _).length_le

theorem step_length {floats : Floats δ} {l : Scanner} (h : (step floats l).1 = none) :
    (step floats l).2.input.length < l.input.length := by
  unfold step at h ⊢
  cases start : l.start with
  | initial => simpa only [start] using scanInitial_length (by simpa only [start] using h)
  | mlComment => simpa only [start] using scanMlComment_length (by simpa only [start] using h)
  | strSq => simpa only [start] using scanString_length (by simpa only [start] using h)
  | strDq => simpa only [start] using scanString_length (by simpa only [start] using h)
  | fstr => simpa only [start] using scanFstr_length (by simpa only [start] using h)

theorem scan_isSome (floats : Floats δ) {n : Nat} {l : Scanner} (h : l.input.length < n) :
    (scan floats n l).isSome := by
  induction n generalizing l with
  | zero => exact absurd h (Nat.not_lt_zero _)
  | succ n ih =>
      unfold scan
      cases returned : (step floats l).1 with
      | some result => rfl
      | none => exact ih (Nat.lt_of_lt_of_le (step_length returned) (Nat.le_of_lt_succ h))

def yylex (floats : Floats δ) (l : Scanner) : Result δ × Scanner :=
  (scan floats (l.input.length + 1) l).get (scan_isSome floats (Nat.lt_succ_self _))

theorem scan_succ {floats : Floats δ} {n : Nat} {l : Scanner} {x : Result δ × Scanner}
    (h : scan floats n l = some x) : scan floats (n + 1) l = some x := by
  induction n generalizing l with
  | zero => cases h
  | succ n ih =>
      rw [scan] at h ⊢
      cases returned : (step floats l).1 with
      | some result => simpa only [returned] using h
      | none => exact ih (by simpa only [returned] using h)

theorem scan_of_le {floats : Floats δ} {n m : Nat} (bound : n ≤ m) {l : Scanner}
    {x : Result δ × Scanner} (h : scan floats n l = some x) : scan floats m l = some x := by
  induction bound with
  | refl => exact h
  | step _ ih => exact scan_succ ih

theorem scan_eq_yylex {floats : Floats δ} {n : Nat} {l : Scanner} (h : l.input.length < n) :
    scan floats n l = some (yylex floats l) :=
  scan_of_le h (Option.some_get _).symm

theorem yylex_of_some {floats : Floats δ} {l : Scanner} {result : Result δ}
    (h : (step floats l).1 = some result) : yylex floats l = (result, (step floats l).2) := by
  apply Option.some.inj
  rw [yylex, Option.some_get, scan, h]

theorem yylex_of_none {floats : Floats δ} {l : Scanner} (h : (step floats l).1 = none) :
    yylex floats l = yylex floats (step floats l).2 := by
  apply Option.some.inj
  rw [← scan_eq_yylex (Nat.lt_succ_self l.input.length), ← scan_eq_yylex (step_length h), scan, h]

end Rules

end Dux.Lexer
